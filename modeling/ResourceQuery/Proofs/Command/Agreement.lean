import ResourceQuery.Proofs.Command.Line
import ResourceQuery.Proofs.Command.Presenting

/-!
# How commands agree

A text may be named on the command line or come as the input, and three commands show something of
it. Whether it is accepted depends on the text and the limits alone, so commands that check it end
with the same status and report the same refusal, and nothing is shown of a text that is refused.
-/

namespace ResourceQuery

/--
A command line and an input by which a text is handed to a command: it is named behind the end of
the options, or no query is named and it is the input.
-/
inductive Handed (command : Command) (options : Options) (text : String) :
    List String → ByteArray → Prop
  | named {args : List String} (hargs : "--" ∉ args)
      (hrequest : Request.ofArguments args = .ok ⟨command, options, none⟩) (input : ByteArray) :
      Handed command options text (args ++ ["--", text]) input
  | asInput {args : List String}
      (hrequest : Request.ofArguments args = .ok ⟨command, options, none⟩) :
      Handed command options text args text.toUTF8

theorem fromUTF8?_toUTF8 (text : String) : String.fromUTF8? text.toUTF8 = some text :=
  dif_pos text.isValidUTF8

section

variable {command command' : Command} {options : Options} {text : String} {args : List String}
variable {input : ByteArray} {limits : Limits} {pretty pretty' : Bool}

/-- Either way the request is the same, but for where its text comes from. -/
theorem Handed.exists_request (h : Handed command options text args input) :
    ∃ query, Request.ofArguments args = .ok ⟨command, options, query⟩ ∧
      Request.text ⟨command, options, query⟩ input = .ok text := by
  cases h with
  | named hargs hrequest => exact ⟨some text, Request.ofArguments_named hargs hrequest text, rfl⟩
  | asInput hrequest =>
    refine ⟨none, hrequest, ?_⟩
    simp only [Request.text, fromUTF8?_toUTF8]

namespace Answer

/-- What a command comes to for a text under some limits, the events on the way aside. -/
inductive Due (limits : Limits) (text : String) (pretty : Bool) : Command → Answer → Prop
  | valid {query : Query} (hcheck : limits.check text = .ok query) :
      Due limits text pretty .check ⟨0, "Syntax is valid\n", ""⟩
  | tree {query : Query} (hcheck : limits.check text = .ok query) :
      Due limits text pretty .ast
        ⟨0, query.toJson (if pretty then .indented else .compact) ++ "\n", ""⟩
  | refused {command : Command} {refusal : Refusal} (hcommand : command ≠ .tokens)
      (hcheck : limits.check text = .error refusal) :
      Due limits text pretty command ⟨1, "", refusal.report ++ "\n"⟩
  | listing : Due limits text pretty .tokens ⟨0, tokenListing text, ""⟩

theorem due_ofOutcome (request : Request) (text : String) :
    Due request.options.limits text request.options.pretty request.command
      (ofOutcome (request.present text).value) := by
  cases hcommand : request.command with
  | tokens =>
    rw [Request.value_present_of_tokens hcommand]
    exact .listing
  | check =>
    rw [Request.value_present_of_check hcommand]
    cases hcheck : request.options.limits.check text with
    | ok query => exact .valid hcheck
    | error refusal => exact .refused (by decide) hcheck
  | ast =>
    rw [Request.value_present_of_ast hcommand]
    cases hcheck : request.options.limits.check text with
    | ok query => exact .tree hcheck
    | error refusal => exact .refused (by decide) hcheck

@[simp]
theorem status_shown (verbose : Bool) (answer : Logged Answer) :
    (shown verbose answer).status = answer.value.status := by
  cases verbose <;> rfl

@[simp]
theorem output_shown (verbose : Bool) (answer : Logged Answer) :
    (shown verbose answer).output = answer.value.output := by
  cases verbose <;> rfl

/-- What is shown is what the command comes to, and only a verbose one tells of more. -/
theorem exists_due (h : Handed command options text args input) :
    ∃ due, Due options.limits text options.pretty command due ∧
      (ofArguments args input).status = due.status ∧
      (ofArguments args input).output = due.output ∧
      (options.verbose = false → (ofArguments args input).errors = due.errors) := by
  obtain ⟨query, hrequest, htext⟩ := h.exists_request
  have hshown : ofArguments args input =
      shown options.verbose (ofRequest ⟨command, options, query⟩ input) := by
    rw [ofArguments, hrequest]
  have hvalue := value_ofRequest_eq_ofOutcome htext
  refine ⟨_, due_ofOutcome ⟨command, options, query⟩ text, ?_, ?_, fun hverbose => ?_⟩
  · rw [hshown, status_shown, hvalue]
  · rw [hshown, output_shown, hvalue]
  · rw [hshown, hverbose, ← hvalue]
    rfl

theorem Due.status_eq_zero_iff {due : Answer} (h : Due limits text pretty command due)
    (hcommand : command ≠ .tokens) : due.status = 0 ↔ ∃ query, limits.check text = .ok query := by
  cases h with
  | valid hcheck | tree hcheck => exact ⟨fun _ => ⟨_, hcheck⟩, fun _ => rfl⟩
  | refused _ hcheck =>
    rw [hcheck]
    simp
  | listing => exact absurd rfl hcommand

/-- Commands that check a text come to the same status and the same errors. -/
theorem Due.agree {due due' : Answer} (h : Due limits text pretty command due)
    (h' : Due limits text pretty' command' due') (hcommand : command ≠ .tokens)
    (hcommand' : command' ≠ .tokens) : due.status = due'.status ∧ due.errors = due'.errors := by
  cases h with
  | valid hcheck | tree hcheck =>
    cases h' with
    | valid | tree => exact ⟨rfl, rfl⟩
    | refused _ hcheck' =>
      rw [hcheck] at hcheck'
      cases hcheck'
    | listing => exact absurd rfl hcommand'
  | refused _ hcheck =>
    cases h' with
    | valid hcheck' | tree hcheck' =>
      rw [hcheck] at hcheck'
      cases hcheck'
    | refused _ hcheck' =>
      rw [hcheck] at hcheck'
      cases hcheck'
      exact ⟨rfl, rfl⟩
    | listing => exact absurd rfl hcommand'
  | listing => exact absurd rfl hcommand

end Answer

end

/--
The commands agree on every text, under all limits and by both ways in which it may be handed to
them. Each of them can be asked for under any limits of 64 bits. It comes to what is due: if the
text passes its check, a sentence or its tree, and otherwise a refusal and no output; the tokens are
listed in any case. So a command that checks the text ends with the status zero exactly if it
passes, and two that do end with the same status and report the same; only when asked to be verbose
they tell of more.
-/
theorem commands_agree (limits : Limits) (text : String) :
    (limits.Fits → ∀ command verbose pretty input, (pretty = true → command = .ast) →
      Handed command ⟨limits, verbose, pretty⟩ text
          (command.line ⟨limits, verbose, pretty⟩ ++ ["--", text]) input ∧
        Handed command ⟨limits, verbose, pretty⟩ text
          (command.line ⟨limits, verbose, pretty⟩) text.toUTF8) ∧
    (∀ command verbose pretty args input,
      Handed command ⟨limits, verbose, pretty⟩ text args input →
      let answer := Answer.ofArguments args input
      (∃ due, Answer.Due limits text pretty command due ∧ answer.status = due.status ∧
        answer.output = due.output ∧ (verbose = false → answer.errors = due.errors)) ∧
      (command ≠ .tokens → (answer.status = 0 ↔ ∃ query, limits.check text = .ok query))) ∧
    ∀ command command' verbose verbose' pretty pretty' args args' input input',
      Handed command ⟨limits, verbose, pretty⟩ text args input →
      Handed command' ⟨limits, verbose', pretty'⟩ text args' input' →
      command ≠ .tokens → command' ≠ .tokens →
      let answer := Answer.ofArguments args input
      let answer' := Answer.ofArguments args' input'
      answer.status = answer'.status ∧
        (verbose = false → verbose' = false → answer.errors = answer'.errors) := by
  refine ⟨fun hfits command verbose pretty input hpretty => ?_, ?_, ?_⟩
  · have hline : Request.ofArguments (command.line ⟨limits, verbose, pretty⟩) =
        .ok ⟨command, ⟨limits, verbose, pretty⟩, none⟩ := Command.ofArguments_line hfits hpretty
    exact ⟨.named (Command.hyphens_not_mem_line _ _) hline input, .asInput hline⟩
  · intro command verbose pretty args input hhanded
    obtain ⟨due, hdue, hstatus, hanswer⟩ := Answer.exists_due hhanded
    refine ⟨⟨due, hdue, hstatus, hanswer⟩, fun hcommand => ?_⟩
    rw [hstatus]
    exact hdue.status_eq_zero_iff hcommand
  · intro command command' verbose verbose' pretty pretty' args args' input input' hhanded hhanded'
      hcommand hcommand'
    obtain ⟨due, hdue, hstatus, -, herrors⟩ := Answer.exists_due hhanded
    obtain ⟨due', hdue', hstatus', -, herrors'⟩ := Answer.exists_due hhanded'
    obtain ⟨hsame, hreport⟩ := hdue.agree hdue' hcommand hcommand'
    refine ⟨?_, fun hverbose hverbose' => ?_⟩
    · rw [hstatus, hstatus', hsame]
    · rw [herrors hverbose, herrors' hverbose', hreport]

/-- Three levels where two are let through: named for a check, and as the input for its tree. -/
theorem agreement_on_nested_query :
    let text := " and(or(eq(a,1)))"
    let named := Answer.ofArguments
      ["--max-length", "17", "check", "--max-depth=2", "--", text] ByteArray.empty
    let asInput := Answer.ofArguments
      ["--max-length", "17", "--max-depth", "2", "ast", "--pretty"] text.toUTF8
    named.status = 1 ∧ named.output = "" ∧
      named.errors = "Query is nested 3 levels deep, limit is 2\n" ∧
      named.status = asInput.status ∧ named.errors = asInput.errors := by
  intro text named asInput
  have hparse : parse text =
      .ok (.combination .and [.combination .or [.comparison .eq "a" (.integer 1)]]) := by
    cbv
  have hlength : Text.byteLength text.toList = 17 := by cbv
  have hcheck : Limits.check ⟨some 17, some 2⟩ text = .error (.tooDeep 3 2) := by
    rw [Limits.check_eq_tooDeep_iff]
    refine ⟨?_, _, hparse, rfl, rfl, by decide⟩
    rintro _ ⟨⟩
    exact Nat.le_of_eq hlength
  obtain ⟨hlines, hdue, hagree⟩ := commands_agree ⟨some 17, some 2⟩ text
  have hfits : Limits.Fits ⟨some 17, some 2⟩ := by
    constructor
    · rintro _ ⟨⟩
      decide
    · rintro _ ⟨⟩
      decide
  have hrequest : Request.ofArguments ["--max-length", "17", "check", "--max-depth=2"] =
      .ok ⟨.check, ⟨⟨some 17, some 2⟩, false, false⟩, none⟩ := by
    decide
  have hnamed : Handed .check ⟨⟨some 17, some 2⟩, false, false⟩ text
      ["--max-length", "17", "check", "--max-depth=2", "--", text] ByteArray.empty :=
    .named (by decide) hrequest _
  have hasInput : Handed .ast ⟨⟨some 17, some 2⟩, false, true⟩ text
      ["--max-length", "17", "--max-depth", "2", "ast", "--pretty"] text.toUTF8 :=
    (hlines hfits .ast false true ByteArray.empty fun _ => rfl).2
  obtain ⟨⟨due, hrefused, hstatus, houtput, herrors⟩, -⟩ := hdue .check false false _ _ hnamed
  obtain ⟨hsame, hreport⟩ :=
    hagree .check .ast false false false true _ _ _ _ hnamed hasInput (by decide) (by decide)
  have hsameErrors := hreport rfl rfl
  cases hrefused with
  | valid hcheck' =>
    rw [hcheck] at hcheck'
    cases hcheck'
  | refused _ hcheck' =>
    rw [hcheck] at hcheck'
    cases hcheck'
    exact ⟨hstatus, houtput, (herrors rfl).trans (by decide), hsame, hsameErrors⟩

end ResourceQuery
