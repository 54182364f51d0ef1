import ResourceQuery.Command.Answer
import ResourceQuery.Proofs.Json.Spacing
import ResourceQuery.Proofs.Query.Decoding
import ResourceQuery.Proofs.Reading.Guards
import ResourceQuery.Proofs.Text.Lines

/-!
# How trees are presented

A tree is shown as one JSON document in two spacings. The indented text is the compact one with
spaces and line breaks outside of strings, and the compact text stands on one line, whatever the
texts of the tree hold.
-/

namespace ResourceQuery

namespace Query

/-- Without the spacing outside of strings, the text of a tree is its compact text. -/
theorem unspaced_toJson (query : Query) (spacing : Json.Spacing) :
    Json.unspaced (query.toJson spacing) = query.toJson .compact :=
  Json.unspaced_write query.readable_document spacing

theorem isPrintable_toJson (query : Query) :
    ∀ c ∈ (query.toJson .compact).toList, Json.isPrintable c :=
  Json.isPrintable_write_compact query.readable_document

/-- The compact text of a tree, ended by a line break, is one line. -/
theorem lines_toJson (query : Query) :
    Text.lines (query.toJson .compact ++ "\n").toList = ([(query.toJson .compact).toList], []) := by
  have hunbroken : '\n' ∉ (query.toJson .compact).toList := by
    intro hbreak
    exact absurd (query.isPrintable_toJson '\n' hbreak) (by decide)
  rw [String.toList_append]
  exact Text.lines_of_unbroken hunbroken []

end Query

namespace Request

section

variable {request : Request} {text : String} {query : Query}

theorem value_present_of_check (hcommand : request.command = .check) :
    (request.present text).value =
      (request.options.limits.check text).map fun _ => "Syntax is valid\n" := by
  unfold present
  rw [hcommand]
  rfl

theorem value_present_of_ast (hcommand : request.command = .ast) :
    (request.present text).value = (request.options.limits.check text).map fun query =>
      query.toJson (if request.options.pretty then .indented else .compact) ++ "\n" := by
  unfold present
  rw [hcommand]
  rfl

/-- The tokens are listed whatever a check would come to. -/
theorem value_present_of_tokens (hcommand : request.command = .tokens) :
    (request.present text).value = .ok (tokenListing text) := by
  unfold present
  rw [hcommand]
  rfl

/-- An accepted query is shown as JSON, in the spacing that is asked for. -/
theorem value_present_ast (hcommand : request.command = .ast)
    (hcheck : request.options.limits.check text = .ok query) :
    (request.present text).value =
      .ok (query.toJson (if request.options.pretty then .indented else .compact) ++ "\n") := by
  rw [value_present_of_ast hcommand, hcheck]
  rfl

end

end Request

theorem Answer.value_ofRequest_eq_ofOutcome {request : Request} {input : ByteArray} {text : String}
    (htext : request.text input = .ok text) :
    (ofRequest request input).value = ofOutcome (request.present text).value := by
  unfold ofRequest
  rw [htext]
  rfl

/-- What is shown of the text of a request is the whole output. -/
theorem Answer.value_ofRequest {request : Request} {input : ByteArray} {text output : String}
    (htext : request.text input = .ok text)
    (hpresent : (request.present text).value = .ok output) :
    (ofRequest request input).value = ⟨0, output, ""⟩ := by
  rw [value_ofRequest_eq_ofOutcome htext, hpresent]
  rfl

/--
The two spacings of a tree are the same document: the indented text without the spaces and line
breaks outside of its strings is the compact text. That has no control character, so it is one line
of output when a query is accepted and its tree is not asked for indented.
-/
theorem json_in_two_spacings (query : Query) :
    Json.unspaced (query.toJson .indented) = query.toJson .compact ∧
      (∀ c ∈ (query.toJson .compact).toList, 0x20 ≤ c.toNat) ∧
      ∀ (request : Request) (input : ByteArray) (text : String), request.command = .ast →
        request.options.pretty = false → request.text input = .ok text →
        request.options.limits.check text = .ok query →
        ∃ output, (Answer.ofRequest request input).value = ⟨0, output, ""⟩ ∧
          Text.lines output.toList = ([(query.toJson .compact).toList], []) := by
  refine ⟨query.unspaced_toJson .indented, fun c hc => ?_, ?_⟩
  · exact of_decide_eq_true (query.isPrintable_toJson c hc)
  · intro request input text hcommand hpretty htext hcheck
    have hpresent := Request.value_present_ast hcommand hcheck
    rw [hpretty, if_neg Bool.false_ne_true] at hpresent
    exact ⟨_, Answer.value_ofRequest htext hpresent, query.lines_toJson⟩

/-- A property with a quotation mark, a backslash, a line break and blanks, and an empty list. -/
theorem one_line_of_broken_property :
    ∃ query output, parse "or(in(a \"\\\n b,[]),eq(c,-0.0))" = .ok query ∧
      Json.unspaced (query.toJson .indented) = query.toJson .compact ∧
      (Answer.ofRequest ⟨.ast, {}, some "or(in(a \"\\\n b,[]),eq(c,-0.0))"⟩ ByteArray.empty).value =
        ⟨0, output, ""⟩ ∧
      Text.lines output.toList = ([(query.toJson .compact).toList], []) := by
  have hparse : parse "or(in(a \"\\\n b,[]),eq(c,-0.0))" =
      .ok (.combination .or [.membership .inside "a \"\\\n b" [],
        .comparison .eq "c" (.float ⟨true, 0, by decide⟩)]) := by
    cbv
  have hcheck : Limits.check ⟨none, none⟩ "or(in(a \"\\\n b,[]),eq(c,-0.0))" =
      .ok (.combination .or [.membership .inside "a \"\\\n b" [],
        .comparison .eq "c" (.float ⟨true, 0, by decide⟩)]) := by
    rw [Limits.check_unlimited (tokenize_ne_nil_of_parse hparse), hparse]
    rfl
  obtain ⟨hunspaced, -, hline⟩ := json_in_two_spacings (.combination .or
    [.membership .inside "a \"\\\n b" [], .comparison .eq "c" (.float ⟨true, 0, by decide⟩)])
  obtain ⟨output, hanswer, hlines⟩ :=
    hline ⟨.ast, {}, some "or(in(a \"\\\n b,[]),eq(c,-0.0))"⟩ ByteArray.empty _ rfl rfl rfl hcheck
  exact ⟨_, output, hparse, hunspaced, hanswer, hlines⟩

end ResourceQuery
