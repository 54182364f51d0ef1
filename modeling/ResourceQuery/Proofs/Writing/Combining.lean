import ResourceQuery.Proofs.Reading.Closed
import ResourceQuery.Proofs.Reading.Kinds
import ResourceQuery.Proofs.Writing.RoundTrip

/-!
# Combining texts

Texts that close, put between the parentheses of a combination with commas between them, make up a
text that closes, whose operands are their queries. And what is wrong within one text is wrong in
the same way if the text is an operand: the open combination around it does not show in the report
of a token, only in where the token stands.
-/

namespace ResourceQuery

open Grammar (Closed Leading)
open Lexer (Spells)
open Situation (Reads)
open Text (byteLength)

/-! ## Texts of combinations -/

/-- The text of a combination of texts. -/
def combined (op : Combinator) (texts : List String) : String :=
  op.word ++ "(" ++ ",".intercalate texts ++ ")"

/-- The text of a combination up to the operand behind some texts. -/
def opened (op : Combinator) (texts : List String) : String :=
  op.word ++ "(" ++ String.join (texts.map (· ++ ","))

theorem toList_combined (op : Combinator) (texts : List String) :
    (combined op texts).toList = call (.combination op) (texts.map String.toList) := by
  simp [combined, call, commas, Operation.word, Mark.char]

/-- Texts with a comma behind each. -/
def leads (items : List (List Char)) : List Char :=
  items.flatMap (· ++ [Mark.comma.char])

theorem leads_cons (item : List Char) (items : List (List Char)) :
    leads (item :: items) = item ++ Mark.comma.char :: leads items := by
  rw [leads, List.flatMap_cons, List.append_assoc]
  rfl

theorem toList_opened (op : Combinator) (texts : List String) :
    (opened op texts).toList =
      op.word.toList ++ Mark.openParen.char :: leads (texts.map String.toList) := by
  simp [opened, leads, Mark.char, String.toList_join, List.flatMap_map]

/-- Every operand of a combination has a mark before it. -/
theorem exists_mark_last_opened (op : Combinator) (texts : List String) :
    ∃ mark : Mark, (opened op texts).toList.getLast? = some mark.char := by
  rw [toList_opened]
  rcases List.eq_nil_or_concat texts with rfl | ⟨before, last, rfl⟩
  · exact ⟨.openParen, by simp [leads]⟩
  · exact ⟨.comma, by simp [leads, List.getLast?_cons]⟩

section

variable (op : Combinator) {operands : List (String × Query)}
  (h : ∀ operand ∈ operands, Closes operand.1 operand.2)

include h

theorem spells_leads :
    Spells (leads ((operands.map Prod.fst).map String.toList)) fun spelt =>
      Leading Closed spelt (operands.map Prod.snd) := by
  induction operands with
  | nil => exact Spells.nil.mono fun _ hspelt => hspelt ▸ .nil
  | cons operand operands ih =>
    obtain ⟨hfirst, hrest⟩ := List.forall_mem_cons.1 h
    rw [List.map_cons, List.map_cons, List.map_cons, leads_cons]
    refine (hfirst.spells.append .comma (ih hrest)).mono ?_
    intro spelt hspelt
    obtain ⟨before, comma, behind, hbefore, hcomma, hbehind, rfl⟩ := hspelt
    exact hbehind.cons hbefore hcomma

/-- Texts that close, with commas between them, are the operands of a text that closes. -/
theorem closes_combined (hne : operands ≠ []) :
    Closes (combined op (operands.map Prod.fst)) (.combination op (operands.map Prod.snd)) := by
  have hitems : ∀ operand ∈ operands, Spells operand.1.toList fun spelt => Closed spelt operand.2 :=
    fun operand hoperand => (h operand hoperand).spells
  have hcall : Spells (call (.combination op) (operands.map fun operand => operand.1.toList))
      fun spelt => Closed spelt (.combination op (operands.map Prod.snd)) :=
    spells_call rfl ((spells_commas hne hitems).mono fun _ hjoined => .combination hjoined.map)
  have htext : operands.map (fun operand => operand.1.toList) =
      (operands.map Prod.fst).map String.toList := by
    rw [List.map_map]
    rfl
  rw [htext, ← toList_combined] at hcall
  have htokens := hcall.tokenize
  rw [String.ofList_toList] at htokens
  exact closes_iff.2 htokens

/-- Behind the operands before it, an operand is read within the one combination. -/
theorem reads_opened :
    Reads .start (tokenize (opened op (operands.map Prod.fst)))
      (.on (Situation.start.within [⟨op, operands.map Prod.snd⟩])) := by
  have hspells := (spells_keyword (.combination op)).append .openParen (spells_leads h)
  have htokens := hspells.tokenize
  rw [Operation.word, ← toList_opened, String.ofList_toList] at htokens
  obtain ⟨_, opening, leading, ⟨keyword, rfl, hkeyword⟩, hopening, hleading, htokens⟩ := htokens
  rw [htokens]
  exact (Grammar.reads_opening hkeyword hopening rfl).trans (Grammar.reads_leadingOperands hleading)

end

/-- The tokens of a text that stands as an operand, with a comma behind it. -/
theorem tokenize_opened_append (op : Combinator) (texts : List String) (text rest : String) :
    ∃ later, tokenize (opened op texts ++ text ++ "," ++ rest) = tokenize (opened op texts) ++
      (tokenize text).map (Token.moved (· + byteLength (opened op texts).toList)) ++ later := by
  have hopened : Seam (opened op texts).toList (text.toList ++ ',' :: rest.toList) :=
    .inr (.inr (.inl (exists_mark_last_opened op texts)))
  have hcomma : Seam text.toList (',' :: rest.toList) := .inr (.inr (.inr ⟨.comma, rfl⟩))
  have htext : (opened op texts ++ text ++ "," ++ rest).toList =
      (opened op texts).toList ++ (text.toList ++ ',' :: rest.toList) := by
    simp
  rw [tokenize, Lexer.ofString, htext, Lexer.tokens_append (hopened.meet _ _), Nat.zero_add,
    Lexer.tokens_append (hcomma.meet _ _), tokens_eq_tokenize text, ← List.append_assoc]
  exact ⟨_, rfl⟩

/--
What is wrong at a token of an operand is wrong there in the combination, whatever follows: the
report is the same but for the bytes before the operand.
-/
theorem FailsAt.in_combination {op : Combinator} {operands : List (String × Query)}
    (hoperands : ∀ operand ∈ operands, Closes operand.1 operand.2) {text : String} {i : Nat}
    {token : Token} {error : SyntaxError} (h : FailsAt text i token error)
    (hkind : error.kind ≠ .trailingInput) (rest : String) :
    let before := opened op (operands.map Prod.fst)
    let shift := (· + byteLength before.toList)
    FailsAt (before ++ text ++ "," ++ rest) ((tokenize before).length + i) (token.moved shift)
      (error.moved shift) := by
  intro before shift
  obtain ⟨taken, behind, situation, htext, rfl, hreads, hstep⟩ := h.refused hkind
  obtain ⟨later, htokens⟩ := tokenize_opened_append op (operands.map Prod.fst) text rest
  rw [htext, List.map_append, List.map_cons, ← List.append_assoc, List.append_assoc _ _ later,
    List.cons_append] at htokens
  -- up to the token at fault, reading goes on as it did in the text alone
  have hreads' := (reads_opened op hoperands).trans ((hreads.moved shift).within _)
  have hstep' : (situation.within [⟨op, operands.map Prod.snd⟩]).step (token.moved shift) =
      .error (error.moved shift) := by
    rw [Situation.step_within, Situation.step_moved, hstep]
    rfl
  have hparse := parse_of_refused htokens hreads' hstep'
  have hfails := failsAt_of_tokenize hparse htokens (congrArg shift h.position_eq)
  rwa [List.length_append, List.length_map] at hfails

/--
Texts that close can be put together to a combination that closes, with their queries as operands
in order. A text that has a fault at a token has the same fault as an operand behind such texts,
whatever follows it.
-/
theorem parse_combined (op : Combinator) {operands : List (String × Query)}
    (h : ∀ operand ∈ operands, Closes operand.1 operand.2) :
    (operands ≠ [] → Closes (combined op (operands.map Prod.fst))
      (.combination op (operands.map Prod.snd))) ∧
    ∀ text i token error, FailsAt text i token error → error.kind ≠ .trailingInput →
      ∀ rest,
        let before := opened op (operands.map Prod.fst)
        let shift := (· + byteLength before.toList)
        FailsAt (before ++ text ++ "," ++ rest) ((tokenize before).length + i)
          (token.moved shift) (error.moved shift) :=
  ⟨closes_combined op h, fun _ _ _ _ hfails hkind => hfails.in_combination h hkind⟩

/-- A third operand with a fault in a combination of its own, behind a name of two bytes. -/
theorem fault_of_third_operand :
    parse "and(eq(a,1), sort(-b) )" =
        .ok (.combination .and [.comparison .eq "a" (.integer 1), .sort [⟨"b", .desc⟩]]) ∧
      parse ("and(eq(a,1), sort(-b) ," ++ "or(lt(ü,))" ++ "," ++ ")]") =
        .error ⟨.expectedValue, "expected value, found ')'", 32⟩ := by
  have hoperands : ∀ operand ∈ [("eq(a,1)", Query.comparison .eq "a" (.integer 1)),
      (" sort(-b) ", .sort [⟨"b", .desc⟩])], Closes operand.1 operand.2 := by
    simp only [List.forall_mem_cons]
    exact ⟨⟨by cbv, ⟨.mark .closeParen, ")", 6⟩, by cbv, rfl⟩,
      ⟨by cbv, ⟨.mark .closeParen, ")", 8⟩, by cbv, rfl⟩, List.forall_mem_nil _⟩
  have hfails : FailsAt "or(lt(ü,))" 6 ⟨.mark .closeParen, ")", 9⟩
      ⟨.expectedValue, "expected value, found ')'", 9⟩ :=
    ⟨by cbv, by cbv, rfl⟩
  obtain ⟨hcloses, hfault⟩ := parse_combined .and hoperands
  have hparse := (hfault _ _ _ _ hfails (by decide) ")]").parse_eq
  have hopened : opened .and ["eq(a,1)", " sort(-b) "] = "and(eq(a,1), sort(-b) ," := by cbv
  have hlength : byteLength "and(eq(a,1), sort(-b) ,".toList = 23 := by cbv
  have hcombined : combined .and ["eq(a,1)", " sort(-b) "] = "and(eq(a,1), sort(-b) )" := by cbv
  have hwhole := (hcloses (List.cons_ne_nil _ _)).parse_eq
  simp only [List.map_cons, List.map_nil, hopened, hlength, hcombined] at hparse hwhole
  exact ⟨hwhole, hparse⟩

end ResourceQuery
