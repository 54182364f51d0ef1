import Mathlib
import ResourceQuery.Proofs.Reading.Guards
import ResourceQuery.Proofs.Reading.Parse
import ResourceQuery.Proofs.Writing.Length

/-!
# Reading by recursion

Reading keeps the combinations that are open on a stack of its own. A function that calls itself
for each operand reads the same way, with its calls for a stack. Before each call within a call
stand a keyword and a parenthesis, three bytes at least, so the length of a text bounds how many
calls are ever one within the other. This holds of texts that are no queries too.
-/

namespace ResourceQuery

open Grammar (BeforeFrames BeforeOperand)
open Place (expect_eq_ok)
open Situation (Reads Ends)
open Text (byteLength)

/-! ## The recursion -/

/-- What reads one query, or gives up. It never leaves more than it was given. -/
structure Reader where
  read : List Token → Option Reading
  length_le : ∀ tokens reading, read tokens = some reading → reading.rest.length ≤ tokens.length

/-- Reads on from a place in a query to its end. Its operands are read by `operand`. -/
def readFrom (operand : Reader) (length : Nat) (place : Place) (tokens : List Token) :
    Option Reading :=
  match tokens with
  | [] => some ⟨Situation.atEnd length ⟨[], place⟩, []⟩
  | token :: rest =>
    match place.move token with
    | .error error => some ⟨.error error, token :: rest⟩
    | .ok (.goTo next) => readFrom operand length next rest
    | .ok (.dispatch op) => readFrom operand length (.opening op) rest
    | .ok (.finish query) => some ⟨.ok query, rest⟩
    | .ok (.descend op before) =>
      match _ : operand.read rest with
      | none => none
      | some ⟨.error error, after⟩ => some ⟨.error error, after⟩
      | some ⟨.ok query, after⟩ => readFrom operand length (Frame.resume ⟨op, before⟩ query) after
termination_by tokens.length
decreasing_by
  · exact Nat.lt_succ_self _
  · exact Nat.lt_succ_self _
  · exact Nat.lt_succ_of_le (operand.length_le _ _ ‹_›)

theorem length_le_of_readFrom {operand : Reader} {length : Nat} {place : Place}
    {tokens : List Token} {reading : Reading}
    (h : readFrom operand length place tokens = some reading) :
    reading.rest.length ≤ tokens.length := by
  fun_induction readFrom operand length place tokens with
  | case1 | case2 =>
    cases h
    exact Nat.le_refl _
  | case3 _ _ _ _ _ ih => exact (ih h).trans (Nat.le_succ _)
  | case4 _ _ _ _ _ ih => exact (ih h).trans (Nat.le_succ _)
  | case5 =>
    cases h
    exact Nat.le_succ _
  | case6 => cases h
  | case7 _ _ _ _ _ _ _ _ hasked =>
    cases h
    exact (operand.length_le _ _ hasked).trans (Nat.le_succ _)
  | case8 _ _ _ _ _ _ _ _ hasked ih =>
    exact (ih h).trans ((operand.length_le _ _ hasked).trans (Nat.le_succ _))

/-- Reads a query with no more than so many calls one within the other. -/
def Reader.nested (length : Nat) : Nat → Reader
  | 0 => ⟨fun _ => none, fun _ _ h => nomatch h⟩
  | calls + 1 => ⟨readFrom (nested length calls) length .query, fun _ _ => length_le_of_readFrom⟩

/-- Parses a text with no more than so many calls one within the other, or gives up. -/
def parseWithin (calls : Nat) (text : String) : Option (Except SyntaxError Query) :=
  ((Reader.nested (byteLength text.toList) calls).read (tokenize text)).map fun reading =>
    reading.outcome.bind (Parser.nothingAfter ⟨reading.rest, byteLength text.toList⟩)

/-! ## An operand on the stack -/

section

variable (length : Nat) (frame : Frame) (frames : List Frame)

/-- The combination around what ends is not closed. -/
theorem atEnd_within (situation : Situation) :
    (situation.within (frame :: frames)).atEnd length =
      (situation.atEnd length).bind fun query =>
        .error ((frame.resume query).refuseEnd length) := by
  obtain ⟨inner, place⟩ := situation
  simp only [Situation.atEnd, Situation.within]
  cases place.complete? with
  | none => rfl
  | some query => cases inner <;> rfl

/-- Reading an operand comes first, and what follows it is read in the combination around it. -/
theorem value_read_within (situation : Situation) (tokens : List Token) :
    ((situation.within (frame :: frames)).read length tokens).value =
      match (situation.read length tokens).value with
      | ⟨.error error, rest⟩ => ⟨.error error, rest⟩
      | ⟨.ok query, rest⟩ =>
        ((⟨frames, frame.resume query⟩ : Situation).read length rest).value := by
  have hends := Situation.ends_read length situation tokens
  generalize (situation.read length tokens).value = reading at hends
  cases hends with
  | done hreads => exact (hreads.within (frame :: frames)).value_read_on length _
  | @refused _ _ token next error hreads hstep =>
    have hstep' : (next.within (frame :: frames)).step token = .error error := by
      rw [Situation.step_within, hstep]
      rfl
    exact (hreads.within (frame :: frames)).value_read_refused length hstep' _
  | @usedUp _ next hreads =>
    have hread := (hreads.within (frame :: frames)).value_read_on length []
    rw [List.append_nil] at hread
    rw [hread, Situation.value_read_nil, atEnd_within]
    -- where the end completes the operand, the combination lacks its parenthesis
    cases next.atEnd length with
    | error error => rfl
    | ok query => rfl

end

/-! ## The bytes before a place -/

/-- So many bytes of a query come before a place in it, if not more. -/
def Place.behind : Place → Nat
  | query => 0
  | opening _ => 2
  | _ => 3

def Move.behind : Move → Nat
  | goTo place => place.behind
  | dispatch _ => 2
  | _ => 3

theorem Place.behind_le (place : Place) : place.behind ≤ 3 := by
  cases place <;> simp [behind]

theorem Move.behind_le (move : Move) : move.behind ≤ 3 := by
  cases move with
  | goTo place => exact place.behind_le
  | _ => simp [behind]

/-- A token that moves reading on has the bytes between the two places. -/
theorem behind_le_of_move {place : Place} {token : Token} {move : Move} (hproper : token.Proper)
    (h : place.move token = .ok move) :
    move.behind ≤ place.behind + byteLength token.text.toList := by
  have hwidth := hproper.one_le_width
  have hmove := move.behind_le
  cases place with
  | query =>
    simp only [Place.move] at h
    split at h
    next op hkind =>
      cases h
      rw [hproper.width_keyword hkind]
      exact (two_le_width_word op).trans (Nat.le_add_left _ _)
    next => cases h
  | opening op =>
    show move.behind ≤ 2 + _
    omega
  | _ => exact hmove.trans (Nat.le_add_right _ _)

theorem width_le_of_suffix {later tokens : List Token} (h : later <:+ tokens) :
    width later ≤ width tokens := by
  obtain ⟨front, rfl⟩ := h
  rw [width_append]
  exact Nat.le_add_left _ _

/-! ## Recursion reads the same -/

section

variable {operand : Reader} {length : Nat}

/-- With the right operands, reading on by recursion is reading on with a stack. -/
theorem readFrom_eq {place : Place} {tokens : List Token}
    (hproper : ∀ token ∈ tokens, token.Proper)
    (hoperand : ∀ later, later <:+ tokens → width later + 3 ≤ place.behind + width tokens →
      operand.read later = some (Situation.start.read length later).value) :
    readFrom operand length place tokens =
      some ((⟨[], place⟩ : Situation).read length tokens).value := by
  induction hlength : tokens.length using Nat.strong_induction_on generalizing place tokens with
  | _ n ih =>
    subst hlength
    cases tokens with
    | nil =>
      rw [readFrom]
      rfl
    | cons token rest =>
      obtain ⟨htoken, -⟩ := List.forall_mem_cons.1 hproper
      -- from wherever the token leads to, the operands are right again
      have hnext : ∀ next later, later <:+ rest →
          next.behind + width later ≤ place.behind + width (token :: rest) →
          readFrom operand length next later =
            some ((⟨[], next⟩ : Situation).read length later).value := by
        intro next later hlater hwidth
        have hsuffix := hlater.trans (List.suffix_cons token rest)
        refine ih later.length ?_ ?_ ?_ rfl
        · exact Nat.lt_succ_of_le hlater.length_le
        · exact fun other hother => hproper other (hsuffix.mem hother)
        · exact fun last hlast hle => hoperand last (hlast.trans hsuffix) (hle.trans hwidth)
      rw [readFrom, Situation.value_read_cons, Situation.step]
      cases hmove : place.move token with
      | error error => rfl
      | ok move =>
        have hbehind := behind_le_of_move htoken hmove
        have hwidth : move.behind + width rest ≤ place.behind + width (token :: rest) := by
          rw [width_cons]
          omega
        cases move with
        | goTo next => exact hnext next rest (List.suffix_refl rest) hwidth
        | dispatch op => exact hnext (.opening op) rest (List.suffix_refl rest) hwidth
        | finish query => rfl
        | descend op before =>
          have hasked : width rest + 3 ≤ place.behind + width (token :: rest) := by
            rwa [Nat.add_comm]
          have hends := Situation.ends_read length .start rest
          have hread := value_read_within length ⟨op, before⟩ [] .start rest
          have hoperand' := hoperand rest (List.suffix_cons token rest) hasked
          show _ = some ((Situation.start.within [⟨op, before⟩]).read length rest).value
          rw [hread]
          generalize (Situation.start.read length rest).value = reading at hends hoperand'
          dsimp only
          split
          next hnone =>
            rw [hnone] at hoperand'
            cases hoperand'
          next error after hsome =>
            rw [hsome] at hoperand'
            cases hoperand'
            rfl
          next query later hsome =>
            rw [hsome] at hoperand'
            cases hoperand'
            have hlater : 3 + width later ≤ place.behind + width (token :: rest) :=
              (Nat.add_le_add_left (width_le_of_suffix hends.rest_suffix) 3).trans hwidth
            exact hnext _ later hends.rest_suffix hlater

/-- So many calls suffice if the tokens do not have three bytes for each. -/
theorem read_nested {calls : Nat} {tokens : List Token} (hproper : ∀ token ∈ tokens, token.Proper)
    (hcalls : width tokens < 3 * calls) :
    (Reader.nested length calls).read tokens =
      some (Situation.start.read length tokens).value := by
  induction calls generalizing tokens with
  | zero => exact absurd hcalls (Nat.not_lt_zero _)
  | succ calls ih =>
    refine readFrom_eq hproper fun later hlater hwidth => ih ?_ ?_
    · exact fun token htoken => hproper token (hlater.mem htoken)
    · rw [Place.behind] at hwidth
      omega

end

/-- With calls enough for its length, a text is parsed. -/
theorem parseWithin_eq {calls : Nat} {text : String} (h : byteLength text.toList < 3 * calls) :
    parseWithin calls text = some (parse text) := by
  have hproper : ∀ token ∈ tokenize text, token.Proper := fun _ => proper_of_mem_tokenize
  have hwidth := (width_tokenize_le text).trans_lt h
  rw [parseWithin, read_nested hproper hwidth, parse_eq]
  rfl

/-! ## Calls and depth -/

/-- The depth of the operands that have been read at a place. -/
def Place.levels : Place → Nat
  | closing whole => whole.levelsBelow
  | afterOperand _ operands => Query.depthOfAll operands
  | _ => 0

def Move.levels : Move → Nat
  | goTo place => place.levels
  | dispatch _ => 0
  | descend _ before => Query.depthOfAll before
  | finish whole => whole.levelsBelow

theorem levels_fill (slot : Slot) (value : Literal) : (slot.fill value).levels = 0 := by
  cases slot <;> rfl

theorem levels_of_moveValue {place : Place} {token : Token} {slot : Slot} {move : Move}
    (h : place.moveValue token slot = .ok move) : move.levels = 0 := by
  have hliteral : (Place.readLiteral token).map (fun value => Move.goTo (slot.fill value)) =
      .ok move → move.levels = 0 := by
    intro hread
    obtain ⟨value, -, rfl⟩ := map_eq_ok hread
    exact levels_fill slot value
  unfold Place.moveValue at h
  split at h
  next => exact hliteral h
  next => exact hliteral h
  next => exact hliteral h
  next =>
    cases h
    rfl
  next =>
    cases h
    rfl
  next => cases h

theorem levels_of_moveNumber {place : Place} {token : Token} {slot : Slot} {negative : Bool}
    {move : Move} (h : place.moveNumber token slot negative = .ok move) : move.levels = 0 := by
  unfold Place.moveNumber at h
  split at h
  next =>
    obtain ⟨value, -, rfl⟩ := map_eq_ok h
    exact levels_fill slot _
  next =>
    obtain ⟨value, -, rfl⟩ := map_eq_ok h
    exact levels_fill slot _
  next => cases h

/-- Only operands make what is read deeper, and no token is one. -/
theorem levels_le_of_move {place : Place} {token : Token} {move : Move}
    (h : place.move token = .ok move) : move.levels ≤ place.levels := by
  cases place with
  | value => exact (levels_of_moveValue h).le
  | number => exact (levels_of_moveNumber h).le
  | opening op =>
    obtain ⟨-, rfl⟩ := expect_eq_ok h
    cases op <;> exact Nat.le_refl 0
  | afterProperty test name =>
    obtain ⟨-, rfl⟩ := expect_eq_ok h
    cases test <;> exact Nat.le_refl 0
  | closing | property | bracket | fieldProperty | afterSecondCount =>
    obtain ⟨-, rfl⟩ := expect_eq_ok h
    exact Nat.le_refl _
  | firstCount | secondCount =>
    obtain ⟨-, -, rfl⟩ := Grammar.count_of_moveCount h
    exact Nat.le_refl 0
  | query | afterValue | afterField | afterFirstCount | afterOperand =>
    simp only [Place.move] at h
    split at h <;> cases h <;> exact Nat.le_refl _
  | firstValue =>
    simp only [Place.move] at h
    split at h
    next =>
      cases h
      exact Nat.le_refl _
    next => exact (levels_of_moveValue h).le
  | field =>
    simp only [Place.move] at h
    split at h
    next =>
      cases h
      exact Nat.le_refl _
    next =>
      cases h
      exact Nat.le_refl _
    next =>
      obtain ⟨-, rfl⟩ := expect_eq_ok h
      exact Nat.le_refl _

/-- Operands of so many levels make a query of one level more. -/
theorem depth_le_of_readFrom {operand : Reader} {length n : Nat} {place : Place}
    {tokens rest : List Token} {query : Query}
    (hoperand : ∀ tokens query rest,
      operand.read tokens = some ⟨.ok query, rest⟩ → query.depth ≤ n)
    (hlevels : place.levels ≤ n)
    (h : readFrom operand length place tokens = some ⟨.ok query, rest⟩) :
    query.depth ≤ 1 + n := by
  fun_induction readFrom operand length place tokens with
  | case1 place =>
    obtain ⟨hatEnd, -⟩ := Reading.mk.inj (Option.some.inj h)
    obtain ⟨-, hcomplete⟩ := Grammar.atEnd_eq_ok hatEnd
    rw [Query.depth_of_sort_or_limit (Grammar.operation_of_complete? hcomplete)]
    exact Nat.le_add_right 1 n
  | case2 => cases h
  | case3 place token rest next hmove ih => exact ih ((levels_le_of_move hmove).trans hlevels) h
  | case4 place token rest op hmove ih => exact ih ((levels_le_of_move hmove).trans hlevels) h
  | case5 place token rest whole hmove =>
    cases h
    rw [Query.depth_eq]
    exact Nat.add_le_add_left ((levels_le_of_move hmove).trans hlevels) 1
  | case6 => cases h
  | case7 => cases h
  | case8 place token rest op before hmove asked after hasked ih =>
    refine ih ?_ h
    show Query.depthOfAll (before ++ [asked]) ≤ n
    have hbefore : Query.depthOfAll before ≤ n := (levels_le_of_move hmove).trans hlevels
    rw [Query.depthOfAll_append, Query.depthOfAll, Query.depthOfAll]
    exact max_le hbefore (max_le (hoperand _ _ _ hasked) (Nat.zero_le n))

/-- Each level of a query takes a call. -/
theorem depth_le_of_read_nested {length calls : Nat} {tokens rest : List Token} {query : Query}
    (h : (Reader.nested length calls).read tokens = some ⟨.ok query, rest⟩) :
    query.depth ≤ calls := by
  induction calls generalizing tokens rest query with
  | zero => cases h
  | succ calls ih =>
    have hlevels : Place.query.levels ≤ calls := Nat.zero_le calls
    rw [Nat.add_comm]
    exact depth_le_of_readFrom (fun _ _ _ => ih) hlevels h

theorem depth_le_of_parseWithin {calls : Nat} {text : String} {query : Query}
    (h : parseWithin calls text = some (.ok query)) : query.depth ≤ calls := by
  obtain ⟨⟨outcome, rest⟩, hread, hquery⟩ := Option.map_eq_some_iff.1 h
  cases outcome with
  | error error => cases hquery
  | ok query' =>
    cases rest with
    | nil =>
      cases hquery
      exact depth_le_of_read_nested hread
    | cons => cases hquery

/-! ## The stack -/

theorem Grammar.BeforeOperand.width_le {tokens : List Token} {frame : Frame}
    (h : BeforeOperand tokens frame) (hproper : ∀ token ∈ tokens, token.Proper) :
    3 ≤ width tokens := by
  cases h with
  | @intro keyword opening _ _ hkeyword =>
    simp only [List.forall_mem_cons] at hproper
    obtain ⟨hkeyword', hopening', -⟩ := hproper
    have hword := hkeyword'.width_keyword hkeyword
    have hleast := two_le_width_word (.combination frame.op)
    have hopen := hopening'.one_le_width
    simp only [width_cons]
    omega

/-- Three bytes at least come before the operand of each combination that is open. -/
theorem Grammar.BeforeFrames.width_le {tokens : List Token} {frames : List Frame}
    (h : BeforeFrames tokens frames) (hproper : ∀ token ∈ tokens, token.Proper) :
    3 * frames.length ≤ width tokens := by
  induction h with
  | nil => exact Nat.zero_le _
  | cons _ hinner ih =>
    obtain ⟨houter, hlast⟩ := List.forall_mem_append.1 hproper
    have hwidth := ih houter
    have hwidth' := hinner.width_le hlast
    rw [width_append, List.length_cons]
    omega

theorem length_frames_le {text : String} {taken : List Token} {situation : Situation}
    (htaken : taken <+: tokenize text) (hreads : Reads .start taken (.on situation)) :
    situation.frames.length ≤ byteLength text.toList / 3 := by
  have htokens := width_tokenize_le text
  have hproper : ∀ token ∈ tokenize text, token.Proper := fun _ => proper_of_mem_tokenize
  obtain ⟨rest, hrest⟩ := htaken
  rw [← hrest] at htokens hproper
  cases Grammar.led_of_reads hreads with
  | @on _ _ frames _ hframes =>
    have hwidth := hframes.width_le fun token htoken => hproper token (by simp [htoken])
    simp only [width_append] at htokens
    show frames.length ≤ _
    omega

/-! ## Limits -/

/-- How a check with a bound on the length goes: the text is too long to be read, or it is read. -/
theorem check_of_length {limits : Limits} {bound : Nat} (h : limits.length = some bound)
    (text : String) :
    limits.check text = .error .noInput ∨
      limits.check text = .error (.tooLong (byteLength text.toList) bound) ∨
        byteLength text.toList ≤ bound ∧
          limits.check text = ((parse text).mapError Refusal.malformed).bind limits.checkDepth := by
  by_cases htokens : tokenize text = []
  · exact .inl (Limits.check_of_blank htokens)
  right
  by_cases hlt : bound < byteLength text.toList
  · exact .inl (Limits.check_of_tooLong htokens h hlt)
  · have hle : ∀ limit ∈ limits.length, byteLength text.toList ≤ limit := by
      intro limit hlimit
      rw [h] at hlimit
      cases hlimit
      exact Nat.le_of_not_lt hlt
    exact .inr ⟨Nat.le_of_not_lt hlt, Limits.check_of_le htokens hle⟩

/-- A query that is let through is the one that the text denotes, within the bound. -/
theorem length_of_check {limits : Limits} {bound : Nat} {text : String} {query : Query}
    (hbound : limits.length = some bound) (h : limits.check text = .ok query) :
    parse text = .ok query ∧ byteLength text.toList ≤ bound := by
  cases Limits.check_eq_iff.1 h with
  | passed hlength hparse => exact ⟨hparse, hlength bound hbound⟩

/--
The length of a text bounds how deep its query is, and no better bound holds for any depth from
two on. It bounds the calls that are one within the other while the text is read, of which each
level takes one, and the stack, whether the text is a query or not. So a bound on the length of the
texts that are let through bounds both.
-/
theorem length_bounds_nesting :
    (∀ text query, parse text = .ok query → 6 ≤ byteLength text.toList ∧
      (2 ≤ query.depth → 4 * query.depth + 3 ≤ byteLength text.toList)) ∧
    (∀ depth, 2 ≤ depth → ∃ text query, parse text = .ok query ∧ query.depth = depth ∧
      byteLength text.toList = 4 * depth + 3) ∧
    (∀ text, parseWithin (1 + byteLength text.toList / 3) text = some (parse text) ∧
      (∀ calls query, parseWithin calls text = some (.ok query) → query.depth ≤ calls) ∧
      ∀ taken situation, taken <+: tokenize text → Reads .start taken (.on situation) →
        1 + situation.frames.length ≤ 1 + byteLength text.toList / 3) ∧
    ∀ (limits : Limits) (bound : Nat) (text : String), limits.length = some bound →
      (∀ query, limits.check text = .ok query →
        2 ≤ query.depth → 4 * query.depth + 3 ≤ bound) ∧
      (limits.check text = .error .noInput ∨
        limits.check text = .error (.tooLong (byteLength text.toList) bound) ∨
        limits.check text = ((parse text).mapError Refusal.malformed).bind limits.checkDepth ∧
          parseWithin (1 + bound / 3) text = some (parse text)) := by
  refine ⟨fun _ _ => length_of_parse, ?attained, ?recursion, ?limited⟩
  case attained =>
    intro depth hdepth
    obtain ⟨n, rfl⟩ : ∃ n, depth = n + 1 := ⟨depth - 1, by omega⟩
    refine ⟨deepText n, deepQuery n, (closes_deepText n).parse_eq, depth_deepQuery n, ?_⟩
    rw [byteLength_deepText]
    omega
  case recursion =>
    intro text
    refine ⟨parseWithin_eq (by omega), fun _ _ => depth_le_of_parseWithin, ?_⟩
    exact fun _ _ htaken hreads => Nat.add_le_add_left (length_frames_le htaken hreads) 1
  case limited =>
    intro limits bound text hbound
    constructor
    · intro query hcheck hdepth
      obtain ⟨hparse, hle⟩ := length_of_check hbound hcheck
      exact ((length_of_parse hparse).2 hdepth).trans hle
    · rcases check_of_length hbound text with hblank | hlong | ⟨hle, hcheck⟩
      · exact .inl hblank
      · exact .inr (.inl hlong)
      · exact .inr (.inr ⟨hcheck, parseWithin_eq (by omega)⟩)

/-- Two levels in eleven bytes: four calls suffice for them, one does not, nor do ten bytes. -/
theorem two_levels_in_eleven_bytes :
    parseWithin 4 "or(sort(a))" = some (.ok (.combination .or [.sort [⟨"a", .asc⟩]])) ∧
      parseWithin 1 "or(sort(a))" ≠ some (.ok (.combination .or [.sort [⟨"a", .asc⟩]])) ∧
      ∀ text query, Limits.check ⟨some 10, none⟩ text = .ok query → query.depth < 2 := by
  obtain ⟨-, -, hcalls, hlimits⟩ := length_bounds_nesting
  have hparse : parse "or(sort(a))" = .ok (.combination .or [.sort [⟨"a", .asc⟩]]) := by cbv
  have hlength : 1 + byteLength "or(sort(a))".toList / 3 = 4 := by cbv
  obtain ⟨hwithin, hdepth, -⟩ := hcalls "or(sort(a))"
  rw [hlength, hparse] at hwithin
  refine ⟨hwithin, fun hone => ?_, fun text query hcheck => ?_⟩
  · have hle := hdepth 1 _ hone
    simp [Query.depth, Query.depthOfAll] at hle
  · by_contra hdeep
    have hle := (hlimits ⟨some 10, none⟩ 10 text rfl).1 query hcheck (Nat.le_of_not_lt hdeep)
    omega

end ResourceQuery
