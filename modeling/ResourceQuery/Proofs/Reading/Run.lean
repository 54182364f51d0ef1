import ResourceQuery.Parser

/-!
# Runs of reading

Reading is a machine that takes one token at a time. `Situation.step` is what one token does to
it, and `Reads` chains the steps in which tokens are taken without a complaint. Every run comes to
one of three ends, which `value_read` tells apart: a query is complete, a token is refused, or the
tokens are used up.
-/

namespace ResourceQuery

theorem map_eq_ok {ε α β : Type} {x : Except ε α} {f : α → β} {y : β} (h : x.map f = .ok y) :
    ∃ a, x = .ok a ∧ f a = y := by
  cases x with
  | error => cases h
  | ok a =>
    cases h
    exact ⟨a, rfl, rfl⟩

theorem bind_eq_ok {ε α β : Type} {x : Except ε α} {f : α → Except ε β} {y : β}
    (h : x >>= f = .ok y) : ∃ a, x = .ok a ∧ f a = .ok y := by
  cases x with
  | error => cases h
  | ok a => exact ⟨a, rfl, h⟩

theorem map_eq_error {ε α β : Type} {f : α → β} {x : Except ε α} {error : ε}
    (h : x.map f = .error error) : x = .error error := by
  cases x with
  | error =>
    cases h
    rfl
  | ok => cases h

namespace Place

theorem expect_eq_ok {place : Place} {kind : Kind} {token : Token} {move move' : Move}
    (h : place.expect kind token move = .ok move') : token.kind = kind ∧ move = move' := by
  unfold expect at h
  split at h
  next hkind =>
    cases h
    exact ⟨of_decide_eq_true hkind, rfl⟩
  next => cases h

theorem expect_of_kind {place : Place} {kind : Kind} {token : Token} {move : Move}
    (h : token.kind = kind) : place.expect kind token move = .ok move := by
  have htoken : token.is kind = true := decide_eq_true h
  rw [expect, if_pos htoken]

end Place

namespace Situation

/-- Where a token leads from a situation, or the error if it does not fit. -/
def step (situation : Situation) (token : Token) : Except SyntaxError Next :=
  (situation.place.move token).map (after situation.frames)

/-- From a situation, reading takes all of a token list and comes to `next`. -/
inductive Reads : Situation → List Token → Next → Prop
  | nil {situation : Situation} : Reads situation [] (.on situation)
  | last {situation : Situation} {token : Token} {query : Query}
      (hstep : situation.step token = .ok (.done query)) :
      Reads situation [token] (.done query)
  | cons {situation next : Situation} {token : Token} {tokens : List Token} {last : Next}
      (hstep : situation.step token = .ok (.on next)) (hreads : Reads next tokens last) :
      Reads situation (token :: tokens) last

/-- One token taken. -/
theorem Reads.one {situation : Situation} {token : Token} {next : Next}
    (hstep : situation.step token = .ok next) : Reads situation [token] next := by
  cases next with
  | done query => exact .last hstep
  | on next => exact .cons hstep .nil

theorem Reads.trans {situation middle : Situation} {tokens tokens' : List Token} {next : Next}
    (h : Reads situation tokens (.on middle)) (h' : Reads middle tokens' next) :
    Reads situation (tokens ++ tokens') next := by
  -- a run that goes on has not come to a query
  generalize hlast : Next.on middle = last at h
  induction h with
  | nil =>
    cases hlast
    exact h'
  | last => cases hlast
  | cons hstep _ ih => exact .cons hstep (ih hlast)

/-- One more token taken at the end. -/
theorem Reads.snoc {situation middle : Situation} {tokens : List Token} {token : Token}
    {next : Next} (h : Reads situation tokens (.on middle)) (hstep : middle.step token = .ok next) :
    Reads situation (tokens ++ [token]) next :=
  h.trans (.one hstep)

/-- A token list leads from a situation to one end only. -/
theorem Reads.unique {situation : Situation} {tokens : List Token} {next next' : Next}
    (h : Reads situation tokens next) (h' : Reads situation tokens next') : next = next' := by
  induction h with
  | nil =>
    cases h'
    rfl
  | last hstep =>
    cases h' with
    | last hstep' =>
      rw [hstep] at hstep'
      cases hstep'
      rfl
    | cons hstep' =>
      rw [hstep] at hstep'
      cases hstep'
  | cons hstep hreads ih =>
    cases h' with
    | last hstep' =>
      rw [hstep] at hstep'
      cases hstep'
    | cons hstep' hreads' =>
      rw [hstep] at hstep'
      cases hstep'
      exact ih hreads'

/-- A move that fits leads on from any frames. -/
theorem step_of_move {frames : List Frame} {place : Place} {token : Token} {move : Move}
    (h : place.move token = .ok move) : step ⟨frames, place⟩ token = .ok (after frames move) := by
  simp only [step, h]
  rfl

/-! ## Within open combinations -/

section

/-- A situation with more combinations open around it. -/
def within (outer : List Frame) (situation : Situation) : Situation :=
  ⟨situation.frames ++ outer, situation.place⟩

/-- Where reading is if more combinations are open around it. -/
def Next.within (outer : List Frame) : Next → Next
  | .done query => complete query outer
  | .on situation => .on (situation.within outer)

variable (outer : List Frame)

theorem complete_within (query : Query) (frames : List Frame) :
    complete query (frames ++ outer) = (complete query frames).within outer := by
  cases frames <;> rfl

theorem after_within (frames : List Frame) (move : Move) :
    after (frames ++ outer) move = (after frames move).within outer := by
  cases move with
  | finish query => exact complete_within outer query frames
  | _ => rfl

/-- What one token does depends on no combination further out. -/
theorem step_within (situation : Situation) (token : Token) :
    (situation.within outer).step token = (situation.step token).map (Next.within outer) := by
  simp only [step, within]
  cases situation.place.move token with
  | error error => rfl
  | ok move => exact congrArg Except.ok (after_within outer situation.frames move)

/-- A run goes the same way within open combinations. -/
theorem Reads.within {situation : Situation} {tokens : List Token} {next : Next}
    (h : Reads situation tokens next) :
    Reads (situation.within outer) tokens (next.within outer) := by
  induction h with
  | nil => exact .nil
  | last hstep =>
    refine .one ?_
    rw [step_within, hstep]
    rfl
  | cons hstep _ ih =>
    refine .cons ?_ ih
    rw [step_within, hstep]
    rfl

end

/-! ## What a run comes to -/

variable (length : Nat)

theorem value_read_nil (situation : Situation) :
    (situation.read length []).value = ⟨situation.atEnd length, []⟩ := rfl

theorem value_read_cons (situation : Situation) (token : Token) (rest : List Token) :
    (situation.read length (token :: rest)).value =
      match situation.step token with
      | .error error => ⟨.error error, token :: rest⟩
      | .ok (.done query) => ⟨.ok query, rest⟩
      | .ok (.on next) => (next.read length rest).value := by
  simp only [read, step]
  cases situation.place.move token with
  | error error => rfl
  | ok move =>
    simp only [Except.map]
    cases after situation.frames move with
    | done query => rfl
    | on next => rfl

theorem Reads.value_read_on {situation next : Situation} {tokens : List Token}
    (h : Reads situation tokens (.on next)) (rest : List Token) :
    (situation.read length (tokens ++ rest)).value = (next.read length rest).value := by
  generalize hlast : Next.on next = last at h
  induction h with
  | nil =>
    cases hlast
    rfl
  | last => cases hlast
  | cons hstep _ ih =>
    rw [List.cons_append, value_read_cons, hstep]
    exact ih hlast

theorem Reads.value_read_done {situation : Situation} {tokens : List Token} {query : Query}
    (h : Reads situation tokens (.done query)) (rest : List Token) :
    (situation.read length (tokens ++ rest)).value = ⟨.ok query, rest⟩ := by
  generalize hlast : Next.done query = last at h
  induction h with
  | nil => cases hlast
  | last hstep =>
    cases hlast
    rw [List.cons_append, value_read_cons, hstep]
    rfl
  | cons hstep _ ih =>
    rw [List.cons_append, value_read_cons, hstep]
    exact ih hlast

theorem Reads.value_read_refused {situation next : Situation} {tokens : List Token} {token : Token}
    {error : SyntaxError} (h : Reads situation tokens (.on next))
    (hstep : next.step token = .error error) (rest : List Token) :
    (situation.read length (tokens ++ token :: rest)).value = ⟨.error error, token :: rest⟩ := by
  rw [h.value_read_on length, value_read_cons, hstep]

/-- The three ends of a run. -/
inductive Ends (length : Nat) (situation : Situation) : List Token → Reading → Prop
  /-- A query is complete; what follows it is not looked at. -/
  | done {taken rest : List Token} {query : Query} (hreads : Reads situation taken (.done query)) :
      Ends length situation (taken ++ rest) ⟨.ok query, rest⟩
  /-- A token does not fit; what follows it is not looked at. -/
  | refused {taken rest : List Token} {token : Token} {next : Situation} {error : SyntaxError}
      (hreads : Reads situation taken (.on next)) (hstep : next.step token = .error error) :
      Ends length situation (taken ++ token :: rest) ⟨.error error, token :: rest⟩
  /-- The tokens are used up before a query is closed. -/
  | usedUp {tokens : List Token} {next : Situation} (hreads : Reads situation tokens (.on next)) :
      Ends length situation tokens ⟨next.atEnd length, []⟩

/-- What is left after a run was there before it. -/
theorem Ends.rest_suffix {situation : Situation} {tokens : List Token} {reading : Reading}
    {length : Nat} (h : Ends length situation tokens reading) : reading.rest <:+ tokens := by
  cases h with
  | done => exact List.suffix_append _ _
  | refused => exact List.suffix_append _ _
  | usedUp => exact List.nil_suffix

/-- Every run comes to one of the three ends. -/
theorem ends_read (length : Nat) (situation : Situation) (tokens : List Token) :
    Ends length situation tokens (situation.read length tokens).value := by
  induction tokens generalizing situation with
  | nil => exact .usedUp .nil
  | cons token rest ih =>
    rw [value_read_cons]
    split
    next error hstep =>
      show Ends length situation ([] ++ token :: rest) _
      exact .refused .nil hstep
    next query hstep =>
      show Ends length situation ([token] ++ rest) _
      exact .done (.last hstep)
    next next hstep =>
      -- the run goes on, and its first token belongs to what has been taken
      have hends := ih next
      generalize (next.read length rest).value = reading at hends ⊢
      cases hends with
      | done hreads =>
        rw [← List.cons_append]
        exact .done (.cons hstep hreads)
      | refused hreads hstep' =>
        rw [← List.cons_append]
        exact .refused (.cons hstep hreads) hstep'
      | usedUp hreads => exact .usedUp (.cons hstep hreads)

end Situation

end ResourceQuery
