import ResourceQuery.Check
import ResourceQuery.Proofs.Reading.Parse
import ResourceQuery.Proofs.Reading.Refusal

/-!
# The events of a run

A parse tells of its tokens in order: each is cut off, and a keyword is then taken as the start of
an operation. Of a token that is refused only the cutting is told, of later ones nothing. At the
end stands one verdict, and a check adds one event if it is passed. A check that never comes to
parsing tells nothing.
-/

namespace ResourceQuery

open Situation (Reads)

/-- What is told of a token that is taken. -/
def Token.told (token : Token) : List Event :=
  match token.kind.operation? with
  | some op => [.token token, .dispatch op token.position]
  | none => [.token token]

/-! ## One token -/

namespace Place

/-- A keyword that fits is dispatched. -/
theorem dispatch_of_keyword {place : Place} {token : Token} {op : Operation} {move : Move}
    (hkind : token.kind = .keyword op) (h : place.move token = .ok move) :
    move = .dispatch op := by
  cases place with
  | query =>
    simp only [Place.move, hkind] at h
    cases h
    rfl
  | _ =>
    -- every other place asks for another kind
    simp [Place.move, expect, moveCount, moveValue, moveNumber, Token.is, hkind] at h

theorem moveCount_ne_dispatch {place : Place} {token : Token} {next : UInt64 → Place}
    {op : Operation} : place.moveCount token next ≠ .ok (.dispatch op) := by
  intro h
  unfold moveCount at h
  split at h
  next =>
    obtain ⟨count, -, hmove⟩ := map_eq_ok h
    cases hmove
  next => cases h

theorem moveValue_ne_dispatch {place : Place} {token : Token} {slot : Slot} {op : Operation} :
    place.moveValue token slot ≠ .ok (.dispatch op) := by
  intro h
  unfold moveValue at h
  split at h
  iterate 3
    next =>
      obtain ⟨value, -, hmove⟩ := map_eq_ok h
      cases hmove
  all_goals cases h

theorem moveNumber_ne_dispatch {place : Place} {token : Token} {slot : Slot} {negative : Bool}
    {op : Operation} : place.moveNumber token slot negative ≠ .ok (.dispatch op) := by
  intro h
  unfold moveNumber at h
  split at h
  iterate 2
    next =>
      obtain ⟨value, -, hmove⟩ := map_eq_ok h
      cases hmove
  next => cases h

/-- What is dispatched is a keyword. -/
theorem keyword_of_dispatch {place : Place} {token : Token} {op : Operation}
    (h : place.move token = .ok (.dispatch op)) : token.kind = .keyword op := by
  cases place with
  | query =>
    simp only [Place.move] at h
    split at h
    next hkind =>
      cases h
      exact hkind
    next => cases h
  | opening op' =>
    obtain ⟨-, hmove⟩ := expect_eq_ok h
    cases op' <;> cases hmove
  | property | afterProperty | bracket | closing | fieldProperty | afterSecondCount =>
    obtain ⟨-, hmove⟩ := expect_eq_ok h
    cases hmove
  | firstCount | secondCount => exact absurd h moveCount_ne_dispatch
  | value => exact absurd h moveValue_ne_dispatch
  | number => exact absurd h moveNumber_ne_dispatch
  | firstValue =>
    simp only [Place.move] at h
    split at h
    next => cases h
    next => exact absurd h moveValue_ne_dispatch
  | field =>
    simp only [Place.move] at h
    split at h
    next => cases h
    next => cases h
    next =>
      obtain ⟨-, hmove⟩ := expect_eq_ok h
      cases hmove
  | afterValue | afterField | afterFirstCount | afterOperand =>
    simp only [Place.move] at h
    split at h
    all_goals cases h

/-- What is told of a token that is taken is that it was cut off, and what its move tells. -/
theorem told_of_move {place : Place} {token : Token} {move : Move}
    (h : place.move token = .ok move) : token.told = .token token :: move.events token := by
  unfold Token.told
  cases hkind : token.kind with
  | keyword op =>
    rw [dispatch_of_keyword hkind h]
    rfl
  | _ =>
    cases move with
    | dispatch op =>
      rw [keyword_of_dispatch h] at hkind
      cases hkind
    | _ => rfl

end Place

/-! ## A run -/

namespace Situation

variable (length : Nat)

theorem log_read_cons (situation : Situation) (token : Token) (rest : List Token) :
    (situation.read length (token :: rest)).log =
      match situation.place.move token with
      | .error _ => []
      | .ok move =>
        match after situation.frames move with
        | .done _ => move.events token ++ cutOff rest
        | .on next => move.events token ++ cutOff rest ++ (next.read length rest).log := by
  simp only [read]
  cases situation.place.move token with
  | error error => rfl
  | ok move =>
    dsimp only
    cases after situation.frames move with
    | done query => rfl
    | on next => rfl

/-- A token that leads on is told of in full before anything of the tokens behind it. -/
theorem log_read_of_step_on {situation next : Situation} {token : Token}
    (hstep : situation.step token = .ok (.on next)) (rest : List Token) :
    Event.token token :: (situation.read length (token :: rest)).log =
      token.told ++ (cutOff rest ++ (next.read length rest).log) := by
  obtain ⟨move, hmove, hafter⟩ := map_eq_ok hstep
  rw [log_read_cons, hmove]
  dsimp only
  rw [hafter, Place.told_of_move hmove]
  simp

theorem log_read_of_step_done {situation : Situation} {token : Token} {query : Query}
    (hstep : situation.step token = .ok (.done query)) (rest : List Token) :
    Event.token token :: (situation.read length (token :: rest)).log =
      token.told ++ cutOff rest := by
  obtain ⟨move, hmove, hafter⟩ := map_eq_ok hstep
  rw [log_read_cons, hmove]
  dsimp only
  rw [hafter, Place.told_of_move hmove]
  simp

/-- The tokens taken are told of in full, and then comes what is told from there on. -/
theorem Reads.log_read_on {situation next : Situation} {tokens : List Token}
    (h : Reads situation tokens (.on next)) (rest : List Token) :
    cutOff (tokens ++ rest) ++ (situation.read length (tokens ++ rest)).log =
      tokens.flatMap Token.told ++ (cutOff rest ++ (next.read length rest).log) := by
  generalize hlast : Next.on next = last at h
  -- along the run: the events of a step are told in full before those of the next
  induction h with
  | nil =>
    cases hlast
    rfl
  | last => cases hlast
  | cons hstep _ ih =>
    rw [List.cons_append, cutOff, List.singleton_append, log_read_of_step_on length hstep, ih hlast,
      List.flatMap_cons, List.append_assoc]

theorem Reads.log_read_done {situation : Situation} {tokens : List Token} {query : Query}
    (h : Reads situation tokens (.done query)) (rest : List Token) :
    cutOff (tokens ++ rest) ++ (situation.read length (tokens ++ rest)).log =
      tokens.flatMap Token.told ++ cutOff rest := by
  generalize hlast : Next.done query = last at h
  induction h with
  | nil => cases hlast
  | last hstep =>
    rw [List.cons_append, cutOff, List.singleton_append, List.nil_append,
      log_read_of_step_done length hstep, List.flatMap_singleton]
  | cons hstep _ ih =>
    rw [List.cons_append, cutOff, List.singleton_append, log_read_of_step_on length hstep, ih hlast,
      List.flatMap_cons, List.append_assoc]

/-- Of a token that is refused only the cutting is told. -/
theorem Reads.log_read_refused {situation next : Situation} {tokens : List Token} {token : Token}
    {error : SyntaxError} (h : Reads situation tokens (.on next))
    (hstep : next.step token = .error error) (rest : List Token) :
    cutOff (tokens ++ token :: rest) ++ (situation.read length (tokens ++ token :: rest)).log =
      tokens.flatMap Token.told ++ [.token token] := by
  rw [h.log_read_on, log_read_cons, map_eq_error hstep]
  rfl

/-- When the tokens are used up, all of them have been told of. -/
theorem Reads.log_read_usedUp {situation next : Situation} {tokens : List Token}
    (h : Reads situation tokens (.on next)) :
    cutOff tokens ++ (situation.read length tokens).log = tokens.flatMap Token.told := by
  have hlog := h.log_read_on length []
  rw [List.append_nil] at hlog
  rw [hlog]
  exact List.append_nil _

end Situation

/-! ## Parsing and checking -/

theorem log_parseLogged (text : String) :
    (parseLogged text).log =
      cutOff (tokenize text) ++
        (Situation.start.read (Text.byteLength text.toList) (tokenize text)).log ++
        [Parser.verdict (parse text)] := by
  rw [← endPosition_ofString]
  simp [parse, parseLogged, Parser.ofLexer, Parser.readAll, Parser.readQuery, Logged.tell, tokenize]

/-- Before a query is accepted, all tokens have been told of. -/
theorem log_of_parse_ok {text : String} {query : Query} (h : parse text = .ok query) :
    (parseLogged text).log =
      (tokenize text).flatMap Token.told ++ [.parsed query.operation query.depth] := by
  have hends := ends_readingOf text
  rw [parse_eq_ok_iff.1 h] at hends
  rw [log_parseLogged, h]
  generalize tokenize text = tokens at hends ⊢
  generalize hreading : Reading.mk (.ok query) [] = reading at hends
  -- the query was closed by the last token, or left open at the end
  cases hends with
  | done hreads =>
    cases hreading
    rw [hreads.log_read_done, cutOff, List.append_nil, List.append_nil]
    rfl
  | refused => cases hreading
  | usedUp hreads =>
    rw [hreads.log_read_usedUp]
    rfl

/-- What is told where parsing fails at a token or at the end. -/
inductive ToldRejected (text : String) (error : SyntaxError) : List Event → Prop
  | atToken {before after : List Token} {token : Token}
      (hstands : StandsAt text error.position before token after) :
      ToldRejected text error (before.flatMap Token.told ++ [.token token, .rejected error])
  | atEnd (hposition : error.position = Text.byteLength text.toList) :
      ToldRejected text error ((tokenize text).flatMap Token.told ++ [.rejected error])

/-- Before an error at a token, the tokens before it have been told of, and it has been cut off. -/
theorem toldRejected_of_parse_error {text : String} {error : SyntaxError}
    (h : parse text = .error error) : ToldRejected text error (parseLogged text).log := by
  rw [log_parseLogged, h]
  cases fails_of_parse h with
  | @refused taken rest token situation htokens hreads hstep =>
    have hmem : token ∈ tokenize text := by simp [htokens]
    have hstands := standsAt_of_tokenize htokens
    rw [← position_of_step (Lexer.genuine_of_mem_tokens hmem) hstep] at hstands
    rw [htokens, hreads.log_read_refused _ hstep, List.append_assoc]
    exact .atToken hstands
  | usedUp hreads hend =>
    rw [hreads.log_read_usedUp]
    exact .atEnd (position_of_atEnd hend)
  | @trailing taken rest token query htokens hreads herror =>
    have hstands := standsAt_of_tokenize htokens
    have hposition : error.position = token.position := by rw [herror]
    rw [← hposition] at hstands
    rw [htokens, hreads.log_read_done, List.append_assoc]
    exact .atToken hstands

/-- What a check tells, given its outcome and what parsing the text tells. -/
def toldOfCheck (parsing : List Event) : Except Refusal Query → List Event
  | .error .noInput => []
  | .error (.tooLong _ _) => []
  | .error _ => parsing
  | .ok query => parsing ++ [.valid query.operation]

theorem log_checkLogged (limits : Limits) (text : String) :
    (limits.checkLogged text).log =
      toldOfCheck (parseLogged text).log (limits.check text) := by
  unfold Limits.check Limits.checkLogged
  dsimp only
  split
  next => rfl
  next =>
    split
    next => rfl
    next =>
      simp only [Logged.log_bind, Logged.value_bind, Logged.log_pure, Logged.value_pure,
        Logged.tell, List.append_nil]
      cases (parseLogged text).value with
      | error error =>
        show (parseLogged text).log ++ [] = (parseLogged text).log
        exact List.append_nil _
      | ok query =>
        show (parseLogged text).log ++ Limits.passed (limits.checkDepth query) =
          toldOfCheck (parseLogged text).log (limits.checkDepth query)
        unfold Limits.checkDepth
        split
        next => exact List.append_nil _
        next => rfl

/--
The events of every parse and every check. A parse tells of its tokens in full up to where it
stops, of the token it stops at only that it was cut off, and then its verdict. A check that
refuses a text unread tells nothing; any other tells what parsing tells, and that the query is
valid exactly if it is passed.
-/
theorem events_of_parse_and_check (text : String) (limits : Limits) :
    (∀ query, parse text = .ok query →
      (parseLogged text).log =
        (tokenize text).flatMap Token.told ++ [.parsed query.operation query.depth]) ∧
      (∀ error, parse text = .error error → ToldRejected text error (parseLogged text).log) ∧
      (limits.checkLogged text).log =
        toldOfCheck (parseLogged text).log (limits.check text) :=
  ⟨fun _ h => log_of_parse_ok h, fun _ h => toldRejected_of_parse_error h,
    log_checkLogged limits text⟩

end ResourceQuery
