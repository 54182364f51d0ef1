import ResourceQuery.Command.Line
import ResourceQuery.Proofs.Number.Standard
import ResourceQuery.Proofs.Reading.Run

/-!
# Reading command lines

A command line is read from the left to the right, one argument or one option with its number at a
time. What has been read is not looked at again, so a command line that asks for a command and names
no query can be given one behind the end of its options. Every command can be asked for under any
limits of 64 bits.
-/

namespace ResourceQuery

/-- Two hyphens are the only argument that ends the options. -/
theorem Argument.ofString_eq_endOfOptions {arg : String} :
    ofString arg = .endOfOptions ↔ arg = "--" := by
  constructor
  · intro h
    unfold ofString at h
    split at h
    next hchars => exact String.toList_inj.1 hchars
    next =>
      unfold ofLong at h
      split_ifs at h
    all_goals cases h
  · rintro rfl
    rfl

namespace CommandLine

/-- What the first arguments do to a command line: one argument, or an option and its number. -/
inductive Takes (line : CommandLine) : List String → CommandLine → Prop
  | behindOptions {arg : String} {next : CommandLine} (hended : line.ended = true)
      (htake : line.take arg = .ok next) : Takes line [arg] next
  | endOfOptions (hended : line.ended = false) : Takes line ["--"] { line with ended := true }
  | positional {arg text : String} {next : CommandLine} (hended : line.ended = false)
      (harg : Argument.ofString arg = .positional text) (htake : line.take text = .ok next) :
      Takes line [arg] next
  | flags {arg : String} {flags : List (Option Flag)} {next : CommandLine}
      (hended : line.ended = false) (harg : Argument.ofString arg = .flags flags)
      (hset : flags.foldlM setFlag line = .ok next) : Takes line [arg] next
  | bound {arg : String} {bound : Bound} {number : String} {next : CommandLine}
      (hended : line.ended = false) (harg : Argument.ofString arg = .bound bound (some number))
      (hset : line.setBound bound number = .ok next) : Takes line [arg] next
  | boundAndNumber {arg : String} {bound : Bound} {number : String} {next : CommandLine}
      (hended : line.ended = false) (harg : Argument.ofString arg = .bound bound none)
      (hnumber : Argument.isOption number = false)
      (hset : line.setBound bound number = .ok next) : Takes line [arg, number] next

/-- How arguments are read one after the other. -/
inductive Reads : CommandLine → List String → CommandLine → Prop
  | nil {line : CommandLine} : Reads line [] line
  | cons {line next result : CommandLine} {first rest : List String}
      (hfirst : Takes line first next) (hrest : Reads next rest result) :
      Reads line (first ++ rest) result

variable {line next result : CommandLine} {args : List String}

/-- What has been read leaves the rest to be read, whatever it is. -/
theorem Takes.read_append (h : Takes line args next) (rest : List String) :
    line.read (args ++ rest) = next.read rest := by
  cases h with
  | behindOptions hended htake =>
    rw [List.singleton_append, read, if_pos hended, htake]
    rfl
  | endOfOptions hended =>
    rw [List.singleton_append, read, hended, if_neg Bool.false_ne_true]
    rfl
  | positional hended harg hset | flags hended harg hset | bound hended harg hset =>
    rw [List.singleton_append, read, hended, if_neg Bool.false_ne_true, harg]
    dsimp only
    rw [hset]
    rfl
  | boundAndNumber hended harg hnumber hset =>
    rw [List.cons_append, List.singleton_append, read, hended, if_neg Bool.false_ne_true, harg]
    dsimp only
    rw [hnumber, if_neg Bool.false_ne_true, hset]
    rfl

theorem Reads.read_append (h : Reads line args result) (rest : List String) :
    line.read (args ++ rest) = result.read rest := by
  induction h with
  | nil => rfl
  | cons hfirst _ ih => rw [List.append_assoc, hfirst.read_append, ih]

theorem reads_of_read (h : line.read args = .ok result) : Reads line args result := by
  induction line, args using read.induct generalizing result with
  | case1 line =>
    cases h
    exact .nil
  | case2 line arg args hended ih =>
    rw [read, if_pos hended] at h
    obtain ⟨next, htake, hrest⟩ := bind_eq_ok h
    exact .cons (.behindOptions hended htake) (ih next hrest)
  | case3 line arg args hended harg ih =>
    rw [read, if_neg hended, harg] at h
    obtain rfl := Argument.ofString_eq_endOfOptions.1 harg
    exact .cons (.endOfOptions (Bool.eq_false_iff.2 hended)) (ih h)
  | case4 line arg args hended text harg ih =>
    rw [read, if_neg hended, harg] at h
    obtain ⟨next, htake, hrest⟩ := bind_eq_ok h
    exact .cons (.positional (Bool.eq_false_iff.2 hended) harg htake) (ih next hrest)
  | case5 line arg args hended flags harg ih =>
    rw [read, if_neg hended, harg] at h
    obtain ⟨next, hset, hrest⟩ := bind_eq_ok h
    exact .cons (.flags (Bool.eq_false_iff.2 hended) harg hset) (ih next hrest)
  | case6 line arg args hended bound number harg ih =>
    rw [read, if_neg hended, harg] at h
    obtain ⟨next, hset, hrest⟩ := bind_eq_ok h
    exact .cons (.bound (Bool.eq_false_iff.2 hended) harg hset) (ih next hrest)
  | case7 line arg hended bound harg =>
    rw [read, if_neg hended, harg] at h
    cases h
  | case8 line arg hended bound harg number args hnumber =>
    rw [read, if_neg hended, harg] at h
    dsimp only at h
    rw [if_pos hnumber] at h
    cases h
  | case9 line arg hended bound harg number args hnumber ih =>
    rw [read, if_neg hended, harg] at h
    dsimp only at h
    rw [if_neg hnumber] at h
    obtain ⟨next, hset, hrest⟩ := bind_eq_ok h
    exact .cons (.boundAndNumber (Bool.eq_false_iff.2 hended) harg (Bool.eq_false_iff.2 hnumber)
      hset) (ih next hrest)

theorem Reads.append {args' : List String} {last : CommandLine} (h : Reads line args result)
    (h' : Reads result args' last) : Reads line (args ++ args') last := by
  induction h with
  | nil => exact h'
  | cons hfirst _ ih =>
    rw [List.append_assoc]
    exact .cons hfirst (ih h')

theorem Takes.reads (h : Takes line args next) : Reads line args next := by
  have hcons := Reads.cons h .nil
  rwa [List.append_nil] at hcons

/-- Reading comes to a command line exactly if the arguments lead to it one after the other. -/
theorem read_eq_ok_iff : line.read args = .ok result ↔ Reads line args result := by
  constructor
  · exact reads_of_read
  · intro h
    have hread := h.read_append []
    rwa [List.append_nil] at hread

/-! ## The end of the options -/

theorem ended_of_modify {change : Options → Except Stop Options}
    (h : line.modify change = .ok next) : next.ended = line.ended := by
  unfold modify at h
  split at h
  · obtain ⟨options, -, rfl⟩ := map_eq_ok h
    rfl
  · obtain ⟨options, -, rfl⟩ := map_eq_ok h
    rfl

theorem ended_of_setBound {bound : Bound} {number : String}
    (h : line.setBound bound number = .ok next) : next.ended = line.ended := by
  unfold setBound at h
  split at h
  · exact ended_of_modify h
  · cases h

theorem ended_of_setFlags {flags : List (Option Flag)}
    (h : flags.foldlM setFlag line = .ok next) : next.ended = line.ended := by
  induction flags generalizing line with
  | nil =>
    cases h
    rfl
  | cons flag flags ih =>
    rw [List.foldlM_cons] at h
    obtain ⟨middle, hflag, hflags⟩ := bind_eq_ok h
    exact (ih hflags).trans (ended_of_modify hflag)

theorem ended_of_take {text : String} (h : line.take text = .ok next) :
    next.ended = line.ended := by
  unfold take at h
  split at h
  · split at h
    · split_ifs at h
      cases h
      rfl
    · cases h
  · split_ifs at h
    cases h
    rfl

theorem Takes.ended_eq (h : Takes line args next) (hargs : "--" ∉ args) :
    next.ended = line.ended := by
  cases h with
  | behindOptions _ htake | positional _ _ htake => exact ended_of_take htake
  | endOfOptions => exact absurd List.mem_cons_self hargs
  | flags _ _ hset => exact ended_of_setFlags hset
  | bound _ _ hset | boundAndNumber _ _ _ hset => exact ended_of_setBound hset

/-- Without two hyphens the options do not end. -/
theorem Reads.ended_eq (h : Reads line args result) (hargs : "--" ∉ args) :
    result.ended = line.ended := by
  induction h with
  | nil => rfl
  | cons hfirst _ ih =>
    rw [List.mem_append, not_or] at hargs
    exact (ih hargs.2).trans (hfirst.ended_eq hargs.1)

end CommandLine

namespace Request

theorem ofArguments_eq_ok_iff {args : List String} {command : Command} {options : Options}
    {query : Option String} :
    ofArguments args = .ok ⟨command, options, query⟩ ↔
      ∃ line, CommandLine.read {} args = .ok line ∧ line.command = some command ∧
        line.before.overruledBy line.after = options ∧ line.query = query := by
  constructor
  · intro h
    obtain ⟨line, hread, hline⟩ := bind_eq_ok h
    refine ⟨line, hread, ?_⟩
    cases hcommand : line.command with
    | none => simp [hcommand] at hline
    | some command' => simpa [hcommand] using hline
  · rintro ⟨⟨_, before, after, query, ended⟩, hread, hcommand, rfl, rfl⟩
    cases hcommand
    rw [ofArguments, hread]
    rfl

/-- A request without a query can be given one behind the end of the options, whatever it is. -/
theorem ofArguments_named {args : List String} {command : Command} {options : Options}
    (hargs : "--" ∉ args) (h : ofArguments args = .ok ⟨command, options, none⟩) (text : String) :
    ofArguments (args ++ ["--", text]) = .ok ⟨command, options, some text⟩ := by
  obtain ⟨line, hread, hcommand, hoptions, hquery⟩ := ofArguments_eq_ok_iff.1 h
  have hreads := CommandLine.read_eq_ok_iff.1 hread
  have hended : line.ended = false := hreads.ended_eq hargs
  have htake : CommandLine.take { line with ended := true } text =
      .ok { line with ended := true, query := some text } := by
    rw [CommandLine.take, hcommand]
    dsimp only
    rw [hquery, if_neg (by decide)]
  have hnamed := (hreads.append (CommandLine.Takes.endOfOptions hended).reads).append
    (CommandLine.Takes.behindOptions rfl htake).reads
  rw [List.append_assoc, ← CommandLine.read_eq_ok_iff] at hnamed
  exact ofArguments_eq_ok_iff.2 ⟨_, hnamed, hcommand, hoptions, rfl⟩

end Request

/-! ## A command line for every command -/

/-- Whether limits can be given on a command line: their bounds have at most 64 bits. -/
def Limits.Fits (limits : Limits) : Prop :=
  (∀ bound ∈ limits.length, bound < UInt64.size) ∧ ∀ bound ∈ limits.depth, bound < UInt64.size

/-- The name of a command. -/
def Command.name : Command → String
  | .check => "check"
  | .ast => "ast"
  | .tokens => "tokens"

/-- The option of a bound, with the bound if there is one. -/
def Bound.arguments : Bound → Option Nat → List String
  | .maxLength, some n => ["--max-length", toString n]
  | .maxDepth, some n => ["--max-depth", toString n]
  | _, none => []

/-- The arguments that ask for a command with some options; only what it prints can be pretty. -/
def Command.line (command : Command) (options : Options) : List String :=
  Bound.maxLength.arguments options.limits.length ++
    (Bound.maxDepth.arguments options.limits.depth ++
      ((if options.verbose then ["--verbose"] else []) ++
        (command.name :: if options.pretty then ["--pretty"] else [])))

/-- A number in decimal begins with a digit. -/
theorem exists_digit_toString (n : Nat) :
    ∃ c cs, (toString n).toList = c :: cs ∧ c.isDigit = true := by
  rw [toList_toString_nat]
  obtain ⟨hne, hdigits⟩ := Numeral.digits_digitChars n
  obtain ⟨c, cs, hcons⟩ := List.exists_cons_of_ne_nil hne
  exact ⟨c, cs, hcons, hdigits c (by rw [hcons]; exact List.mem_cons_self)⟩

/-- An argument that begins with another character than a hyphen is positional. -/
theorem Argument.ofString_of_ne_hyphen {arg : String} {c : Char} {cs : List Char}
    (harg : arg.toList = c :: cs) (hc : c ≠ '-') : ofString arg = .positional arg := by
  unfold ofString
  rw [harg]
  split
  next h => exact absurd (List.cons.inj h).1 hc
  next h => exact absurd (List.cons.inj h).1 hc
  next => rfl
  next h => exact absurd (List.cons.inj h).1 hc
  next => rfl

theorem Argument.isOption_toString (n : Nat) : isOption (toString n) = false := by
  obtain ⟨c, cs, hcons, hdigit⟩ := exists_digit_toString n
  have hc : c ≠ '-' := by
    rintro rfl
    exact absurd hdigit (by decide)
  rw [isOption, ofString_of_ne_hyphen hcons hc]

theorem toString_ne_hyphens (n : Nat) : toString n ≠ "--" := by
  intro h
  have hform := Argument.isOption_toString n
  rw [h] at hform
  cases hform

theorem readBound?_toString {n : Nat} (h : n < UInt64.size) :
    readBound? (toString n) = some n := by
  obtain ⟨hne, hdigits⟩ := Numeral.digits_digitChars n
  have hall : (Decimal.digitChars n).all Char.isDigit = true := List.all_eq_true.2 hdigits
  unfold readBound?
  rw [toList_toString_nat]
  dsimp only
  split
  next cs hplus =>
    -- a plus is no digit
    exact absurd (hdigits '+' (by rw [hplus]; exact List.mem_cons_self)) (by decide)
  next =>
    rw [Decimal.ofDigitChars_digitChars, if_pos ⟨hne, hall, h⟩]

namespace CommandLine

theorem takes_maxLength {n : Nat} (h : n < UInt64.size) :
    Takes {} ["--max-length", toString n] { before := { limits := ⟨some n, none⟩ } } := by
  have harg : Argument.ofString "--max-length" = .bound .maxLength none := rfl
  refine .boundAndNumber rfl harg (Argument.isOption_toString n) ?_
  rw [setBound, readBound?_toString h]
  rfl

theorem takes_maxDepth {n : Nat} (length : Option Nat) (h : n < UInt64.size) :
    Takes { before := { limits := ⟨length, none⟩ } } ["--max-depth", toString n]
      { before := { limits := ⟨length, some n⟩ } } := by
  have harg : Argument.ofString "--max-depth" = .bound .maxDepth none := rfl
  refine .boundAndNumber rfl harg (Argument.isOption_toString n) ?_
  rw [setBound, readBound?_toString h]
  rfl

theorem reads_limits {limits : Limits} (h : limits.Fits) :
    Reads {} (Bound.maxLength.arguments limits.length ++ Bound.maxDepth.arguments limits.depth)
      { before := { limits } } := by
  obtain ⟨length, depth⟩ := limits
  obtain ⟨hlength, hdepth⟩ := h
  have hfirst : Reads {} (Bound.maxLength.arguments length)
      { before := { limits := ⟨length, none⟩ } } := by
    cases length with
    | none => exact .nil
    | some n => exact (takes_maxLength (hlength n rfl)).reads
  refine hfirst.append ?_
  cases depth with
  | none => exact .nil
  | some n => exact (takes_maxDepth length (hdepth n rfl)).reads

theorem reads_verbose (limits : Limits) (verbose : Bool) :
    Reads { before := { limits } } (if verbose then ["--verbose"] else [])
      { before := { limits, verbose } } := by
  cases verbose with
  | false => exact .nil
  | true =>
    have harg : Argument.ofString "--verbose" = .flags [some .verbose] := rfl
    exact (Takes.flags rfl harg rfl).reads

theorem takes_command (before : Options) (command : Command) :
    Takes { before } [command.name] { command, before } := by
  have harg : Argument.ofString command.name = .positional command.name := by
    cases command <;> rfl
  refine .positional rfl harg ?_
  cases command <;> rfl

theorem reads_pretty {command : Command} {pretty : Bool} (before : Options)
    (h : pretty = true → command = .ast) :
    Reads { command, before } (if pretty then ["--pretty"] else [])
      { command, before, after := { pretty } } := by
  cases pretty with
  | false => exact .nil
  | true =>
    have harg : Argument.ofString "--pretty" = .flags [some .pretty] := rfl
    rw [h rfl]
    exact (Takes.flags rfl harg rfl).reads

end CommandLine

/-- A command can be asked for with all options that it has. -/
theorem Command.ofArguments_line {command : Command} {options : Options}
    (hfits : options.limits.Fits) (hpretty : options.pretty = true → command = .ast) :
    Request.ofArguments (command.line options) = .ok ⟨command, options, none⟩ := by
  obtain ⟨limits, verbose, pretty⟩ := options
  have hreads := (((CommandLine.reads_limits hfits).append
    (CommandLine.reads_verbose limits verbose)).append
    (CommandLine.takes_command _ command).reads).append
    (CommandLine.reads_pretty { limits, verbose } hpretty)
  simp only [List.append_assoc, List.singleton_append, ← CommandLine.read_eq_ok_iff] at hreads
  refine Request.ofArguments_eq_ok_iff.2 ⟨_, hreads, rfl, ?_, rfl⟩
  simp [Options.overruledBy]

theorem Bound.hyphens_not_mem (bound : Bound) (limit : Option Nat) :
    "--" ∉ bound.arguments limit := by
  cases limit with
  | none => cases bound <;> exact List.not_mem_nil
  | some n =>
    have hn : "--" ∉ [toString n] := by
      rw [List.mem_singleton]
      exact (toString_ne_hyphens n).symm
    cases bound with
    | maxLength => exact List.not_mem_cons_of_ne_of_not_mem (by decide) hn
    | maxDepth => exact List.not_mem_cons_of_ne_of_not_mem (by decide) hn

theorem Command.hyphens_not_mem_line (command : Command) (options : Options) :
    "--" ∉ command.line options := by
  have hname : "--" ≠ command.name := by cases command <;> decide
  have hverbose : "--" ∉ (if options.verbose then ["--verbose"] else []) := by
    cases options.verbose <;> decide
  have hpretty : "--" ∉ (if options.pretty then ["--pretty"] else []) := by
    cases options.pretty <;> decide
  simp only [line, List.mem_append, List.mem_cons, not_or]
  exact ⟨Bound.hyphens_not_mem _ _, Bound.hyphens_not_mem _ _, hverbose, hname, hpretty⟩

end ResourceQuery
