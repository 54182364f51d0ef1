import ResourceQuery.Check

/-!
# Command lines

A command line names a command, options before and after it, and perhaps a query. An option may
be given once before the command and once after it; the later value counts. A line that does not
fit is misuse, and a wish for the version is granted as soon as it is read.
-/

namespace ResourceQuery

/-- What to do with a query. -/
inductive Command
  | check
  | ast
  | tokens
deriving DecidableEq

/-- The command of a given name. -/
def Command.ofName? (name : String) : Option Command :=
  if name = "check" then some .check
  else if name = "ast" then some .ast
  else if name = "tokens" then some .tokens
  else none

/-- An option that takes a number. -/
inductive Bound
  | maxLength
  | maxDepth
deriving DecidableEq

/-- An option that takes nothing. -/
inductive Flag
  | verbose
  | pretty
  | version
deriving DecidableEq

/-- What one argument is by its form. -/
inductive Argument
  /-- Two hyphens: all that follows is positional. -/
  | endOfOptions
  | positional (text : String)
  /-- An option that takes a number, with the number if it follows an equals sign. -/
  | bound (bound : Bound) (number : Option String)
  /-- Options that take nothing, in order; an unknown one is none. -/
  | flags (flags : List (Option Flag))

namespace Argument

/-- The option of a single character. -/
def shortFlag? (c : Char) : Option Flag :=
  if c = 'v' then some .verbose
  else if c = 'p' then some .pretty
  else if c = 'V' then some .version
  else none

/-- The option of a name that may be followed by an equals sign and a value. -/
def ofLong (name : String) (value : Option String) : Argument :=
  if name = "max-length" then bound .maxLength value
  else if name = "max-depth" then bound .maxDepth value
  else if value.isSome then flags [none]
  else if name = "verbose" then flags [some .verbose]
  else if name = "pretty" then flags [some .pretty]
  else if name = "version" then flags [some .version]
  else flags [none]

/-- What follows the equals sign of an option, if there is one. -/
def valueOf : List Char → Option String
  | _ :: value => some (String.ofList value)
  | [] => none

/-- What an argument is by its form; a lone hyphen is positional. -/
def ofString (arg : String) : Argument :=
  match arg.toList with
  | ['-', '-'] => endOfOptions
  | '-' :: '-' :: long =>
    ofLong (String.ofList (long.takeWhile (· ≠ '='))) (valueOf (long.dropWhile (· ≠ '=')))
  | ['-'] => positional arg
  | '-' :: short => flags (short.map shortFlag?)
  | _ => positional arg

/-- Whether an argument cannot be the number that an option takes: it begins with a hyphen. -/
def isOption (arg : String) : Bool :=
  match ofString arg with
  | positional _ => false
  | _ => true

end Argument

/-- The number that an option is given: digits after an optional plus, of at most 64 bits. -/
def readBound? (text : String) : Option Nat :=
  let digits :=
    match text.toList with
    | '+' :: digits => digits
    | digits => digits
  if digits ≠ [] ∧ digits.all Char.isDigit ∧ Decimal.ofDigitChars digits < UInt64.size then
    some (Decimal.ofDigitChars digits)
  else none

/-- The options of one level of a command line. -/
structure Options where
  limits : Limits := ⟨none, none⟩
  verbose : Bool := false
  pretty : Bool := false
deriving DecidableEq

/-- Why a command line is not carried out. -/
inductive Stop
  | misuse
  | version
deriving DecidableEq

namespace Options

/-- Sets a bound, which must not have been set. -/
def setBound (options : Options) (bound : Bound) (value : Nat) : Except Stop Options :=
  match bound with
  | .maxLength =>
    if options.limits.length.isSome then .error .misuse
    else .ok { options with limits := { options.limits with length := some value } }
  | .maxDepth =>
    if options.limits.depth.isSome then .error .misuse
    else .ok { options with limits := { options.limits with depth := some value } }

/-- Sets a flag, which must not have been set and must exist for the command, if one is named. -/
def setFlag (options : Options) (command : Option Command) : Option Flag → Except Stop Options
  | some .verbose =>
    if options.verbose then .error .misuse else .ok { options with verbose := true }
  | some .pretty =>
    if options.pretty ∨ command ≠ some .ast then .error .misuse
    else .ok { options with pretty := true }
  | some .version => if command.isNone then .error .version else .error .misuse
  | none => .error .misuse

/-- The options before a command, overruled by those after it. -/
def overruledBy (before after : Options) : Options where
  limits :=
    ⟨after.limits.length <|> before.limits.length, after.limits.depth <|> before.limits.depth⟩
  verbose := before.verbose || after.verbose
  pretty := before.pretty || after.pretty

end Options

/-- A command line that has been read in part. -/
structure CommandLine where
  command : Option Command := none
  /-- The options before the command. -/
  before : Options := {}
  /-- The options after the command. -/
  after : Options := {}
  query : Option String := none
  /-- Whether all that follows is positional. -/
  ended : Bool := false
deriving DecidableEq

namespace CommandLine

/-- Changes the options of the level that is being read. -/
def modify (line : CommandLine) (change : Options → Except Stop Options) :
    Except Stop CommandLine :=
  match line.command with
  | none => (change line.before).map fun options => { line with before := options }
  | some _ => (change line.after).map fun options => { line with after := options }

def setBound (line : CommandLine) (bound : Bound) (number : String) : Except Stop CommandLine :=
  match readBound? number with
  | some value => line.modify fun options => options.setBound bound value
  | none => .error .misuse

def setFlag (line : CommandLine) (flag : Option Flag) : Except Stop CommandLine :=
  line.modify fun options => options.setFlag line.command flag

/-- Takes a positional argument: first a command, before options have ended, then a query. -/
def take (line : CommandLine) (text : String) : Except Stop CommandLine :=
  match line.command with
  | none =>
    match Command.ofName? text with
    | some command => if line.ended then .error .misuse else .ok { line with command := command }
    | none => .error .misuse
  | some _ =>
    if line.query.isSome then .error .misuse else .ok { line with query := some text }

/-- Reads the arguments that follow. -/
def read (line : CommandLine) : List String → Except Stop CommandLine
  | [] => .ok line
  | arg :: args =>
    if line.ended then do
      let line ← line.take arg
      line.read args
    else
      match Argument.ofString arg with
      | .endOfOptions => { line with ended := true }.read args
      | .positional text => do
        let line ← line.take text
        line.read args
      | .flags flags => do
        let line ← flags.foldlM setFlag line
        line.read args
      | .bound bound (some number) => do
        let line ← line.setBound bound number
        line.read args
      | .bound bound none =>
        match args with
        | [] => .error .misuse
        | number :: args =>
          if Argument.isOption number then .error .misuse
          else do
            let line ← line.setBound bound number
            line.read args

end CommandLine

/-- What a command line asks for. -/
structure Request where
  command : Command
  options : Options
  /-- The query; without one it is read from the input. -/
  query : Option String
deriving DecidableEq

/-- The request of a command line, or why there is none. -/
def Request.ofArguments (args : List String) : Except Stop Request := do
  let line ← CommandLine.read {} args
  match line.command with
  | some command => .ok ⟨command, line.before.overruledBy line.after, line.query⟩
  | none => .error .misuse

end ResourceQuery
