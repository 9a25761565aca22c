import Tracepoint.Text.Search

/-!
# Command lines

A command takes at most one operand and some options. An option is a flag or takes
a value, in the next argument or after `=`. An argument that starts with `-` is
never the value of the option before it. After `--` all arguments are operands.

Reading stops at the first argument that asks for help, and at the first that does
not fit.
-/

namespace Tracepoint.Cli

open Text

/-! ## What a command takes -/

/-- What a value must be. -/
inductive Kind where
  /-- A text that is not empty. -/
  | path
  | text
  /-- A number below a bound. -/
  | number (bound : Nat)
deriving DecidableEq, Repr, Inhabited

/-- How often a value can be given. -/
inductive Repetition where
  | once
  | often
  /-- Often, and each time as several values with commas between them. -/
  | listed
deriving DecidableEq, Repr, Inhabited

structure Opt where
  name : String
  short : Option Char := none
  /-- What the value must be; none for a flag. -/
  kind : Option Kind := none
  repetition : Repetition := .once
  required : Bool := false
  default : Option String := none
  help : String
deriving DecidableEq, Repr, Inhabited

structure Operand where
  name : String
  default : String
  help : String
deriving DecidableEq, Repr, Inhabited

structure Signature where
  name : String
  help : String
  operand : Option Operand := none
  options : List Opt := []
deriving DecidableEq, Repr, Inhabited

/-! ## Values -/

/-- The values that were given, by name of operand or option. -/
abbrev Values := List (String × List String)

namespace Values

def all (v : Values) (name : String) : List String := (v.lookup name).getD []

def first? (v : Values) (name : String) : Option String := (v.all name).head?

def has (v : Values) (name : String) : Bool := (v.lookup name).isSome

/-- Adds values to a name. -/
def add : Values → String → List String → Values
  | [], name, values => [(name, values)]
  | (n, vs) :: rest, name, values =>
    if n = name then (n, vs ++ values) :: rest else (n, vs) :: add rest name values

end Values

/-- Why reading stops. -/
inductive Stop where
  /-- An argument does not fit, or one is missing. -/
  | misuse
  /-- Help was asked for, in full or in short. -/
  | help (full : Bool)
deriving DecidableEq, Repr, Inhabited

/-- The number that a text is. A plus sign may stand before it. -/
def number? (text : String) : Option Nat :=
  let digits := (dropStart? ['+'] text.toList).getD text.toList
  if digits.isEmpty || !digits.all Char.isDigit then none
  else some (digits.foldl (fun n c => n * 10 + (c.toNat - '0'.toNat)) 0)

/-- Whether a text is a value of a kind. -/
def Kind.accepts (kind : Kind) (text : String) : Bool :=
  match kind with
  | .path => text ≠ ""
  | .text => true
  | .number bound => (number? text).any (· < bound)

/-! ## Reading -/

/-- Whether an argument looks like an option. -/
def looksLikeOption (arg : String) : Bool := startsWith ['-'] arg.toList && arg ≠ "-"

/-- Adds the value of an option. -/
def addValue (v : Values) (o : Opt) (kind : Kind) (text : String) : Except Stop Values :=
  let values :=
    if o.repetition = .listed then (splitAll ',' text.toList).map String.ofList else [text]
  if o.repetition = .once && v.has o.name then .error .misuse
  else if values.all kind.accepts then .ok (v.add o.name values)
  else .error .misuse

/-- Adds a flag. -/
def addFlag (v : Values) (o : Opt) : Except Stop Values :=
  if v.has o.name then .error .misuse else .ok (v.add o.name [])

namespace Signature

/-- Adds an operand. -/
def addOperand (s : Signature) (v : Values) (text : String) : Except Stop Values :=
  match s.operand with
  | some o =>
    if v.has o.name || !Kind.path.accepts text then .error .misuse
    else .ok (v.add o.name [text])
  | none => .error .misuse

/-- What an argument is about: an option, with the value attached to it, if any. -/
inductive Found where
  | help (full : Bool)
  | option (o : Opt) (attached : Option String)
  | operand
  | unknown
deriving Inhabited

/-- Finds what a long option is about. -/
def findLong (s : Signature) (body : List Char) : Found :=
  let (name, attached) := match splitFirst? '=' body with
    | some (name, value) => (String.ofList name, some (String.ofList value))
    | none => (String.ofList body, none)
  match s.options.find? (·.name = name) with
  | some o => .option o attached
  | none => if name = "help" && attached.isNone then .help true else .unknown

/-- Finds what a short option is about. -/
def findShort (s : Signature) (letter : Char) (rest : List Char) : Found :=
  match s.options.find? (·.short = some letter) with
  | some o =>
    let value := (dropStart? ['='] rest).getD rest
    .option o (if rest.isEmpty then none else some (String.ofList value))
  | none => if letter = 'h' then .help false else .unknown

/-- Finds what an argument is about. -/
def find (s : Signature) (arg : String) : Found :=
  match arg.toList with
  | '-' :: '-' :: body => s.findLong body
  | '-' :: letter :: rest => s.findShort letter rest
  | _ => .operand

/-- Reads arguments. -/
def read (s : Signature) (v : Values) : List String → Except Stop Values
  | [] => .ok v
  | arg :: rest =>
    if arg = "--" then rest.foldlM s.addOperand v
    else
      match s.find arg with
      | .help full => .error (.help full)
      | .unknown => .error .misuse
      | .operand => do s.read (← s.addOperand v arg) rest
      | .option o attached =>
        match o.kind, attached with
        | none, some _ => .error .misuse
        | none, none => do s.read (← addFlag v o) rest
        | some kind, some value => do s.read (← addValue v o kind value) rest
        | some kind, none =>
          match rest with
          | [] => .error .misuse
          | value :: rest' =>
            if looksLikeOption value then .error .misuse
            else do s.read (← addValue v o kind value) rest'

/-- The values of a command line, with all that is required and with defaults for what is not
    given. -/
def values (s : Signature) (args : List String) : Except Stop Values :=
  match s.read [] args with
  | .error stop => .error stop
  | .ok v =>
    if s.options.any fun o => o.required && !v.has o.name then .error .misuse
    else
      let operand := (s.operand.map fun o => (o.name, [o.default])).toList
      let options := s.options.filterMap fun o => o.default.map fun d =>
        (o.name, if o.repetition = .listed then (splitAll ',' d.toList).map String.ofList else [d])
      .ok (v ++ (operand ++ options).filter fun e => !v.has e.1)

end Signature

end Tracepoint.Cli
