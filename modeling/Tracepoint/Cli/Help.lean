import Tracepoint.Cli.Arguments

/-!
# Help texts

A help text has a line on what the program or command is for, a line on its use,
and sections that list commands, operands and options. In a section, a help stands
behind its label, or all of them stand on lines of their own: in a full help text,
and where some help would not fit.
-/

namespace Tracepoint.Cli

/-- A label and the help for it. -/
structure Item where
  label : String
  help : String
deriving DecidableEq, Repr, Inhabited

structure HelpSection where
  title : String
  items : List Item
deriving DecidableEq, Repr, Inhabited

/-! ## Layout -/

/-- The width that texts are laid out for. -/
def helpWidth : Nat := 100

/-- Whether the help for an item does not fit behind labels of some width, and labels take a
    good part of the line. -/
def Item.overflows (item : Item) (widest : Nat) : Bool :=
  let taken := widest + 12
  taken ≤ helpWidth && 40 < taken && helpWidth - taken < item.help.length

/-- A label with spaces up to some width. -/
def padTo (width : Nat) (text : String) : String :=
  text ++ String.ofList (List.replicate (width - text.length) ' ')

/-- A section as text. -/
def HelpSection.render (full : Bool) (s : HelpSection) : String :=
  let widest := (s.items.map (·.label.length)).foldl max 0
  let below := full || s.items.any (·.overflows widest)
  let line (item : Item) : String :=
    if below then s!"  {item.label}\n          {item.help}"
    else "  " ++ padTo (widest + 2) item.label ++ item.help
  s.title ++ ":\n" ++ String.intercalate (if full then "\n\n" else "\n") (s.items.map line)

/-- A help text. -/
def renderHelp (full : Bool) (about usage : String) (sections : List HelpSection) : String :=
  let sections := (sections.filter (!·.items.isEmpty)).map (·.render full)
  String.intercalate "\n\n" ([about, "Usage: " ++ usage] ++ sections)

/-! ## Commands -/

/-- The name of a value. -/
def valueName (name : String) : String :=
  String.ofList (name.toList.map fun c => if c = '-' then '_' else c.toUpper)

/-- How an option is written. -/
def Opt.text (o : Opt) : String :=
  if o.kind.isSome then s!"--{o.name} <{valueName o.name}>" else s!"--{o.name}"

def Operand.text (o : Operand) : String := s!"[{valueName o.name}]"

/-- A help with the default that it mentions. -/
def withDefault (help : String) : Option String → String
  | some d => s!"{help} [default: {d}]"
  | none => help

def Opt.item (o : Opt) : Item :=
  let short := match o.short with
    | some c => s!"-{c}, "
    | none => "    "
  ⟨short ++ o.text, withDefault o.help o.default⟩

def Operand.item (o : Operand) : Item := ⟨o.text, withDefault o.help (some o.default)⟩

/-- The item for the option that asks for help. -/
def helpItem (help : String) : Item := ⟨"-h, --help", help⟩

/-- How a command is used. -/
def Signature.usage (program : String) (s : Signature) : String :=
  let optional := if s.options.all (·.required) then [] else ["[OPTIONS]"]
  let required := (s.options.filter (·.required)).map (·.text)
  let operand := s.operand.toList.map (·.text)
  String.intercalate " " ([program, s.name] ++ optional ++ required ++ operand)

/-- The help text of a command. -/
def Signature.helpText (program : String) (s : Signature) : String :=
  renderHelp false s.help (s.usage program) [
    ⟨"Arguments", s.operand.toList.map (·.item)⟩,
    ⟨"Options", s.options.map (·.item) ++ [helpItem "Print help"]⟩]

end Tracepoint.Cli
