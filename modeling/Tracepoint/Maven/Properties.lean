import Tracepoint.Text.Search

/-!
# Properties in descriptors

Texts in a build descriptor can refer to properties as `$\x7bname\x7d`. References
are replaced again and again, since values can hold references themselves, but
only a bounded number of times. A name that starts with `env.` and is no property
means an environment variable. Unknown references stay as they are.
-/

namespace Tracepoint.Maven

open Text

/-- Names with their values. -/
abbrev Properties := List (String × String)

/-- Sets the value of a name. -/
def Properties.put (ps : Properties) (name value : String) : Properties :=
  ps.filter (·.1 ≠ name) ++ [(name, value)]

/-- The value of a name, looked up among properties and then in the environment. -/
def valueOf? (properties environment : Properties) (name : String) : Option String :=
  match properties.lookup name with
  | some value => some value
  | none => do
    let variableName ← dropStart? "env.".toList name.toList
    environment.lookup (String.ofList variableName)

/-- Whether a text holds the start of a reference. -/
def hasReference (s : List Char) : Bool := occursIn ['$', '\x7b'] s

/-- The name in the reference that a text starts with. -/
def referenceAt? (s : List Char) : Option (List Char) := do
  let rest ← dropStart? ['$', '\x7b'] s
  let name := rest.takeWhile (· != '\x7d')
  if !name.isEmpty && (rest.drop name.length).head? = some '\x7d' then some name else none

/-- Replaces every reference once. -/
def expandOnce (value? : String → Option String) : List Char → List Char
  | [] => []
  | c :: rest =>
    match referenceAt? (c :: rest) with
    | none => c :: expandOnce value? rest
    | some name =>
      let written := c :: rest.take (name.length + 2)
      ((value? (String.ofList name)).map String.toList).getD written ++
        expandOnce value? (rest.drop (name.length + 2))
  termination_by s => s.length
  decreasing_by all_goals grind

/-- Replaces references at most `rounds` times, until nothing changes. -/
def expandRounds (value? : String → Option String) : Nat → List Char → List Char
  | 0, s => s
  | rounds + 1, s =>
    if hasReference s then
      let next := expandOnce value? s
      if next = s then s else expandRounds value? rounds next
    else s

/-- How often references are replaced. -/
def maxRounds : Nat := 10

/-- A text with its references replaced. -/
def interpolate (properties environment : Properties) (text : String) : String :=
  String.ofList (expandRounds (valueOf? properties environment) maxRounds text.toList)

end Tracepoint.Maven
