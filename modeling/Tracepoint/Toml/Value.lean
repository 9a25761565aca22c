/-!
# TOML values

The values that a TOML document can hold. Numbers with a fraction and moments in
time are kept as they are written.
-/

namespace Tracepoint.Toml

inductive Value where
  | text (content : String)
  | integer (number : Int)
  | float (written : String)
  | boolean (value : Bool)
  | moment (written : String)
  | array (elements : List Value)
  | table (entries : List (String × Value))
deriving Repr, Inhabited

/-- The entries of a table, in order. -/
abbrev Table := List (String × Value)

namespace Value

def text? : Value → Option String
  | text content => some content
  | _ => none

def boolean? : Value → Option Bool
  | boolean value => some value
  | _ => none

def array? : Value → Option (List Value)
  | array elements => some elements
  | _ => none

def table? : Value → Option Table
  | table entries => some entries
  | _ => none

end Value

end Tracepoint.Toml
