import Tracepoint.Path
import Tracepoint.Toml.Value

/-!
# Structured data

Data as it stands in configuration files and interchange formats, whatever the
notation, and how records are read from it. A record is given by the names of
its fields, or as a list of their values in order. Fields that are not asked for
do not count.

Results:

* `Fields.optional_of_absent`, `Fields.orDefault_of_absent`: a field that a
  record by names leaves out has no value, or the default.
-/

namespace Tracepoint

inductive Datum where
  | null
  | boolean (value : Bool)
  | integer (number : Int)
  /-- A number with a fraction, or anything else that has no use here. -/
  | other
  | text (content : String)
  | list (elements : List Datum)
  | record (entries : List (String × Datum))
deriving Repr, Inhabited

/-! ## From TOML -/

mutual

def Datum.ofToml : Toml.Value → Datum
  | .text content => .text content
  | .integer number => .integer number
  | .boolean value => .boolean value
  | .float _ => .other
  | .moment _ => .other
  | .array elements => .list (Datum.ofTomlList elements)
  | .table entries => .record (Datum.ofTomlTable entries)

def Datum.ofTomlList : List Toml.Value → List Datum
  | [] => []
  | v :: vs => .ofToml v :: Datum.ofTomlList vs

def Datum.ofTomlTable : List (String × Toml.Value) → List (String × Datum)
  | [] => []
  | (k, v) :: more => (k, .ofToml v) :: Datum.ofTomlTable more

end

/-! ## Simple values -/

/-- A way to read a value from data. -/
abbrev Decoder (α : Type) := Datum → Option α

namespace Decoder

def text : Decoder String
  | .text content => some content
  | _ => none

def path : Decoder Path := fun d => (text d).map Path.mk

def boolean : Decoder Bool
  | .boolean value => some value
  | _ => none

/-- A whole number below a limit. -/
def natural (limit : Nat) : Decoder Nat
  | .integer number => if 0 ≤ number && number < limit then some number.toNat else none
  | _ => none

/-- A value that may be missing. -/
def optional {α : Type} (decode : Decoder α) : Decoder (Option α)
  | .null => some none
  | d => (decode d).map some

def list {α : Type} (decode : Decoder α) : Decoder (List α)
  | .list elements => elements.mapM decode
  | _ => none

/-- Names with values of one kind. -/
def table {α : Type} (decode : Decoder α) : Decoder (List (String × α))
  | .record entries => entries.mapM fun (name, d) => (decode d).map (name, ·)
  | _ => none

end Decoder

/-! ## Records -/

/-- The values of a record by the names of its fields. -/
structure Fields where
  values : List (String × Datum)
  /-- Whether the record was given as a list of values. -/
  inOrder : Bool
deriving Repr, Inhabited

namespace Fields

/-- The fields of a record with given names. In an exact notation a list must not be longer
    than the record. -/
def of? (names : List String) (exact : Bool) : Decoder Fields
  | .record entries => some ⟨entries, false⟩
  | .list elements =>
    if exact && names.length < elements.length then none
    else some ⟨names.zip elements, true⟩
  | _ => none

/-- A field that has to be there. -/
def required {α : Type} (f : Fields) (name : String) (decode : Decoder α) : Option α :=
  (f.values.lookup name).bind decode

/-- A field that may be left out of a record by names. -/
def optional {α : Type} (f : Fields) (name : String) (decode : Decoder α) : Option (Option α) :=
  match f.values.lookup name with
  | some d => Decoder.optional decode d
  | none => if f.inOrder then none else some none

/-- A field with a default. -/
def orDefault {α : Type} (f : Fields) (name : String) (decode : Decoder α) (default : α) :
    Option α :=
  match f.values.lookup name with
  | some d => decode d
  | none => some default

theorem optional_of_absent {α : Type} {values : List (String × Datum)} {name : String}
    (h : values.lookup name = none) (decode : Decoder α) :
    (⟨values, false⟩ : Fields).optional name decode = some none := by
  simp [optional, h]

theorem orDefault_of_absent {α : Type} {f : Fields} {name : String}
    (h : f.values.lookup name = none) (decode : Decoder α) (default : α) :
    f.orDefault name decode default = some default := by
  simp [orDefault, h]

end Fields

end Tracepoint
