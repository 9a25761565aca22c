import Tracepoint.Detect.Method
import Tracepoint.Text.Similarity
import Tracepoint.Toml.Value

/-!
# Catalog of detectors and listeners

The names under which detectors and listeners can be configured, each with a
description, sorted by name. An unknown name is reported together with the known
name closest to it.
-/

namespace Tracepoint.Detect

open Text

/-! ## Parameters -/

/-- A parameter of the entry logger: a text that is not blank. -/
def textParameter (params : Toml.Table) (name : String) : Except Error (Option String) :=
  match params.lookup name with
  | none => .ok none
  | some value =>
    match value.text? with
    | some content =>
      if (trim content.toList).isEmpty then invalid else .ok (some content)
    | none => invalid
where
  invalid : Except Error (Option String) :=
    .error (.config (.invalidParameter EntryLogger.name name "expected a non-empty string"))

/-- The entry logger with given parameters. -/
def EntryLogger.ofParams (params : Toml.Table) : Except Error EntryLogger := do
  match ← textParameter params "class" with
  | none => .error (.config (.missingParameter EntryLogger.name "class"))
  | some loggerClass =>
    match ← textParameter params "method" with
    | some method => return ⟨loggerClass, method⟩
    | none => return { loggerClass := loggerClass }

/-- The method detector with given parameters. -/
def MethodDetector.ofParams (params : Toml.Table) : Except Error MethodDetector :=
  match params.lookup "constructors" with
  | none => .ok {}
  | some value =>
    match value.boolean? with
    | some constructors => .ok { constructors := constructors }
    | none =>
      .error (.config
        (.invalidParameter MethodDetector.name "constructors" "expected a boolean"))

/-! ## The catalog -/

/-- Names with descriptions, sorted by name. -/
abbrev Listing := List (String × String)

/-- Adds a name or replaces its description. -/
def Listing.register (l : Listing) (name description : String) : Listing :=
  (l.filter (·.1 ≠ name) ++ [(name, description)]).mergeSort fun a b => a.1 ≤ b.1

structure Catalog where
  detectors : Listing := []
  listeners : Listing := []
deriving DecidableEq, Repr, Inhabited

namespace Catalog

def registerDetector (c : Catalog) (name description : String) : Catalog :=
  { c with detectors := c.detectors.register name description }

def registerListener (c : Catalog) (name description : String) : Catalog :=
  { c with listeners := c.listeners.register name description }

/-- The catalog with everything there is. -/
def standard : Catalog :=
  (({} : Catalog).registerDetector MethodDetector.name
      "Method bodies (and constructors with `constructors = true`)").registerListener
    EntryLogger.name "Inserts `<class>.<method>(<id>);` at element entry"

/-- The detector of a name with given parameters. -/
def createDetector (c : Catalog) (name : String) (params : Toml.Table) :
    Except Error MethodDetector :=
  let names := c.detectors.map (·.1)
  if names.contains name then MethodDetector.ofParams params
  else .error (.config (.unknownDetector name (closest? name names)))

/-- The listener of a name with given parameters. -/
def createListener (c : Catalog) (name : String) (params : Toml.Table) :
    Except Error EntryLogger :=
  let names := c.listeners.map (·.1)
  if names.contains name then EntryLogger.ofParams params
  else .error (.config (.unknownListener name (closest? name names)))

end Catalog

end Tracepoint.Detect
