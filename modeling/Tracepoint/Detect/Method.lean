import Tracepoint.Detect.Listener
import Tracepoint.IdMap

/-!
# The method detector

Finds methods with a body and, if asked to, constructors. Each has a key, made of
its package, the types around it and its signature, and an offset at which code
enters it: after the opening brace, or after a call of another constructor at the
start of a constructor.
-/

namespace Tracepoint.Detect

open Java Source Text

/-! ## Elements -/

/-- A method or constructor that can be entered. -/
structure Element where
  kind : String
  key : String
  offset : Nat
  indent : String
  span : Span
deriving DecidableEq, Repr, Inhabited

/-- The key of a method or constructor. -/
def elementKey (u : CompilationUnit) (p : Place) : String :=
  let owners := (u.parsed.enclosingTypes p).reverse
  String.join ((u.package.toList ++ owners).map (· ++ ".")) ++ u.parsed.signature p.node

/-- Where code that enters a body can stand. -/
def entryOffset (body : Node) : Nat :=
  let first := body.children.find? (·.kind != .comment)
  match first with
  | some call =>
    if body.kind == .constructorBody && call.kind == .constructorCall then call.span.stop
    else body.span.start + 1
  | none => body.span.start + 1

/-- The indentation of a statement in the body of a declaration: that of the declaration
    and one step, a tab if there is a tab in it and four spaces otherwise. -/
def statementIndent (source : List Char) (declaration : Node) : String :=
  let base := indentAt source declaration.span.start
  let step := if base.contains '\t' then "\t" else "    "
  String.ofList base ++ step

/-- The element at a place, if there is one. -/
def element? (u : CompilationUnit) (p : Place) : Option Element := do
  let kind ← match p.node.kind with
    | .methodDeclaration => some methodEntry
    | .constructorDeclaration => some constructorEntry
    | _ => none
  let body ← p.node.child? .body
  return ⟨kind, elementKey u p, entryOffset body, statementIndent u.parsed.source p.node,
    p.node.span⟩

/-- The elements of a unit in document order. -/
def elements (u : CompilationUnit) (constructors : Bool) : List Element :=
  (u.parsed.root.places.filterMap (element? u)).filter fun e =>
    constructors || e.kind != constructorEntry

/-! ## The detector -/

structure MethodDetector where
  constructors : Bool := false
  listeners : ListenerTable := {}
  /-- How many elements were found since the last reset. -/
  detected : Nat := 0
deriving DecidableEq, Repr, Inhabited

namespace MethodDetector

/-- The name of this detector. -/
def name : String := "method"

/-- The kinds of events that the detector can report. -/
def emits (d : MethodDetector) : List String :=
  if d.constructors then [methodEntry, constructorEntry] else [methodEntry]

def addListener (d : MethodDetector) (kind : String) (l : Listener) : MethodDetector :=
  { d with listeners := (d.listeners.add kind l).2 }

def reset (d : MethodDetector) : MethodDetector := { d with detected := 0 }

/-- What processing a unit leaves behind: the count, the identifiers, the edits, the events
    reported and the error that ended it, if any. -/
structure Progress where
  detected : Nat
  ids : IdMap
  edits : UnitEdits
  events : List Event := []
  failure : Option Error := none
deriving Inhabited

/-- Reports elements one after the other until a listener fails. -/
def report (d : MethodDetector) (u : CompilationUnit) : List Element → Progress → Progress
  | [], p => p
  | e :: es, p =>
    let (id, ids) := p.ids.getOrCreate e.key
    let event : Event := ⟨e.kind, e.key, id, e.offset, e.indent, e.span⟩
    let (edits, failure) := d.listeners.dispatch u event p.edits
    let next : Progress := ⟨p.detected + 1, ids, edits, p.events ++ [event], failure⟩
    match failure with
    | some _ => next
    | none => report d u es next

/-- Why a unit cannot be processed at all. -/
def obstacle? (u : CompilationUnit) (ids : Option IdMap) : Option Error :=
  match ids with
  | none => some (.detector name "no id map configured")
  | some _ =>
    if u.language.outlines then none
    else some (.detector name s!"no methods query for {u.language.name}")

/-- Finds the elements of a unit and reports them. -/
def process (d : MethodDetector) (u : CompilationUnit) (ids : Option IdMap)
    (edits : UnitEdits) : MethodDetector × Progress :=
  let start : Progress := ⟨d.detected, ids.getD ⟨{}, []⟩, edits, [], obstacle? u ids⟩
  match start.failure with
  | some _ => (d, start)
  | none =>
    let p := d.report u (elements u d.constructors) start
    ({ d with detected := p.detected }, p)

end MethodDetector

end Tracepoint.Detect
