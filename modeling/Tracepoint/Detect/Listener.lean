import Tracepoint.Source.Render
import Tracepoint.World

/-!
# Events and listeners

A detector reports what it finds as events. A listener that is routed to the kind
of an event answers it with edits. The one listener there is inserts a call of a
logger at the entry of the element that was found.
-/

namespace Tracepoint.Detect

open Source Text

/-! ## Events -/

/-- The kind of events for entries of methods. -/
def methodEntry : String := "method_entry"

/-- The kind of events for entries of constructors. -/
def constructorEntry : String := "constructor_entry"

/-- Something that was found in a unit. -/
structure Event where
  kind : String
  /-- The name of the element in the id map. -/
  key : String
  id : Nat
  /-- Where code that enters the element can stand. -/
  offset : Nat
  /-- The indentation of code inserted there. -/
  indent : String
  /-- The range of the declaration. -/
  span : Java.Span
deriving DecidableEq, Repr, Inhabited

/-! ## The entry logger -/

/-- Inserts a call of a method of a logger class, with the identifier as argument. -/
structure EntryLogger where
  loggerClass : String
  method : String := "log"
deriving DecidableEq, Repr, Inhabited

namespace EntryLogger

/-- The name of this listener. -/
def name : String := "entry_logger"

/-- Whether the simple name of the logger class means something else in a unit. -/
def clashes (l : EntryLogger) (u : CompilationUnit) : Bool :=
  let simple := simpleName l.loggerClass
  let declared := u.declaresSimpleName simple && !u.declaredTypes.contains l.loggerClass
  let imported := u.imports.any fun i =>
    !i.isStatic && !i.wildcard && i.path != l.loggerClass && simpleName i.path == simple
  declared || imported

/-- The inserted statement. -/
def statement (l : EntryLogger) (target : String) (e : Event) : String :=
  s!"\n{e.indent}{target}.{l.method}({e.id});"

/-- Answers an event with an insertion, and with an import where that is called for. -/
def onEvent (l : EntryLogger) (u : CompilationUnit) (e : Event) (edits : UnitEdits) :
    Except Error UnitEdits :=
  if isBoundary u.parsed.source e.offset then
    let (target, edits) :=
      if l.clashes u then (l.loggerClass, edits) else edits.reference l.loggerClass
    .ok (edits.insert e.offset (l.statement target e))
  else
    .error (.listener name
      s!"insertion offset {e.offset} for `{e.key}` is outside {u.relativePath.text}")

end EntryLogger

/-! ## Routes -/

/-- A listener with an identity: the same logger can be in use more than once. -/
structure Listener where
  handle : Nat
  logger : EntryLogger
deriving DecidableEq, Repr, Inhabited

/-- Which listeners get which kinds of events. Kinds stand in the order of their first use,
    and listeners of a kind in the order in which they were added. -/
structure ListenerTable where
  routes : List (String × List Listener) := []
deriving DecidableEq, Repr, Inhabited

namespace ListenerTable

/-- The listeners of a kind. -/
def listenersFor (t : ListenerTable) (kind : String) : List Listener :=
  (t.routes.lookup kind).getD []

/-- Routes with a listener added to a kind, unless it is there already. -/
def addTo (kind : String) (l : Listener) :
    List (String × List Listener) → List (String × List Listener)
  | [] => [(kind, [l])]
  | (k, ls) :: rest =>
    if k = kind then
      (k, if ls.any (·.handle = l.handle) then ls else ls ++ [l]) :: rest
    else (k, ls) :: addTo kind l rest

/-- Adds a listener to a kind, and says whether it was new there. -/
def add (t : ListenerTable) (kind : String) (l : Listener) : Bool × ListenerTable :=
  (!(t.listenersFor kind).any (·.handle = l.handle), ⟨addTo kind l t.routes⟩)

def kinds (t : ListenerTable) : List String := t.routes.map (·.1)

/-- How many listeners there are over all kinds. -/
def size (t : ListenerTable) : Nat := (t.routes.flatMap (·.2)).length

def isEmpty (t : ListenerTable) : Bool := t.size == 0

/-- Delivers an event to listeners one after the other. The edits of those before a failure
    stay. -/
def deliver (u : CompilationUnit) (e : Event) (edits : UnitEdits) :
    List Listener → UnitEdits × Option Error
  | [] => (edits, none)
  | l :: ls =>
    match l.logger.onEvent u e edits with
    | .ok edits' => deliver u e edits' ls
    | .error err => (edits, some err)

/-- Delivers an event to the listeners of its kind. -/
def dispatch (t : ListenerTable) (u : CompilationUnit) (e : Event) (edits : UnitEdits) :
    UnitEdits × Option Error :=
  deliver u e edits (t.listenersFor e.kind)

end ListenerTable

end Tracepoint.Detect
