import Tracepoint.Proofs.Detect.Events
import Tracepoint.Proofs.Text.Split

/-!
# What inserted names mean

A listener that refers to its logger class by its simple name has the class imported where
that is needed. The simple name means the class if no other type that the unit declares and
no other type that is imported by name has it.

A listener looks at the unit before it uses a simple name, and not at what other listeners
have imported. So the names keep their meaning exactly if no two logger classes share a simple
name for which one of them is imported, and a logger class that the unit declares is the only
type there with its simple name.

Results:

* `ListenerTable.dispatchAll_recorded`: what a sequence of events leaves behind.
* `namesHold_iff`: when all inserted names mean the classes of their listeners.
* `namesHold_fails_for_two_packages`: two loggers with one simple name break this.
-/

namespace Tracepoint

namespace Source

/-- A simple name has no dot. -/
theorem dot_not_mem_simpleName (name : String) : '.' ∉ (simpleName name).toList := by
  rw [simpleName, String.toList_ofList]
  exact Text.not_mem_afterLast '.' name.toList

namespace CompilationUnit

variable (u : CompilationUnit)

/-- The types that a unit imports by name. -/
def importedTypes : List String :=
  (u.imports.filter fun i => !i.isStatic && !i.wildcard).map (·.path)

/-- The types that a unit declares or imports by name once it is printed with some edits. -/
def typesInScope (edits : UnitEdits) : List String :=
  u.declaredTypes ++ u.importedTypes ++ u.missingImports edits

end CompilationUnit

end Source

namespace Detect

open Source Text

/-! ## Sequences of events -/

namespace ListenerTable

variable (t : ListenerTable) (u : CompilationUnit)

/-- Delivers events one after the other. An event that no listener can answer leaves the edits
    as they are. -/
def dispatchAll : List Event → UnitEdits → UnitEdits
  | [], edits => edits
  | e :: es, edits => dispatchAll es (t.dispatch u e edits).1

/-- The loggers that answer an event, in order: those of its kind, if it is at a position of the
    unit. -/
def answering (e : Event) : List EntryLogger :=
  if isBoundary u.parsed.source e.offset then (t.listenersFor e.kind).map (·.logger) else []

/-- The calls that answer events. -/
def callsOf (events : List Event) : List Edit :=
  events.flatMap fun e => (t.answering u e).map fun l =>
    l.call u true ⟨e.kind, e.key, e.offset, e.indent, e.span⟩ e.id

/-- The names that are referred to in answers to events. -/
def namesOf (events : List Event) : List String :=
  (events.flatMap (t.answering u)).flatMap fun l => l.references u true

/-- What one event leaves behind: nothing if it is at no position of the unit. -/
theorem dispatch_recorded (e : Event) (edits : List Edit) (names : List String) :
    (t.dispatch u e (recorded true edits names)).1 =
      recorded true (edits ++ t.callsOf u [e]) (names ++ t.namesOf u [e]) := by
  unfold dispatch callsOf namesOf answering
  cases h : isBoundary u.parsed.source e.offset with
  | true =>
    rw [deliver_recorded h]
    simp [h, List.flatMap_map, Function.comp_def]
  | false =>
    rw [deliver_of_not_boundary h]
    simp [h]

/-- What a sequence of events leaves behind: the calls of the answering loggers, and the classes
    that they refer to by their simple names. -/
theorem dispatchAll_recorded (events : List Event) :
    ∀ (edits : List Edit) (names : List String),
      t.dispatchAll u events (recorded true edits names) =
        recorded true (edits ++ t.callsOf u events) (names ++ t.namesOf u events) := by
  induction events with
  | nil => intro edits names; simp [dispatchAll, callsOf, namesOf]
  | cons e es ih =>
    intro edits names
    rw [dispatchAll, dispatch_recorded, ih]
    simp [callsOf, namesOf]

theorem dispatchAll_empty (events : List Event) :
    t.dispatchAll u events { autoImports := true } =
      recorded true (t.callsOf u events) (t.namesOf u events) := by
  have h := t.dispatchAll_recorded u events [] []
  rwa [show recorded true [] [] = { autoImports := true } by simp [recorded], List.nil_append,
    List.nil_append] at h

end ListenerTable

/-! ## Imports -/

/-- The inserted imports are the classes that some logger refers to and that are not known in the
    unit. -/
theorem mem_missingImports {t : ListenerTable} {u : CompilationUnit} {events : List Event}
    {name : String} :
    name ∈ u.missingImports (t.dispatchAll u events { autoImports := true }) ↔
      u.needsImport name = true ∧ ∃ l ∈ events.flatMap (t.answering u),
        l.clashes u = false ∧ l.loggerClass = name := by
  rw [t.dispatchAll_empty]
  simp only [CompilationUnit.missingImports, recorded, if_true, List.mem_filter,
    List.mem_eraseDups, ListenerTable.namesOf, List.mem_flatMap, EntryLogger.references]
  constructor
  · rintro ⟨⟨l, hl, hname⟩, hneeds⟩
    refine ⟨hneeds, l, hl, ?_⟩
    cases hc : l.clashes u with
    | true => simp [hc] at hname
    | false => exact ⟨rfl, by simpa [hc, eq_comm] using hname⟩
  · rintro ⟨hneeds, l, hl, hc, rfl⟩
    exact ⟨⟨l, hl, by simp [hc]⟩, hneeds⟩

/-- A class that does not clash is the only one with its simple name that the unit imports by
    name. -/
theorem eq_of_mem_importedTypes {l : EntryLogger} {u : CompilationUnit} (hc : l.clashes u = false)
    {name : String} (hname : name ∈ u.importedTypes)
    (hs : simpleName name = simpleName l.loggerClass) : name = l.loggerClass := by
  obtain ⟨i, hi, rfl⟩ := List.mem_map.1 hname
  obtain ⟨hi, hkind⟩ := List.mem_filter.1 hi
  simp only [EntryLogger.clashes, Bool.or_eq_false_iff, List.any_eq_false] at hc
  have hno := hc.2 i hi
  simp only [Bool.and_eq_true, Bool.not_eq_true', bne_iff_ne, beq_iff_eq, not_and] at hno hkind
  by_contra hne
  exact hno ⟨⟨hkind.1, hkind.2⟩, hne⟩ hs

/-! ## What names mean -/

/-- The names in a unit that is printed after some events mean what their listeners meant. -/
structure NamesHold (t : ListenerTable) (u : CompilationUnit) (events : List Event) : Prop where
  /-- No two imports by name share a simple name if one of them is inserted. -/
  imports : let edits := t.dispatchAll u events { autoImports := true }
    ∀ a ∈ u.missingImports edits, ∀ b ∈ u.importedTypes ++ u.missingImports edits,
      simpleName a = simpleName b → a = b
  /-- No inserted import has the simple name of another type that the unit declares. -/
  declared : let edits := t.dispatchAll u events { autoImports := true }
    ∀ a ∈ u.missingImports edits, ∀ b ∈ u.declaredTypes, simpleName a = simpleName b → a = b
  /-- A simple name that a logger wrote is the name of no type but its own class. -/
  written : let edits := t.dispatchAll u events { autoImports := true }
    ∀ l ∈ events.flatMap (t.answering u), l.target u true = simpleName l.loggerClass →
      ∀ b ∈ u.typesInScope edits, simpleName b = simpleName l.loggerClass → b = l.loggerClass

/-- Of some loggers those that refer to their class by its simple name do not get in each other's
    way, and neither does the unit. -/
def Unambiguous (u : CompilationUnit) (loggers : List EntryLogger) : Prop :=
  ∀ l ∈ loggers, l.clashes u = false →
    (∀ d ∈ u.declaredTypes, simpleName d = simpleName l.loggerClass → d = l.loggerClass) ∧
    ∀ l' ∈ loggers, l'.clashes u = false → u.needsImport l'.loggerClass = true →
      simpleName l'.loggerClass = simpleName l.loggerClass → l'.loggerClass = l.loggerClass

instance (u : CompilationUnit) (loggers : List EntryLogger) :
    Decidable (Unambiguous u loggers) :=
  inferInstanceAs (Decidable (∀ l ∈ loggers, l.clashes u = false →
    (∀ d ∈ u.declaredTypes, simpleName d = simpleName l.loggerClass → d = l.loggerClass) ∧
    ∀ l' ∈ loggers, l'.clashes u = false → u.needsImport l'.loggerClass = true →
      simpleName l'.loggerClass = simpleName l.loggerClass → l'.loggerClass = l.loggerClass))

theorem target_eq_simpleName_iff {l : EntryLogger} {u : CompilationUnit}
    (hdot : '.' ∈ l.loggerClass.toList) :
    l.target u true = simpleName l.loggerClass ↔ l.clashes u = false := by
  unfold EntryLogger.target
  cases l.clashes u with
  | false => simp
  | true =>
    refine iff_of_false (fun h => ?_) Bool.noConfusion
    have heq : l.loggerClass = simpleName l.loggerClass := by simpa using h
    rw [heq] at hdot
    exact dot_not_mem_simpleName _ hdot

/-- All inserted names mean the classes of their listeners exactly if the answering loggers do
    not get in each other's way. -/
theorem namesHold_iff (t : ListenerTable) (u : CompilationUnit) (events : List Event)
    (hdots : ∀ l ∈ events.flatMap (t.answering u), '.' ∈ l.loggerClass.toList) :
    NamesHold t u events ↔ Unambiguous u (events.flatMap (t.answering u)) := by
  constructor
  · intro h l hl hc
    have hwritten := h.written l hl ((target_eq_simpleName_iff (hdots l hl)).2 hc)
    refine ⟨fun d hd hs => hwritten d ?_ hs, fun l' hl' hc' hneeds hs => hwritten _ ?_ hs⟩
    · exact List.mem_append_left _ (List.mem_append_left _ hd)
    · exact List.mem_append_right _ (mem_missingImports.2 ⟨hneeds, l', hl', hc', rfl⟩)
  · intro h
    refine ⟨?_, ?_, ?_⟩
    · intro edits a ha b hb hs
      obtain ⟨hneeds, l, hl, hc, rfl⟩ := mem_missingImports.1 ha
      rcases List.mem_append.1 hb with hb | hb
      · exact (eq_of_mem_importedTypes hc hb hs.symm).symm
      · obtain ⟨-, l', hl', hc', rfl⟩ := mem_missingImports.1 hb
        exact (h l' hl' hc').2 l hl hc hneeds hs
    · intro edits a ha b hb hs
      obtain ⟨-, l, hl, hc, rfl⟩ := mem_missingImports.1 ha
      exact ((h l hl hc).1 b hb hs.symm).symm
    · intro edits l hl htarget b hb hs
      have hc := (target_eq_simpleName_iff (hdots l hl)).1 htarget
      rcases List.mem_append.1 hb with hb | hb
      · rcases List.mem_append.1 hb with hb | hb
        · exact (h l hl hc).1 b hb hs
        · exact eq_of_mem_importedTypes hc hb hs
      · obtain ⟨hneeds, l', hl', hc', rfl⟩ := mem_missingImports.1 hb
        exact (h l hl hc).2 l' hl' hc' hneeds hs

/-- Two loggers with different simple names, and one whose simple name the unit has for a class
    of its own. -/
theorem namesHold_among_three :
    let table : ListenerTable :=
      ⟨[(methodEntry, [⟨0, ⟨"log.L", "a"⟩⟩, ⟨1, ⟨"log.A", "b"⟩⟩, ⟨2, ⟨"log.M", "c"⟩⟩])]⟩
    let events : List Event := [⟨methodEntry, "p.A.m()", 1, 1, "", ⟨0, 1⟩⟩]
    let u : CompilationUnit := ⟨⟨"A.java"⟩, ⟨"A.java"⟩, .java, ⟨"class A".toList, default⟩,
      some "p", [⟨"log.M", false, false, 1⟩], ["p.A"], 0⟩
    u.missingImports (table.dispatchAll u events { autoImports := true }) = ["log.L"] ∧
      NamesHold table u events := by
  intro table events u
  have hdots : ∀ l ∈ events.flatMap (table.answering u), '.' ∈ l.loggerClass.toList := by
    decide +kernel
  exact ⟨by decide +kernel, (namesHold_iff table u events hdots).2 (by decide +kernel)⟩

/-- Two loggers of one simple name from different packages are both imported. -/
theorem namesHold_fails_for_two_packages :
    let d : MethodDetector :=
      { listeners := ⟨[(methodEntry, [⟨0, ⟨"a.L", "log"⟩⟩, ⟨1, ⟨"b.L", "log"⟩⟩])]⟩ }
    ∃ u, CompilationUnit.ofSource ⟨"A.java"⟩ ⟨"A.java"⟩ .java
        "class A\x7bvoid m()\x7b\x7d\x7d".toList = .ok u ∧
      ¬ NamesHold d.listeners u (d.process u (some ⟨{}, []⟩) { autoImports := true }).2.events := by
  intro d
  let imports (u : CompilationUnit) : List String :=
    u.missingImports (d.listeners.dispatchAll u
      (d.process u (some ⟨{}, []⟩) { autoImports := true }).2.events { autoImports := true })
  obtain ⟨u, hu, hboth⟩ := exists_ok_of_any
    (x := CompilationUnit.ofSource ⟨"A.java"⟩ ⟨"A.java"⟩ .java
      "class A\x7bvoid m()\x7b\x7d\x7d".toList)
    (f := fun u => decide ("a.L" ∈ imports u ∧ "b.L" ∈ imports u)) (by decide +kernel)
  obtain ⟨ha, hb⟩ : "a.L" ∈ imports u ∧ "b.L" ∈ imports u := of_decide_eq_true hboth
  refine ⟨u, hu, fun h => ?_⟩
  have heq := h.imports "a.L" ha "b.L" (List.mem_append_right _ hb) (by decide +kernel)
  exact absurd heq (by decide)

end Detect

end Tracepoint
