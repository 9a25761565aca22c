import Tracepoint.Proofs.Detect.Insertions

/-!
# What a detector reports

Elements at positions of the source are all reported, in order, whatever edits were recorded
before: no listener fails there. The event of an element carries the identifier that its key has
from then on. Of an event that is at no position the listeners leave nothing behind but an error.

Results:

* `deliver_of_boundary`, `deliver_of_not_boundary`: listeners at a position and elsewhere.
* `process_complete`: what processing a unit reports if its elements are at positions.
-/

namespace Tracepoint.Detect

open Java Source Text

/-- The event that an element is reported with. -/
def Element.event (e : Element) (id : Nat) : Event := ⟨e.kind, e.key, id, e.offset, e.indent, e.span⟩

@[simp] theorem Element.offset_event (e : Element) (id : Nat) : (e.event id).offset = e.offset := rfl

/-! ## Listeners -/

/-- Listeners do not fail at a position. -/
theorem deliver_of_boundary {u : CompilationUnit} {e : Event}
    (h : isBoundary u.parsed.source e.offset = true) (ls : List Listener) :
    ∀ edits : UnitEdits, (ListenerTable.deliver u e edits ls).2 = none := by
  induction ls with
  | nil => exact fun edits => rfl
  | cons l ls ih =>
    intro edits
    rw [ListenerTable.deliver, EntryLogger.onEvent, if_pos h]
    exact ih _

/-- What a listener says of an event that is at no position. -/
def offError (u : CompilationUnit) (e : Event) : Error :=
  .listener EntryLogger.name
    s!"insertion offset {e.offset} for `{e.key}` is outside {u.relativePath.text}"

/-- Where an event is at no position, the first listener fails and nothing is recorded. -/
theorem deliver_of_not_boundary {u : CompilationUnit} {e : Event}
    (h : isBoundary u.parsed.source e.offset = false) (edits : UnitEdits) (ls : List Listener) :
    ListenerTable.deliver u e edits ls = (edits, ls.head?.map fun _ => offError u e) := by
  cases ls with
  | nil => rfl
  | cons l ls =>
    rw [ListenerTable.deliver, EntryLogger.onEvent, if_neg (by simp [h])]
    rfl

/-! ## Detectors -/

namespace MethodDetector

/-- The events of some elements, with the identifiers of their keys in a map. -/
def eventsOf (ids : IdMap) (es : List Element) : List Event :=
  es.map fun e => e.event ((ids.get? e.key).getD 0)

/-- Elements at positions are all reported. -/
theorem report_complete {u : CompilationUnit} (d : MethodDetector) (es : List Element)
    (h : ∀ e ∈ es, isBoundary u.parsed.source e.offset = true) :
    ∀ p : Progress, p.failure = none →
      let q := d.report u es p
      q.failure = none ∧ q.detected = p.detected + es.length ∧
        q.ids = p.ids.addKeys (es.map (·.key)) ∧ q.events = p.events ++ eventsOf q.ids es := by
  induction es with
  | nil => exact fun p hp => ⟨hp, by simp [report], rfl, by simp [report, eventsOf]⟩
  | cons e es ih =>
    obtain ⟨he, hes⟩ := List.forall_mem_cons.1 h
    intro p hp q
    let event := e.event (p.ids.getOrCreate e.key).1
    let next : Progress := ⟨p.detected + 1, (p.ids.getOrCreate e.key).2,
      (d.listeners.dispatch u event p.edits).1, p.events ++ [event], none⟩
    have hnone : (d.listeners.dispatch u event p.edits).2 = none := deliver_of_boundary he _ _
    have hq : q = d.report u es next := by
      show d.report u (e :: es) p = _
      rw [report]
      simp only [event, Element.event] at hnone
      simp only [hnone]
      rfl
    obtain ⟨hfailure, hdetected, hids, hevents⟩ := ih hes next rfl
    rw [← hq] at hfailure hdetected hids hevents
    refine ⟨hfailure, ?_, hids, ?_⟩
    · rw [hdetected, List.length_cons]
      show p.detected + 1 + es.length = _
      omega
    · -- the identifier of the first key is still there after the other keys
      have hid : q.ids.get? e.key = some (p.ids.getOrCreate e.key).1 := by
        rw [hids]
        exact IdMap.kept_addKeys _ _ _ _ (IdMap.get?_getOrCreate_self p.ids e.key)
      rw [hevents]
      simp [next, event, eventsOf, hid]

/-- Processing a unit reports all of its elements if these are at positions. -/
theorem process_complete {u : CompilationUnit} (houtlines : u.language.outlines = true)
    (d : MethodDetector) (ids : IdMap) (edits : UnitEdits)
    (h : ∀ e ∈ elements u d.constructors, isBoundary u.parsed.source e.offset = true) :
    let es := elements u d.constructors
    let p := (d.process u (some ids) edits).2
    p.failure = none ∧ p.detected = d.detected + es.length ∧
      p.ids = ids.addKeys (es.map (·.key)) ∧ p.events = eventsOf p.ids es := by
  intro es p
  have hp : p = d.report u es ⟨d.detected, ids, edits, [], none⟩ := by
    show (d.process u (some ids) edits).2 = _
    rw [process]
    simp only [obstacle?, houtlines, if_true]
    rfl
  have hreport := d.report_complete es h ⟨d.detected, ids, edits, [], none⟩ rfl
  rw [← hp] at hreport
  simpa using hreport

end MethodDetector

end Tracepoint.Detect
