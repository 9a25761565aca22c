import Tracepoint.Instrument.Injection
import Tracepoint.Proofs.Detect.Insertions

/-!
# A pass over units

Detectors that process parsed units one after the other never fail. Each unit gets the
calls for its own elements, with identifiers that the map has at the end of the pass: an
identifier that was given out stays.

Results:

* `processUnits_ofUnits`: what a pass over parsed units leaves behind.
* `detectedCount_counted`: a pass counts every element that it reports.
-/

namespace Tracepoint.Instrument

open Detect Model Source

/-! ## What detectors find -/

/-- The elements that detectors report in a unit, in order. -/
def elementsIn (ds : List MethodDetector) (u : CompilationUnit) : List Element :=
  ds.flatMap fun d => elements u d.constructors

/-- The keys that detectors report in some units, in order. -/
def keysIn (ds : List MethodDetector) (us : List CompilationUnit) : List String :=
  us.flatMap fun u => (elementsIn ds u).map (·.key)

/-- The edits that detectors record in a unit, with the identifiers of a map. -/
def editsFor (ds : List MethodDetector) (auto : Bool) (ids : IdMap) (u : CompilationUnit) :
    UnitEdits :=
  recorded auto (ds.flatMap fun d => d.callsFor u auto ids (elements u d.constructors))
    (ds.flatMap fun d => d.referencesFor u auto (elements u d.constructors))

/-- A detector that has reported the elements of some units. -/
def counted (us : List CompilationUnit) (d : MethodDetector) : MethodDetector :=
  { d with detected := d.detected + (us.flatMap fun u => elements u d.constructors).length }

/-- How many elements detectors report in some units. -/
def foundIn (ds : List MethodDetector) (us : List CompilationUnit) : Nat :=
  (us.flatMap (elementsIn ds)).length

theorem elementsIn_counted (ds : List MethodDetector) (us : List CompilationUnit)
    (u : CompilationUnit) : elementsIn (ds.map (counted us)) u = elementsIn ds u := by
  simp [elementsIn, counted, List.flatMap_map]

theorem keysIn_counted (ds : List MethodDetector) (us us' : List CompilationUnit) :
    keysIn (ds.map (counted us)) us' = keysIn ds us' := by
  simp [keysIn, elementsIn_counted]

theorem editsFor_counted (ds : List MethodDetector) (us : List CompilationUnit) (auto : Bool)
    (ids : IdMap) (u : CompilationUnit) :
    editsFor (ds.map (counted us)) auto ids u = editsFor ds auto ids u := by
  simp only [editsFor, List.flatMap_map]
  rfl

theorem counted_counted (us us' : List CompilationUnit) (d : MethodDetector) :
    counted us' (counted us d) = counted (us ++ us') d := by
  simp [counted, Nat.add_assoc]

theorem counted_nil (d : MethodDetector) : counted [] d = d := by simp [counted]

theorem foundIn_cons (d : MethodDetector) (ds : List MethodDetector)
    (us : List CompilationUnit) :
    foundIn (d :: ds) us =
      (us.flatMap fun u => elements u d.constructors).length + foundIn ds us := by
  induction us with
  | nil => rfl
  | cons u us ih =>
    simp only [foundIn, List.flatMap_cons, List.length_append, elementsIn] at ih ⊢
    omega

theorem detectedCount_counted (ds : List MethodDetector) (us : List CompilationUnit) :
    detectedCount (ds.map (counted us)) = detectedCount ds + foundIn ds us := by
  induction ds with
  | nil => simp [detectedCount, foundIn, elementsIn]
  | cons d ds ih =>
    rw [List.map_cons, detectedCount, ih, foundIn_cons, detectedCount]
    show d.detected + _ + _ = _
    omega

/-! ## One unit -/

theorem processUnit_recorded {u : CompilationUnit} (hu : u.Fits) (auto : Bool)
    (ds : List MethodDetector) :
    ∀ (ids : IdMap) (edits : List Edit) (names : List String),
      let ids' := ids.addKeys ((elementsIn ds u).map (·.key))
      processUnit u ds (some ids) (recorded auto edits names) =
        (⟨ds.map (counted [u]), some ids', none⟩, recorded auto
          (edits ++ ds.flatMap fun d => d.callsFor u auto ids' (elements u d.constructors))
          (names ++ ds.flatMap fun d => d.referencesFor u auto (elements u d.constructors))) := by
  induction ds with
  | nil => intro ids edits names; simp [processUnit, elementsIn]
  | cons d ds ih =>
    intro ids edits names ids'
    obtain ⟨events, hprocess⟩ := d.process_recorded hu auto ids edits names
    have hids : ids' = (ids.addKeys ((elements u d.constructors).map (·.key))).addKeys
        ((elementsIn ds u).map (·.key)) := by
      simp only [ids', elementsIn, List.flatMap_cons, List.map_append, IdMap.addKeys_append]
    -- the other detectors keep the identifiers that the first one has used
    have hcalls : d.callsFor u auto (ids.addKeys ((elements u d.constructors).map (·.key)))
        (elements u d.constructors) = d.callsFor u auto ids' (elements u d.constructors) := by
      rw [hids]
      exact (d.callsFor_eq_of_kept u auto (IdMap.kept_addKeys _ _) fun e he =>
        IdMap.isSome_get?_addKeys ids (List.mem_map_of_mem he)).symm
    rw [processUnit, hprocess]
    simp only [Option.map_some, ih, ← hids, hcalls, List.map_cons, List.flatMap_cons,
      List.append_assoc]
    simp [counted]

/-! ## All units -/

theorem editsFor_of_kept {ds : List MethodDetector} {ids ids' : IdMap} {u : CompilationUnit}
    (auto : Bool) (hk : ids.Kept ids')
    (h : ∀ e ∈ elementsIn ds u, (ids.get? e.key).isSome = true) :
    editsFor ds auto ids' u = editsFor ds auto ids u := by
  have hcalls : (ds.flatMap fun d => d.callsFor u auto ids' (elements u d.constructors)) =
      ds.flatMap fun d => d.callsFor u auto ids (elements u d.constructors) := by
    apply List.flatMap_congr
    intro d hd
    exact d.callsFor_eq_of_kept u auto hk fun e he => h e (List.mem_flatMap.2 ⟨d, hd, he⟩)
  rw [editsFor, editsFor, hcalls]

/-- What a pass over parsed units leaves behind. -/
theorem processUnits_ofUnits (auto : Bool) (us : List CompilationUnit) (hus : ∀ u ∈ us, u.Fits) :
    ∀ (ds : List MethodDetector) (ids : IdMap),
      let ids' := ids.addKeys (keysIn ds us)
      processUnits (ofUnits us auto).units ⟨ds, some ids, none⟩ =
        (⟨ds.map (counted us), some ids', none⟩, us.map fun u => (u, editsFor ds auto ids' u)) := by
  induction us with
  | nil =>
    intro ds ids
    simp [processUnits, ofUnits, keysIn, List.map_id'' counted_nil]
  | cons u us ih =>
    intro ds ids ids'
    have hunit := processUnit_recorded (hus u List.mem_cons_self) auto ds ids [] []
    simp only [List.nil_append] at hunit
    rw [show recorded auto [] [] = { autoImports := auto } by simp [recorded]] at hunit
    have hids : ids' = (ids.addKeys ((elementsIn ds u).map (·.key))).addKeys (keysIn ds us) := by
      simp only [ids', keysIn, List.flatMap_cons, IdMap.addKeys_append]
    -- the other units keep the identifiers that the first one has used
    have hedits : editsFor ds auto (ids.addKeys ((elementsIn ds u).map (·.key))) u =
        editsFor ds auto ids' u := by
      rw [hids]
      exact (editsFor_of_kept auto (IdMap.kept_addKeys _ _) fun e he =>
        IdMap.isSome_get?_addKeys ids (List.mem_map_of_mem he)).symm
    have hrest := ih (fun v hv => hus v (List.mem_cons_of_mem _ hv)) (ds.map (counted [u]))
      (ids.addKeys ((elementsIn ds u).map (·.key)))
    simp only [keysIn_counted, editsFor_counted, ← hids, List.map_map] at hrest
    rw [ofUnits, List.map_cons, processUnits, hunit]
    simp only
    rw [show us.map (fun u => (u, ({ autoImports := auto } : UnitEdits))) =
      (ofUnits us auto).units from rfl, hrest]
    have hcounted : ds.map (counted us ∘ counted [u]) = ds.map (counted (u :: us)) :=
      List.map_congr_left fun d _ => counted_counted [u] us d
    rw [hcounted, List.map_cons, ← hedits]
    rfl

end Tracepoint.Instrument
