import Mathlib.Logic.Function.Iterate
import Tracepoint.Proofs.FirstOccurrences
import Tracepoint.Proofs.Instrument.FileByFile
import Tracepoint.Proofs.Instrument.History

/-!
# Routes reach their listeners

A configuration is made by calls that route a kind of event to a listener, in any order and
with repetitions, and it is accepted if every kind that is routed is emitted by a detector.
Every run that is prepared wires its detectors: each one gets the listeners of the kinds that
it emits. A listener is known by its handle, and it is added to a kind only once, so it does
not matter how often detectors are wired.

Results:

* `listenersFor_ofCalls`: what calls route to a kind.
* `check_ofCalls_iff`: which configurations are accepted.
* `routeDetector_routeDetector`: wiring a detector again changes nothing.
* `tables_after`: the tables of detectors over a history of runs.
-/

namespace Tracepoint

namespace Detect.ListenerTable

/-! ## Adding listeners -/

/-- Listeners with one more, unless its handle is among them. -/
def join (ls : List Listener) (l : Listener) : List Listener :=
  if ls.any (·.handle = l.handle) then ls else ls ++ [l]

theorem listenersFor_add (t : ListenerTable) (kind : String) (l : Listener) (k : String) :
    (t.add kind l).2.listenersFor k =
      if k = kind then join (t.listenersFor k) l else t.listenersFor k := by
  obtain ⟨routes⟩ := t
  show ((addTo kind l routes).lookup k).getD [] =
    if k = kind then join ((routes.lookup k).getD []) l else (routes.lookup k).getD []
  induction routes with
  | nil =>
    by_cases hk : k = kind
    · simp [addTo, hk, join]
    · have hne : (k == kind) = false := beq_eq_false_iff_ne.2 hk
      simp [addTo, List.lookup_cons, hne, hk]
  | cons r routes ih =>
    obtain ⟨k', ls⟩ := r
    by_cases hk' : k' = kind
    · subst hk'
      by_cases hk : k = k'
      · subst hk
        simp [addTo, join]
      · have hne : (k == k') = false := beq_eq_false_iff_ne.2 hk
        simp [addTo, List.lookup_cons, hne, hk]
    · rw [addTo, if_neg hk', List.lookup_cons, List.lookup_cons]
      by_cases hk : k = k'
      · subst hk
        simp [hk']
      · have hne : (k == k') = false := beq_eq_false_iff_ne.2 hk
        simp only [hne, ih]

/-- Adding a listener whose handle is there changes nothing. -/
theorem add_of_any {t : ListenerTable} {kind : String} {l : Listener}
    (h : (t.listenersFor kind).any (·.handle = l.handle) = true) : (t.add kind l).2 = t := by
  obtain ⟨routes⟩ := t
  change ((routes.lookup kind).getD []).any (·.handle = l.handle) = true at h
  show (⟨addTo kind l routes⟩ : ListenerTable) = ⟨routes⟩
  congr 1
  induction routes with
  | nil => simp at h
  | cons r routes ih =>
    obtain ⟨k, ls⟩ := r
    by_cases hk : k = kind
    · subst hk
      replace h : ls.any (·.handle = l.handle) = true := by simpa [List.lookup_cons] using h
      rw [addTo, if_pos rfl, if_pos h]
    · have hne : (kind == k) = false := beq_eq_false_iff_ne.2 (Ne.symm hk)
      rw [List.lookup_cons, hne] at h
      rw [addTo, if_neg hk, ih h]

theorem mem_kinds_add (t : ListenerTable) (kind : String) (l : Listener) (k : String) :
    k ∈ (t.add kind l).2.kinds ↔ k = kind ∨ k ∈ t.kinds := by
  obtain ⟨routes⟩ := t
  show k ∈ (addTo kind l routes).map (·.1) ↔ k = kind ∨ k ∈ routes.map (·.1)
  induction routes with
  | nil => simp [addTo]
  | cons r routes ih =>
    obtain ⟨k', ls⟩ := r
    by_cases hk' : k' = kind
    · subst hk'
      simp [addTo]
    · rw [addTo, if_neg hk', List.map_cons, List.mem_cons, ih, List.map_cons, List.mem_cons]
      exact or_left_comm

/-! ## Adding many listeners -/

theorem any_foldl_join (ls acc : List Listener) (handle : Nat) :
    (ls.foldl join acc).any (·.handle = handle) =
      (acc.any (·.handle = handle) || ls.any (·.handle = handle)) := by
  induction ls generalizing acc with
  | nil => simp
  | cons l ls ih =>
    rw [List.foldl_cons, ih, List.any_cons, ← Bool.or_assoc]
    congr 1
    unfold join
    split_ifs with hany
    · by_cases hl : l.handle = handle
      · subst hl
        simp [hany]
      · simp [hl]
    · simp [List.any_append]

/-- Listeners that are all there are not added again. -/
theorem foldl_join_of_any {ls acc : List Listener}
    (h : ∀ l ∈ ls, acc.any (·.handle = l.handle) = true) : ls.foldl join acc = acc := by
  induction ls with
  | nil => rfl
  | cons l ls ih =>
    rw [List.foldl_cons, join, if_pos (h l List.mem_cons_self)]
    exact ih fun l' hl' => h l' (List.mem_cons_of_mem _ hl')

/-- Each listener is added where its handle is met for the first time. -/
theorem foldl_join (ls acc : List Listener) :
    ls.foldl join acc = acc ++ List.eraseDupsBy (fun a b => a.handle == b.handle)
      (ls.filter fun l => !acc.any (·.handle = l.handle)) := by
  have hjoin : join = addNew fun a b => a.handle == b.handle := by
    funext ls l
    simp [join, addNew]
  rw [hjoin, foldl_addNew fun _ _ => BEq.comm]
  rfl

/-- No two listeners have the same handle. -/
def Distinct (ls : List Listener) : Prop := ls.Pairwise fun a b => a.handle ≠ b.handle

/-- Listeners with different handles are all added. -/
theorem foldl_join_of_distinct {ls : List Listener} (h : Distinct ls) :
    ∀ acc, (∀ l ∈ ls, acc.any (·.handle = l.handle) = false) → ls.foldl join acc = acc ++ ls := by
  induction ls with
  | nil => exact fun acc _ => (List.append_nil acc).symm
  | cons l ls ih =>
    intro acc hacc
    obtain ⟨hl, hls⟩ := List.pairwise_cons.1 h
    rw [List.foldl_cons, join, hacc l List.mem_cons_self, if_neg Bool.false_ne_true,
      ih hls _ fun l' hl' => ?_, List.append_assoc, List.singleton_append]
    simp [hacc l' (List.mem_cons_of_mem _ hl'), hl l' hl']

/-! ## Calls -/

/-- The table after some calls that route a kind of event to a listener. -/
def ofCalls (calls : List (String × Listener)) : ListenerTable :=
  calls.foldl (fun t call => (t.add call.1 call.2).2) {}

/-- The listeners that calls route to a kind, each handle once, in the order of first calls. -/
def routedTo (calls : List (String × Listener)) (kind : String) : List Listener :=
  List.eraseDupsBy (fun a b => a.handle == b.handle)
    ((calls.filter (·.1 = kind)).map (·.2))

theorem listenersFor_foldl_add (calls : List (String × Listener)) (kind : String) :
    ∀ t : ListenerTable, (calls.foldl (fun t call => (t.add call.1 call.2).2) t).listenersFor kind =
      ((calls.filter (·.1 = kind)).map (·.2)).foldl join (t.listenersFor kind) := by
  induction calls with
  | nil => exact fun t => rfl
  | cons call calls ih =>
    intro t
    rw [List.foldl_cons, ih, listenersFor_add]
    by_cases hk : call.1 = kind
    · rw [List.filter_cons_of_pos (by simpa using hk), if_pos hk.symm, List.map_cons,
        List.foldl_cons]
    · rw [List.filter_cons_of_neg (by simpa using hk), if_neg (Ne.symm hk)]

theorem routedTo_eq_foldl (calls : List (String × Listener)) (kind : String) :
    routedTo calls kind = ((calls.filter (·.1 = kind)).map (·.2)).foldl join [] := by
  rw [foldl_join, List.nil_append, List.filter_eq_self.2 (by simp)]
  rfl

/-- What calls route to a kind. -/
theorem listenersFor_ofCalls (calls : List (String × Listener)) (kind : String) :
    (ofCalls calls).listenersFor kind = routedTo calls kind := by
  rw [ofCalls, listenersFor_foldl_add, routedTo_eq_foldl]
  rfl

theorem distinct_routedTo (calls : List (String × Listener)) (kind : String) :
    Distinct (routedTo calls kind) :=
  (pairwise_eraseDupsBy (fun _ _ => BEq.comm) _).imp fun h => by simpa using h

theorem exists_mem_routedTo {calls : List (String × Listener)} {call : String × Listener}
    (h : call ∈ calls) : ∃ l ∈ routedTo calls call.1, l.handle = call.2.handle := by
  have hany : (routedTo calls call.1).any (·.handle = call.2.handle) = true := by
    rw [routedTo_eq_foldl, any_foldl_join, List.any_nil, Bool.false_or, List.any_eq_true]
    exact ⟨call.2, List.mem_map_of_mem (List.mem_filter.2 ⟨h, by simp⟩), by simp⟩
  simpa using hany

theorem mem_kinds_ofCalls {calls : List (String × Listener)} {kind : String} :
    kind ∈ (ofCalls calls).kinds ↔ ∃ call ∈ calls, call.1 = kind := by
  have hrun : ∀ (calls : List (String × Listener)) (t : ListenerTable),
      kind ∈ (calls.foldl (fun t call => (t.add call.1 call.2).2) t).kinds ↔
        kind ∈ t.kinds ∨ ∃ call ∈ calls, call.1 = kind := by
    intro calls
    induction calls with
    | nil => simp
    | cons call calls ih =>
      intro t
      rw [List.foldl_cons, ih, mem_kinds_add, List.exists_mem_cons_iff, or_assoc, or_left_comm,
        eq_comm (a := kind)]
  rw [ofCalls, hrun]
  simp [kinds]

end Detect.ListenerTable

open Detect ListenerTable

/-! ## Reported events -/

namespace Detect.MethodDetector

theorem kind_mem_emits_of_mem_elements {d : MethodDetector} {u : Source.CompilationUnit}
    {e : Element} (h : e ∈ elements u d.constructors) : e.kind ∈ d.emits := by
  obtain ⟨hplace, hkept⟩ := List.mem_filter.1 h
  obtain ⟨p, -, hp⟩ := List.mem_filterMap.1 hplace
  have hkind : e.kind = methodEntry ∨ e.kind = constructorEntry := by
    unfold element? at hp
    split at hp
    · simp only [Option.bind_eq_bind, Option.bind_some, Option.bind_eq_some_iff] at hp
      obtain ⟨body, -, he⟩ := hp
      exact .inl (congrArg Element.kind (Option.some.inj he)).symm
    · simp only [Option.bind_eq_bind, Option.bind_some, Option.bind_eq_some_iff] at hp
      obtain ⟨body, -, he⟩ := hp
      exact .inr (congrArg Element.kind (Option.some.inj he)).symm
    · cases hp
  unfold emits
  rcases hkind with hkind | hkind
  · split_ifs <;> simp [hkind]
  · rw [if_pos (by simpa [hkind] using hkept)]
    simp [hkind]

theorem mem_events_report {d : MethodDetector} {u : Source.CompilationUnit} {e : Event}
    (es : List Element) : ∀ p : Progress, e ∈ (d.report u es p).events →
      e ∈ p.events ∨ ∃ x ∈ es, x.kind = e.kind := by
  induction es with
  | nil => exact fun p h => .inl h
  | cons x es ih =>
    intro p h
    have hnext : e ∈ p.events ++ [⟨x.kind, x.key, (p.ids.getOrCreate x.key).1, x.offset, x.indent,
        x.span⟩] ∨ ∃ y ∈ es, y.kind = e.kind := by
      simp only [report] at h
      split at h
      · exact .inl h
      · exact ih _ h
    rcases hnext with hnext | ⟨y, hy, hkind⟩
    · rcases List.mem_append.1 hnext with hp | hx
      · exact .inl hp
      · rw [List.mem_singleton.1 hx]
        exact .inr ⟨x, List.mem_cons_self, rfl⟩
    · exact .inr ⟨y, List.mem_cons_of_mem _ hy, hkind⟩

/-- A detector reports only events of the kinds that it emits. -/
theorem kind_mem_emits {d : MethodDetector} {u : Source.CompilationUnit} {ids : Option IdMap}
    {edits : Source.UnitEdits} {e : Event} (h : e ∈ (d.process u ids edits).2.events) :
    e.kind ∈ d.emits := by
  simp only [process] at h
  split at h
  · simp at h
  · rcases mem_events_report _ _ h with hnone | ⟨x, hx, hkind⟩
    · simp at hnone
    · rw [← hkind]
      exact kind_mem_emits_of_mem_elements hx

end Detect.MethodDetector

/-! ## Accepted configurations -/

theorem Config.Configuration.check_eq_ok_iff (c : Config.Configuration) :
    c.check = .ok c ↔ ∀ kind ∈ c.routes.kinds, ∃ d ∈ c.detectors, kind ∈ d.emits := by
  have hnone : c.check = .ok c ↔ c.routes.kinds.find? (!c.emitted.contains ·) = none := by
    unfold check
    split <;> simp_all
  rw [hnone, List.find?_eq_none]
  simp [emitted]

/-- A configuration is accepted exactly if every kind that is routed is emitted. -/
theorem Config.Configuration.check_ofCalls_iff (c : Config.Configuration)
    (calls : List (String × Listener)) (h : c.routes = ofCalls calls) :
    c.check = .ok c ↔ ∀ call ∈ calls, ∃ d ∈ c.detectors, call.1 ∈ d.emits := by
  rw [check_eq_ok_iff, h]
  constructor
  · exact fun hall call hcall => hall call.1 (mem_kinds_ofCalls.2 ⟨call, hcall, rfl⟩)
  · intro hall kind hkind
    obtain ⟨call, hcall, rfl⟩ := mem_kinds_ofCalls.1 hkind
    exact hall call hcall

namespace Instrument

open Config

/-! ## Wiring -/

namespace Instrumenter

theorem constructors_routeKind (routes : ListenerTable) (d : MethodDetector) (kind : String) :
    (routeKind routes d kind).constructors = d.constructors := by
  unfold routeKind
  induction routes.listenersFor kind generalizing d with
  | nil => rfl
  | cons l ls ih => exact ih (d.addListener kind l)

theorem constructors_routeDetector (routes : ListenerTable) (d : MethodDetector) :
    (routeDetector routes d).constructors = d.constructors := by
  unfold routeDetector
  induction d.emits generalizing d with
  | nil => rfl
  | cons kind kinds ih => rw [List.foldl_cons, ih, constructors_routeKind]

theorem emits_routeDetector (routes : ListenerTable) (d : MethodDetector) :
    (routeDetector routes d).emits = d.emits := by
  rw [MethodDetector.emits, constructors_routeDetector, MethodDetector.emits]

theorem listenersFor_routeKind (routes : ListenerTable) (d : MethodDetector) (kind k : String) :
    (routeKind routes d kind).listeners.listenersFor k =
      if k = kind then (routes.listenersFor k).foldl join (d.listeners.listenersFor k)
      else d.listeners.listenersFor k := by
  unfold routeKind
  by_cases hk : k = kind
  · subst hk
    rw [if_pos rfl]
    induction routes.listenersFor k generalizing d with
    | nil => rfl
    | cons l ls ih =>
      rw [List.foldl_cons, ih, List.foldl_cons]
      show ls.foldl join ((d.listeners.add k l).2.listenersFor k) = _
      rw [listenersFor_add, if_pos rfl]
  · rw [if_neg hk]
    induction routes.listenersFor kind generalizing d with
    | nil => rfl
    | cons l ls ih =>
      rw [List.foldl_cons, ih]
      show (d.listeners.add kind l).2.listenersFor k = _
      rw [listenersFor_add, if_neg hk]

/-- A detector that is wired has the listeners of the kinds that it emits, after those that it
    had. -/
theorem listenersFor_routeDetector (routes : ListenerTable) (d : MethodDetector) (k : String) :
    (routeDetector routes d).listeners.listenersFor k =
      if k ∈ d.emits then (routes.listenersFor k).foldl join (d.listeners.listenersFor k)
      else d.listeners.listenersFor k := by
  unfold routeDetector
  generalize d.emits = kinds
  induction kinds generalizing d with
  | nil => simp
  | cons kind kinds ih =>
    rw [List.foldl_cons, ih, listenersFor_routeKind]
    by_cases hk : k = kind
    · subst hk
      -- a kind that is met again adds nothing
      have hagain : (routes.listenersFor k).foldl join
          ((routes.listenersFor k).foldl join (d.listeners.listenersFor k)) =
          (routes.listenersFor k).foldl join (d.listeners.listenersFor k) := by
        refine foldl_join_of_any fun l hl => ?_
        rw [any_foldl_join, Bool.or_eq_true]
        exact .inr (List.any_eq_true.2 ⟨l, hl, by simp⟩)
      simp [hagain]
    · simp [hk]

theorem routeKind_of_any {routes : ListenerTable} {d : MethodDetector} {kind : String}
    (h : ∀ l ∈ routes.listenersFor kind,
      (d.listeners.listenersFor kind).any (·.handle = l.handle) = true) :
    routeKind routes d kind = d := by
  unfold routeKind
  revert h
  induction routes.listenersFor kind with
  | nil => exact fun _ => rfl
  | cons l ls ih =>
    intro h
    have hl : d.addListener kind l = d := by
      rw [MethodDetector.addListener, add_of_any (h l List.mem_cons_self)]
    rw [List.foldl_cons, hl]
    exact ih fun l' hl' => h l' (List.mem_cons_of_mem _ hl')

/-- Wiring a detector again changes nothing. -/
theorem routeDetector_routeDetector (routes : ListenerTable) (d : MethodDetector) :
    routeDetector routes (routeDetector routes d) = routeDetector routes d := by
  have hkinds : ∀ kinds : List String, (∀ kind ∈ kinds, kind ∈ d.emits) →
      kinds.foldl (routeKind routes) (routeDetector routes d) = routeDetector routes d := by
    intro kinds hemits
    induction kinds with
    | nil => rfl
    | cons kind kinds ih =>
      rw [List.foldl_cons, routeKind_of_any fun l hl => ?_]
      · exact ih fun k hk => hemits k (List.mem_cons_of_mem _ hk)
      · rw [listenersFor_routeDetector, if_pos (hemits kind List.mem_cons_self), any_foldl_join,
          Bool.or_eq_true]
        exact .inr (List.any_eq_true.2 ⟨l, hl, by simp⟩)
  conv_lhs => rw [routeDetector, emits_routeDetector]
  exact hkinds d.emits fun _ hk => hk

/-- Wiring an instrumenter again changes nothing. -/
theorem wire_wire (i : Instrumenter) : i.wire.wire = i.wire := by
  simp only [wire, setDetectors, List.map_map]
  congr 2
  exact List.map_congr_left fun d _ => routeDetector_routeDetector i.config.routes d

end Instrumenter

/-! ## The tables of detectors -/

/-- Detectors of a configuration whose tables are empty, or, once they are wired, hold what the
    configuration routes to the kinds that they emit. -/
structure Tables (c : Configuration) (wired : Bool) (ds : List MethodDetector) : Prop where
  constructors : ds.map (·.constructors) = c.detectors.map (·.constructors)
  listeners : ∀ d ∈ ds, ∀ kind, d.listeners.listenersFor kind =
    if wired ∧ kind ∈ d.emits then c.routes.listenersFor kind else []

namespace Tables

variable {c : Configuration} {wired : Bool} {ds : List MethodDetector}

/-- Tables do not depend on what was counted. -/
theorem of_reset {ds' : List MethodDetector} (h : Tables c wired ds)
    (hreset : ds'.map (·.reset) = ds.map (·.reset)) : Tables c wired ds' := by
  constructor
  · have hmap := congrArg (List.map (·.constructors)) hreset
    simp only [List.map_map] at hmap
    exact hmap.trans h.constructors
  · intro d hd kind
    obtain ⟨d', hd', heq⟩ := List.mem_map.1 (hreset ▸ List.mem_map_of_mem hd)
    have hlisteners : d.listeners = d'.listeners :=
      (congrArg MethodDetector.listeners heq).symm
    have hemits : d.emits = d'.emits := by
      have hconstructors : d.constructors = d'.constructors :=
        (congrArg MethodDetector.constructors heq).symm
      rw [MethodDetector.emits, hconstructors, MethodDetector.emits]
    rw [hlisteners, hemits]
    exact h.listeners d' hd' kind

theorem wire (h : Tables c wired ds) (hroutes : ∀ kind, Distinct (c.routes.listenersFor kind)) :
    Tables c true (ds.map (Instrumenter.routeDetector c.routes)) := by
  constructor
  · rw [List.map_map, ← h.constructors]
    exact List.map_congr_left fun d _ => Instrumenter.constructors_routeDetector c.routes d
  · intro d' hd' kind
    obtain ⟨d, hd, rfl⟩ := List.mem_map.1 hd'
    rw [Instrumenter.listenersFor_routeDetector, Instrumenter.emits_routeDetector,
      h.listeners d hd kind]
    by_cases hkind : kind ∈ d.emits
    · cases wired with
      | true =>
        simp only [hkind, and_self, if_true]
        exact foldl_join_of_any fun l hl => List.any_eq_true.2 ⟨l, hl, by simp⟩
      | false =>
        simp only [hkind, and_true, Bool.false_eq_true, if_false, if_true]
        exact foldl_join_of_distinct (hroutes kind) [] fun _ _ => rfl
    · simp [hkind]

end Tables

/-! ## Histories -/

/-- The setup stays, and detectors that get their identifiers from the instrumenter stay the
    same except for what they have counted. -/
structure KeepsTables (i i' : Instrumenter) : Prop where
  setup : SameSetup i i'
  detectors : i.source = .instrumenter → i'.source = .instrumenter ∧
    i'.config.detectors.map (·.reset) = i.config.detectors.map (·.reset)

instance : Std.Refl KeepsTables := ⟨fun i => ⟨Std.Refl.refl i, fun hi => ⟨hi, rfl⟩⟩⟩

instance : IsTrans Instrumenter KeepsTables where
  trans := by
    intro i i' i'' h h'
    refine ⟨IsTrans.trans _ _ _ h.setup h'.setup, fun hi => ?_⟩
    obtain ⟨hi', hd⟩ := h.detectors hi
    obtain ⟨hi'', hd'⟩ := h'.detectors hi'
    exact ⟨hi'', hd'.trans hd⟩

theorem keepsTables_launch (source : Model.SourceUnit) (mode : Model.Mode) :
    Job.Keeps KeepsTables (launch [source] mode) := by
  intro s
  let l : Launch := ⟨source, mode, s⟩
  refine ⟨l.sameSetup_finish, fun hi => ⟨(l.exists_units hi).elim fun _ h => h.2.1, ?_⟩⟩
  obtain ⟨succeeded, hfinish⟩ := l.finish_instrumenter
  show (l.finish.1.config.detectors).map _ = _
  rw [hfinish]
  show (((l.process s).2.1.config.detectors).map (·.reset)).map (·.reset) = _
  rcases l.building_cases with ⟨e, w, hb⟩ | ⟨us, w, hus, hb⟩
  · rw [show l.process s = _ from l.process_of_error hb, List.map_map]
    rfl
  · rw [show l.process s = _ from l.process_of_ok hi hus hb]
    show ((s.1.config.detectors.map (counted us)).map (·.reset)).map (·.reset) = _
    rw [List.map_map, List.map_map]
    rfl

theorem keepsTables_injectBelow (i : Instrumenter) (root : Path) :
    Job.Keeps KeepsTables (injectBelow i root) :=
  keeps_injectBelow (fun s _ => (Std.Refl.refl s.1 : KeepsTables s.1 s.1)) keepsTables_launch i root

namespace Step

/-- Whether a step wires the detectors: a run does so if it can be prepared. -/
def wires : Step → Instrumenter × World → Bool
  | .run, s => (prepareRun s).1.isOk
  | _, _ => false

/-- Whether a step leaves the configuration to the instrumenter. -/
def keepsConfiguration : Step → Bool
  | .configure _ => false
  | _ => true

end Step

/-- How often detectors are wired over some steps. -/
def wirings : List Step → Instrumenter × World → Nat
  | [], _ => 0
  | step :: steps, s => (if step.wires s then 1 else 0) + wirings steps (step.apply s)

theorem wirings_run_pos {s : Instrumenter × World} (h : (prepareRun s).1.isOk = true)
    (steps : List Step) : 0 < wirings (.run :: steps) s := by
  rw [wirings, show Step.wires .run s = true from h, if_pos rfl]
  omega

/-- A run wires the detectors, if it can be prepared, and does nothing else to their tables. -/
theorem tables_run {c : Configuration} {wired : Bool} {s : Instrumenter × World}
    (hroutes : ∀ kind, Distinct (c.routes.listenersFor kind)) (hc : s.1.config.routes = c.routes)
    (h : Tables c wired s.1.config.detectors) :
    (run s).2.1.config.routes = c.routes ∧
      Tables c (wired || (prepareRun s).1.isOk) (run s).2.1.config.detectors := by
  have hconfig : ∀ i i', SameSetup i i' → i'.config.routes = i.config.routes := by
    intro i i' hsetup
    have heq := congrArg Configuration.routes hsetup.config
    exact heq
  rcases hp : prepareRun s with ⟨e | root, s₁⟩
  · have hprepared := prepared_prepareRoot (untried s)
    rw [run_of_error hp]
    rw [prepareRun_eq] at hp
    rcases hroot : prepareRoot (untried s) with ⟨e' | root, s'⟩
    · rw [Effect.bind_of_error hroot] at hp
      cases hp
      rw [hroot] at hprepared
      have hsame : s₁.1.config = s.1.config := hprepared.config
      rw [hsame]
      exact ⟨hc, by simpa [Except.isOk, Except.toBool] using h⟩
    · rw [Effect.bind_of_ok hroot] at hp
      cases hp
  · have hwired := prepareRun_of_ok hp
    have hkeeps : KeepsTables s₁.1 (run s).2.1 := by
      rw [run_of_ok hp]
      exact Job.Keeps.bind (keepsTables_injectBelow s₁.1 root) (fun r s₂ => by
        show KeepsTables s₂.1 _
        rw [← unchanged_conclude r s₂]
        exact Std.Refl.refl _) s₁
    have htables : Tables c true s₁.1.config.detectors := by
      rw [hwired.config]
      show Tables c true (s.1.config.detectors.map (Instrumenter.routeDetector s.1.config.routes))
      rw [hc]
      exact h.wire hroutes
    refine ⟨?_, ?_⟩
    · rw [hconfig _ _ hkeeps.setup, hwired.config]
      exact hc
    · rw [show (Except.ok root : Except Error Path).isOk = true from rfl, Bool.or_true]
      exact htables.of_reset (hkeeps.detectors hwired.source).2

/-- Over a history of runs the tables of detectors are those of detectors that were wired once,
    if any run could be prepared, and otherwise they stay empty. -/
theorem tables_after {c : Configuration} (hroutes : ∀ kind, Distinct (c.routes.listenersFor kind))
    (steps : List Step) (hsteps : ∀ step ∈ steps, step.keepsConfiguration = true) :
    ∀ (wired : Bool) (s : Instrumenter × World), s.1.config.routes = c.routes →
      Tables c wired s.1.config.detectors →
      Tables c (wired || decide (0 < wirings steps s)) (after steps s).1.config.detectors := by
  induction steps with
  | nil =>
    intro wired s _ h
    show Tables c (wired || false) s.1.config.detectors
    rw [Bool.or_false]
    exact h
  | cons step steps ih =>
    intro wired s hc h
    have hidle : Tables c (wired || false) s.1.config.detectors := by
      rw [Bool.or_false]
      exact h
    have hstep : (step.apply s).1.config.routes = c.routes ∧
        Tables c (wired || step.wires s) (step.apply s).1.config.detectors := by
      cases step with
      | run => exact tables_run hroutes hc h
      | clean => exact ⟨hc, hidle⟩
      | configure config => exact absurd (hsteps _ List.mem_cons_self) Bool.false_ne_true
      | elsewhere change => exact ⟨hc, hidle⟩
    have hrest := ih (fun x hx => hsteps x (List.mem_cons_of_mem _ hx)) _ _ hstep.1 hstep.2
    have hwirings : (wired || decide (0 < wirings (step :: steps) s)) =
        (wired || step.wires s || decide (0 < wirings steps (step.apply s))) := by
      rw [wirings]
      cases step.wires s with
      | true => simp [show 0 < 1 + wirings steps (step.apply s) by omega]
      | false => simp
    rw [hwirings]
    exact hrest

/-! ## Deliveries -/

/-- What an event does at one more listener: it is told, unless one before it failed, and adds to the
    edits or fails itself. -/
def tell (u : Source.CompilationUnit) (e : Event) (s : Source.UnitEdits × Option Error)
    (l : Listener) : Source.UnitEdits × Option Error :=
  match s.2 with
  | some _ => s
  | none =>
    match l.logger.onEvent u e s.1 with
    | .ok edits => (edits, none)
    | .error err => (s.1, some err)

theorem deliver_eq_foldl (u : Source.CompilationUnit) (e : Event) (ls : List Listener) :
    ∀ edits, deliver u e edits ls = ls.foldl (tell u e) (edits, none) := by
  have hfailed : ∀ (ls : List Listener) edits err,
      ls.foldl (tell u e) (edits, some err) = (edits, some err) := by
    intro ls edits err
    induction ls with
    | nil => rfl
    | cons l ls ih => exact ih
  induction ls with
  | nil => exact fun _ => rfl
  | cons l ls ih =>
    intro edits
    rw [deliver, List.foldl_cons, tell]
    cases h : l.logger.onEvent u e edits with
    | ok edits' => exact ih edits'
    | error err => exact (hfailed ls edits err).symm

/-- Detectors that deliver what calls route: an event of a kind that a detector emits goes to the
    listeners that were routed to the kind, each once, in the order of their first calls, and
    nothing goes elsewhere. -/
structure Delivers (calls : List (String × Listener)) (ds : List MethodDetector) : Prop where
  listeners : ∀ d ∈ ds, ∀ kind, d.listeners.listenersFor kind =
    if kind ∈ d.emits then routedTo calls kind else []
  /-- What was routed is held by a detector. -/
  held : ∀ call ∈ calls, ∃ d ∈ ds, ∃ l ∈ d.listeners.listenersFor call.1,
    l.handle = call.2.handle
  /-- Every event that a detector reports is told to these listeners one after the other, until
      one of them fails. -/
  dispatched : ∀ d ∈ ds, ∀ (u : Source.CompilationUnit) (ids : Option IdMap)
    (edits : Source.UnitEdits), ∀ e ∈ (d.process u ids edits).2.events, ∀ edits',
      d.listeners.dispatch u e edits' = (routedTo calls e.kind).foldl (tell u e) (edits', none)

theorem Tables.delivers {c : Configuration} {calls : List (String × Listener)}
    {ds : List MethodDetector} (h : Tables c true ds) (hroutes : c.routes = ofCalls calls)
    (hemitted : ∀ call ∈ calls, ∃ d ∈ c.detectors, call.1 ∈ d.emits) : Delivers calls ds := by
  have hlisteners : ∀ d ∈ ds, ∀ kind, d.listeners.listenersFor kind =
      if kind ∈ d.emits then routedTo calls kind else [] := by
    intro d hd kind
    rw [h.listeners d hd kind, hroutes, listenersFor_ofCalls]
    simp
  refine ⟨hlisteners, fun call hcall => ?_, fun d hd u ids edits e he edits' => ?_⟩
  · obtain ⟨d, hd, hkind⟩ := hemitted call hcall
    have hmem : d.constructors ∈ ds.map (·.constructors) := by
      rw [h.constructors]
      exact List.mem_map_of_mem hd
    obtain ⟨d', hd', hsame⟩ := List.mem_map.1 hmem
    have hkind' : call.1 ∈ d'.emits := by
      rw [MethodDetector.emits, hsame]
      exact hkind
    obtain ⟨l, hl, hhandle⟩ := exists_mem_routedTo hcall
    exact ⟨d', hd', l, by rw [hlisteners d' hd', if_pos hkind']; exact hl, hhandle⟩
  · rw [dispatch, hlisteners d hd, if_pos (MethodDetector.kind_mem_emits he), deliver_eq_foldl]

/-- A configuration is accepted exactly if every kind that is routed is emitted by one of its
    detectors. If it is accepted and the tables of its detectors are empty, then the detectors
    deliver what was routed, however often they are wired, and after every history of runs in
    which at least one could be prepared. -/
theorem routes_delivered (base : Configuration) (calls : List (String × Listener)) :
    let c : Configuration := { base with routes := ofCalls calls }
    (c.check = .ok c ↔ ∀ call ∈ calls, ∃ d ∈ c.detectors, call.1 ∈ d.emits) ∧
      (c.check = .ok c → (∀ d ∈ c.detectors, d.listeners = {}) →
        ∀ i : Instrumenter, i.config = c →
          (∀ n, 0 < n → Delivers calls (Instrumenter.wire^[n] i).config.detectors) ∧
          ∀ (steps : List Step) (w : World),
            (∀ step ∈ steps, step.keepsConfiguration = true) → 0 < wirings steps (i, w) →
            Delivers calls (after steps (i, w)).1.config.detectors) := by
  intro c
  have hcheck : c.check = .ok c ↔ ∀ call ∈ calls, ∃ d ∈ c.detectors, call.1 ∈ d.emits :=
    c.check_ofCalls_iff calls rfl
  refine ⟨hcheck, fun haccepted hempty i hi => ?_⟩
  have hemitted := hcheck.1 haccepted
  have hroutes : ∀ kind, Distinct (c.routes.listenersFor kind) := by
    intro kind
    show Distinct ((ofCalls calls).listenersFor kind)
    rw [listenersFor_ofCalls]
    exact distinct_routedTo calls kind
  have hstart : Tables c false i.config.detectors := by
    rw [hi]
    refine ⟨rfl, fun d hd kind => ?_⟩
    rw [hempty d hd]
    simp [listenersFor]
  constructor
  · intro n hn
    obtain ⟨n, rfl⟩ : ∃ k, n = k + 1 := ⟨n - 1, by omega⟩
    have hfixed : Instrumenter.wire^[n] i.wire = i.wire :=
      Function.iterate_fixed i.wire_wire n
    rw [Function.iterate_succ_apply, hfixed]
    have hwired := hstart.wire hroutes
    rw [hi] at hwired
    refine Tables.delivers (c := c) ?_ rfl hemitted
    show Tables c true (i.config.detectors.map (Instrumenter.routeDetector i.config.routes))
    rw [hi]
    exact hwired
  · intro steps w hsteps hwirings
    have htables := tables_after hroutes steps hsteps false (i, w) (by rw [hi]) hstart
    rw [Bool.false_or, decide_eq_true hwirings] at htables
    exact htables.delivers rfl hemitted

/-- Two detectors are wired by two runs to what four calls, one of them repeated, have routed. -/
theorem routes_delivered_twice :
    let l : Listener := ⟨0, ⟨"L", "log"⟩⟩
    let l' : Listener := ⟨1, ⟨"L", "log"⟩⟩
    let calls := [(methodEntry, l'), (constructorEntry, l), (methodEntry, l), (methodEntry, l')]
    let s := sample "src" [sampleFile ["p", "src", "A.java"] "class A\x7bvoid m()\x7b\x7d\x7d"]
    let i := { s.1 with config := { s.1.config with
      routes := ofCalls calls, detectors := [{}, { constructors := true }] } }
    routedTo calls methodEntry = [l', l] ∧ routedTo calls constructorEntry = [l] ∧
      Delivers calls (after [.run, .clean, .run] (i, s.2)).1.config.detectors := by
  intro l l' calls s i
  refine ⟨by decide, by decide, ?_⟩
  obtain ⟨hcheck, hdelivers⟩ := routes_delivered i.config calls
  have hprepared : (prepareRun (i, s.2)).1.isOk = true := by decide +kernel
  exact (hdelivers (hcheck.2 (by decide)) (by decide) i rfl).2 [.run, .clean, .run] s.2
    (by decide) (wirings_run_pos hprepared _)

end Instrument

end Tracepoint
