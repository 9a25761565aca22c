import Tracepoint.Proofs.Instrument.Run

/-!
# Identifiers over a history of runs

An instrumenter that is used for run after run only ever adds to its identifiers: a run
gives out new ones in the middle of passes that may fail or be repeated, and whatever comes
of it, those that were given out stay. So the calls that a run prints carry identifiers
that belong to the elements around them, in the id file of that run and in those of all
later ones.

Results:

* `Grows`: what every step of a run keeps.
* `launches_between`: identifiers only grow up to a launch and from there to the end of
  the run.
* `ids_after`: identifiers only grow over a history.
* `identifies_printedBy`: what a run prints carries identifiers that every later map pairs with
  the right keys.
-/

namespace Tracepoint.Instrument

open Config Detect Model Source

/-! ## Identifiers grow -/

/-- The setup is the same. If detectors get their identifiers from the instrumenter, they still
    do so, and it has added some keys. -/
structure Grows (i i' : Instrumenter) : Prop where
  setup : SameSetup i i'
  ids : i.source = .instrumenter →
    i'.source = .instrumenter ∧ ∃ keys, i'.ids = i.ids.addKeys keys

instance : Std.Refl Grows := ⟨fun i => ⟨Std.Refl.refl i, fun hi => ⟨hi, [], rfl⟩⟩⟩

instance : IsTrans Instrumenter Grows where
  trans := by
    intro i i' i'' h h'
    refine ⟨IsTrans.trans _ _ _ h.setup h'.setup, fun hi => ?_⟩
    obtain ⟨hi', keys, hkeys⟩ := h.ids hi
    obtain ⟨hi'', keys', hkeys'⟩ := h'.ids hi'
    exact ⟨hi'', keys ++ keys', by rw [hkeys', hkeys, IdMap.addKeys_append]⟩

theorem Grows.refl (i : Instrumenter) : Grows i i := Std.Refl.refl i

theorem grows_launch (source : SourceUnit) (mode : Mode) :
    Job.Keeps Grows (launch [source] mode) := by
  intro s
  refine ⟨Launch.sameSetup_finish ⟨source, mode, s⟩, fun hi => ?_⟩
  obtain ⟨us, -, hsource, hids, -⟩ := Launch.exists_units ⟨source, mode, s⟩ hi
  exact ⟨hsource, _, hids⟩

theorem grows_logged (s : Instrumenter × World) (lines : List LogLine) :
    Grows s.1 (s.1, s.2.logged lines).1 := Grows.refl s.1

theorem grows_injectBelow (i : Instrumenter) (root : Path) :
    Job.Keeps Grows (injectBelow i root) :=
  keeps_injectBelow grows_logged grows_launch i root

/-! ## The launches of a run -/

/-- Identifiers only grow up to a launch and from there on. -/
def Launch.Between (i i' : Instrumenter) (l : Launch) : Prop :=
  Grows i l.start.1 ∧ Grows l.finish.1 i'

theorem grows_conclude (r : Injection × List Path) : Job.Keeps Grows (conclude r) := by
  intro s
  show Grows s.1 _
  rw [← unchanged_conclude r s]
  exact Grows.refl _

/-- Identifiers only grow from the preparation of a run up to a launch, and from there to the
    end of the run. -/
theorem launches_between {s s₁ : Instrumenter × World} {root : Path}
    (h : prepareRun s = (.ok root, s₁)) : ∀ l ∈ launches s, l.Between s₁.1 (run s).2.1 := by
  intro l hl
  rw [launches_of_ok h] at hl
  rw [run_of_ok h]
  have hbetween : l.Between s₁.1 (injectBelow s₁.1 root s₁).2.1 :=
    (chain_launchesOf (R := fun s s' => Grows s.1 s'.1) grows_logged s₁.1 root s₁
      fun l _ => grows_launch l.source l.mode l.start).within l hl
  rcases hr : injectBelow s₁.1 root s₁ with ⟨e | r, s₂⟩
  · rw [Effect.bind_of_error hr]
    rwa [hr] at hbetween
  · rw [Effect.bind_of_ok hr]
    rw [hr] at hbetween
    rwa [← unchanged_conclude r s₂]

theorem ids_run (s : Instrumenter × World) : ∃ keys, (run s).2.1.ids = s.1.ids.addKeys keys := by
  have hids := ids_prepareRun s
  rcases hp : prepareRun s with ⟨e | root, s₁⟩
  · rw [run_of_error hp]
    rw [hp] at hids
    exact ⟨[], hids⟩
  · have hsource := (prepareRun_of_ok hp).source
    rw [run_of_ok hp]
    obtain ⟨-, keys, hkeys⟩ := (Job.Keeps.bind (grows_injectBelow s₁.1 root)
      (fun r => grows_conclude r) s₁).ids hsource
    rw [hp] at hids
    exact ⟨keys, by rw [hkeys, hids]⟩

/-! ## Histories -/

/-- What can happen to an instrumenter that stays in use. -/
inductive Step where
  | run
  | clean
  /-- The next run is for another configuration. -/
  | configure (config : Configuration)
  /-- Something else changes the world, the sources for example. -/
  | elsewhere (change : World → World)

/-- What is left after a step, whether or not it fails. -/
def Step.apply : Step → Instrumenter × World → Instrumenter × World
  | .run, s => (Instrument.run s).2
  | .clean, s => (s.1.clean, s.2)
  | .configure config, s => (s.1.configure config, s.2)
  | .elsewhere change, s => (s.1, change s.2)

/-- What is left after some steps. -/
def after (steps : List Step) (s : Instrumenter × World) : Instrumenter × World :=
  steps.foldl (fun s step => step.apply s) s

theorem ids_apply (step : Step) (s : Instrumenter × World) :
    ∃ keys, (step.apply s).1.ids = s.1.ids.addKeys keys := by
  cases step with
  | run => exact ids_run s
  | clean => exact ⟨[], rfl⟩
  | configure config => exact ⟨[], rfl⟩
  | elsewhere change => exact ⟨[], rfl⟩

theorem ids_after (steps : List Step) :
    ∀ s, ∃ keys, (after steps s).1.ids = s.1.ids.addKeys keys := by
  induction steps with
  | nil => intro s; exact ⟨[], rfl⟩
  | cons step steps ih =>
    intro s
    obtain ⟨keys, hkeys⟩ := ids_apply step s
    obtain ⟨keys', hkeys'⟩ := ih (step.apply s)
    refine ⟨keys ++ keys', ?_⟩
    rw [IdMap.addKeys_append, ← hkeys, ← hkeys']
    rfl

/-! ## Calls and their keys -/

/-- An insertion into a unit is a call at the entry of one of its methods or constructors, and
    a map pairs the identifier in the call with the key of that element and with no other. -/
def Identifies (ids : IdMap) (u : CompilationUnit) (auto : Bool) (e : Edit) : Prop :=
  ∃ p ∈ entered u true, ∃ (l : EntryLogger) (id : Nat),
    e = l.call u auto (elementAt u p) id ∧ ∀ key, (id, key) ∈ ids.entries ↔ key = elementKey u p

theorem mem_entered_true {u : CompilationUnit} {constructors : Bool} {p : Java.Place}
    (h : p ∈ entered u constructors) : p ∈ entered u true := by
  rw [entered, List.mem_filter] at h ⊢
  refine ⟨h.1, ?_⟩
  unfold isEntered at h ⊢
  cases constructors <;> simp_all

/-- The calls for a unit carry the identifiers of their elements, also when more keys get
    theirs. -/
theorem identifies_editsFor {u : CompilationUnit} (hu : u.Fits) (ds : List MethodDetector)
    (auto : Bool) {ids ids' : IdMap} (hwf : ids'.WellFormed) (hk : ids.Kept ids')
    (h : ∀ e ∈ elementsIn ds u, (ids.get? e.key).isSome = true) :
    ∀ e ∈ (editsFor ds auto ids u).edits, Identifies ids' u auto e := by
  intro e he
  obtain ⟨d, hd, he⟩ := List.mem_flatMap.1 he
  obtain ⟨x, hx, he⟩ := List.mem_flatMap.1 he
  obtain ⟨l, -, rfl⟩ := List.mem_map.1 he
  obtain ⟨id, hid⟩ := Option.isSome_iff_exists.1 (h x (List.mem_flatMap.2 ⟨d, hd, hx⟩))
  have hentry := (hwf.get?_eq_some_iff x.key id).1 (hk _ _ hid)
  rw [elements_eq hu] at hx
  obtain ⟨p, hp, rfl⟩ := List.mem_map.1 hx
  refine ⟨p, mem_entered_true hp, l.logger, id, by rw [hid, Option.getD_some], fun key => ?_⟩
  exact ⟨IdMap.eq_of_mem_entries hentry, fun hkey => by rw [hkey]; exact hentry⟩

/-- What a run prints carries identifiers that any later map pairs with the right keys. -/
theorem identifies_printedBy {s : Instrumenter × World} (hwf : s.1.ids.WellFormed)
    (keys : List String) :
    ∀ x ∈ printedBy s, ∀ e ∈ x.2.edits,
      Identifies ((run s).2.1.ids.addKeys keys) x.1 x.2.autoImports e := by
  intro x hx e he
  obtain ⟨l, hl, hx⟩ := List.mem_flatMap.1 hx
  have hids := ids_prepareRun s
  rcases hp : prepareRun s with ⟨err | root, s₁⟩
  · unfold launches at hl
    rw [hp] at hl
    simp at hl
  rw [hp] at hids
  have hsource := (prepareRun_of_ok hp).source
  obtain ⟨hstart, hfinish⟩ := launches_between hp l hl
  obtain ⟨hstartSource, keys₀, hkeys₀⟩ := hstart.ids hsource
  obtain ⟨us, hus, hfinishSource, hkeys₁, hprinted⟩ := l.exists_units hstartSource
  obtain ⟨-, keys₂, hkeys₂⟩ := hfinish.ids hfinishSource
  obtain ⟨u, hu, rfl⟩ := hprinted x hx
  -- the map of a launch has a key for each element, and the later maps keep it
  refine identifies_editsFor (hus u hu) l.start.1.config.detectors
    l.start.1.options.autoImports ?_ ?_ ?_ e he
  · rw [hkeys₂, hkeys₁, hkeys₀, hids]
    repeat apply IdMap.wellFormed_addKeys
    exact hwf
  · rw [hkeys₂]
    exact (IdMap.kept_addKeys _ _).trans (IdMap.kept_addKeys _ _)
  · intro y hy
    rw [hkeys₁]
    exact IdMap.isSome_get?_addKeys _
      (List.mem_flatMap.2 ⟨u, hu, List.mem_map_of_mem hy⟩)

end Tracepoint.Instrument
