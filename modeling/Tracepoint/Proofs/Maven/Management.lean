import Mathlib.Data.List.Perm.Basic
import Mathlib.Tactic.Common
import Tracepoint.Maven.Descriptor

/-!
# The order of managed dependencies

Managed dependencies are told apart by their written coordinates, and nothing orders them. Once
references are replaced, several of them can have the same coordinates, and then the one counts that
is visited last. So the order of a visit can decide which version and which scope a dependency gets.
It does so exactly if two of them differ in what they fill in.

Results:

* `exists_last`: each managed dependency is visited last in some order.
* `settleDependency_eq_iff`: when two managed dependencies settle a dependency in the same way.
* `project_perm_iff`: when a project is the same for all orders of its managed dependencies.
* `project_differs_by_order`: a descriptor whose project depends on the order.
-/

namespace Tracepoint.Maven

variable {expand : String → String} {managed : List WrittenDependency} {d m m' : WrittenDependency}

/-! ## What is found -/

/-- A managed dependency has the coordinates of another dependency, after `expand`. -/
def Manages (expand : String → String) (m d : WrittenDependency) : Prop :=
  expand m.groupId = expand d.groupId ∧ expand m.artifactId = expand d.artifactId

theorem managedFor?_eq_none_iff :
    managedFor? expand managed (expand d.groupId) (expand d.artifactId) = none ↔
      ∀ m ∈ managed, ¬ Manages expand m d := by
  simp [managedFor?, Manages]

theorem manages_of_managedFor?
    (h : managedFor? expand managed (expand d.groupId) (expand d.artifactId) = some m) :
    m ∈ managed ∧ Manages expand m d := by
  unfold managedFor? at h
  refine ⟨List.mem_reverse.1 (List.mem_of_find?_eq_some h), ?_⟩
  simpa [Manages] using List.find?_some h

/-- What is visited last counts. -/
theorem managedFor?_concat (managed : List WrittenDependency) (h : Manages expand m d) :
    managedFor? expand (managed ++ [m]) (expand d.groupId) (expand d.artifactId) = some m := by
  rw [managedFor?, List.reverse_append, List.reverse_singleton, List.singleton_append,
    List.find?_cons_of_pos]
  simpa [Manages] using h

/-- Each managed dependency is visited last in some order. -/
theorem exists_last (h : m ∈ managed) :
    ∃ others : List WrittenDependency, (others ++ [m]).Perm managed :=
  ⟨managed.erase m, List.perm_append_singleton m _ |>.trans (List.perm_cons_erase h).symm⟩

/-! ## What is filled in -/

/-- The scope that a written one means. -/
def scopeOf (expand : String → String) (scope : Option String) : Scope :=
  ((scope.map expand).bind Scope.parse?).getD .compile

/-- Two managed dependencies fill in the same version and the same scope, where a dependency leaves
    them open. -/
structure FillAlike (expand : String → String) (d m m' : WrittenDependency) : Prop where
  version : d.version = none → m.version.map expand = m'.version.map expand
  scope : d.scope = none → scopeOf expand m.scope = scopeOf expand m'.scope

theorem settleDependency_eq_iff {managed' : List WrittenDependency}
    (h : managedFor? expand managed (expand d.groupId) (expand d.artifactId) = some m)
    (h' : managedFor? expand managed' (expand d.groupId) (expand d.artifactId) = some m') :
    settleDependency expand managed d = settleDependency expand managed' d ↔
      FillAlike expand d m m' := by
  unfold settleDependency
  dsimp only
  rw [h, h']
  constructor
  · intro heq
    simp only [Dependency.mk.injEq, true_and] at heq
    obtain ⟨hversion, hscope, -⟩ := heq
    refine ⟨fun hd => ?_, fun hd => ?_⟩
    · simpa [hd] using hversion
    · simpa [hd, scopeOf] using hscope
  · rintro ⟨hversion, hscope⟩
    congr 1
    · cases hd : d.version with
      | none => simpa using hversion hd
      | some version => rfl
    · cases hd : d.scope with
      | none => simpa [scopeOf] using hscope hd
      | some scope => rfl

/-! ## The order of a visit -/

/-- All managed dependencies with the coordinates of a dependency fill in the same. -/
def Agree (expand : String → String) (managed : List WrittenDependency)
    (d : WrittenDependency) : Prop :=
  ∀ m ∈ managed, ∀ m' ∈ managed, Manages expand m d → Manages expand m' d →
    FillAlike expand d m m'

theorem settleDependency_perm (hagree : Agree expand managed d) {managed' : List WrittenDependency}
    (hperm : managed'.Perm managed) :
    settleDependency expand managed' d = settleDependency expand managed d := by
  cases h : managedFor? expand managed (expand d.groupId) (expand d.artifactId) with
  | none =>
    have h' : managedFor? expand managed' (expand d.groupId) (expand d.artifactId) = none := by
      rw [managedFor?_eq_none_iff] at h ⊢
      exact fun m hm => h m (hperm.mem_iff.1 hm)
    unfold settleDependency
    dsimp only
    rw [h, h']
  | some m =>
    obtain ⟨hm, hmanages⟩ := manages_of_managedFor? h
    cases h' : managedFor? expand managed' (expand d.groupId) (expand d.artifactId) with
    | none => exact absurd hmanages (managedFor?_eq_none_iff.1 h' m (hperm.mem_iff.2 hm))
    | some m' =>
      obtain ⟨hm', hmanages'⟩ := manages_of_managedFor? h'
      rw [settleDependency_eq_iff h' h]
      exact hagree m' (hperm.mem_iff.1 hm') m hm hmanages' hmanages

theorem settleDependency_perm_iff :
    (∀ managed', managed'.Perm managed →
        settleDependency expand managed' d = settleDependency expand managed d) ↔
      Agree expand managed d := by
  refine ⟨fun h m hm m' hm' hmanages hmanages' => ?_, fun h managed' hperm =>
    settleDependency_perm h hperm⟩
  obtain ⟨others, hothers⟩ := exists_last hm
  obtain ⟨others', hothers'⟩ := exists_last hm'
  rw [← settleDependency_eq_iff (managedFor?_concat others hmanages)
    (managedFor?_concat others' hmanages')]
  exact (h _ hothers).trans (h _ hothers').symm

/-- The project of a descriptor is the same for any two orders of its managed dependencies exactly
    if, for each dependency, all of those with its coordinates fill in the same version and the same
    scope where it leaves them open. -/
theorem project_perm_iff (d : Descriptor) (environment : Properties) (path : Path) :
    (∀ order order' : List WrittenDependency, order.Perm d.managed → order'.Perm d.managed →
        ({ d with managed := order } : Descriptor).project environment path =
          ({ d with managed := order' } : Descriptor).project environment path) ↔
      ∀ w ∈ d.dependencies, Agree (interpolate d.properties environment) d.managed w := by
  constructor
  · intro h w hw
    rw [← settleDependency_perm_iff]
    intro order hperm
    have hdependencies := congrArg Project.dependencies (h order d.managed hperm (.refl _))
    exact List.map_inj_left.1 hdependencies w hw
  · intro h order order' hperm hperm'
    simp only [Descriptor.project, Project.mk.injEq, true_and]
    refine List.map_congr_left fun w hw => ?_
    rw [settleDependency_perm (h w hw) hperm, settleDependency_perm (h w hw) hperm']

/-- Two managed dependencies that are written differently and have the same coordinates: the order
    decides which version is filled in. -/
theorem project_differs_by_order :
    let d : Descriptor :=
      { properties := [("g", "a")]
        managed := [⟨"a", "x", some "2", none, false, none⟩,
          ⟨"$\x7bg\x7d", "x", some "1", none, false, none⟩]
        dependencies := [⟨"a", "x", none, none, false, none⟩] }
    ¬ ∀ order order' : List WrittenDependency, order.Perm d.managed → order'.Perm d.managed →
        ({ d with managed := order } : Descriptor).project [] ⟨"pom.xml"⟩ =
          ({ d with managed := order' } : Descriptor).project [] ⟨"pom.xml"⟩ := by
  intro d h
  have hversions := congrArg (·.dependencies.map (·.version))
    (h d.managed.reverse d.managed d.managed.reverse_perm (.refl _))
  revert hversions
  decide +kernel

end Tracepoint.Maven
