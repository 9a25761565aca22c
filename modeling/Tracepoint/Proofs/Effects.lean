import Mathlib.Data.List.Forall2
import Mathlib.Tactic.Common
import Tracepoint.Instrument.Instrumenter

/-!
# Steps over a state

Actions on the world and jobs of an instrumenter are steps of one kind: they turn a
state into a state, and give a value or fail. A step that is followed by another is
taken apart by what the first one gives.

Results:

* `bind_of_ok`, `bind_of_error`, `bind_eq_ok`: one step after the other.
* `Keeps.bind`, `Keeps.mapM`: what every part of a step keeps, the whole keeps.
* `Job.bind_act_eq_ok`: a job that starts with an action.
-/

namespace Tracepoint

/-! ## Results -/

theorem Except.isOk_iff {α : Type} {x : Except Error α} : x.isOk = true ↔ ∃ a, x = .ok a := by
  cases x <;> simp [Except.isOk, Except.toBool]

theorem Except.bind_eq_ok {α β : Type} {x : Except Error α} {f : α → Except Error β} {b : β} :
    (x >>= f) = .ok b ↔ ∃ a, x = .ok a ∧ f a = .ok b := by
  constructor
  · intro h
    cases x with
    | error e => cases h
    | ok a => exact ⟨a, rfl, h⟩
  · rintro ⟨a, rfl, h⟩
    exact h

theorem Except.map_eq_ok {α β : Type} {x : Except Error α} {f : α → β} {b : β} :
    x.map f = .ok b ↔ ∃ a, x = .ok a ∧ f a = b := by
  cases x <;> simp [Except.map]

/-- Results of a list that are all values are the values one by one. -/
theorem Except.mapM_eq_ok {α β : Type} {f : α → Except Error β} {xs : List α} {ys : List β} :
    xs.mapM f = .ok ys ↔ List.Forall₂ (fun x y => f x = .ok y) xs ys := by
  induction xs generalizing ys with
  | nil =>
    rw [List.mapM_nil, List.forall₂_nil_left_iff]
    constructor
    · intro h; cases h; rfl
    · rintro rfl; rfl
  | cons x xs ih =>
    rw [List.mapM_cons, Except.bind_eq_ok, List.forall₂_cons_left_iff]
    constructor
    · rintro ⟨y, hy, h⟩
      obtain ⟨zs, hzs, h⟩ := Except.bind_eq_ok.1 h
      cases h
      exact ⟨y, zs, hy, ih.1 hzs, rfl⟩
    · rintro ⟨y, zs, hy, hzs, rfl⟩
      exact ⟨y, hy, Except.bind_eq_ok.2 ⟨zs, ih.2 hzs, rfl⟩⟩

theorem Except.exists_of_mem_mapM {α β : Type} {f : α → Except Error β} {xs : List α}
    {ys : List β} (h : xs.mapM f = .ok ys) {y : β} (hy : y ∈ ys) : ∃ x ∈ xs, f x = .ok y := by
  have hall := Except.mapM_eq_ok.1 h
  induction hall with
  | nil => simp at hy
  | @cons x z xs ys hxz hrest ih =>
    rcases List.mem_cons.1 hy with rfl | hy
    · exact ⟨x, List.mem_cons_self, hxz⟩
    · obtain ⟨x', hx', hf⟩ := ih (Except.mapM_eq_ok.2 hrest) hy
      exact ⟨x', List.mem_cons_of_mem _ hx', hf⟩

/-! ## Steps -/

/-- A step that turns states into states and may fail. -/
abbrev Effect (σ α : Type) := ExceptT Error (StateM σ) α

namespace Effect

variable {σ α β : Type}

/-! ## One step after the other -/

theorem pure_apply (a : α) (s : σ) : (pure a : Effect σ α) s = (.ok a, s) := rfl

theorem bind_of_ok {x : Effect σ α} {s s' : σ} {a : α} (h : x s = (.ok a, s'))
    (f : α → Effect σ β) : (x >>= f) s = f a s' := by
  show ExceptT.bindCont f (x s).1 (x s).2 = f a s'
  rw [h]
  rfl

theorem bind_of_error {x : Effect σ α} {s s' : σ} {e : Error} (h : x s = (.error e, s'))
    (f : α → Effect σ β) : (x >>= f) s = (.error e, s') := by
  show ExceptT.bindCont f (x s).1 (x s).2 = (.error e, s')
  rw [h]
  rfl

/-- Steps that do the same in a state can stand for each other there. -/
theorem bind_eq_of_eq {x y : Effect σ α} {s : σ} (h : x s = y s) (f : α → Effect σ β) :
    (x >>= f) s = (y >>= f) s := by
  rcases hy : y s with ⟨e | a, s'⟩
  · rw [bind_of_error hy, bind_of_error (h.trans hy)]
  · rw [bind_of_ok hy, bind_of_ok (h.trans hy)]

theorem bind_eq_ok {x : Effect σ α} {f : α → Effect σ β} {s s' : σ} {b : β} :
    (x >>= f) s = (.ok b, s') ↔ ∃ a s₁, x s = (.ok a, s₁) ∧ f a s₁ = (.ok b, s') := by
  constructor
  · intro h
    rcases hx : x s with ⟨e | a, s₁⟩
    · rw [bind_of_error hx] at h
      cases h
    · rw [bind_of_ok hx] at h
      exact ⟨a, s₁, rfl, h⟩
  · rintro ⟨a, s₁, hx, hf⟩
    rw [bind_of_ok hx, hf]

theorem bind_pure_apply (x : Effect σ α) (g : α → β) (s : σ) :
    (x >>= fun a => pure (g a)) s = ((x s).1.map g, (x s).2) := by
  rcases hx : x s with ⟨e | a, s₁⟩
  · rw [bind_of_error hx]
    rfl
  · rw [bind_of_ok hx, pure_apply]
    rfl

theorem bind_pure_snd (x : Effect σ α) (g : α → β) (s : σ) :
    ((x >>= fun a => pure (g a)) s).2 = (x s).2 := by
  rw [bind_pure_apply]

/-- Steps that leave a state as it is can be done without it. -/
theorem bind_of_pure {x : Effect σ α} {r : Except Error α} {f : α → Effect σ β}
    {g : α → Except Error β} {s : σ} (hx : x s = (r, s)) (hf : ∀ a, f a s = (g a, s)) :
    (x >>= f) s = (r >>= g, s) := by
  cases r with
  | error e => exact bind_of_error hx f
  | ok a => rw [bind_of_ok hx, hf a]; rfl

theorem mapM_of_pure {f : α → Effect σ β} {g : α → Except Error β} {s : σ}
    (h : ∀ x, f x s = (g x, s)) (xs : List α) : (xs.mapM f) s = (xs.mapM g, s) := by
  induction xs with
  | nil => rfl
  | cons x xs ih =>
    rw [List.mapM_cons, List.mapM_cons]
    exact bind_of_pure (h x) fun y => bind_of_pure ih fun ys => rfl

/-! ## What steps keep -/

/-- Wherever a step starts, a relation holds between the states before and after it. -/
def Keeps (R : σ → σ → Prop) (x : Effect σ α) : Prop := ∀ s, R s (x s).2

namespace Keeps

variable {R : σ → σ → Prop} [Std.Refl R] [IsTrans σ R]

omit [Std.Refl R] [IsTrans σ R] in
/-- What a step keeps holds between the state where it starts and the one that it leads to. -/
theorem of_eq {x : Effect σ α} (hx : Keeps R x) {s s' : σ} {r : Except Error α}
    (h : x s = (r, s')) : R s s' := by
  have hs := hx s
  rwa [h] at hs

omit [IsTrans σ R] in
theorem pure (a : α) : Keeps R (Pure.pure a : Effect σ α) := fun s => Std.Refl.refl s

omit [IsTrans σ R] in
theorem throw (e : Error) : Keeps R (MonadExcept.throw e : Effect σ α) :=
  fun s => Std.Refl.refl s

omit [Std.Refl R] in
theorem bind {x : Effect σ α} {f : α → Effect σ β} (hx : Keeps R x) (hf : ∀ a, Keeps R (f a)) :
    Keeps R (x >>= f) := by
  intro s
  rcases h : x s with ⟨e | a, s₁⟩
  · rw [bind_of_error h]
    exact hx.of_eq h
  · rw [bind_of_ok h]
    exact IsTrans.trans _ _ _ (hx.of_eq h) (hf a s₁)

theorem mapM {f : α → Effect σ β} (hf : ∀ a, Keeps R (f a)) (xs : List α) :
    Keeps R (xs.mapM f) := by
  induction xs with
  | nil => exact pure []
  | cons x xs ih =>
    rw [List.mapM_cons]
    exact bind (hf x) fun y => bind ih fun ys => pure (y :: ys)

end Keeps

end Effect

/-! ## Jobs -/

namespace Instrument.Job

open Effect

variable {α β : Type}

theorem act_apply (a : Action α) (s : Instrumenter × World) :
    act a s = ((a s.2).1, (s.1, (a s.2).2)) := rfl

theorem act_eq {a : Action α} {s s' : Instrumenter × World} {r : Except Error α} :
    act a s = (r, s') ↔ s'.1 = s.1 ∧ a s.2 = (r, s'.2) := by
  rw [act_apply, Prod.mk.injEq, Prod.ext_iff, Prod.ext_iff]
  constructor
  · rintro ⟨hr, hi, hw⟩
    exact ⟨hi.symm, hr, hw⟩
  · rintro ⟨hi, hr, hw⟩
    exact ⟨hr, hi.symm, hw⟩

theorem bind_act_eq_ok {a : Action α} {f : α → Job β} {s s' : Instrumenter × World} {b : β} :
    (act a >>= f) s = (.ok b, s') ↔ ∃ x w, a s.2 = (.ok x, w) ∧ f x (s.1, w) = (.ok b, s') := by
  rw [bind_eq_ok]
  constructor
  · rintro ⟨x, t, hact, h⟩
    obtain ⟨hi, hx⟩ := act_eq.1 hact
    exact ⟨x, t.2, hx, by rwa [← hi]⟩
  · rintro ⟨x, w, hx, h⟩
    exact ⟨x, (s.1, w), act_eq.2 ⟨rfl, hx⟩, h⟩

theorem instrumenter_apply (s : Instrumenter × World) : instrumenter s = (.ok s.1, s) := rfl

theorem change_apply (f : Instrumenter → Instrumenter) (s : Instrumenter × World) :
    change f s = (.ok (), (f s.1, s.2)) := rfl

theorem attempt_apply (j : Job α) (s : Instrumenter × World) :
    attempt j s = (.ok (j s).1, (j s).2) := rfl

/-- Wherever a job starts, a relation holds between the instrumenters before and after it. -/
def Keeps (S : Instrumenter → Instrumenter → Prop) (j : Job α) : Prop :=
  Effect.Keeps (fun s s' => S s.1 s'.1) j

namespace Keeps

variable {S : Instrumenter → Instrumenter → Prop} [Std.Refl S] [IsTrans Instrumenter S]

instance : Std.Refl fun s s' : Instrumenter × World => S s.1 s'.1 := ⟨fun s => Std.Refl.refl s.1⟩

instance : IsTrans (Instrumenter × World) fun s s' => S s.1 s'.1 :=
  ⟨fun _ _ _ h h' => IsTrans.trans _ _ _ h h'⟩

omit [Std.Refl S] [IsTrans Instrumenter S] in
theorem of_eq {j : Job α} (hj : Keeps S j) {s s' : Instrumenter × World} {r : Except Error α}
    (h : j s = (r, s')) : S s.1 s'.1 := Effect.Keeps.of_eq hj h

omit [IsTrans Instrumenter S] in
theorem pure (a : α) : Keeps S (Pure.pure a : Job α) := Effect.Keeps.pure a

omit [IsTrans Instrumenter S] in
theorem throw (e : Error) : Keeps S (MonadExcept.throw e : Job α) := Effect.Keeps.throw e

omit [IsTrans Instrumenter S] in
theorem act (a : Action α) : Keeps S (Job.act a) := fun s => Std.Refl.refl s.1

omit [IsTrans Instrumenter S] in
theorem instrumenter : Keeps S Job.instrumenter := fun s => Std.Refl.refl s.1

omit [Std.Refl S] [IsTrans Instrumenter S] in
theorem change {f : Instrumenter → Instrumenter} (h : ∀ i, S i (f i)) : Keeps S (Job.change f) :=
  fun s => h s.1

omit [Std.Refl S] in
theorem bind {j : Job α} {f : α → Job β} (hj : Keeps S j) (hf : ∀ a, Keeps S (f a)) :
    Keeps S (j >>= f) := Effect.Keeps.bind hj hf

end Keeps

end Instrument.Job

end Tracepoint
