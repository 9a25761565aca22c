import Tracepoint.Proofs.Disk.Repeat
import Tracepoint.Proofs.Model.Build
import Tracepoint.Proofs.Writing

/-!
# Printing once more

A file that was printed has its text. As long as it has, printing it once more leaves it alone.
A file that could not be printed cannot be printed once more either, not even on a disk that has
grown since, if links are live.

Results:

* `read_of_writeChanged`: a file that was printed has its text.
* `writeChanged_of_read`: a file that has its text is left alone.
* `writeChanged_again`: a file that could not be written cannot be written later.
* `print_of_held`, `print_again`: the same for all units of a model.
-/

namespace Tracepoint

open Effect

/-! ## Actions on the disk -/

namespace Action

theorem changeDisk_apply (f : Disk → Location → Except Fault Disk) (w : World) :
    changeDisk f w = match f w.disk w.cwd with
      | .ok d => (.ok (), { w with disk := d })
      | .error fault => (.error (.io fault), w) := by
  unfold changeDisk
  rw [bind_of_ok (rfl : (get : Action World) w = (.ok w, w))]
  cases f w.disk w.cwd <;> rfl

theorem changeDisk_eq_ok {f : Disk → Location → Except Fault Disk} {w w' : World} :
    changeDisk f w = (.ok (), w') ↔ ∃ d, f w.disk w.cwd = .ok d ∧ { w with disk := d } = w' := by
  rw [changeDisk_apply]
  constructor
  · intro h
    cases hd : f w.disk w.cwd with
    | error fault => rw [hd] at h; cases h
    | ok d => rw [hd] at h; cases h; exact ⟨d, rfl, rfl⟩
  · rintro ⟨d, hd, rfl⟩
    rw [hd]

theorem changeDisk_eq_error {f : Disk → Location → Except Fault Disk} {w w' : World}
    {error : Error} :
    changeDisk f w = (.error error, w') ↔
      ∃ fault, f w.disk w.cwd = .error fault ∧ .io fault = error ∧ w = w' := by
  rw [changeDisk_apply]
  constructor
  · intro h
    cases hd : f w.disk w.cwd with
    | error fault => rw [hd] at h; cases h; exact ⟨fault, rfl, rfl, rfl⟩
    | ok d => rw [hd] at h; cases h
  · rintro ⟨fault, hd, rfl, rfl⟩
    rw [hd]

theorem bind_changeDisk_eq_ok {α : Type} {f : Disk → Location → Except Fault Disk}
    {g : Unit → Action α} {w w' : World} {a : α} :
    (changeDisk f >>= g) w = (.ok a, w') ↔
      ∃ d, f w.disk w.cwd = .ok d ∧ g () { w with disk := d } = (.ok a, w') := by
  rw [bind_eq_ok]
  constructor
  · rintro ⟨_, w₁, hchange, h⟩
    obtain ⟨d, hd, rfl⟩ := changeDisk_eq_ok.1 hchange
    exact ⟨d, hd, h⟩
  · rintro ⟨d, hd, h⟩
    exact ⟨(), _, changeDisk_eq_ok.2 ⟨d, hd, rfl⟩, h⟩

theorem makeParent_eq (p : Path) :
    makeParent p = changeDisk fun d cwd => d.makeHome cwd p := by
  unfold makeParent Disk.makeHome
  cases p.parent? with
  | some above => rfl
  | none => exact funext fun w => (changeDisk_apply (fun d _ => .ok d) w).symm

/-- Writes a file and creates the directories above it. -/
def put (p : Path) (content : ByteArray) : Action Unit := do
  makeParent p
  write p content

section Put

variable {p : Path} {content : ByteArray} {w w' : World}

theorem keeps_put {Q : Path → ByteArray → Prop} (h : Q p content) :
    Keeps (World.Writes Q) (put p content) :=
  .bind (.makeParent p) fun _ => .write h

theorem put_eq_ok :
    put p content w = (.ok (), w') ↔ ∃ d₁ d₂, w.disk.makeHome w.cwd p = .ok d₁ ∧
      d₁.write w.cwd p content = .ok d₂ ∧ { w with disk := d₂ } = w' := by
  rw [put, makeParent_eq, bind_changeDisk_eq_ok]
  simp only [write, changeDisk_eq_ok, exists_and_left]

theorem read_of_put (hsound : w.disk.Sound w.cwd) (h : put p content w = (.ok (), w')) :
    w'.disk.read w.cwd p = .ok content := by
  obtain ⟨d₁, d₂, hhome, hwrite, rfl⟩ := put_eq_ok.1 h
  have hmade := Disk.wrote_makeHome (Q := fun _ _ => False) hsound hhome
  obtain ⟨l, hl, hcontent⟩ := Disk.content_of_write hmade.sound hwrite
  exact Disk.read_eq_ok.2 ⟨l, hl, hcontent⟩

/-- A file is not written if there can be no directory for it, or no file in it. -/
theorem put_eq_error {error : Error} :
    put p content w = (.error error, w') ↔ ∃ fault, .io fault = error ∧
      (w.disk.makeHome w.cwd p = .error fault ∧ w = w' ∨
        ∃ d, w.disk.makeHome w.cwd p = .ok d ∧ d.write w.cwd p content = .error fault ∧
          { w with disk := d } = w') := by
  rw [put, makeParent_eq, write]
  cases hhome : w.disk.makeHome w.cwd p with
  | error fault =>
    rw [bind_of_error (changeDisk_eq_error.2 ⟨fault, hhome, rfl, rfl⟩), Prod.mk.injEq]
    simp
  | ok d =>
    rw [bind_of_ok (changeDisk_eq_ok.2 ⟨d, hhome, rfl⟩), changeDisk_eq_error]
    simp [and_left_comm]

end Put

end Action

namespace Model

open Source

/-! ## One file -/

/-- Writes a file that is missing or has another content. -/
def overwrite (target : Path) (content : ByteArray) : Action Bool := do
  Action.makeParent target
  Action.write target content
  return true

theorem overwrite_eq (target : Path) (content : ByteArray) :
    overwrite target content = (Action.put target content >>= fun _ => pure true) := by
  rw [overwrite, Action.put, bind_assoc]

section Overwrite

variable {target : Path} {content : ByteArray} {w w' : World}

theorem overwrite_eq_ok {b : Bool} :
    overwrite target content w = (.ok b, w') ↔
      b = true ∧ Action.put target content w = (.ok (), w') := by
  rw [overwrite_eq, bind_eq_ok]
  constructor
  · rintro ⟨_, w₁, hput, h⟩
    cases h
    exact ⟨rfl, hput⟩
  · rintro ⟨rfl, hput⟩
    exact ⟨(), w', hput, rfl⟩

theorem overwrite_eq_error {error : Error} :
    overwrite target content w = (.error error, w') ↔
      Action.put target content w = (.error error, w') := by
  rw [overwrite_eq]
  rcases hput : Action.put target content w with ⟨e | _, w₁⟩
  · rw [bind_of_error hput, Prod.mk.injEq, Prod.mk.injEq, Except.error.injEq, Except.error.injEq]
  · rw [bind_of_ok hput]
    exact iff_of_false (fun h => by cases h) fun h => by cases h

end Overwrite

/-- A file that has its text is left alone. -/
theorem writeChanged_of_read {target : Path} {content : ByteArray} {w : World}
    (h : w.disk.read w.cwd target = .ok content) :
    ∃ lines, writeChanged target content w = (.ok false, w.logged lines) := by
  have hread : Action.attempt (Action.read target) w = (.ok (.ok content), w) := by
    show ((.ok (Action.read target w).1 : Except Error _), (Action.read target w).2) = _
    rw [Action.read_apply, h]
    rfl
  refine ⟨[⟨.debug, s!"Unchanged output {target.text}"⟩], ?_⟩
  rw [writeChanged, bind_of_ok hread]
  simp only [if_true]
  rfl

theorem writeChanged_of_not_read {target : Path} {content : ByteArray} {w : World}
    (h : w.disk.read w.cwd target ≠ .ok content) :
    writeChanged target content w = overwrite target content w := by
  have hread : Action.attempt (Action.read target) w =
      (.ok ((w.disk.read w.cwd target).mapError Error.io), w) := by
    show ((.ok (Action.read target w).1 : Except Error _), (Action.read target w).2) = _
    rw [Action.read_apply]
  rw [writeChanged, bind_of_ok hread]
  cases hfile : w.disk.read w.cwd target with
  | error fault => rfl
  | ok existing =>
    have hdiffers : existing.data ≠ content.data := by
      intro hdata
      exact h (by rw [hfile, ByteArray.ext hdata])
    show (if existing.data = content.data then _ else overwrite target content) w = _
    rw [if_neg hdiffers]

/-- A file that was printed has its text. -/
theorem read_of_writeChanged {target : Path} {content : ByteArray} {w w' : World} {b : Bool}
    (hsound : w.disk.Sound w.cwd) (h : writeChanged target content w = (.ok b, w')) :
    w'.disk.read w.cwd target = .ok content := by
  by_cases hread : w.disk.read w.cwd target = .ok content
  · obtain ⟨lines, hsame⟩ := writeChanged_of_read hread
    rw [hsame] at h
    cases h
    exact hread
  · rw [writeChanged_of_not_read hread, overwrite_eq_ok] at h
    exact Action.read_of_put hsound h.2

section Again

variable {target : Path} {content : ByteArray} {w w' v : World} {error : Error}

/-- Where a file could not be written, a path leads to one later only if it ends in a slash. -/
theorem endsWith_of_put_error (hsound : w.disk.Sound w.cwd) (hlive : w.disk.LiveOn w.cwd target)
    (h : Action.put target content w = (.error error, w')) (hcwd : v.cwd = w.cwd)
    (hsound' : v.disk.Sound v.cwd) (hgrown : w.disk.Grown v.disk) {l : Location}
    (hl : v.disk.resolve v.cwd target true = .ok l) (hdirectory : v.disk.lookup l ≠ some .directory) :
    Text.endsWith ['/'] target.text.toList = true := by
  by_contra hslash
  rw [hcwd] at hl
  obtain ⟨d', d'', hmake, hwrite⟩ := Disk.exists_write hsound hlive hgrown (hcwd ▸ hsound') hl
    hdirectory (by simpa using hslash) content
  rw [Action.put_eq_ok.2 ⟨d', d'', hmake, hwrite, rfl⟩] at h
  cases h

theorem read_ne_of_put_error (hsound : w.disk.Sound w.cwd) (hlive : w.disk.LiveOn w.cwd target)
    (h : Action.put target content w = (.error error, w')) (hcwd : v.cwd = w.cwd)
    (hsound' : v.disk.Sound v.cwd) (hgrown : w.disk.Grown v.disk) :
    v.disk.read v.cwd target ≠ .ok content := by
  intro hread
  obtain ⟨l, hl, hcontent⟩ := Disk.read_eq_ok.1 hread
  rw [Disk.contentAt_eq_some] at hcontent
  have hslash := endsWith_of_put_error hsound hlive h hcwd hsound' hgrown hl (by simp [hcontent])
  -- a path that ends in a slash leads to a directory
  obtain ⟨-, -, hleads⟩ := Disk.resolve_eq_ok.1 hl
  rw [Path.steps_eq, hslash, if_pos rfl, Disk.leads_dot_iff, hcontent] at hleads
  cases hleads.2

theorem put_again (hsound : w.disk.Sound w.cwd) (hlive : w.disk.LiveOn w.cwd target)
    (h : Action.put target content w = (.error error, w')) (hcwd : v.cwd = w.cwd)
    (hsound' : v.disk.Sound v.cwd) (hgrown : w.disk.Grown v.disk) (hg : w'.disk.Grown v.disk) :
    ∃ error', Action.put target content v = (.error error', v) := by
  have hmade : ∀ d', w.disk.makeHome w.cwd target = .ok d' → d'.Grown v.disk := by
    intro d' hd'
    obtain ⟨fault, -, ⟨hhome, -⟩ | ⟨d, hhome, -, rfl⟩⟩ := Action.put_eq_error.1 h
    · rw [hd'] at hhome
      cases hhome
    · obtain rfl : d' = d := Except.ok.inj (hd'.symm.trans hhome)
      exact hg
  have hsame : ∀ d', v.disk.makeHome v.cwd target = .ok d' → d' = v.disk := fun d' hhome =>
    Disk.makeHome_again hsound hlive (hcwd ▸ hsound') hgrown hmade (hcwd ▸ hhome)
  rcases hput : Action.put target content v with ⟨error' | _, v'⟩
  · refine ⟨error', ?_⟩
    obtain ⟨fault, -, ⟨-, rfl⟩ | ⟨d, hhome, -, rfl⟩⟩ := Action.put_eq_error.1 hput
    · rfl
    · rw [hsame d hhome]
  · obtain ⟨d₁, d₂, hhome, hwrite, -⟩ := Action.put_eq_ok.1 hput
    rw [hsame d₁ hhome] at hwrite
    obtain ⟨hslash, l, hl, hdirectory, -⟩ := Disk.write_eq_ok.1 hwrite
    rw [endsWith_of_put_error hsound hlive h hcwd hsound' hgrown hl hdirectory] at hslash
    cases hslash

/-- A file that could not be written cannot be written later, and nothing comes of trying it
    once more. -/
theorem writeChanged_again (hsound : w.disk.Sound w.cwd) (hlive : w.disk.LiveOn w.cwd target)
    (h : writeChanged target content w = (.error error, w')) (hcwd : v.cwd = w.cwd)
    (hsound' : v.disk.Sound v.cwd) (hg : w'.disk.Grown v.disk) :
    ∃ error', writeChanged target content v = (.error error', v) := by
  have hread : w.disk.read w.cwd target ≠ .ok content := by
    intro hread
    obtain ⟨lines, hsame⟩ := writeChanged_of_read hread
    rw [hsame] at h
    cases h
  rw [writeChanged_of_not_read hread, overwrite_eq_error] at h
  have hwrote := ((Action.keeps_put (Q := fun _ _ => True) trivial).of_eq h hsound).2
  have hgrown := hwrote.grown.trans hg
  obtain ⟨error', hput⟩ := put_again hsound hlive h hcwd hsound' hgrown hg
  rw [writeChanged_of_not_read (read_ne_of_put_error hsound hlive h hcwd hsound' hgrown)]
  exact ⟨error', overwrite_eq_error.2 hput⟩

end Again

/-! ## Models -/

/-- A unit with edits is printed, and its file has the text. -/
def Held (output : Path) (d : Disk) (cwd : Location) (x : CompilationUnit × UnitEdits) : Prop :=
  ∃ text, x.1.render x.2 = some text ∧
    d.read cwd (outputPath output x.1) = .ok (String.ofList text).toUTF8

theorem printUnit_of_held {output : Path} {w : World} {x : CompilationUnit × UnitEdits}
    (h : Held output w.disk w.cwd x) :
    ∃ lines, printUnit output x.1 x.2 w = (.ok false, w.logged lines) := by
  obtain ⟨text, htext, hread⟩ := h
  unfold printUnit
  rw [htext]
  exact writeChanged_of_read hread

theorem mapM_printUnit_of_held {output : Path} (xs : List (CompilationUnit × UnitEdits)) :
    ∀ w : World, (∀ x ∈ xs, Held output w.disk w.cwd x) →
      ∃ lines, (xs.mapM fun (u, edits) => printUnit output u edits) w =
        (.ok (xs.map fun _ => false), w.logged lines) := by
  induction xs with
  | nil => exact fun w _ => ⟨[], by rw [World.logged_nil]; rfl⟩
  | cons x xs ih =>
    intro w h
    obtain ⟨hx, hxs⟩ := List.forall_mem_cons.1 h
    obtain ⟨lines, hfirst⟩ := printUnit_of_held hx
    obtain ⟨lines', hrest⟩ := ih (w.logged lines) hxs
    refine ⟨lines ++ lines', ?_⟩
    rw [List.mapM_cons, bind_of_ok hfirst, bind_of_ok hrest, pure_apply, World.logged_logged]
    rfl

/-- Units whose files have their texts are left alone. -/
theorem print_of_held {output : Path} {xs : List (CompilationUnit × UnitEdits)} {w : World}
    (h : ∀ x ∈ xs, Held output w.disk w.cwd x) :
    ∃ lines, print output ⟨xs⟩ w = (.ok 0, w.logged lines) := by
  obtain ⟨lines, hmap⟩ := mapM_printUnit_of_held xs w h
  refine ⟨lines, ?_⟩
  rw [print, bind_of_ok hmap, pure_apply]
  have hcount : (xs.map fun _ => false).countP id = 0 := by
    rw [List.countP_eq_zero]
    simp
  rw [hcount]

/-- Units that were printed have their texts, at some time. -/
theorem held_of_print {output : Path} {xs : List (CompilationUnit × UnitEdits)}
    {Q : Path → ByteArray → Prop} (hQ : ∀ x ∈ xs, ∀ text, x.1.render x.2 = some text →
      Q (outputPath output x.1) (String.ofList text).toUTF8)
    {w w' : World} {n : Nat} (hsound : w.disk.Sound w.cwd)
    (h : print output ⟨xs⟩ w = (.ok n, w')) :
    ∀ x ∈ xs, ∃ w₁, World.Writes Q w₁ w' ∧ w₁.cwd = w.cwd ∧ w₁.disk.Sound w₁.cwd ∧
      Held output w₁.disk w.cwd x := by
  obtain ⟨bs, w₁, hmap, hlast⟩ := bind_eq_ok.1 h
  clear h
  cases hlast
  induction xs generalizing w bs with
  | nil => simp
  | cons x xs ih =>
    obtain ⟨hQx, hQxs⟩ := List.forall_mem_cons.1 hQ
    rw [List.mapM_cons] at hmap
    obtain ⟨b, w₂, hfirst, hmap⟩ := bind_eq_ok.1 hmap
    obtain ⟨bs', w₃, hrest, hmap⟩ := bind_eq_ok.1 hmap
    cases hmap
    have hwrites : World.Writes Q w w₂ := (keeps_printUnit hQx).of_eq hfirst
    obtain ⟨hcwd, hwrote⟩ := hwrites hsound
    have hsound₂ : w₂.disk.Sound w₂.cwd := hcwd ▸ hwrote.sound
    refine List.forall_mem_cons.2 ⟨⟨w₂, ?_, hcwd, hsound₂, ?_⟩, ?_⟩
    · exact (Keeps.mapM_of_mem fun x hx => keeps_printUnit (hQxs x hx)).of_eq hrest
    · replace hfirst : printUnit output x.1 x.2 w = (.ok b, w₂) := hfirst
      unfold printUnit at hfirst
      rcases hrender : x.1.render x.2 with _ | text
      · rw [hrender] at hfirst
        cases hfirst
      · rw [hrender] at hfirst
        exact ⟨text, hrender, read_of_writeChanged hsound hfirst⟩
    · intro y hy
      obtain ⟨w₄, h₁, h₂, h₃, h₄⟩ := ih hQxs hsound₂ bs' hrest y hy
      exact ⟨w₄, h₁, h₂.trans hcwd, h₃, hcwd ▸ h₄⟩

/-- A unit that could not be printed cannot be printed later, and nothing comes of trying it
    once more. -/
theorem print_again {output : Path} {xs : List (CompilationUnit × UnitEdits)} {w w' v : World}
    {error : Error} (hone : xs.length ≤ 1) (hsound : w.disk.Sound w.cwd)
    (hlive : ∀ x ∈ xs, w.disk.LiveOn w.cwd (outputPath output x.1))
    (h : print output ⟨xs⟩ w = (.error error, w')) (hcwd : v.cwd = w.cwd)
    (hsound' : v.disk.Sound v.cwd) (hg : w'.disk.Grown v.disk) :
    ∃ error', print output ⟨xs⟩ v = (.error error', v) := by
  match xs with
  | [] => cases h
  | [x] =>
    have hprint : ∀ v, print output ⟨[x]⟩ v =
        (printUnit output x.1 x.2 >>= fun b => pure ([b].countP id)) v := by
      intro v
      rw [print, List.mapM_cons]
      simp only [List.mapM_nil, bind_assoc, pure_bind]
    rw [hprint] at h
    have hunit : printUnit output x.1 x.2 w = (.error error, w') := by
      rcases hresult : printUnit output x.1 x.2 w with ⟨e | b, w₁⟩
      · rw [bind_of_error hresult] at h
        cases h
        rfl
      · rw [bind_of_ok hresult] at h
        cases h
    have hagain : ∃ error', printUnit output x.1 x.2 v = (.error error', v) := by
      unfold printUnit at hunit ⊢
      cases hrender : x.1.render x.2 with
      | none => exact ⟨_, rfl⟩
      | some text =>
        rw [hrender] at hunit
        exact writeChanged_again hsound (hlive x (List.mem_singleton_self x)) hunit hcwd hsound' hg
    obtain ⟨error', hagain⟩ := hagain
    exact ⟨error', by rw [hprint, bind_of_error hagain]⟩
  | _ :: _ :: _ => simp at hone

end Model

end Tracepoint
