import Tracepoint.Instrument.Output
import Tracepoint.Proofs.Disk.Growth
import Tracepoint.Proofs.Reading

/-!
# Actions that write

Everything that a run does to the disk is to create directories and to write files. What it
writes goes through paths: those of printed units, of copied files, of the id file and of the
properties of the logger. So what an action can have done to the disk is told by the paths
through which it writes.

Results:

* `World.Writes`: what an action leaves that writes through some paths, a relation that does not
  depend on what is logged.
* `Model.keeps_print`: printing writes the texts of units to their paths.
* `Instrument.keeps_createOutput`: copying a project writes to paths below the output.
-/

namespace Tracepoint

open Effect (Keeps)

/-- A world that has come of another one by writing some contents through some paths. -/
def World.Writes (Q : Path → ByteArray → Prop) (w w' : World) : Prop :=
  w.disk.Sound w.cwd → w'.cwd = w.cwd ∧ Disk.Wrote w.cwd Q w.disk w'.disk

variable {Q : Path → ByteArray → Prop}

instance : World.IgnoresLog (World.Writes Q) where
  refl := fun _ h => ⟨rfl, Disk.Wrote.refl h⟩
  trans := by
    intro w w' w'' h h' hsound
    obtain ⟨hcwd, hwrote⟩ := h hsound
    obtain ⟨hcwd', hwrote'⟩ := h' (hcwd ▸ hwrote.sound)
    exact ⟨hcwd'.trans hcwd, hwrote.trans (hcwd ▸ hwrote')⟩
  log := fun _ _ h => ⟨rfl, Disk.Wrote.refl h⟩

theorem World.SamePlace.writes {w w' : World} (h : World.SamePlace w w') :
    World.Writes Q w w' := by
  intro hsound
  refine ⟨h.cwd, ?_⟩
  rw [h.disk]
  exact Disk.Wrote.refl hsound

theorem World.Writes.mono {Q' : Path → ByteArray → Prop} {w w' : World}
    (h : World.Writes Q w w') (hQ : ∀ p content, Q p content → Q' p content) :
    World.Writes Q' w w' :=
  fun hsound => ⟨(h hsound).1, (h hsound).2.mono hQ⟩

theorem World.Writes.sound {w w' : World} (h : World.Writes Q w w')
    (hsound : w.disk.Sound w.cwd) : w'.disk.Sound w'.cwd := by
  obtain ⟨hcwd, hwrote⟩ := h hsound
  exact hcwd ▸ hwrote.sound

/-! ## Steps -/

namespace Effect.Keeps

variable {α β : Type}

/-- A step whose results have a property goes on with such results only. -/
theorem bind_of {σ : Type} {R : σ → σ → Prop} [IsTrans σ R] {P : α → Prop} {x : Effect σ α}
    {f : α → Effect σ β} (hx : Keeps R x) (hP : ∀ s a s', x s = (.ok a, s') → P a)
    (hf : ∀ a, P a → Keeps R (f a)) : Keeps R (x >>= f) := by
  intro s
  rcases h : x s with ⟨e | a, s₁⟩
  · rw [bind_of_error h]
    exact hx.of_eq h
  · rw [bind_of_ok h]
    exact IsTrans.trans _ _ _ (hx.of_eq h) (hf a (hP s a s₁ h) s₁)

theorem mapM_of_mem {σ : Type} {R : σ → σ → Prop} [Std.Refl R] [IsTrans σ R]
    {f : α → Effect σ β} {xs : List α} (hf : ∀ a ∈ xs, Keeps R (f a)) : Keeps R (xs.mapM f) := by
  induction xs with
  | nil => exact pure []
  | cons x xs ih =>
    rw [List.mapM_cons]
    exact bind (hf x List.mem_cons_self) fun y =>
      bind (ih fun a ha => hf a (List.mem_cons_of_mem _ ha)) fun ys => pure (y :: ys)

theorem forM_of_mem {σ : Type} {R : σ → σ → Prop} [Std.Refl R] [IsTrans σ R]
    {f : α → Effect σ PUnit} {xs : List α} (hf : ∀ a ∈ xs, Keeps R (f a)) :
    Keeps R (xs.forM f) := by
  induction xs with
  | nil => exact pure ()
  | cons x xs ih =>
    show Keeps R (f x >>= fun _ => xs.forM f)
    exact bind (hf x List.mem_cons_self) fun _ => ih fun a ha => hf a (List.mem_cons_of_mem _ ha)

theorem changeDisk {f : Disk → Location → Except Fault Disk}
    (hf : ∀ d cwd d', d.Sound cwd → f d cwd = .ok d' → Disk.Wrote cwd Q d d') :
    Keeps (World.Writes Q) (Action.changeDisk f) := by
  intro w hsound
  unfold Action.changeDisk
  rw [bind_of_ok (rfl : (MonadState.get : Action World) w = (.ok w, w))]
  rcases hd : f w.disk w.cwd with e | d
  · rw [bind_of_error (rfl : Action.ofFault (.error e) w = (.error (.io e), w))]
    exact ⟨rfl, Disk.Wrote.refl hsound⟩
  · rw [bind_of_ok (rfl : Action.ofFault (.ok d) w = (.ok d, w))]
    exact ⟨rfl, hf _ _ d hsound hd⟩

theorem write {p : Path} {content : ByteArray} (h : Q p content) :
    Keeps (World.Writes Q) (Action.write p content) :=
  changeDisk fun _ _ _ hsound hw => Disk.wrote_write hsound hw h

theorem makeDirectories (p : Path) : Keeps (World.Writes Q) (Action.makeDirectories p) :=
  changeDisk fun _ _ _ hsound hm => Disk.wrote_makeDirectories hsound hm

theorem makeParent (p : Path) : Keeps (World.Writes Q) (Action.makeParent p) := by
  unfold Action.makeParent
  split
  · exact makeDirectories _
  · exact pure _

theorem copy (source : Path) {target : Path} (h : ∀ content, Q target content) :
    Keeps (World.Writes Q) (Action.copy source target) :=
  changeDisk fun _ _ _ hsound hc => Disk.wrote_copy hsound hc h

end Effect.Keeps

/-! ## Printing -/

namespace Model

open Source

theorem keeps_writeChanged {target : Path} {content : ByteArray} (h : Q target content) :
    Keeps (World.Writes Q) (writeChanged target content) := by
  have hwrite : Keeps (World.Writes Q) (do
      Action.makeParent target
      Action.write target content
      return true : Action Bool) :=
    .bind (.makeParent target) fun _ => .bind (.write h) fun _ => .pure _
  refine .bind (.attempt (.read target)) fun existing => ?_
  cases existing with
  | ok existing =>
    dsimp only
    split_ifs
    · exact .bind (.log _ _) fun _ => .pure _
    · exact hwrite
  | error e => exact hwrite

theorem keeps_printUnit {output : Path} {u : CompilationUnit} {edits : UnitEdits}
    (h : ∀ text, u.render edits = some text →
      Q (outputPath output u) (String.ofList text).toUTF8) :
    Keeps (World.Writes Q) (printUnit output u edits) := by
  unfold printUnit
  split
  · exact .throw _
  · rename_i text htext
    exact keeps_writeChanged (h text htext)

/-- Printing writes the texts of units to their paths. -/
theorem keeps_print {output : Path} {m : Model}
    (h : ∀ x ∈ m.units, ∀ text, x.1.render x.2 = some text →
      Q (outputPath output x.1) (String.ofList text).toUTF8) :
    Keeps (World.Writes Q) (print output m) :=
  .bind (.mapM_of_mem fun x hx => keeps_printUnit (h x hx)) fun _ => .pure _

end Model

/-! ## Beside the sources -/

theorem IdMap.keeps_write (m : IdMap) {p : Path} (h : Q p m.render.toUTF8) :
    Keeps (World.Writes Q) (m.write p) :=
  .bind (.makeParent p) fun _ => .write h

namespace Instrument

open Config

theorem keeps_copyLoggerFile {output : Path} {f : LoggerFile}
    (h : ∀ content, Q (output.join f.target) content) :
    Keeps (World.Writes Q) (copyLoggerFile output f) :=
  .bind (.bind (.makeParent _) fun _ => .bind (.copy _ h) fun _ => .pure _) fun _ => .log _ _

/-! ## Copying a project -/

/-- A path that is made absolute is absolute. -/
theorem isAbsolute_absolute {p q : Path} {w w' : World}
    (h : Action.absolute p w = (.ok q, w')) : q.isAbsolute = true := by
  have hjoin : ∀ a b : Path, a.isAbsolute = true → (a.join b).isAbsolute = true := by
    intro a b ha
    cases hb : b.isAbsolute with
    | true => rw [Path.join_absolute hb, hb]
    | false => rw [Path.isAbsolute_join a hb, ha]
  have hextend : ∀ (cs : List Path.Component) (a : Path), a.isAbsolute = true →
      (a.extend cs).isAbsolute = true := by
    intro cs
    induction cs with
    | nil => exact fun _ ha => ha
    | cons c cs ih => exact fun a ha => ih _ (hjoin a _ ha)
  obtain ⟨here, w₁, hhere, hmatch⟩ := Effect.bind_eq_ok.1 h
  have hroot : here.isAbsolute = true := by
    cases hhere
    unfold Path.isAbsolute Text.startsWith
    rw [String.toList_append]
    rfl
  rcases hq : Path.absolute? here p with _ | q'
  · rw [hq] at hmatch
    cases hmatch
  · rw [hq] at hmatch
    cases hmatch
    obtain ⟨base, hbase, hq⟩ : ∃ base : Path, base.isAbsolute = true ∧
        (if p.isEmpty = true then none
          else some (if Text.endsWith ['/'] p.text.toList = true then base.join ⟨""⟩ else base)) =
            some q := by
      refine ⟨_, ?_, hq⟩
      split_ifs with hrelative hdouble
      · exact hextend _ _ hroot
      · exact hextend _ _ rfl
      · -- the first component is the root
        rw [Path.components_of_absolute (p := p) (by simpa using hrelative),
          List.filter_cons_of_pos (by simp)]
        exact hextend _ ((⟨""⟩ : Path).join ⟨"/"⟩) (by decide)
    split_ifs at hq
    · cases hq
      exact hjoin base _ hbase
    · cases hq
      exact hbase

section Walk

variable {R : World → World → Prop} [World.IgnoresLog R] {project output outputDir path : Path}

theorem keeps_checkLength (p : Path) : Keeps R (checkLength p) := by
  unfold checkLength
  split_ifs
  · exact .throw _
  · exact .pure _

theorem keeps_copyName
    (hcopy : ∀ f : Found, Path.Named project f.path → Keeps R (copyEntry project outputDir f))
    {enter : Ignore.RuleChain → Path → Location → Action Nat}
    (henter : ∀ chain p loc, Path.Named project p → Keeps R (enter chain p loc))
    (hpath : Path.Named project path) {n : String} (hn : Path.IsName n)
    (chain : Ignore.RuleChain) (loc : Location) :
    Keeps R (copyName project output outputDir enter chain path loc n) := by
  have hnamed : Path.Named project (path.join ⟨n⟩) :=
    hpath.trans ⟨[n], path.components_join hn⟩
  refine .bind .get fun w => ?_
  dsimp only
  split
  · exact .pure _
  · split_ifs
    · exact .pure _
    · exact .bind (.log _ _) fun _ => .pure _
    · exact henter _ _ _ hnamed
  · split_ifs
    · exact .pure _
    · exact .bind (hcopy _ hnamed) fun _ => .pure _

/-- What copying the files of a project keeps, copying what lies below a directory keeps. -/
theorem keeps_copyBelow (hsound : ∀ w w', (w.disk.Sound w.cwd → R w w') → R w w')
    (hcopy : ∀ f : Found, Path.Named project f.path → Keeps R (copyEntry project outputDir f))
    (depth : Nat) : ∀ chain path loc, Path.Named project path →
      Keeps R (copyBelow project output outputDir depth chain path loc) := by
  induction depth with
  | zero => exact fun _ _ _ _ => .pure _
  | succ depth ih =>
    intro chain path loc hpath w
    refine hsound w _ fun hw => ?_
    have hname : ∀ n ∈ w.disk.names loc,
        Keeps R (copyName project output outputDir (copyBelow project output outputDir depth) chain
          path loc n) :=
      fun n hn => keeps_copyName hcopy ih hpath (hw.wellFormed.isName hn) chain loc
    exact Keeps.bind (.mapM_of_mem hname) (fun _ => .pure _) w

theorem keeps_warnOfWalk (p : Path) : Keeps R (warnOfWalk p) := by
  refine .bind .get fun w => ?_
  split
  · exact .log _ _
  · split_ifs
    · exact .log _ _
    · exact .pure _

end Walk

theorem keeps_copyEntry {project outputDir : Path} (hproject : project.isAbsolute = true)
    (h : ∀ r content, Path.Inside r → Q (outputDir.join r) content) {f : Found}
    (hf : Path.Named project f.path) : Keeps (World.Writes Q) (copyEntry project outputDir f) := by
  obtain ⟨r, hr, hinside⟩ := Path.inside_relativeTo hproject hf
  unfold copyEntry
  rw [hr]
  split
  · rename_i hrelative
    cases hrelative
    refine .bind ?_ fun _ => .bind (.makeParent _) fun _ => .bind (keeps_checkLength _) fun _ =>
      .bind (keeps_checkLength _) fun _ => .bind (.copy _ fun content => h r content hinside)
        fun _ => .pure _
    rcases (outputDir.join r).parent? with _ | q
    · exact .pure _
    · exact keeps_checkLength q
  · exact .pure _

/-- Copying a project writes to paths below the output. -/
theorem keeps_copyProject {project output : Path}
    (h : ∀ r content, Path.Inside r → Q (output.join r) content) :
    Keeps (World.Writes Q) (copyProject project output) := by
  refine .bind_of (.absolute _) (fun _ _ _ => isAbsolute_absolute) fun project hproject => ?_
  refine .bind (.absolute _) fun output => ?_
  split_ifs
  · exact .bind (.log _ _) fun _ => .pure _
  refine .bind (keeps_warnOfWalk _) fun _ => .bind .get fun w => ?_
  have hcopy : ∀ f : Found, Path.Named project f.path →
      Keeps (World.Writes Q) (copyEntry project _ f) := fun f => keeps_copyEntry hproject h
  split
  · exact .pure _
  · split
    · exact .bind (hcopy _ (.refl project)) fun _ => .pure _
    · exact keeps_copyBelow (R := World.Writes Q) (fun _ _ hw hsound => hw hsound hsound) hcopy _ _
        _ _ (.refl project)

theorem keeps_createOutput {o : Options}
    (h : o.copyProject = true → ∀ r content, Path.Inside r → Q (o.outputDir.join r) content) :
    Keeps (World.Writes Q) (createOutput o) := by
  refine .bind (.makeDirectories _) fun _ => ?_
  split_ifs with hcopy
  · exact .bind (keeps_copyProject (h hcopy)) fun _ => .log _ _
  · exact .pure _

end Instrument

end Tracepoint
