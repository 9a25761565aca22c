import Tracepoint.Proofs.Model.Print

/-!
# What printing leaves

After a model was printed, each unit's file has the unit's text, and no other file has changed. The
number that printing gives is the number of units whose file was missing or had another content,
and printing the model once more changes nothing.

The units have to have their outputs at different files. Different paths do not ensure this, as a
link in the output can make two paths one file. And a path can lead nowhere until the directories
of another unit are there, while the file that it leads to then was there all along.

Results:

* `Action.FailsOnDisk`: an action that only the disk can keep from being done.
* `printUnit_eq_ok`: what printing a unit gives, and what it leaves.
* `OutputsApart.tail`: printing one unit does not matter to the others.
* `mapM_printUnit_eq_ok`, `held_of_print_apart`: which units are written, and what they have then.
* `print_exact`: what printing a model gives and leaves.
* `print_differs`: what links and missing directories can come to.
-/

namespace Tracepoint

open Source Effect

/-! ## Failures -/

/-- An action fails with faults of the file system only. -/
def Action.FailsOnDisk {α : Type} (a : Action α) : Prop :=
  ∀ w error w', a w = (.error error, w') → ∃ fault, error = .io fault

namespace Action.FailsOnDisk

variable {α β : Type}

theorem pure (a : α) : FailsOnDisk (Pure.pure a) := by
  intro w error w' h
  cases h

theorem bind {x : Action α} {f : α → Action β} (hx : x.FailsOnDisk)
    (hf : ∀ a, (f a).FailsOnDisk) : (x >>= f).FailsOnDisk := by
  intro w error w' h
  rcases hfirst : x w with ⟨e | a, w₁⟩
  · rw [bind_of_error hfirst] at h
    cases h
    exact hx w error w' hfirst
  · rw [bind_of_ok hfirst] at h
    exact hf a w₁ error w' h

theorem attempt (a : Action α) : (attempt a).FailsOnDisk := by
  intro w error w' h
  have hok : Action.attempt a w = (.ok (a w).1, (a w).2) := rfl
  rw [hok] at h
  cases h

theorem changeDisk (f : Disk → Location → Except Fault Disk) : (changeDisk f).FailsOnDisk := by
  intro w error w' h
  obtain ⟨fault, -, rfl, -⟩ := changeDisk_eq_error.1 h
  exact ⟨fault, rfl⟩

theorem makeParent (p : Path) : (makeParent p).FailsOnDisk := by
  rw [makeParent_eq]
  exact changeDisk _

theorem log (level : LogLevel) (text : String) : (log level text).FailsOnDisk := by
  intro w error w' h
  cases h

theorem mapM_of_mem {f : α → Action β} {xs : List α} (hf : ∀ x ∈ xs, (f x).FailsOnDisk) :
    FailsOnDisk (xs.mapM f) := by
  induction xs with
  | nil => exact pure []
  | cons x xs ih =>
    rw [List.mapM_cons]
    exact bind (hf x List.mem_cons_self) fun y =>
      bind (ih fun x hx => hf x (List.mem_cons_of_mem _ hx)) fun ys => pure (y :: ys)

end Action.FailsOnDisk

namespace Model

/-! ## Files that have their text -/

/-- Whether a unit's file has the unit's text. -/
def upToDate (output : Path) (d : Disk) (cwd : Location) (x : CompilationUnit × UnitEdits) : Bool :=
  match x.1.render x.2, d.read cwd (outputPath output x.1) with
  | some text, .ok existing => existing.data == (String.ofList text).toUTF8.data
  | _, _ => false

theorem upToDate_iff {output : Path} {d : Disk} {cwd : Location}
    {x : CompilationUnit × UnitEdits} :
    upToDate output d cwd x = true ↔ Held output d cwd x := by
  unfold upToDate Held
  cases x.1.render x.2 with
  | none => simp
  | some text =>
    cases d.read cwd (outputPath output x.1) with
    | error fault => simp
    | ok existing => simp [ByteArray.ext_iff]

instance (output : Path) (d : Disk) (cwd : Location) (x : CompilationUnit × UnitEdits) :
    Decidable (Held output d cwd x) :=
  decidable_of_iff _ upToDate_iff

/-- The output of a unit lies at a location. -/
def LiesAt (output : Path) (w : World) (x : CompilationUnit × UnitEdits) (l : Location) : Prop :=
  w.disk.resolve w.cwd (outputPath output x.1) true = .ok l

instance (output : Path) (w : World) (x : CompilationUnit × UnitEdits) (l : Location) :
    Decidable (LiesAt output w x l) :=
  inferInstanceAs (Decidable (_ = _))

variable {output : Path} {x : CompilationUnit × UnitEdits}
  {xs : List (CompilationUnit × UnitEdits)} {w w₁ w' : World}

theorem held_iff : Held output w.disk w.cwd x ↔ ∃ text l, x.1.render x.2 = some text ∧
    LiesAt output w x l ∧ w.disk.contentAt l = some (String.ofList text).toUTF8 := by
  unfold Held LiesAt
  simp only [Disk.read_eq_ok]
  constructor
  · rintro ⟨text, htext, l, hl, hcontent⟩
    exact ⟨text, l, htext, hl, hcontent⟩
  · rintro ⟨text, l, htext, hl, hcontent⟩
    exact ⟨text, htext, l, hl, hcontent⟩

/-! ## Printing one unit -/

/-- The text of a unit goes through the path of its output. -/
def Prints (output : Path) (x : CompilationUnit × UnitEdits) (p : Path) (content : ByteArray) :
    Prop :=
  p = outputPath output x.1 ∧
    ∃ text, x.1.render x.2 = some text ∧ content = (String.ofList text).toUTF8

theorem writes_printUnit (output : Path) (x : CompilationUnit × UnitEdits) (w : World) :
    World.Writes (Prints output x) w (printUnit output x.1 x.2 w).2 :=
  keeps_printUnit (fun text htext => ⟨rfl, text, htext, rfl⟩) w

/-- A unit that was printed has its text, and it is written unless it had it before. -/
theorem printUnit_eq_ok {b : Bool} (hsound : w.disk.Sound w.cwd)
    (h : printUnit output x.1 x.2 w = (.ok b, w')) :
    b = decide (¬ Held output w.disk w.cwd x) ∧ Held output w'.disk w.cwd x := by
  have hprint := h
  unfold printUnit at h
  cases htext : x.1.render x.2 with
  | none =>
    rw [htext] at h
    cases h
  | some text =>
    rw [htext] at h
    refine ⟨?_, text, htext, read_of_writeChanged hsound h⟩
    by_cases hheld : Held output w.disk w.cwd x
    · obtain ⟨lines, hsame⟩ := printUnit_of_held hheld
      rw [hprint] at hsame
      cases hsame
      simp [hheld]
    · have hread : w.disk.read w.cwd (outputPath output x.1) ≠ .ok (String.ofList text).toUTF8 :=
        fun hread => hheld ⟨text, htext, hread⟩
      replace h : writeChanged (outputPath output x.1) (String.ofList text).toUTF8 w =
        (.ok b, w') := h
      rw [writeChanged_of_not_read hread, overwrite_eq_ok] at h
      rw [h.1]
      simp [hheld]

/-- A file can only be kept from being written by the disk. -/
theorem failsOnDisk_writeChanged (target : Path) (content : ByteArray) :
    (writeChanged target content).FailsOnDisk := by
  have hoverwrite : (overwrite target content).FailsOnDisk :=
    .bind (.makeParent target) fun _ => .bind (.changeDisk _) fun _ => .pure _
  refine .bind (.attempt _) fun existing => ?_
  cases existing with
  | ok existing =>
    dsimp only
    split_ifs
    · exact .bind (.log _ _) fun _ => .pure _
    · exact hoverwrite
  | error e => exact hoverwrite

theorem failsOnDisk_printUnit (h : (x.1.render x.2).isSome = true) :
    (printUnit output x.1 x.2).FailsOnDisk := by
  obtain ⟨text, htext⟩ := Option.isSome_iff_exists.1 h
  unfold printUnit
  rw [htext]
  exact failsOnDisk_writeChanged _ _

/-! ## Outputs that are apart -/

/-- The outputs of units are apart: at the end no two of them lie at one file, and where the file
    of a unit had its text at the start, the path of its output led to it then. -/
structure OutputsApart (output : Path) (xs : List (CompilationUnit × UnitEdits)) (w w' : World) :
    Prop where
  distinct : xs.Pairwise fun x y => ∀ l, LiesAt output w' x l → ¬ LiesAt output w' y l
  known : ∀ x ∈ xs, ∀ text l, x.1.render x.2 = some text → LiesAt output w' x l →
    w.disk.contentAt l = some (String.ofList text).toUTF8 → Held output w.disk w.cwd x

theorem LiesAt.grown {l : Location} (h : LiesAt output w x l) (hcwd : w'.cwd = w.cwd)
    (hg : w.disk.Grown w'.disk) : LiesAt output w' x l := by
  unfold LiesAt
  rw [hcwd]
  exact Disk.resolve_grown h hg

/-- Printing a unit changes no file but its own. -/
theorem contentAt_of_prints (hsound : w.disk.Sound w.cwd)
    (hwrites : World.Writes (Prints output x) w w₁) (hcwd : w'.cwd = w₁.cwd)
    (hg : w₁.disk.Grown w'.disk) {l : Location} (hl : ¬ LiesAt output w' x l) :
    w₁.disk.contentAt l = w.disk.contentAt l := by
  obtain ⟨hcwd₁, hwrote⟩ := hwrites hsound
  rcases hwrote.content l with hsame | ⟨p, content, ⟨rfl, -⟩, hlies, -⟩
  · exact hsame
  · rw [← hcwd₁] at hlies
    exact absurd (LiesAt.grown hlies hcwd hg) hl

/-- Printing one unit does not matter to the others: they are apart as before, and the same of
    them have their texts. -/
theorem OutputsApart.tail (h : OutputsApart output (x :: xs) w w') (hsound : w.disk.Sound w.cwd)
    (hwrites : World.Writes (Prints output x) w w₁) (hcwd : w'.cwd = w₁.cwd)
    (hg : w₁.disk.Grown w'.disk) :
    (∀ y ∈ xs, Held output w₁.disk w₁.cwd y ↔ Held output w.disk w.cwd y) ∧
      OutputsApart output xs w₁ w' := by
  obtain ⟨hcwd₁, hwrote⟩ := hwrites hsound
  obtain ⟨hapart, hdistinct⟩ := List.pairwise_cons.1 h.distinct
  have hsame : ∀ y ∈ xs, ∀ l, LiesAt output w' y l →
      w₁.disk.contentAt l = w.disk.contentAt l := fun y hy l hl =>
    contentAt_of_prints hsound hwrites hcwd hg fun hlies => hapart y hy l hlies hl
  have hkept : ∀ y ∈ xs, Held output w.disk w.cwd y → Held output w₁.disk w₁.cwd y := by
    intro y hy hheld
    obtain ⟨text, l, htext, hl, hcontent⟩ := held_iff.1 hheld
    have hl₁ := hl.grown hcwd₁ hwrote.grown
    exact held_iff.2 ⟨text, l, htext, hl₁, (hsame y hy l (hl₁.grown hcwd hg)).trans hcontent⟩
  have hknown : ∀ y ∈ xs, ∀ text l, y.1.render y.2 = some text → LiesAt output w' y l →
      w₁.disk.contentAt l = some (String.ofList text).toUTF8 → Held output w.disk w.cwd y := by
    intro y hy text l htext hl hcontent
    rw [hsame y hy l hl] at hcontent
    exact h.known y (List.mem_cons_of_mem _ hy) text l htext hl hcontent
  refine ⟨fun y hy => ⟨fun hheld => ?_, hkept y hy⟩, hdistinct, fun y hy text l htext hl hcontent =>
    hkept y hy (hknown y hy text l htext hl hcontent)⟩
  obtain ⟨text, l, htext, hl, hcontent⟩ := held_iff.1 hheld
  exact hknown y hy text l htext (hl.grown hcwd hg) hcontent

/-- Two units with their outputs at one file are the same. -/
theorem OutputsApart.eq_of_liesAt {y : CompilationUnit × UnitEdits} {l : Location}
    (h : OutputsApart output xs w w') (hx : x ∈ xs) (hy : y ∈ xs) (hlx : LiesAt output w' x l)
    (hly : LiesAt output w' y l) : x = y := by
  by_contra hne
  have hsymm : Std.Symm fun x y => ∀ l, LiesAt output w' x l → ¬ LiesAt output w' y l :=
    ⟨fun _ _ h l hy hx => h l hx hy⟩
  exact (h.distinct.forall hx hy hne) l hlx hly

theorem LiesAt.unique {l l' : Location} (h : LiesAt output w x l) (h' : LiesAt output w x l') :
    l = l' :=
  Except.ok.inj (h.symm.trans h')

/-- Outputs are apart if they lie at different locations, where at the start either the paths lead
    as well or there is no file. -/
theorem OutputsApart.of_places {place : CompilationUnit × UnitEdits → Location}
    (hplace : ∀ x ∈ xs, LiesAt output w' x (place x))
    (hdistinct : xs.Pairwise fun x y => place x ≠ place y)
    (hknown : ∀ x ∈ xs, LiesAt output w x (place x) ∨ w.disk.contentAt (place x) = none) :
    OutputsApart output xs w w' := by
  constructor
  · refine hdistinct.imp_of_mem fun hx hy hne l hlx hly => hne ?_
    exact (LiesAt.unique (hplace _ hx) hlx).trans (LiesAt.unique hly (hplace _ hy))
  · intro x hx text l htext hl hcontent
    obtain rfl := LiesAt.unique hl (hplace x hx)
    rcases hknown x hx with hlies | hnone
    · exact held_iff.2 ⟨text, _, htext, hlies, hcontent⟩
    · rw [hnone] at hcontent
      cases hcontent

/-! ## Printing all units -/

/-- Just the units are written whose files did not have their texts. -/
theorem mapM_printUnit_eq_ok {bs : List Bool} (hsound : w.disk.Sound w.cwd)
    (hapart : OutputsApart output xs w w')
    (h : (xs.mapM fun (u, edits) => printUnit output u edits) w = (.ok bs, w')) :
    bs = xs.map fun x => decide (¬ Held output w.disk w.cwd x) := by
  induction xs generalizing w bs with
  | nil =>
    cases h
    rfl
  | cons x xs ih =>
    rw [List.mapM_cons] at h
    obtain ⟨b, w₁, hfirst, h⟩ := bind_eq_ok.1 h
    obtain ⟨bs', w₂, hrest, h⟩ := bind_eq_ok.1 h
    cases h
    replace hfirst : printUnit output x.1 x.2 w = (.ok b, w₁) := hfirst
    have hwrites := writes_printUnit output x w
    rw [hfirst] at hwrites
    obtain ⟨hcwd₁, hwrote⟩ := hwrites hsound
    have hsound₁ : w₁.disk.Sound w₁.cwd := hcwd₁ ▸ hwrote.sound
    -- what the rest writes
    have hkeeps : Keeps (World.Writes fun _ _ => True)
        (xs.mapM fun x : CompilationUnit × UnitEdits => printUnit output x.1 x.2) :=
      .mapM_of_mem fun x _ => keeps_printUnit fun _ _ => trivial
    have hlater := hkeeps w₁
    rw [show (xs.mapM fun x : CompilationUnit × UnitEdits => printUnit output x.1 x.2) w₁ = _
      from hrest] at hlater
    obtain ⟨hcwd', hwrote'⟩ := hlater hsound₁
    obtain ⟨hsame, htail⟩ := hapart.tail hsound hwrites hcwd' hwrote'.grown
    have hsameLater : xs.map (fun y => decide (¬ Held output w₁.disk w₁.cwd y)) =
        xs.map fun y => decide (¬ Held output w.disk w.cwd y) :=
      List.map_congr_left fun y hy => by rw [decide_eq_decide, hsame y hy]
    rw [List.map_cons, (printUnit_eq_ok hsound hfirst).1, ih hsound₁ htail hrest, hsameLater]

/-- Units that were printed have their texts in the end. -/
theorem held_of_print_apart {n : Nat} (hsound : w.disk.Sound w.cwd)
    (hapart : OutputsApart output xs w w') (h : print output ⟨xs⟩ w = (.ok n, w')) :
    ∀ x ∈ xs, Held output w'.disk w'.cwd x := by
  intro x hx
  obtain ⟨w₁, hlater, hcwd₁, hsound₁, hheld⟩ :=
    held_of_print (Q := fun p content => ∃ x ∈ xs, Prints output x p content)
      (fun x hx text htext => ⟨x, hx, rfl, text, htext, rfl⟩) hsound h x hx
  rw [← hcwd₁] at hheld
  obtain ⟨text, l, htext, hl, hcontent⟩ := held_iff.1 hheld
  obtain ⟨hcwd, hwrote⟩ := hlater hsound₁
  have hl' := hl.grown hcwd hwrote.grown
  refine held_iff.2 ⟨text, l, htext, hl', ?_⟩
  rcases hwrote.content l with hsame | ⟨p, content, ⟨y, hy, rfl, text', htext', rfl⟩, hlies, hnew⟩
  · exact hsame.trans hcontent
  · -- what was written there later was written for the same unit
    rw [← hcwd] at hlies
    obtain rfl := hapart.eq_of_liesAt hx hy hl' hlies
    rw [htext] at htext'
    cases htext'
    exact hnew

/-- Units with texts can only be kept from being printed by the disk. -/
theorem failsOnDisk_print {m : Model} (h : ∀ x ∈ m.units, (x.1.render x.2).isSome = true) :
    (print output m).FailsOnDisk :=
  .bind (.mapM_of_mem fun x hx => failsOnDisk_printUnit (h x hx)) fun _ => .pure _

/-- Unless the disk keeps a model from being printed, each unit's file has the unit's text
    afterwards, and no other file has changed. The number of files that were written is that of the
    units whose files did not have their texts, and printing once more changes nothing. -/
theorem print_exact {m : Model} (hsound : w.disk.Sound w.cwd)
    (htexts : ∀ x ∈ m.units, (x.1.render x.2).isSome = true)
    (hdisk : ∀ fault, (print output m w).1 ≠ .error (.io fault))
    (hapart : OutputsApart output m.units w (print output m w).2) :
    ∃ w', print output m w =
        (.ok (m.units.countP fun x => ¬ Held output w.disk w.cwd x), w') ∧
      (∀ x ∈ m.units, Held output w'.disk w'.cwd x) ∧
      (∀ l, (∀ x ∈ m.units, ¬ LiesAt output w' x l) →
        w'.disk.contentAt l = w.disk.contentAt l) ∧
      ∃ lines, print output m w' = (.ok 0, w'.logged lines) := by
  have hwrites : World.Writes (fun p content => ∃ x ∈ m.units, Prints output x p content) w
      (print output m w).2 :=
    keeps_print (fun x hx text htext => ⟨x, hx, rfl, text, htext, rfl⟩) w
  rcases hprint : print output m w with ⟨error | n, w'⟩
  · obtain ⟨fault, rfl⟩ := failsOnDisk_print htexts w error w' hprint
    exact absurd (by rw [hprint]) (hdisk fault)
  rw [hprint] at hapart hwrites
  obtain ⟨hcwd, hwrote⟩ := hwrites hsound
  have hheld := held_of_print_apart hsound hapart hprint
  refine ⟨w', ?_, hheld, fun l hl => ?_, print_of_held hheld⟩
  · obtain ⟨bs, w₁, hmap, hcount⟩ := bind_eq_ok.1 hprint
    cases hcount
    rw [mapM_printUnit_eq_ok hsound hapart hmap, List.countP_map]
    rfl
  · rcases hwrote.content l with hsame | ⟨p, content, ⟨x, hx, rfl, -⟩, hlies, -⟩
    · exact hsame
    · rw [← hcwd] at hlies
      exact absurd hlies (hl x hx)

/-! ## Samples -/

/-- The units of some files, given by their paths and texts, without edits. -/
def sampleModel (files : List (String × String)) : Model :=
  ofUnits (files.filterMap fun (path, text) =>
    (CompilationUnit.ofSource ⟨"src/" ++ path⟩ ⟨path⟩ .java text.toList).toOption) false

/-- A disk with some files in a directory. -/
def sampleOutput (entries : List (String × Entry)) : World :=
  { disk := ⟨(["out"], .directory) :: entries.map fun (name, e) => (["out", name], e)⟩ }

/-- Of three units one has its text, one has another one, and for one there is not even a
    directory. -/
theorem print_exact_of_three :
    let m := sampleModel [("A.java", "class A\x7b\x7d"), ("B.java", "class B\x7b\x7d"),
      ("c/C.java", "class C\x7b\x7d")]
    let w := sampleOutput [("A.java", .file "".toUTF8), ("B.java", .file "class B\x7b\x7d".toUTF8),
      ("D.java", .file "d".toUTF8)]
    m.size = 3 ∧ ∃ w', print ⟨"out"⟩ m w = (.ok 2, w') ∧
      (∀ x ∈ m.units, Held ⟨"out"⟩ w'.disk w'.cwd x) ∧
      w'.disk.contentAt ["out", "D.java"] = some "d".toUTF8 ∧
      ∃ lines, print ⟨"out"⟩ m w' = (.ok 0, w'.logged lines) := by
  intro m w
  let place : CompilationUnit × UnitEdits → Location := fun x =>
    "out" :: Disk.steps x.1.relativePath
  obtain ⟨hsize, hsound, htexts, hok, hcount, hplace, hdistinct, hknown⟩ :
      m.size = 3 ∧ w.disk.Sound w.cwd ∧
      (∀ x ∈ m.units, (x.1.render x.2).isSome = true) ∧ (print ⟨"out"⟩ m w).1.isOk = true ∧
      (m.units.countP fun x => ¬ Held ⟨"out"⟩ w.disk w.cwd x) = 2 ∧
      (∀ x ∈ m.units, LiesAt ⟨"out"⟩ (print ⟨"out"⟩ m w).2 x (place x) ∧
        place x ≠ ["out", "D.java"]) ∧
      m.units.Pairwise (fun x y => place x ≠ place y) ∧
      ∀ x ∈ m.units, LiesAt ⟨"out"⟩ w x (place x) ∨ w.disk.contentAt (place x) = none := by
    decide +kernel
  obtain ⟨w', hprint, hheld, hothers, hagain⟩ := print_exact hsound htexts
    (fun fault hfault => by rw [hfault] at hok; cases hok)
    (OutputsApart.of_places (fun x hx => (hplace x hx).1) hdistinct hknown)
  rw [hcount] at hprint
  rw [hprint] at hplace
  refine ⟨hsize, w', hprint, hheld, ?_, hagain⟩
  rw [hothers _ fun x hx hlies => (hplace x hx).2 (LiesAt.unique (hplace x hx).1 hlies)]
  rfl

/-- Two files are written again and again if a link makes them one. And the file of a unit is not
    written, although its path led nowhere, once the directories of another unit make it lead to
    a file with its text. -/
theorem print_differs :
    (let m := sampleModel [("A.java", "class A\x7b\x7d"), ("B.java", "class B\x7b\x7d")]
     let w := sampleOutput [("B.java", .link ⟨"A.java"⟩)]
     let r := print ⟨"out"⟩ m w
     w.disk.Sound w.cwd ∧
       (m.units.map fun x => outputPath ⟨"out"⟩ x.1) = [⟨"out/A.java"⟩, ⟨"out/B.java"⟩] ∧
       r.1.toOption = some 2 ∧
       (m.units.map fun x => decide (Held ⟨"out"⟩ r.2.disk r.2.cwd x)) = [false, true] ∧
       (print ⟨"out"⟩ m r.2).1.toOption = some 2) ∧
    (let m := sampleModel [("x/B.java", "class B\x7b\x7d"), ("x/../A.java", "class A\x7b\x7d")]
     let w := sampleOutput [("A.java", .file "class A\x7b\x7d".toUTF8)]
     w.disk.Sound w.cwd ∧
       (m.units.map fun x => outputPath ⟨"out"⟩ x.1) = [⟨"out/x/B.java"⟩, ⟨"out/x/../A.java"⟩] ∧
       (m.units.countP fun x => ¬ Held ⟨"out"⟩ w.disk w.cwd x) = 2 ∧
       (print ⟨"out"⟩ m w).1.toOption = some 1) := by
  decide +kernel

end Model

end Tracepoint
