import Tracepoint.Classpath
import Tracepoint.Proofs.FirstOccurrences

/-!
# Where classpaths come from

A classpath starts empty, is collected from paths, or is read from data, and paths are added to
it. What is collected goes through `push`, so no path is there twice. What is read is taken as it
is listed, twins and all, and no later `push` removes them.

Results:

* `entries_pushAll`, `entries_ofList`: what is added are the first occurrences of what is new.
* `decode_eq_some_iff`, `decode_encode`: the data that are read as a classpath, those that it is
  written as among them.
* `noTwins_pushAll_iff`: twins are those of the start.
* `started_exact`: what holds of a classpath, however it starts and whatever is added.
* `read_with_twins`: a classpath that is read can have twins.
-/

namespace Tracepoint

theorem Path.same_comm (a b : Path) : a.same b = b.same a := by
  rw [Bool.eq_iff_iff]
  exact ⟨Path.same_symm, Path.same_symm⟩

namespace Classpath

/-! ## Adding paths -/

/-- A classpath with the paths of a list added one after the other. -/
def pushAll (c : Classpath) (ps : List Path) : Classpath := ps.foldl (fun c p => (c.push p).2) c

theorem pushAll_append (c : Classpath) (ps qs : List Path) :
    c.pushAll (ps ++ qs) = (c.pushAll ps).pushAll qs := List.foldl_append

theorem entries_push (c : Classpath) (p : Path) :
    (c.push p).2.entries = addNew Path.same c.entries p := by
  by_cases h : c.entries.any (·.same p)
  · simp [push, contains, addNew, h]
  · simp [push, contains, addNew, h]

/-- Of the paths that are not there, each is added where it is met first. -/
theorem entries_pushAll (c : Classpath) (ps : List Path) :
    (c.pushAll ps).entries =
      c.entries ++ List.eraseDupsBy Path.same (ps.filter (!c.contains ·)) := by
  have hfold : (c.pushAll ps).entries = ps.foldl (addNew Path.same) c.entries := by
    induction ps generalizing c with
    | nil => rfl
    | cons p ps ih => rw [List.foldl_cons, ← entries_push]; exact ih _
  rw [hfold, foldl_addNew Path.same_comm]
  rfl

theorem entries_ofList (ps : List Path) :
    (ofList ps).entries = List.eraseDupsBy Path.same ps := by
  have h := entries_pushAll {} ps
  rwa [List.filter_eq_self.2 (by simp [contains])] at h

theorem noTwins_empty : ({} : Classpath).NoTwins := List.Pairwise.nil

theorem noTwins_pushAll {c : Classpath} (h : c.NoTwins) (ps : List Path) :
    (c.pushAll ps).NoTwins := by
  induction ps generalizing c with
  | nil => exact h
  | cons p ps ih => exact ih (noTwins_push h p)

/-- Adding neither makes nor removes twins. -/
theorem noTwins_pushAll_iff (c : Classpath) (ps : List Path) :
    (c.pushAll ps).NoTwins ↔ c.NoTwins := by
  refine ⟨fun h => ?_, fun h => noTwins_pushAll h ps⟩
  rw [NoTwins, entries_pushAll] at h
  exact (List.pairwise_append.1 h).1

theorem noTwins_ofList (ps : List Path) : (ofList ps).NoTwins := noTwins_pushAll noTwins_empty ps

/-- A new path goes to the end, and nothing changes for one that is there. -/
theorem push_cases (c : Classpath) (p : Path) :
    (c.contains p = false ∧ c.push p = (true, ⟨c.entries ++ [p]⟩)) ∨
      (c.contains p = true ∧ c.push p = (false, c)) := by
  cases h : c.contains p with
  | true => exact .inr ⟨rfl, by simp [push, h]⟩
  | false => exact .inl ⟨rfl, by simp [push, h]⟩

/-! ## Data -/

/-- Data that list paths: as the field of a record, or in the place of that field. -/
inductive Lists : Datum → List Path → Prop
  | named {fields : List (String × Datum)} {ps : List Path}
      (h : fields.lookup "entries" = some (.list (ps.map (.text ·.text)))) :
      Lists (.record fields) ps
  | placed (ps : List Path) : Lists (.list [.list (ps.map (.text ·.text))]) ps

theorem path_eq_some_iff {d : Datum} {p : Path} : Decoder.path d = some p ↔ d = .text p.text := by
  cases d with
  | text content =>
    simp only [Decoder.path, Decoder.text, Option.map_some, Option.some.injEq, Datum.text.injEq]
    exact ⟨fun h => by rw [← h], fun h => by rw [h]⟩
  | _ => simp [Decoder.path, Decoder.text]

theorem mapM_path_eq_some_iff {ds : List Datum} {ps : List Path} :
    ds.mapM Decoder.path = some ps ↔ ds = ps.map (.text ·.text) := by
  constructor
  · intro h
    induction ds generalizing ps with
    | nil =>
      obtain rfl := Option.some.inj h
      rfl
    | cons d ds ih =>
      simp only [List.mapM_cons, Option.bind_eq_bind, Option.bind_eq_some_iff, Option.pure_def,
        Option.some.injEq] at h
      obtain ⟨p, hp, qs, hqs, rfl⟩ := h
      rw [path_eq_some_iff.1 hp, ih hqs, List.map_cons]
  · rintro rfl
    induction ps with
    | nil => rfl
    | cons p ps ih =>
      rw [List.map_cons, List.mapM_cons, ih]
      rfl

theorem list_path_eq_some_iff {d : Datum} {ps : List Path} :
    Decoder.list Decoder.path d = some ps ↔ d = .list (ps.map (.text ·.text)) := by
  cases d with
  | list ds => rw [Decoder.list, mapM_path_eq_some_iff, Datum.list.injEq]
  | _ => simp [Decoder.list]

theorem lists_iff {d : Datum} {ps : List Path} :
    Lists d ps ↔ ∃ f, Fields.of? ["entries"] true d = some f ∧
      f.values.lookup "entries" = some (.list (ps.map (.text ·.text))) := by
  constructor
  · rintro (h | _)
    · exact ⟨_, rfl, h⟩
    · exact ⟨_, rfl, rfl⟩
  · rintro ⟨f, hf, h⟩
    cases d with
    | record fields =>
      obtain rfl := Option.some.inj hf
      exact .named h
    | list elements =>
      match elements with
      | [] =>
        obtain rfl := Option.some.inj hf
        simp at h
      | [e] =>
        obtain rfl := Option.some.inj hf
        obtain rfl := Option.some.inj h
        exact .placed ps
      | _ :: _ :: _ => simp [Fields.of?] at hf
    | _ => simp [Fields.of?] at hf

/-- What is read are the paths as they are listed. -/
theorem decode_eq_some_iff {d : Datum} {c : Classpath} : decode d = some c ↔ Lists d c.entries := by
  rw [lists_iff]
  obtain ⟨ps⟩ := c
  simp only [decode, Fields.required, Option.bind_eq_bind, Option.bind_eq_some_iff,
    Option.pure_def, Option.some.injEq, list_path_eq_some_iff, mk.injEq]
  constructor
  · rintro ⟨f, hf, qs, ⟨e, he, rfl⟩, rfl⟩
    exact ⟨f, hf, he⟩
  · rintro ⟨f, hf, h⟩
    exact ⟨f, hf, ps, ⟨_, h, rfl⟩, rfl⟩

theorem lists_encode (c : Classpath) : Lists c.encode c.entries := .named rfl

/-- A classpath is read back from what it is written as. -/
theorem decode_encode (c : Classpath) : decode c.encode = some c :=
  decode_eq_some_iff.2 (lists_encode c)

/-! ## Every classpath -/

/-- The ways in which a classpath starts. -/
inductive Start where
  | empty
  | collected (ps : List Path)
  | read (d : Datum)

/-- The classpath of a start, if it is not read from data that are none. -/
def Start.classpath? : Start → Option Classpath
  | empty => some {}
  | collected ps => some (ofList ps)
  | read d => decode d

/-- Nothing that is taken as it stands lists a path twice. -/
def Start.TwinFree : Start → Prop
  | read d => ∀ ps, Lists d ps → NoTwins ⟨ps⟩
  | _ => True

theorem Start.noTwins_iff {s : Start} {c : Classpath} (h : s.classpath? = some c) :
    c.NoTwins ↔ s.TwinFree := by
  cases s with
  | empty =>
    obtain rfl := Option.some.inj h
    exact iff_of_true noTwins_empty trivial
  | collected ps =>
    obtain rfl := Option.some.inj h
    exact iff_of_true (noTwins_ofList ps) trivial
  | read d =>
    have hc : Lists d c.entries := decode_eq_some_iff.1 h
    refine ⟨fun hn ps hps => ?_, fun hd => hd _ hc⟩
    have hsame : decode d = some ⟨ps⟩ := decode_eq_some_iff.2 hps
    rw [Option.some.inj (hsame.symm.trans h)]
    exact hn

/-- However a classpath starts and whatever is added to it, it has no twins exactly if the data
    that it may have been read from list none. Adding to it and writing it do what they should
    with twins as without. -/
theorem started_exact {s : Start} {c : Classpath} (h : s.classpath? = some c) (ps : List Path) :
    ((c.pushAll ps).NoTwins ↔ s.TwinFree) ∧
      (c.pushAll ps).entries =
        c.entries ++ List.eraseDupsBy Path.same (ps.filter (!c.contains ·)) ∧
      (∀ p, ((c.pushAll ps).contains p = false ∧
          (c.pushAll ps).push p = (true, ⟨(c.pushAll ps).entries ++ [p]⟩)) ∨
        ((c.pushAll ps).contains p = true ∧ (c.pushAll ps).push p = (false, c.pushAll ps))) ∧
      decode (c.pushAll ps).encode = some (c.pushAll ps) :=
  ⟨(noTwins_pushAll_iff c ps).trans (Start.noTwins_iff h), entries_pushAll c ps, push_cases _,
    decode_encode _⟩

/-- A path that is written in two ways is added once. -/
theorem started_exact_of_collected :
    let s := Start.collected [⟨"lib/a.jar"⟩, ⟨"lib//a.jar"⟩]
    let c : Classpath := ⟨[⟨"lib/a.jar"⟩]⟩
    let after := c.pushAll [⟨"b.jar"⟩, ⟨"lib/./a.jar"⟩]
    s.classpath? = some c ∧ after.entries = [⟨"lib/a.jar"⟩, ⟨"b.jar"⟩] ∧
      (after.NoTwins ↔ s.TwinFree) ∧ decode after.encode = some after := by
  have h : (Start.collected [⟨"lib/a.jar"⟩, ⟨"lib//a.jar"⟩]).classpath? =
      some ⟨[⟨"lib/a.jar"⟩]⟩ := by decide +kernel
  obtain ⟨hn, -, -, hread⟩ := started_exact h [⟨"b.jar"⟩, ⟨"lib/./a.jar"⟩]
  exact ⟨h, by decide +kernel, hn, hread⟩

/-- A list with a path twice is read as it stands. -/
theorem read_with_twins :
    ¬ ∀ (s : Start) (c : Classpath) (ps : List Path), s.classpath? = some c →
      (c.pushAll ps).NoTwins := by
  intro h
  have hx := h (.read (.record [("entries", .list [.text "x", .text "x"])])) ⟨[⟨"x"⟩, ⟨"x"⟩]⟩ []
    (by decide +kernel)
  exact absurd (Path.same_refl ⟨"x"⟩) (by simpa using List.rel_of_pairwise_cons hx (by simp))

end Classpath

end Tracepoint
