import Tracepoint.Proofs.Maven.Inheritance
import Tracepoint.Proofs.Model.Build

/-!
# The descriptors that are read

From the descriptor of a project the parents are read one after the other, as long as a descriptor
has one, its file exists and there are not too many. Paths can lead round in a circle; that the
number of parents is bounded ends it then.

Results:

* `IsLineage`: the paths of the descriptors that are read.
* `readDocument_cases`: reading a descriptor gives the document in its file, and fails without one.
* `readChain_cases`: what comes of reading all of them.
-/

namespace Tracepoint.Maven

/-! ## Documents and their parents -/

/-- The document of a descriptor: its file can be read and is a well-formed project. -/
def IsDocument (d : Disk) (cwd : Location) (path : Path) (root : Xml.Node) : Prop :=
  ∃ text, d.readText cwd path = .ok text ∧ Xml.parse? text.toList = some root ∧
    root.name? = some "project"

/-- Where the parent of a descriptor is expected. A directory stands for the descriptor in it. -/
def parentAt (d : Disk) (cwd : Location) (path : Path) (parent : Xml.Node) : Path :=
  let p := (path.parent?.getD ⟨"."⟩).join ⟨(childText? parent "relativePath").getD "../pom.xml"⟩
  if d.isDirectory cwd p then p.join ⟨"pom.xml"⟩ else p

/-- A descriptor has a parent in its document, and the file of that exists. -/
def IsParent (d : Disk) (cwd : Location) (path above : Path) : Prop :=
  ∃ root parent, IsDocument d cwd path root ∧ root.child? "parent" = some parent ∧
    parentAt d cwd path parent = above ∧ d.isFile cwd above = true

/-- The paths from a descriptor up the chain of its parents, `limit` of them at most. -/
structure IsLineage (d : Disk) (cwd : Location) (limit : Nat) (path : Path) (ps : List Path) :
    Prop where
  first : ps.head? = some path
  parents : ps.IsChain (IsParent d cwd)
  bounded : ps.length ≤ limit + 1
  /-- It ends at the limit, or where no parent is found. -/
  complete : ps.length = limit + 1 ∨ ∀ p ∈ ps.getLast?, ∀ above, ¬ IsParent d cwd p above

section

variable {d : Disk} {cwd : Location} {limit : Nat} {path above : Path}

theorem IsDocument.unique {root root' : Xml.Node} (h : IsDocument d cwd path root)
    (h' : IsDocument d cwd path root') : root = root' := by
  obtain ⟨text, htext, hroot, -⟩ := h
  obtain ⟨text', htext', hroot', -⟩ := h'
  obtain rfl : text = text' := Except.ok.inj (htext.symm.trans htext')
  exact Option.some.inj (hroot.symm.trans hroot')

/-- What has a document is a file. -/
theorem IsDocument.isFile {root : Xml.Node} (h : IsDocument d cwd path root) :
    d.isFile cwd path = true := by
  obtain ⟨text, htext, -⟩ := h
  unfold Disk.readText Disk.read at htext
  unfold Disk.isFile
  rcases hentry : d.entryAt cwd path with fault | (content | _ | target)
  · rw [hentry] at htext
    cases htext
  · rfl
  · rw [hentry] at htext
    cases htext
  · rw [hentry] at htext
    cases htext

theorem IsLineage.single (h : limit = 0 ∨ ∀ above, ¬ IsParent d cwd path above) :
    IsLineage d cwd limit path [path] where
  first := rfl
  parents := .singleton path
  bounded := by simp
  complete := by
    refine h.imp (fun hlimit => by simp [hlimit]) fun hnone p hp => ?_
    cases hp
    exact hnone

theorem IsLineage.cons {ps : List Path} (hparent : IsParent d cwd path above)
    (h : IsLineage d cwd limit above ps) : IsLineage d cwd (limit + 1) path (path :: ps) := by
  obtain ⟨rest, rfl⟩ : ∃ rest, ps = above :: rest := List.head?_eq_some_iff.1 h.first
  refine ⟨rfl, .cons_cons hparent h.parents, by simpa using h.bounded, ?_⟩
  exact h.complete.imp (fun hlength => by simpa using hlength) fun hnone p hp =>
    hnone p (by rwa [List.getLast?_cons_cons] at hp)

end

/-! ## Reading -/

/-- Reading a descriptor gives the document in its file, and fails without one. -/
theorem readDocument_cases (path : Path) (w : World) :
    (∃ root, IsDocument w.disk w.cwd path root ∧ readDocument path w = (.ok root, w)) ∨
      (∀ root, ¬ IsDocument w.disk w.cwd path root) ∧
        ∃ error, readDocument path w = (.error error, w) := by
  have hread : Action.attempt (Action.readText path) w =
      (.ok ((w.disk.readText w.cwd path).mapError Error.io), w) := by
    show ((.ok (Action.readText path w).1 : Except Error _), (Action.readText path w).2) = _
    rw [Action.readText_apply]
  unfold readDocument
  rw [Effect.bind_of_ok hread]
  cases htext : w.disk.readText w.cwd path with
  | error fault =>
    refine .inr ⟨?_, _, rfl⟩
    rintro root ⟨text, hfile, -⟩
    rw [htext] at hfile
    cases hfile
  | ok text =>
    have hfile : ∀ root, IsDocument w.disk w.cwd path root →
        Xml.parse? text.toList = some root ∧ root.name? = some "project" := by
      rintro root ⟨text', hfile, hroot, hname⟩
      rw [htext] at hfile
      cases hfile
      exact ⟨hroot, hname⟩
    cases hroot : Xml.parse? text.toList with
    | none =>
      refine .inr ⟨fun root hdocument => ?_, _, by simp only [Except.mapError, hroot]; rfl⟩
      have hparsed := (hfile root hdocument).1
      rw [hroot] at hparsed
      cases hparsed
    | some root =>
      by_cases hname : root.name?.getD "" = "project"
      · refine .inl ⟨root, ⟨text, htext, hroot, ?_⟩, ?_⟩
        · cases hroot : root.name? <;> simp_all
        · simp only [Except.mapError, hroot, hname, if_true]
          rfl
      · refine .inr ⟨fun root' hdocument => hname ?_,
          .descriptor path (.wrongRoot (root.name?.getD "")), ?_⟩
        · obtain ⟨hparsed, hproject⟩ := hfile root' hdocument
          obtain rfl : root = root' := Option.some.inj (hroot.symm.trans hparsed)
          rw [hproject]
          rfl
        · simp only [Except.mapError, hroot, hname, if_false]
          rfl

theorem parentPath_apply (path : Path) (parent : Xml.Node) (w : World) :
    parentPath path parent w = (.ok (parentAt w.disk w.cwd path parent), w) := by
  unfold parentPath parentAt
  dsimp only
  generalize (path.parent?.getD ⟨"."⟩).join _ = p
  rw [Effect.bind_of_ok (rfl : Action.isDirectory p w = (.ok (w.disk.isDirectory w.cwd p), w))]
  cases w.disk.isDirectory w.cwd p <;> rfl

/-- What comes of reading some descriptors: it fails if one of them has no document, and otherwise
    the documents of all are inherited. -/
def ReadsAll (w : World) (ps : List Path) (result : Except Error Descriptor) : Prop :=
  (∃ p ∈ ps, ∀ root, ¬ IsDocument w.disk w.cwd p root) ∧ (∃ error, result = .error error) ∨
    ∃ roots d, List.Forall₂ (IsDocument w.disk w.cwd) ps roots ∧ result = .ok d ∧ Inherits roots d

theorem readsAll_single {w : World} {path : Path} {root : Xml.Node}
    (h : IsDocument w.disk w.cwd path root) :
    ReadsAll w [path] (.ok (({} : Descriptor).extend root)) :=
  .inr ⟨[root], _, .cons h .nil, rfl, inherits_nil.extend root⟩

theorem readsAll_of_missing {w : World} {path : Path}
    (h : ∀ root, ¬ IsDocument w.disk w.cwd path root) (error : Error) :
    ReadsAll w [path] (.error error) :=
  .inl ⟨⟨path, List.mem_singleton_self path, h⟩, error, rfl⟩

/-- A descriptor inherits from those above it. -/
theorem ReadsAll.cons {w : World} {path : Path} {root : Xml.Node} {ps : List Path}
    {result : Except Error Descriptor} (hroot : IsDocument w.disk w.cwd path root)
    (h : ReadsAll w ps result) : ReadsAll w (path :: ps) (result.map (·.extend root)) := by
  rcases h with ⟨⟨p, hp, hmissing⟩, error, rfl⟩ | ⟨roots, d, hroots, rfl, hinherits⟩
  · exact .inl ⟨⟨p, List.mem_cons_of_mem _ hp, hmissing⟩, error, rfl⟩
  · exact .inr ⟨root :: roots, _, .cons hroot hroots, rfl, hinherits.extend root⟩

/-- A parent of a descriptor is one that its document names. -/
theorem IsParent.of_document {d : Disk} {cwd : Location} {path above : Path} {root : Xml.Node}
    (hroot : IsDocument d cwd path root) (h : IsParent d cwd path above) :
    ∃ parent, root.child? "parent" = some parent ∧ parentAt d cwd path parent = above ∧
      d.isFile cwd above = true := by
  obtain ⟨root', parent, hroot', hchild, hat, hfile⟩ := h
  obtain rfl := hroot.unique hroot'
  exact ⟨parent, hchild, hat, hfile⟩

theorem readChain_of_missing {limit : Nat} {path : Path} {w : World} {error : Error}
    (hread : readDocument path w = (.error error, w)) :
    readChain limit path w = (.error error, w) := by
  cases limit <;> rw [readChain, Effect.bind_of_error hread]

theorem readChain_cases (limit : Nat) : ∀ (path : Path) (w : World),
    ∃ ps result lines, IsLineage w.disk w.cwd limit path ps ∧ ReadsAll w ps result ∧
      readChain limit path w = (result, w.logged lines) := by
  induction limit with
  | zero =>
    intro path w
    rcases readDocument_cases path w with ⟨root, hroot, hread⟩ | ⟨hmissing, error, hread⟩
    · refine ⟨[path], _, [], .single (.inl rfl), readsAll_single hroot, ?_⟩
      rw [readChain, Effect.bind_of_ok hread, World.logged_nil]
      rfl
    · refine ⟨[path], _, [], .single (.inl rfl), readsAll_of_missing hmissing error, ?_⟩
      rw [readChain_of_missing hread, World.logged_nil]
  | succ limit ih =>
    intro path w
    rcases readDocument_cases path w with ⟨root, hroot, hread⟩ | ⟨hmissing, error, hread⟩
    · cases hchild : root.child? "parent" with
      | none =>
        refine ⟨[path], _, [], .single (.inr fun above habove => ?_), readsAll_single hroot, ?_⟩
        · obtain ⟨parent, hsome, -⟩ := habove.of_document hroot
          rw [hchild] at hsome
          cases hsome
        · rw [readChain, Effect.bind_of_ok hread, hchild, World.logged_nil]
          rfl
      | some parent =>
        rw [readChain, Effect.bind_of_ok hread, hchild]
        simp only
        rw [Effect.bind_of_ok (parentPath_apply path parent w)]
        generalize hat : parentAt w.disk w.cwd path parent = above
        rw [Effect.bind_of_ok (rfl : Action.isFile above w = (.ok (w.disk.isFile w.cwd above), w))]
        cases hfile : w.disk.isFile w.cwd above with
        | true =>
          obtain ⟨ps, result, lines, hlineage, hreads, hchain⟩ := ih above w
          refine ⟨path :: ps, _, lines, .cons ⟨root, parent, hroot, hchild, hat, hfile⟩ hlineage,
            hreads.cons hroot, ?_⟩
          rw [if_pos rfl]
          cases result with
          | error error => rw [Effect.bind_of_error hchain]; rfl
          | ok above => rw [Effect.bind_of_ok hchain]; rfl
        | false =>
          refine ⟨[path], _, [⟨.debug, s!"Parent descriptor {above.text} not found"⟩],
            .single (.inr fun above' habove => ?_), readsAll_single hroot, ?_⟩
          · obtain ⟨parent', hsome, hat', hfile'⟩ := habove.of_document hroot
            obtain rfl : parent = parent' := Option.some.inj (hchild.symm.trans hsome)
            obtain rfl : above = above' := hat.symm.trans hat'
            rw [hfile] at hfile'
            cases hfile'
          · rw [if_neg (by simp), Effect.bind_of_ok (Action.debug_apply _ w)]
            rfl
    · refine ⟨[path], _, [], .single (.inr fun above habove => ?_),
        readsAll_of_missing hmissing error, ?_⟩
      · obtain ⟨root, _, hroot, -⟩ := habove
        exact hmissing root hroot
      · rw [readChain_of_missing hread, World.logged_nil]

end Tracepoint.Maven
