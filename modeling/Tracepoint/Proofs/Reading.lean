import Tracepoint.Maven.Resolver
import Tracepoint.Proofs.Effects

/-!
# Actions that only read

Resolving a classpath and indexing it reads files and writes log lines. Nothing of it
changes the disk or the current directory, whatever the descriptors and archives hold. This
is shown once for every relation between worlds that does not depend on their logs.

Results:

* `Maven.keeps_readProject`: reading a project only logs, and so does a resolver that knows
  every dependency already (`Maven.keeps_fixed`).
* `Maven.Resolver.keeps_classpath`, `ClasspathIndex.keeps_build`: what a resolver keeps and log
  lines keep, resolving and indexing keep.
-/

namespace Tracepoint

/-! ## Relations between worlds -/

/-- A relation between worlds that holds whatever is logged. -/
class World.IgnoresLog (R : World → World → Prop) : Prop extends Std.Refl R, IsTrans World R where
  log : ∀ (w : World) (line : LogLine), R w { w with log := w.log ++ [line] }

/-- The disk stays as it is. -/
def World.SameDisk (w w' : World) : Prop := w'.disk = w.disk

instance : World.IgnoresLog World.SameDisk where
  refl := fun _ => rfl
  trans := fun _ _ _ h h' => h'.trans h
  log := fun _ _ => rfl

/-- The disk and the current directory stay as they are. -/
structure World.SamePlace (w w' : World) : Prop where
  disk : w'.disk = w.disk
  cwd : w'.cwd = w.cwd

instance : World.IgnoresLog World.SamePlace where
  refl := fun _ => ⟨rfl, rfl⟩
  trans := fun _ _ _ h h' => ⟨h'.disk.trans h.disk, h'.cwd.trans h.cwd⟩
  log := fun _ _ => ⟨rfl, rfl⟩

variable {α β : Type} {R : World → World → Prop} [World.IgnoresLog R]

namespace Effect.Keeps

omit [World.IgnoresLog R] in
theorem attempt {a : Action α} (ha : Keeps R a) : Keeps R (Action.attempt a) := fun w => ha w

theorem get : Keeps R (MonadState.get : Action World) := fun w => Std.Refl.refl w

theorem log (level : LogLevel) (text : String) : Keeps R (Action.log level text) :=
  fun w => World.IgnoresLog.log w ⟨level, text⟩

theorem ofFault (r : Except Fault α) : Keeps R (Action.ofFault r) := by
  cases r with
  | ok a => exact pure a
  | error e => exact throw _

theorem foldlM {f : β → α → Action β} (hf : ∀ b x, Keeps R (f b x)) (xs : List α) :
    ∀ b, Keeps R (xs.foldlM f b) := by
  induction xs with
  | nil => exact fun b => pure b
  | cons x xs ih =>
    intro b
    rw [List.foldlM_cons]
    exact bind (hf b x) ih

theorem isFile (p : Path) : Keeps R (Action.isFile p) := bind get fun _ => pure _

theorem isDirectory (p : Path) : Keeps R (Action.isDirectory p) := bind get fun _ => pure _

theorem read (p : Path) : Keeps R (Action.read p) := bind get fun _ => ofFault _

theorem readText (p : Path) : Keeps R (Action.readText p) := bind get fun _ => ofFault _

theorem absolute (p : Path) : Keeps R (Action.absolute p) := by
  refine bind (bind get fun _ => pure _) fun here => ?_
  cases Path.absolute? here p with
  | some q => exact pure q
  | none => exact throw _

end Effect.Keeps

open Effect (Keeps)

/-- Wherever an action starts, it leaves the disk as it is. -/
def Action.ReadsOnly (a : Action α) : Prop := Keeps World.SameDisk a

namespace Maven

/-! ## Descriptors -/

theorem keeps_readDocument (path : Path) : Keeps R (readDocument path) := by
  refine .bind (.attempt (.readText path)) fun text => ?_
  split
  · exact .throw _
  · exact .throw _
  · split
    · exact .throw _
    · dsimp only
      split_ifs
      · exact .pure _
      · exact .throw _

theorem keeps_parentPath (path : Path) (parent : Xml.Node) :
    Keeps R (parentPath path parent) := by
  refine .bind (.isDirectory _) fun isDirectory => ?_
  split_ifs
  · exact .pure _
  · exact .pure _

theorem keeps_readChain (parents : Nat) : ∀ path, Keeps R (readChain parents path) := by
  induction parents with
  | zero =>
    intro path
    rw [readChain]
    exact .bind (keeps_readDocument path) fun _ => .pure _
  | succ parents ih =>
    intro path
    rw [readChain]
    refine .bind (keeps_readDocument path) fun root => ?_
    split
    · refine .bind (keeps_parentPath path _) fun p => .bind (.isFile p) fun isFile => ?_
      split_ifs
      · exact .bind (ih p) fun _ => .pure _
      · exact .bind (.log _ _) fun _ => .pure _
    · exact .pure _

theorem keeps_readProject (path : Path) : Keeps R (readProject path) := by
  refine .bind (.isFile path) fun isFile => ?_
  split_ifs
  · exact .bind (keeps_readChain maxParents path) fun _ => .bind .get fun _ => .pure _
  · exact .throw _

/-! ## Resolvers -/

/-- Wherever a resolver is asked, a relation holds between the worlds before and after it. -/
structure Resolver.Keeps (R : World → World → Prop) (r : Resolver) : Prop where
  project : ∀ path, Effect.Keeps R (r.project path)
  locate : ∀ d, Effect.Keeps R (r.locate d)

/-- A resolver that leaves the disk as it is. -/
structure Resolver.ReadsOnly (r : Resolver) : Prop where
  project : ∀ path, (r.project path).ReadsOnly
  locate : ∀ d, (r.locate d).ReadsOnly

theorem Resolver.ReadsOnly.keeps {r : Resolver} (h : r.ReadsOnly) : r.Keeps World.SameDisk :=
  ⟨h.project, h.locate⟩

theorem keeps_fixed (dependencies : List (Dependency × Option Path)) :
    (Resolver.fixed dependencies).Keeps R :=
  ⟨fun _ => .pure _, fun _ => .pure _⟩

theorem Resolver.keeps_classpath {r : Resolver} (hr : r.Keeps R) (manifest : Path)
    (manual : List Path) : Effect.Keeps R (r.classpath manifest manual) := by
  have hadd : ∀ (c : Classpath) (d : Dependency), Effect.Keeps R (r.addDependency c d) := by
    intro c d
    refine .bind (hr.locate d) fun found => ?_
    split
    · exact .pure _
    · exact .bind (.log _ _) fun _ => .pure _
  exact .bind (hr.project manifest) fun _ => .bind (.foldlM hadd _ _) fun _ =>
    .bind (.log _ _) fun _ => .pure _

end Maven

/-! ## The index -/

namespace ClasspathIndex

theorem keeps_addDirectory (i : ClasspathIndex) (root : Path) :
    Keeps R (i.addDirectory root) := by
  refine .bind .get fun w => ?_
  split
  · exact .pure _
  · refine .foldlM (fun i reached => ?_) _ _
    split
    · exact .pure _
    · exact .bind (.log _ _) fun _ => .pure _

theorem keeps_addArchive (i : ClasspathIndex) (p : Path) : Keeps R (i.addArchive p) := by
  refine .bind (.read p) fun content => ?_
  split
  · exact .pure _
  · exact .throw _

theorem keeps_addPath (i : ClasspathIndex) (p : Path) : Keeps R (i.addPath p) := by
  refine .bind (.isDirectory p) fun isDirectory => ?_
  split_ifs
  · exact keeps_addDirectory i p
  · refine .bind (.isFile p) fun isFile => ?_
    split_ifs
    · refine .bind (.attempt (keeps_addArchive i p)) fun added => ?_
      split
      · exact .pure _
      · exact .bind (.log _ _) fun _ => .pure _
    · exact .bind (.log _ _) fun _ => .pure _

theorem keeps_build (c : Classpath) : Keeps R (ClasspathIndex.build c) :=
  .bind (.foldlM keeps_addPath _ _) fun _ => .bind (.log _ _) fun _ => .pure _

end ClasspathIndex

end Tracepoint
