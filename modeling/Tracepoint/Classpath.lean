import Tracepoint.Archive
import Tracepoint.Datum
import Tracepoint.Source.Import
import Tracepoint.World

/-!
# Classpaths

A classpath is an ordered list of paths without repetition. Its index knows the
classes and packages that the archives and directories on it hold.

Results:

* `push_fst_iff`: a path is added exactly when it was not there.
* `noTwins_push`: adding keeps the entries pairwise different.
-/

namespace Tracepoint

open Text

/-! ## The list -/

/-- Paths in order, no two with the same components. -/
structure Classpath where
  entries : List Path := []
deriving DecidableEq, Repr, Inhabited

namespace Classpath

def contains (c : Classpath) (p : Path) : Bool := c.entries.any (·.same p)

/-- Adds a path at the end, and says whether it was new. -/
def push (c : Classpath) (p : Path) : Bool × Classpath :=
  if c.contains p then (false, c) else (true, ⟨c.entries ++ [p]⟩)

/-- The paths of a list in order, without repetition. -/
def ofList (ps : List Path) : Classpath := ps.foldl (fun c p => (c.push p).2) {}

def size (c : Classpath) : Nat := c.entries.length

def isEmpty (c : Classpath) : Bool := c.entries.isEmpty

/-- The entries with colons between them. -/
def joined (c : Classpath) : String := String.intercalate ":" (c.entries.map (·.text))

/-- Reads the entries as they are listed. -/
def decode : Decoder Classpath := fun d => do
  let f ← Fields.of? ["entries"] true d
  return ⟨← f.required "entries" (Decoder.list Decoder.path)⟩

/-- Lists the entries. -/
def encode (c : Classpath) : Datum := .record [("entries", .list (c.entries.map (.text ·.text)))]

theorem push_fst_iff (c : Classpath) (p : Path) :
    (c.push p).1 = true ↔ c.contains p = false := by
  by_cases h : c.contains p <;> simp [push, h]

/-- No two entries have the same components. -/
def NoTwins (c : Classpath) : Prop := c.entries.Pairwise fun a b => a.same b = false

theorem noTwins_push {c : Classpath} (h : c.NoTwins) (p : Path) : (c.push p).2.NoTwins := by
  by_cases hc : c.contains p
  · simpa [push, hc] using h
  · have hp : (c.push p).2 = ⟨c.entries ++ [p]⟩ := by simp [push, hc]
    simp only [contains, List.any_eq_true, not_exists, not_and, Bool.not_eq_true] at hc
    rw [hp]
    refine List.pairwise_append.2 ⟨h, List.pairwise_singleton _ _, ?_⟩
    intro a ha b hb
    rw [List.mem_singleton.1 hb]
    exact hc a ha

end Classpath

/-! ## The index -/

/-- The classes and packages that can be reached. -/
structure ClasspathIndex where
  classes : List String := []
  packages : List String := []
deriving DecidableEq, Repr, Inhabited

namespace ClasspathIndex

/-- A list with an element added at the end, unless it is there. -/
def insertNew (x : String) (xs : List String) : List String :=
  if xs.contains x then xs else xs ++ [x]

/-- The stem of the name of a class or source file that counts. -/
def stem? (name : List Char) : Option (List Char) := do
  let stem ← (dropEnd? ".class".toList name).orElse fun _ => dropEnd? ".java".toList name
  if startsWith "META-INF/".toList stem || endsWith "module-info".toList stem ||
      endsWith "package-info".toList stem then none
  else some stem

/-- The package and the name of the class that a file with a stem holds. Nested classes are
    named with dots. -/
def classOf (stem : List Char) : List Char × List Char :=
  let dotted := stem.map fun c => if c = '/' then '.' else c
  let (package, simple) := (splitLast? '.' dotted).getD ([], dotted)
  let name := simple.map fun c => if c = '$' then '.' else c
  (package, if package.isEmpty then name else package ++ '.' :: name)

/-- The index with the file of a given name added. -/
def addEntry (i : ClasspathIndex) (name : String) : ClasspathIndex :=
  match stem? name.toList with
  | none => i
  | some stem =>
    let (package, qualified) := classOf stem
    { classes := insertNew (String.ofList qualified) i.classes
      packages :=
        if package.isEmpty then i.packages else insertNew (String.ofList package) i.packages }

def addEntries (i : ClasspathIndex) (names : List String) : ClasspathIndex :=
  names.foldl addEntry i

def hasClass (i : ClasspathIndex) (name : String) : Bool := i.classes.contains name

def hasPackage (i : ClasspathIndex) (name : String) : Bool := i.packages.contains name

def size (i : ClasspathIndex) : Nat := i.classes.length

def isEmpty (i : ClasspathIndex) : Bool := i.classes.isEmpty

end ClasspathIndex

/-! ## Indexing what is on disk -/

namespace Disk

/-- A file met below a directory, by the names that lead to it, or something that could not
    be followed. -/
inductive Reached where
  | file (names : List String)
  | broken (path : Path) (text : String)
deriving Repr, Inhabited

variable (d : Disk)

/-- The files below a directory, links followed. A link back to a directory around it is
    not followed. `depth` bounds the number of levels. -/
def filesBelow : Nat → List (Location × Path) → List String → Path → Location → List Reached
  | 0, _, _, _, _ => []
  | depth + 1, around, names, path, loc =>
    (d.names loc).flatMap fun name =>
      let p := path.join ⟨name⟩
      let target := do
        let there ← d.resolve loc ⟨name⟩ true
        match d.lookup there with
        | some e => return (there, e)
        | none => .error Fault.notFound
      match target with
      | .error e => [.broken p s!"IO error for operation on {p.text}: {e.message}"]
      | .ok (there, .directory) =>
        match ((loc, path) :: around).find? (·.1 = there) with
        | some (_, above) =>
          [.broken p s!"File system loop found: {p.text} points to an ancestor {above.text}"]
        | none => filesBelow depth ((loc, path) :: around) (names ++ [name]) p there
      | .ok _ => [.file (names ++ [name])]

end Disk

namespace ClasspathIndex

/-- Adds the files below a directory. -/
def addDirectory (i : ClasspathIndex) (root : Path) : Action ClasspathIndex := do
  let w ← get
  match w.disk.resolve w.cwd root true with
  | .error _ => return i
  | .ok loc =>
    let reached := w.disk.filesBelow (w.disk.entries.length + 1) [] [] root loc
    reached.foldlM
      (fun i r =>
        match r with
        | .file names => pure (i.addEntry (String.intercalate "/" names))
        | .broken path text => do
          Action.warn s!"Skipping {path.text} in classpath directory: {text}"
          return i)
      i

/-- Adds the entries of an archive. -/
def addArchive (i : ClasspathIndex) (p : Path) : Action ClasspathIndex := do
  match Archive.names? (← Action.read p) with
  | some names => return i.addEntries names
  | none => throw (.archive p "invalid Zip archive")

/-- Adds what an entry of a classpath holds. What cannot be read is skipped. -/
def addPath (i : ClasspathIndex) (p : Path) : Action ClasspathIndex := do
  if ← Action.isDirectory p then i.addDirectory p
  else if ← Action.isFile p then
    match ← Action.attempt (i.addArchive p) with
    | .ok i' => return i'
    | .error e =>
      Action.warn s!"Skipping classpath entry {p.text}: {e.message}"
      return i
  else
    Action.warn s!"Classpath entry not found: {p.text}"
    return i

/-- The index of a classpath. -/
def build (c : Classpath) : Action ClasspathIndex := do
  let i ← c.entries.foldlM addPath {}
  Action.debug
    s!"Classpath index: {i.classes.length} classes in {i.packages.length} packages"
  return i

end ClasspathIndex

end Tracepoint
