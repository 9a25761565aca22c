import Tracepoint.Path

/-!
# The file system

A disk maps locations to files, directories and symbolic links. A location is
the list of names from the root down; a path leads to a location by following
its components and the links on the way.

Every operation gives a new disk or the fault that stopped it.

Results:

* `lookup_put_self`, `lookup_put_of_ne`: writing at a location changes nothing
  elsewhere.
-/

namespace Tracepoint

open Text

/-- Why an operation on the file system fails. -/
inductive Fault where
  | notFound
  | permissionDenied
  | exists
  | notDirectory
  | isDirectory
  | nameTooLong
  | linkLoop
  | invalidText
  | notRegular
  | emptyPath
  | wholeTree
  | zeroByte
  | rootMissing (path : Path)
deriving DecidableEq, Repr, Inhabited

/-- What a fault is called. -/
def Fault.words : Fault → String
  | .notFound => "No such file or directory"
  | .permissionDenied => "Permission denied"
  | .exists => "File exists"
  | .notDirectory => "Not a directory"
  | .isDirectory => "Is a directory"
  | .nameTooLong => "File name too long"
  | .linkLoop => "Too many levels of symbolic links"
  | .invalidText => "stream did not contain valid UTF-8"
  | .notRegular =>
    "the source path is neither a regular file nor a symlink to a regular file"
  | .emptyPath => "cannot make an empty path absolute"
  | .wholeTree => "failed to create whole tree"
  | .zeroByte => "file name contained an unexpected NUL byte"
  | .rootMissing path => "source root not found: " ++ path.text

/-- The number that the system gives to a fault of its own. -/
def Fault.number? : Fault → Option Nat
  | .notFound => some 2
  | .permissionDenied => some 13
  | .exists => some 17
  | .notDirectory => some 20
  | .isDirectory => some 21
  | .nameTooLong => some 36
  | .linkLoop => some 40
  | _ => none

/-- The text of a fault: its name, and its number if it has one. -/
def Fault.message (f : Fault) : String :=
  match f.number? with
  | some n => s!"{f.words} (os error {n})"
  | none => f.words

/-- The names from the root down to something. -/
abbrev Location := List String

/-- What can lie at a location. -/
inductive Entry where
  | file (content : ByteArray)
  | directory
  | link (target : Path)
deriving Inhabited

/-- The entries of a file system. The root directory is always there. -/
structure Disk where
  entries : List (Location × Entry) := []
deriving Inhabited

namespace Disk

/-! ## Entries -/

def lookup (d : Disk) (loc : Location) : Option Entry :=
  if loc = [] then some .directory else d.entries.lookup loc

/-- Entries with one location set. -/
def putIn (loc : Location) (e : Entry) : List (Location × Entry) → List (Location × Entry)
  | [] => [(loc, e)]
  | (l, x) :: rest => if l = loc then (l, e) :: rest else (l, x) :: putIn loc e rest

def put (d : Disk) (loc : Location) (e : Entry) : Disk := ⟨putIn loc e d.entries⟩

theorem lookup_putIn_self (loc : Location) (e : Entry) (es : List (Location × Entry)) :
    (putIn loc e es).lookup loc = some e := by
  induction es with
  | nil => simp [putIn]
  | cons x es ih =>
    obtain ⟨l, y⟩ := x
    by_cases h : l = loc
    · simp [putIn, h]
    · simp [putIn, h, List.lookup_cons, ih, beq_eq_false_iff_ne.2 (Ne.symm h)]

theorem lookup_putIn_of_ne {loc other : Location} (h : other ≠ loc) (e : Entry)
    (es : List (Location × Entry)) : (putIn loc e es).lookup other = es.lookup other := by
  induction es with
  | nil => simp [putIn, List.lookup_cons, beq_eq_false_iff_ne.2 h]
  | cons x es ih =>
    obtain ⟨l, y⟩ := x
    by_cases hl : l = loc
    · subst hl
      simp [putIn, List.lookup_cons, beq_eq_false_iff_ne.2 h]
    · simp [putIn, hl, List.lookup_cons, ih]

theorem lookup_put_self (d : Disk) {loc : Location} (h : loc ≠ []) (e : Entry) :
    (d.put loc e).lookup loc = some e := by
  simp [lookup, put, h, lookup_putIn_self]

theorem lookup_put_of_ne (d : Disk) {loc other : Location} (h : other ≠ loc) (e : Entry) :
    (d.put loc e).lookup other = d.lookup other := by
  simp [lookup, put, lookup_putIn_of_ne h]

/-- The disk without a location and all below it. -/
def erase (d : Disk) (loc : Location) : Disk :=
  ⟨d.entries.filter fun e => !loc.isPrefixOf e.1⟩

/-- Sorted names with one more at its place. -/
def placeName (n : String) : List String → List String
  | [] => [n]
  | m :: ms => if n ≤ m then n :: m :: ms else m :: placeName n ms

/-- The names in a directory, sorted by their bytes. -/
def names (d : Disk) (loc : Location) : List String :=
  let below := d.entries.filterMap fun e =>
    match e.1.getLast? with
    | some n => if e.1.dropLast = loc then some n else none
    | none => none
  below.foldr placeName []

/-! ## Following paths -/

/-- The names that a path leads through. A slash at the end leads to the directory
    itself. -/
def steps (p : Path) : List String :=
  let pieces := (splitAll '/' p.text.toList).filter (· ≠ [])
  pieces.map String.ofList ++ (if endsWith ['/'] p.text.toList then ["."] else [])

/-- Follows names from a location up to the first link, from where `jump` goes on. A link at
    the very end is followed only if `follow`. The end need not exist. -/
def walkNames (d : Disk) (follow : Bool) (jump : Location → List String → Except Fault Location) :
    Location → List String → Except Fault Location
  | loc, [] => .ok loc
  | loc, n :: ns =>
    match d.lookup loc with
    | none => .error .notFound
    | some (.file _) => .error .notDirectory
    | some (.link _) => .error .notDirectory
    | some .directory =>
      if n = "." then walkNames d follow jump loc ns
      else if n = ".." then walkNames d follow jump loc.dropLast ns
      else if n.utf8ByteSize > 255 then .error .nameTooLong
      else
        match d.lookup (loc ++ [n]) with
        | some (.link target) =>
          if ns = [] && !follow then .ok (loc ++ [n])
          else jump (if target.isAbsolute then [] else loc) (steps target ++ ns)
        | some _ => walkNames d follow jump (loc ++ [n]) ns
        | none => if ns = [] then .ok (loc ++ [n]) else .error .notFound

/-- Follows names and the links on the way. `links` bounds the number of links. -/
def walk (d : Disk) (follow : Bool) : Nat → Location → List String → Except Fault Location
  | 0 => d.walkNames follow fun _ _ => .error .linkLoop
  | links + 1 => d.walkNames follow (d.walk follow links)

/-- The most links that are followed on the way to a location. -/
def maxLinks : Nat := 40

/-- The location that a path leads to from the directory `cwd`. -/
def resolve (d : Disk) (cwd : Location) (p : Path) (follow : Bool) : Except Fault Location :=
  if p.isEmpty then .error .notFound
  else if p.text.toList.contains '\x00' then .error .zeroByte
  else walk d follow maxLinks (if p.isAbsolute then [] else cwd) (steps p)

/-- What a path leads to, links followed. -/
def entryAt (d : Disk) (cwd : Location) (p : Path) : Except Fault Entry := do
  match d.lookup (← d.resolve cwd p true) with
  | some e => return e
  | none => .error .notFound

/-! ## Asking -/

def isFile (d : Disk) (cwd : Location) (p : Path) : Bool :=
  match d.entryAt cwd p with
  | .ok (.file _) => true
  | _ => false

def isDirectory (d : Disk) (cwd : Location) (p : Path) : Bool :=
  match d.entryAt cwd p with
  | .ok .directory => true
  | _ => false

/-- The bytes of a file. -/
def read (d : Disk) (cwd : Location) (p : Path) : Except Fault ByteArray := do
  match ← d.entryAt cwd p with
  | .file content => return content
  | _ => .error .isDirectory

/-- The text of a file. -/
def readText (d : Disk) (cwd : Location) (p : Path) : Except Fault String := do
  match String.fromUTF8? (← d.read cwd p) with
  | some text => return text
  | none => .error .invalidText

/-! ## Changing -/

/-- Where the directory that holds the last name of a path lies. -/
def resolveParent (d : Disk) (cwd : Location) (p : Path) : Except Fault Location :=
  let pieces := ((splitAll '/' p.text.toList).filter (· ≠ [])).map String.ofList
  d.walk true maxLinks (if p.isAbsolute then [] else cwd) pieces.dropLast

/-- Creates a file or replaces its content. A path that ends in a slash names a directory. -/
def write (d : Disk) (cwd : Location) (p : Path) (content : ByteArray) : Except Fault Disk := do
  if endsWith ['/'] p.text.toList then
    match d.lookup (← d.resolveParent cwd p) with
    | some .directory => throw .isDirectory
    | some _ => throw .notDirectory
    | none => throw .notFound
  let loc ← d.resolve cwd p true
  match d.lookup loc with
  | some .directory => .error .isDirectory
  | _ => return d.put loc (.file content)

/-- Creates one directory. -/
def makeDirectory (d : Disk) (cwd : Location) (p : Path) : Except Fault Disk := do
  let pieces := ((splitAll '/' p.text.toList).filter (· ≠ [])).map String.ofList
  let start := if p.isAbsolute then [] else cwd
  if p.isEmpty then .error .notFound
  else if p.text.toList.contains '\x00' then .error .zeroByte
  else
    let home ← d.walk true maxLinks start pieces.dropLast
    match d.lookup home, pieces.getLast? with
    | none, _ => .error .notFound
    | some .directory, none => .error .exists
    | some .directory, some n =>
      if n = "." || n = ".." then .error .exists
      else if n.utf8ByteSize > 255 then .error .nameTooLong
      else
        match d.lookup (home ++ [n]) with
        | some _ => .error .exists
        | none => return d.put (home ++ [n]) .directory
    | some _, _ => .error .notDirectory

/-- Creates a directory and what is missing above it. `depth` bounds the number of
    directories to create. -/
def makeDirectoriesUpTo (d : Disk) (cwd : Location) : Nat → Path → Except Fault Disk
  | 0, _ => .error .wholeTree
  | depth + 1, p =>
    if p.isEmpty then .ok d
    else
      match d.makeDirectory cwd p with
      | .ok d' => .ok d'
      | .error .notFound =>
        match p.parent? with
        | none => .error .wholeTree
        | some above =>
          match makeDirectoriesUpTo d cwd depth above with
          | .error e => .error e
          | .ok d' =>
            match d'.makeDirectory cwd p with
            | .ok d'' => .ok d''
            | .error e => if d'.isDirectory cwd p then .ok d' else .error e
      | .error e => if d.isDirectory cwd p then .ok d else .error e

def makeDirectories (d : Disk) (cwd : Location) (p : Path) : Except Fault Disk :=
  makeDirectoriesUpTo d cwd (p.components.length + 2) p

/-- Copies a regular file. A file copied onto itself is emptied first. -/
def copy (d : Disk) (cwd : Location) (source target : Path) : Except Fault Disk := do
  match ← d.entryAt cwd source with
  | .file content =>
    let emptied ← d.write cwd target ByteArray.empty
    let origin ← d.resolve cwd source true
    let loc ← d.resolve cwd target true
    if origin = loc then return emptied else return emptied.put loc (.file content)
  | _ => .error .notRegular

end Disk

end Tracepoint
