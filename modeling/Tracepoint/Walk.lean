import Tracepoint.Ignore.Rules
import Tracepoint.Language
import Tracepoint.World

/-!
# Walking a source tree

Lists what lies below a directory, a directory before its content and siblings
in the order of their names. Hidden entries and those that ignore files name are
left out, and links to directories are not followed.
-/

namespace Tracepoint

open Ignore

/-- An entry met on a walk. -/
structure Found where
  path : Path
  location : Location
  entry : Entry
deriving Inhabited

/-- What a walk leaves out beside hidden and ignored entries, and whether the rules of
    version control count outside of trees under version control. -/
structure WalkOptions where
  anywhere : Bool := false
  skip : Path → Bool := fun _ => false

namespace Disk

variable (d : Disk)

/-- The length of the longest location. -/
def height : Nat := (d.entries.map (·.1.length)).foldl max 0

/-- What lies below a directory, at most `depth` levels down. -/
def below (options : WalkOptions) : Nat → RuleChain → Path → Location → List Found
  | 0, _, _, _ => []
  | depth + 1, chain, path, loc =>
    (d.names loc).flatMap fun name =>
      let here := loc ++ [name]
      let p := path.join ⟨name⟩
      match d.lookup here with
      | none => []
      | some .directory =>
        if chain.passesOver options.anywhere here true || options.skip p then []
        else
          let rules := DirectoryRules.ofDirectory d here
          ⟨p, here, .directory⟩ :: below options depth (rules :: chain) p here
      | some e =>
        if chain.passesOver options.anywhere here false || options.skip p then []
        else [⟨p, here, e⟩]

/-- What lies below the directory that a path leads to. -/
def walkFrom (cwd : Location) (options : WalkOptions) (root : Path) : List Found :=
  match d.resolve cwd root true with
  | .error _ => []
  | .ok loc => d.below options (d.height + 1) (RuleChain.ofDirectory d loc) root loc

/-- Whether the ignore files above the directory that a path leads to are well formed. -/
def rulesAbove (cwd : Location) (root : Path) : Bool :=
  match d.resolve cwd root true with
  | .error _ => true
  | .ok loc => loc = [] || (RuleChain.ofDirectory d loc.dropLast).all (·.wellFormed)

end Disk

/-- The files of supported languages at or below a path. -/
def sourceFiles (registry : Registry) (root : Path) : Action (List Path) := do
  let w ← get
  if w.disk.isFile w.cwd root then
    return if registry.supports root then [root] else []
  else if !w.disk.isDirectory w.cwd root then throw (.io (.rootMissing root))
  else if !w.disk.rulesAbove w.cwd root then
    let text := "malformed pattern in an ignore file"
    Action.warn s!"Failed to walk source tree: {text}"
    throw (.walk text)
  else
    let found := (w.disk.walkFrom w.cwd {} root).map (·.path)
    return found.filter fun p => w.disk.isFile w.cwd p && registry.supports p

end Tracepoint
