import Std.Data.HashSet
import Tracepoint.Cli.Program

/-!
# The executable

Reads the part of the file system that a command line is about, lets the program
do its work on it, and writes back what changed. All decisions are the program's.
-/

namespace Tracepoint.Host

/-- How deep directories are read. -/
def maxDepth : Nat := 64

/-- The names that a path from the root leads through. -/
def locationOf (path : String) : Location :=
  ((Text.splitAll '/' path.toList).filter (· ≠ [])).map String.ofList

/-- The directories around a location, from the root down. -/
def above (loc : Location) : List (Location × Entry) :=
  (List.range loc.length).map fun n => (loc.take n, .directory)

/-- Reads what lies at a path, at most `depth` levels down. A link leads to where it ends. -/
def read : Nat → String → IO (List (Location × Entry))
  | 0, _ => return []
  | depth + 1, path => do
    let real ← IO.FS.realPath path
    if real.toString ≠ path then
      let target ← read depth real.toString
      return (locationOf path, .link ⟨real.toString⟩) :: above (locationOf real.toString) ++ target
    else if ← real.isDir then
      let inner ← (← real.readDir).toList.mapM fun e => read depth e.path.toString
      return (locationOf path, .directory) :: inner.flatten
    else if ← real.pathExists then
      return [(locationOf path, .file (← IO.FS.readBinFile path))]
    else return []

/-- The names of files that say what is ignored. -/
def ruleFiles : List String := [".gitignore", ".ignore", ".git/info/exclude"]

/-- Reads the directories around a location and the rules in them. -/
def readAbove (loc : Location) : IO (List (Location × Entry)) := do
  let rules ← (above loc).mapM fun (l, _) => ruleFiles.mapM fun name => do
    let path := "/" ++ String.intercalate "/" (l ++ [name])
    try
      return [(locationOf path, Entry.file (← IO.FS.readBinFile path))]
    catch _ => return []
  return above loc ++ rules.flatten.flatten

/-- The paths that the arguments of a command line name, also after `=`, and those that are
    always of interest. -/
def namedPaths (args : List String) (environment : List (String × String)) : List Path :=
  let values := args.map fun a =>
    ((Text.splitFirst? '=' a.toList).map fun p => String.ofList p.2).getD a
  let repository := (environment.lookup "M2_REPO").map Path.mk
  let home := (environment.lookup "HOME").map fun h => (⟨h⟩ : Path).join ⟨".m2/repository"⟩
  (⟨"."⟩ :: values.map Path.mk) ++ (repository.or home).toList

/-- Entries without those at a location that is there already. -/
def distinct (entries : List (Location × Entry)) : List (Location × Entry) :=
  let start : Std.HashSet Location × List (Location × Entry) := ({[]}, [])
  let (_, kept) := entries.foldl (fun (seen, kept) e =>
    if seen.contains e.1 then (seen, kept) else (seen.insert e.1, e :: kept)) start
  kept.reverse

/-- The disk as far as a command line is about it. -/
def readDisk (cwd : Path) (paths : List Path) : IO Disk := do
  let found ← paths.mapM fun p => do
    match Path.absolute? cwd p with
    | none => return []
    | some q =>
      let around ← readAbove (locationOf q.text)
      try
        return around ++ (← read maxDepth q.text)
      catch _ => return around
  return ⟨distinct found.flatten⟩

/-- Whether an entry is as it was before. -/
def unchanged (before : Option Entry) (now : Entry) : Bool :=
  match before, now with
  | some (.file a), .file b => a.data = b.data
  | some .directory, .directory => true
  | some (.link _), .link _ => true
  | _, _ => false

/-- Writes back what changed. -/
def writeBack (before now : Disk) : IO Unit :=
  for (loc, entry) in now.entries do
    if !unchanged (before.lookup loc) entry then
      let path := "/" ++ String.intercalate "/" loc
      match entry with
      | .directory => IO.FS.createDirAll path
      | .file content => IO.FS.writeBinFile path content
      | .link _ => pure ()

/-- The environment variables that the program looks up. -/
def readVariables : IO (List (String × String)) := do
  let found ← ["HOME", "M2_REPO"].mapM fun name => do
    return (← IO.getEnv name).map fun value => (name, value)
  return found.filterMap id

end Tracepoint.Host

open Tracepoint in
/-- Runs the program on the real file system. -/
def main (args : List String) : IO UInt32 := do
  let environment ← Host.readVariables
  let cwd : Path := ⟨(← IO.currentDir).toString⟩
  let disk ← Host.readDisk cwd (Host.namedPaths args environment)
  let world : World := { disk := disk, cwd := Host.locationOf cwd.text, environment := environment }
  let (exit, after) := Cli.execute args world
  Host.writeBack disk after.disk
  for line in after.log do
    if line.level ≠ .debug then IO.println s!"{line.level.label} {line.text}"
  IO.print after.printed
  if exit.complaint ≠ "" then IO.eprintln exit.complaint
  return exit.code.toUInt32
