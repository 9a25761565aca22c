import Tracepoint.Instrument.Instrumenter

/-!
# The output directory

Preparing the output means to create it, to copy the project if that is asked for,
and to copy the files of the logger. Beside the sources it gets a log directory
with the id file and the properties of the logger.

A project is copied while it is walked over, so a copy can meet files that it has written
itself. A path that grows in that way ends at the longest one that the system follows.
-/

namespace Tracepoint.Instrument

open Config

/-! ## Copying the project -/

/-- The most bytes that a path can have which leads anywhere. -/
def maxPath : Nat := 4095

/-- Whether a path is too long to lead anywhere. -/
def isTooLong (p : Path) : Bool := maxPath < p.text.utf8ByteSize

/-- Fails for a path that is too long. -/
def checkLength (p : Path) : Action Unit :=
  if isTooLong p then throw (.io .nameTooLong) else pure ()

/-- Copies one file of a project, and says whether it did. -/
def copyEntry (project outputDir : Path) (found : Found) : Action Bool := do
  match found.entry, Path.relativeTo? project found.path with
  | .file _, some relative =>
    let target := outputDir.join relative
    target.parent?.forM checkLength
    Action.makeParent target
    checkLength found.path
    checkLength target
    Action.copy found.path target
    return true
  | _, _ => return false

/-- Warns of something in a project that cannot be read. -/
def warnUnreadable (project : Path) (what : String) : Action Unit :=
  Action.warn s!"Skipping unreadable entry under {project.text}: {what}"

/-- Warns of a fault at a path in a project. -/
def warnOfFault (project p : Path) (fault : Fault) : Action Unit :=
  warnUnreadable project s!"{p.text}: IO error for operation on {p.text}: {fault.message}"

/-- Warns of what keeps a walk over a project from being complete. -/
def warnOfWalk (project : Path) : Action Unit := do
  let w ← get
  match w.disk.entryAt w.cwd project with
  | .error fault => warnOfFault project project fault
  | .ok _ =>
    if !w.disk.rulesAbove w.cwd project then
      warnUnreadable project "malformed pattern in an ignore file"

section Walk

variable (project output outputDir : Path)

/-- Copies what is met under one name in a directory, and says how many files that was. Nothing
    is copied from below the output. `enter` copies what lies below a directory. -/
def copyName (enter : Ignore.RuleChain → Path → Location → Action Nat) (chain : Ignore.RuleChain)
    (path : Path) (loc : Location) (name : String) : Action Nat := do
  let d := (← get).disk
  let here := loc ++ [name]
  let p := path.join ⟨name⟩
  match d.lookup here with
  | none => return 0
  | some .directory =>
    if chain.passesOver true here true || output.isBelow p then return 0
    else if isTooLong p then
      warnOfFault project p .nameTooLong
      return 0
    else enter (Ignore.DirectoryRules.ofDirectory d here :: chain) p here
  | some e =>
    if chain.passesOver true here false || output.isBelow p then return 0
    else return (← copyEntry project outputDir ⟨p, here, e⟩).toNat

/-- Copies what lies below a directory, at most `depth` levels down. The names in a directory
    are read when it is entered, and what they stand for when their turn comes, so a copy can
    meet what it has written. -/
def copyBelow : Nat → Ignore.RuleChain → Path → Location → Action Nat
  | 0, _, _, _ => return 0
  | depth + 1, chain, path, loc => do
    let names := (← get).disk.names loc
    let copied ← names.mapM (copyName project output outputDir (copyBelow depth) chain path loc)
    return copied.foldr (· + ·) 0

end Walk

/-- Copies a project below a directory, and says how many files were copied. -/
def copyProject (projectDir outputDir : Path) : Action Nat := do
  let project ← Action.absolute projectDir
  let output ← Action.absolute outputDir
  if isTooLong project then
    warnOfFault project project .nameTooLong
    return 0
  else
    warnOfWalk project
    let w ← get
    match w.disk.resolve w.cwd project true with
    | .error _ => return 0
    | .ok loc =>
      match w.disk.lookup loc with
      | some (.file content) =>
        return (← copyEntry project outputDir ⟨project, loc, .file content⟩).toNat
      | _ =>
        copyBelow project output outputDir (maxPath + 1) (Ignore.RuleChain.ofDirectory w.disk loc)
          project loc

/-! ## Preparing -/

/-- Creates the output directory and what is copied into it once. -/
def createOutput (o : Options) : Action Unit := do
  Action.makeDirectories o.outputDir
  if o.copyProject then
    let copied ← copyProject o.projectDir o.outputDir
    Action.info s!"Copied {copied} project files to {o.outputDir.text}"

/-- Copies a file of the logger. -/
def copyLoggerFile (output : Path) (f : LoggerFile) : Action Unit := do
  let target ← f.copyTo output
  Action.debug s!"Copied {f.source.text} to {target.text}"

/-- Prepares the output directory. -/
def prepareOutput : Job Unit := do
  let i ← Job.instrumenter
  if !i.prepared then
    Job.act (createOutput i.options)
    Job.change fun i => { i with prepared := true }
  Job.act (i.config.loggerFiles.forM (copyLoggerFile i.options.outputDir))

/-! ## The log directory -/

/-- Writes the id file, and says where it is. -/
def writeIdFile (name : String) : Job Path := do
  let i ← Job.instrumenter
  let path := i.options.logDir.join ⟨name⟩
  Job.act do
    i.ids.write path
    Action.debug s!"Wrote {i.ids.size} ids to {path.text}"
  return path

/-- Writes a properties file, unless its name is blank, and says where it is. -/
def writeLoggerProperties (p : LoggerProperties) : Job (Option Path) := do
  if (Text.trim p.file.toList).isEmpty then return none
  else
    let dir := (← Job.instrumenter).options.logDir
    let path := dir.join ⟨p.file⟩
    Job.act do
      Action.makeDirectories dir
      Action.write path p.render.toUTF8
    return some path

end Tracepoint.Instrument
