import Tracepoint.Error

/-!
# The world around a run

A run reads and changes the file system, reads environment variables, prints text
and writes log lines. All of these are parts of one `World`, and a step of a run is
an `Action` on it. When an action fails, what it did before stays done.
-/

namespace Tracepoint

inductive LogLevel where
  | error
  | warn
  | info
  | debug
deriving DecidableEq, Repr, Inhabited

def LogLevel.label : LogLevel → String
  | .error => "ERROR"
  | .warn => "WARN"
  | .info => "INFO"
  | .debug => "DEBUG"

structure LogLine where
  level : LogLevel
  text : String
deriving DecidableEq, Repr, Inhabited

structure World where
  disk : Disk := {}
  /-- The current directory. -/
  cwd : Location := []
  environment : List (String × String) := []
  /-- The log lines written so far, oldest first. -/
  log : List LogLine := []
  /-- What was printed so far. -/
  printed : String := ""
deriving Inhabited

/-- A step of a run. -/
abbrev Action := ExceptT Error (StateM World)

namespace Action

/-! ## Logging -/

def log (level : LogLevel) (text : String) : Action Unit :=
  modify fun w => { w with log := w.log ++ [⟨level, text⟩] }

def warn (text : String) : Action Unit := log .warn text

def info (text : String) : Action Unit := log .info text

def debug (text : String) : Action Unit := log .debug text

/-- Prints a line. -/
def print (line : String) : Action Unit :=
  modify fun w => { w with printed := w.printed ++ line ++ "\n" }

/-! ## Results of parts -/

/-- Fails with a fault of the file system. -/
def ofFault {α : Type} : Except Fault α → Action α
  | .ok a => pure a
  | .error e => throw (.io e)

/-- The result of an action, as a value. -/
def attempt {α : Type} (a : Action α) : Action (Except Error α) := fun w =>
  match a w with
  | (r, w') => (.ok r, w')

/-! ## The file system -/

def lookupVariable (name : String) : Action (Option String) := do
  return (← get).environment.lookup name

def isFile (p : Path) : Action Bool := do
  let w ← get
  return w.disk.isFile w.cwd p

def isDirectory (p : Path) : Action Bool := do
  let w ← get
  return w.disk.isDirectory w.cwd p

def read (p : Path) : Action ByteArray := do
  let w ← get
  ofFault (w.disk.read w.cwd p)

def readText (p : Path) : Action String := do
  let w ← get
  ofFault (w.disk.readText w.cwd p)

/-- Replaces the disk by the result of an operation on it. -/
def changeDisk (f : Disk → Location → Except Fault Disk) : Action Unit := do
  let w ← get
  let d ← ofFault (f w.disk w.cwd)
  set { w with disk := d }

def write (p : Path) (content : ByteArray) : Action Unit :=
  changeDisk fun d cwd => d.write cwd p content

def makeDirectories (p : Path) : Action Unit :=
  changeDisk fun d cwd => d.makeDirectories cwd p

/-- Creates the directory that holds a path. -/
def makeParent (p : Path) : Action Unit :=
  match p.parent? with
  | some above => makeDirectories above
  | none => pure ()

def copy (source target : Path) : Action Unit :=
  changeDisk fun d cwd => d.copy cwd source target

/-- The current directory as a path. -/
def currentDirectory : Action Path := do
  return ⟨"/" ++ String.intercalate "/" (← get).cwd⟩

/-- A path as seen from the root. -/
def absolute (p : Path) : Action Path := do
  match Path.absolute? (← currentDirectory) p with
  | some q => return q
  | none => throw (.io .emptyPath)

end Action

end Tracepoint
