import Tracepoint.Shell.Script
import Tracepoint.Shell.Utility

/-!
# Running programs

A program runs in a directory with arguments and gives what it printed, how it
ended and how long it took. A program is the shell, which runs a script command
by command, or one of the utilities. There are no others: a file on the disk is
never a program that may be run.
-/

namespace Tracepoint.Shell

open Text

/-- A running shell. -/
structure Session where
  disk : Disk
  cwd : Location
  environment : List (String × String) := []
  /-- The name of the script and its arguments. -/
  arguments : List String := ["sh"]
  stdout : ByteArray := .empty
  stderr : ByteArray := .empty
  /-- The status of the last command. -/
  status : Nat := 0
  milliseconds : Nat := 0
  /-- How the shell ended, if it did. -/
  ending : Option Ending := none

/-- What came of a process. -/
structure Finished where
  stdout : ByteArray
  stderr : ByteArray
  ending : Ending
  milliseconds : Nat

/-- The number under which a shell knows itself. -/
def processNumber : String := "1"

namespace Session

/-! ## Words -/

/-- The value of a parameter. -/
def value (s : Session) (name : String) : String :=
  match name with
  | "#" => toString (s.arguments.length - 1)
  | "$" => processNumber
  | "?" => toString s.status
  | "@" => String.intercalate " " s.arguments.tail
  | "*" => String.intercalate " " s.arguments.tail
  | _ =>
    match name.toNat? with
    | some n => s.arguments[n]?.getD ""
    | none => (s.environment.lookup name).getD ""

/-- The fields that are complete, and the one that is open, if any. -/
abbrev Fields := List String × Option (List Char)

/-- Adds text to the open field. -/
def addText (f : Fields) (text : List Char) : Fields := (f.1, some (f.2.getD [] ++ text))

/-- Ends the open field. -/
def close (f : Fields) : Fields := (f.1 ++ (f.2.map String.ofList).toList, none)

/-- Adds a character that ends the field if it is blank. -/
def addSplitting (f : Fields) (c : Char) : Fields :=
  if [' ', '\t', '\n'].contains c then close f else addText f [c]

/-- Adds a piece of a word. Only what parameters outside of quotes bring is split. -/
def addPiece (s : Session) (f : Fields) : Piece → Fields
  | .literal _ text => addText f text
  | .parameter true name => addText f (s.value name).toList
  | .parameter false name => (s.value name).toList.foldl addSplitting f

/-- The arguments that a word gives. -/
def expand (s : Session) (w : Word) : List String := (close (w.foldl s.addPiece ([], none))).1

/-- The text of a word that is not split. -/
def expandWhole (s : Session) (w : Word) : String := String.intercalate " " (s.expand w)

/-! ## Streams -/

/-- Where output goes. -/
inductive Sink where
  | stdout
  | stderr
  | file (path : Path)
deriving DecidableEq, Repr, Inhabited

/-- Where the streams of a command lead. -/
structure Streams where
  input : ByteArray := .empty
  output : Sink := .stdout
  errors : Sink := .stderr

/-- Sends bytes to where a stream leads. -/
def send (s : Session) (sink : Sink) (bytes : ByteArray) : Session :=
  match sink with
  | .stdout => { s with stdout := s.stdout ++ bytes }
  | .stderr => { s with stderr := s.stderr ++ bytes }
  | .file path =>
    let old := (s.disk.read s.cwd path).toOption.getD .empty
    match s.disk.write s.cwd path (old ++ bytes) with
    | .ok disk => { s with disk := disk }
    | .error _ => s

/-- Leads one of the streams elsewhere. -/
def Streams.lead (t : Streams) (stream : Nat) (sink : Sink) : Streams :=
  if stream = 1 then { t with output := sink }
  else if stream = 2 then { t with errors := sink }
  else t

/-- Opens a file for output. -/
def openFile (s : Session) (path : Path) (keep : Bool) : Except Fault Session := do
  let old := if keep then (s.disk.read s.cwd path).toOption.getD .empty else .empty
  return { s with disk := ← s.disk.write s.cwd path old }

/-- Applies one redirection. -/
def redirect (s : Session) (t : Streams) (r : Redirection) : Except Fault (Session × Streams) := do
  let target := s.expandWhole r.target
  match r.direction with
  | .read => return (s, { t with input := ← s.disk.read s.cwd ⟨target⟩ })
  | .write => return (← s.openFile ⟨target⟩ false, t.lead r.stream (.file ⟨target⟩))
  | .append => return (← s.openFile ⟨target⟩ true, t.lead r.stream (.file ⟨target⟩))
  | .duplicate =>
    let sink := if target = "1" then t.output else t.errors
    return (s, t.lead r.stream sink)

/-- Applies redirections from left to right. -/
def redirectAll (s : Session) (t : Streams) :
    List Redirection → Except Fault (Session × Streams)
  | [] => .ok (s, t)
  | r :: rs => do
    let (s, t) ← s.redirect t r
    redirectAll s t rs

/-! ## Commands -/

/-- Prints a complaint of the shell itself and sets the status. -/
def complain (s : Session) (t : Streams) (text : String) (status : Nat) : Session :=
  let name := s.value "0"
  { s.send t.errors s!"{name}: 1: {text}\n".toUTF8 with status := status }

/-- Takes over what a utility did. -/
def accept (s : Session) (t : Streams) (r : Reply) : Session :=
  let s := (s.send t.output r.stdout).send t.errors r.stderr
  { s with status := r.status, milliseconds := s.milliseconds + r.milliseconds }

/-- Ends the shell. -/
def exit (s : Session) (t : Streams) (args : List String) : Session :=
  match args with
  | [] => { s with ending := some (.exited s.status) }
  | text :: _ =>
    match text.toNat? with
    | some n => { s with ending := some (.exited (n % 256)) }
    | none =>
      let s := s.complain t s!"exit: Illegal number: {text}" 2
      { s with ending := some (.exited 2) }

/-- Sends a signal. -/
def kill (s : Session) (t : Streams) (args : List String) : Session :=
  if args.getLast? = some processNumber then
    if args.contains "-0" then { s with status := 0 } else { s with ending := some .killed }
  else s.complain t "kill: No such process" 1

/-- Changes the directory. -/
def changeDirectory (s : Session) (t : Streams) (args : List String) : Session :=
  let target := args.head?.getD (s.value "HOME")
  match s.disk.resolve s.cwd ⟨target⟩ true with
  | .ok loc =>
    if s.disk.isDirectory s.cwd ⟨target⟩ then { s with cwd := loc, status := 0 }
    else s.complain t s!"cd: can't cd to {target}" 2
  | .error _ => s.complain t s!"cd: can't cd to {target}" 2

/-- Runs a command with its arguments. -/
def runCommand (s : Session) (t : Streams) (name : String) (args : List String) : Session :=
  match name with
  | "exit" => s.exit t args
  | "kill" => s.kill t args
  | "cd" => s.changeDirectory t args
  | ":" => { s with status := 0 }
  | "echo" => s.accept t (echo true args)
  | "[" => s.accept t (test ⟨s.disk, s.cwd, t.input⟩ args.dropLast)
  | _ =>
    match utility? name args ⟨s.disk, s.cwd, t.input⟩ with
    | some r => s.accept t r
    | none =>
      if s.disk.isFile s.cwd ⟨name⟩ && name.toList.contains '/' then
        s.complain t s!"{name}: Permission denied" 126
      else s.complain t s!"{name}: not found" 127

/-- Whether a command runs after what happened so far. -/
def isDue (s : Session) (condition : Condition) : Bool :=
  s.ending.isNone && match condition with
    | .always => true
    | .afterSuccess => s.status = 0
    | .afterFailure => s.status ≠ 0

/-- Runs a command of a script. -/
def step (s : Session) (c : Command) : Session :=
  if !s.isDue c.condition then s
  else
    match s.redirectAll {} c.redirections with
    | .error fault => s.complain {} s!"cannot open: {fault.words}" 2
    | .ok (s, t) =>
      match c.words.flatMap s.expand with
      | name :: args => s.runCommand t name args
      | [] => if c.redirections = [] then s else { s with status := 0 }

/-- Runs a script. -/
def runScript (s : Session) (script : List Char) : Session :=
  match parse? script with
  | some commands => commands.foldl step s
  | none => s.complain {} "Syntax error" 2

/-- Runs a shell with its own arguments. -/
def run (s : Session) (args : List String) : Session :=
  match args with
  | [] => s
  | first :: rest =>
    if startsWith ['-'] first.toList then
      match rest with
      | script :: arguments =>
        let named := if arguments = [] then s.arguments else arguments
        { s with arguments := named }.runScript script.toList
      | [] => { s with ending := some (.exited 2) }
    else
      match s.disk.readText s.cwd ⟨first⟩ with
      | .ok script => { s with arguments := args }.runScript script.toList
      | .error _ =>
        let text := s!"sh: 0: cannot open {first}: No such file\n"
        { s with stderr := text.toUTF8, ending := some (.exited 2) }

def finished (s : Session) : Finished :=
  ⟨s.stdout, s.stderr, s.ending.getD (.exited s.status), s.milliseconds⟩

end Session

/-! ## Programs -/

/-- The name of the program that a text asks for, and whether it is looked for by name or in
    one of the places where programs are. -/
def programName (text : String) : String :=
  let places := ["/bin/", "/usr/bin/"].map String.toList
  match places.findSome? (dropStart? · text.toList) with
  | some name => String.ofList name
  | none => text

/-- Why a text names no program that can be run. -/
def programFault (disk : Disk) (cwd : Location) (text : String) : Fault :=
  if !text.toList.contains '/' then .notFound
  else
    match disk.entryAt cwd ⟨text⟩ with
    | .ok _ => .permissionDenied
    | .error fault => fault

/-- Runs a program in a directory. -/
def launch (program : String) (args : List String) (dir : Path) :
    Action (Except Fault Finished) := do
  let w ← get
  match w.disk.resolve w.cwd dir true, w.disk.entryAt w.cwd dir with
  | .error fault, _ => return .error fault
  | _, .error fault => return .error fault
  | .ok cwd, .ok .directory =>
    let name := programName program
    if ["sh", "dash"].contains name then
      let environment := ("PWD", locationText cwd) :: w.environment
      let start : Session := { disk := w.disk, cwd := cwd, environment := environment }
      let s := start.run args
      set { w with disk := s.disk }
      return .ok s.finished
    else
      match utility? name args ⟨w.disk, cwd, .empty⟩ with
      | some r => return .ok ⟨r.stdout, r.stderr, .exited r.status, r.milliseconds⟩
      | none => return .error (programFault w.disk cwd program)
  | .ok _, .ok _ => return .error .notDirectory

end Tracepoint.Shell
