import Tracepoint.Build.Report
import Tracepoint.Shell.Session
import Tracepoint.Text.Bytes

/-!
# Building the output

A build tool compiles a directory and runs its tests. It succeeds with status 0.
If it fails, its output says whether the sources did not compile or tests failed.
A build that takes as long as its limit or longer is stopped.
-/

namespace Tracepoint.Build

open Shell Text

/-- What a build that succeeded printed, and how long it took. -/
structure Success where
  stdout : String
  stderr : String
  milliseconds : Nat := 0
deriving DecidableEq, Repr, Inhabited

/-- The status of a process that ended by itself. -/
def statusOf : Ending → Option Nat
  | .exited status => some status
  | .killed => none

/-- What a build with a given status and given output comes to. -/
def judge (status : Option Nat) (stdout stderr : String) (milliseconds : Nat) :
    Except BuildError Success :=
  let output := stdout ++ stderr
  if status = some 0 then .ok ⟨stdout, stderr, milliseconds⟩
  else if reportsFailedTests output.toList then .error (.testsFailed status output)
  else .error (.compileFailed status output)

/-- A build tool with its arguments. -/
structure Tool where
  program : String := "mvn"
  phases : List String := ["clean", "test"]
  /-- The time that a build may take, in milliseconds. -/
  limit : Option Nat := none
  /-- Whether what the tool prints goes to the log. -/
  verbose : Bool := false
deriving DecidableEq, Repr, Inhabited

/-- A limit in seconds, of which 0 means none. -/
def limitOfSeconds (seconds : Nat) : Option Nat :=
  if seconds > 0 then some (seconds * 1000) else none

/-- Bytes as text; what is no text is replaced. -/
def decoded (bytes : ByteArray) : String := String.ofList (decodeLossy bytes.toList)

/-- The limit that a process reached, if it did. -/
def Tool.exceeded? (t : Tool) (milliseconds : Nat) : Option Nat :=
  t.limit.filter (· ≤ milliseconds)

/-- Writes the lines of texts to the log. -/
def logLines (texts : List String) : Action Unit :=
  (texts.flatMap fun text => lines text.toList).forM fun line => Action.info (String.ofList line)

/-- Builds a directory. -/
def Tool.run (t : Tool) (dir : Path) : Action Success := do
  let phases := String.intercalate " " t.phases
  Action.info s!"Running {t.program} {phases} in {dir.text}"
  match ← launch t.program t.phases dir with
  | .error fault => throw (.build (.spawn t.program fault))
  | .ok finished =>
    match t.exceeded? finished.milliseconds with
    | some limit => throw (.build (.timeout limit))
    | none =>
      let stdout := decoded finished.stdout
      let stderr := decoded finished.stderr
      if t.verbose then logLines [stdout, stderr]
      match judge (statusOf finished.ending) stdout stderr finished.milliseconds with
      | .ok success => return success
      | .error e => throw (.build e)

end Tracepoint.Build
