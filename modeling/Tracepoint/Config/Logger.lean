import Tracepoint.Datum
import Tracepoint.World

/-!
# Files for the logger

What the running logger needs beside the instrumented sources: files of its own,
copied into the output, and a properties file.
-/

namespace Tracepoint.Config

/-! ## Files -/

/-- A file that is copied into the output directory. -/
structure LoggerFile where
  source : Path
  /-- Where it goes below the output directory. -/
  target : Path
deriving DecidableEq, Repr, Inhabited

namespace LoggerFile

def decode (exact : Bool) : Decoder LoggerFile := fun d => do
  let f ← Fields.of? ["source", "target"] exact d
  return ⟨← f.required "source" Decoder.path, ← f.required "target" Decoder.path⟩

/-- Copies the file below a directory, and says where it went. -/
def copyTo (f : LoggerFile) (output : Path) : Action Path := do
  let destination := output.join f.target
  Action.makeParent destination
  Action.copy f.source destination
  return destination

end LoggerFile

/-! ## Properties -/

/-- A properties file: its name and its values, sorted by key. -/
structure LoggerProperties where
  file : String
  values : List (String × String) := []
deriving DecidableEq, Repr, Inhabited

/-- A character of a key or value as it is written, given its index. -/
def propertyChar (isKey : Bool) (index : Nat) (c : Char) : List Char :=
  match c with
  | '\\' => ['\\', '\\']
  | '\n' => ['\\', 'n']
  | '\r' => ['\\', 'r']
  | '\t' => ['\\', 't']
  | '=' | ':' | '#' | '!' => ['\\', c]
  | ' ' => if isKey || index = 0 then ['\\', ' '] else [' ']
  | _ => [c]

/-- A key or value as it is written, from an index on. -/
def propertyChars (isKey : Bool) : Nat → List Char → List Char
  | _, [] => []
  | index, c :: rest => propertyChar isKey index c ++ propertyChars isKey (index + 1) rest

/-- The line for a key and its value. -/
def propertyLine (key value : String) : List Char :=
  propertyChars true 0 key.toList ++ '=' :: propertyChars false 0 value.toList ++ ['\n']

namespace LoggerProperties

/-- Values by key, sorted. -/
def ofValues (file : String) (values : List (String × String)) : LoggerProperties :=
  ⟨file, values.mergeSort fun a b => a.1 ≤ b.1⟩

def decode (exact : Bool) : Decoder LoggerProperties := fun d => do
  let f ← Fields.of? ["file", "values"] exact d
  return ofValues (← f.required "file" Decoder.text)
    (← f.orDefault "values" (Decoder.table Decoder.text) [])

/-- The text of the file: a line for each key. -/
def render (p : LoggerProperties) : String :=
  String.ofList (p.values.flatMap fun e => propertyLine e.1 e.2)

end LoggerProperties

end Tracepoint.Config
