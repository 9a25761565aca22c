import Tracepoint.World

/-!
# Utilities

The programs that a shell can run beside itself, each a function from its
arguments and the place it runs in to a reply.
-/

namespace Tracepoint.Shell

/-! ## Replies -/

/-- How a process ends: with a status, or by a signal. -/
inductive Ending where
  | exited (status : Nat)
  | killed
deriving DecidableEq, Repr, Inhabited

/-- The place that a program runs in, and what it can read. -/
structure Surroundings where
  disk : Disk
  cwd : Location
  input : ByteArray := .empty

/-- What a utility does. -/
structure Reply where
  stdout : ByteArray := .empty
  stderr : ByteArray := .empty
  status : Nat := 0
  milliseconds : Nat := 0
deriving Inhabited

/-- A reply that prints a text. -/
def Reply.print (text : String) : Reply := { stdout := text.toUTF8 }

/-- A reply that complains. -/
def Reply.complain (text : String) (status : Nat) : Reply :=
  { stderr := (text ++ "\n").toUTF8, status := status }

/-! ## Escapes -/

/-- The byte that one character after a backslash stands for. -/
def escapeByte? : Char → Option UInt8
  | 'a' => some 7
  | 'b' => some 8
  | 't' => some 9
  | 'n' => some 10
  | 'v' => some 11
  | 'f' => some 12
  | 'r' => some 13
  | '\\' => some 92
  | _ => none

/-- The value of octal digits. -/
def octal (digits : List Char) : UInt8 :=
  (digits.foldl (fun n c => n * 8 + (c.toNat - '0'.toNat)) 0).toUInt8

def isOctal (c : Char) : Bool := '0' ≤ c && c ≤ '7'

/-- The bytes of a text in which backslashes start escapes. If `zero`, an octal number has a
    leading zero beside its digits. -/
def unescape (zero : Bool) : List Char → List UInt8
  | [] => []
  | '\\' :: c :: rest =>
    let digits := if zero then rest else c :: rest
    let n := ((digits.take 3).takeWhile isOctal).length
    if isOctal c && (!zero || c = '0') then
      octal (digits.take n) :: unescape zero (rest.drop (if zero then n else n - 1))
    else
      match escapeByte? c with
      | some b => b :: unescape zero rest
      | none => 92 :: c.toString.toUTF8.toList ++ unescape zero rest
  | c :: rest => c.toString.toUTF8.toList ++ unescape zero rest
  termination_by s => s.length
  decreasing_by all_goals grind

def bytesOf (l : List UInt8) : ByteArray := ⟨l.toArray⟩

/-! ## The utilities -/

/-- Prints arguments on a line. If `escapes`, backslashes in them start escapes. -/
def echo (escapes : Bool) (args : List String) : Reply :=
  let (args, ending) := match args with
    | "-n" :: rest => (rest, "")
    | _ => (args, "\n")
  let text := String.intercalate " " args
  if escapes then { stdout := bytesOf (unescape true text.toList) ++ ending.toUTF8 }
  else .print (text ++ ending)

/-- A part of a format: a text, or a directive that takes an argument. -/
inductive FormatPart where
  | text (chars : List Char)
  | argument (kind : Char)
deriving DecidableEq, Repr, Inhabited

/-- The parts of a format. -/
def formatParts : List Char → List FormatPart
  | [] => []
  | '%' :: '%' :: rest => .text ['%'] :: formatParts rest
  | '%' :: c :: rest => .argument c :: formatParts rest
  | c :: rest =>
    match formatParts rest with
    | .text chars :: more => .text (c :: chars) :: more
    | more => .text [c] :: more

/-- Writes a format once, with the arguments that its directives take. -/
def writeFormat : List FormatPart → List String → List UInt8
  | [], _ => []
  | .text chars :: parts, args => unescape false chars ++ writeFormat parts args
  | .argument kind :: parts, args =>
    let shown := args.head?.getD (if kind = 'd' then "0" else "")
    let bytes := if kind = 'b' then unescape true shown.toList else shown.toUTF8.toList
    bytes ++ writeFormat parts args.tail

/-- How many arguments a format takes. -/
def arity (parts : List FormatPart) : Nat :=
  parts.countP fun
    | .argument _ => true
    | .text _ => false

/-- Writes a format again until all arguments are used; `rounds` bounds how often. -/
def writeFormats (parts : List FormatPart) : Nat → List String → List UInt8
  | 0, _ => []
  | rounds + 1, args =>
    let left := args.drop (arity parts)
    writeFormat parts args ++
      (if left = [] || arity parts = 0 then [] else writeFormats parts rounds left)

/-- Prints arguments as a format says. -/
def printf (args : List String) : Reply :=
  match args with
  | [] => .complain "printf: usage: printf format [arg ...]" 2
  | format :: rest =>
    { stdout := bytesOf (writeFormats (formatParts format.toList) (rest.length + 1) rest) }

/-- Prints files one after the other, or the input where no file is named. -/
def cat (s : Surroundings) (args : List String) : Reply :=
  (if args = [] then ["-"] else args).foldl (fun r name =>
    if name = "-" then { r with stdout := r.stdout ++ s.input }
    else
      match s.disk.read s.cwd ⟨name⟩ with
      | .ok content => { r with stdout := r.stdout ++ content }
      | .error fault =>
        let text := s!"cat: {name}: {fault.words}\n"
        { r with stderr := r.stderr ++ text.toUTF8, status := 1 }) {}

/-- Prints the names in directories that are not hidden. -/
def list (s : Surroundings) : Reply :=
  let names := (s.disk.names s.cwd).filter fun n => !Text.startsWith ['.'] n.toList
  .print (String.join (names.map (· ++ "\n")))

def locationText (loc : Location) : String := "/" ++ String.intercalate "/" loc

/-- A number of seconds with a decimal fraction, in milliseconds. -/
def milliseconds? (text : String) : Option Nat :=
  match Text.splitFirst? '.' text.toList with
  | none => text.toNat?.map (· * 1000)
  | some (whole, fraction) => do
    let places := (fraction ++ ['0', '0', '0']).take 3
    let seconds ← if whole = [] then some 0 else (String.ofList whole).toNat?
    return seconds * 1000 + (← (String.ofList places).toNat?)

/-- Waits. -/
def sleep (args : List String) : Reply :=
  match args.mapM milliseconds? with
  | some [] => .complain "sleep: missing operand" 1
  | some times => { milliseconds := times.foldl (· + ·) 0 }
  | none => .complain "sleep: invalid time interval" 1

/-- Whether a condition on files or texts holds; none if there is no such condition. -/
def test? (s : Surroundings) (args : List String) : Option Bool :=
  match args with
  | [] => some false
  | ["-f", p] => some (s.disk.isFile s.cwd ⟨p⟩)
  | ["-d", p] => some (s.disk.isDirectory s.cwd ⟨p⟩)
  | ["-e", p] => some (s.disk.isFile s.cwd ⟨p⟩ || s.disk.isDirectory s.cwd ⟨p⟩)
  | ["-n", t] => some (t ≠ "")
  | ["-z", t] => some (t = "")
  | [t] => some (t ≠ "")
  | [a, "=", b] => some (a = b)
  | [a, "!=", b] => some (a ≠ b)
  | _ => none

/-- The reply for a condition. -/
def test (s : Surroundings) (args : List String) : Reply :=
  match test? s args with
  | some holds => { status := if holds then 0 else 1 }
  | none => .complain "test: unexpected operator" 2

/-- What a utility does; none if there is none of that name. -/
def utility? (name : String) (args : List String) (s : Surroundings) : Option Reply :=
  match name with
  | "true" => some {}
  | "false" => some { status := 1 }
  | "echo" => some (echo false args)
  | "printf" => some (printf args)
  | "cat" => some (cat s args)
  | "ls" => some (list s)
  | "pwd" => some (.print (locationText s.cwd ++ "\n"))
  | "sleep" => some (sleep args)
  | "test" => some (test s args)
  | _ => none

end Tracepoint.Shell
