import Tracepoint.Text.Blank
import Tracepoint.Text.Search

/-!
# Words of XML

Characters, names and references, as XML 1.0 has them. Names are split at a
colon into a prefix and a local part.
-/

namespace Tracepoint.Xml

open Text

/-! ## Characters -/

def isSpace (c : Char) : Bool := c == ' ' || c == '\t' || c == '\n' || c == '\r'

/-- The characters that may occur in a document. -/
def isAllowed (c : Char) : Bool :=
  if c.toNat < 0x20 then isSpace c else c.toNat != 0xfffe && c.toNat != 0xffff

def skipSpaces (s : List Char) : List Char := s.dropWhile isSpace

/-- The characters that can start a name. -/
def nameStarts : List (Nat × Nat) :=
  [(0x3a, 0x3a), (0x41, 0x5a), (0x5f, 0x5f), (0x61, 0x7a), (0xc0, 0xd6), (0xd8, 0xf6),
    (0xf8, 0x2ff), (0x370, 0x37d), (0x37f, 0x1fff), (0x200c, 0x200d), (0x2070, 0x218f),
    (0x2c00, 0x2fef), (0x3001, 0xd7ff), (0xf900, 0xfdcf), (0xfdf0, 0xfffd),
    (0x10000, 0xeffff)]

/-- The characters that can stand in a name but not start it. -/
def nameExtras : List (Nat × Nat) :=
  [(0x2d, 0x2e), (0x30, 0x39), (0xb7, 0xb7), (0x300, 0x36f), (0x203f, 0x2040)]

def isNameStart (c : Char) : Bool := inRanges nameStarts c

def isNameChar (c : Char) : Bool := isNameStart c || inRanges nameExtras c

/-! ## Names -/

/-- A name, split at its colon. The prefix is empty if there is none. -/
structure Name where
  space : String
  main : String
deriving DecidableEq, Repr, Inhabited

/-- A name at the front of a text. -/
def takeName? (s : List Char) : Option (List Char × List Char) :=
  match s with
  | c :: rest =>
    if isNameStart c then some (c :: rest.takeWhile isNameChar, rest.dropWhile isNameChar)
    else none
  | [] => none

/-- Whether a part of a name is well formed. -/
def startsName (part : List Char) : Bool := (part.head?.map isNameStart).getD false

/-- A name with at most one colon at the front of a text. -/
def takeQualified? (s : List Char) : Option (Name × List Char) :=
  let whole := s.takeWhile isNameChar
  let rest := s.dropWhile isNameChar
  match splitAll ':' whole with
  | [main] => if startsName main then some (⟨"", String.ofList main⟩, rest) else none
  | [space, main] =>
    if startsName main && (space.isEmpty || startsName space) then
      some (⟨String.ofList space, String.ofList main⟩, rest)
    else none
  | _ => none

/-! ## References -/

/-- The value of a number in a base, if all characters are digits of it. -/
def digitsValue? (base : Nat) (s : List Char) : Option Nat :=
  let digit? (c : Char) : Option Nat :=
    let n := c.toNat
    if c.isDigit then some (n - 48)
    else if 97 ≤ n && n ≤ 102 then some (n - 87)
    else if 65 ≤ n && n ≤ 70 then some (n - 55)
    else none
  if s.isEmpty then none
  else s.foldlM (fun acc c => do
    let d ← digit? c
    if d < base then some (acc * base + d) else none) 0

/-- The character with a code, if a document may contain it. -/
def allowedChar? (code : Nat) : Option Char :=
  if code.isValidChar && isAllowed (Char.ofNat code) then some (Char.ofNat code) else none

/-- The character that a reference stands for, without its `&` and `;`. -/
def reference? (name : List Char) : Option Char :=
  match name with
  | '#' :: 'x' :: digits => (digitsValue? 16 digits).bind allowedChar?
  | '#' :: digits => (digitsValue? 10 digits).bind allowedChar?
  | _ =>
    [("quot", '"'), ("amp", '&'), ("apos", '\''), ("lt", '<'), ("gt", '>')].lookup
      (String.ofList name)

/-- A text with every line end written as `\n`. -/
def unifyLineEnds (s : List Char) : List Char :=
  (replaceAll ['\r', '\n'] ['\n'] s).map fun c => if c = '\r' then '\n' else c

/-- A text with its references replaced; none if one is malformed or unknown. -/
def decode? (s : List Char) : Option (List Char) :=
  match splitAll '&' s with
  | [] => some []
  | first :: pieces => do
    let decoded ← pieces.mapM fun piece => do
      let (name, rest) ← splitFirst? ';' piece
      let c ← reference? name
      return c :: unifyLineEnds rest
    return unifyLineEnds first ++ decoded.flatten

end Tracepoint.Xml
