import Tracepoint.Text.Search
import Tracepoint.Toml.Value

/-!
# Strings, numbers and moments in TOML

Each reader takes what it reads from the front of a text and gives the rest.
Numbers and moments are recognised by their whole word.
-/

namespace Tracepoint.Toml

open Text

/-- Reads a value from the front of a text. -/
abbrev Reader (α : Type) := List Char → Option (α × List Char)

def isWhite (c : Char) : Bool := c == ' ' || c == '\t'

def skipWhite (s : List Char) : List Char := s.dropWhile isWhite

/-- The rest of a text after a line end at its front. -/
def lineEnd? (s : List Char) : Option (List Char) :=
  match s with
  | '\n' :: rest => some rest
  | '\r' :: '\n' :: rest => some rest
  | _ => none

/-- A character that can stand in comments and strings: no control character but the tab. -/
def isPrintable (c : Char) : Bool := c == '\t' || (0x20 ≤ c.toNat && c.toNat != 0x7f)

/-! ## Strings -/

def hexDigit? (c : Char) : Option Nat :=
  let n := c.toNat
  if c.isDigit then some (n - 48)
  else if 97 ≤ n && n ≤ 102 then some (n - 87)
  else if 65 ≤ n && n ≤ 70 then some (n - 55)
  else none

/-- The character with the code that `count` hexadecimal digits give. -/
def codePoint? (count : Nat) (s : List Char) : Option Char := do
  let digits := s.take count
  if digits.length < count then none
  let code ← digits.foldlM (fun acc c => do return acc * 16 + (← hexDigit? c)) 0
  if code.isValidChar then some (Char.ofNat code) else none

/-- The character that an escape stands for, after its backslash, and the length of the
    escape. -/
def escape? (s : List Char) : Option (Char × Nat) :=
  match s with
  | 'b' :: _ => some ('\x08', 1)
  | 't' :: _ => some ('\t', 1)
  | 'n' :: _ => some ('\n', 1)
  | 'f' :: _ => some ('\x0c', 1)
  | 'r' :: _ => some ('\r', 1)
  | '"' :: _ => some ('"', 1)
  | '\\' :: _ => some ('\\', 1)
  | 'u' :: rest => (codePoint? 4 rest).map (·, 5)
  | 'U' :: rest => (codePoint? 8 rest).map (·, 9)
  | _ => none

/-- The rest of a string in double quotes. -/
def basicBody : Reader (List Char)
  | [] => none
  | c :: rest =>
    if c = '"' then some ([], rest)
    else if c = '\\' then do
      let (escaped, length) ← escape? rest
      let (body, after) ← basicBody (rest.drop length)
      return (escaped :: body, after)
    else if isPrintable c then do
      let (body, after) ← basicBody rest
      return (c :: body, after)
    else none
  termination_by s => s.length
  decreasing_by all_goals grind

/-- The rest of a string in single quotes. -/
def literalBody (s : List Char) : Option (List Char × List Char) := do
  let (body, rest) ← splitFirst? '\'' s
  if body.all isPrintable then some (body, rest) else none

/-- Whether a backslash in front of a text continues the line: only white space is left on
    it. -/
def continuesLine (s : List Char) : Bool := (lineEnd? (skipWhite s)).isSome

/-- How many characters of white space and line ends a text starts with. -/
def gapLength (s : List Char) : Nat :=
  (s.takeWhile fun c => isWhite c || c == '\n' || c == '\r').length

/-- The rest of a string of several lines, up to three times `quote`. Up to two more quotes
    before these belong to the string. `escapes` says whether backslashes have a meaning. -/
def linesBody (quote : Char) (escapes : Bool) : Reader (List Char)
  | [] => none
  | c :: rest =>
    let quotes := ((c :: rest).takeWhile (· == quote)).length
    if 3 ≤ quotes then
      some (List.replicate (min (quotes - 3) 2) quote, (c :: rest).drop (min quotes 5))
    else if c = '\\' && escapes then
      if continuesLine rest then linesBody quote escapes (rest.drop (gapLength rest))
      else do
        let (escaped, length) ← escape? rest
        let (body, after) ← linesBody quote escapes (rest.drop length)
        return (escaped :: body, after)
    else if c = '\n' || isPrintable c then do
      let (body, after) ← linesBody quote escapes rest
      return (c :: body, after)
    else if c = '\r' && rest.head? = some '\n' then do
      let (body, after) ← linesBody quote escapes (rest.drop 1)
      return ('\n' :: body, after)
    else none
  termination_by s => s.length
  decreasing_by all_goals grind

/-- A text without a line end at its front. -/
def dropLineEnd (s : List Char) : List Char := (lineEnd? s).getD s

/-- Reads a string of one line. -/
def lineString : Reader (List Char)
  | '"' :: rest => basicBody rest
  | '\'' :: rest => literalBody rest
  | _ => none

/-- Reads a string. -/
def string : Reader (List Char)
  | '"' :: '"' :: '"' :: rest => linesBody '"' true (dropLineEnd rest)
  | '\'' :: '\'' :: '\'' :: rest => linesBody '\'' false (dropLineEnd rest)
  | s => lineString s

/-! ## Numbers -/

/-- The digits of a number without the underscores between them; none if there is no digit
    or an underscore that is not between two. -/
def digits? (isDigit : Char → Bool) (s : List Char) : Option (List Char) :=
  let groups := splitAll '_' s
  if groups.all fun g => !g.isEmpty && g.all isDigit then some groups.flatten else none

def valueIn (base : Nat) (digits : List Char) : Nat :=
  digits.foldl (fun acc c => acc * base + (hexDigit? c).getD 0) 0

/-- A sign at the front of a text: whether it is a minus, and the rest. -/
def splitSign (s : List Char) : Bool × List Char :=
  match s with
  | '-' :: rest => (true, rest)
  | '+' :: rest => (false, rest)
  | _ => (false, s)

/-- A decimal number without a leading zero. -/
def wholeDigits? (s : List Char) : Option (List Char) := do
  let digits ← digits? Char.isDigit s
  if digits.head? = some '0' && s.length ≠ 1 then none else some digits

/-- A number of 64 bits. -/
def fitting? (n : Int) : Option Int :=
  let bound : Int := Nat.pow 2 63
  if -bound ≤ n && n < bound then some n else none

def integer? (word : List Char) : Option Int :=
  let inBase (base : Nat) (isDigit : Char → Bool) (s : List Char) : Option Int := do
    fitting? (valueIn base (← digits? isDigit s))
  match word with
  | '0' :: 'x' :: rest => inBase 16 (fun c => (hexDigit? c).isSome) rest
  | '0' :: 'o' :: rest => inBase 8 (fun c => '0' ≤ c && c ≤ '7') rest
  | '0' :: 'b' :: rest => inBase 2 (fun c => c == '0' || c == '1') rest
  | _ => do
    let (negative, rest) := splitSign word
    let n : Int := valueIn 10 (← wholeDigits? rest)
    fitting? (if negative then -n else n)

/-- Whether the digits, scaled by a power of ten, are beyond the largest finite number. -/
def overflows (digits : List Char) (exponent : Int) : Bool :=
  let mantissa := valueIn 10 digits
  let limit := Nat.pow 2 1024 - Nat.pow 2 970
  if mantissa = 0 then false
  else if exponent > 400 then true
  else if 0 ≤ exponent then limit ≤ mantissa * Nat.pow 10 exponent.toNat
  else if exponent < -(digits.length : Int) then false
  else limit * Nat.pow 10 exponent.natAbs ≤ mantissa

/-- The parts of a number before and after an `e`. -/
def splitExponent (s : List Char) : List Char × Option (List Char) :=
  let mantissa := s.takeWhile fun c => c != 'e' && c != 'E'
  (mantissa, (s.drop mantissa.length).tail?)

/-- Whether a word is a number with a fraction, an exponent or both, or one of the special
    ones. -/
def isFloat (word : List Char) : Bool :=
  let (negative, rest) := splitSign word
  if rest = "inf".toList || rest = "nan".toList then true
  else
    let (mantissa, exponent) := splitExponent rest
    let (whole, fraction) := match splitFirst? '.' mantissa with
      | some (w, f) => (w, some f)
      | none => (mantissa, none)
    let checked : Option Bool := do
      let wholePart ← wholeDigits? whole
      let fractionPart ← match fraction with
        | some f => digits? Char.isDigit f
        | none => some []
      let power ← match exponent with
        | some e =>
          let (down, e') := splitSign e
          (digits? Char.isDigit e').map fun d =>
            let n : Int := valueIn 10 d
            if down then -n else n
        | none => some 0
      if fraction.isNone && exponent.isNone then none
      return negative || !overflows (wholePart ++ fractionPart) (power - fractionPart.length)
    checked.getD false

/-! ## Moments -/

/-- A number of exactly `count` digits. -/
def fixedNumber? (count : Nat) (s : List Char) : Option Nat :=
  if s.length = count && s.all Char.isDigit then some (valueIn 10 s) else none

def daysIn (year month : Nat) : Nat :=
  let isLeap := year % 4 == 0 && (year % 100 != 0 || year % 400 == 0)
  if month = 2 then if isLeap then 29 else 28
  else if month = 4 || month = 6 || month = 9 || month = 11 then 30
  else 31

def isDate (s : List Char) : Bool :=
  match splitAll '-' s with
  | [y, m, d] =>
    match fixedNumber? 4 y, fixedNumber? 2 m, fixedNumber? 2 d with
    | some year, some month, some day =>
      1 ≤ month && month ≤ 12 && 1 ≤ day && day ≤ daysIn year month
    | _, _, _ => false
  | _ => false

/-- Hours and minutes. -/
def isClock (h m : List Char) : Bool :=
  match fixedNumber? 2 h, fixedNumber? 2 m with
  | some hour, some minute => hour ≤ 23 && minute ≤ 59
  | _, _ => false

def isTime (s : List Char) : Bool :=
  match splitAll ':' s with
  | [h, m, rest] =>
    let (seconds, fraction) := match splitFirst? '.' rest with
      | some (w, f) => (w, f)
      | none => (rest, ['0'])
    let isSecond := (fixedNumber? 2 seconds).any (· ≤ 60)
    isClock h m && isSecond && !fraction.isEmpty && fraction.all Char.isDigit
  | _ => false

/-- A time with or without an offset. -/
def isTimeWithOffset (s : List Char) : Bool :=
  match dropEnd? ['Z'] s, dropEnd? ['z'] s with
  | some time, _ => isTime time
  | _, some time => isTime time
  | none, none =>
    let time := s.takeWhile fun c => c != '+' && c != '-'
    match s.drop time.length with
    | [] => isTime time
    | _ :: offset =>
      match splitAll ':' offset with
      | [h, m] => isTime time && isClock h m
      | _ => false

/-- Whether a word is a date, a time, or both with a letter between. -/
def isMoment (word : List Char) : Bool :=
  let date := word.takeWhile fun c => c != 'T' && c != 't'
  match word.drop date.length with
  | [] => isDate date || isTime date
  | _ :: time => isDate date && isTimeWithOffset time

/-! ## Words -/

/-- The characters of words that are numbers, moments or truth values. -/
def isWordChar (c : Char) : Bool :=
  c.isAlphanum || c == '+' || c == '-' || c == '_' || c == '.' || c == ':'

/-- What a word stands for. -/
def scalar? (word : List Char) : Option Value :=
  if word = "true".toList then some (.boolean true)
  else if word = "false".toList then some (.boolean false)
  else if isMoment word then some (.moment (String.ofList word))
  else if isFloat word then some (.float (String.ofList word))
  else (integer? word).map .integer

/-- The word at the front of a text. A date and a time with a space between are one word. -/
def wordAt (s : List Char) : List Char :=
  let word := s.takeWhile isWordChar
  match s.drop word.length with
  | ' ' :: rest =>
    let time := rest.takeWhile isWordChar
    if isDate word && (time.head?.map Char.isDigit).getD false then word ++ ' ' :: time else word
  | _ => word

/-- Reads a number, a moment or a truth value. -/
def scalar : Reader Value := fun s => do
  let word := wordAt s
  let value ← scalar? (word.map fun c => if c = ' ' then 'T' else c)
  return (value, s.drop word.length)

end Tracepoint.Toml
