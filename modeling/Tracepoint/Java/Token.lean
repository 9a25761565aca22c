import Tracepoint.Text.Identifier
import Tracepoint.Text.Offset

/-!
# Java tokens

A source text is a sequence of tokens, comments and white space. Every token
knows the byte range it stands in; comments are kept apart as bare ranges,
because they can stand between any two tokens.

A `>` is always a token of its own, so that the brackets of nested type
arguments close one at a time. Operators that contain `>` are put together
again from adjacent tokens by the expression rules.

Scanning ends because every piece takes at least one character off the text.
-/

namespace Tracepoint.Java

open Text

/-- A range of byte offsets of a source text. -/
structure Span where
  start : Nat
  stop : Nat
deriving DecidableEq, Repr, Inhabited

/-- The classes of tokens. A `stray` token is a character that starts no token of the
    language; no rule accepts it. -/
inductive Lexeme where
  | word
  | number
  | character
  | string
  | symbol
  | stray
deriving DecidableEq, Repr, Inhabited

structure Token where
  lexeme : Lexeme
  text : String
  span : Span
deriving DecidableEq, Repr, Inhabited

/-- The tokens and the comments of a source text, each in order. -/
structure Lexed where
  tokens : List Token := []
  comments : List Span := []
deriving Repr, Inhabited

/-! ## White space and comments -/

/-- White space between tokens: tab, line feed, vertical tab, form feed, carriage return
    and space. -/
def isGap (c : Char) : Bool := (0x09 ≤ c.toNat && c.toNat ≤ 0x0d) || c == ' '

/-- The number of characters up to and including the next `*/`. -/
def blockCommentTail? : List Char → Option Nat
  | [] => none
  | '*' :: '/' :: _ => some 2
  | _ :: cs => (blockCommentTail? cs).map (· + 1)

/-- The number of characters that a comment takes after its first slash. -/
def commentTail? : List Char → Option Nat
  | '/' :: cs => some ((cs.takeWhile (· != '\n')).length + 1)
  | '*' :: cs => (blockCommentTail? cs).map (· + 1)
  | _ => none

/-! ## Numbers -/

/-- The length of the longest run of digits, with underscores between digits, that starts
    at a digit. -/
def digitRun (isDigit : Char → Bool) (cs : List Char) : Nat :=
  let run := cs.takeWhile fun c => isDigit c || c == '_'
  if (cs.head?.map isDigit).getD false then (run.reverse.dropWhile (· == '_')).length else 0

def isHexDigit (c : Char) : Bool :=
  c.isDigit || ('a' ≤ c && c ≤ 'f') || ('A' ≤ c && c ≤ 'F')

def isOctalDigit (c : Char) : Bool := '0' ≤ c && c ≤ '7'

def isBinaryDigit (c : Char) : Bool := c == '0' || c == '1'

def isFloatSuffix (c : Char) : Bool := c == 'f' || c == 'F' || c == 'd' || c == 'D'

def isLongSuffix (c : Char) : Bool := c == 'l' || c == 'L'

/-- The length of an optional one-character suffix. -/
def suffixLength (p : Char → Bool) (cs : List Char) : Nat :=
  if (cs.head?.map p).getD false then 1 else 0

/-- The length of an exponent: its mark, an optional sign and digits; 0 if there is none. -/
def exponentLength (isMark : Char → Bool) : List Char → Nat
  | [] => 0
  | c :: cs =>
    if isMark c then
      let sign := suffixLength (fun d => d == '+' || d == '-') cs
      let digits := digitRun Char.isDigit (cs.drop sign)
      if digits = 0 then 0 else 1 + sign + digits
    else 0

/-- The length of a number with a radix mark such as `0x`, whose digits start at `cs`. -/
def radixLength (isDigit : Char → Bool) (cs : List Char) : Nat :=
  let digits := digitRun isDigit cs
  if digits = 0 then 0 else 2 + digits + suffixLength isLongSuffix (cs.drop digits)

/-- The length of a hexadecimal floating-point number after `0x`, or 0. -/
def hexFloatLength (cs : List Char) : Nat :=
  let whole := digitRun isHexDigit cs
  let rest := cs.drop whole
  let part := match rest with
    | '.' :: more => 1 + digitRun isHexDigit more
    | _ => 0
  let exponent := exponentLength (fun c => c == 'p' || c == 'P') (rest.drop part)
  if exponent = 0 || whole + part ≤ 1 then 0
  else 2 + whole + part + exponent + suffixLength isFloatSuffix (rest.drop (part + exponent))

/-- The length of the decimal number at the start of `cs`. An integer with a leading zero
    is octal and ends before a digit `8` or `9`. -/
def decimalLength (cs : List Char) : Nat :=
  let whole := digitRun Char.isDigit cs
  let rest := cs.drop whole
  let isMark : Char → Bool := fun c => c == 'e' || c == 'E'
  match rest with
  | '.' :: more =>
    let part := digitRun Char.isDigit more
    let exponent := exponentLength isMark (more.drop part)
    whole + 1 + part + exponent + suffixLength isFloatSuffix (more.drop (part + exponent))
  | _ =>
    let exponent := exponentLength isMark rest
    let suffix := suffixLength isFloatSuffix (rest.drop exponent)
    if exponent + suffix = 0 then
      let digits := if cs.head? = some '0' then max 1 (digitRun isOctalDigit cs) else whole
      digits + suffixLength isLongSuffix (cs.drop digits)
    else whole + exponent + suffix

/-- The length of the number at the start of a text that starts with a digit, or with a
    point and a digit. -/
def numberLength (cs : List Char) : Nat :=
  let marked := match cs with
    | '0' :: m :: more =>
      if m == 'x' || m == 'X' then max (radixLength isHexDigit more) (hexFloatLength more)
      else if m == 'b' || m == 'B' then radixLength isBinaryDigit more
      else if m == 'o' || m == 'O' then radixLength isOctalDigit more
      else 0
    | _ => 0
  max marked (decimalLength cs)

/-! ## Characters and strings -/

/-- The number of characters up to and including the quote that closes a character
    literal. -/
def characterTail? : List Char → Option Nat
  | [] => none
  | '\x27' :: _ => some 1
  | '\\' :: _ :: cs => (characterTail? cs).map (· + 2)
  | c :: cs => if c == '\n' || c == '\\' then none else (characterTail? cs).map (· + 1)

/-- Whether the text after a backslash starts an escape: any character but `x` and `u`
    does, `x` needs two hexadecimal digits, and `u` four or some in braces. -/
def isEscape : List Char → Bool
  | [] => false
  | 'x' :: cs => (cs.take 2).length == 2 && (cs.take 2).all isHexDigit
  | 'u' :: '{' :: cs =>
    let digits := cs.takeWhile isHexDigit
    !digits.isEmpty && (cs.drop digits.length).head? == some '}'
  | 'u' :: cs => (cs.take 4).length == 4 && (cs.take 4).all isHexDigit
  | _ => true

/-- The number of characters up to and including the quote that closes a string. -/
def stringTail? : List Char → Option Nat
  | [] => none
  | '"' :: _ => some 1
  | '\\' :: c :: cs =>
    if isEscape (c :: cs) then (stringTail? cs).map (· + 2) else none
  | c :: cs => if c == '\\' then none else (stringTail? cs).map (· + 1)

/-- The number of characters up to and including the three quotes that close a text
    block. -/
def textBlockTail? : List Char → Option Nat
  | [] => none
  | '"' :: '"' :: '"' :: _ => some 3
  | '\\' :: _ :: cs => (textBlockTail? cs).map (· + 2)
  | _ :: cs => (textBlockTail? cs).map (· + 1)

/-- The number of characters that a string takes after its first quote. -/
def quotedTail? : List Char → Option Nat
  | '"' :: '"' :: cs => (textBlockTail? cs).map (· + 2)
  | cs => stringTail? cs

/-! ## Symbols -/

/-- The symbols of more than one character, longer ones first. -/
def longSymbols : List (List Char) :=
  ["@interface", "...", "<<=", "->", "::", "==", "!=", "<=", "&&", "||", "++", "--", "+=",
    "-=", "*=", "/=", "&=", "|=", "^=", "%=", "<<"].map String.toList

/-- The symbols of one character. -/
def shortSymbols : List Char := "()\x7b\x7d[];,.@=<>!~?:+-*/&|^%".toList

/-- The number of characters that a symbol takes after its first. -/
def symbolTail? (c : Char) (cs : List Char) : Option Nat :=
  match longSymbols.find? (startsWith · (c :: cs)) with
  | some symbol => some (symbol.length - 1)
  | none => if shortSymbols.contains c then some 0 else none

/-! ## Scanning -/

/-- What a stretch of source text is. -/
inductive Piece where
  | gap
  | comment
  | token (lexeme : Lexeme)
deriving DecidableEq, Repr

/-- The piece that starts with `c` and how many of the characters `cs` belong to it. -/
def pieceAt (c : Char) (cs : List Char) : Piece × Nat :=
  if isGap c then (.gap, 0)
  else if isIdentifierStart c then (.token .word, (cs.takeWhile isIdentifierPart).length)
  else if c.isDigit || (c == '.' && (cs.head?.map Char.isDigit).getD false) then
    (.token .number, numberLength (c :: cs) - 1)
  else if c == '"' then
    match quotedTail? cs with
    | some n => (.token .string, n)
    | none => (.token .stray, 0)
  else if c == '\x27' then
    match characterTail? cs with
    | some n => if n = 1 then (.token .stray, 0) else (.token .character, n)
    | none => (.token .stray, 0)
  else
    match (if c == '/' then commentTail? cs else none) with
    | some n => (.comment, n)
    | none =>
      match symbolTail? c cs with
      | some n => (.token .symbol, n)
      | none => (.token .stray, 0)

/-- The tokens and comments of the text `cs`, which starts at the byte offset `pos`. -/
def lexAt (pos : Nat) : List Char → Lexed
  | [] => {}
  | c :: cs =>
    let (piece, n) := pieceAt c cs
    let text := c :: cs.take n
    let stop := pos + byteSize text
    let rest := lexAt stop (cs.drop n)
    match piece with
    | .gap => rest
    | .comment => { rest with comments := ⟨pos, stop⟩ :: rest.comments }
    | .token lexeme =>
      { rest with tokens := ⟨lexeme, String.ofList text, ⟨pos, stop⟩⟩ :: rest.tokens }
  termination_by cs => cs.length
  decreasing_by grind

/-- The tokens and comments of a source text. A byte order mark at the start is skipped and
    counts for the offsets. -/
def lex : List Char → Lexed
  | c :: cs => if c == '\ufeff' then lexAt c.utf8Size cs else lexAt 0 (c :: cs)
  | [] => {}

end Tracepoint.Java
