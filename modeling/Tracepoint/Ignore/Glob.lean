/-!
# Glob patterns

Patterns for paths. `?` stands for one byte and `*` for any bytes, neither for a
slash; `**` between slashes stands for any directories; `[a-z]` and `[!a-z]` are
classes of bytes; `\x7ba,b\x7d` is a choice; a backslash takes away the meaning
of the next character. A `[` that is never closed stands for itself, and so does
every `[` after it.

A pattern and a path are compared as UTF-8 bytes.
-/

namespace Tracepoint.Ignore

/-- A part of a pattern. -/
inductive Glob where
  | byte (value : UInt8)
  /-- One byte that is no slash. -/
  | one
  /-- Any bytes that are no slashes. -/
  | run
  /-- Directories in front of the rest. -/
  | leading
  /-- A slash, or directories between two slashes. -/
  | between
  /-- A slash and everything below. -/
  | beneath
  | oneOf (negated : Bool) (ranges : List (UInt8 × UInt8))
  | choice (branches : List (List Glob))
deriving Inhabited

namespace Glob

/-! ## Comparing -/

def slash : UInt8 := 47

/-- All ends of a text, the longest first. -/
def tails : List UInt8 → List (List UInt8)
  | [] => [[]]
  | b :: bs => (b :: bs) :: tails bs

/-- The rests of a text after any start without a slash. -/
def pastRun : List UInt8 → List (List UInt8)
  | [] => [[]]
  | b :: bs => (b :: bs) :: (if b = slash then [] else pastRun bs)

/-- The rests of a text after any start that ends in a slash. -/
def pastSlash : List UInt8 → List (List UInt8)
  | [] => []
  | b :: bs => (if b = slash then [bs] else []) ++ pastSlash bs

/-- The rest of a text after one byte that satisfies `p`. -/
def pastOne (p : UInt8 → Bool) : List UInt8 → List (List UInt8)
  | [] => []
  | b :: bs => if p b then [bs] else []

mutual

/-- What can be left of a text after a part of a pattern. -/
def past : Glob → List UInt8 → List (List UInt8)
  | .byte value, s => pastOne (· == value) s
  | .one, s => pastOne (· != slash) s
  | .run, s => pastRun s
  | .leading, s => s :: pastSlash s
  | .between, s => (pastOne (· == slash) s).flatMap fun rest => rest :: pastSlash rest
  | .beneath, s => (pastOne (· == slash) s).flatMap tails
  | .oneOf negated ranges, s =>
    pastOne (fun b => ranges.any (fun r => r.1 ≤ b && b ≤ r.2) != negated) s
  | .choice branches, s =>
    if branches.all (·.isEmpty) then [s] else pastBranches branches s

/-- What can be left of a text after the parts of a pattern. -/
def pastAll : List Glob → List UInt8 → List (List UInt8)
  | [], s => [s]
  | g :: gs, s => ((past g s).eraseDups.flatMap (pastAll gs)).eraseDups

/-- What can be left of a text after one of some patterns. Empty ones do not count. -/
def pastBranches : List (List Glob) → List UInt8 → List (List UInt8)
  | [], _ => []
  | gs :: more, s => (if gs.isEmpty then [] else pastAll gs s) ++ pastBranches more s

end

/-- Whether a pattern stands for a whole text. Directories alone stand for everything. -/
def accepts (pattern : List Glob) (s : List UInt8) : Bool :=
  match pattern with
  | [.leading] => true
  | _ => (pastAll pattern s).any (·.isEmpty)

/-! ## Reading -/

/-- The bytes of a character. -/
def bytesOf (c : Char) : List UInt8 := c.toString.toUTF8.toList

/-- The parts that stand for a character. -/
def literal (c : Char) : List Glob := (bytesOf c).map .byte

/-- The byte ranges of a character range. -/
def rangeBytes (low high : Char) : List (UInt8 × UInt8) :=
  let single (b : UInt8) := (b, b)
  if low = high then (bytesOf low).map single
  else
    match (bytesOf low).getLast?, bytesOf high with
    | some last, first :: more =>
      (bytesOf low).dropLast.map single ++ [(last, first)] ++ more.map single
    | _, _ => []

/-- A class that is being read: the finished ranges, newest first, and whether the newest
    waits for its upper end. -/
structure OpenClass where
  ranges : List (Char × Char) := []
  waiting : Bool := false

/-- A class with one more character; none if that makes a range run backwards. -/
def OpenClass.push (k : OpenClass) (c : Char) : Option OpenClass :=
  match k.waiting, k.ranges with
  | true, (low, _) :: more => if c < low then none else some ⟨(low, c) :: more, false⟩
  | _, ranges => some ⟨(c, c) :: ranges, false⟩

/-- What the text after a `[` turns out to be. -/
inductive ClassEnd where
  /-- A class, and how many characters it takes. -/
  | closed (ranges : List (Char × Char)) (length : Nat)
  | unclosed
  | invalid

/-- Reads a class up to its closing bracket, after `length` characters. -/
def readClass (k : OpenClass) (length : Nat) : List Char → ClassEnd
  | [] => .unclosed
  | c :: rest =>
    if c = ']' && !k.ranges.isEmpty then
      let ranges := if k.waiting then ('-', '-') :: k.ranges else k.ranges
      .closed ranges.reverse (length + 1)
    else if c = '-' && !k.ranges.isEmpty && !k.waiting then
      readClass { k with waiting := true } (length + 1) rest
    else
      match k.push c with
      | some k' => readClass k' (length + 1) rest
      | none => .invalid

/-- The class after a `[`. -/
def classAfter (rest : List Char) : Bool × ClassEnd :=
  match rest with
  | '!' :: more => (true, readClass {} 1 more)
  | '^' :: more => (true, readClass {} 1 more)
  | _ => (false, readClass {} 0 rest)

/-- A branch of a choice that is being read, and the branches before it. -/
structure Branches where
  /-- The parts of the newest branch, newest first. -/
  current : List Glob := []
  finished : List (List Glob) := []
deriving Inhabited

/-- A pattern that is being read: the choices that are open, innermost first, around the
    pattern itself. -/
structure Reading where
  inner : List Branches := []
  outer : List Glob := []
  /-- Whether a `[` still opens a class. -/
  classes : Bool := true
deriving Inhabited

namespace Reading

/-- The parts read at the innermost level, newest first. -/
def parts (r : Reading) : List Glob :=
  match r.inner with
  | [] => r.outer
  | b :: _ => b.current

def setParts (r : Reading) (gs : List Glob) : Reading :=
  match r.inner with
  | [] => { r with outer := gs }
  | b :: more => { r with inner := { b with current := gs } :: more }

def push (r : Reading) (gs : List Glob) : Reading := r.setParts (gs.reverse ++ r.parts)

def openChoice (r : Reading) : Reading := { r with inner := {} :: r.inner }

def closeChoice (r : Reading) : Option Reading :=
  match r.inner with
  | [] => none
  | b :: more =>
    let branches := (b.current.reverse :: b.finished).reverse
    some (({ r with inner := more } : Reading).push [.choice branches])

def comma (r : Reading) : Reading :=
  match r.inner with
  | [] => r.push (literal ',')
  | b :: more =>
    { r with inner := ⟨[], b.current.reverse :: b.finished⟩ :: more }

/-- Replaces the newest part, which is a slash, by directories. Directories at the front
    stay. -/
def absorb (r : Reading) (g : Glob) : Reading :=
  match r.parts with
  | .leading :: _ => r
  | .beneath :: _ => r
  | _ :: gs => r.setParts (g :: gs)
  | [] => r.setParts [g]

/-- Two stars, after the character `previous` and before `next`: the reading after them, and
    whether a slash after them is taken in. -/
def twoStars (r : Reading) (previous next : Option Char) : Reading × Bool :=
  let inChoice := !r.inner.isEmpty
  let plain := (r.push [.run, .run], false)
  if r.parts.isEmpty then
    if next = none || next = some '/' then (r.push [.leading], true) else plain
  else if previous ≠ some '/' &&
      !(inChoice && (previous = some ',' || previous = some '\x7b')) then plain
  else if next = none || (inChoice && (next = some ',' || next = some '\x7d')) then
    (r.absorb .beneath, false)
  else if next = some '/' then (r.absorb .between, true)
  else plain

end Reading

/-- Reads the rest of a pattern after the character `previous`. -/
def readFrom (r : Reading) (previous : Option Char) : List Char → Option (List Glob)
  | [] => if r.inner.isEmpty then some r.outer.reverse else none
  | c :: rest =>
    if c = '?' then readFrom (r.push [.one]) (some c) rest
    else if c = '*' then
      if rest.head? = some '*' then
        let (r', taken) := r.twoStars previous (rest.drop 1).head?
        if taken then readFrom r' (some '/') (rest.drop 2)
        else readFrom r' (some '*') (rest.drop 1)
      else readFrom (r.push [.run]) (some c) rest
    else if c = '[' && r.classes then
      match classAfter rest with
      | (negated, .closed ranges length) =>
        let bytes := ranges.flatMap fun p => rangeBytes p.1 p.2
        readFrom (r.push [.oneOf negated bytes]) (some ']') (rest.drop length)
      | (_, .unclosed) => readFrom ({ r with classes := false }.push (literal c)) (some c) rest
      | (_, .invalid) => none
    else if c = '\x7b' then readFrom r.openChoice (some c) rest
    else if c = '\x7d' then
      match r.closeChoice with
      | some r' => readFrom r' (some c) rest
      | none => none
    else if c = ',' then readFrom r.comma (some c) rest
    else if c = '\\' then
      match rest.head? with
      | none => none
      | some escaped => readFrom (r.push (literal escaped)) (some escaped) (rest.drop 1)
    else readFrom (r.push (literal c)) (some c) rest
  termination_by s => s.length
  decreasing_by all_goals grind

/-- Reads a pattern; none if it is malformed. -/
def parse? (pattern : List Char) : Option (List Glob) := readFrom {} none pattern

end Glob

end Tracepoint.Ignore
