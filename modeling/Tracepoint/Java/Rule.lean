import Tracepoint.Java.Tree

/-!
# Grammar rules

A rule reads tokens from the front of what is left and yields nodes, or fails.
Rules are combined by sequence, ordered choice and repetition. Choice goes back
to where it started when an alternative fails, so a rule accepts a text if one
of its alternatives does, tried in order.

Along the way every rule keeps account of the furthest point at which a token
was looked for in vain. Where a text is not accepted, this point is the place
of the first error.
-/

namespace Tracepoint.Java

/-- A point in the sequence of tokens. -/
structure Cursor where
  /-- The tokens that are left. -/
  rest : List Token
  /-- How many tokens are left. -/
  left : Nat
  /-- The end of the last token read. -/
  stop : Nat
  /-- The least number of tokens that were left when a token was looked for in vain. -/
  reach : Nat
deriving Repr, Inhabited

/-- The result of a rule: nodes and the point after them, or the furthest point reached. -/
inductive Outcome (α : Type) where
  | done (value : α) (after : Cursor)
  | failed (reach : Nat)
deriving Repr

abbrev Nodes := List Node

/-- A way to read tokens. -/
abbrev Rule (α : Type) := Cursor → Outcome α

namespace Rule

/-! ## Single tokens -/

/-- Fails at this point. -/
def reject {α : Type} : Rule α := fun c => .failed (min c.reach c.left)

/-- Reads one token that satisfies `p`. -/
def tokenWhere (p : Token → Bool) : Rule Token := fun c =>
  match c.rest with
  | t :: ts =>
    if p t then .done t ⟨ts, c.left - 1, t.span.stop, c.reach⟩ else reject c
  | [] => reject c

/-- Reads nothing. -/
def nothing : Rule Nodes := fun c => .done [] c

/-- Forgets the value of a rule. -/
def skip {α : Type} (p : Rule α) : Rule Nodes := fun c =>
  match p c with
  | .done _ c' => .done [] c'
  | .failed r => .failed r

/-- Reads the symbol or word `s`. -/
def tok (s : String) : Rule Nodes :=
  skip (tokenWhere fun t => t.text == s && (t.lexeme == .symbol || t.lexeme == .word))

/-- Reads one of some symbols or words. -/
def tokIn (ss : List String) : Rule Nodes :=
  skip (tokenWhere fun t => ss.contains t.text && (t.lexeme == .symbol || t.lexeme == .word))

/-- Reads a token of a class. -/
def lexeme (l : Lexeme) : Rule Nodes := skip (tokenWhere fun t => t.lexeme == l)

/-- Reads single symbols that follow each other without a gap. -/
def glued : List String → Rule Nodes
  | [] => nothing
  | [s] => tok s
  | s :: t :: more => fun c =>
    match tok s c with
    | .failed r => .failed r
    | .done _ c' =>
      match c'.rest with
      | next :: _ => if next.span.start = c'.stop then glued (t :: more) c' else reject c'
      | [] => reject c'

/-! ## Combination -/

/-- First `p`, then `q`. -/
def andThen (p q : Rule Nodes) : Rule Nodes := fun c =>
  match p c with
  | .failed r => .failed r
  | .done xs c' =>
    match q c' with
    | .failed r => .failed r
    | .done ys c'' => .done (xs ++ ys) c''

/-- One rule after the other. -/
def all : List (Rule Nodes) → Rule Nodes
  | [] => nothing
  | [p] => p
  | p :: q :: more => andThen p (all (q :: more))

/-- `p`, or `q` from the same point if `p` fails. -/
def orElse (p q : Rule Nodes) : Rule Nodes := fun c =>
  match p c with
  | .done xs c' => .done xs c'
  | .failed r => q { c with reach := min c.reach r }

/-- The first of some rules that accepts. -/
def any : List (Rule Nodes) → Rule Nodes
  | [] => reject
  | [p] => p
  | p :: q :: more => orElse p (any (q :: more))

/-- `p` if it accepts, else nothing. -/
def opt (p : Rule Nodes) : Rule Nodes := orElse p nothing

/-- Succeeds without reading if `p` would fail here. -/
def notAhead (p : Rule Nodes) : Rule Nodes := fun c =>
  match p c with
  | .done _ _ => reject c
  | .failed r => .done [] { c with reach := min c.reach r }

/-- Succeeds without reading if `p` would accept here. -/
def ahead (p : Rule Nodes) : Rule Nodes := fun c =>
  match p c with
  | .done _ _ => .done [] c
  | .failed r => .failed r

/-- `p` as often as it accepts and reads something, at most `fuel` times. -/
def manyUpTo (p : Rule Nodes) : Nat → Rule Nodes
  | 0 => nothing
  | fuel + 1 => fun c =>
    match p c with
    | .failed r => .done [] { c with reach := min c.reach r }
    | .done xs c' =>
      if c'.left < c.left then
        match manyUpTo p fuel c' with
        | .done ys c'' => .done (xs ++ ys) c''
        | .failed r => .failed r
      else .done xs c'

/-- `p` as often as it accepts. -/
def many (p : Rule Nodes) : Rule Nodes := fun c => manyUpTo p c.left c

/-- `p` at least once. -/
def many1 (p : Rule Nodes) : Rule Nodes := andThen p (many p)

/-- `p` at least once, with `sep` between. -/
def sepBy1 (p sep : Rule Nodes) : Rule Nodes := andThen p (many (andThen sep p))

/-- `p` any number of times, with commas between. -/
def commaSep (p : Rule Nodes) : Rule Nodes := opt (sepBy1 p (tok ","))

/-- `p` at least once, with commas between. -/
def commaSep1 (p : Rule Nodes) : Rule Nodes := sepBy1 p (tok ",")

/-! ## Nodes -/

/-- A node over what `p` reads, with the nodes of `p` as children. -/
def node (k : Kind) (p : Rule Nodes) : Rule Nodes := fun c =>
  match p c with
  | .failed r => .failed r
  | .done xs c' =>
    let start := (c.rest.head?.map (·.span.start)).getD c.stop
    .done [.mk k .none ⟨start, c'.stop⟩ xs] c'

/-- Gives the nodes of `p` a role. -/
def asRole (r : Role) (p : Rule Nodes) : Rule Nodes := fun c =>
  match p c with
  | .failed e => .failed e
  | .done xs c' => .done (xs.map (Node.withRole r)) c'

/-! ## Names -/

/-- The words that cannot be names. -/
def reservedWords : List String :=
  ["abstract", "assert", "boolean", "break", "byte", "case", "catch", "char", "class",
    "continue", "default", "do", "double", "else", "enum", "extends", "false", "final",
    "finally", "float", "for", "if", "implements", "import", "instanceof", "int", "interface",
    "long", "native", "new", "null", "package", "private", "protected", "public", "return",
    "short", "static", "strictfp", "super", "switch", "synchronized", "this", "throw",
    "throws", "transient", "true", "try", "void", "volatile", "while"]

/-- Reads a word that is not reserved. -/
def identifier : Rule Nodes :=
  node .name (skip (tokenWhere fun t => t.lexeme == .word && !reservedWords.contains t.text))

/-- Reads any word where only a name can stand. -/
def anyWord : Rule Nodes := node .name (lexeme .word)

/-- Reads any word but those given. -/
def wordExcept (words : List String) : Rule Nodes :=
  node .name (skip (tokenWhere fun t => t.lexeme == .word && !words.contains t.text))

end Rule

end Tracepoint.Java
