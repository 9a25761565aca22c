import Tracepoint.Java.Grammar.Statements
import Tracepoint.Text.Blank

/-!
# Parsing

A source text is accepted when the rule for whole files reads all of its tokens.
The result is its syntax tree, comments included.

Where a text is not accepted, the first error is described by the smallest
change of one token at the furthest point reached: a short token without which
the text is acceptable, or else a missing token with which it is.
-/

namespace Tracepoint.Java

open Text

/-! ## Accepting -/

/-- The level above `g`. -/
def Level.above (g : Level) : Level where
  type := Grammar.type g
  annotationUse := Grammar.annotationUse g
  expression := Grammar.expression g
  operand := Grammar.operand g
  plainOperand := Grammar.plainOperand g
  initializer := Grammar.initializer g
  elementValue := Grammar.elementValue g
  recordPattern := Grammar.recordPattern g
  statement := Grammar.statement g
  block := Grammar.block g
  classBody := Grammar.classBody g

/-- The level of a given height. -/
def Level.ofHeight : Nat → Level
  | 0 => .bottom
  | n + 1 => (Level.ofHeight n).above

/-- The syntax tree of a sequence of tokens, or how many tokens were left at the furthest
    point reached. -/
def treeOfTokens (tokens : List Token) : Except Nat Node :=
  let count := tokens.length
  match Grammar.program (.ofHeight (count + 1)) ⟨tokens, count, 0, count⟩ with
  | .failed reach => .error reach
  | .done nodes after =>
    match nodes, after.rest with
    | [root], [] => .ok root
    | _, _ => .error (min after.left after.reach)

/-! ## Describing errors -/

/-- Where a text stops being acceptable, and why. -/
structure SyntaxError where
  line : Nat
  message : String
deriving DecidableEq, Repr, Inhabited

/-- The tokens that are tried as missing ones. -/
def missingCandidates : List String := [";", ")", "]", "\x7d", "(", "\x7b"]

/-- The message for a part of the text that fits nowhere: its start, at most 40 characters. -/
def unexpected (source : List Char) (span : Span) : SyntaxError :=
  let near := String.ofList (trim ((slice source span.start span.stop).take 40))
  ⟨lineAt source span.start, s!"syntax error near `{near}`"⟩

/-- The length from which on a missing token explains an error better than a superfluous
    one does. -/
def longToken : Nat := 10

/-- Describes the first error of a text with the given tokens, of which `left` were left at
    the furthest point. -/
def describeError (source : List Char) (tokens : List Token) (left : Nat) : SyntaxError :=
  let before := tokens.take (tokens.length - left)
  let after := tokens.drop (tokens.length - left)
  let stop := ((before.getLast?).map (·.span.stop)).getD 0
  let accepts (ts : List Token) : Bool := (treeOfTokens ts).toOption.isSome
  let nearby := (before.getLast?).toList ++ after.head?.toList
  let superfluous := nearby.find? fun t => accepts (tokens.filter (·.span ≠ t.span))
  let missing := missingCandidates.find? fun s =>
    accepts (before ++ ⟨.symbol, s, ⟨stop, stop⟩⟩ :: after)
  let isShort := superfluous.any (·.text.length < longToken)
  match missing with
  | some s =>
    if isShort then unexpected source ((superfluous.map (·.span)).getD ⟨stop, stop⟩)
    else ⟨lineAt source stop, s!"missing `{s}`"⟩
  | none =>
    let whole : Span := ⟨((tokens.head?).map (·.span.start)).getD 0, byteSize source⟩
    unexpected source ((superfluous.map (·.span)).getD whole)

/-- The syntax tree of a source text, or its first error. -/
def parse (source : List Char) : Except SyntaxError Node :=
  let lexed := lex source
  match treeOfTokens lexed.tokens with
  | .ok root => .ok (root.withComments lexed.comments)
  | .error left => .error (describeError source lexed.tokens left)

end Tracepoint.Java
