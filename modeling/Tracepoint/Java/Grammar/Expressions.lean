import Tracepoint.Java.Grammar.Types

/-!
# Expressions

Which operand an operator takes does not show in any node that is kept, so
operators are read as one flat chain of operands. An operand that is a name, a
field or an array element can be followed by an assignment.

Inside a `case` label, `->` ends the label and starts no lambda. The rules for
labels use the plain operands, which leave lambdas out.
-/

namespace Tracepoint.Java.Grammar

open Rule

variable (g : Level)

/-! ## Parts -/

def arguments : Rule Nodes := all [tok "(", commaSep g.expression, tok ")"]

def parenthesized : Rule Nodes := all [tok "(", g.expression, tok ")"]

def arrayInitializer : Rule Nodes :=
  all [tok "\x7b", commaSep g.initializer, opt (tok ","), tok "\x7d"]

def literal : Rule Nodes :=
  any [lexeme .number, lexeme .character, lexeme .string, tokIn ["true", "false", "null"]]

/-- What follows `new` in the creation of an object. -/
def creationTail : Rule Nodes :=
  all [tok "new", many (annotationUse g), opt (typeArguments g), many (annotationUse g),
    simpleType g, arguments g, opt g.classBody]

def arrayCreation : Rule Nodes :=
  let sized := all [many (annotationUse g), tok "[", g.expression, tok "]"]
  all [tok "new", many (annotationUse g), simpleType g,
    any [all [many1 sized, opt (dimensions g)], all [dimensions g, arrayInitializer g]]]

/-- What follows `::` in a method reference. -/
def referenceTail : Rule Nodes :=
  all [tok "::", opt (typeArguments g), any [tok "new", skip identifier]]

def lambda : Rule Nodes :=
  let inferred := all [tok "(", commaSep1 (skip identifier), tok ")"]
  let bare := node .lambda (all [skip identifier, tok "->", any [g.block, g.expression]])
  let inParentheses := node .lambda (all [any [parameters g, inferred], tok "->",
    any [g.block, g.expression]])
  any [bare, inParentheses]

/-! ## Operands with suffixes -/

/-- An operand in the making: its nodes and whether it can be assigned to. -/
structure Operand where
  nodes : Nodes
  assignable : Bool

/-- What a suffix adds: nodes, the kind of node it makes of the operand so far, and whether
    the result can be assigned to. -/
structure Suffix where
  nodes : Nodes
  wrapper : Option Kind
  assignable : Bool

/-- Reads an operand by a rule. -/
def asOperand (assignable : Bool) (p : Rule Nodes) : Rule Operand := fun c =>
  match p c with
  | .done xs c' => .done ⟨xs, assignable⟩ c'
  | .failed r => .failed r

/-- Reads a suffix by a rule. -/
def asSuffix (wrapper : Option Kind) (assignable : Bool) (p : Rule Nodes) : Rule Suffix :=
  fun c =>
    match p c with
    | .done xs c' => .done ⟨xs, wrapper, assignable⟩ c'
    | .failed r => .failed r

/-- The first of some rules that accepts. -/
def firstOf {α : Type} : List (Rule α) → Rule α
  | [] => reject
  | p :: more => fun c =>
    match p c with
    | .done a c' => .done a c'
    | .failed r => firstOf more { c with reach := min c.reach r }

/-- A name after a dot. -/
def memberName : Rule Nodes := skip (wordExcept ["this", "super", "class", "new"])

def operandStart : Rule Operand :=
  let typed := plainType g
  firstOf [
    asOperand false (literal),
    asOperand false (node .methodReference (all [skip typed, referenceTail g])),
    asOperand false (all [skip typed, tok ".", tok "class"]),
    asOperand false (all [skip identifier, arguments g]),
    asOperand true (skip identifier),
    asOperand false (tok "this"),
    asOperand false (all [tok "super", ahead (tokIn [".", "::"])]),
    asOperand false (parenthesized g),
    asOperand false (arrayCreation g),
    asOperand false (node .creation (creationTail g))]

def suffix : Rule Suffix :=
  let throughSuper := opt (all [tok "super", tok "."])
  firstOf [
    asSuffix none true (all [tok "[", g.expression, tok "]"]),
    asSuffix (some .creation) false (all [tok ".", creationTail g]),
    asSuffix none false (all [tok ".", throughSuper, opt (typeArguments g), memberName,
      arguments g]),
    asSuffix none true (all [tok ".", throughSuper, any [memberName, tok "this"],
      notAhead (tok "(")]),
    asSuffix (some .methodReference) false (referenceTail g),
    asSuffix none false (all [tok ".", lexeme .string])]

/-- The nodes of an operand that starts at `start`, after a suffix that ends at `stop`. -/
def Operand.extend (start stop : Nat) (o : Operand) (s : Suffix) : Operand :=
  match s.wrapper with
  | some k => ⟨[.mk k .none ⟨start, stop⟩ (o.nodes ++ s.nodes)], s.assignable⟩
  | none => ⟨o.nodes ++ s.nodes, s.assignable⟩

/-- Reads suffixes as long as there are any, at most `fuel`. -/
def suffixesUpTo (start : Nat) : Nat → Operand → Rule Operand
  | 0, o => fun c => .done o c
  | fuel + 1, o => fun c =>
    match suffix g c with
    | .failed r => .done o { c with reach := min c.reach r }
    | .done s c' => suffixesUpTo start fuel (o.extend start c'.stop s) c'

def suffixed : Rule Operand := fun c =>
  match operandStart g c with
  | .failed r => .failed r
  | .done o c' =>
    let start := (c.rest.head?.map (·.span.start)).getD c.stop
    suffixesUpTo g start c'.left o c'

/-- An operand without regard to assignment. -/
def primary : Rule Nodes := fun c =>
  match suffixed g c with
  | .failed r => .failed r
  | .done o c' => .done o.nodes c'

/-! ## Operators -/

def assignmentOperator : Rule Nodes :=
  any [tokIn ["=", "+=", "-=", "*=", "/=", "&=", "|=", "^=", "%=", "<<="],
    glued [">", ">", ">", "="], glued [">", ">", "="]]

def binaryOperator : Rule Nodes :=
  any [tokIn ["<", "<=", "==", "!=", "&&", "||", "+", "-", "*", "/", "&", "|", "^", "%", "<<"],
    glued [">", ">", ">"], glued [">", ">"], glued [">", "="], tok ">"]

/-- An operand, then either an assignment to it or increments and decrements. -/
def updated : Rule Nodes := fun c =>
  match suffixed g c with
  | .failed r => .failed r
  | .done o c' =>
    let increments := many (tokIn ["++", "--"])
    let after :=
      if o.assignable then any [all [assignmentOperator, g.expression], increments]
      else increments
    match after c' with
    | .failed r => .failed r
    | .done xs c'' => .done (o.nodes ++ xs) c''

/-- An operand; `down` reads what follows a sign or a cast. -/
def operandWith (down : Rule Nodes) : Rule Nodes :=
  let cast := all [tok "(", sepBy1 (type g) (tok "&"), tok ")", down]
  any [all [tokIn ["+", "-", "!", "~", "++", "--"], down], cast, updated g]

def recordPattern : Rule Nodes :=
  let component := any [g.recordPattern, all [plainType g, skip identifier], tok "_"]
  all [simpleType g, tok "(", commaSep component, tok ")"]

def instanceofTail : Rule Nodes :=
  all [tok "instanceof", opt (tok "final"),
    any [recordPattern g, all [type g, opt (skip identifier)]]]

/-- Operands joined by operators; `down` reads the operands. -/
def chain (down : Rule Nodes) : Rule Nodes :=
  all [down, many (any [all [binaryOperator, down], instanceofTail g])]

def conditionalTail : Rule Nodes := all [tok "?", g.expression, tok ":", g.expression]

/-! ## Switches -/

def plainOperand : Rule Nodes := operandWith g g.plainOperand

/-- An expression that holds no lambda outside of brackets. -/
def labelExpression : Rule Nodes := all [chain g (plainOperand g), opt (conditionalTail g)]

def switchLabel : Rule Nodes :=
  let pattern := any [recordPattern g, all [plainType g, skip identifier]]
  let values := commaSep1 (any [labelExpression g, tok "default"])
  let guard := all [tok "when", labelExpression g]
  any [
    all [tok "case", pattern, opt guard, ahead (tokIn [":", "->"])],
    all [tok "case", values, opt guard],
    tok "default"]

def switchExpression : Rule Nodes :=
  let group := all [many1 (all [switchLabel g, tok ":"]), many g.statement]
  let body := any [
    all [g.expression, tok ";"],
    all [tok "throw", g.expression, tok ";"],
    g.block]
  let arrow := all [switchLabel g, tok "->", body]
  all [tok "switch", parenthesized g, tok "\x7b",
    any [all [many group, tok "\x7d"], all [many arrow, tok "\x7d"]]]

/-! ## Expressions -/

def operand : Rule Nodes :=
  any [lambda g, switchExpression g, operandWith g g.operand]

def expression : Rule Nodes := all [chain g (operand g), opt (conditionalTail g)]

def initializer : Rule Nodes := any [expression g, arrayInitializer g]

end Tracepoint.Java.Grammar
