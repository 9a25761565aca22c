import Tracepoint.Java.Rule

/-!
# Levels of the grammar

The rules of a language refer to each other in circles: an expression can hold a
class body, which holds statements, which hold expressions. The circle is cut at
a few rules, collected in a `Level`. Every other rule is an ordinary function of
the level below it, and the level above is made from those functions. A text of
`n` tokens needs no more than `n` levels, because each step down follows a token.
-/

namespace Tracepoint.Java

/-- The rules through which the grammar refers to itself. -/
structure Level where
  type : Rule Nodes
  annotationUse : Rule Nodes
  expression : Rule Nodes
  operand : Rule Nodes
  plainOperand : Rule Nodes
  initializer : Rule Nodes
  elementValue : Rule Nodes
  recordPattern : Rule Nodes
  statement : Rule Nodes
  block : Rule Nodes
  classBody : Rule Nodes

/-- The level below all levels, which accepts nothing. -/
def Level.bottom : Level where
  type := Rule.reject
  annotationUse := Rule.reject
  expression := Rule.reject
  operand := Rule.reject
  plainOperand := Rule.reject
  initializer := Rule.reject
  elementValue := Rule.reject
  recordPattern := Rule.reject
  statement := Rule.reject
  block := Rule.reject
  classBody := Rule.reject

end Tracepoint.Java
