import Tracepoint.Java.Grammar.Level

/-!
# Types, annotations and parameters

The rules for names, annotations, types, type parameters and formal parameters.

A parameter that is called `this` is a receiver and no parameter, except that
one with modifiers in front is read as an ordinary parameter.
-/

namespace Tracepoint.Java.Grammar

open Rule

variable (g : Level)

/-! ## Names and annotations -/

/-- One word, or several with dots between. -/
def dottedName : Rule Nodes :=
  any [node .qualifiedName (all [anyWord, many1 (all [tok ".", anyWord])]), anyWord]

def annotationUse : Rule Nodes :=
  let pair := all [skip anyWord, tok "=", g.elementValue]
  let arguments := all [tok "(", any [all [g.elementValue, tok ")"],
    all [commaSep pair, tok ")"]]]
  node .other (all [tok "@", skip dottedName, opt arguments])

def elementValue : Rule Nodes :=
  any [g.expression,
    all [tok "\x7b", commaSep g.elementValue, opt (tok ","), tok "\x7d"],
    annotationUse g]

def modifierWords : List String :=
  ["public", "protected", "private", "abstract", "static", "final", "strictfp", "default",
    "synchronized", "native", "transient", "volatile", "sealed"]

def modifiers : Rule Nodes :=
  node .modifiers (many1 (any [annotationUse g, tokIn modifierWords,
    glued ["non", "-", "sealed"]]))

/-! ## Types -/

def primitiveTypes : List String :=
  ["byte", "short", "int", "long", "char", "float", "double", "boolean", "void"]

def wildcard : Rule Nodes :=
  all [many (annotationUse g), tok "?", opt (all [tokIn ["extends", "super"], g.type])]

def typeArguments : Rule Nodes :=
  all [tok "<", commaSep (any [g.type, wildcard g]), tok ">"]

/-- A type without array dimensions. -/
def simpleType : Rule Nodes :=
  let named := all [skip identifier, opt (typeArguments g)]
  any [tokIn primitiveTypes,
    all [named, many (all [tok ".", many (annotationUse g), named])]]

def dimensions : Rule Nodes := many1 (all [many (annotationUse g), tok "[", tok "]"])

/-- A type without annotations in front. -/
def plainType : Rule Nodes := node .type (all [simpleType g, opt (dimensions g)])

def type : Rule Nodes := any [plainType g, all [many1 (annotationUse g), plainType g]]

def typeList : Rule Nodes := commaSep1 (type g)

def typeParameters : Rule Nodes :=
  let bound := all [tok "extends", sepBy1 (type g) (tok "&")]
  all [tok "<", commaSep1 (all [many (annotationUse g), skip identifier, opt bound]), tok ">"]

/-! ## Declarators and parameters -/

/-- Reads the name of a variable. After a type any word is a name. -/
def variableName : Rule Nodes :=
  all [skip (wordExcept ["instanceof"]), opt (dimensions g)]

def declarator : Rule Nodes :=
  node .declarator (all [variableName g, opt (all [tok "=", g.initializer])])

def declarators : Rule Nodes := commaSep1 (declarator g)

def parameter : Rule Nodes :=
  node .parameter (any [
    all [modifiers g, asRole .type (plainType g), variableName g],
    all [asRole .type (plainType g), skip (wordExcept ["this"]), opt (dimensions g)]])

def spreadParameter : Rule Nodes :=
  node .spreadParameter (all [opt (modifiers g), plainType g, tok "...",
    many (annotationUse g), declarator g])

def receiver : Rule Nodes :=
  node .other (all [plainType g, many (all [skip identifier, tok "."]), tok "this"])

def annotatedReceiver : Rule Nodes := all [many1 (annotationUse g), receiver g]

def parameters : Rule Nodes :=
  let ordinary := any [parameter g, spreadParameter g]
  let first := any [receiver g, ordinary, annotatedReceiver g]
  node .parameters (all [tok "(",
    opt (all [first, many (all [tok ",", ordinary])]), tok ")"])

def throwsClause : Rule Nodes := all [tok "throws", typeList g]

end Tracepoint.Java.Grammar
