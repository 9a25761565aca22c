import Tracepoint.Java.Grammar.Expressions

/-!
# Declarations and statements

Declarations of every kind are statements, so that packages, imports and types
can stand wherever a statement can.

A call of another constructor is accepted only as the first statement of a
constructor body.
-/

namespace Tracepoint.Java.Grammar

open Rule

variable (g : Level)

/-! ## Bodies and members -/

def block : Rule Nodes := node .block (all [tok "\x7b", many g.statement, tok "\x7d"])

def field : Rule Nodes :=
  node .other (all [opt (modifiers g), plainType g, declarators g, tok ";"])

def method : Rule Nodes :=
  node .methodDeclaration (all [opt (modifiers g),
    opt (all [typeParameters g, many (annotationUse g)]),
    plainType g, asRole .name (wordExcept ["instanceof"]),
    asRole .parameters (parameters g), opt (dimensions g), opt (throwsClause g),
    any [asRole .body (block g), tok ";"]])

def constructorCall : Rule Nodes :=
  node .constructorCall (any [
    all [opt (typeArguments g), tokIn ["this", "super"], arguments g, tok ";"],
    all [primary g, tok ".", opt (typeArguments g), tok "super", arguments g, tok ";"]])

def constructorBody : Rule Nodes :=
  node .constructorBody (all [tok "\x7b", opt (constructorCall g), many g.statement,
    tok "\x7d"])

def constructor : Rule Nodes :=
  node .constructorDeclaration (all [opt (modifiers g), opt (typeParameters g),
    asRole .name identifier, asRole .parameters (parameters g), opt (throwsClause g),
    asRole .body (constructorBody g)])

/-- The constructor of a record that leaves its parameters out. -/
def compactConstructor : Rule Nodes :=
  node .other (all [opt (modifiers g), skip identifier, block g])

/-! ## Type declarations -/

def implementsClause : Rule Nodes := all [tok "implements", typeList g]

def permitsClause : Rule Nodes := all [tok "permits", typeList g]

def classDeclaration : Rule Nodes :=
  node .classDeclaration (all [opt (modifiers g), tok "class", asRole .name anyWord,
    opt (typeParameters g), opt (all [tok "extends", type g]), opt (implementsClause g),
    opt (permitsClause g), asRole .body g.classBody])

def recordDeclaration : Rule Nodes :=
  node .recordDeclaration (all [opt (modifiers g), tok "record", asRole .name identifier,
    opt (typeParameters g), asRole .parameters (parameters g), opt (implementsClause g),
    asRole .body g.classBody])

/-- A member of a class, an enum or a record; `nested` reads the type declarations. -/
def memberWith (nested : Rule Nodes) : Rule Nodes :=
  any [tok ";", block g, all [tok "static", block g], nested, method g, constructor g,
    compactConstructor g, field g]

def enumConstant : Rule Nodes :=
  node .enumConstant (all [opt (modifiers g), asRole .name identifier, opt (arguments g),
    opt (asRole .body g.classBody)])

def enumDeclarationWith (nested : Rule Nodes) : Rule Nodes :=
  let declarations := node .enumBodyDeclarations (all [tok ";", many (memberWith g nested)])
  let body := node .enumBody (all [tok "\x7b", commaSep (enumConstant g), opt (tok ","),
    opt declarations, tok "\x7d"])
  node .enumDeclaration (all [opt (modifiers g), tok "enum", asRole .name anyWord,
    opt (implementsClause g), asRole .body body])

def interfaceDeclarationWith (nested : Rule Nodes) : Rule Nodes :=
  let member := any [tok ";", nested, method g, field g]
  let body := node .interfaceBody (all [tok "\x7b", many member, tok "\x7d"])
  node .interfaceDeclaration (all [opt (modifiers g), tok "interface", asRole .name anyWord,
    opt (typeParameters g), opt (all [tok "extends", typeList g]), opt (permitsClause g),
    asRole .body body])

def annotationElement : Rule Nodes :=
  node .other (all [opt (modifiers g), plainType g, skip anyWord, tok "(", tok ")",
    opt (dimensions g), opt (all [tok "default", g.elementValue]), tok ";"])

def annotationTypeDeclarationWith (nested : Rule Nodes) : Rule Nodes :=
  let member := any [tok ";", nested, annotationElement g, field g]
  let body := node .annotationTypeBody (all [tok "\x7b", many member, tok "\x7d"])
  node .annotationTypeDeclaration (all [opt (modifiers g), tok "@interface",
    asRole .name anyWord, asRole .body body])

/-- A type declaration, read as a statement of the level below where it stands in a body
    of an enum, an interface or an annotation type. -/
def typeDeclaration : Rule Nodes :=
  let starts := ahead (all [opt (modifiers g),
    tokIn ["class", "record", "enum", "interface", "@interface"]])
  let nested := all [starts, g.statement]
  any [classDeclaration g, recordDeclaration g, enumDeclarationWith g nested,
    interfaceDeclarationWith g nested, annotationTypeDeclarationWith g nested]

def classBody : Rule Nodes :=
  node .classBody (all [tok "\x7b", many (memberWith g (typeDeclaration g)), tok "\x7d"])

/-! ## Other declarations -/

def packageDeclaration : Rule Nodes :=
  node .packageDeclaration (all [many (annotationUse g), tok "package", dottedName, tok ";"])

def importDeclaration : Rule Nodes :=
  node .importDeclaration (all [tok "import", opt (tok "static"), dottedName,
    opt (all [tok ".", tok "*"]), tok ";"])

def moduleDeclaration : Rule Nodes :=
  let names := commaSep1 (skip dottedName)
  let directive := any [
    all [tok "requires", many (tokIn ["transitive", "static"]), skip dottedName, tok ";"],
    all [tokIn ["exports", "opens"], skip dottedName, opt (all [tok "to", names]), tok ";"],
    all [tok "uses", skip dottedName, tok ";"],
    all [tok "provides", skip dottedName, tok "with", names, tok ";"]]
  node .other (all [many (annotationUse g), opt (tok "open"), tok "module", skip dottedName,
    tok "\x7b", many directive, tok "\x7d"])

/-! ## Statements -/

def localVariables : Rule Nodes :=
  all [opt (modifiers g), plainType g, declarators g, tok ";"]

def catchClause : Rule Nodes :=
  all [tok "catch", tok "(", opt (modifiers g), sepBy1 (plainType g) (tok "|"),
    variableName g, tok ")", block g]

def finallyClause : Rule Nodes := all [tok "finally", block g]

def tryStatement : Rule Nodes :=
  let named := all [opt (modifiers g), plainType g, variableName g, tok "=", g.expression]
  let reused := all [any [skip identifier, tok "this"], many (all [tok ".", memberName])]
  let resources := all [tok "(", sepBy1 (any [named, reused]) (tok ";"), opt (tok ";"),
    tok ")"]
  any [
    all [tok "try", block g,
      any [all [many1 (catchClause g), opt (finallyClause g)], finallyClause g]],
    all [tok "try", resources, block g, many (catchClause g), opt (finallyClause g)]]

def forStatement : Rule Nodes :=
  let start := any [localVariables g, all [commaSep (expression g), tok ";"]]
  any [
    all [tok "for", tok "(", opt (modifiers g), plainType g, variableName g, tok ":",
      g.expression, tok ")", g.statement],
    all [tok "for", tok "(", start, opt g.expression, tok ";", commaSep g.expression,
      tok ")", g.statement]]

/-- The statements that start with a word of their own. -/
def wordStatement : Rule Nodes :=
  any [
    all [tok "if", parenthesized g, g.statement, opt (all [tok "else", g.statement])],
    all [tok "while", parenthesized g, g.statement],
    forStatement g,
    all [tok "assert", g.expression, opt (all [tok ":", g.expression]), tok ";"],
    all [tok "do", g.statement, tok "while", parenthesized g, tok ";"],
    all [tokIn ["break", "continue"], opt (skip anyWord), tok ";"],
    all [tok "return", opt g.expression, tok ";"],
    all [tok "yield", g.expression, tok ";"],
    all [tok "synchronized", parenthesized g, block g],
    all [tok "throw", g.expression, tok ";"],
    tryStatement g,
    switchExpression g]

/-- The statements that look at more than one token. -/
def openStatement : Rule Nodes :=
  any [typeDeclaration g, packageDeclaration g, importDeclaration, moduleDeclaration g,
    node .other (localVariables g),
    node .other (all [skip identifier, tok ":", g.statement]),
    node .other (all [expression g, tok ";"])]

/-- Statements are nodes, so that a type declared in one is told from a member type. -/
def statement : Rule Nodes :=
  any [tok ";", block g, node .other (wordStatement g), openStatement g]

/-- A whole source file: statements and methods in any order. -/
def program : Rule Nodes := node .program (many (any [statement g, method g]))

end Tracepoint.Java.Grammar
