import Tracepoint.Java.Tree
import Tracepoint.Text.Blank

/-!
# Names of types and methods

A method is named by its signature and by the types around it, innermost first:

* a named type counts with its name, and a local type also with the signature of
  the method or constructor around it;
* an anonymous class is numbered among those of its type in document order;
* the body of an enum constant counts with the name of the constant.
-/

namespace Tracepoint.Source

open Java Text

/-- A parsed source text. -/
structure ParsedText where
  source : List Char
  root : Node
deriving Inhabited

namespace ParsedText

variable (t : ParsedText)

/-- The text of a node. -/
def nodeText (n : Node) : String := String.ofList (n.text t.source)

/-- The name that a declaration introduces. -/
def declaredName? (n : Node) : Option String := (n.child? .name).map t.nodeText

/-! ## Signatures -/

/-- The type of a parameter as it is written, without blanks; none for a receiver. -/
def parameterType? (parameter : Node) : Option String :=
  match parameter.kind with
  | .parameter =>
    let written := ((parameter.child? .type).map (·.text t.source)).getD []
    some (String.ofList (squeeze written))
  | .spreadParameter =>
    let first := parameter.children.find? fun c => c.kind ≠ .modifiers && c.kind ≠ .declarator
    let written := (first.map (·.text t.source)).getD []
    some (String.ofList (squeeze (written ++ "...".toList)))
  | _ => none

/-- The types of a list of parameters, in order. -/
def parameterTypes (parameters : Node) : List String :=
  parameters.children.filterMap t.parameterType?

/-- The name of a method or constructor and its parameter types. -/
def signature (declaration : Node) : String :=
  let name := (t.declaredName? declaration).getD ""
  let types := ((declaration.child? .parameters).map t.parameterTypes).getD []
  name ++ "(" ++ String.intercalate "," types ++ ")"

/-! ## Scopes -/

end ParsedText

/-- A type declaration that is not the member of a type or of the file. -/
def isLocalType (p : Place) : Bool :=
  match p.parent? with
  | some n => !n.kind.holdsMembers
  | none => false

/-- The creation of an object with a class body. -/
def isAnonymousCreation (n : Node) : Bool :=
  n.kind == .creation && n.children.any (·.kind == .classBody)

/-- A place that starts a scope for numbering: a type declaration, or the body of an
    anonymous class or of an enum constant. -/
def isTypeScope (p : Place) : Bool :=
  p.node.kind.isTypeDeclaration ||
    (p.node.kind == .classBody && (p.isChildOf .creation || p.isChildOf .enumConstant))

/-- The position of the innermost scope around a place; none if that is the file. -/
def typeScope? (p : Place) : Option (List Nat) := (p.outward.find? isTypeScope).map (·.position)

/-! ## Numbers -/

/-- Whether a place is the creation of an anonymous class in the scope of another place. -/
def isCounted (creation p : Place) : Bool :=
  isAnonymousCreation p.node && typeScope? p = typeScope? creation

/-- How the search for a creation goes on: it has been reached as the one of a number, or it has
    not, after some others. -/
inductive Search where
  | reached (number : Nat)
  | passed (count : Nat)
deriving DecidableEq, Repr, Inhabited

mutual

/-- Searches for a creation at and below a node, after `count` others of its scope. A node that
    starts after the creation is not entered. -/
def searchBelow (creation : Place) (above : List Node) (position : List Nat) (count : Nat) :
    Node → Search
  | .mk k r s cs =>
    let counted := isCounted creation ⟨.mk k r s cs, above, position⟩
    let count := if counted then count + 1 else count
    if counted && position = creation.position then .reached count
    else if s.start ≤ creation.node.span.start then
      searchBelowAll creation (.mk k r s cs :: above) position 0 count cs
    else .passed count

/-- Searches for a creation at and below siblings, of which the first has the index `i`. -/
def searchBelowAll (creation : Place) (above : List Node) (position : List Nat) (i count : Nat) :
    List Node → Search
  | [] => .passed count
  | n :: ns =>
    match searchBelow creation above (i :: position) count n with
    | .reached number => .reached number
    | .passed count => searchBelowAll creation above position (i + 1) count ns

end

/-- Searches for a creation in its scope. -/
def searchFor (root : Node) (creation : Place) : Search :=
  let scope := (creation.outward.find? isTypeScope).getD ⟨root, [], []⟩
  searchBelow creation scope.ancestors scope.position 0 scope.node

/-- The number of an anonymous class among those of its scope, in document order from 1. -/
def anonymousOrdinal (root : Node) (creation : Place) : Nat :=
  match searchFor root creation with
  | .reached number => number
  | .passed count => max count 1

namespace ParsedText

variable (t : ParsedText)

/-! ## Enclosing types -/

/-- The names that the places of a list contribute, innermost first. `isLocal` says whether
    the last named type was local and still waits for the method around it. -/
def enclosingNames (isLocal : Bool) : List Place → List String
  | [] => []
  | p :: outer =>
    if p.node.kind.isTypeDeclaration then
      (t.declaredName? p.node).toList ++ enclosingNames (isLocalType p) outer
    else if isLocal && p.node.kind.isCallable then
      t.signature p.node :: enclosingNames false outer
    else if p.node.kind == .classBody then
      match outer with
      | owner :: _ =>
        if owner.node.kind == .creation then
          s!"anonymous${anonymousOrdinal t.root owner}" :: enclosingNames false outer
        else if owner.node.kind == .enumConstant then
          (t.declaredName? owner.node).getD "anonymous" :: enclosingNames false outer
        else enclosingNames isLocal outer
      | [] => enclosingNames isLocal outer
    else enclosingNames isLocal outer

/-- The names of the types around a place, innermost first. -/
def enclosingTypes (p : Place) : List String := t.enclosingNames false p.outward

end ParsedText

end Tracepoint.Source
