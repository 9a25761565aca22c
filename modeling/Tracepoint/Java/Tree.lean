import Tracepoint.Java.Token

/-!
# Syntax trees

A syntax tree has a kind, a byte range and children in source order. Kinds are
told apart only as far as later stages look at them; all other constructs are
`other`. A child can play a named role in its parent.

Looking at a node together with everything around it is done through a `Place`:
the node, its ancestors and its position. `Node.places` lists all places of a
tree in document order, a node before its children. Two places of one tree are
the same exactly when their positions are.

Results:

* `Node.places_head`: the first place of a tree is its root.
-/

namespace Tracepoint.Java

/-- The constructs that later stages look for. -/
inductive Kind where
  | program
  | packageDeclaration
  | importDeclaration
  | classDeclaration
  | interfaceDeclaration
  | enumDeclaration
  | recordDeclaration
  | annotationTypeDeclaration
  | classBody
  | interfaceBody
  | enumBody
  | enumBodyDeclarations
  | annotationTypeBody
  | enumConstant
  | methodDeclaration
  | constructorDeclaration
  | constructorBody
  | constructorCall
  | block
  | parameters
  | parameter
  | spreadParameter
  | modifiers
  | declarator
  | name
  | qualifiedName
  | type
  | creation
  | lambda
  | methodReference
  | comment
  | other
deriving DecidableEq, Repr, Inhabited

namespace Kind

/-- The name under which a kind is known to users. -/
def label : Kind → String
  | program => "program"
  | packageDeclaration => "package_declaration"
  | importDeclaration => "import_declaration"
  | classDeclaration => "class_declaration"
  | interfaceDeclaration => "interface_declaration"
  | enumDeclaration => "enum_declaration"
  | recordDeclaration => "record_declaration"
  | annotationTypeDeclaration => "annotation_type_declaration"
  | classBody => "class_body"
  | interfaceBody => "interface_body"
  | enumBody => "enum_body"
  | enumBodyDeclarations => "enum_body_declarations"
  | annotationTypeBody => "annotation_type_body"
  | enumConstant => "enum_constant"
  | methodDeclaration => "method_declaration"
  | constructorDeclaration => "constructor_declaration"
  | constructorBody => "constructor_body"
  | constructorCall => "explicit_constructor_invocation"
  | block => "block"
  | parameters => "formal_parameters"
  | parameter => "formal_parameter"
  | spreadParameter => "spread_parameter"
  | modifiers => "modifiers"
  | declarator => "variable_declarator"
  | name => "identifier"
  | qualifiedName => "scoped_identifier"
  | type => "type"
  | creation => "object_creation_expression"
  | lambda => "lambda_expression"
  | methodReference => "method_reference"
  | comment => "comment"
  | other => "other"

/-- The declarations that introduce a named type. -/
def isTypeDeclaration : Kind → Bool
  | classDeclaration | interfaceDeclaration | enumDeclaration | recordDeclaration
  | annotationTypeDeclaration => true
  | _ => false

/-- The declarations that have parameters and a signature. -/
def isCallable : Kind → Bool
  | methodDeclaration | constructorDeclaration => true
  | _ => false

/-- The constructs that hold member types, next to the file itself. -/
def holdsMembers : Kind → Bool
  | program | classBody | interfaceBody | enumBody | enumBodyDeclarations
  | annotationTypeBody => true
  | _ => false

end Kind

/-- The role of a child in its parent. -/
inductive Role where
  | none
  | name
  | type
  | parameters
  | body
deriving DecidableEq, Repr, Inhabited

/-- A syntax tree. -/
inductive Node where
  | mk (kind : Kind) (role : Role) (span : Span) (children : List Node)
deriving Repr, Inhabited

namespace Node

def kind : Node → Kind
  | mk k _ _ _ => k

def role : Node → Role
  | mk _ r _ _ => r

def span : Node → Span
  | mk _ _ s _ => s

def children : Node → List Node
  | mk _ _ _ cs => cs

/-- The same tree in another role. -/
def withRole (r : Role) : Node → Node
  | mk k _ s cs => mk k r s cs

/-- The first child that plays a role. -/
def child? (r : Role) (n : Node) : Option Node := n.children.find? (·.role = r)

/-- The source text of a node. -/
def text (source : List Char) (n : Node) : List Char :=
  Text.slice source n.span.start n.span.stop

end Node

/-- A node together with its ancestors, innermost first, and its position: its index among
    its siblings, then that of its parent, and so on outwards. -/
structure Place where
  node : Node
  ancestors : List Node
  position : List Nat
deriving Repr, Inhabited

namespace Place

/-- The places of the ancestors in a list, innermost first. -/
def ofAncestors : List Node → List Nat → List Place
  | [], _ => []
  | n :: above, position => ⟨n, above, position⟩ :: ofAncestors above position.tail

/-- The places of all ancestors, innermost first. -/
def outward (p : Place) : List Place := ofAncestors p.ancestors p.position.tail

/-- The parent of a node. -/
def parent? (p : Place) : Option Node := p.ancestors.head?

/-- Whether a node has a parent of a kind. -/
def isChildOf (k : Kind) (p : Place) : Bool := (p.parent?.map (·.kind)) == some k

end Place

/-! ## Places in document order -/

mutual

/-- All places at and below `n`, given its ancestors and its position. -/
def Node.placesBelow (above : List Node) (position : List Nat) : Node → List Place
  | .mk k r s cs =>
    ⟨.mk k r s cs, above, position⟩ ::
      Node.placesBelowAll (.mk k r s cs :: above) position 0 cs

/-- All places at and below siblings, of which the first has the index `i`. -/
def Node.placesBelowAll (above : List Node) (position : List Nat) (i : Nat) :
    List Node → List Place
  | [] => []
  | n :: ns =>
    Node.placesBelow above (i :: position) n ++ Node.placesBelowAll above position (i + 1) ns

end

/-- All places of a tree in document order. -/
def Node.places (root : Node) : List Place := root.placesBelow [] []

theorem Node.places_head (root : Node) : root.places.head? = some ⟨root, [], []⟩ := by
  cases root; simp [Node.places, Node.placesBelow]

/-! ## Comments -/

/-- Whether `s` contains `t` with something before and after it. -/
def Span.surrounds (s t : Span) : Bool := s.start < t.start && t.stop < s.stop

/-- A comment node among siblings: in front of the first that starts after it. -/
def insertComment (c : Span) : List Node → List Node
  | [] => [.mk .comment .none c []]
  | n :: ns =>
    if n.span.start < c.start then n :: insertComment c ns
    else .mk .comment .none c [] :: n :: ns

mutual

/-- Puts a comment into the innermost node that has tokens on both sides of it. -/
def Node.withComment (c : Span) : Node → Node
  | .mk k r s cs =>
    if cs.any (·.span.surrounds c) then .mk k r s (Node.withCommentAll c cs)
    else .mk k r s (insertComment c cs)

/-- Puts a comment into the node of a list that surrounds it. -/
def Node.withCommentAll (c : Span) : List Node → List Node
  | [] => []
  | n :: ns =>
    (if n.span.surrounds c then n.withComment c else n) :: Node.withCommentAll c ns

end

/-- A tree with all comments in place. -/
def Node.withComments (cs : List Span) (root : Node) : Node :=
  cs.foldl (fun n c => n.withComment c) root

end Tracepoint.Java
