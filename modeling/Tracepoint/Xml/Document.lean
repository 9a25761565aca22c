import Tracepoint.Xml.Lexical

/-!
# XML documents

A document is read into its root element. It has to be well formed: one root,
matching tags, attributes that are quoted and different, known references, and
only prefixes that are bound. Document type declarations are refused.

Comments and processing instructions stay in the tree as `other`, because they
separate texts. Texts and character data that meet are one text.
-/

namespace Tracepoint.Xml

open Text

/-! ## Trees -/

/-- A part of a document. Elements are known by the local part of their name. -/
inductive Node where
  | element (name : String) (children : List Node)
  | text (content : List Char)
  | other
deriving Repr, Inhabited

namespace Node

/-- The name of an element. -/
def name? : Node → Option String
  | element name _ => some name
  | _ => none

def children : Node → List Node
  | element _ children => children
  | _ => []

/-- The first child element of a name. -/
def child? (n : Node) (name : String) : Option Node :=
  n.children.find? (·.name? = some name)

/-- The text that an element starts with. -/
def leadingText? (n : Node) : Option (List Char) :=
  match n.children with
  | text content :: _ => some content
  | _ => none

/-- Children with a text added at the end. -/
def addText (content : List Char) (reversed : List Node) : List Node :=
  match reversed with
  | text before :: more => text (before ++ content) :: more
  | _ => text content :: reversed

end Node

/-! ## Tags -/

/-- The attribute at the front of a text: its name and its value as written. -/
def takeAttribute? (s : List Char) : Option ((Name × List Char) × List Char) := do
  let (name, s) ← takeQualified? s
  let s ← dropStart? ['='] (skipSpaces s)
  match skipSpaces s with
  | quote :: s =>
    if quote = '"' || quote = '\'' then
      let value := s.takeWhile fun c => c != quote && c != '<'
      if value.all isAllowed then
        let s ← dropStart? [quote] (s.drop value.length)
        return ((name, value), s)
      else none
    else none
  | [] => none

/-- An opening tag: its name, its attributes and whether it closes itself. -/
structure Tag where
  name : Name
  attributes : List (Name × List Char)
  closed : Bool
deriving Repr, Inhabited

/-- The rest of an opening tag after its name; `fuel` bounds the number of attributes. -/
def takeTagEnd? : Nat → List Char → Option ((List (Name × List Char) × Bool) × List Char)
  | 0, _ => none
  | fuel + 1, s =>
    match skipSpaces s with
    | '/' :: '>' :: rest => some (([], true), rest)
    | '>' :: rest => some (([], false), rest)
    | next =>
      if (s.head?.map isSpace).getD false then do
        let (first, rest) ← takeAttribute? next
        let ((more, closed), rest) ← takeTagEnd? fuel rest
        return ((first :: more, closed), rest)
      else none

/-- The opening tag after a `<`. -/
def takeTag? (s : List Char) : Option (Tag × List Char) := do
  let (name, s) ← takeQualified? s
  let ((attributes, closed), s) ← takeTagEnd? (s.length + 1) s
  return (⟨name, attributes, closed⟩, s)

/-! ## Name spaces -/

def xmlSpace : String := "http://www.w3.org/XML/1998/namespace"

def xmlnsSpace : String := "http://www.w3.org/2000/xmlns/"

/-- Prefixes with what they are bound to. The default has the empty prefix. -/
abbrev Bindings := List (String × String)

/-- Whether an attribute may bind a prefix, or the default, to a name space. -/
def mayBind (space uri : String) : Bool :=
  uri != xmlnsSpace && (uri == xmlSpace) == (space == "xml")

/-- What the attributes of a tag bind; none if a binding is not allowed or repeated. -/
def bindings? (attributes : List (Name × String)) : Option Bindings :=
  let declared := attributes.filterMap fun (name, uri) =>
    if name.space = "xmlns" then some (name.main, uri)
    else if name = ⟨"", "xmlns"⟩ then some ("", uri)
    else none
  let prefixes := (declared.map (·.1)).filter fun space => space != "xml" && space != ""
  if declared.all (fun d => mayBind d.1 d.2) && prefixes.eraseDups.length == prefixes.length then
    some (declared.filter (·.1 != "xml"))
  else none

/-- The name space of a prefix; none if it is not bound. -/
def spaceOf? (bound : Bindings) (space : String) : Option String :=
  if space = "xml" then some xmlSpace
  else if space = "" then some ((bound.lookup "").getD "")
  else bound.lookup space

/-- Checks the names of a tag, and gives the bindings inside its element. -/
def enter? (bound : Bindings) (tag : Tag) : Option Bindings := do
  let attributes ← tag.attributes.mapM fun (name, value) => do
    return (name, String.ofList (← decode? value))
  let inner := (← bindings? attributes) ++ bound
  if tag.name.space = "xmlns" then none
  let _ ← spaceOf? inner tag.name.space
  let plain := attributes.filter fun (name, _) =>
    name.space != "xmlns" && name != ⟨"", "xmlns"⟩
  let spaces ← plain.mapM fun (name, _) =>
    if name.space = "" then some ("", name.main)
    else (spaceOf? inner name.space).map (·, name.main)
  if spaces.eraseDups.length = spaces.length then some inner else none

/-! ## Documents -/

/-- An element that is not closed yet. Its children stand in reverse. -/
structure Open where
  name : Name
  bound : Bindings
  children : List Node
deriving Inhabited

/-- How far a document has been read: the open elements, innermost first, and the root if
    it is closed. -/
structure Progress where
  stack : List Open := []
  root : Option Node := none
deriving Inhabited

/-- Adds a closed element or something else where reading stands. -/
def Progress.add (p : Progress) (n : Node) : Progress :=
  match p.stack, n with
  | o :: outer, _ => { p with stack := { o with children := n :: o.children } :: outer }
  | [], .element _ _ => { p with root := some n }
  | [], _ => p

def Progress.addText (p : Progress) (content : List Char) : Progress :=
  match p.stack with
  | o :: outer =>
    { p with stack := { o with children := Node.addText content o.children } :: outer }
  | [] => p

/-- Reads a comment after its start. -/
def takeComment? (s : List Char) : Option (List Char) := do
  let (content, rest) ← splitText? "-->".toList s
  if occursIn ['-', '-'] content || endsWith ['-'] content || !content.all isAllowed then none
  else some rest

/-- Reads a processing instruction after its `<?`. -/
def takeInstruction? (s : List Char) : Option (List Char) := do
  if startsWith "xml ".toList s then none
  let (_, s) ← takeName? s
  let (content, rest) ← splitText? "?>".toList (skipSpaces s)
  if content.all isAllowed then some rest else none

/-- Reads the tag of a new element after its `<`. -/
def openElement? (p : Progress) (s : List Char) : Option (Progress × List Char) := do
  if p.stack.isEmpty && p.root.isSome then none
  let (tag, rest) ← takeTag? s
  let bound := (p.stack.head?.map (·.bound)).getD []
  let inner ← enter? bound tag
  if tag.closed then return (p.add (.element tag.name.main []), rest)
  else return ({ p with stack := ⟨tag.name, inner, []⟩ :: p.stack }, rest)

/-- Reads a closing tag after its `</`. -/
def closeElement? (p : Progress) (s : List Char) : Option (Progress × List Char) := do
  let (name, s) ← takeQualified? s
  let rest ← dropStart? ['>'] (skipSpaces s)
  match p.stack with
  | o :: outer =>
    if o.name = name then
      return ({ p with stack := outer }.add (.element name.main o.children.reverse), rest)
    else none
  | [] => none

/-- Reads character data after its start. -/
def takeData? (p : Progress) (s : List Char) : Option (Progress × List Char) := do
  let (content, rest) ← splitText? "]]>".toList s
  if p.stack.isEmpty || !content.all isAllowed then none
  else some (p.addText (unifyLineEnds content), rest)

/-- Reads characters up to the next tag. -/
def takeText? (p : Progress) (s : List Char) : Option (Progress × List Char) := do
  let content := s.takeWhile (· != '<')
  let rest := s.dropWhile (· != '<')
  if p.stack.isEmpty then if content.all isSpace then some (p, rest) else none
  else if occursIn "]]>".toList content || !content.all isAllowed then none
  else some (p.addText (← decode? content), rest)

/-- Reads what stands at the front of a text. -/
def step? (p : Progress) (s : List Char) : Option (Progress × List Char) :=
  match dropStart? "<!--".toList s, dropStart? "<![CDATA[".toList s,
    dropStart? "<!".toList s, dropStart? "<?".toList s, dropStart? "</".toList s, s with
  | some rest, _, _, _, _, _ => (takeComment? rest).map (p.add .other, ·)
  | _, some rest, _, _, _, _ => takeData? p rest
  | _, _, some _, _, _, _ => none
  | _, _, _, some rest, _, _ => (takeInstruction? rest).map (p.add .other, ·)
  | _, _, _, _, some rest, _ => closeElement? p rest
  | _, _, _, _, _, '<' :: rest => openElement? p rest
  | _, _, _, _, _, _ => takeText? p s

/-- Reads a text to its end in at most `fuel` steps. -/
def readAll? : Nat → Progress → List Char → Option Progress
  | _, p, [] => some p
  | 0, _, _ => none
  | fuel + 1, p, s => do
    let (p', rest) ← step? p s
    readAll? fuel p' rest

/-- Skips one attribute of the declaration, of which the name is known to start with `name`. -/
def skipDeclared? (name : String) (s : List Char) : Option (List Char) := do
  if startsWith name.toList s then
    let (_, rest) ← takeAttribute? s
    if (rest.head?.map isSpace).getD true || startsWith "?>".toList rest then
      return skipSpaces rest
    else none
  else none

/-- Skips the declaration at the front of a document. -/
def skipDeclaration? (s : List Char) : Option (List Char) :=
  match dropStart? "<?xml ".toList s with
  | none => some s
  | some rest => do
    let rest ← skipDeclared? "version" (skipSpaces rest)
    let rest ← if startsWith "encoding".toList rest then skipDeclared? "encoding" rest else rest
    let rest ←
      if startsWith "standalone".toList rest then skipDeclared? "standalone" rest else rest
    dropStart? "?>".toList rest

/-- The root element of a document; none if it is not well formed. -/
def parse? (s : List Char) : Option Node := do
  let rest ← skipDeclaration? ((dropStart? ['\ufeff'] s).getD s)
  let p ← readAll? (rest.length + 1) {} rest
  if p.stack.isEmpty then p.root else none

end Tracepoint.Xml
