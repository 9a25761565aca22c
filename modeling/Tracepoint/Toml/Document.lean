import Tracepoint.Toml.Scalar

/-!
# TOML documents

A document is a sequence of lines, each a key with a value, the header of a
table, or the header of an element of an array of tables. Tables can be defined
once only; what counts as a definition depends on how a table came about, which
is kept with it while a document is read.
-/

namespace Tracepoint.Toml

open Text

/-! ## Tables under construction -/

/-- How a table came about. -/
inductive Origin where
  /-- By its own header. -/
  | header
  /-- As a part of the path in a header. -/
  | passing
  /-- As a part of the path of a key. -/
  | dotted
deriving DecidableEq, Repr, Inhabited

/-- What a key of a table leads to. -/
inductive Item where
  | value (v : Value)
  | table (origin : Origin) (entries : List (String × Item))
  /-- An array of tables, the newest first. -/
  | tables (newest : List (String × Item)) (older : List (List (String × Item)))
deriving Inhabited

abbrev Items := List (String × Item)

/-- Items with the item of a known key replaced. -/
def replaceItem (key : String) (item : Item) (items : Items) : Items :=
  items.map fun e => if e.1 = key then (key, item) else e

/-- Changes the table at the end of a path. Missing tables on the way are created; `origin`
    is theirs. A path of a key cannot lead through a table that has its own header. -/
def changeAt (origin : Origin) (change : Origin → Items → Option Items) :
    List String → Origin → Items → Option Items
  | [], at_, items => change at_ items
  | key :: path, _, items =>
    match items.lookup key with
    | none => do
      let inner ← changeAt origin change path origin []
      return items ++ [(key, .table origin inner)]
    | some (.table inside entries) =>
      if origin = .dotted && inside = .header then none
      else do
        let inner ← changeAt origin change path inside entries
        return replaceItem key (.table inside inner) items
    | some (.tables newest older) => do
      let inner ← changeAt origin change path .header newest
      return replaceItem key (.tables inner older) items
    | some (.value _) => none

/-- Adds a value to a table. The table belongs to dotted keys exactly if the path to it
    does. -/
def addValue (viaPath : Bool) (key : String) (v : Value) (origin : Origin) (items : Items) :
    Option Items :=
  if (origin == .dotted) != viaPath then none
  else if (items.lookup key).isSome then none
  else some (items ++ [(key, .value v)])

/-- Adds a table with a header to the table that holds it. -/
def addTable (key : String) (items : Items) : Option Items :=
  match items.lookup key with
  | none => some (items ++ [(key, .table .header [])])
  | some (.table .passing entries) => some (replaceItem key (.table .header entries) items)
  | some _ => none

/-- Adds an element to an array of tables in the table that holds it. -/
def addElement (key : String) (items : Items) : Option Items :=
  match items.lookup key with
  | none => some (items ++ [(key, .tables [] [])])
  | some (.tables newest older) => some (replaceItem key (.tables [] (newest :: older)) items)
  | some _ => none

/-- Applies a function to the table that holds the last key of a path. -/
def addUnder (add : String → Items → Option Items) (path : List String) (items : Items) :
    Option Items := do
  let key ← path.getLast?
  changeAt .passing (fun _ inner => add key inner) path.dropLast .header items

/-- Adds a key with a value below the table of a header. -/
def addKey (header path : List String) (v : Value) (items : Items) : Option Items := do
  let key ← path.getLast?
  let via := path.dropLast
  let add : Origin → Items → Option Items := changeAt .dotted (addValue (!via.isEmpty) key v) via
  changeAt .passing add header .header items

mutual

/-- The finished value of an item. -/
def Item.finish : Item → Value
  | .value v => v
  | .table _ entries => .table (finishAll entries)
  | .tables newest older => .array ((.table (finishAll newest) :: finishEach older).reverse)

/-- The finished entries of a table. -/
def finishAll : List (String × Item) → Table
  | [] => []
  | (key, item) :: more => (key, item.finish) :: finishAll more

/-- The finished tables of an array. -/
def finishEach : List (List (String × Item)) → List Value
  | [] => []
  | t :: more => .table (finishAll t) :: finishEach more

end

/-! ## Keys -/

def isBareKeyChar (c : Char) : Bool := c.isAlphanum || c == '-' || c == '_'

/-- Reads one part of a key. -/
def keyPart : Reader String := fun s =>
  let bare := s.takeWhile isBareKeyChar
  if bare.isEmpty then (lineString s).map fun r => (String.ofList r.1, r.2)
  else some (String.ofList bare, s.drop bare.length)

/-- Reads a key of at most `fuel` parts with dots between. -/
def keyUpTo : Nat → Reader (List String)
  | 0, _ => none
  | fuel + 1, s => do
    let (part, rest) ← keyPart s
    match skipWhite rest with
    | '.' :: more =>
      let (parts, rest) ← keyUpTo fuel (skipWhite more)
      return (part :: parts, rest)
    | rest => return ([part], rest)

/-- Reads a key and the white space after it. -/
def key : Reader (List String) := fun s => keyUpTo (s.length + 1) s

/-- Reads a key, an equals sign and a value. -/
def keyValue (value : Reader Value) : Reader (List String × Value) := fun s => do
  let (path, rest) ← key s
  let rest ← dropStart? ['='] rest
  let (v, rest) ← value (skipWhite rest)
  return ((path, v), rest)

/-! ## Values -/

/-- Skips a comment, if there is one; none if it holds a character that it must not hold. -/
def skipComment? (s : List Char) : Option (List Char) :=
  match s with
  | '#' :: rest =>
    let comment := rest.takeWhile fun c => c != '\n' && c != '\r'
    if comment.all isPrintable then some (rest.drop comment.length) else none
  | _ => some s

/-- Skips white space, comments and line ends. -/
def skipGap? : Nat → List Char → Option (List Char)
  | 0, s => some s
  | fuel + 1, s => do
    let rest ← skipComment? (skipWhite s)
    match lineEnd? rest with
    | some next => skipGap? fuel next
    | none => return rest

/-- Skips white space, comments and line ends. -/
def gap (s : List Char) : Option (List Char) := skipGap? (s.length + 1) s

/-- Reads the elements of an array and its closing bracket. -/
def elements (value : Reader Value) : Nat → Reader (List Value)
  | 0, _ => none
  | fuel + 1, s => do
    match ← gap s with
    | ']' :: rest => return ([], rest)
    | s =>
      let (v, rest) ← value s
      match ← gap rest with
      | ',' :: rest =>
        let (vs, rest) ← elements value fuel rest
        return (v :: vs, rest)
      | ']' :: rest => return ([v], rest)
      | _ => none

/-- Reads the entries of a table in braces and the closing brace. -/
def inlineEntries (value : Reader Value) : Nat → Items → Reader Items
  | 0, _, _ => none
  | fuel + 1, items, s => do
    let ((path, v), rest) ← keyValue value (skipWhite s)
    let items ← addKey [] path v items
    match skipWhite rest with
    | ',' :: rest => inlineEntries value fuel items rest
    | '\x7d' :: rest => return (items, rest)
    | _ => none

/-- Reads a table in braces after its opening brace. -/
def inlineTable (value : Reader Value) : Reader Value := fun s =>
  match skipWhite s with
  | '\x7d' :: rest => some (.table [], rest)
  | _ => do
    let (items, rest) ← inlineEntries value (s.length + 1) [] s
    return (.table (finishAll items), rest)

/-- Reads a value nested at most `depth` deep. -/
def valueUpTo : Nat → Reader Value
  | 0, _ => none
  | depth + 1, s =>
    match s with
    | '[' :: rest => do
      let (vs, after) ← elements (valueUpTo depth) (rest.length + 1) rest
      return (.array vs, after)
    | '\x7b' :: rest => inlineTable (valueUpTo depth) rest
    | '"' :: _ => (string s).map fun r => (.text (String.ofList r.1), r.2)
    | '\'' :: _ => (string s).map fun r => (.text (String.ofList r.1), r.2)
    | _ => scalar s

/-- How deep values can be nested. -/
def maxDepth : Nat := 80

def value : Reader Value := valueUpTo maxDepth

/-! ## Lines -/

/-- How far a document has been read: its tables, and the header that counts now. -/
structure Progress where
  items : Items := []
  header : List String := []
deriving Inhabited

/-- Reads the header of a table after its opening brackets. -/
def headerEnd (close : List Char) : Reader (List String) := fun s => do
  let (path, rest) ← key (skipWhite s)
  return (path, ← dropStart? close rest)

/-- Reads what stands on a line, if anything. -/
def line (p : Progress) (s : List Char) : Option (Progress × List Char) :=
  match s with
  | '[' :: '[' :: rest => do
    let (path, rest) ← headerEnd [']', ']'] rest
    return (⟨← addUnder addElement path p.items, path⟩, rest)
  | '[' :: rest => do
    let (path, rest) ← headerEnd [']'] rest
    return (⟨← addUnder addTable path p.items, path⟩, rest)
  | _ =>
    if s.isEmpty || (lineEnd? s).isSome || s.head? = some '#' then some (p, s)
    else do
      let ((path, v), rest) ← keyValue value s
      return ({ p with items := ← addKey p.header path v p.items }, rest)

/-- Reads at most `fuel` lines. -/
def linesUpTo : Nat → Progress → List Char → Option Progress
  | 0, _, _ => none
  | fuel + 1, p, s => do
    let (p, rest) ← line p (skipWhite s)
    let rest ← skipComment? (skipWhite rest)
    if rest.isEmpty then return p
    else linesUpTo fuel p (← lineEnd? rest)

/-- The table that a document stands for; none if the text is no TOML. -/
def parse? (s : List Char) : Option Table := do
  let body := (dropStart? ['\ufeff'] s).getD s
  let p ← linesUpTo (body.length + 1) {} body
  return finishAll p.items

end Tracepoint.Toml
