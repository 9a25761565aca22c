import Tracepoint.Text.Search

/-!
# Paths

A path is a text. It is never normalised: joining keeps what was written. Where
two paths are compared, they are compared by their components, for which
repeated slashes, a trailing slash and `.` components do not count, except for a
`.` at the start of a relative path.

Results:

* `join_absolute`: joining an absolute path replaces.
* `same_refl`, `same_symm`: component-wise equality holds of a path and itself, and both
  ways round.
-/

namespace Tracepoint

open Text

/-- A path as it was written. -/
structure Path where
  text : String
deriving DecidableEq, Repr, Inhabited

namespace Path

/-- A part of a path. -/
inductive Component where
  | root
  | here
  | up
  | name (text : String)
deriving DecidableEq, Repr, Inhabited

def isAbsolute (p : Path) : Bool := startsWith ['/'] p.text.toList

def isEmpty (p : Path) : Bool := p.text.isEmpty

/-- Writes `b` below `a`. An absolute `b` replaces `a`. -/
def join (a b : Path) : Path :=
  if b.isAbsolute || a.isEmpty then b
  else if endsWith ['/'] a.text.toList then ⟨a.text ++ b.text⟩
  else ⟨a.text ++ "/" ++ b.text⟩

theorem join_absolute {a b : Path} (h : b.isAbsolute = true) : a.join b = b := by
  simp [join, h]

/-! ## Components -/

/-- A piece between slashes that names nothing. -/
def isFiller (piece : List Char) : Bool := piece = [] || piece = ['.']

/-- The component that a piece stands for. -/
def component (piece : List Char) : Component :=
  if piece = ['.', '.'] then .up else .name (String.ofList piece)

/-- What a path starts with: the root, the current directory written out, or neither. -/
def head (p : Path) : List Component :=
  if p.isAbsolute then [.root]
  else if (splitAll '/' p.text.toList).head? = some ['.'] then [.here]
  else []

/-- The pieces between the slashes of a path, after its head. -/
def body (p : Path) : List (List Char) :=
  (splitAll '/' p.text.toList).drop p.head.length

/-- The components of a path. -/
def components (p : Path) : List Component :=
  p.head ++ (p.body.filter (!isFiller ·)).map component

/-- Whether two paths have the same components. -/
def same (a b : Path) : Bool := a.components == b.components

theorem same_refl (a : Path) : a.same a = true := by simp [same]

theorem same_symm {a b : Path} (h : a.same b = true) : b.same a = true := by
  simp only [same, beq_iff_eq] at *; exact h.symm

/-- Whether the components of `base` start those of `p`. -/
def isBelow (base p : Path) : Bool := base.components.isPrefixOf p.components

/-! ## Taking paths apart -/

/-- The path with a given head and body. -/
def ofParts (head : List Component) (body : List (List Char)) : Path :=
  let rest := joinWith ['/'] body
  match head with
  | [.root] => ⟨String.ofList ('/' :: rest)⟩
  | [.here] => if body = [] then ⟨"."⟩ else ⟨String.ofList ('.' :: '/' :: rest)⟩
  | _ => ⟨String.ofList rest⟩

/-- Pieces without the fillers at their end. -/
def trimBody (body : List (List Char)) : List (List Char) :=
  (body.reverse.dropWhile isFiller).reverse

/-- The last component, if it is a name. -/
def fileName? (p : Path) : Option String :=
  match p.components.getLast? with
  | some (.name n) => some n
  | _ => none

/-- The path without its last component. -/
def parent? (p : Path) : Option Path :=
  match trimBody p.body, p.head with
  | [], [.here] => some ⟨""⟩
  | [], _ => none
  | body, head => some (ofParts head (trimBody body.dropLast))

/-- The part of the file name after its last point, unless the name only starts with it. -/
def extension? (p : Path) : Option String := do
  let (before, after) ← splitLast? '.' (← p.fileName?).toList
  if before.isEmpty then none else some (String.ofList after)

/-- Pieces without the first `n` that are no fillers. -/
def dropPieces : Nat → List (List Char) → List (List Char)
  | 0, body => body
  | _ + 1, [] => []
  | n + 1, piece :: body =>
    if isFiller piece then dropPieces (n + 1) body else dropPieces n body

/-- The rest of `p` after the components of `base`. -/
def relativeTo? (base p : Path) : Option Path :=
  if base.isBelow p then
    if base.components = [] then some (ofParts p.head (trimBody p.body))
    else
      let named := base.components.length - base.head.length
      let rest := (dropPieces named p.body).dropWhile isFiller
      some (ofParts [] (trimBody rest))
  else none

/-- The path below `root`, or else the file name, or else the path itself. -/
def locate (root p : Path) : Path :=
  let named : Path := (p.fileName?.map Path.mk).getD p
  match relativeTo? root p with
  | some r => if r.isEmpty then named else r
  | none => named

/-! ## Absolute paths -/

/-- The text of a component. -/
def Component.text : Component → String
  | .root => "/"
  | .here => "."
  | .up => ".."
  | .name n => n

/-- A path with components written below it. -/
def extend (p : Path) (cs : List Component) : Path :=
  cs.foldl (fun q c => q.join ⟨c.text⟩) p

/-- The path as seen from the root, if the current directory is `cwd`. Components stay as
    they are, so `..` is kept; fillers go. There is none for the empty path. -/
def absolute? (cwd p : Path) : Option Path :=
  let text := p.text.toList
  let parts := p.components.filter (· ≠ .here)
  let base :=
    if !p.isAbsolute then cwd.extend parts
    else if startsWith ['/', '/'] text && !startsWith ['/', '/', '/'] text then
      (⟨"//"⟩ : Path).extend parts.tail
    else (⟨""⟩ : Path).extend parts
  if p.isEmpty then none
  else some (if endsWith ['/'] text then base.join ⟨""⟩ else base)

end Path

end Tracepoint
