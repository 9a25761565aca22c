import Tracepoint.Disk
import Tracepoint.Ignore.Glob
import Tracepoint.Text.Blank

/-!
# Ignore files

A directory can hold rules that say which entries below it are to be passed over:
in `.ignore`, and for directories under version control in `.gitignore` and in
`.git/info/exclude`. The last rule of a file that fits an entry decides; the file
nearest to the entry decides before those above it; `.ignore` decides before
`.gitignore`, and that before `exclude`.
-/

namespace Tracepoint.Ignore

open Text

/-! ## Rules -/

/-- A line of an ignore file. -/
structure Rule where
  pattern : List Glob
  /-- Whether the entries that fit are kept, whatever earlier rules say. -/
  keeps : Bool
  onlyDirectories : Bool
deriving Inhabited

/-- What rules say about an entry. -/
inductive Verdict where
  | none
  | ignore
  | keep
deriving DecidableEq, Repr, Inhabited

/-- The first verdict, or the second where the first says nothing. -/
def Verdict.orElse : Verdict → Verdict → Verdict
  | .none, v => v
  | v, _ => v

/-- The first of some verdicts that says something. -/
def Verdict.first (vs : List Verdict) : Verdict := vs.foldr Verdict.orElse .none

/-- The verdict of rules on a path below their directory. -/
def verdict (rules : List Rule) (path : List UInt8) (isDirectory : Bool) : Verdict :=
  let fits (r : Rule) := Glob.accepts r.pattern path && (!r.onlyDirectories || isDirectory)
  match rules.reverse.find? fits with
  | some r => if r.keeps then .keep else .ignore
  | none => .none

/-! ## Reading -/

/-- The pattern of a line without its marks. One without a slash fits at any depth, and one
    that ends in `/**` only what lies below. -/
def patternText (anchored : Bool) (body : List Char) : List Char :=
  let free := !anchored && !body.contains '/' && !(body = ['*', '*'])
  let placed := if free then '*' :: '*' :: '/' :: body else body
  if endsWith ['/', '*', '*'] placed then placed ++ ['/', '*'] else placed

/-- Takes the mark for directories off the end of a line. -/
def splitDirectoryMark (body : List Char) : Bool × List Char :=
  match dropEnd? ['/'] body with
  | some front => (true, (dropEnd? ['\\'] front).getD front)
  | none => (false, body)

/-- Takes the marks off the front of a line: whether it keeps, whether it is anchored. -/
def splitMarks (line : List Char) : Bool × Bool × List Char :=
  match line with
  | '\\' :: '!' :: rest => (false, false, '!' :: rest)
  | '\\' :: '#' :: rest => (false, false, '#' :: rest)
  | '!' :: '/' :: rest => (true, true, rest)
  | '!' :: rest => (true, false, rest)
  | '/' :: rest => (false, true, rest)
  | _ => (false, false, line)

/-- The rule on a line that is neither blank nor a comment; none if it is malformed. -/
def parseRule? (line : List Char) : Option Rule :=
  let (keeps, anchored, marked) := splitMarks line
  let (onlyDirectories, body) := splitDirectoryMark marked
  (Glob.parse? (patternText anchored body)).map fun pattern => ⟨pattern, keeps, onlyDirectories⟩

/-- A line as it counts: without blanks at its end, unless the last is escaped. -/
def significant (line : List Char) : List Char :=
  if startsWith ['#'] line then []
  else if endsWith ['\\', ' '] line then line
  else trimEnd line

/-- The bytes of a file, cut at line feeds. -/
def byteLines (content : List UInt8) : List (List UInt8) :=
  content.foldr
    (fun b acc =>
      if b = 10 then [] :: acc
      else match acc with
        | [] => [[b]]
        | line :: more => (b :: line) :: more)
    [[]]

/-- The lines of a file up to the first that is no UTF-8 text. -/
def textLines (content : ByteArray) : List (List Char) :=
  let decoded := (byteLines content.toList).map fun l =>
    (String.fromUTF8? (ByteArray.mk l.toArray)).map String.toList
  (decoded.takeWhile Option.isSome).filterMap id

/-- The rules of a file, and whether all its lines are well formed. -/
def parseRules (content : ByteArray) : List Rule × Bool :=
  let lines :=
    match textLines content with
    | first :: more => first.dropWhile (· == '\ufeff') :: more
    | [] => []
  let rules := ((lines.map significant).filter (!·.isEmpty)).map parseRule?
  (rules.filterMap id, rules.all Option.isSome)

/-! ## Directories -/

/-- The rules that a directory holds. -/
structure DirectoryRules where
  plain : List Rule
  versioned : List Rule
  excluded : List Rule
  /-- Whether the directory is the top of a tree under version control. -/
  isTop : Bool
  wellFormed : Bool
deriving Inhabited

/-- The rules in the directory at a location. -/
def DirectoryRules.ofDirectory (d : Disk) (loc : Location) : DirectoryRules :=
  let rulesIn (p : Path) : List Rule × Bool :=
    match d.read loc p with
    | .ok content => parseRules content
    | .error _ => ([], true)
  let (plain, ok₁) := rulesIn ⟨".ignore"⟩
  let (versioned, ok₂) := rulesIn ⟨".gitignore"⟩
  let (excluded, ok₃) := rulesIn ⟨".git/info/exclude"⟩
  let isTop := (d.entryAt loc ⟨".git"⟩).toOption.isSome
  ⟨plain, versioned, excluded, isTop, ok₁ && ok₂ && ok₃⟩

/-- The rules that bear on the entries of a directory: its own first, then those of the
    directories above it. -/
abbrev RuleChain := List DirectoryRules

/-- The rules for the directory at a location. -/
def RuleChain.ofDirectory (d : Disk) (loc : Location) : RuleChain :=
  ((List.range (loc.length + 1)).map fun n => DirectoryRules.ofDirectory d (loc.take n)).reverse

/-- The part of a chain up to the top of the tree under version control. -/
def RuleChain.upToTop : RuleChain → RuleChain
  | [] => []
  | r :: rs => if r.isTop then [r] else r :: upToTop rs

/-- The bytes of the path that names make. -/
def pathBytes (names : List String) : List UInt8 :=
  (String.intercalate "/" names).toUTF8.toList

/-- The verdicts of a chain on the entry at a location, nearest directory first. -/
def RuleChain.verdicts (chain : RuleChain) (select : DirectoryRules → List Rule)
    (loc : Location) (isDirectory : Bool) : List Verdict :=
  chain.zipIdx.map fun (r, i) =>
    verdict (select r) (pathBytes (loc.drop (loc.length - (i + 1)))) isDirectory

/-- Whether an entry is to be passed over. Rules of version control count only in a tree
    under version control, unless `anywhere`; hidden entries are passed over unless a rule
    keeps them. -/
def RuleChain.passesOver (chain : RuleChain) (anywhere : Bool) (loc : Location)
    (isDirectory : Bool) : Bool :=
  let tree : RuleChain :=
    if anywhere then chain else if chain.any (·.isTop) then chain.upToTop else []
  let verdicts := chain.verdicts (·.plain) loc isDirectory ++
    tree.verdicts (·.versioned) loc isDirectory ++ tree.verdicts (·.excluded) loc isDirectory
  match Verdict.first verdicts with
  | .ignore => true
  | .keep => false
  | .none => ((loc.getLast?).map fun n => startsWith ['.'] n.toList).getD false

end Tracepoint.Ignore
