/-!
# Shell scripts

The text of a script as a list of simple commands. A command is made of words and
redirections; between two commands stands a separator, `&&` or `||`. A word is
made of literal pieces and of parameters, each quoted or not.

A script is read one character at a time: `Reader.step` takes what was read so
far to what was read with one character more.
-/

namespace Tracepoint.Shell

/-! ## Commands -/

inductive Piece where
  | literal (quoted : Bool) (text : List Char)
  | parameter (quoted : Bool) (name : String)
deriving DecidableEq, Repr, Inhabited

abbrev Word := List Piece

/-- Where a redirection leads from or to. -/
inductive Direction where
  | read
  | write
  | append
  /-- To where another stream leads. -/
  | duplicate
deriving DecidableEq, Repr, Inhabited

structure Redirection where
  stream : Nat
  direction : Direction
  target : Word
deriving DecidableEq, Repr, Inhabited

/-- On what a command depends. -/
inductive Condition where
  | always
  | afterSuccess
  | afterFailure
deriving DecidableEq, Repr, Inhabited

structure Command where
  condition : Condition := .always
  words : List Word := []
  redirections : List Redirection := []
deriving DecidableEq, Repr, Inhabited

/-! ## Tokens -/

inductive Token where
  | word (w : Word)
  | next (c : Condition)
  | redirect (stream : Nat) (direction : Direction)
deriving DecidableEq, Repr, Inhabited

/-- What the next character belongs to. Inside of double quotes `quoted` is true. -/
inductive Mode where
  | text (quoted : Bool)
  | literal
  | escaped (quoted : Bool)
  /-- After a dollar sign. -/
  | dollar (quoted : Bool)
  | name (quoted : Bool) (read : List Char)
  | braced (quoted : Bool) (read : List Char)
  | comment
  /-- After the first character of an operator, with the stream that it is about. -/
  | operator (stream : Nat) (first : Char)
deriving DecidableEq, Repr, Inhabited

/-- What was read of a script. -/
structure Reader where
  mode : Mode := .text false
  /-- The word that is being read. -/
  word : Option Word := none
  tokens : List Token := []
deriving Repr, Inhabited

def isNameChar (c : Char) : Bool := c.isAlphanum || c == '_'

namespace Reader

/-- Adds pieces to the word that is being read. -/
def extend (r : Reader) (pieces : List Piece) : Reader :=
  { r with word := some (r.word.getD [] ++ pieces) }

/-- Adds a character to the word that is being read. -/
def add (r : Reader) (quoted : Bool) (c : Char) : Reader := r.extend [.literal quoted [c]]

def toMode (r : Reader) (mode : Mode) : Reader := { r with mode := mode }

/-- Ends the word that is being read. -/
def endWord (r : Reader) : Reader :=
  { r with word := none, tokens := r.tokens ++ (r.word.map Token.word).toList }

/-- Adds a token after the word that is being read. -/
def emit (r : Reader) (t : Token) : Reader :=
  let r := r.endWord
  { r with tokens := r.tokens ++ [t], mode := .text false }

/-- The number that a word is, if it is made of digits only. -/
def streamNumber? (w : Word) : Option Nat := do
  let digits ← w.mapM fun
    | .literal false text => some text
    | _ => none
  (String.ofList digits.flatten).toNat?

/-- Starts a redirection. A number right before it says which stream it is about. -/
def startRedirection (r : Reader) (c : Char) : Reader :=
  match r.word.bind streamNumber? with
  | some n => { r with word := none, mode := .operator n c }
  | none => r.endWord.toMode (.operator (if c = '<' then 0 else 1) c)

/-- A character outside of single quotes, of operators and of parameters. -/
def stepText (r : Reader) (quoted : Bool) (c : Char) : Reader :=
  match quoted, c with
  | _, '$' => r.toMode (.dollar quoted)
  | _, '\\' => r.toMode (.escaped quoted)
  | false, '"' => (r.extend [.literal true []]).toMode (.text true)
  | true, '"' => r.toMode (.text false)
  | true, _ => r.add true c
  | false, '\'' => (r.extend [.literal true []]).toMode .literal
  | false, ' ' => r.endWord
  | false, '\t' => r.endWord
  | false, '\n' => r.emit (.next .always)
  | false, ';' => r.emit (.next .always)
  | false, '<' => r.startRedirection c
  | false, '>' => r.startRedirection c
  | false, '&' => r.endWord.toMode (.operator 0 c)
  | false, '|' => r.endWord.toMode (.operator 0 c)
  | false, '#' => if r.word.isSome then r.add false c else r.toMode .comment
  | false, _ => r.add false c

/-- Ends the name of a parameter. -/
def endName (r : Reader) (quoted : Bool) (name : List Char) : Reader :=
  (r.extend [.parameter quoted (String.ofList name)]).toMode (.text quoted)

/-- The character after a dollar sign. -/
def stepDollar (r : Reader) (quoted : Bool) (c : Char) : Reader :=
  if c = '\x7b' then r.toMode (.braced quoted [])
  else if c.isDigit || ['#', '$', '?', '@', '*', '!'].contains c then r.endName quoted [c]
  else if isNameChar c then r.toMode (.name quoted [c])
  else ((r.add quoted '$').toMode (.text quoted)).stepText quoted c

/-- The character after the first of an operator. -/
def stepOperator (r : Reader) (stream : Nat) (first c : Char) : Reader :=
  match first, c with
  | '&', '&' => r.emit (.next .afterSuccess)
  | '|', '|' => r.emit (.next .afterFailure)
  | '>', '>' => r.emit (.redirect stream .append)
  | '>', '&' => r.emit (.redirect stream .duplicate)
  | '>', _ => (r.emit (.redirect stream .write)).stepText false c
  | '<', _ => (r.emit (.redirect stream .read)).stepText false c
  | _, _ => (r.emit (.next .always)).stepText false c

/-- What was read with one character more. -/
def step (r : Reader) (c : Char) : Reader :=
  match r.mode with
  | .text quoted => r.stepText quoted c
  | .literal => if c = '\'' then r.toMode (.text false) else r.add true c
  | .escaped quoted =>
    let r := r.toMode (.text quoted)
    if c = '\n' then r
    else if quoted && !(['$', '"', '\\', '\x60'].contains c) then (r.add true '\\').add true c
    else r.add true c
  | .dollar quoted => r.stepDollar quoted c
  | .name quoted read =>
    if isNameChar c then r.toMode (.name quoted (read ++ [c]))
    else (r.endName quoted read).stepText quoted c
  | .braced quoted read =>
    if c = '\x7d' then r.endName quoted read else r.toMode (.braced quoted (read ++ [c]))
  | .comment => if c = '\n' then r.emit (.next .always) else r
  | .operator stream first => r.stepOperator stream first c

/-- The tokens of a script that ends here; none if it ends inside of quotes. -/
def finish? (r : Reader) : Option (List Token) :=
  match r.mode with
  | .text true => none
  | .literal => none
  | .braced _ _ => none
  | _ => some (r.step '\n').tokens

end Reader

/-! ## Scripts -/

/-- Groups tokens to commands, after the one that is being read. None if a redirection leads
    nowhere. -/
def commandsOf? : Command → List Token → Option (List Command)
  | c, [] => some [c]
  | c, .word w :: rest => commandsOf? { c with words := c.words ++ [w] } rest
  | c, .redirect stream direction :: .word w :: rest =>
    commandsOf? { c with redirections := c.redirections ++ [⟨stream, direction, w⟩] } rest
  | _, .redirect _ _ :: _ => none
  | c, .next condition :: rest =>
    if c.words = [] && c.redirections = [] && condition = .always then commandsOf? c rest
    else do return c :: (← commandsOf? { condition := condition } rest)

/-- The commands of a script; none if it is malformed. -/
def parse? (script : List Char) : Option (List Command) := do
  commandsOf? {} (← (script.foldl Reader.step {}).finish?)

end Tracepoint.Shell
