import Std.Data.HashMap
import Tracepoint.World

/-!
# Identifiers of elements

Keys get identifiers in the order in which they are first met, starting at 1.
An identifier never changes until the map is reset.
-/

namespace Tracepoint

/-- Keys and their identifiers. -/
structure IdMap where
  ids : Std.HashMap String Nat := {}
  /-- The keys in the order in which they were first met. -/
  order : List String := []
deriving Inhabited

namespace IdMap

def size (m : IdMap) : Nat := m.order.length

def isEmpty (m : IdMap) : Bool := m.order.isEmpty

def get? (m : IdMap) (key : String) : Option Nat := m.ids[key]?

/-- The identifier of a key, a new one if it has none yet. -/
def getOrCreate (m : IdMap) (key : String) : Nat × IdMap :=
  match m.get? key with
  | some id => (id, m)
  | none =>
    let id := m.size + 1
    (id, ⟨m.ids.insert key id, m.order ++ [key]⟩)

/-- Pairs a list of keys with consecutive identifiers. -/
def numbered (start : Nat) : List String → List (Nat × String)
  | [] => []
  | key :: keys => (start, key) :: numbered (start + 1) keys

/-- All identifiers and keys in the order in which they were given out. -/
def entries (m : IdMap) : List (Nat × String) := numbered 1 m.order

/-- The text of an id file: a line with identifier and key for each entry. -/
def render (m : IdMap) : String :=
  String.join (m.entries.map fun e => s!"{e.1} {e.2}\n")

/-- Writes the id file and creates the directories above it. -/
def write (m : IdMap) (p : Path) : Action Unit := do
  Action.makeParent p
  Action.write p m.render.toUTF8

/-- A short description for logs. -/
def summary (m : IdMap) : String := s!"IdMap \x7b len: {m.size} \x7d"

end IdMap

/-! ## Shared maps -/

/-- Maps that are reached through handles. Several handles can lead to one map. -/
structure IdMapPool where
  maps : List IdMap
  /-- For each handle the index of its map. -/
  handles : List Nat
deriving Inhabited

namespace IdMapPool

/-- A pool with one map and one handle. -/
def start : IdMapPool := ⟨[⟨{}, []⟩], [0]⟩

/-- The map behind a handle. -/
def mapOf (p : IdMapPool) (handle : Nat) : IdMap :=
  (p.maps[p.handles[handle]?.getD 0]?).getD ⟨{}, []⟩

/-- Replaces the map behind a handle. -/
def setMap (p : IdMapPool) (handle : Nat) (m : IdMap) : IdMapPool :=
  { p with maps := p.maps.set (p.handles[handle]?.getD 0) m }

/-- Another handle to the map behind a handle. -/
def share (p : IdMapPool) (handle : Nat) : IdMapPool :=
  { p with handles := p.handles ++ [p.handles[handle]?.getD 0] }

/-- A handle to a new map. -/
def fresh (p : IdMapPool) : IdMapPool :=
  ⟨p.maps ++ [⟨{}, []⟩], p.handles ++ [p.maps.length]⟩

end IdMapPool

end Tracepoint
