import Tracepoint.Proofs.Ids

/-!
# Maps that several handles share

Handles that come from one another lead to one map, so it does not matter through which of
them an operation is done. After any history of operations the keys of the map are those
that were asked for since it was last reset, each once, in the order in which they were
first asked for, and the identifier of a key is its place in that order.

Identifiers are the numbers from 1 to the number of keys. They fit into a word of 32 bits as
long as there are fewer than 2 ^ 32 keys.

Results:

* `single_apply`, `single_after`: what one operation does to the one map of a pool, and what
  a history of them does.
* `shared_history`: what every handle shows after a history, and what the next operation
  answers and keeps.
-/

namespace Tracepoint.IdMapPool

/-! ## Operations -/

/-- What can be done through a handle. -/
inductive Operation where
  | getOrCreate (handle : Nat) (key : String)
  | get (handle : Nat) (key : String)
  | entries (handle : Nat)
  /-- Another handle to the same map. -/
  | share (handle : Nat)
  | reset (handle : Nat)

/-- What an operation answers. -/
inductive Answer where
  | id (id : Nat)
  | found (id : Option Nat)
  | listed (entries : List (Nat × String))
  | handle (handle : Nat)
  | done
deriving DecidableEq

/-- Does an operation: its answer, and the pool afterwards. -/
def Operation.apply (p : IdMapPool) : Operation → Answer × IdMapPool
  | .getOrCreate handle key =>
    let (id, m) := (p.mapOf handle).getOrCreate key
    (.id id, p.setMap handle m)
  | .get handle key => (.found ((p.mapOf handle).get? key), p)
  | .entries handle => (.listed (p.mapOf handle).entries, p)
  | .share handle => (.handle p.handles.length, p.share handle)
  | .reset handle => (.done, p.setMap handle ⟨{}, []⟩)

/-- The pool after some operations, from one map and one handle. -/
def after (ops : List Operation) : IdMapPool := ops.foldl (fun p op => (op.apply p).2) start

/-- The keys that were asked for since the last reset, after one more operation. -/
def Operation.meets (keys : List String) : Operation → List String
  | .getOrCreate _ key => keys ++ [key]
  | .reset _ => []
  | _ => keys

/-- The keys that operations have asked for since the last reset, oldest first. -/
def met (ops : List Operation) : List String := ops.foldl Operation.meets []

/-! ## Pools with one map -/

/-- All handles of a pool lead to one map. -/
structure Single (p : IdMapPool) (m : IdMap) : Prop where
  maps : p.maps = [m]
  handles : ∀ i ∈ p.handles, i = 0

namespace Single

variable {p : IdMapPool} {m : IdMap}

theorem index_eq (h : Single p m) (handle : Nat) : p.handles[handle]?.getD 0 = 0 := by
  cases hi : p.handles[handle]? with
  | none => rfl
  | some i => exact h.handles i (List.mem_of_getElem? hi)

theorem mapOf (h : Single p m) (handle : Nat) : p.mapOf handle = m := by
  rw [IdMapPool.mapOf, h.index_eq, h.maps]
  rfl

theorem setMap (h : Single p m) (handle : Nat) (m' : IdMap) : Single (p.setMap handle m') m' := by
  refine ⟨?_, h.handles⟩
  show p.maps.set _ m' = [m']
  rw [h.index_eq, h.maps]
  rfl

theorem share (h : Single p m) (handle : Nat) : Single (p.share handle) m := by
  refine ⟨h.maps, fun i hi => ?_⟩
  rcases List.mem_append.1 hi with hi | hi
  · exact h.handles i hi
  · rw [List.mem_singleton.1 hi, h.index_eq]

end Single

/-- The map in which some keys were met, and no others. -/
def mapOfKeys (keys : List String) : IdMap := IdMap.addKeys ⟨{}, []⟩ keys

theorem mapOfKeys_append (keys : List String) (key : String) :
    mapOfKeys (keys ++ [key]) = ((mapOfKeys keys).getOrCreate key).2 :=
  IdMap.addKeys_append _ keys [key]

/-- One operation turns the map of some keys into the map of those that are met then. -/
theorem single_apply {p : IdMapPool} {keys : List String} (h : Single p (mapOfKeys keys))
    (op : Operation) : Single (op.apply p).2 (mapOfKeys (op.meets keys)) := by
  cases op with
  | getOrCreate handle key =>
    rw [Operation.apply, h.mapOf, Operation.meets, mapOfKeys_append]
    exact h.setMap handle _
  | get handle key => exact h
  | entries handle => exact h
  | share handle => exact h.share handle
  | reset handle => exact h.setMap handle ⟨{}, []⟩

/-- After any history all handles lead to the map of the keys that were met since the last
    reset. -/
theorem single_after (ops : List Operation) : Single (after ops) (mapOfKeys (met ops)) := by
  have hrun : ∀ (ops : List Operation) (p : IdMapPool) (keys : List String),
      Single p (mapOfKeys keys) →
      Single (ops.foldl (fun p op => (op.apply p).2) p)
        (mapOfKeys (ops.foldl Operation.meets keys)) := by
    intro ops
    induction ops with
    | nil => exact fun p keys h => h
    | cons op ops ih => exact fun p keys h => ih _ _ (single_apply h op)
  exact hrun ops start [] ⟨rfl, by simp [start]⟩

/-! ## The map of some keys -/

theorem wellFormed_mapOfKeys (keys : List String) : (mapOfKeys keys).WellFormed :=
  IdMap.wellFormed_addKeys IdMap.wellFormed_empty keys

theorem order_mapOfKeys (keys : List String) : (mapOfKeys keys).order = keys.eraseDups := by
  rw [mapOfKeys, IdMap.order_addKeys IdMap.wellFormed_empty, List.nil_append,
    List.filter_eq_self.2 (by simp)]

theorem numbered_map_fst (start : Nat) (keys : List String) :
    (IdMap.numbered start keys).map Prod.fst = List.range' start keys.length := by
  induction keys generalizing start with
  | nil => rfl
  | cons key keys ih => simp [IdMap.numbered, ih, List.range'_succ]

theorem numbered_map_snd (start : Nat) (keys : List String) :
    (IdMap.numbered start keys).map Prod.snd = keys := by
  induction keys generalizing start with
  | nil => rfl
  | cons key keys ih => simp [IdMap.numbered, ih]

/-- The identifier of a key is its place, counted from 1. -/
theorem get?_mapOfKeys (keys : List String) (key : String) (id : Nat) :
    (mapOfKeys keys).get? key = some id ↔ 0 < id ∧ keys.eraseDups[id - 1]? = some key := by
  rw [(wellFormed_mapOfKeys keys).get?_eq_some_iff, IdMap.mem_entries, order_mapOfKeys]
  constructor
  · rintro ⟨i, hi, rfl⟩
    exact ⟨by omega, hi⟩
  · rintro ⟨hpos, hid⟩
    exact ⟨id - 1, hid, by omega⟩

theorem getOrCreate_mapOfKeys (keys : List String) (key : String) :
    ((mapOfKeys keys).getOrCreate key).1 =
      ((mapOfKeys keys).get? key).getD (keys.eraseDups.length + 1) := by
  cases h : (mapOfKeys keys).get? key with
  | some id => rw [IdMap.getOrCreate_of_some h]; rfl
  | none => rw [IdMap.getOrCreate_of_none h, IdMap.size, order_mapOfKeys]; rfl

/-- An operation that is no reset keeps every identifier. -/
theorem kept_meets {op : Operation} (hop : ∀ handle, op ≠ .reset handle) (keys : List String) :
    (mapOfKeys keys).Kept (mapOfKeys (op.meets keys)) := by
  cases op with
  | getOrCreate handle key =>
    rw [Operation.meets, mapOfKeys_append]
    exact IdMap.kept_getOrCreate _ key
  | get handle key => exact IdMap.Kept.refl _
  | entries handle => exact IdMap.Kept.refl _
  | share handle => exact IdMap.Kept.refl _
  | reset handle => exact absurd rfl (hop handle)

/-! ## Histories -/

/-- After any history of operations through handles that share a map, through whichever handle it
    is read: the entries are the keys that were met since the last reset, each once and in the
    order in which they were first met, with the identifiers from 1 on; a key has an identifier
    exactly if it stands at that place; asking for a key gives the identifier that it has, or else
    the next one; and no operation but a reset changes an identifier. -/
theorem shared_history (ops : List Operation) (handle : Nat) :
    let m := (after ops).mapOf handle
    let keys := (met ops).eraseDups
    keys.Nodup ∧ m.entries.map Prod.snd = keys ∧
      m.entries.map Prod.fst = List.range' 1 keys.length ∧
      (∀ key id, m.get? key = some id ↔ 0 < id ∧ (m.entries.map Prod.snd)[id - 1]? = some key) ∧
      (∀ key, ((Operation.getOrCreate handle key).apply (after ops)).1 =
        .id ((m.get? key).getD (keys.length + 1))) ∧
      ∀ op : Operation, (∀ g, op ≠ .reset g) → ∀ other key id, m.get? key = some id →
        ((op.apply (after ops)).2.mapOf other).get? key = some id := by
  intro m keys
  have hsingle := single_after ops
  have hm : m = mapOfKeys (met ops) := hsingle.mapOf handle
  have horder : m.order = keys := by rw [hm, order_mapOfKeys]
  have hkeys : m.entries.map Prod.snd = keys := by
    rw [IdMap.entries, numbered_map_snd, horder]
  refine ⟨?_, hkeys, ?_, ?_, ?_, ?_⟩
  · rw [← horder, hm]
    exact (wellFormed_mapOfKeys (met ops)).nodup
  · rw [IdMap.entries, numbered_map_fst, horder]
  · intro key id
    rw [hkeys, hm]
    exact get?_mapOfKeys (met ops) key id
  · intro key
    show Answer.id ((m.getOrCreate key).1) = _
    rw [hm, getOrCreate_mapOfKeys]
  · intro op hop other key id hid
    rw [(single_apply hsingle op).mapOf other]
    rw [hm] at hid
    exact kept_meets hop (met ops) key id hid

/-- Of two handles one meets a key, the other one resets the map, and the numbers start again. -/
example :
    let ops : List Operation := [.getOrCreate 0 "z", .share 0, .getOrCreate 1 "a", .reset 1,
      .getOrCreate 0 "m", .getOrCreate 1 "z"]
    met ops = ["m", "z"] ∧ (after ops).handles = [0, 0] := by
  decide

end Tracepoint.IdMapPool
