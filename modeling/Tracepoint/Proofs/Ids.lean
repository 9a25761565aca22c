import Mathlib.Tactic.Common
import Tracepoint.IdMap

/-!
# Identifiers stay

An id map gives out the identifiers `1, 2, 3, …` in the order in which keys are first
met. In a well-formed map the identifier of a key is its place in that order, so an
identifier belongs to one key. Giving out further identifiers appends to the order
and changes none that are there.

Results:

* `wellFormed_getOrCreate`: maps stay well-formed.
* `eq_of_mem_entries`: an identifier belongs to one key.
* `order_addKeys`: the keys that are new are appended, each once, as they are met.
-/

namespace Tracepoint.IdMap

/-! ## Entries -/

theorem mem_numbered {start id : Nat} {key : String} {keys : List String} :
    (id, key) ∈ numbered start keys ↔ ∃ i, keys[i]? = some key ∧ id = start + i := by
  induction keys generalizing start with
  | nil => simp [numbered]
  | cons k keys ih =>
    rw [numbered, List.mem_cons, ih]
    constructor
    · rintro (h | ⟨i, hi, rfl⟩)
      · simp only [Prod.mk.injEq] at h
        exact ⟨0, by simp [h.2], by omega⟩
      · exact ⟨i + 1, by simpa using hi, by omega⟩
    · rintro ⟨i, hi, rfl⟩
      cases i with
      | zero => left; simp at hi; simp [hi]
      | succ i => right; exact ⟨i, by simpa using hi, by omega⟩

theorem mem_entries {m : IdMap} {id : Nat} {key : String} :
    (id, key) ∈ m.entries ↔ ∃ i, m.order[i]? = some key ∧ id = i + 1 := by
  rw [entries, mem_numbered]
  simp only [Nat.add_comm]

theorem numbered_append (start : Nat) (keys keys' : List String) :
    numbered start (keys ++ keys') = numbered start keys ++ numbered (start + keys.length) keys' := by
  induction keys generalizing start with
  | nil => simp [numbered]
  | cons k keys ih =>
    rw [List.cons_append, numbered, ih, numbered, List.length_cons, List.cons_append,
      show start + 1 + keys.length = start + (keys.length + 1) by omega]

theorem entries_append (m : IdMap) (ids : Std.HashMap String Nat) (key : String) :
    entries ⟨ids, m.order ++ [key]⟩ = m.entries ++ [(m.size + 1, key)] := by
  rw [entries, numbered_append, entries, size, Nat.add_comm]
  rfl

/-- An identifier belongs to one key. -/
theorem eq_of_mem_entries {m : IdMap} {id : Nat} {key key' : String} (h : (id, key) ∈ m.entries)
    (h' : (id, key') ∈ m.entries) : key' = key := by
  obtain ⟨i, hi, rfl⟩ := mem_entries.1 h
  obtain ⟨j, hj, hij⟩ := mem_entries.1 h'
  have : i = j := by omega
  subst this
  rw [hi] at hj
  exact (Option.some.inj hj).symm

/-! ## Well-formed maps -/

/-- The identifier of a key is its place in the order of first use. -/
structure WellFormed (m : IdMap) : Prop where
  nodup : m.order.Nodup
  get?_eq_some_iff : ∀ key id, m.get? key = some id ↔ (id, key) ∈ m.entries

theorem wellFormed_empty : WellFormed ⟨{}, []⟩ := by
  constructor
  · simp
  · intro key id
    simp [get?, entries, numbered]

namespace WellFormed

variable {m : IdMap}

theorem mem_order_iff (h : m.WellFormed) (key : String) :
    key ∈ m.order ↔ (m.get? key).isSome = true := by
  rw [Option.isSome_iff_exists, List.mem_iff_getElem?]
  constructor
  · rintro ⟨i, hi⟩
    exact ⟨i + 1, (h.get?_eq_some_iff key _).2 (mem_entries.2 ⟨i, hi, rfl⟩)⟩
  · rintro ⟨id, hid⟩
    obtain ⟨i, hi, -⟩ := mem_entries.1 ((h.get?_eq_some_iff key id).1 hid)
    exact ⟨i, hi⟩

end WellFormed

/-! ## Giving out identifiers -/

theorem getOrCreate_of_some {m : IdMap} {key : String} {id : Nat} (h : m.get? key = some id) :
    m.getOrCreate key = (id, m) := by
  simp [getOrCreate, h]

theorem getOrCreate_of_none {m : IdMap} {key : String} (h : m.get? key = none) :
    m.getOrCreate key = (m.size + 1, ⟨m.ids.insert key (m.size + 1), m.order ++ [key]⟩) := by
  simp [getOrCreate, h]

theorem get?_insert (m : IdMap) (key : String) (id : Nat) (order : List String) (k : String) :
    get? ⟨m.ids.insert key id, order⟩ k = if key = k then some id else m.get? k := by
  simp [get?, Std.HashMap.getElem?_insert]

/-- The identifier that is given out is the one that the map has then. -/
theorem get?_getOrCreate_self (m : IdMap) (key : String) :
    (m.getOrCreate key).2.get? key = some (m.getOrCreate key).1 := by
  cases h : m.get? key with
  | some id => rw [getOrCreate_of_some h]; exact h
  | none => rw [getOrCreate_of_none h, get?_insert]; simp

/-- Every identifier of a map stays in another one. -/
def Kept (m m' : IdMap) : Prop := ∀ key id, m.get? key = some id → m'.get? key = some id

theorem Kept.refl (m : IdMap) : Kept m m := fun _ _ h => h

theorem Kept.trans {m m' m'' : IdMap} (h : Kept m m') (h' : Kept m' m'') : Kept m m'' :=
  fun key id hid => h' key id (h key id hid)

theorem kept_getOrCreate (m : IdMap) (key : String) : Kept m (m.getOrCreate key).2 := by
  intro k id hk
  cases h : m.get? key with
  | some id' => rw [getOrCreate_of_some h]; exact hk
  | none =>
    rw [getOrCreate_of_none h, get?_insert]
    have hne : key ≠ k := by rintro rfl; rw [h] at hk; cases hk
    simp [hne, hk]

theorem order_getOrCreate (m : IdMap) (key : String) :
    (m.getOrCreate key).2.order = m.order ++ if (m.get? key).isSome then [] else [key] := by
  cases h : m.get? key with
  | some id => rw [getOrCreate_of_some h]; simp
  | none => rw [getOrCreate_of_none h]; simp

theorem wellFormed_getOrCreate {m : IdMap} (hm : m.WellFormed) (key : String) :
    (m.getOrCreate key).2.WellFormed := by
  cases h : m.get? key with
  | some id => rw [getOrCreate_of_some h]; exact hm
  | none =>
    have hnot : key ∉ m.order := by rw [hm.mem_order_iff, h]; simp
    have hnew : ∀ id, (id, key) ∉ m.entries := by
      intro id hid
      rw [← hm.get?_eq_some_iff, h] at hid
      cases hid
    rw [getOrCreate_of_none h]
    constructor
    · refine List.nodup_append.2 ⟨hm.nodup, by simp, ?_⟩
      intro a ha b hb hab
      rw [hab, List.mem_singleton.1 hb] at ha
      exact hnot ha
    · intro k id
      rw [get?_insert, entries_append, List.mem_append, List.mem_singleton, Prod.mk.injEq]
      split_ifs with hk
      · subst hk
        simp [hnew id, eq_comm]
      · rw [hm.get?_eq_some_iff]
        simp [Ne.symm hk]

/-! ## Many keys -/

/-- The map after some keys were met one after the other. -/
def addKeys (m : IdMap) (keys : List String) : IdMap :=
  keys.foldl (fun m key => (m.getOrCreate key).2) m

@[simp] theorem addKeys_nil (m : IdMap) : m.addKeys [] = m := rfl

@[simp] theorem addKeys_cons (m : IdMap) (key : String) (keys : List String) :
    m.addKeys (key :: keys) = (m.getOrCreate key).2.addKeys keys := rfl

theorem addKeys_append (m : IdMap) (keys keys' : List String) :
    m.addKeys (keys ++ keys') = (m.addKeys keys).addKeys keys' := by
  simp [addKeys, List.foldl_append]

theorem kept_addKeys (m : IdMap) (keys : List String) : Kept m (m.addKeys keys) := by
  induction keys generalizing m with
  | nil => exact Kept.refl m
  | cons key keys ih => exact (kept_getOrCreate m key).trans (ih _)

theorem wellFormed_addKeys {m : IdMap} (hm : m.WellFormed) (keys : List String) :
    (m.addKeys keys).WellFormed := by
  induction keys generalizing m with
  | nil => exact hm
  | cons key keys ih => exact ih (wellFormed_getOrCreate hm key)

theorem isSome_get?_addKeys (m : IdMap) {keys : List String} {key : String} (h : key ∈ keys) :
    ((m.addKeys keys).get? key).isSome = true := by
  induction keys generalizing m with
  | nil => simp at h
  | cons k keys ih =>
    rcases List.mem_cons.1 h with rfl | h
    · have hself := get?_getOrCreate_self m key
      rw [addKeys_cons, kept_addKeys _ keys _ _ hself]
      rfl
    · exact ih _ h

/-- Keys that have identifiers already change nothing. -/
theorem addKeys_of_isSome {m : IdMap} {keys : List String}
    (h : ∀ key ∈ keys, (m.get? key).isSome = true) : m.addKeys keys = m := by
  induction keys with
  | nil => rfl
  | cons key keys ih =>
    obtain ⟨hkey, hkeys⟩ := List.forall_mem_cons.1 h
    obtain ⟨id, hid⟩ := Option.isSome_iff_exists.1 hkey
    rw [addKeys_cons, getOrCreate_of_some hid, ih hkeys]

/-- The keys that are new are appended, each once, in the order in which they are met. -/
theorem order_addKeys {m : IdMap} (hm : m.WellFormed) (keys : List String) :
    (m.addKeys keys).order = m.order ++ (keys.filter (· ∉ m.order)).eraseDups := by
  induction keys generalizing m with
  | nil => simp
  | cons key keys ih =>
    rw [addKeys_cons, ih (wellFormed_getOrCreate hm key), order_getOrCreate]
    by_cases hkey : key ∈ m.order
    · have hsome := (hm.mem_order_iff key).1 hkey
      simp [hsome, hkey]
    · have hnone : (m.get? key).isSome = false := by
        simpa using (hm.mem_order_iff key).not.1 hkey
      rw [List.filter_cons_of_pos (by simpa using hkey), List.eraseDups_cons, List.filter_filter]
      simp only [hnone, Bool.false_eq_true, if_false, List.append_assoc, List.singleton_append]
      congr 3
      apply List.filter_congr
      intro k _
      rw [beq_eq_decide]
      simp [Bool.and_comm]

end Tracepoint.IdMap
