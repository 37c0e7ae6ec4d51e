import Pacsni.Lib.Text

/-! # The geo cache

`lruCache` of the dashboard: a map from keys to list elements, and the list of the elements, most
recently used first. An element is a cell that holds an `lruEntry`; the map and the list refer to it by
its address. -/

namespace Pacsni.Dashboard.Lru

open Pacsni.Lib.Text

/-- `lruEntry` -/
structure LruEntry where
  key : Str
  value : Str

/-- `lruCache`. `entries` are the cells of the elements, `next` is an address that is not in use. -/
structure LruCache where
  capacity : ℕ
  cache : AList fun _ : Str => ℕ
  list : List ℕ
  entries : ℕ → LruEntry
  next : ℕ

namespace LruCache

/-- `NewLRUCache` -/
def new (capacity : ℕ) : LruCache := ⟨capacity, ∅, [], fun _ => ⟨[], []⟩, 0⟩

variable (c : LruCache)

/-- `list.MoveToFront` -/
def moveToFront (element : ℕ) : LruCache := { c with list := element :: c.list.erase element }

/-- `Get` -/
def get (key : Str) : LruCache × Option Str :=
  match c.cache.lookup key with
  | some element => (c.moveToFront element, some (c.entries element).value)
  | none => (c, none)

/-- The eviction in `Add`. -/
def evict : LruCache :=
  if c.capacity ≤ c.list.length then
    match c.list.getLast? with
    | some oldest =>
      { c with list := c.list.erase oldest, cache := c.cache.erase (c.entries oldest).key }
    | none => c
  else c

/-- `PushFront` of a new entry, and the map entry for it. -/
def insertFront (key value : Str) : LruCache :=
  { c with
    entries := Function.update c.entries c.next ⟨key, value⟩
    list := c.next :: c.list
    cache := c.cache.insert key c.next
    next := c.next + 1 }

/-- `Add` -/
def add (key value : Str) : LruCache :=
  match c.cache.lookup key with
  | some element =>
    let c := c.moveToFront element
    { c with entries := Function.update c.entries element { c.entries element with value := value } }
  | none => c.evict.insertFront key value

/-- `Remove` -/
def remove (key : Str) : LruCache :=
  match c.cache.lookup key with
  | some element => { c with list := c.list.erase element, cache := c.cache.erase key }
  | none => c

/-- `GetAll`: the entries of all elements in the map, in any order, put into a new map. -/
def getAll : AList fun _ : Str => Str :=
  c.cache.entries.foldl (fun allEntries e => allEntries.insert (c.entries e.2).key (c.entries e.2).value)
    ∅

/-- `Load`; the entries of `data` stand in the order in which the loop takes them. -/
def load (data : AList fun _ : Str => Str) : LruCache :=
  data.entries.foldl (fun c e => c.insertFront e.1 e.2) { c with cache := ∅, list := [] }

/-! ### A property of all values -/

/-- Every element holds a value with the property `P`. -/
def AllValues (P : Str → Prop) : Prop := ∀ element, P (c.entries element).value

variable {c} {P : Str → Prop}

theorem AllValues.get_value (h : c.AllValues P) {key value : Str} (hget : (c.get key).2 = some value) :
    P value := by
  unfold get at hget
  cases hl : c.cache.lookup key with
  | none => simp [hl] at hget
  | some element =>
    simp only [hl, Option.some.injEq] at hget
    exact hget ▸ h element

theorem AllValues.get (h : c.AllValues P) (key : Str) : (c.get key).1.AllValues P := by
  unfold LruCache.get
  cases c.cache.lookup key <;> exact h

theorem AllValues.evict (h : c.AllValues P) : c.evict.AllValues P := by
  unfold LruCache.evict
  split_ifs
  · cases c.list.getLast? <;> exact h
  · exact h

theorem AllValues.add (h : c.AllValues P) {key value : Str} (hv : P value) :
    (c.add key value).AllValues P := by
  unfold LruCache.add
  cases c.cache.lookup key with
  | some e =>
    intro element
    by_cases he : element = e
    · subst he
      simpa [moveToFront] using hv
    · simpa [moveToFront, he] using h element
  | none =>
    intro element
    have hev := h.evict element
    by_cases he : element = c.evict.next
    · subst he
      simpa [insertFront] using hv
    · simpa [insertFront, he] using hev

theorem AllValues.remove (h : c.AllValues P) (key : Str) : (c.remove key).AllValues P := by
  unfold LruCache.remove
  cases c.cache.lookup key <;> exact h

/-! ### A relation between keys and values -/

/-- The element of a key in the map is one that is in use, holds this key, and a value that is related
to it. -/
structure Maps (R : Str → Str → Prop) (c : LruCache) : Prop where
  key : ∀ key element, c.cache.lookup key = some element → (c.entries element).key = key
  value : ∀ key element, c.cache.lookup key = some element → R key (c.entries element).value
  used : ∀ key element, c.cache.lookup key = some element → element < c.next

variable {R : Str → Str → Prop}

theorem Maps.get_value (h : Maps R c) {key value : Str} (hget : (c.get key).2 = some value) :
    R key value := by
  unfold LruCache.get at hget
  cases hl : c.cache.lookup key with
  | none => simp [hl] at hget
  | some element =>
    simp only [hl, Option.some.injEq] at hget
    exact hget ▸ h.value key element hl

theorem Maps.get (h : Maps R c) (key : Str) : Maps R (c.get key).1 := by
  unfold LruCache.get
  cases c.cache.lookup key with
  | none => exact h
  | some element => exact ⟨h.key, h.value, h.used⟩

/-- Fewer keys in the map. -/
theorem Maps.erase (h : Maps R c) (key : Str) (l : List ℕ) :
    Maps R { c with list := l, cache := c.cache.erase key } := by
  have hsub : ∀ key' element, (c.cache.erase key).lookup key' = some element →
      c.cache.lookup key' = some element := by
    intro key' element hl
    by_cases hk : key' = key
    · rw [hk, AList.lookup_erase] at hl
      cases hl
    · rwa [AList.lookup_erase_ne hk] at hl
  exact ⟨fun k e hl => h.key k e (hsub k e hl), fun k e hl => h.value k e (hsub k e hl),
    fun k e hl => h.used k e (hsub k e hl)⟩

theorem Maps.evict (h : Maps R c) : Maps R c.evict := by
  unfold LruCache.evict
  split_ifs
  · cases c.list.getLast? with
    | none => exact h
    | some oldest => exact h.erase _ _
  · exact h

/-- A new entry is in an element of its own. -/
theorem Maps.insertFront (h : Maps R c) {key value : Str} (hv : R key value) :
    Maps R (c.insertFront key value) := by
  have hcases : ∀ key' element, (c.cache.insert key c.next).lookup key' = some element →
      (key' = key ∧ element = c.next) ∨ (element ≠ c.next ∧ c.cache.lookup key' = some element) := by
    intro key' element hl
    by_cases hk : key' = key
    · rw [hk, AList.lookup_insert] at hl
      exact Or.inl ⟨hk, (Option.some.inj hl).symm⟩
    · rw [AList.lookup_insert_ne hk] at hl
      exact Or.inr ⟨Nat.ne_of_lt (h.used key' element hl), hl⟩
  constructor
  · intro key' element hl
    rcases hcases key' element hl with ⟨rfl, rfl⟩ | ⟨hne, hl⟩
    · simp [LruCache.insertFront]
    · simpa [LruCache.insertFront, hne] using h.key key' element hl
  · intro key' element hl
    rcases hcases key' element hl with ⟨rfl, rfl⟩ | ⟨hne, hl⟩
    · simpa [LruCache.insertFront] using hv
    · simpa [LruCache.insertFront, hne] using h.value key' element hl
  · intro key' element hl
    rcases hcases key' element hl with ⟨rfl, rfl⟩ | ⟨hne, hl⟩
    · exact Nat.lt_succ_self _
    · exact Nat.lt_succ_of_lt (h.used key' element hl)

theorem Maps.add (h : Maps R c) {key value : Str} (hv : R key value) : Maps R (c.add key value) := by
  unfold LruCache.add
  cases hc : c.cache.lookup key with
  | none => exact h.evict.insertFront hv
  | some e =>
    refine ⟨fun key' element hl => ?_, fun key' element hl => ?_, h.used⟩
    · by_cases he : element = e
      · simpa [moveToFront, he] using h.key key' e (he ▸ hl)
      · simpa [moveToFront, he] using h.key key' element hl
    · by_cases he : element = e
      · -- an element holds the value of one key only
        have hkey : key' = key := (h.key key' e (he ▸ hl)).symm.trans (h.key key e hc)
        simpa [moveToFront, he, hkey] using hv
      · simpa [moveToFront, he] using h.value key' element hl

theorem Maps.new (R : Str → Str → Prop) (capacity : ℕ) : Maps R (LruCache.new capacity) :=
  ⟨nofun, nofun, nofun⟩

end LruCache

end Pacsni.Dashboard.Lru
