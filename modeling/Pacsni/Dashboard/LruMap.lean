import Mathlib.Data.Finmap
import Pacsni.Lib.Recency
import Pacsni.Dashboard.Lru

/-! # The geo cache as a map in the order of its last use

The two structures of an `lruCache` against one association list: the list of the elements in their
order, with the key and the value each of them holds. Every method does to the association list what
`Lib.Recency` says (`holds_get`, `holds_add`, `holds_remove`, `holds_load`), so behind any sequence of
calls the map and the list are in step, and a new key takes the place of the one whose last use is the
longest ago (`recency_map_run`).

Only `Add` looks at the capacity. So the number of entries stays within it if and only if no map that is
loaded is larger (`within_capacity_iff`). -/

namespace Pacsni.Dashboard.LruMap

open Pacsni.Lib.Text Pacsni.Lib.Recency
open Pacsni.Dashboard.Lru Pacsni.Dashboard.Lru.LruCache

/-- A call of a method. -/
inductive Call
  | get (key : Str)
  | add (key value : Str)
  | remove (key : Str)
  | getAll
  | load (data : AList fun _ : Str => Str)

/-- The cache behind a call. -/
def call (c : LruCache) : Call → LruCache
  | .get key => (c.get key).1
  | .add key value => c.add key value
  | .remove key => c.remove key
  | .getAll => c
  | .load data => c.load data

/-- A new cache behind a sequence of calls. -/
def run (capacity : ℕ) (calls : List Call) : LruCache := calls.foldl call (LruCache.new capacity)

/-! ### What the calls say -/

/-- The keys that a call uses. -/
def usedBy : Call → List Str
  | .get key => [key]
  | .add key _ => [key]
  | .load data => data.keys
  | _ => []

/-- The keys in the order in which they were used. -/
def uses (calls : List Call) : List Str := calls.flatMap usedBy

/-- The value that the latest `Add` or `Load` of the key gave to it. -/
def latest (calls : List Call) (key : Str) : Option Str :=
  calls.foldl (fun value => fun
    | .add k v => if k = key then some v else value
    | .load data => (data.lookup key).or value
    | _ => value) none

/-- The map and the list hold the same keys, each once, and the map leads from a key to the element that
holds it. -/
structure Linked (c : LruCache) : Prop where
  once : (c.list.map fun e => (c.entries e).key).Nodup
  same : ∀ key, key ∈ c.cache ↔ key ∈ c.list.map fun e => (c.entries e).key
  own : ∀ key e, c.cache.lookup key = some e → e ∈ c.list ∧ (c.entries e).key = key

/-- The cache behind the calls: its two structures are in step, its values are the latest ones, and what
each method does to its keys. -/
structure Refines (capacity : ℕ) (calls : List Call) (c : LruCache) : Prop where
  linked : Linked c
  get : ∀ key, (c.get key).2 = if key ∈ c.cache then latest calls key else none
  getAll : ∀ key, c.getAll.lookup key = (c.get key).2
  absent : ∀ key, key ∉ c.cache → c.get key = (c, none) ∧ c.remove key = c
  keys_get : ∀ key k, k ∈ (c.get key).1.cache ↔ k ∈ c.cache
  keys_remove : ∀ key k, k ∈ (c.remove key).cache ↔ k ≠ key ∧ k ∈ c.cache
  keys_load : ∀ data k, k ∈ (c.load data).cache ↔ k ∈ data
  keys_add_known : ∀ key value, key ∈ c.cache → ∀ k, k ∈ (c.add key value).cache ↔ k ∈ c.cache
  keys_add_room : ∀ key value, key ∉ c.cache → c.list.length < capacity →
    ∀ k, k ∈ (c.add key value).cache ↔ k = key ∨ k ∈ c.cache
  keys_add_full : ∀ key value, key ∉ c.cache → capacity ≤ c.list.length →
    ∃ victim ∈ c.cache, (∀ k, k ∈ (c.add key value).cache ↔ k = key ∨ k ≠ victim ∧ k ∈ c.cache) ∧
      ∀ k ∈ c.cache, k ≠ victim → UsedSince (uses calls) victim k
  load_getAll : ∀ data, (c.load data).getAll.toFinmap = data.toFinmap

/-! ### The association list -/

/-- The key and the value in an element. -/
def entryOf (c : LruCache) (e : ℕ) : Sigma fun _ : Str => Str :=
  ⟨(c.entries e).key, (c.entries e).value⟩

/-- The elements hold the entries of `m` in their order, the map leads to them, and they are cells in
use. -/
structure Holds (c : LruCache) (m : AList fun _ : Str => Str) : Prop where
  contents : m.entries = c.list.map (entryOf c)
  cache : ∀ key e, c.cache.lookup key = some e ↔ e ∈ c.list ∧ (c.entries e).key = key
  fresh : ∀ e ∈ c.list, e < c.next

variable {c : LruCache} {m : AList fun _ : Str => Str} {key value k : Str} {e e' : ℕ} {capacity : ℕ}

theorem Holds.keys (h : Holds c m) : m.keys = c.list.map fun e => (c.entries e).key := by
  unfold AList.keys List.keys
  rw [h.contents, List.map_map]
  rfl

theorem Holds.nodup (h : Holds c m) : c.list.Nodup := by
  have hkeys : m.keys.Nodup := m.nodupKeys
  rw [h.keys] at hkeys
  exact hkeys.of_map

/-- An element is found under its key only. -/
theorem Holds.inj (h : Holds c m) (he : e ∈ c.list) (he' : e' ∈ c.list)
    (hkey : (c.entries e').key = (c.entries e).key) : e' = e := by
  have hlookup := (h.cache _ e).mpr ⟨he, rfl⟩
  have hlookup' := (h.cache _ e').mpr ⟨he', hkey⟩
  exact Option.some.inj (hlookup'.symm.trans hlookup)

theorem Holds.lookup (h : Holds c m) (key : Str) :
    m.lookup key = (c.cache.lookup key).map fun e => (c.entries e).value := by
  apply Option.ext
  intro v
  have hentry : m.lookup key = some v ↔ (⟨key, v⟩ : Sigma fun _ : Str => Str) ∈ m.entries :=
    AList.mem_lookup_iff
  rw [hentry, h.contents, List.mem_map, Option.map_eq_some_iff]
  constructor
  · rintro ⟨e, he, hv⟩
    obtain ⟨hkey, hvalue⟩ := Sigma.mk.inj hv
    exact ⟨e, (h.cache key e).mpr ⟨he, hkey⟩, eq_of_heq hvalue⟩
  · rintro ⟨e, he, rfl⟩
    obtain ⟨hmem, rfl⟩ := (h.cache key e).mp he
    exact ⟨e, hmem, rfl⟩

theorem Holds.mem (h : Holds c m) : k ∈ c.cache ↔ k ∈ m := by
  rw [← AList.lookup_isSome, ← AList.lookup_isSome, h.lookup, Option.isSome_map]

theorem Holds.length (h : Holds c m) : c.list.length = m.keys.length := by
  rw [h.keys, List.length_map]

theorem Holds.linked (h : Holds c m) : Linked c where
  once := by
    rw [← h.keys]
    exact m.nodupKeys
  same key := by
    rw [h.mem, AList.mem_keys, h.keys]
  own key e := (h.cache key e).mp

/-- Taking an element out of the list takes its key out of the entries. -/
theorem map_erase (f : ℕ → Sigma fun _ : Str => Str) {l : List ℕ}
    (hinj : ∀ e' ∈ l, (f e').1 = (f e).1 → e' = e) :
    (l.erase e).map f = (l.map f).kerase (f e).1 := by
  induction l with
  | nil => rfl
  | cons a l ih =>
    have hl : ∀ e' ∈ l, (f e').1 = (f e).1 → e' = e := fun e' he' =>
      hinj e' (List.mem_cons_of_mem _ he')
    by_cases ha : a = e
    · subst ha
      rw [List.erase_cons_head, List.map_cons, List.kerase_cons_eq rfl]
    · have hne : (f e).1 ≠ (f a).1 := fun h => ha (hinj a List.mem_cons_self h.symm)
      rw [List.erase_cons_tail (by simpa using ha), List.map_cons, List.map_cons,
        List.kerase_cons_ne hne, ih hl]

theorem Holds.erase_entries (h : Holds c m) (he : c.cache.lookup key = some e) :
    m.entries.kerase key = (c.list.erase e).map (entryOf c) := by
  obtain ⟨hmem, rfl⟩ := (h.cache key e).mp he
  rw [h.contents]
  exact (map_erase (entryOf c) fun e' he' => h.inj hmem he').symm

/-! ### The methods -/

/-- An element goes to the front, with a value. -/
theorem Holds.setFront (h : Holds c m) (he : c.cache.lookup key = some e) (value : Str) :
    Holds { c with
      list := e :: c.list.erase e
      entries := Function.update c.entries e { c.entries e with value := value } }
      (m.insert key value) := by
  obtain ⟨hmem, hkey⟩ := (h.cache key e).mp he
  have hlist : ∀ e', e' ∈ e :: c.list.erase e ↔ e' ∈ c.list := by
    intro e'
    rw [List.mem_cons, h.nodup.mem_erase_iff]
    by_cases he' : e' = e <;> simp [he', hmem]
  have hkeys : ∀ e', (Function.update c.entries e { c.entries e with value := value } e').key =
      (c.entries e').key := by
    intro e'
    by_cases he' : e' = e
    · simp [he']
    · simp [he']
  constructor
  · rw [AList.entries_insert, h.erase_entries he, List.map_cons]
    congr 1
    · simp [entryOf, hkey]
    · refine List.map_congr_left fun e' he' => ?_
      have hne := (h.nodup.mem_erase_iff.mp he').1
      simp [entryOf, hne]
  · intro k e'
    rw [h.cache k e', hlist, hkeys]
  · intro e' he'
    exact h.fresh e' ((hlist e').mp he')

theorem Holds.moveToFront (h : Holds c m) (he : c.cache.lookup key = some e) :
    Holds (c.moveToFront e) (m.insert key (c.entries e).value) := by
  have hfront := h.setFront he (c.entries e).value
  rwa [Function.update_eq_self] at hfront

/-- An element goes. -/
theorem Holds.drop (h : Holds c m) (he : c.cache.lookup key = some e) :
    Holds { c with list := c.list.erase e, cache := c.cache.erase key } (m.erase key) := by
  obtain ⟨hmem, rfl⟩ := (h.cache key e).mp he
  refine ⟨h.erase_entries he, fun k e' => ?_, fun e' he' => h.fresh e' (List.mem_of_mem_erase he')⟩
  show (c.cache.erase _).lookup k = some e' ↔ e' ∈ c.list.erase e ∧ (c.entries e').key = k
  rw [h.nodup.mem_erase_iff]
  by_cases hk : k = (c.entries e).key
  · rw [hk, AList.lookup_erase]
    refine iff_of_false nofun ?_
    rintro ⟨⟨hne, he'⟩, hkey⟩
    exact hne (h.inj hmem he' hkey)
  · rw [AList.lookup_erase_ne hk, h.cache k e']
    constructor
    · rintro ⟨he', rfl⟩
      exact ⟨⟨fun heq => hk (by rw [heq]), he'⟩, rfl⟩
    · rintro ⟨⟨-, he'⟩, rfl⟩
      exact ⟨he', rfl⟩

/-- A new element. -/
theorem Holds.insertFront (h : Holds c m) (hkey : key ∉ m) (value : Str) :
    Holds (c.insertFront key value) (m.insert key value) := by
  have hne : ∀ e ∈ c.list, e ≠ c.next := fun e he => Nat.ne_of_lt (h.fresh e he)
  constructor
  · rw [AList.entries_insert_of_notMem hkey, h.contents]
    show _ = (c.next :: c.list).map _
    rw [List.map_cons]
    congr 1
    · simp [entryOf, LruCache.insertFront]
    · refine List.map_congr_left fun e he => ?_
      simp [entryOf, LruCache.insertFront, hne e he]
  · intro k e
    show (c.cache.insert key c.next).lookup k = some e ↔
      e ∈ c.next :: c.list ∧ (Function.update c.entries c.next ⟨key, value⟩ e).key = k
    by_cases he : e = c.next
    · subst he
      have hnot : c.next ∉ c.list := fun hmem => hne _ hmem rfl
      by_cases hk : k = key
      · rw [hk, AList.lookup_insert]
        simp
      · rw [AList.lookup_insert_ne hk, h.cache]
        simp [hnot, Ne.symm hk]
    · by_cases hk : k = key
      · subst hk
        rw [AList.lookup_insert]
        refine iff_of_false (fun heq => he (Option.some.inj heq).symm) ?_
        rintro ⟨hmem, hke⟩
        rw [Function.update_of_ne he] at hke
        have hold := List.mem_of_ne_of_mem he hmem
        exact hkey (h.mem.mp (AList.lookup_isSome.mp
          (Option.isSome_iff_exists.mpr ⟨e, (h.cache _ e).mpr ⟨hold, hke⟩⟩)))
      · rw [AList.lookup_insert_ne hk, h.cache, Function.update_of_ne he, List.mem_cons,
          or_iff_right he]
  · intro e he
    show e < c.next + 1
    rcases List.mem_cons.mp he with rfl | he
    · exact Nat.lt_succ_self _
    · exact Nat.lt_succ_of_lt (h.fresh e he)

/-- **Get.** -/
theorem holds_get (h : Holds c m) (key : Str) :
    Holds (c.get key).1 (touch m key) ∧ (c.get key).2 = m.lookup key := by
  have hlookup := h.lookup key
  unfold LruCache.get
  cases he : c.cache.lookup key with
  | none =>
    rw [he, Option.map_none] at hlookup
    rw [touch_of_notMem (AList.lookup_eq_none.mp hlookup)]
    exact ⟨h, hlookup.symm⟩
  | some e =>
    rw [he, Option.map_some] at hlookup
    rw [touch_of_lookup hlookup]
    exact ⟨h.moveToFront he, hlookup.symm⟩

/-- **Remove.** -/
theorem holds_remove (h : Holds c m) (key : Str) : Holds (c.remove key) (m.erase key) := by
  unfold LruCache.remove
  cases he : c.cache.lookup key with
  | none =>
    have hnot : key ∉ m := by
      rw [← h.mem, ← AList.lookup_eq_none]
      exact he
    have hsame : m.erase key = m := AList.ext (List.kerase_of_notMem_keys hnot)
    rw [hsame]
    exact h
  | some e => exact h.drop he

/-- The element at the end of the list holds the oldest key. -/
theorem Holds.oldest (h : Holds c m) :
    oldest m = c.list.getLast?.map fun e => (c.entries e).key := by
  unfold Lib.Recency.oldest
  rw [h.keys, List.getLast?_map]

theorem holds_evict (h : Holds c m) : Holds c.evict (makeRoom c.capacity m) := by
  have hold := h.oldest
  unfold LruCache.evict makeRoom
  rw [h.length]
  split_ifs with hfull
  · cases hlast : c.list.getLast? with
    | none =>
      rw [hlast] at hold
      simpa [dropOldest, hold] using h
    | some e =>
      rw [hlast] at hold
      rw [dropOldest_of_oldest hold]
      exact h.drop ((h.cache _ e).mpr ⟨List.mem_of_getLast? hlast, rfl⟩)
  · exact h

/-- **Add.** -/
theorem holds_add (h : Holds c m) (key value : Str) :
    Holds (c.add key value) (put c.capacity m key value) := by
  unfold LruCache.add
  cases he : c.cache.lookup key with
  | none =>
    have hnot : key ∉ m := by
      rw [← h.mem, ← AList.lookup_eq_none]
      exact he
    rw [put_of_notMem hnot]
    exact (holds_evict h).insertFront (notMem_makeRoom hnot) value
  | some e =>
    have hmem : key ∈ m := h.mem.mp (AList.lookup_isSome.mp (by rw [he]; rfl))
    rw [put_of_mem hmem]
    exact h.setFront he value

/-- The loop of `Load`. -/
theorem holds_insertAll (entries : List (Sigma fun _ : Str => Str)) (h : Holds c m)
    (hnew : ∀ k ∈ entries.keys, k ∉ m) (hnodup : entries.NodupKeys) :
    Holds (entries.foldl (fun c e => c.insertFront e.1 e.2) c) (putAll m entries) := by
  induction entries generalizing c m with
  | nil => exact h
  | cons e entries ih =>
    obtain ⟨hfirst, hrest⟩ := List.nodupKeys_cons.mp hnodup
    refine ih (h.insertFront (hnew e.1 (by simp)) e.2) (fun k hk hmem => ?_) hrest
    rcases (AList.mem_insert m).mp hmem with rfl | hmem
    · exact hfirst hk
    · exact hnew k (by simp [hk]) hmem

/-- **Load.** -/
theorem holds_load (c : LruCache) (data : AList fun _ : Str => Str) :
    Holds (c.load data) (putAll ∅ data.entries) := by
  have hempty : Holds { c with cache := ∅, list := [] } ∅ := ⟨rfl, fun key e => by simp, nofun⟩
  exact holds_insertAll data.entries hempty (fun k _ => AList.notMem_empty k) data.nodupKeys

/-- **GetAll.** -/
theorem lookup_getAll (h : Holds c m) (key : Str) : c.getAll.lookup key = m.lookup key := by
  have hentry : ∀ x ∈ c.cache.entries, (⟨(c.entries x.2).key, (c.entries x.2).value⟩ :
      Sigma fun _ : Str => Str) = x.map id fun _ e => (c.entries e).value := by
    intro x hx
    have hkey := ((h.cache x.1 x.2).mp (AList.mem_lookup_iff.mpr hx)).2
    rw [hkey]
    rfl
  have hall : c.getAll = putAll ∅ (c.cache.entries.map (.map id fun _ e => (c.entries e).value)) := by
    unfold LruCache.getAll putAll
    rw [← List.map_congr_left hentry, List.foldl_map]
  have hnodup : (c.cache.entries.map (.map id fun _ e => (c.entries e).value) :
      List (Sigma fun _ : Str => Str)).NodupKeys := by
    have hkeys : (c.cache.entries.map (.map id fun _ e => (c.entries e).value) :
        List (Sigma fun _ : Str => Str)).keys = c.cache.keys := by
      unfold AList.keys List.keys
      rw [List.map_map]
      rfl
    unfold List.NodupKeys
    rw [hkeys]
    exact c.cache.nodupKeys
  rw [hall, lookup_putAll _ hnodup, List.dlookup_map₂, h.lookup]
  simp [AList.lookup]

/-! ### Runs -/

/-- The association list behind a call. -/
def specCall (capacity : ℕ) (m : AList fun _ : Str => Str) : Call → AList fun _ : Str => Str
  | .get key => touch m key
  | .add key value => put capacity m key value
  | .remove key => m.erase key
  | .getAll => m
  | .load data => putAll ∅ data.entries

/-- The association list behind a sequence of calls. -/
def spec (capacity : ℕ) (calls : List Call) : AList fun _ : Str => Str :=
  calls.foldl (specCall capacity) ∅

variable {calls : List Call} {x : Call}

theorem run_append : run capacity (calls ++ [x]) = call (run capacity calls) x := by
  simp [run]

theorem spec_append : spec capacity (calls ++ [x]) = specCall capacity (spec capacity calls) x := by
  simp [spec]

theorem capacity_evict (c : LruCache) : c.evict.capacity = c.capacity := by
  unfold LruCache.evict
  split_ifs
  · split <;> rfl
  · rfl

theorem capacity_load (c : LruCache) (data : AList fun _ : Str => Str) :
    (c.load data).capacity = c.capacity := by
  have hfold : ∀ (entries : List (Sigma fun _ : Str => Str)) (c : LruCache),
      (entries.foldl (fun c e => c.insertFront e.1 e.2) c).capacity = c.capacity := by
    intro entries
    induction entries with
    | nil => exact fun c => rfl
    | cons e entries ih => exact fun c => ih (c.insertFront e.1 e.2)
  exact hfold data.entries _

/-- No method changes the capacity. -/
theorem capacity_call (c : LruCache) (x : Call) : (call c x).capacity = c.capacity := by
  cases x with
  | get key =>
    show (c.get key).1.capacity = _
    unfold LruCache.get
    split <;> rfl
  | add key value =>
    show (c.add key value).capacity = _
    unfold LruCache.add
    split
    · rfl
    · exact capacity_evict c
  | remove key =>
    show (c.remove key).capacity = _
    unfold LruCache.remove
    split <;> rfl
  | getAll => rfl
  | load data => exact capacity_load c data

theorem holds_call (h : Holds c m) (x : Call) : Holds (call c x) (specCall c.capacity m x) := by
  cases x with
  | get key => exact (holds_get h key).1
  | add key value => exact holds_add h key value
  | remove key => exact holds_remove h key
  | getAll => exact h
  | load data => exact holds_load c data

/-- The cache holds the association list behind every sequence of calls. -/
theorem holds_run (capacity : ℕ) (calls : List Call) :
    Holds (run capacity calls) (spec capacity calls) ∧ (run capacity calls).capacity = capacity := by
  induction calls using List.reverseRecOn with
  | nil => exact ⟨⟨rfl, fun key e => by simp [run, LruCache.new], nofun⟩, rfl⟩
  | append_singleton calls x ih =>
    obtain ⟨hholds, hcap⟩ := ih
    rw [run_append, spec_append]
    have hcall := holds_call hholds x
    rw [hcap] at hcall
    exact ⟨hcall, (capacity_call _ x).trans hcap⟩

/-! ### The order and the values -/

theorem uses_append : uses (calls ++ [x]) = uses calls ++ usedBy x := by
  simp [uses]

/-- The association list is in the order of the last use. -/
theorem ordered_spec (capacity : ℕ) (calls : List Call) :
    Ordered (uses calls) (spec capacity calls) := by
  induction calls using List.reverseRecOn with
  | nil => exact ordered_empty
  | append_singleton calls x ih =>
    rw [uses_append, spec_append]
    cases x with
    | get key => exact ih.touch key
    | add key value => exact ih.put capacity key value
    | remove key =>
      rw [show usedBy (.remove key) = [] from rfl, List.append_nil]
      exact ih.erase key
    | getAll =>
      rw [show usedBy .getAll = [] from rfl, List.append_nil]
      exact ih
    | load data => exact ordered_empty.putAll data.entries

theorem latest_append (key : Str) : latest (calls ++ [x]) key =
    match x with
    | .add k v => if k = key then some v else latest calls key
    | .load data => (data.lookup key).or (latest calls key)
    | _ => latest calls key := by
  unfold latest
  rw [List.foldl_append]
  cases x <;> rfl

theorem lookup_load (data : AList fun _ : Str => Str) (key : Str) :
    (putAll ∅ data.entries : AList fun _ : Str => Str).lookup key = data.lookup key := by
  rw [lookup_putAll _ data.nodupKeys, AList.lookup_empty, Option.or_none]
  rfl

/-- A key that is there has the latest value that was given to it. -/
theorem lookup_spec {v : Str} (h : (spec capacity calls).lookup k = some v) :
    latest calls k = some v := by
  induction calls using List.reverseRecOn with
  | nil => cases h
  | append_singleton calls x ih =>
    rw [spec_append] at h
    rw [latest_append]
    cases x with
    | get key => exact ih (lookup_touch.symm.trans h)
    | add key value =>
      dsimp only
      split_ifs with hk
      · subst hk
        exact lookup_put_self.symm.trans h
      · exact ih (lookup_put_of_ne (Ne.symm hk) h)
    | remove key =>
      by_cases hk : k = key
      · subst hk
        exact absurd ((AList.lookup_erase k _).symm.trans h) nofun
      · exact ih ((AList.lookup_erase_ne hk).symm.trans h)
    | getAll => exact ih h
    | load data =>
      dsimp only
      rw [← lookup_load data k, show (putAll ∅ data.entries).lookup k = some v from h]
      rfl

/-! ### The results -/

/-- **The cache is a map in the order of its last use.** Behind any sequence of calls map and list are in
step, each key has the latest value that was given to it, the methods change the keys as they should,
and `Add` of a new key to a full cache takes out exactly the key whose last use is the longest ago. -/
theorem recency_map_run (capacity : ℕ) (hcap : 0 < capacity) (calls : List Call) :
    Refines capacity calls (run capacity calls) := by
  obtain ⟨h, hcapacity⟩ := holds_run capacity calls
  have hadd := fun key value => holds_add h key value
  rw [hcapacity] at hadd
  constructor
  · exact h.linked
  · intro key
    rw [(holds_get h key).2]
    split_ifs with hmem
    · obtain ⟨v, hv⟩ := Option.isSome_iff_exists.mp (AList.lookup_isSome.mpr (h.mem.mp hmem))
      rw [hv, lookup_spec hv]
    · exact AList.lookup_eq_none.mpr fun hkey => hmem (h.mem.mpr hkey)
  · intro key
    rw [lookup_getAll h, (holds_get h key).2]
  · intro key hkey
    have hnone := AList.lookup_eq_none.mpr hkey
    exact ⟨by simp [LruCache.get, hnone], by simp [LruCache.remove, hnone]⟩
  · intro key k
    rw [(holds_get h key).1.mem, mem_touch, h.mem]
  · intro key k
    rw [(holds_remove h key).mem, AList.mem_erase, h.mem]
  · intro data k
    rw [(holds_load _ data).mem, ← AList.lookup_isSome, lookup_load, AList.lookup_isSome]
  · intro key value hkey k
    rw [(hadd key value).mem, put_of_mem (h.mem.mp hkey), AList.mem_insert, h.mem]
    exact or_iff_right_of_imp fun hk => hk ▸ h.mem.mp hkey
  · intro key value hkey hroom k
    rw [(hadd key value).mem, put_of_notMem fun hmem => hkey (h.mem.mpr hmem), AList.mem_insert, h.mem,
      makeRoom, if_neg (by rw [← h.length]; omega)]
  · intro key value hkey hfull
    rw [h.length] at hfull
    obtain ⟨victim, hvictim⟩ := exists_oldest (m := spec capacity calls) (by omega)
    refine ⟨victim, h.mem.mpr (oldest_mem hvictim), fun k => ?_, fun k hk hne => ?_⟩
    · rw [(hadd key value).mem, put_of_notMem fun hmem => hkey (h.mem.mpr hmem), AList.mem_insert,
        makeRoom, if_pos hfull, dropOldest_of_oldest hvictim, AList.mem_erase, h.mem]
    · exact (ordered_spec capacity calls).usedSince_oldest hvictim (h.mem.mp hk) hne
  · intro data
    refine Finmap.ext_lookup fun key => ?_
    show (LruCache.getAll _).lookup key = data.lookup key
    rw [lookup_getAll (holds_load _ data), lookup_load]

/-- One entry: the second key takes the place of the first. -/
theorem recency_map_run_one :
    Refines 1 [.add ['a'] ['1'], .get ['a'], .add ['b'] ['2']]
      (run 1 [.add ['a'] ['1'], .get ['a'], .add ['b'] ['2']]) :=
  recency_map_run 1 Nat.one_pos [.add ['a'] ['1'], .get ['a'], .add ['b'] ['2']]

/-! ### The capacity -/

theorem length_load (data : AList fun _ : Str => Str) :
    (putAll ∅ data.entries : AList fun _ : Str => Str).keys.length = data.entries.length := by
  rw [keys_putAll _ (fun k _ => AList.notMem_empty k) data.nodupKeys]
  simp [List.keys]

/-- A call keeps within the capacity unless it loads too many entries. -/
theorem length_specCall (hcap : 0 < capacity) (hm : m.keys.length ≤ capacity)
    (hx : ∀ data, x = .load data → data.entries.length ≤ capacity) :
    (specCall capacity m x).keys.length ≤ capacity := by
  cases x with
  | get key => exact length_touch.trans_le hm
  | add key value => exact length_put_le hcap hm
  | remove key => exact length_erase_le.trans hm
  | getAll => exact hm
  | load data => exact (length_load data).trans_le (hx data rfl)

theorem length_spec (hcap : 0 < capacity)
    (h : ∀ data, .load data ∈ calls → data.entries.length ≤ capacity) :
    (spec capacity calls).keys.length ≤ capacity := by
  induction calls using List.reverseRecOn with
  | nil => exact Nat.zero_le _
  | append_singleton calls x ih =>
    rw [spec_append]
    refine length_specCall hcap (ih fun data hdata => h data (List.mem_append_left _ hdata)) ?_
    rintro data rfl
    exact h data (List.mem_append_right _ (List.mem_singleton_self _))

/-- Map and list have as many entries as the association list. -/
theorem Holds.lengths (h : Holds c m) :
    c.list.length = m.keys.length ∧ c.cache.entries.length = m.keys.length := by
  refine ⟨h.length, ?_⟩
  have hperm : c.cache.keys.Perm m.keys :=
    (List.perm_ext_iff_of_nodup c.cache.nodupKeys m.nodupKeys).mpr fun k => h.mem
  have hlen : c.cache.keys.length = c.cache.entries.length := List.length_map _
  rw [← hlen, hperm.length_eq]

/-- **The capacity.** Map and list keep within the capacity behind each of the calls if and only if no
call loads a map with more entries. -/
theorem within_capacity_iff (capacity : ℕ) (hcap : 0 < capacity) (calls : List Call) :
    (∀ pre, pre <+: calls → (run capacity pre).list.length ≤ capacity ∧
        (run capacity pre).cache.entries.length ≤ capacity) ↔
      ∀ data, .load data ∈ calls → data.entries.length ≤ capacity := by
  constructor
  · intro h data hdata
    obtain ⟨pre, post, rfl⟩ := List.append_of_mem hdata
    obtain ⟨hlist, -⟩ := h (pre ++ [.load data]) ⟨post, by simp⟩
    rw [(holds_run capacity _).1.length, spec_append] at hlist
    exact (length_load data).symm.trans_le hlist
  · intro h pre hpre
    obtain ⟨hlist, hcache⟩ := (holds_run capacity pre).1.lengths
    rw [hlist, hcache]
    have hle := length_spec hcap fun data hdata => h data (hpre.subset hdata)
    exact ⟨hle, hle⟩

/-- Two entries. -/
def twoEntries : AList fun _ : Str => Str :=
  ⟨[⟨['a'], ['1']⟩, ⟨['b'], ['2']⟩], show [['a'], ['b']].Nodup by decide⟩

theorem within_capacity_two :
    (∀ pre, pre <+: [.load twoEntries, .add ['c'] ['3']] → (run 2 pre).list.length ≤ 2 ∧
        (run 2 pre).cache.entries.length ≤ 2) ↔
      ∀ data, .load data ∈ [Call.load twoEntries, .add ['c'] ['3']] → data.entries.length ≤ 2 :=
  within_capacity_iff 2 Nat.two_pos [.load twoEntries, .add ['c'] ['3']]

/-- A saved cache of two entries is loaded into a cache for one. -/
theorem loaded_above_capacity : ¬ ∀ (capacity : ℕ) (calls : List Call), 0 < capacity →
    (run capacity calls).list.length ≤ capacity := by
  intro h
  have hlen : (run 1 [.load twoEntries]).list.length ≤ 1 := h 1 [.load twoEntries] Nat.one_pos
  exact absurd hlen (by decide)

end Pacsni.Dashboard.LruMap
