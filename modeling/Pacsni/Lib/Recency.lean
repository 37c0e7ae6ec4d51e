import Mathlib.Data.List.AList

/-! # Maps in the order of their last use

An association list keeps its entries in an order, and `AList.insert` moves a key to the front. So an
association list whose keys are inserted again whenever they are used is in the order of their last
use, most recent first. `put` inserts with a capacity: a new key takes the place of the one whose last
use is the longest ago.

`Ordered uses m` is the invariant: `uses` are the keys in the order in which they were used, and of two
keys of `m` the one behind was not used since the last use of the other. -/

namespace Pacsni.Lib.Recency

variable {κ υ : Type*} [DecidableEq κ]

/-- Use a key, if it is there. -/
def touch (m : AList fun _ : κ => υ) (key : κ) : AList fun _ : κ => υ :=
  match m.lookup key with
  | some value => m.insert key value
  | none => m

/-- The key whose last use is the longest ago. -/
def oldest (m : AList fun _ : κ => υ) : Option κ := m.keys.getLast?

/-- Without the oldest key. -/
def dropOldest (m : AList fun _ : κ => υ) : AList fun _ : κ => υ :=
  match oldest m with
  | some key => m.erase key
  | none => m

/-- Room for one more key. -/
def makeRoom (capacity : ℕ) (m : AList fun _ : κ => υ) : AList fun _ : κ => υ :=
  if capacity ≤ m.keys.length then dropOldest m else m

/-- Insert a key, or use it and change its value. -/
def put (capacity : ℕ) (m : AList fun _ : κ => υ) (key : κ) (value : υ) : AList fun _ : κ => υ :=
  match m.lookup key with
  | some _ => m.insert key value
  | none => (makeRoom capacity m).insert key value

/-- Insert entries one by one. -/
def putAll (m : AList fun _ : κ => υ) (entries : List (Sigma fun _ : κ => υ)) : AList fun _ : κ => υ :=
  entries.foldl (fun m e => m.insert e.1 e.2) m

variable {m : AList fun _ : κ => υ} {key k : κ} {value v : υ} {capacity : ℕ}

theorem touch_of_lookup (h : m.lookup key = some value) : touch m key = m.insert key value := by
  simp [touch, h]

theorem touch_of_notMem (h : key ∉ m) : touch m key = m := by
  simp [touch, AList.lookup_eq_none.mpr h]

theorem put_of_mem (h : key ∈ m) : put capacity m key value = m.insert key value := by
  obtain ⟨old, hold⟩ := Option.isSome_iff_exists.mp (AList.lookup_isSome.mpr h)
  simp [put, hold]

theorem put_of_notMem (h : key ∉ m) :
    put capacity m key value = (makeRoom capacity m).insert key value := by
  simp [put, AList.lookup_eq_none.mpr h]

omit [DecidableEq κ] in
theorem oldest_mem (h : oldest m = some k) : k ∈ m :=
  AList.mem_keys.mpr (List.mem_of_getLast? h)

theorem dropOldest_of_oldest (h : oldest m = some k) : dropOldest m = m.erase k := by
  simp [dropOldest, h]

omit [DecidableEq κ] in
theorem exists_oldest (h : 0 < m.keys.length) : ∃ k, oldest m = some k :=
  ⟨_, List.getLast?_eq_some_getLast (List.ne_nil_of_length_pos h)⟩

/-! ### Lookups -/

theorem mem_touch : k ∈ touch m key ↔ k ∈ m := by
  by_cases h : key ∈ m
  · obtain ⟨value, hvalue⟩ := Option.isSome_iff_exists.mp (AList.lookup_isSome.mpr h)
    rw [touch_of_lookup hvalue, AList.mem_insert]
    exact or_iff_right_of_imp fun hk => hk ▸ h
  · rw [touch_of_notMem h]

theorem lookup_touch : (touch m key).lookup k = m.lookup k := by
  by_cases h : key ∈ m
  · obtain ⟨value, hvalue⟩ := Option.isSome_iff_exists.mp (AList.lookup_isSome.mpr h)
    rw [touch_of_lookup hvalue]
    by_cases hk : k = key
    · rw [hk, AList.lookup_insert, hvalue]
    · exact AList.lookup_insert_ne hk
  · rw [touch_of_notMem h]

/-- A value that is left was there before. -/
theorem lookup_makeRoom (h : (makeRoom capacity m).lookup k = some v) : m.lookup k = some v := by
  unfold makeRoom dropOldest at h
  split_ifs at h with hfull
  · split at h
    · rename_i old hold
      by_cases hk : k = old
      · rw [hk, AList.lookup_erase] at h
        cases h
      · rwa [AList.lookup_erase_ne hk] at h
    · exact h
  · exact h

theorem lookup_put_self : (put capacity m key value).lookup key = some value := by
  unfold put
  split <;> exact AList.lookup_insert _

theorem lookup_put_of_ne (hk : k ≠ key) (h : (put capacity m key value).lookup k = some v) :
    m.lookup k = some v := by
  unfold put at h
  split at h
  · rwa [AList.lookup_insert_ne hk] at h
  · rw [AList.lookup_insert_ne hk] at h
    exact lookup_makeRoom h

/-- Entries with different keys are all there behind the loop. -/
theorem lookup_putAll (entries : List (Sigma fun _ : κ => υ)) (h : entries.NodupKeys) :
    (putAll m entries).lookup k = (entries.dlookup k).or (m.lookup k) := by
  induction entries generalizing m with
  | nil => simp [putAll]
  | cons e entries ih =>
    obtain ⟨hnew, hrest⟩ := List.nodupKeys_cons.mp h
    show (putAll (m.insert e.1 e.2) entries).lookup k = _
    rw [ih hrest]
    by_cases hk : k = e.1
    · subst hk
      rw [AList.lookup_insert, List.dlookup_eq_none.mpr hnew, List.dlookup_cons_eq]
      rfl
    · rw [AList.lookup_insert_ne hk, List.dlookup_cons_ne _ _ hk]

/-! ### Size -/

theorem length_insert_of_mem (h : key ∈ m) : (m.insert key value).keys.length = m.keys.length := by
  have hpos : 0 < m.keys.length := List.length_pos_of_mem h
  rw [AList.keys_insert, List.length_cons, List.length_erase_of_mem h]
  omega

theorem length_insert_of_notMem (h : key ∉ m) :
    (m.insert key value).keys.length = m.keys.length + 1 := by
  rw [AList.keys_insert, List.length_cons, List.erase_of_not_mem h]

/-- New keys stand in front, the last of them first. -/
theorem keys_putAll (entries : List (Sigma fun _ : κ => υ)) (hnew : ∀ k ∈ entries.keys, k ∉ m)
    (h : entries.NodupKeys) : (putAll m entries).keys = entries.keys.reverse ++ m.keys := by
  induction entries generalizing m with
  | nil => rfl
  | cons e entries ih =>
    obtain ⟨hfirst, hrest⟩ := List.nodupKeys_cons.mp h
    have hold : e.1 ∉ m := hnew e.1 (by simp)
    show (putAll (m.insert e.1 e.2) entries).keys = _
    rw [ih _ hrest, AList.keys_insert, List.erase_of_not_mem hold]
    · simp
    · intro k hk hmem
      rcases (AList.mem_insert m).mp hmem with rfl | hmem
      · exact hfirst hk
      · exact hnew k (by simp [hk]) hmem

theorem length_touch : (touch m key).keys.length = m.keys.length := by
  by_cases h : key ∈ m
  · obtain ⟨value, hvalue⟩ := Option.isSome_iff_exists.mp (AList.lookup_isSome.mpr h)
    rw [touch_of_lookup hvalue, length_insert_of_mem h]
  · rw [touch_of_notMem h]

theorem length_erase_le : (m.erase key).keys.length ≤ m.keys.length := by
  rw [AList.keys_erase]
  exact List.length_erase_le

theorem length_dropOldest (h : 0 < m.keys.length) :
    (dropOldest m).keys.length = m.keys.length - 1 := by
  obtain ⟨k, hk⟩ := exists_oldest h
  rw [dropOldest_of_oldest hk, AList.keys_erase, List.length_erase_of_mem (oldest_mem hk)]

theorem notMem_makeRoom (h : key ∉ m) : key ∉ makeRoom capacity m := by
  intro hmem
  obtain ⟨v, hv⟩ := Option.isSome_iff_exists.mp (AList.lookup_isSome.mpr hmem)
  exact h (AList.lookup_isSome.mp (Option.isSome_iff_exists.mpr ⟨v, lookup_makeRoom hv⟩))

/-- The capacity is kept. -/
theorem length_put_le (hcap : 0 < capacity) (h : m.keys.length ≤ capacity) :
    (put capacity m key value).keys.length ≤ capacity := by
  by_cases hmem : key ∈ m
  · rw [put_of_mem hmem, length_insert_of_mem hmem]
    exact h
  · rw [put_of_notMem hmem, length_insert_of_notMem (notMem_makeRoom hmem)]
    unfold makeRoom
    split_ifs with hfull
    · rw [length_dropOldest (by omega)]
      omega
    · omega

/-! ### The order -/

/-- `newer` was used since the last use of `older`. -/
def UsedSince (uses : List κ) (older newer : κ) : Prop :=
  ∃ pre post, uses = pre ++ older :: post ∧ older ∉ post ∧ newer ∈ post

/-- The keys were all used, and stand in the order of their last use, most recent first. -/
structure Ordered (uses : List κ) (m : AList fun _ : κ => υ) : Prop where
  used : ∀ k ∈ m, k ∈ uses
  pairwise : m.keys.Pairwise fun newer older => UsedSince uses older newer

variable {uses : List κ} {older newer : κ}

omit [DecidableEq κ] in
theorem UsedSince.append (h : UsedSince uses older newer) (hne : key ≠ older) :
    UsedSince (uses ++ [key]) older newer := by
  obtain ⟨pre, post, rfl, hold, hnew⟩ := h
  refine ⟨pre, post ++ [key], by simp, ?_, List.mem_append_left _ hnew⟩
  rw [List.mem_append, List.mem_singleton]
  rintro (hmem | rfl)
  · exact hold hmem
  · exact hne rfl

omit [DecidableEq κ] in
/-- A key that is used now is used since any other. -/
theorem usedSince_now (hold : older ∈ uses) (hne : key ≠ older) :
    UsedSince (uses ++ [key]) older key := by
  obtain ⟨later, earlier, heq, hlater⟩ := List.eq_append_cons_of_mem (List.mem_reverse.mpr hold)
  have huses : uses = earlier.reverse ++ older :: later.reverse := by
    rw [← List.reverse_reverse uses, heq]
    simp
  refine ⟨earlier.reverse, later.reverse ++ [key], by rw [huses]; simp, ?_, by simp⟩
  rw [List.mem_append, List.mem_reverse, List.mem_singleton]
  rintro (h | rfl)
  · exact hlater h
  · exact hne rfl

omit [DecidableEq κ] in
theorem ordered_empty : Ordered uses (∅ : AList fun _ : κ => υ) :=
  ⟨fun k h => absurd h (AList.notMem_empty k), .nil⟩

/-- The order among fewer keys. -/
theorem Ordered.erase (h : Ordered uses m) (key : κ) : Ordered uses (m.erase key) where
  used k hk := h.used k (AList.mem_erase.mp hk).2
  pairwise := by
    rw [AList.keys_erase]
    exact h.pairwise.sublist List.erase_sublist

theorem Ordered.insert (h : Ordered uses m) (key : κ) (value : υ) :
    Ordered (uses ++ [key]) (m.insert key value) where
  used k hk := by
    rcases (AList.mem_insert m).mp hk with rfl | hk
    · exact List.mem_append_right _ (List.mem_singleton_self _)
    · exact List.mem_append_left _ (h.used k hk)
  pairwise := by
    have hother : ∀ k ∈ m.keys.erase key, key ≠ k ∧ k ∈ m := by
      intro k hk
      have hk := (m.nodupKeys.mem_erase_iff).mp hk
      exact ⟨hk.1.symm, hk.2⟩
    rw [AList.keys_insert, List.pairwise_cons]
    constructor
    · intro k hk
      exact usedSince_now (h.used k (hother k hk).2) (hother k hk).1
    · have hsub := h.pairwise.sublist (List.erase_sublist (a := key))
      refine hsub.imp_of_mem fun _ hold hsince => ?_
      exact hsince.append (hother _ hold).1

omit [DecidableEq κ] in
/-- The use of a key that is not there. -/
theorem Ordered.append (h : Ordered uses m) (hkey : key ∉ m) : Ordered (uses ++ [key]) m where
  used k hk := List.mem_append_left _ (h.used k hk)
  pairwise := h.pairwise.imp_of_mem fun _ hold hsince => hsince.append fun hk => hkey (hk ▸ hold)

theorem Ordered.touch (h : Ordered uses m) (key : κ) : Ordered (uses ++ [key]) (touch m key) := by
  by_cases hmem : key ∈ m
  · obtain ⟨value, hvalue⟩ := Option.isSome_iff_exists.mp (AList.lookup_isSome.mpr hmem)
    rw [touch_of_lookup hvalue]
    exact h.insert key value
  · rw [touch_of_notMem hmem]
    exact h.append hmem

theorem Ordered.makeRoom (h : Ordered uses m) (capacity : ℕ) :
    Ordered uses (makeRoom capacity m) := by
  unfold Recency.makeRoom dropOldest
  split_ifs
  · split
    · exact h.erase _
    · exact h
  · exact h

theorem Ordered.put (h : Ordered uses m) (capacity : ℕ) (key : κ) (value : υ) :
    Ordered (uses ++ [key]) (put capacity m key value) := by
  unfold Recency.put
  split
  · exact h.insert key value
  · exact (h.makeRoom capacity).insert key value

theorem Ordered.putAll (h : Ordered uses m) (entries : List (Sigma fun _ : κ => υ)) :
    Ordered (uses ++ entries.keys) (putAll m entries) := by
  induction entries generalizing m uses with
  | nil => simpa [Recency.putAll] using h
  | cons e entries ih =>
    have hrest := ih (h.insert e.1 e.2)
    rw [List.append_assoc] at hrest
    exact hrest

omit [DecidableEq κ] in
/-- Every other key was used since the last use of the oldest one. -/
theorem Ordered.usedSince_oldest (h : Ordered uses m) (hold : oldest m = some older) (hk : k ∈ m)
    (hne : k ≠ older) : UsedSince uses older k := by
  obtain ⟨keys, hkeys⟩ := List.getLast?_eq_some_iff.mp hold
  have hk : k ∈ m.keys := AList.mem_keys.mp hk
  have hpair := h.pairwise
  rw [hkeys] at hk hpair
  rcases List.mem_append.mp hk with hk | hk
  · exact (List.pairwise_append.mp hpair).2.2 k hk older (List.mem_singleton_self _)
  · exact absurd (List.mem_singleton.mp hk) hne

end Pacsni.Lib.Recency
