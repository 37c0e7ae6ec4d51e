import Mathlib

/-! # The ring buffer

`RingBuffer` of the dashboard, generic in its elements. The backing array has `size` cells; the next
element goes to `head`, and `count` cells are in use. Until the buffer is full for the first time, the
cells in use are those in front of `head`; the structure carries this. -/

namespace Pacsni.Dashboard.Ring

/-- `RingBuffer[T]` -/
structure RingBuffer (α : Type*) (size : ℕ) where
  data : Fin size → α
  head : ℕ
  count : ℕ
  head_lt : head < size
  count_le : count ≤ size
  head_eq : count < size → head = count

namespace RingBuffer

variable {α : Type*} {size : ℕ}

/-- `NewRingBuffer`; the cells hold the zero value of the element type. -/
def new (zero : α) (h : 0 < size) : RingBuffer α size :=
  ⟨fun _ => zero, 0, 0, h, Nat.zero_le _, fun _ => rfl⟩

theorem head_succ (r : RingBuffer α size)
    (h : (if r.count < size then r.count + 1 else r.count) < size) :
    (r.head + 1) % size = if r.count < size then r.count + 1 else r.count := by
  have hle := r.count_le
  split_ifs at h ⊢ with hc
  · rw [r.head_eq hc, Nat.mod_eq_of_lt h]
  · omega

/-- `Add` -/
def add (r : RingBuffer α size) (p : α) : RingBuffer α size where
  data := Function.update r.data ⟨r.head, r.head_lt⟩ p
  head := (r.head + 1) % size
  count := if r.count < size then r.count + 1 else r.count
  head_lt := Nat.mod_lt _ (Nat.lt_of_le_of_lt (Nat.zero_le _) r.head_lt)
  count_le := by
    have := r.count_le
    split_ifs <;> omega
  head_eq := r.head_succ

/-- `Clear` -/
def clear (r : RingBuffer α size) : RingBuffer α size where
  data := r.data
  head := 0
  count := 0
  head_lt := Nat.lt_of_le_of_lt (Nat.zero_le _) r.head_lt
  count_le := Nat.zero_le _
  head_eq := fun _ => rfl

/-- The cell of the element `i` of `GetAll`. -/
def index (r : RingBuffer α size) (reversed : Bool) (i : ℕ) : ℕ :=
  if reversed then (r.head + size - 1 - i) % size
  else ((if r.count = size then r.head else 0) + i) % size

theorem index_lt (r : RingBuffer α size) (reversed : Bool) (i : ℕ) : r.index reversed i < size := by
  have h : 0 < size := Nat.lt_of_le_of_lt (Nat.zero_le _) r.head_lt
  unfold index
  split_ifs <;> exact Nat.mod_lt _ h

/-- `GetAll` -/
def getAll (r : RingBuffer α size) (reversed : Bool) : List α :=
  (List.range r.count).map fun i => r.data ⟨r.index reversed i, r.index_lt reversed i⟩

/-- `Update`: the loop runs over the first `count` cells. -/
def update (r : RingBuffer α size) (updater : α → α) : RingBuffer α size :=
  { r with data := fun i => if i.val < r.count then updater (r.data i) else r.data i }

/-! ### What is stored -/

variable {r : RingBuffer α size} {x p : α}

/-- The elements of `GetAll(false)` are those of the first `count` cells. -/
theorem mem_getAll : x ∈ r.getAll false ↔ ∃ i : Fin size, i.val < r.count ∧ r.data i = x := by
  unfold getAll
  rw [List.mem_map]
  constructor
  · rintro ⟨i, hi, rfl⟩
    have hi := List.mem_range.mp hi
    refine ⟨⟨r.index false i, r.index_lt false i⟩, ?_, rfl⟩
    show r.index false i < r.count
    by_cases hfull : r.count = size
    · exact lt_of_lt_of_eq (r.index_lt false i) hfull.symm
    · have := r.count_le
      simp only [index, Bool.false_eq_true, hfull, ↓reduceIte, Nat.zero_add]
      rw [Nat.mod_eq_of_lt (by omega)]
      exact hi
  · rintro ⟨⟨i, his⟩, hi, rfl⟩
    by_cases hfull : r.count = size
    · -- the cell `i` is the element `i - head`, or one lap later
      refine ⟨(i + size - r.head) % size, List.mem_range.mpr ?_, ?_⟩
      · rw [hfull]
        exact Nat.mod_lt _ (by omega)
      · congr 1
        apply Fin.ext
        show r.index false _ = i
        have hlt := r.head_lt
        simp only [index, Bool.false_eq_true, hfull, ↓reduceIte]
        rw [Nat.add_mod_mod, show r.head + (i + size - r.head) = i + size by omega, Nat.add_mod_right,
          Nat.mod_eq_of_lt his]
    · refine ⟨i, List.mem_range.mpr hi, ?_⟩
      congr 1
      apply Fin.ext
      show r.index false i = i
      simp only [index, Bool.false_eq_true, hfull, ↓reduceIte, Nat.zero_add]
      exact Nat.mod_eq_of_lt his

theorem mem_getAll_add (h : x ∈ (r.add p).getAll false) : x = p ∨ x ∈ r.getAll false := by
  obtain ⟨i, hi, rfl⟩ := mem_getAll.mp h
  by_cases hih : i = ⟨r.head, r.head_lt⟩
  · left
    rw [hih]
    exact Function.update_self _ _ _
  · right
    refine mem_getAll.mpr ⟨i, ?_, (Function.update_of_ne hih _ _).symm⟩
    have hne : i.val ≠ r.head := fun he => hih (Fin.ext he)
    have hlt := i.isLt
    simp only [add] at hi
    split_ifs at hi with hc
    · have := r.head_eq hc
      omega
    · exact hi

theorem mem_getAll_update {f : α → α} (h : x ∈ (r.update f).getAll false) :
    ∃ y ∈ r.getAll false, x = f y := by
  obtain ⟨i, hi, rfl⟩ := mem_getAll.mp h
  refine ⟨r.data i, mem_getAll.mpr ⟨i, hi, rfl⟩, ?_⟩
  exact if_pos hi

theorem getAll_clear : r.clear.getAll false = [] := rfl

/-! ### The elements in order -/

theorem length_getAll (reversed : Bool) : (r.getAll reversed).length = r.count := by
  simp [getAll]

theorem getElem_getAll {reversed : Bool} {i : ℕ} {k : Fin size} (h : i < (r.getAll reversed).length)
    (hk : r.index reversed i = k) : (r.getAll reversed)[i] = r.data k := by
  simp only [getAll, List.getElem_map, List.getElem_range]
  congr 1
  exact Fin.ext hk

/-- Before the buffer is full, the element `i` is in the cell `i`. -/
theorem index_of_lt {i : ℕ} (hc : r.count < size) (hi : i < r.count) : r.index false i = i := by
  have hne : r.count ≠ size := by omega
  simp only [index, Bool.false_eq_true, hne, ↓reduceIte, Nat.zero_add]
  exact Nat.mod_eq_of_lt (by omega)

/-- When the buffer is full, the oldest element is in the cell that is written next. -/
theorem index_of_full {i : ℕ} (hc : r.count = size) : r.index false i = (r.head + i) % size := by
  simp [index, hc]

/-- Before the buffer is full, the new element goes behind the others. -/
theorem getAll_add_of_lt (hc : r.count < size) :
    (r.add p).getAll false = r.getAll false ++ [p] := by
  have hcount : (r.add p).count = r.count + 1 := if_pos hc
  have hhead := r.head_eq hc
  have hidx : ∀ i, i < r.count + 1 → (r.add p).index false i = i := by
    intro i hi
    by_cases hfull : r.count + 1 = size
    · have hzero : (r.add p).head = 0 := by
        show (r.head + 1) % size = 0
        rw [hhead, hfull, Nat.mod_self]
      rw [index_of_full (hcount.trans hfull), hzero, Nat.zero_add, Nat.mod_eq_of_lt (by omega)]
    · exact index_of_lt (by omega) (by omega)
  apply List.ext_getElem
  · simp [length_getAll, hcount]
  · intro i h₁ h₂
    have hi : i < r.count + 1 := by rwa [length_getAll, hcount] at h₁
    have hcell : (⟨i, by omega⟩ : Fin size).val = i := rfl
    rw [getElem_getAll h₁ ((hidx i hi).trans hcell.symm), List.getElem_append]
    split_ifs with hold
    · rw [length_getAll] at hold
      rw [getElem_getAll _ ((index_of_lt hc hold).trans hcell.symm)]
      refine Function.update_of_ne (fun he => ?_) _ _
      have := congrArg Fin.val he
      dsimp only at this
      omega
    · have hlast : (⟨i, by omega⟩ : Fin size) = ⟨r.head, r.head_lt⟩ := by
        rw [length_getAll] at hold
        apply Fin.ext
        dsimp only
        omega
      rw [List.getElem_singleton, hlast]
      exact Function.update_self _ _ _

/-- When the buffer is full, the new element takes the place of the oldest one. -/
theorem getAll_add_of_full (hc : r.count = size) :
    (r.add p).getAll false = (r.getAll false ++ [p]).drop 1 := by
  have hhead := r.head_lt
  have hcount : (r.add p).count = size := by
    show (if r.count < size then r.count + 1 else r.count) = size
    rw [if_neg (by omega), hc]
  have hidx : ∀ i, (r.add p).index false i = (r.head + (i + 1)) % size := by
    intro i
    rw [index_of_full hcount]
    show ((r.head + 1) % size + i) % size = _
    rw [Nat.mod_add_mod, Nat.add_assoc, Nat.add_comm 1 i]
  have hlt : ∀ k, k % size < size := fun k => Nat.mod_lt k (by omega)
  apply List.ext_getElem
  · simp [length_getAll, hcount, hc]
  · intro i h₁ h₂
    have hi : i < size := by rwa [length_getAll, hcount] at h₁
    have hcell : (⟨(r.head + (i + 1)) % size, hlt _⟩ : Fin size).val = (r.head + (i + 1)) % size := rfl
    rw [getElem_getAll h₁ ((hidx i).trans hcell.symm), List.getElem_drop, List.getElem_append]
    split_ifs with hold
    · rw [length_getAll, hc] at hold
      have hold' : (r.head + (1 + i)) % size = (r.head + (i + 1)) % size := by rw [Nat.add_comm 1 i]
      rw [getElem_getAll _ ((index_of_full hc).trans (hold'.trans hcell.symm))]
      refine Function.update_of_ne (fun he => ?_) _ _
      -- the cell of a younger element is not the one that is written
      have hmod := congrArg Fin.val he
      dsimp only at hmod
      rcases Nat.lt_or_ge (r.head + (i + 1)) size with hlap | hlap
      · rw [Nat.mod_eq_of_lt hlap] at hmod
        omega
      · rw [Nat.mod_eq_sub_mod hlap, Nat.mod_eq_of_lt (by omega)] at hmod
        omega
    · have hlast : (⟨(r.head + (i + 1)) % size, hlt _⟩ : Fin size) = ⟨r.head, hhead⟩ := by
        rw [length_getAll, hc] at hold
        apply Fin.ext
        dsimp only
        rw [show i + 1 = size by omega, Nat.add_mod_right, Nat.mod_eq_of_lt hhead]
      rw [List.getElem_singleton, hlast]
      exact Function.update_self _ _ _

/-- **Add.** The new element is the last one, and the oldest one goes if there is no room. -/
theorem getAll_add : (r.add p).getAll false = (r.getAll false ++ [p]).rtake size := by
  have hle := r.count_le
  have hlen : (r.getAll false ++ [p]).length = r.count + 1 := by simp [length_getAll]
  rcases Nat.lt_or_ge r.count size with hc | hc
  · rw [getAll_add_of_lt hc, List.rtake, hlen, show r.count + 1 - size = 0 by omega, List.drop_zero]
  · rw [getAll_add_of_full (by omega), List.rtake, hlen, show r.count + 1 - size = 1 by omega]

/-- The cell of an element is in use. -/
theorem index_lt_count {i : ℕ} (hi : i < r.count) : r.index false i < r.count := by
  rcases Nat.lt_or_ge r.count size with hc | hc
  · rw [index_of_lt hc hi]
    exact hi
  · exact lt_of_lt_of_le (r.index_lt false i) hc

/-- **Update.** The elements are changed in place. -/
theorem getAll_update {f : α → α} : (r.update f).getAll false = (r.getAll false).map f := by
  apply List.ext_getElem
  · simp [length_getAll, update]
  · intro i h₁ h₂
    have hi : i < r.count := by rwa [length_getAll] at h₁
    have hcell : (⟨r.index false i, r.index_lt false i⟩ : Fin size).val = r.index false i := rfl
    have hcell' : (r.update f).index false i = r.index false i := rfl
    rw [List.getElem_map, getElem_getAll h₁ (hcell'.trans hcell.symm), getElem_getAll _ hcell.symm]
    exact if_pos (index_lt_count hi)

/-- **The other order.** `GetAll(true)` has the same elements, the newest first. -/
theorem getAll_true : r.getAll true = (r.getAll false).reverse := by
  have hhead := r.head_lt
  have hle := r.count_le
  apply List.ext_getElem
  · simp [length_getAll]
  · intro i h₁ h₂
    have hi : i < r.count := by rwa [length_getAll] at h₁
    rw [List.getElem_reverse, getElem_getAll h₁ (k := ⟨_, r.index_lt true i⟩) rfl, getElem_getAll]
    show r.index false _ = r.index true i
    rw [length_getAll]
    have htrue : r.index true i = (r.head + size - 1 - i) % size := rfl
    rw [htrue]
    rcases Nat.lt_or_ge r.count size with hc | hc
    · have hh := r.head_eq hc
      rw [index_of_lt hc (by omega), show r.head + size - 1 - i = r.count - 1 - i + size by omega,
        Nat.add_mod_right, Nat.mod_eq_of_lt (by omega)]
    · rw [index_of_full (by omega),
        show r.head + (r.count - 1 - i) = r.head + size - 1 - i by omega]

/-! ### The last elements of a list -/

/-- Elements that were dropped before do not come back. -/
theorem rtake_append_rtake (l : List α) (x : α) (n : ℕ) :
    (l.rtake n ++ [x]).rtake n = (l ++ [x]).rtake n := by
  unfold List.rtake
  rw [List.length_append, List.length_append, List.length_drop, List.length_singleton,
    ← List.drop_append_of_le_length (by omega), List.drop_drop]
  congr 1
  omega

theorem map_rtake {β : Type*} (f : α → β) (l : List α) (n : ℕ) :
    (l.rtake n).map f = (l.map f).rtake n := by
  unfold List.rtake
  rw [List.map_drop, List.length_map]

theorem rtake_of_length_le {l : List α} {n : ℕ} (h : l.length ≤ n) : l.rtake n = l := by
  rw [List.rtake, Nat.sub_eq_zero_of_le h, List.drop_zero]

theorem length_rtake_le (l : List α) (n : ℕ) : (l.rtake n).length ≤ n := by
  rw [List.rtake, List.length_drop]
  omega

/-- If fewer elements are left than there is room for, none was dropped. -/
theorem rtake_of_length_rtake_lt {l : List α} {n : ℕ} (h : (l.rtake n).length < n) :
    l.rtake n = l := by
  rw [List.rtake, List.length_drop] at h
  exact rtake_of_length_le (by omega)

end RingBuffer

end Pacsni.Dashboard.Ring
