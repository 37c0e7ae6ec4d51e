import Pacsni.Dashboard.Ring

/-! # The ring buffer as a bounded log

Any sequence of calls of a `RingBuffer` against the list of the elements that were added since the
latest `Clear`. An element is stored until `size` more were added behind it; the updates made
meanwhile, and no others, are applied to it. The buffer holds the last `size` elements of this list
(`bounded_log_run`), whichever way `head` and `count` stand. -/

namespace Pacsni.Dashboard.RingLog

open Pacsni.Dashboard.Ring Pacsni.Dashboard.Ring.RingBuffer

variable {α : Type*} {size : ℕ}

/-- A call of a method. -/
inductive Call (α : Type*)
  | add (p : α)
  | clear
  | update (updater : α → α)
  | getAll (reversed : Bool)

/-- The buffer behind a call. -/
def call (r : RingBuffer α size) : Call α → RingBuffer α size
  | .add p => r.add p
  | .clear => r.clear
  | .update updater => r.update updater
  | .getAll _ => r

/-- The buffer behind a sequence of calls. -/
def run (r : RingBuffer α size) (calls : List (Call α)) : RingBuffer α size := calls.foldl call r

/-- The cells of the backing array that a call reads or writes. -/
def used (r : RingBuffer α size) : Call α → List ℕ
  | .add _ => [r.head]
  | .clear => []
  | .update _ => List.range r.count
  | .getAll reversed => (List.range r.count).map (r.index reversed)

/-! ### The log -/

/-- The calls behind the latest `Clear`. -/
def sinceClear (calls : List (Call α)) : List (Call α) :=
  calls.foldl (fun acc c => match c with
    | .clear => []
    | c => acc ++ [c]) []

/-- The updates made while an element is stored, out of the calls behind its `Add`; `room` more
elements can be added before it goes. -/
def whileStored : ℕ → List (Call α) → List (α → α)
  | _, [] => []
  | 0, .add _ :: _ => []
  | room + 1, .add _ :: cs => whileStored room cs
  | _, .clear :: _ => []
  | room, .update updater :: cs => updater :: whileStored room cs
  | room, .getAll _ :: cs => whileStored room cs

/-- Every added element, oldest first, with the updates made while it was stored. -/
def added (size : ℕ) : List (Call α) → List α
  | [] => []
  | .add p :: cs => (whileStored (size - 1) cs).foldl (fun x f => f x) p :: added size cs
  | _ :: cs => added size cs

/-- The last elements added since the latest `Clear`, as many as there is room for. -/
def logged (size : ℕ) (calls : List (Call α)) : List α := (added size (sinceClear calls)).rtake size

/-- The cell belongs to an element of `GetAll`. -/
def Stored (r : RingBuffer α size) (i : Fin size) : Prop := ∃ k < r.count, r.index false k = i

/-- The buffer shows the log in both directions, stays within its array, and updates the cells of its
elements only. -/
structure Refines (r : RingBuffer α size) (log : List α) : Prop where
  forward : r.getAll false = log
  reversed : r.getAll true = log.reverse
  inBounds : ∀ c, ∀ i ∈ used r c, i < size
  touched : ∀ f i, Stored r i → (r.update f).data i = f (r.data i)
  untouched : ∀ f i, ¬ Stored r i → (r.update f).data i = r.data i

/-! ### One more call -/

variable {cs : List (Call α)} {p : α} {f : α → α}

theorem added_add : added size (.add p :: cs) =
    (whileStored (size - 1) cs).foldl (fun x f => f x) p :: added size cs := rfl

theorem sinceClear_append_clear : sinceClear (cs ++ [.clear]) = [] := by
  simp [sinceClear]

theorem sinceClear_append {c : Call α} (hc : c ≠ .clear) :
    sinceClear (cs ++ [c]) = sinceClear cs ++ [c] := by
  unfold sinceClear
  rw [List.foldl_append]
  cases c with
  | clear => exact absurd rfl hc
  | _ => rfl

/-- There is no `Clear` behind the latest one. -/
theorem clear_notMem_sinceClear (cs : List (Call α)) : .clear ∉ sinceClear cs := by
  induction cs using List.reverseRecOn with
  | nil => exact List.not_mem_nil
  | append_singleton cs c ih =>
    by_cases hc : c = .clear
    · rw [hc, sinceClear_append_clear]
      exact List.not_mem_nil
    · rw [sinceClear_append hc, List.mem_append, List.mem_singleton]
      rintro (h | h)
      · exact ih h
      · exact hc h.symm

/-- Only an update adds to the updates of an element. -/
theorem whileStored_append {c : Call α} (hc : ∀ f, c ≠ .update f) (room : ℕ) :
    whileStored room (cs ++ [c]) = whileStored room cs := by
  fun_induction whileStored room cs with
  | case1 room =>
    cases c with
    | update f => exact absurd rfl (hc f)
    | add p => cases room <;> rfl
    | clear => cases room <;> rfl
    | getAll reversed => cases room <;> rfl
  | case2 => rfl
  | case3 room p cs ih => exact ih
  | case4 room cs => cases room <;> rfl
  | case5 room f cs ih => cases room <;> exact congrArg (f :: ·) ih
  | case6 room reversed cs ih => cases room <;> exact ih

theorem added_append {c : Call α} (hc : ∀ f, c ≠ .update f) (hadd : ∀ p, c ≠ .add p) :
    added size (cs ++ [c]) = added size cs := by
  induction cs with
  | nil =>
    cases c with
    | add p => exact absurd rfl (hadd p)
    | _ => rfl
  | cons d cs ih =>
    cases d with
    | add p =>
      rw [List.cons_append, added_add, added_add, whileStored_append hc, ih]
    | _ => exact ih

theorem added_append_add : added size (cs ++ [.add p]) = added size cs ++ [p] := by
  induction cs with
  | nil => rfl
  | cons d cs ih =>
    cases d with
    | add q =>
      rw [List.cons_append, added_add, added_add, whileStored_append (c := .add p) nofun, ih,
        List.cons_append]
    | _ => exact ih

/-! ### One more update -/

/-- The update is for an element with room for all that was added behind it. -/
theorem whileStored_append_update (hcs : .clear ∉ cs) (room : ℕ) :
    whileStored room (cs ++ [.update f]) =
      whileStored room cs ++ if (added size cs).length ≤ room then [f] else [] := by
  induction cs generalizing room with
  | nil => cases room <;> rfl
  | cons d cs ih =>
    have hcs' : Call.clear ∉ cs := fun h => hcs (List.mem_cons_of_mem _ h)
    cases d with
    | clear => exact absurd List.mem_cons_self hcs
    | add q =>
      have hlen : (added size (.add q :: cs)).length = (added size cs).length + 1 := rfl
      cases room with
      | zero =>
        rw [hlen, if_neg (by omega)]
        rfl
      | succ room =>
        have hle : (added size cs).length + 1 ≤ room + 1 ↔ (added size cs).length ≤ room := by omega
        show whileStored room (cs ++ [.update f]) = whileStored room cs ++ _
        rw [ih hcs', hlen]
        simp only [hle]
    | update g =>
      cases room <;> exact congrArg (g :: ·) (ih hcs' _)
    | getAll reversed =>
      cases room <;> exact ih hcs' _

theorem length_added_update : (added size (cs ++ [.update f])).length = (added size cs).length := by
  induction cs with
  | nil => rfl
  | cons d cs ih =>
    cases d with
    | add q => exact congrArg (· + 1) ih
    | _ => exact ih

/-- One element in front of the others stays if there is room for it. -/
theorem rtake_cons (x : α) (l : List α) (n : ℕ) :
    (x :: l).rtake n = if l.length < n then x :: l else l.rtake n := by
  split_ifs with h
  · exact rtake_of_length_le h
  · unfold List.rtake
    rw [List.length_cons, show l.length + 1 - n = l.length - n + 1 by omega, List.drop_succ_cons]

/-- The update is applied to the elements there is room for. -/
theorem rtake_added_update (hcs : .clear ∉ cs) :
    (added size (cs ++ [.update f])).rtake size = ((added size cs).rtake size).map f := by
  induction cs with
  | nil => simp [added]
  | cons d cs ih =>
    have hcs' : Call.clear ∉ cs := fun h => hcs (List.mem_cons_of_mem _ h)
    cases d with
    | add q =>
      rw [List.cons_append, added_add, added_add, rtake_cons, rtake_cons, length_added_update]
      split_ifs with hroom
      · have hall : (added size cs).rtake size = added size cs := rtake_of_length_le hroom.le
        have hall' : (added size (cs ++ [.update f])).rtake size = added size (cs ++ [.update f]) :=
          rtake_of_length_le (length_added_update.trans_lt hroom).le
        rw [hall, hall'] at ih
        rw [List.map_cons, ih hcs', @whileStored_append_update _ size cs f hcs',
          if_pos (Nat.le_sub_one_of_lt hroom), List.foldl_append]
        rfl
      · exact ih hcs'
    | clear => exact absurd List.mem_cons_self hcs
    | update g => exact ih hcs'
    | getAll reversed => exact ih hcs'

/-! ### The buffer -/

variable {r : RingBuffer α size}

/-- A call keeps the buffer in line with the log. -/
theorem getAll_call (h : r.getAll false = logged size cs) (c : Call α) :
    (call r c).getAll false = logged size (cs ++ [c]) := by
  unfold logged at h ⊢
  cases c with
  | add p =>
    show (r.add p).getAll false = _
    rw [getAll_add, h, rtake_append_rtake, sinceClear_append (c := .add p) nofun,
      added_append_add]
  | clear =>
    show r.clear.getAll false = _
    rw [getAll_clear, sinceClear_append_clear]
    exact (List.rtake_nil ..).symm
  | update f =>
    show (r.update f).getAll false = _
    rw [getAll_update, h, sinceClear_append (c := .update f) nofun,
      rtake_added_update (clear_notMem_sinceClear cs)]
  | getAll reversed =>
    show r.getAll false = _
    rw [h, sinceClear_append (c := .getAll reversed) nofun,
      added_append (c := .getAll reversed) nofun nofun]

theorem getAll_run (h : 0 < size) (zero : α) (calls : List (Call α)) :
    (run (new zero h) calls).getAll false = logged size calls := by
  induction calls using List.reverseRecOn with
  | nil => exact (List.rtake_nil ..).symm
  | append_singleton cs c ih =>
    unfold run at ih ⊢
    rw [List.foldl_append]
    exact getAll_call ih c

theorem used_lt (r : RingBuffer α size) (c : Call α) : ∀ i ∈ used r c, i < size := by
  cases c with
  | add p =>
    intro i hi
    rw [List.mem_singleton.mp hi]
    exact r.head_lt
  | clear => nofun
  | update f =>
    intro i hi
    exact lt_of_lt_of_le (List.mem_range.mp hi) r.count_le
  | getAll reversed =>
    intro i hi
    obtain ⟨k, -, rfl⟩ := List.mem_map.mp hi
    exact r.index_lt reversed k

/-- The elements lie in the first `count` cells. -/
theorem stored_iff {i : Fin size} : Stored r i ↔ i.val < r.count := by
  constructor
  · rintro ⟨k, hk, hi⟩
    rw [← hi]
    exact index_lt_count hk
  · intro hi
    obtain ⟨k, hk, hx⟩ := List.mem_map.mp (mem_getAll (r := { r with data := fun j => j }).mpr
      ⟨i, hi, rfl⟩)
    exact ⟨k, List.mem_range.mp hk, congrArg Fin.val hx⟩

/-- **The ring buffer is a bounded log.** Behind any sequence of calls `GetAll(false)` returns the last
`size` elements that were added since the latest `Clear`, oldest first, each with the updates made while
it was stored; `GetAll(true)` returns their reverse; every index is inside the array; and an update
changes the cells of these elements and no others. -/
theorem bounded_log_run (zero : α) (h : 0 < size) (calls : List (Call α)) :
    Refines (run (new zero h) calls) (logged size calls) where
  forward := getAll_run h zero calls
  reversed := by rw [getAll_true, getAll_run h zero calls]
  inBounds := used_lt _
  touched f i hi := if_pos (stored_iff.mp hi)
  untouched f i hi := if_neg fun hlt => hi (stored_iff.mpr hlt)

/-- Two cells, and an update between three elements. -/
theorem bounded_log_run_two :
    Refines (run (new 0 (Nat.zero_lt_succ 1)) [.add 1, .add 2, .update (· + 10), .add 3, .getAll true])
      [12, 3] :=
  bounded_log_run 0 (Nat.zero_lt_succ 1) [.add 1, .add 2, .update (· + 10), .add 3, .getAll true]

end Pacsni.Dashboard.RingLog
