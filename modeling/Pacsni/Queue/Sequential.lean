import Pacsni.Queue.Invariant

/-! # The queue under calls that do not overlap

A call is run alone from its entry to its return; a compare-exchange in it may fail spuriously any
number of times. Positions and sequence numbers are residues modulo `2 ^ 64`, and a run may take them
past `2 ^ 64` any number of times. The queue behaves like a bounded list (`fifo`): the representation
`Rep c q D items` counts the pops `D` without bound and says for each node which ticket from `D` to
`D + capacity` it serves, and with which residue. -/

namespace Pacsni.Queue.Sequential

open Pacsni.Queue.LockFree Pacsni.Queue.Invariant

variable {T : Type*} {c : Capacity} {q q' : LockFreeQueue T} {D : ℕ} {items : List T}

/-! ### The abstract queue -/

/-- A call with its argument. -/
inductive Op (T : Type*)
  | push (data : T)
  | pop

/-- A bounded queue of capacity `n`: what a call does to its elements, oldest first, and what it
returns. -/
def fifo (n : ℕ) (items : List T) : Op T → List T × Result T
  | .push data => if items.length < n then (items ++ [data], .pushed true) else (items, .pushed false)
  | .pop => match items with
    | [] => ([], .popped none)
    | x :: rest => (rest, .popped (some x))

/-- The elements behind a sequence of calls. -/
def fifoItems (n : ℕ) : List T → List (Op T) → List T
  | items, [] => items
  | items, op :: ops => fifoItems n (fifo n items op).1 ops

/-- What the calls of a sequence return. -/
def fifoResults (n : ℕ) : List T → List (Op T) → List (Result T)
  | _, [] => []
  | items, op :: ops => (fifo n items op).2 :: fifoResults n (fifo n items op).1 ops

/-! ### Calls -/

/-- Where a call starts. -/
def entry : Op T → Local T
  | .push data => .pushEntry data
  | .pop => .popEntry

/-- One step of a thread that is alone on the queue. -/
def Step (c : Capacity) (s s' : LockFreeQueue T × Local T) : Prop :=
  ∃ spurious, s' = ((run c spurious s.1 s.2).1, (run c spurious s.1 s.2).2.1)

/-- The steps of a thread that is alone on the queue. -/
abbrev Steps (c : Capacity) : LockFreeQueue T × Local T → LockFreeQueue T × Local T → Prop :=
  Relation.ReflTransGen (Step c)

/-- The call `op` on the queue `q` returns `r` and leaves `q'`. -/
def Call (c : Capacity) (q : LockFreeQueue T) (op : Op T) (q' : LockFreeQueue T) (r : Result T) :
    Prop := Steps c (q, entry op) (q', .idle (some r))

/-- Calls one after the other, with what they return. -/
inductive Calls (c : Capacity) : LockFreeQueue T → List (Op T × Result T) → LockFreeQueue T → Prop
  | nil (q : LockFreeQueue T) : Calls c q [] q
  | cons {q q' q'' : LockFreeQueue T} {op : Op T} {r : Result T} {log : List (Op T × Result T)}
      (hcall : Call c q op q' r) (hlog : Calls c q' log q'') : Calls c q ((op, r) :: log) q''

/-- A queue behind its constructor. The data of the nodes is what the memory held. -/
structure Fresh (c : Capacity) (q : LockFreeQueue T) : Prop where
  sequence : ∀ i < c.val, (q.buffer i).sequence = i
  enqueuePos : q.enqueuePos = 0
  dequeuePos : q.dequeuePos = 0

/-! ### Residues -/

theorem Capacity.two_mul_le_sizeMod (c : Capacity) : 2 * c.val ≤ sizeMod := by
  have h := Nat.pow_le_pow_right (show 0 < 2 by decide) c.exp_lt
  rw [Nat.pow_succ] at h
  rw [c.val_eq, sizeMod]
  omega

theorem Capacity.dvd_sizeMod (c : Capacity) : c.val ∣ sizeMod := by
  rw [c.val_eq]
  exact Nat.pow_dvd_pow 2 (by have := c.exp_lt; omega)

/-- The node of a position is the one of its ticket. -/
theorem index_residue (c : Capacity) (k : ℕ) : c.index (k % sizeMod) = c.index k := by
  rw [Capacity.index_eq, Capacity.index_eq, Nat.mod_mod_of_dvd _ (Capacity.dvd_sizeMod c)]

/-- The signed difference of two residues is the one of their tickets. -/
theorem diff_residue (a b : ℕ) : diff (a % sizeMod) (b % sizeMod) = ((a : ℤ) - b).bmod sizeMod := by
  unfold diff
  rw [← Int.emod_bmod, ← Int.emod_bmod ((a : ℤ) - b)]
  push_cast
  rw [← Int.sub_emod]

theorem diff_residue_self (a : ℕ) : diff (a % sizeMod) (a % sizeMod) = 0 := by
  rw [diff_residue, sub_self]
  rfl

/-- A sequence number that is behind by less than half the range is seen to be behind. -/
theorem diff_residue_neg {a b : ℕ} (hlt : a < b) (hle : b ≤ a + 2 ^ 63) :
    diff (a % sizeMod) (b % sizeMod) < 0 := by
  have hmod : (sizeMod : ℤ) = 2 ^ 64 := rfl
  rw [diff_residue, Int.bmod_eq_of_le]
  · omega
  · omega
  · omega

theorem succ_residue (k : ℕ) : (k % sizeMod + 1) % sizeMod = (k + 1) % sizeMod := Nat.mod_add_mod ..

/-! ### The representation -/

/-- The queue `q` holds `items` behind `D` pops: its positions are the residues of the next tickets, the
nodes of the elements hold their tickets, and the other nodes are free for the next tickets. -/
structure Rep (c : Capacity) (q : LockFreeQueue T) (D : ℕ) (items : List T) : Prop where
  le : items.length ≤ c.val
  enq : q.enqueuePos = (D + items.length) % sizeMod
  deq : q.dequeuePos = D % sizeMod
  held : ∀ k (h : k < items.length), q.buffer (c.index (D + k)) = ⟨(D + k + 1) % sizeMod, items[k]⟩
  free : ∀ k, items.length ≤ k → k < c.val →
    (q.buffer (c.index (D + k))).sequence = (D + k) % sizeMod

theorem rep_of_fresh (h : Fresh c q) : Rep c q 0 [] where
  le := Nat.zero_le _
  enq := h.enqueuePos
  deq := h.dequeuePos
  held k hk := absurd hk (Nat.not_lt_zero k)
  free k _ hk := by
    have hlt := Capacity.two_mul_le_sizeMod c
    have hidx : c.index (0 + k) = k := by
      rw [Capacity.index_eq, Nat.zero_add, Nat.mod_eq_of_lt hk]
    rw [hidx, h.sequence k hk, Nat.zero_add, Nat.mod_eq_of_lt (by omega)]

/-- Two different tickets that the queue serves at a time have different nodes. -/
theorem index_ne {j k : ℕ} (hj : j < c.val) (hk : k < c.val) (hne : j ≠ k) :
    c.index (D + j) ≠ c.index (D + k) := fun h => by
  have := Capacity.index_inj h (by omega) (by omega)
  omega

namespace Rep

/-- The node that the next push looks at is the one of the first free ticket. -/
theorem push_node (h : Rep c q D items) :
    c.index q.enqueuePos = c.index (D + items.length) := by
  rw [h.enq, index_residue]

/-- With room the node is free for the ticket. -/
theorem push_diff_of_lt (h : Rep c q D items) (hlt : items.length < c.val) :
    diff (q.buffer (c.index q.enqueuePos)).sequence q.enqueuePos = 0 := by
  rw [h.push_node, h.free _ le_rfl hlt, h.enq]
  exact diff_residue_self _

/-- Without room the node still holds the ticket of a lap before. -/
theorem push_diff_of_full (h : Rep c q D items) (hfull : items.length = c.val) :
    diff (q.buffer (c.index q.enqueuePos)).sequence q.enqueuePos < 0 := by
  have h2 := Capacity.two_le c
  have hlt := Capacity.two_mul_le_sizeMod c
  have hnode : c.index (D + items.length) = c.index (D + 0) := by
    rw [hfull, Capacity.index_add, Nat.add_zero]
  rw [h.push_node, hnode, h.held 0 (by omega), h.enq]
  unfold sizeMod at hlt
  exact diff_residue_neg (by omega) (by omega)

/-- The queue behind a push. -/
theorem pushed (h : Rep c q D items) (hlt : items.length < c.val) (data : T) {n : Node T}
    (hn : n = ⟨(q.enqueuePos + 1) % sizeMod, data⟩)
    (hbuf : q'.buffer = Function.update q.buffer (c.index q.enqueuePos) n)
    (henq : q'.enqueuePos = (q.enqueuePos + 1) % sizeMod) (hdeq : q'.dequeuePos = q.dequeuePos) :
    Rep c q' D (items ++ [data]) := by
  have hlen : (items ++ [data]).length = items.length + 1 := by simp
  have hsucc : (q.enqueuePos + 1) % sizeMod = (D + items.length + 1) % sizeMod := by
    rw [h.enq, succ_residue]
  rw [h.push_node] at hbuf
  refine ⟨by omega, ?_, hdeq.trans h.deq, fun k hk => ?_, fun k hk1 hk2 => ?_⟩
  · rw [henq, hsucc, hlen, Nat.add_assoc]
  · rw [hbuf]
    rcases Nat.lt_succ_iff_lt_or_eq.mp (hlen ▸ hk) with hk' | rfl
    · rw [Function.update_of_ne (index_ne (by omega) hlt (by omega)), h.held k hk',
        List.getElem_append_left hk']
    · rw [Function.update_self, hn, hsucc]
      simp
  · rw [hbuf, Function.update_of_ne (index_ne hk2 hlt (by omega))]
    exact h.free k (by omega) hk2

/-- An empty queue: the node that the next pop looks at is free. -/
theorem pop_diff_of_nil (h : Rep c q D ([] : List T)) :
    diff (q.buffer (c.index q.dequeuePos)).sequence ((q.dequeuePos + 1) % sizeMod) < 0 := by
  have h2 := Capacity.two_le c
  have hseq := h.free 0 (Nat.zero_le _) (by omega)
  rw [Nat.add_zero] at hseq
  rw [h.deq, index_residue, hseq, succ_residue]
  exact diff_residue_neg (by omega) (by omega)

theorem pop_node {x : T} {rest : List T} (h : Rep c q D (x :: rest)) :
    q.buffer (c.index q.dequeuePos) = ⟨(D + 1) % sizeMod, x⟩ := by
  rw [h.deq, index_residue]
  exact h.held 0 (by simp)

theorem pop_diff_of_cons {x : T} {rest : List T} (h : Rep c q D (x :: rest)) :
    diff (q.buffer (c.index q.dequeuePos)).sequence ((q.dequeuePos + 1) % sizeMod) = 0 := by
  rw [h.pop_node, h.deq, succ_residue]
  exact diff_residue_self _

/-- The queue behind a pop: the node waits for the ticket of a lap later. -/
theorem popped {x : T} {rest : List T} (h : Rep c q D (x :: rest)) {n : Node T}
    (hn : n.sequence = (q.dequeuePos + c.mask + 1) % sizeMod)
    (hbuf : q'.buffer = Function.update q.buffer (c.index q.dequeuePos) n)
    (henq : q'.enqueuePos = q.enqueuePos) (hdeq : q'.dequeuePos = (q.dequeuePos + 1) % sizeMod) :
    Rep c q' (D + 1) rest := by
  have h2 := Capacity.two_le c
  have hle := h.le
  have hlen : (x :: rest).length = rest.length + 1 := rfl
  have hnode : c.index q.dequeuePos = c.index (D + 0) := by rw [h.deq, index_residue, Nat.add_zero]
  rw [hnode] at hbuf
  refine ⟨by omega, ?_, ?_, fun k hk => ?_, fun k hk1 hk2 => ?_⟩
  · rw [henq, h.enq, hlen]
    congr 1
    omega
  · rw [hdeq, h.deq, succ_residue]
  · have hk' : k + 1 < c.val := by omega
    rw [hbuf, Nat.add_assoc D 1 k, Nat.add_comm 1 k,
      Function.update_of_ne (index_ne hk' (by omega) (by omega)), h.held (k + 1) (by omega)]
    simp
  · rw [hbuf, Nat.add_assoc D 1 k, Nat.add_comm 1 k]
    rcases Nat.lt_or_ge (k + 1) c.val with hlt | hge
    · rw [Function.update_of_ne (index_ne hlt (by omega) (by omega)), h.free (k + 1) (by omega) hlt]
    · -- the released node
      have hk : k + 1 = c.val := by omega
      have hmask : c.mask + 1 = c.val := by
        unfold Capacity.mask
        omega
      rw [hk, Capacity.index_add, ← Nat.add_zero D, Function.update_self, hn, h.deq, Nat.add_assoc,
        hmask, Nat.mod_add_mod, Nat.add_zero]

end Rep

/-! ### The phases of a call -/

/-- The states of a call of `push` on the queue `q₀`. -/
def InPush (c : Capacity) (q₀ : LockFreeQueue T) (D : ℕ) (items : List T) (data : T)
    (q : LockFreeQueue T) : Local T → Prop
  | .pushEntry d => d = data ∧ q = q₀
  | .pushLoop d pos => d = data ∧ q = q₀ ∧ pos = q₀.enqueuePos
  | .pushTest d pos seq => d = data ∧ q = q₀ ∧ pos = q₀.enqueuePos ∧
      seq = (q₀.buffer (c.index pos)).sequence
  | .pushWon d pos => d = data ∧ items.length < c.val ∧ pos = q₀.enqueuePos ∧
      q = { q₀ with enqueuePos := (pos + 1) % sizeMod }
  | .pushCopied d pos => d = data ∧ items.length < c.val ∧ pos = q₀.enqueuePos ∧
      ∃ seq, q = ({ q₀ with enqueuePos := (pos + 1) % sizeMod } : LockFreeQueue T).setNode
        (c.index pos) ⟨seq, data⟩
  | .idle (some (.pushed true)) => items.length < c.val ∧ Rep c q D (items ++ [data])
  | .idle (some (.pushed false)) => items.length = c.val ∧ q = q₀
  | _ => False

/-- The states of a call of `pop` on the queue `q₀`. -/
def InPop (c : Capacity) (q₀ : LockFreeQueue T) (D : ℕ) (items : List T) (q : LockFreeQueue T) :
    Local T → Prop
  | .popEntry => q = q₀
  | .popLoop pos => q = q₀ ∧ pos = q₀.dequeuePos
  | .popTest pos seq => q = q₀ ∧ pos = q₀.dequeuePos ∧ seq = (q₀.buffer (c.index pos)).sequence
  | .popWon pos => items ≠ [] ∧ pos = q₀.dequeuePos ∧
      q = { q₀ with dequeuePos := (pos + 1) % sizeMod }
  | .popCopied pos data => (∃ rest, items = data :: rest) ∧ pos = q₀.dequeuePos ∧
      q = { q₀ with dequeuePos := (pos + 1) % sizeMod }
  | .idle (some (.popped (some data))) => ∃ rest, items = data :: rest ∧ Rep c q (D + 1) rest
  | .idle (some (.popped none)) => items = [] ∧ q = q₀
  | _ => False

/-- A step of a push stays in the call. -/
theorem inPush_step {q₀ : LockFreeQueue T} (h : Rep c q₀ D items) {data : T}
    {s s' : LockFreeQueue T × Local T} (hs : InPush c q₀ D items data s.1 s.2) (hstep : Step c s s') :
    InPush c q₀ D items data s'.1 s'.2 := by
  obtain ⟨spurious, rfl⟩ := hstep
  obtain ⟨q, l⟩ := s
  dsimp only at hs ⊢
  cases l with
  | idle last => exact hs
  | pushEntry d =>
    obtain ⟨rfl, rfl⟩ := hs
    exact ⟨rfl, rfl, rfl⟩
  | pushLoop d pos =>
    obtain ⟨rfl, rfl, rfl⟩ := hs
    exact ⟨rfl, rfl, rfl, rfl⟩
  | pushTest d pos seq =>
    obtain ⟨rfl, rfl, rfl, rfl⟩ := hs
    dsimp only [run]
    rcases eq_or_lt_of_le h.le with hfull | hlt
    · have hneg := h.push_diff_of_full hfull
      rw [if_neg hneg.ne, if_pos hneg]
      exact ⟨hfull, rfl⟩
    · rw [if_pos (h.push_diff_of_lt hlt)]
      split_ifs
      · exact ⟨rfl, hlt, rfl, rfl⟩
      · exact ⟨rfl, rfl, rfl⟩
  | pushWon d pos =>
    obtain ⟨rfl, hlt, rfl, rfl⟩ := hs
    exact ⟨rfl, hlt, rfl, _, rfl⟩
  | pushCopied d pos =>
    obtain ⟨rfl, hlt, rfl, seq, rfl⟩ := hs
    refine ⟨hlt, h.pushed hlt d rfl ?_ rfl rfl⟩
    simp [run, LockFreeQueue.setNode]
  | _ => exact hs.elim

/-- A step of a pop stays in the call. -/
theorem inPop_step {q₀ : LockFreeQueue T} (h : Rep c q₀ D items)
    {s s' : LockFreeQueue T × Local T} (hs : InPop c q₀ D items s.1 s.2) (hstep : Step c s s') :
    InPop c q₀ D items s'.1 s'.2 := by
  obtain ⟨spurious, rfl⟩ := hstep
  obtain ⟨q, l⟩ := s
  dsimp only at hs ⊢
  cases l with
  | idle last => exact hs
  | popEntry =>
    obtain rfl := hs
    exact ⟨rfl, rfl⟩
  | popLoop pos =>
    obtain ⟨rfl, rfl⟩ := hs
    exact ⟨rfl, rfl, rfl⟩
  | popTest pos seq =>
    obtain ⟨rfl, rfl, rfl⟩ := hs
    dsimp only [run]
    cases items with
    | nil =>
      have hneg := h.pop_diff_of_nil
      rw [if_neg hneg.ne, if_pos hneg]
      exact ⟨rfl, rfl⟩
    | cons x rest =>
      rw [if_pos h.pop_diff_of_cons]
      split_ifs
      · exact ⟨by simp, rfl, rfl⟩
      · exact ⟨rfl, rfl⟩
  | popWon pos =>
    obtain ⟨hne, rfl, rfl⟩ := hs
    cases items with
    | nil => exact absurd rfl hne
    | cons x rest =>
      refine ⟨⟨rest, ?_⟩, rfl, rfl⟩
      show x :: rest = (q₀.buffer (c.index q₀.dequeuePos)).data :: rest
      rw [h.pop_node]
  | popCopied pos data =>
    obtain ⟨⟨rest, rfl⟩, rfl, rfl⟩ := hs
    exact ⟨rest, rfl, h.popped rfl rfl rfl rfl⟩
  | _ => exact hs.elim

theorem inPush_steps {q₀ : LockFreeQueue T} (h : Rep c q₀ D items) {data : T}
    {s : LockFreeQueue T × Local T} (hs : Steps c (q₀, .pushEntry data) s) :
    InPush c q₀ D items data s.1 s.2 := by
  induction hs with
  | refl => exact ⟨rfl, rfl⟩
  | tail _ hstep ih => exact inPush_step h ih hstep

theorem inPop_steps {q₀ : LockFreeQueue T} (h : Rep c q₀ D items)
    {s : LockFreeQueue T × Local T} (hs : Steps c (q₀, .popEntry) s) :
    InPop c q₀ D items s.1 s.2 := by
  induction hs with
  | refl => exact rfl
  | tail _ hstep ih => exact inPop_step h ih hstep

/-! ### Every call returns -/

/-- The state behind a step without a spurious failure. -/
def next (c : Capacity) (s : LockFreeQueue T × Local T) : LockFreeQueue T × Local T :=
  ((run c false s.1 s.2).1, (run c false s.1 s.2).2.1)

theorem step_next (s : LockFreeQueue T × Local T) : Step c s (next c s) := ⟨false, rfl⟩

/-- The thread has returned. -/
def Returned (s : LockFreeQueue T × Local T) : Prop := ∃ r, s.2 = .idle (some r)

/-- From every state of a push, at most five steps without a spurious failure lead to its return. -/
theorem inPush_returns {q₀ : LockFreeQueue T} (h : Rep c q₀ D items) {data : T}
    {s : LockFreeQueue T × Local T} (hs : InPush c q₀ D items data s.1 s.2) :
    ∃ k ≤ 5, Returned ((next c)^[k] s) := by
  obtain ⟨q, l⟩ := s
  dsimp only at hs
  -- backwards through the code
  have hcopied : ∀ q d pos, Returned (next c (q, (.pushCopied d pos : Local T))) :=
    fun q d pos => ⟨_, rfl⟩
  have hwon : ∀ q d pos, Returned ((next c)^[2] (q, (.pushWon d pos : Local T))) :=
    fun q d pos => hcopied _ _ _
  have htest : ∀ d, Returned ((next c)^[3] (q₀, (.pushTest d q₀.enqueuePos
      (q₀.buffer (c.index q₀.enqueuePos)).sequence : Local T))) := by
    intro d
    rcases eq_or_lt_of_le h.le with hfull | hlt
    · have hneg := h.push_diff_of_full hfull
      have hnext : next c (q₀, (.pushTest d q₀.enqueuePos
          (q₀.buffer (c.index q₀.enqueuePos)).sequence : Local T)) =
          (q₀, .idle (some (.pushed false))) := by
        dsimp only [next, run]
        rw [if_neg hneg.ne, if_pos hneg]
      rw [Function.iterate_succ_apply, hnext]
      exact ⟨_, rfl⟩
    · have hnext : next c (q₀, (.pushTest d q₀.enqueuePos
          (q₀.buffer (c.index q₀.enqueuePos)).sequence : Local T)) =
          ({ q₀ with enqueuePos := (q₀.enqueuePos + 1) % sizeMod },
            .pushWon d q₀.enqueuePos) := by
        dsimp only [next, run]
        rw [if_pos (h.push_diff_of_lt hlt), if_pos ⟨rfl, rfl⟩]
      rw [Function.iterate_succ_apply, hnext]
      exact hwon _ _ _
  cases l with
  | idle last =>
    cases last with
    | none => exact hs.elim
    | some r => exact ⟨0, by decide, r, rfl⟩
  | pushEntry d =>
    obtain ⟨rfl, rfl⟩ := hs
    exact ⟨5, le_rfl, htest d⟩
  | pushLoop d pos =>
    obtain ⟨rfl, rfl, rfl⟩ := hs
    exact ⟨4, by decide, htest d⟩
  | pushTest d pos seq =>
    obtain ⟨rfl, rfl, rfl, rfl⟩ := hs
    exact ⟨3, by decide, htest d⟩
  | pushWon d pos => exact ⟨2, by decide, hwon _ _ _⟩
  | pushCopied d pos => exact ⟨1, by decide, hcopied _ _ _⟩
  | _ => exact hs.elim

/-- From every state of a pop, at most five steps without a spurious failure lead to its return. -/
theorem inPop_returns {q₀ : LockFreeQueue T} (h : Rep c q₀ D items)
    {s : LockFreeQueue T × Local T} (hs : InPop c q₀ D items s.1 s.2) :
    ∃ k ≤ 5, Returned ((next c)^[k] s) := by
  obtain ⟨q, l⟩ := s
  dsimp only at hs
  have hcopied : ∀ q pos d, Returned (next c (q, (.popCopied pos d : Local T))) :=
    fun q pos d => ⟨_, rfl⟩
  have hwon : ∀ q pos, Returned ((next c)^[2] (q, (.popWon pos : Local T))) :=
    fun q pos => hcopied _ _ _
  have htest : Returned ((next c)^[3] (q₀, (.popTest q₀.dequeuePos
      (q₀.buffer (c.index q₀.dequeuePos)).sequence : Local T))) := by
    cases items with
    | nil =>
      have hneg := h.pop_diff_of_nil
      have hnext : next c (q₀, (.popTest q₀.dequeuePos
          (q₀.buffer (c.index q₀.dequeuePos)).sequence : Local T)) =
          (q₀, .idle (some (.popped none))) := by
        dsimp only [next, run]
        rw [if_neg hneg.ne, if_pos hneg]
      rw [Function.iterate_succ_apply, hnext]
      exact ⟨_, rfl⟩
    | cons x rest =>
      have hnext : next c (q₀, (.popTest q₀.dequeuePos
          (q₀.buffer (c.index q₀.dequeuePos)).sequence : Local T)) =
          ({ q₀ with dequeuePos := (q₀.dequeuePos + 1) % sizeMod }, .popWon q₀.dequeuePos) := by
        dsimp only [next, run]
        rw [if_pos h.pop_diff_of_cons, if_pos ⟨rfl, rfl⟩]
      rw [Function.iterate_succ_apply, hnext]
      exact hwon _ _
  cases l with
  | idle last =>
    cases last with
    | none => exact hs.elim
    | some r => exact ⟨0, by decide, r, rfl⟩
  | popEntry =>
    obtain rfl := hs
    exact ⟨5, le_rfl, htest⟩
  | popLoop pos =>
    obtain ⟨rfl, rfl⟩ := hs
    exact ⟨4, by decide, htest⟩
  | popTest pos seq =>
    obtain ⟨rfl, rfl, rfl⟩ := hs
    exact ⟨3, by decide, htest⟩
  | popWon pos => exact ⟨2, by decide, hwon _ _⟩
  | popCopied pos data => exact ⟨1, by decide, hcopied _ _ _⟩
  | _ => exact hs.elim

theorem steps_iterate (k : ℕ) (s : LockFreeQueue T × Local T) : Steps c s ((next c)^[k] s) := by
  induction k generalizing s with
  | zero => exact .refl
  | succ k ih =>
    rw [Function.iterate_succ_apply]
    exact .head (step_next s) (ih _)

/-! ### Refinement -/

/-- What the call `op` on `q`, which holds `items`, may return and leave: what the bounded list returns
and leaves; a call that fails leaves the queue as it is. -/
structure Refined (c : Capacity) (q : LockFreeQueue T) (items : List T) (op : Op T)
    (q' : LockFreeQueue T) (r : Result T) : Prop where
  result : r = (fifo c.val items op).2
  push_false : ∀ data, op = .push data → (r = .pushed false ↔ items.length = c.val)
  pop_false : op = .pop → (r = .popped none ↔ items = [])
  unchanged : r = .pushed false ∨ r = .popped none → q' = q
  rep : ∃ D', Rep c q' D' (fifo c.val items op).1

/-- **One call.** -/
theorem refined_of_call (h : Rep c q D items) {op : Op T} {r : Result T} (hcall : Call c q op q' r) :
    Refined c q items op q' r := by
  cases op with
  | push data =>
    have hin := inPush_steps h hcall
    cases r with
    | popped d => cases d <;> exact hin.elim
    | pushed ok =>
      cases ok with
      | true =>
        obtain ⟨hlt, hrep⟩ := hin
        have hfifo : fifo c.val items (.push data) = (items ++ [data], .pushed true) := if_pos hlt
        refine ⟨by rw [hfifo], fun d _ => ?_, fun h => (by cases h), ?_, D, by rwa [hfifo]⟩
        · exact ⟨fun h => (by cases h), fun h => (by omega)⟩
        · rintro (h | h) <;> cases h
      | false =>
        obtain ⟨hfull, rfl⟩ := hin
        have hfifo : fifo c.val items (.push data) = (items, .pushed false) :=
          if_neg (by omega)
        refine ⟨by rw [hfifo], fun d _ => ⟨fun _ => hfull, fun _ => rfl⟩, fun h => (by cases h),
          fun _ => rfl, D, by rwa [hfifo]⟩
  | pop =>
    have hin := inPop_steps h hcall
    cases r with
    | pushed ok => cases ok <;> exact hin.elim
    | popped d =>
      cases d with
      | some x =>
        obtain ⟨rest, rfl, hrep⟩ := hin
        refine ⟨rfl, fun _ h => (by cases h), fun _ => ⟨fun h => (by cases h), fun h => (by cases h)⟩, ?_,
          D + 1, hrep⟩
        rintro (h | h) <;> cases h
      | none =>
        obtain ⟨rfl, rfl⟩ := hin
        exact ⟨rfl, fun _ h => (by cases h), fun _ => ⟨fun _ => rfl, fun _ => rfl⟩, fun _ => rfl, D, h⟩

/-- Every call returns, however often it has already failed spuriously. -/
theorem call_returns (h : Rep c q D items) (op : Op T) {s : LockFreeQueue T × Local T}
    (hs : Steps c (q, entry op) s) :
    ∃ k ≤ 5, ∃ q' r, (next c)^[k] s = (q', .idle (some r)) ∧ Call c q op q' r := by
  have hret : ∃ k ≤ 5, Returned ((next c)^[k] s) := by
    cases op with
    | push data => exact inPush_returns h (inPush_steps h hs)
    | pop => exact inPop_returns h (inPop_steps h hs)
  obtain ⟨k, hk, r, hr⟩ := hret
  have heq : (next c)^[k] s = (((next c)^[k] s).1, .idle (some r)) := Prod.ext rfl hr
  refine ⟨k, hk, _, r, heq, ?_⟩
  unfold Call
  rw [← heq]
  exact hs.trans (steps_iterate k s)

/-- The results of a sequence of calls are those of the bounded list, whose elements it leaves. -/
theorem calls_refine {log : List (Op T × Result T)} (hlog : Calls c q log q') :
    ∀ {D : ℕ} {items : List T}, Rep c q D items →
      log.map Prod.snd = fifoResults c.val items (log.map Prod.fst) ∧
      ∃ D', Rep c q' D' (fifoItems c.val items (log.map Prod.fst)) := by
  induction hlog with
  | nil q => exact fun h => ⟨rfl, _, h⟩
  | cons hcall hlog ih =>
    intro D items h
    have href := refined_of_call h hcall
    obtain ⟨D', hrep⟩ := href.rep
    obtain ⟨hres, hfinal⟩ := ih hrep
    refine ⟨?_, hfinal⟩
    rw [List.map_cons, List.map_cons, fifoResults, hres, ← href.result]

/-- Any sequence of calls can be made. -/
theorem exists_calls {D : ℕ} {items : List T} (h : Rep c q D items) (ops : List (Op T)) :
    ∃ log q', log.map Prod.fst = ops ∧ Calls c q log q' := by
  induction ops generalizing q D items with
  | nil => exact ⟨[], q, rfl, .nil q⟩
  | cons op ops ih =>
    obtain ⟨k, -, q₁, r, -, hcall⟩ := call_returns h op .refl
    obtain ⟨D₁, hrep⟩ := (refined_of_call h hcall).rep
    obtain ⟨log, q', hops, hlog⟩ := ih hrep
    exact ⟨(op, r) :: log, q', by rw [List.map_cons, hops], .cons hcall hlog⟩

/-- **Sequential refinement.** Behind any number of calls that do not overlap, on a queue of any
capacity, the results so far are those of a bounded list, and with the elements of that list every
further call does what it does on the list: it returns, a push fails iff there are as many elements as
the capacity, a pop fails iff there are none, and a call that fails leaves the queue as it is. -/
theorem sequential_refines_fifo {q₀ : LockFreeQueue T} (h₀ : Fresh c q₀)
    {log : List (Op T × Result T)} (hlog : Calls c q₀ log q) :
    log.map Prod.snd = fifoResults c.val [] (log.map Prod.fst) ∧
      ∀ op, (∀ s, Steps c (q, entry op) s →
          ∃ k ≤ 5, ∃ q' r, (next c)^[k] s = (q', .idle (some r)) ∧ Call c q op q' r) ∧
        ∀ q' r, Call c q op q' r →
          Refined c q (fifoItems c.val [] (log.map Prod.fst)) op q' r := by
  obtain ⟨hres, D, hrep⟩ := calls_refine hlog (rep_of_fresh h₀)
  exact ⟨hres, fun op => ⟨fun s hs => call_returns hrep op hs, fun q' r hcall =>
    refined_of_call hrep hcall⟩⟩

/-- A queue of capacity 2 whose nodes hold zeros. -/
def cleared : LockFreeQueue ℕ := ⟨fun i => ⟨i, 0⟩, 0, 0⟩

def two : Capacity := twoNodes

/-- Calls that fill the queue, go once around it, and empty it. -/
def lap : List (Op ℕ) :=
  [.push 7, .push 8, .push 9, .pop, .push 10, .pop, .push 11, .pop, .pop, .pop]

/-- What they return, and the push that is next. -/
theorem cleared_refines_fifo : Fresh two cleared ∧ ∃ log q, log.map Prod.fst = lap ∧
    Calls two cleared log q ∧
    log.map Prod.snd = [.pushed true, .pushed true, .pushed false, .popped (some 7), .pushed true,
      .popped (some 8), .pushed true, .popped (some 10), .popped (some 11), .popped none] ∧
    ∀ q' r, Call two q (.push 12) q' r → Refined two q [] (.push 12) q' r := by
  have hfresh : Fresh two cleared := ⟨fun _ _ => rfl, rfl, rfl⟩
  obtain ⟨log, q, hops, hlog⟩ := exists_calls (rep_of_fresh hfresh) lap
  obtain ⟨hres, hnext⟩ := sequential_refines_fifo hfresh hlog
  rw [hops] at hres hnext
  exact ⟨hfresh, log, q, hops, hlog, hres, (hnext (.push 12)).2⟩

end Pacsni.Queue.Sequential
