import Pacsni.Queue.LockFree

/-! # The queue under any interleaving

A node is *free for* ticket `e` while its sequence number is `e`, and *holds* ticket `e` while it is
`e + 1`. Either way the ticket is the only one of its residue class that the two positions allow, so a
node never serves two tickets at once. The invariant ties the nodes to the positions, to the threads
that own a ticket (between a won compare-exchange and the sequence store), and to the history. -/

namespace Pacsni.Queue.Invariant

open Pacsni.Lib.Runs Pacsni.Queue.LockFree

/-! ### Arithmetic of positions -/

section

variable {c : Capacity}

theorem Capacity.two_le (c : Capacity) : 2 ≤ c.val := by
  rw [c.val_eq]
  calc 2 = 2 ^ 1 := rfl
    _ ≤ 2 ^ c.exp := Nat.pow_le_pow_right (by decide) c.exp_pos

theorem Capacity.two_dvd (c : Capacity) : 2 ∣ c.val := by
  rw [c.val_eq]
  exact dvd_pow_self 2 (by have := c.exp_pos; omega)

theorem Capacity.index_eq (c : Capacity) (pos : ℕ) : c.index pos = pos % c.val := by
  unfold Capacity.index Capacity.mask
  rw [c.val_eq, Nat.and_two_pow_sub_one_eq_mod]

theorem Capacity.index_lt (c : Capacity) (pos : ℕ) : c.index pos < c.val := by
  rw [Capacity.index_eq]
  exact Nat.mod_lt _ (by have := Capacity.two_le c; omega)

theorem Capacity.index_add (c : Capacity) (pos : ℕ) : c.index (pos + c.val) = c.index pos := by
  rw [Capacity.index_eq, Capacity.index_eq, Nat.add_mod_right]

/-- Two tickets of one node that are less than a lap apart are the same. -/
theorem Capacity.index_inj {a b : ℕ} (h : c.index a = c.index b) (hab : a < b + c.val)
    (hba : b < a + c.val) : a = b := by
  rw [Capacity.index_eq, Capacity.index_eq] at h
  rcases Nat.le_total a b with hle | hle
  · have := Nat.eq_zero_of_dvd_of_lt ((Nat.modEq_iff_dvd' hle).mp h) (by omega)
    omega
  · have := Nat.eq_zero_of_dvd_of_lt ((Nat.modEq_iff_dvd' hle).mp h.symm) (by omega)
    omega

theorem diff_eq_zero {a b : ℕ} (ha : a < sizeMod) (hb : b < sizeMod) : diff a b = 0 ↔ a = b := by
  unfold diff sizeMod at *
  rw [← Int.dvd_iff_bmod_eq_zero]
  omega

end

/-- A ticket and the next one belong to different nodes. -/
theorem index_succ_ne (c : Capacity) (k : ℕ) : c.index (k + 1) ≠ c.index k := by
  intro h
  have h2 := Capacity.two_le c
  have := Capacity.index_inj h (by omega) (by omega)
  omega

/-! ### The invariant -/

variable {ι T : Type*} {c : Capacity} {q q' : LockFreeQueue T} {h h' : History T}
  {W R : ι → Option ℕ} {t u : ι} {i e k : ℕ}

/-- The enqueue ticket that a thread owns. -/
def writes : Local T → Option ℕ
  | .pushWon _ pos => some pos
  | .pushCopied _ pos => some pos
  | _ => none

/-- The dequeue ticket that a thread owns. -/
def reads : Local T → Option ℕ
  | .popWon pos => some pos
  | .popCopied pos _ => some pos
  | _ => none

/-- The node `i` is free for the ticket `e`. -/
structure Free (c : Capacity) (q : LockFreeQueue T) (W : ι → Option ℕ) (i e : ℕ) : Prop where
  sequence : (q.buffer i).sequence = e
  deq_le : q.dequeuePos ≤ e
  lt_deq : e < q.dequeuePos + c.val
  writer : e < q.enqueuePos → ∃ t, W t = some e

/-- The node `i` holds the ticket `e`. -/
structure Held (c : Capacity) (q : LockFreeQueue T) (h : History T) (R : ι → Option ℕ) (i e : ℕ) :
    Prop where
  sequence : (q.buffer i).sequence = e + 1
  lt_enq : e < q.enqueuePos
  enq_le : q.enqueuePos ≤ e + c.val
  data : h.pushed[e]? = some (q.buffer i).data
  reader : e < q.dequeuePos → ∃ t, R t = some e

/-- The invariant of queue, history and owned tickets, as long as no counter has wrapped. `W t` and
`R t` are the enqueue and the dequeue ticket that the thread `t` owns. -/
structure Core (c : Capacity) (q : LockFreeQueue T) (h : History T) (W R : ι → Option ℕ) : Prop where
  enq : q.enqueuePos = h.pushed.length
  enq_lt : q.enqueuePos < sizeMod
  deq_le : q.dequeuePos ≤ q.enqueuePos
  enq_le : q.enqueuePos ≤ q.dequeuePos + c.val
  seq_lt : ∀ i < c.val, (q.buffer i).sequence < sizeMod
  le_seq : ∀ i < c.val, i ≤ (q.buffer i).sequence
  node : ∀ i < c.val, ∃ e, c.index e = i ∧ (Free c q W i e ∨ Held c q h R i e)
  writes_ok : ∀ t k, W t = some k → k < q.enqueuePos ∧ (q.buffer (c.index k)).sequence = k
  reads_ok : ∀ t k, R t = some k → k < q.dequeuePos ∧ (q.buffer (c.index k)).sequence = k + 1
  writer_unique : ∀ t u k, W t = some k → W u = some k → t = u
  reader_unique : ∀ t u k, R t = some k → R u = some k → t = u
  published : ∀ k, k ∈ h.published ↔ k < q.enqueuePos ∧ ∀ t, W t ≠ some k
  dequeued : ∀ k < q.dequeuePos, (∃ t, R t = some k) ∨ ∃ d, (k, d) ∈ h.popped
  popped : ∀ k d, (k, d) ∈ h.popped →
    k < q.dequeuePos ∧ h.pushed[k]? = some d ∧ ∀ t, R t ≠ some k
  nodup : (h.popped.map Prod.fst).Nodup

/-- The node with the sequence number `k` of its own ticket is free for `k`. -/
theorem Core.free (hc : Core c q h W R) (hseq : (q.buffer (c.index k)).sequence = k) :
    Free c q W (c.index k) k := by
  obtain ⟨e, hidx, hf | hh⟩ := hc.node (c.index k) (Capacity.index_lt c k)
  · obtain rfl : e = k := hf.sequence.symm.trans hseq
    exact hf
  · have : k = e + 1 := hseq.symm.trans hh.sequence
    rw [this] at hidx
    exact absurd hidx.symm (index_succ_ne c e)

/-- The node with the sequence number `k + 1` holds `k`. -/
theorem Core.held (hc : Core c q h W R) (hseq : (q.buffer (c.index k)).sequence = k + 1) :
    Held c q h R (c.index k) k := by
  obtain ⟨e, hidx, hf | hh⟩ := hc.node (c.index k) (Capacity.index_lt c k)
  · have : k + 1 = e := hseq.symm.trans hf.sequence
    rw [← this] at hidx
    exact absurd hidx (index_succ_ne c k)
  · obtain rfl : k = e := by have := hseq.symm.trans hh.sequence; omega
    exact hh

theorem Core.read_ne_write (hc : Core c q h W R) {k' : ℕ} (hr : R u = some k') (hw : W t = some k) :
    c.index k' ≠ c.index k := by
  intro hidx
  have h1 := (hc.writes_ok t k hw).2
  have h2 := (hc.reads_ok u k' hr).2
  rw [hidx, h1] at h2
  rw [h2] at hidx
  exact index_succ_ne c k' hidx.symm

/-- The thread `t` owns a ticket of the node `i`. -/
def Owns (c : Capacity) (W R : ι → Option ℕ) (t : ι) (i : ℕ) : Prop :=
  ∃ k, (W t = some k ∨ R t = some k) ∧ c.index k = i

/-- **Exclusive nodes.** At most one thread owns a ticket of a node. -/
theorem Core.owner_unique (hc : Core c q h W R) (ht : Owns c W R t i) (hu : Owns c W R u i) :
    t = u := by
  obtain ⟨k, hk, hki⟩ := ht
  obtain ⟨k', hk', hki'⟩ := hu
  subst hki
  rcases hk with hk | hk <;> rcases hk' with hk' | hk'
  · have h1 := (hc.writes_ok t k hk).2
    have h2 := (hc.writes_ok u k' hk').2
    rw [hki', h1] at h2
    subst h2
    exact hc.writer_unique t u k hk hk'
  · exact absurd hki' (hc.read_ne_write hk' hk)
  · exact absurd hki'.symm (hc.read_ne_write hk hk')
  · have h1 := (hc.reads_ok t k hk).2
    have h2 := (hc.reads_ok u k' hk').2
    rw [hki', h1] at h2
    obtain rfl : k = k' := by omega
    exact hc.reader_unique t u k hk hk'

/-- The nodes of the other owners are not the node of `k`. -/
theorem Core.index_ne (hc : Core c q h W R) (hk : W t = some k ∨ R t = some k) {k' : ℕ}
    (hk' : W u = some k' ∨ R u = some k') (hut : u ≠ t) : c.index k' ≠ c.index k := by
  intro hidx
  exact hut (hc.owner_unique ⟨k', hk', hidx⟩ ⟨k, hk, rfl⟩)

/-! ### The five steps that change something shared -/

variable {data : T}

theorem setNode_same (q : LockFreeQueue T) (i : ℕ) (n : Node T) : (q.setNode i n).buffer i = n := by
  simp [LockFreeQueue.setNode]

theorem setNode_ne (q : LockFreeQueue T) {i j : ℕ} (n : Node T) (hij : j ≠ i) :
    (q.setNode i n).buffer j = q.buffer j := by
  simp [LockFreeQueue.setNode, hij]

/-- The owner of an enqueue ticket copies its value into the node. -/
theorem Core.copyIn (hc : Core c q h W R) (hW : W t = some k) :
    Core c (q.setNode (c.index k) ⟨(q.buffer (c.index k)).sequence, data⟩) h W R := by
  have hseq : ∀ j, ((q.setNode (c.index k) ⟨(q.buffer (c.index k)).sequence, data⟩).buffer j).sequence =
      (q.buffer j).sequence := by
    intro j
    by_cases hj : j = c.index k
    · rw [hj, setNode_same]
    · rw [setNode_ne q _ hj]
  refine ⟨hc.enq, hc.enq_lt, hc.deq_le, hc.enq_le, fun i hi => ?_, fun i hi => ?_, fun i hi => ?_,
    fun u k' hk' => ?_, fun u k' hk' => ?_, hc.writer_unique, hc.reader_unique, hc.published,
    hc.dequeued, hc.popped, hc.nodup⟩
  · rw [hseq]
    exact hc.seq_lt i hi
  · rw [hseq]
    exact hc.le_seq i hi
  · by_cases hik : i = c.index k
    · have hf := hc.free (hc.writes_ok t k hW).2
      exact ⟨k, hik.symm, Or.inl ⟨by rw [hseq, hik]; exact hf.sequence, hf.deq_le, hf.lt_deq, hf.writer⟩⟩
    · obtain ⟨e, hidx, hf | hh⟩ := hc.node i hi
      · exact ⟨e, hidx, Or.inl ⟨by rw [hseq]; exact hf.sequence, hf.deq_le, hf.lt_deq, hf.writer⟩⟩
      · refine ⟨e, hidx, Or.inr ⟨by rw [hseq]; exact hh.sequence, hh.lt_enq, hh.enq_le, ?_, hh.reader⟩⟩
        rw [setNode_ne q _ hik]
        exact hh.data
  · rw [hseq]
    exact hc.writes_ok u k' hk'
  · rw [hseq]
    exact hc.reads_ok u k' hk'

section

variable [DecidableEq ι]

theorem update_some_iff {f : ι → Option ℕ} (hf : f t = none) :
    Function.update f t (some e) u = some k ↔ (u = t ∧ k = e) ∨ f u = some k := by
  by_cases hu : u = t
  · subst hu
    simp [hf, eq_comm]
  · simp [hu]

theorem update_none_iff {f : ι → Option ℕ} :
    Function.update f t none u = some k ↔ u ≠ t ∧ f u = some k := by
  by_cases hu : u = t
  · subst hu
    simp
  · simp [hu]

theorem getElem?_concat_of_some {l : List T} {d : T} (hk : l[k]? = some d) :
    (l ++ [data])[k]? = some d := by
  rw [List.getElem?_append_left (List.getElem?_eq_some_iff.mp hk).1]
  exact hk

/-- A push wins the ticket `enqueuePos`. -/
theorem Core.enqueue (hc : Core c q h W R) (hW : W t = none)
    (hseq : (q.buffer (c.index q.enqueuePos)).sequence = q.enqueuePos)
    (hlt : q.enqueuePos + 1 < sizeMod) (data : T) (b : Bool) :
    Core c { q with enqueuePos := q.enqueuePos + 1 }
      { h with wrapped := b, pushed := h.pushed ++ [data] }
      (Function.update W t (some q.enqueuePos)) R := by
  have hfree := (hc.free hseq).lt_deq
  have hde := hc.deq_le
  refine ⟨?_, hlt, Nat.le_succ_of_le hde, hfree, hc.seq_lt, hc.le_seq, fun i hi => ?_,
    fun u k hk => ?_, hc.reads_ok, fun u v k hu hv => ?_, hc.reader_unique, fun k => ?_, hc.dequeued,
    fun k d hk => ?_, hc.nodup⟩
  · rw [List.length_append, ← hc.enq, List.length_singleton]
  · obtain ⟨e, hidx, hf | hh⟩ := hc.node i hi
    · refine ⟨e, hidx, Or.inl ⟨hf.sequence, hf.deq_le, hf.lt_deq, fun he => ?_⟩⟩
      rcases Nat.lt_succ_iff_lt_or_eq.mp he with he | he
      · obtain ⟨u, hu⟩ := hf.writer he
        exact ⟨u, (update_some_iff hW).mpr (Or.inr hu)⟩
      · exact ⟨t, (update_some_iff hW).mpr (Or.inl ⟨rfl, he⟩)⟩
    · have hne : q.enqueuePos ≠ e + c.val := by
        intro he
        have h2 := Capacity.two_le c
        rw [he, Capacity.index_add, hidx, hh.sequence] at hseq
        omega
      have hle := hh.enq_le
      exact ⟨e, hidx, Or.inr ⟨hh.sequence, Nat.lt_succ_of_lt hh.lt_enq, by dsimp only; omega,
        getElem?_concat_of_some hh.data, hh.reader⟩⟩
  · rcases (update_some_iff hW).mp hk with ⟨-, rfl⟩ | hk
    · exact ⟨Nat.lt_succ_self _, hseq⟩
    · exact ⟨Nat.lt_succ_of_lt (hc.writes_ok u k hk).1, (hc.writes_ok u k hk).2⟩
  · rcases (update_some_iff hW).mp hu with ⟨rfl, rfl⟩ | hu' <;>
      rcases (update_some_iff hW).mp hv with ⟨rfl, hk⟩ | hv'
    · rfl
    · exact absurd (hc.writes_ok v _ hv').1 (lt_irrefl _)
    · rw [hk] at hu'
      exact absurd (hc.writes_ok u _ hu').1 (lt_irrefl _)
    · exact hc.writer_unique u v k hu' hv'
  · rw [hc.published k]
    constructor
    · rintro ⟨hk, hno⟩
      refine ⟨Nat.lt_succ_of_lt hk, fun u hu => ?_⟩
      rcases (update_some_iff hW).mp hu with ⟨-, rfl⟩ | hu
      · exact lt_irrefl _ hk
      · exact hno u hu
    · rintro ⟨hk, hno⟩
      refine ⟨?_, fun u hu => hno u ((update_some_iff hW).mpr (Or.inr hu))⟩
      rcases Nat.lt_succ_iff_lt_or_eq.mp hk with hk | rfl
      · exact hk
      · exact absurd ((update_some_iff hW).mpr (Or.inl ⟨rfl, rfl⟩)) (hno t)
  · obtain ⟨h1, h2, h3⟩ := hc.popped k d hk
    exact ⟨h1, getElem?_concat_of_some h2, h3⟩

/-- A pop wins the ticket `dequeuePos`. -/
theorem Core.dequeue (hc : Core c q h W R) (hR : R t = none)
    (hseq : (q.buffer (c.index q.dequeuePos)).sequence = q.dequeuePos + 1) (b : Bool) :
    Core c { q with dequeuePos := q.dequeuePos + 1 } { h with wrapped := b } W
      (Function.update R t (some q.dequeuePos)) := by
  have hheld := (hc.held hseq).lt_enq
  have hle := hc.enq_le
  refine ⟨hc.enq, hc.enq_lt, hheld, by dsimp only; omega, hc.seq_lt, hc.le_seq, fun i hi => ?_,
    hc.writes_ok, fun u k hk => ?_, hc.writer_unique, fun u v k hu hv => ?_, hc.published,
    fun k hk => ?_, fun k d hk => ?_, hc.nodup⟩
  · obtain ⟨e, hidx, hf | hh⟩ := hc.node i hi
    · have hne : q.dequeuePos ≠ e := by
        rintro rfl
        rw [hidx, hf.sequence] at hseq
        omega
      have h1 := hf.deq_le
      have h2 := hf.lt_deq
      exact ⟨e, hidx, Or.inl ⟨hf.sequence, by dsimp only; omega, by dsimp only; omega, hf.writer⟩⟩
    · refine ⟨e, hidx, Or.inr ⟨hh.sequence, hh.lt_enq, hh.enq_le, hh.data, fun he => ?_⟩⟩
      rcases Nat.lt_succ_iff_lt_or_eq.mp he with he | he
      · obtain ⟨u, hu⟩ := hh.reader he
        exact ⟨u, (update_some_iff hR).mpr (Or.inr hu)⟩
      · exact ⟨t, (update_some_iff hR).mpr (Or.inl ⟨rfl, he⟩)⟩
  · rcases (update_some_iff hR).mp hk with ⟨-, rfl⟩ | hk
    · exact ⟨Nat.lt_succ_self _, hseq⟩
    · exact ⟨Nat.lt_succ_of_lt (hc.reads_ok u k hk).1, (hc.reads_ok u k hk).2⟩
  · rcases (update_some_iff hR).mp hu with ⟨rfl, rfl⟩ | hu' <;>
      rcases (update_some_iff hR).mp hv with ⟨rfl, hk⟩ | hv'
    · rfl
    · exact absurd (hc.reads_ok v _ hv').1 (lt_irrefl _)
    · rw [hk] at hu'
      exact absurd (hc.reads_ok u _ hu').1 (lt_irrefl _)
    · exact hc.reader_unique u v k hu' hv'
  · rcases Nat.lt_succ_iff_lt_or_eq.mp hk with hk | rfl
    · rcases hc.dequeued k hk with ⟨u, hu⟩ | hd
      · exact Or.inl ⟨u, (update_some_iff hR).mpr (Or.inr hu)⟩
      · exact Or.inr hd
    · exact Or.inl ⟨t, (update_some_iff hR).mpr (Or.inl ⟨rfl, rfl⟩)⟩
  · obtain ⟨h1, h2, h3⟩ := hc.popped k d hk
    refine ⟨Nat.lt_succ_of_lt h1, h2, fun u hu => ?_⟩
    rcases (update_some_iff hR).mp hu with ⟨-, rfl⟩ | hu
    · exact lt_irrefl _ h1
    · exact h3 u hu

/-- The owner of an enqueue ticket stores the sequence number. -/
theorem Core.publish (hc : Core c q h W R) (hW : W t = some k)
    (hdata : h.pushed[k]? = some (q.buffer (c.index k)).data) :
    Core c (q.setNode (c.index k) ⟨k + 1, (q.buffer (c.index k)).data⟩)
      { h with published := h.published ++ [k] } (Function.update W t none) R := by
  obtain ⟨hlt, hseq⟩ := hc.writes_ok t k hW
  have hfree := hc.free hseq
  have hE := hc.enq_lt
  have hidx := hc.le_seq (c.index k) (Capacity.index_lt c k)
  have hle := hc.enq_le
  have hDk := hfree.deq_le
  refine ⟨hc.enq, hc.enq_lt, hc.deq_le, hc.enq_le, fun i hi => ?_, fun i hi => ?_, fun i hi => ?_,
    fun u k' hk' => ?_, fun u k' hk' => ?_, fun u v k' hu hv => ?_, hc.reader_unique, fun k' => ?_,
    hc.dequeued, hc.popped, hc.nodup⟩
  · by_cases hik : i = c.index k
    · rw [hik, setNode_same]
      dsimp only
      omega
    · rw [setNode_ne q _ hik]
      exact hc.seq_lt i hi
  · by_cases hik : i = c.index k
    · rw [hik, setNode_same]
      dsimp only
      omega
    · rw [setNode_ne q _ hik]
      exact hc.le_seq i hi
  · by_cases hik : i = c.index k
    · refine ⟨k, hik.symm, Or.inr ⟨?_, hlt, Nat.le_trans hle (by omega), ?_, fun hkD => ?_⟩⟩
      · rw [hik, setNode_same]
      · rw [hik, setNode_same]
        exact hdata
      · exact absurd hkD (not_lt.mpr hDk)
    · obtain ⟨e, hidx, hf | hh⟩ := hc.node i hi
      · refine ⟨e, hidx, Or.inl ⟨by rw [setNode_ne q _ hik]; exact hf.sequence, hf.deq_le, hf.lt_deq,
          fun he => ?_⟩⟩
        obtain ⟨u, hu⟩ := hf.writer he
        have hut : u ≠ t := by
          rintro rfl
          rw [hW, Option.some.injEq] at hu
          subst hu
          exact hik hidx.symm
        exact ⟨u, update_none_iff.mpr ⟨hut, hu⟩⟩
      · refine ⟨e, hidx, Or.inr ⟨?_, hh.lt_enq, hh.enq_le, ?_, hh.reader⟩⟩
        · rw [setNode_ne q _ hik]
          exact hh.sequence
        · rw [setNode_ne q _ hik]
          exact hh.data
  · obtain ⟨hut, hu⟩ := update_none_iff.mp hk'
    rw [setNode_ne q _ (hc.index_ne (Or.inl hW) (Or.inl hu) hut)]
    exact hc.writes_ok u k' hu
  · rw [setNode_ne q _ (hc.read_ne_write hk' hW)]
    exact hc.reads_ok u k' hk'
  · exact hc.writer_unique u v k' (update_none_iff.mp hu).2 (update_none_iff.mp hv).2
  · rw [List.mem_append, hc.published k', List.mem_singleton]
    constructor
    · rintro (⟨hk', hno⟩ | rfl)
      · exact ⟨hk', fun u hu => hno u (update_none_iff.mp hu).2⟩
      · refine ⟨hlt, fun u hu => ?_⟩
        obtain ⟨hut, hu⟩ := update_none_iff.mp hu
        exact hut (hc.writer_unique u t _ hu hW)
    · rintro ⟨hk', hno⟩
      by_cases hkk : k' = k
      · exact Or.inr hkk
      · refine Or.inl ⟨hk', fun u hu => ?_⟩
        have hut : u ≠ t := by
          rintro rfl
          rw [hW, Option.some.injEq] at hu
          exact hkk hu.symm
        exact hno u (update_none_iff.mpr ⟨hut, hu⟩)

/-- The owner of a dequeue ticket stores the sequence number of the next lap. -/
theorem Core.release (hc : Core c q h W R) (hR : R t = some k) {d : T}
    (hd : h.pushed[k]? = some d) (hlt : k + c.val < sizeMod) (b : Bool) :
    Core c (q.setNode (c.index k) ⟨k + c.val, (q.buffer (c.index k)).data⟩)
      { h with wrapped := b, popped := h.popped ++ [(k, d)] } W (Function.update R t none) := by
  obtain ⟨hkD, hseq⟩ := hc.reads_ok t k hR
  have hEk := (hc.held hseq).enq_le
  have hDE := hc.deq_le
  have h2 := Capacity.two_le c
  have hidx := hc.le_seq (c.index k) (Capacity.index_lt c k)
  refine ⟨hc.enq, hc.enq_lt, hc.deq_le, hc.enq_le, fun i hi => ?_, fun i hi => ?_, fun i hi => ?_,
    fun u k' hk' => ?_, fun u k' hk' => ?_, hc.writer_unique, fun u v k' hu hv => ?_, hc.published,
    fun k' hk' => ?_, fun k' d' hk' => ?_, ?_⟩
  · by_cases hik : i = c.index k
    · rw [hik, setNode_same]
      exact hlt
    · rw [setNode_ne q _ hik]
      exact hc.seq_lt i hi
  · by_cases hik : i = c.index k
    · rw [hik, setNode_same]
      dsimp only
      omega
    · rw [setNode_ne q _ hik]
      exact hc.le_seq i hi
  · by_cases hik : i = c.index k
    · refine ⟨k + c.val, by rw [Capacity.index_add, hik], Or.inl ⟨?_, Nat.le_trans hDE hEk,
        Nat.add_lt_add_right hkD _, fun hlt' => absurd hlt' (not_lt.mpr hEk)⟩⟩
      rw [hik, setNode_same]
    · obtain ⟨e, hidx, hf | hh⟩ := hc.node i hi
      · exact ⟨e, hidx, Or.inl ⟨by rw [setNode_ne q _ hik]; exact hf.sequence, hf.deq_le, hf.lt_deq,
          hf.writer⟩⟩
      · refine ⟨e, hidx, Or.inr ⟨?_, hh.lt_enq, hh.enq_le, ?_, fun he => ?_⟩⟩
        · rw [setNode_ne q _ hik]
          exact hh.sequence
        · rw [setNode_ne q _ hik]
          exact hh.data
        · obtain ⟨u, hu⟩ := hh.reader he
          have hut : u ≠ t := by
            rintro rfl
            rw [hR, Option.some.injEq] at hu
            subst hu
            exact hik hidx.symm
          exact ⟨u, update_none_iff.mpr ⟨hut, hu⟩⟩
  · rw [setNode_ne q _ (hc.read_ne_write hR hk').symm]
    exact hc.writes_ok u k' hk'
  · obtain ⟨hut, hu⟩ := update_none_iff.mp hk'
    rw [setNode_ne q _ (hc.index_ne (Or.inr hR) (Or.inr hu) hut)]
    exact hc.reads_ok u k' hu
  · exact hc.reader_unique u v k' (update_none_iff.mp hu).2 (update_none_iff.mp hv).2
  · by_cases hkk : k' = k
    · subst hkk
      exact Or.inr ⟨d, by simp⟩
    · rcases hc.dequeued k' hk' with ⟨u, hu⟩ | ⟨d', hd'⟩
      · have hut : u ≠ t := by
          rintro rfl
          rw [hR, Option.some.injEq] at hu
          exact hkk hu.symm
        exact Or.inl ⟨u, update_none_iff.mpr ⟨hut, hu⟩⟩
      · exact Or.inr ⟨d', List.mem_append_left _ hd'⟩
  · rcases List.mem_append.mp hk' with hold | hnew
    · obtain ⟨h1, h3, h4⟩ := hc.popped k' d' hold
      exact ⟨h1, h3, fun u hu => h4 u (update_none_iff.mp hu).2⟩
    · obtain ⟨rfl, rfl⟩ := Prod.mk.inj (List.mem_singleton.mp hnew)
      refine ⟨hkD, hd, fun u hu => ?_⟩
      obtain ⟨hut, hu⟩ := update_none_iff.mp hu
      exact hut (hc.reader_unique u t _ hu hR)
  · rw [List.map_append, List.nodup_append]
    refine ⟨hc.nodup, List.nodup_singleton _, fun k' hk' j hj => ?_⟩
    rintro rfl
    obtain ⟨⟨k₁, d₁⟩, hmem, rfl⟩ := List.mem_map.mp hk'
    obtain rfl : k₁ = k := List.mem_singleton.mp hj
    exact (hc.popped k₁ d₁ hmem).2.2 t hR

end

/-! ### What a thread has seen -/

/-- A sequence number that has reached the enqueue position is equal to it. -/
theorem Core.seq_eq_enq (hc : Core c q h W R)
    (hle : q.enqueuePos ≤ (q.buffer (c.index q.enqueuePos)).sequence) :
    (q.buffer (c.index q.enqueuePos)).sequence = q.enqueuePos := by
  have hDE := hc.deq_le
  obtain ⟨e, hidx, hf | hh⟩ := hc.node _ (Capacity.index_lt c q.enqueuePos)
  · have h1 := hf.lt_deq
    rw [hf.sequence] at hle ⊢
    exact Capacity.index_inj hidx (by omega) (by omega)
  · have h1 := hh.lt_enq
    rw [hh.sequence] at hle
    have : q.enqueuePos = e + 1 := by omega
    rw [this] at hidx
    exact absurd hidx.symm (index_succ_ne c e)

/-- A sequence number that has passed the dequeue position is the next one. -/
theorem Core.seq_eq_deq (hc : Core c q h W R)
    (hle : q.dequeuePos + 1 ≤ (q.buffer (c.index q.dequeuePos)).sequence) :
    (q.buffer (c.index q.dequeuePos)).sequence = q.dequeuePos + 1 := by
  have hED := hc.enq_le
  obtain ⟨e, hidx, hf | hh⟩ := hc.node _ (Capacity.index_lt c q.dequeuePos)
  · have h1 := hf.lt_deq
    rw [hf.sequence] at hle ⊢
    have := Capacity.index_inj hidx (by omega) (by omega)
    omega
  · have h1 := hh.lt_enq
    rw [hh.sequence] at hle ⊢
    have := Capacity.index_inj hidx (by omega) (by omega)
    omega

theorem Core.published_of_seq (hc : Core c q h W R)
    (hseq : (q.buffer (c.index k)).sequence = k + 1) : k ∈ h.published := by
  refine (hc.published k).mpr ⟨(hc.held hseq).lt_enq, fun t ht => ?_⟩
  have := (hc.writes_ok t k ht).2
  omega

theorem Core.published_of_lt (hc : Core c q h W R) (hk : k < q.dequeuePos) : k ∈ h.published := by
  refine (hc.published k).mpr ⟨Nat.lt_of_lt_of_le hk hc.deq_le, fun t ht => ?_⟩
  have := (hc.free (hc.writes_ok t k ht).2).deq_le
  omega

/-- A published ticket that no pop has won is in its node. -/
theorem Core.held_of_published (hc : Core c q h W R) (hk : k ∈ h.published)
    (hD : q.dequeuePos ≤ k) : Held c q h R (c.index k) k := by
  obtain ⟨hkE, hno⟩ := (hc.published k).mp hk
  have hle := hc.enq_le
  obtain ⟨e, hidx, hf | hh⟩ := hc.node _ (Capacity.index_lt c k)
  · have h1 := hf.deq_le
    have h2 := hf.lt_deq
    obtain rfl : e = k := Capacity.index_inj hidx (by omega) (by omega)
    obtain ⟨t, ht⟩ := hf.writer hkE
    exact absurd ht (hno t)
  · have h1 := hh.lt_enq
    have h2 := hh.enq_le
    obtain rfl : e = k := Capacity.index_inj hidx (by omega) (by omega)
    exact hh

/-- What a thread knows where it is. -/
def LocalOK (c : Capacity) (q : LockFreeQueue T) (h : History T) : Local T → Prop
  | .pushLoop _ pos => pos ≤ q.enqueuePos
  | .pushTest _ pos seq => pos ≤ q.enqueuePos ∧ seq ≤ (q.buffer (c.index pos)).sequence
  | .pushWon data pos => h.pushed[pos]? = some data
  | .pushCopied data pos => h.pushed[pos]? = some data ∧ (q.buffer (c.index pos)).data = data
  | .popLoop pos => pos ≤ q.dequeuePos
  | .popTest pos seq => pos ≤ q.dequeuePos ∧ c.index pos ≤ seq ∧
      seq ≤ (q.buffer (c.index pos)).sequence
  | .popCopied pos data => h.pushed[pos]? = some data
  | _ => True

/-- Positions, sequence numbers and pushed values only grow, and nobody touches an owned node. -/
theorem LocalOK.mono {l : Local T} (hl : LocalOK c q h l) (hE : q.enqueuePos ≤ q'.enqueuePos)
    (hD : q.dequeuePos ≤ q'.dequeuePos)
    (hseq : ∀ i, (q.buffer i).sequence ≤ (q'.buffer i).sequence)
    (hpush : ∀ (k : ℕ) d, h.pushed[k]? = some d → h'.pushed[k]? = some d)
    (hown : ∀ k, writes l = some k → q'.buffer (c.index k) = q.buffer (c.index k)) :
    LocalOK c q' h' l := by
  cases l with
  | pushLoop data pos => exact Nat.le_trans hl hE
  | pushTest data pos seq => exact ⟨Nat.le_trans hl.1 hE, Nat.le_trans hl.2 (hseq _)⟩
  | pushWon data pos => exact hpush pos data hl
  | pushCopied data pos =>
    refine ⟨hpush pos data hl.1, ?_⟩
    rw [hown pos rfl]
    exact hl.2
  | popLoop pos => exact Nat.le_trans hl hD
  | popTest pos seq => exact ⟨Nat.le_trans hl.1 hD, hl.2.1, Nat.le_trans hl.2.2 (hseq _)⟩
  | popCopied pos data => exact hpush pos data hl
  | _ => trivial

/-! ### Runs -/

variable [DecidableEq ι] {s s' : State ι T} {l : Local T}

/-- The invariant of the machine. -/
structure Inv (c : Capacity) (s : State ι T) : Prop where
  core : Core c s.queue s.history (writes ∘ s.threads) (reads ∘ s.threads)
  locals : ∀ t, LocalOK c s.queue s.history (s.threads t)

theorem Inv.update (hcore : Core c q' h' (Function.update (writes ∘ s.threads) t (writes l))
      (Function.update (reads ∘ s.threads) t (reads l))) (hl : LocalOK c q' h' l)
    (hothers : ∀ u, u ≠ t → LocalOK c q' h' (s.threads u)) :
    Inv c ⟨q', Function.update s.threads t l, h'⟩ := by
  refine ⟨?_, fun u => ?_⟩
  · dsimp only
    rw [Function.comp_update, Function.comp_update]
    exact hcore
  · by_cases hu : u = t
    · subst hu
      simpa using hl
    · simpa [hu] using hothers u hu

/-- A step that changes nothing but where the thread is. -/
theorem Inv.goto (hs : Inv c s) (hw : writes l = writes (s.threads t))
    (hr : reads l = reads (s.threads t)) (hl : LocalOK c s.queue s.history l) :
    Inv c ⟨s.queue, Function.update s.threads t l, s.history⟩ := by
  have hW : Function.update (writes ∘ s.threads) t (writes l) = writes ∘ s.threads := by
    rw [hw]
    exact Function.update_eq_self t (writes ∘ s.threads)
  have hR : Function.update (reads ∘ s.threads) t (reads l) = reads ∘ s.threads := by
    rw [hr]
    exact Function.update_eq_self t (reads ∘ s.threads)
  refine Inv.update ?_ hl fun u _ => hs.locals u
  rw [hW, hR]
  exact hs.core

omit [DecidableEq ι] in
/-- The other threads after a change of the node that `t` owns by the ticket `k`. -/
theorem Inv.others (hs : Inv c s) (hk : writes (s.threads t) = some k ∨ reads (s.threads t) = some k)
    {n : Node T} (hn : (s.queue.buffer (c.index k)).sequence ≤ n.sequence)
    (hpush : h'.pushed = s.history.pushed) (u : ι) (hut : u ≠ t) :
    LocalOK c (s.queue.setNode (c.index k) n) h' (s.threads u) := by
  refine (hs.locals u).mono le_rfl le_rfl (fun i => ?_) (fun k d hd => by rw [hpush]; exact hd)
    fun k' hk' => ?_
  · by_cases hi : i = c.index k
    · rw [hi, setNode_same]
      exact hn
    · rw [setNode_ne _ _ hi]
  · exact setNode_ne _ _ (hs.core.index_ne hk (Or.inl hk') hut)

/-- The push of `t` wins its ticket. -/
theorem Inv.pushWin (hs : Inv c s) {data : T} {seq : ℕ}
    (ht : s.threads t = .pushTest data s.queue.enqueuePos seq)
    (hd : diff seq s.queue.enqueuePos = 0) (hlt : s.queue.enqueuePos + 1 < sizeMod) (b : Bool) :
    Inv c ⟨{ s.queue with enqueuePos := s.queue.enqueuePos + 1 },
      Function.update s.threads t (.pushWon data s.queue.enqueuePos),
      { s.history with wrapped := b, pushed := s.history.pushed ++ [data] }⟩ := by
  obtain ⟨-, hle⟩ : _ ∧ seq ≤ _ := ht ▸ hs.locals t
  have hcur := hs.core.seq_lt _ (Capacity.index_lt c s.queue.enqueuePos)
  have hseq : seq = s.queue.enqueuePos := (diff_eq_zero (by omega) (by omega)).mp hd
  have hW : (writes ∘ s.threads) t = none := by simp [ht, writes]
  have hR : Function.update (reads ∘ s.threads) t none = reads ∘ s.threads := by
    rw [Function.update_eq_self_iff]
    simp [ht, reads]
  refine Inv.update ?_ ?_ fun u _ => ?_
  · have hcore := hs.core.enqueue hW (hs.core.seq_eq_enq (hseq ▸ hle)) hlt data b
    simp only [writes, reads, hR]
    exact hcore
  · show (s.history.pushed ++ [data])[s.queue.enqueuePos]? = some data
    rw [hs.core.enq, List.getElem?_concat_length]
  · exact (hs.locals u).mono (Nat.le_succ _) le_rfl (fun _ => le_rfl)
      (fun _ _ hk => getElem?_concat_of_some hk) fun _ _ => rfl

/-- The pop of `t` wins its ticket. -/
theorem Inv.popWin (hs : Inv c s) {seq : ℕ} (ht : s.threads t = .popTest s.queue.dequeuePos seq)
    (hd : diff seq ((s.queue.dequeuePos + 1) % sizeMod) = 0) (b : Bool) :
    Inv c ⟨{ s.queue with dequeuePos := s.queue.dequeuePos + 1 },
      Function.update s.threads t (.popWon s.queue.dequeuePos), { s.history with wrapped := b }⟩ := by
  obtain ⟨-, hidx, hle⟩ : _ ∧ _ ≤ seq ∧ seq ≤ _ := ht ▸ hs.locals t
  have hcur := hs.core.seq_lt _ (Capacity.index_lt c s.queue.dequeuePos)
  have hDE := hs.core.deq_le
  have hE := hs.core.enq_lt
  have hseq : seq = s.queue.dequeuePos + 1 := by
    have hmod := (diff_eq_zero (by omega) (Nat.mod_lt _ (by decide))).mp hd
    rcases Nat.lt_or_eq_of_le (Nat.succ_le_of_lt (Nat.lt_of_le_of_lt hDE hE)) with hlt | heq
    · rw [hmod, Nat.mod_eq_of_lt hlt]
    · -- the position is odd, so its node is not the one whose sequence number starts from zero
      exfalso
      rw [← Nat.succ_eq_add_one, heq, Nat.mod_self] at hmod
      rw [hmod, Capacity.index_eq] at hidx
      have h2 := (Capacity.two_dvd c).trans (Nat.dvd_of_mod_eq_zero (Nat.le_zero.mp hidx))
      unfold sizeMod at heq
      omega
  have hR : (reads ∘ s.threads) t = none := by simp [ht, reads]
  have hW : Function.update (writes ∘ s.threads) t none = writes ∘ s.threads := by
    rw [Function.update_eq_self_iff]
    simp [ht, writes]
  refine Inv.update ?_ trivial fun u _ => ?_
  · have hcore := hs.core.dequeue hR (hs.core.seq_eq_deq (hseq ▸ hle)) b
    simp only [writes, reads, hW]
    exact hcore
  · exact (hs.locals u).mono le_rfl (Nat.le_succ _) (fun _ => le_rfl) (fun _ _ hk => hk) fun _ _ => rfl

theorem Inv.pushCopyIn (hs : Inv c s) {data : T} {pos : ℕ} (ht : s.threads t = .pushWon data pos) :
    Inv c ⟨s.queue.setNode (c.index pos) ⟨(s.queue.buffer (c.index pos)).sequence, data⟩,
      Function.update s.threads t (.pushCopied data pos), s.history⟩ := by
  have hW : (writes ∘ s.threads) t = some pos := by simp [ht, writes]
  have hl : s.history.pushed[pos]? = some data := by simpa [ht, LocalOK] using hs.locals t
  have hW' : Function.update (writes ∘ s.threads) t (some pos) = writes ∘ s.threads := by
    rw [Function.update_eq_self_iff]
    exact hW.symm
  have hR' : Function.update (reads ∘ s.threads) t none = reads ∘ s.threads := by
    rw [Function.update_eq_self_iff]
    simp [ht, reads]
  refine Inv.update ?_ ⟨hl, by rw [setNode_same]⟩ ?_
  · simp only [writes, reads, hW', hR']
    exact hs.core.copyIn hW
  · exact hs.others (Or.inl hW) le_rfl rfl

theorem Inv.pushPublish (hs : Inv c s) {data : T} {pos : ℕ}
    (ht : s.threads t = .pushCopied data pos) (r : Option (Result T)) :
    Inv c ⟨s.queue.setNode (c.index pos) ⟨pos + 1, (s.queue.buffer (c.index pos)).data⟩,
      Function.update s.threads t (.idle r),
      { s.history with published := s.history.published ++ [pos] }⟩ := by
  have hW : (writes ∘ s.threads) t = some pos := by simp [ht, writes]
  obtain ⟨hpushed, hdata⟩ : s.history.pushed[pos]? = some data ∧ _ = data := ht ▸ hs.locals t
  have hR' : Function.update (reads ∘ s.threads) t none = reads ∘ s.threads := by
    rw [Function.update_eq_self_iff]
    simp [ht, reads]
  refine Inv.update ?_ trivial ?_
  · simp only [writes, reads, hR']
    exact hs.core.publish hW (by rw [hdata]; exact hpushed)
  · exact hs.others (Or.inl hW) (by rw [(hs.core.writes_ok t pos hW).2]; exact Nat.le_succ _) rfl

theorem Inv.popRelease (hs : Inv c s) {data : T} {pos : ℕ} (ht : s.threads t = .popCopied pos data)
    (hlt : pos + c.val < sizeMod) (r : Option (Result T)) (b : Bool) :
    Inv c ⟨s.queue.setNode (c.index pos) ⟨pos + c.val, (s.queue.buffer (c.index pos)).data⟩,
      Function.update s.threads t (.idle r),
      { s.history with wrapped := b, popped := s.history.popped ++ [(pos, data)] }⟩ := by
  have hR : (reads ∘ s.threads) t = some pos := by simp [ht, reads]
  have hl : s.history.pushed[pos]? = some data := by simpa [ht, LocalOK] using hs.locals t
  have hW' : Function.update (writes ∘ s.threads) t none = writes ∘ s.threads := by
    rw [Function.update_eq_self_iff]
    simp [ht, writes]
  have h2 := Capacity.two_le c
  refine Inv.update ?_ trivial ?_
  · simp only [writes, reads, hW']
    exact hs.core.release hR hl hlt b
  · refine hs.others (Or.inr hR) ?_ rfl
    rw [(hs.core.reads_ok t pos hR).2]
    dsimp only
    omega

/-- **One step.** A step of a thread keeps the invariant as long as no counter wraps. -/
theorem Inv.run (hs : Inv c s) (t : ι) (spurious : Bool)
    (hw : (s.run c t spurious).history.wrapped = false) : Inv c (s.run c t spurious) := by
  have hl := hs.locals t
  have hE := hs.core.enq_lt
  cases ht : s.threads t with
  | idle last =>
    simp only [State.run, LockFree.run, ht, History.add]
    exact hs.goto (by rw [ht]) (by rw [ht]) trivial
  | pushEntry data =>
    simp only [State.run, LockFree.run, ht, History.add]
    exact hs.goto (by rw [ht]; rfl) (by rw [ht]; rfl) (le_refl s.queue.enqueuePos)
  | pushLoop data pos =>
    rw [ht] at hl
    simp only [State.run, LockFree.run, ht, History.add]
    exact hs.goto (by rw [ht]; rfl) (by rw [ht]; rfl) ⟨hl, le_rfl⟩
  | pushTest data pos seq =>
    simp only [State.run, LockFree.run, ht] at hw ⊢
    split_ifs at hw ⊢ with hd hcas hneg
    · obtain ⟨rfl, -⟩ := hcas
      simp only [History.add, Bool.or_eq_false_iff, decide_eq_false_iff_not, not_le] at hw
      rw [Nat.mod_eq_of_lt hw.2]
      exact hs.pushWin ht hd hw.2 _
    · exact hs.goto (by rw [ht]; rfl) (by rw [ht]; rfl) (le_refl s.queue.enqueuePos)
    · exact hs.goto (by rw [ht]; rfl) (by rw [ht]; rfl) trivial
    · exact hs.goto (by rw [ht]; rfl) (by rw [ht]; rfl) (le_refl s.queue.enqueuePos)
  | pushWon data pos =>
    simp only [State.run, LockFree.run, ht, History.add]
    exact hs.pushCopyIn ht
  | pushCopied data pos =>
    simp only [State.run, LockFree.run, ht, History.add]
    have hpos := (hs.core.writes_ok t pos (by simp [ht, writes])).1
    rw [Nat.mod_eq_of_lt (by omega : pos + 1 < sizeMod)]
    exact hs.pushPublish ht _
  | popEntry =>
    simp only [State.run, LockFree.run, ht, History.add]
    exact hs.goto (by rw [ht]; rfl) (by rw [ht]; rfl) (le_refl s.queue.dequeuePos)
  | popLoop pos =>
    rw [ht] at hl
    simp only [State.run, LockFree.run, ht, History.add]
    exact hs.goto (by rw [ht]; rfl) (by rw [ht]; rfl)
      ⟨hl, hs.core.le_seq _ (Capacity.index_lt c pos), le_rfl⟩
  | popTest pos seq =>
    simp only [State.run, LockFree.run, ht] at hw ⊢
    split_ifs at hw ⊢ with hd hcas hneg
    · obtain ⟨rfl, -⟩ := hcas
      simp only [History.add, Bool.or_eq_false_iff, decide_eq_false_iff_not, not_le] at hw
      have hwin := hs.popWin ht hd (s.history.wrapped || decide (sizeMod ≤ s.queue.dequeuePos + 1))
      rw [Nat.mod_eq_of_lt hw.2]
      exact hwin
    · exact hs.goto (by rw [ht]; rfl) (by rw [ht]; rfl) (le_refl s.queue.dequeuePos)
    · exact hs.goto (by rw [ht]; rfl) (by rw [ht]; rfl) trivial
    · exact hs.goto (by rw [ht]; rfl) (by rw [ht]; rfl) (le_refl s.queue.dequeuePos)
  | popWon pos =>
    simp only [State.run, LockFree.run, ht, History.add]
    have hR : (reads ∘ s.threads) t = some pos := by simp [ht, reads]
    have hheld := hs.core.held (hs.core.reads_ok t pos hR).2
    exact hs.goto (by rw [ht]; rfl) (by rw [ht]; rfl) hheld.data
  | popCopied pos data =>
    simp only [State.run, LockFree.run, ht, History.add, Bool.or_eq_false_iff,
      decide_eq_false_iff_not, not_le] at hw ⊢
    have hmask : pos + c.mask + 1 = pos + c.val := by
      have := Capacity.two_le c
      unfold Capacity.mask
      omega
    rw [hmask, Nat.mod_eq_of_lt hw.2]
    exact hs.popRelease ht hw.2 _ _

theorem wrapped_add (h : History T) (ev : Event T) (hw : (h.add c ev).wrapped = false) :
    h.wrapped = false := by
  cases ev <;> simp_all [History.add]

omit [DecidableEq ι] in
theorem init_inv (hs : Init c s) : Inv c s := by
  obtain ⟨hseq, hE, hD, hthreads, hhist⟩ := hs
  have hW : ∀ t, (writes ∘ s.threads) t = none := fun t => by simp [hthreads, writes]
  have hR : ∀ t, (reads ∘ s.threads) t = none := fun t => by simp [hthreads, reads]
  have hlt : c.val < sizeMod := by
    rw [c.val_eq]
    exact Nat.pow_lt_pow_right (by decide) c.exp_lt
  refine ⟨⟨?_, ?_, ?_, ?_, ?_, ?_, ?_, ?_, ?_, ?_, ?_, ?_, ?_, ?_, ?_⟩, fun t => ?_⟩
  · rw [hE, hhist]
    rfl
  · rw [hE]
    decide
  · omega
  · omega
  · intro i hi
    rw [hseq i hi]
    omega
  · intro i hi
    rw [hseq i hi]
  · intro i hi
    refine ⟨i, ?_, Or.inl ⟨hseq i hi, by omega, by omega, fun h => by omega⟩⟩
    rw [Capacity.index_eq, Nat.mod_eq_of_lt hi]
  · intro t k hk
    rw [hW] at hk
    cases hk
  · intro t k hk
    rw [hR] at hk
    cases hk
  · intro t u k hk
    rw [hW] at hk
    cases hk
  · intro t u k hk
    rw [hR] at hk
    cases hk
  · intro k
    rw [hhist, hE]
    simp
  · intro k hk
    omega
  · intro k d hk
    rw [hhist] at hk
    cases hk
  · rw [hhist]
    exact List.nodup_nil
  · rw [hthreads t]
    trivial

/-- **Every run.** The invariant holds in every reachable state in which no counter has wrapped. -/
theorem reach_inv (hs : (machine ι T c).Reach s) : s.history.wrapped = false → Inv c s := by
  refine Machine.Reach.invariant (I := fun s => s.history.wrapped = false → Inv c s) hs
    (fun s h _ => init_inv h) fun s a s' ih ha hw => ?_
  cases a with
  | push t data =>
    simp only [machine] at ha
    split at ha
    · rename_i last ht
      cases ha
      exact (ih hw).goto (by rw [ht]; rfl) (by rw [ht]; rfl) trivial
    · cases ha
  | pop t =>
    simp only [machine] at ha
    split at ha
    · rename_i last ht
      cases ha
      exact (ih hw).goto (by rw [ht]; rfl) (by rw [ht]; rfl) trivial
    · cases ha
  | run t spurious =>
    simp only [machine, Option.some.injEq] at ha
    subst ha
    exact (ih (wrapped_add _ _ hw)).run t spurious hw

/-! ### What the invariant is for -/

/-- Where the value `v` of the ticket `k` can be once its push has returned: in its node, ready to be
popped; in its node, with the pop that will copy it; with that pop, copied; or returned. -/
def Kept (c : Capacity) (s : State ι T) (k : ℕ) (v : T) : Prop :=
  (s.queue.dequeuePos ≤ k ∧ s.queue.buffer (c.index k) = ⟨k + 1, v⟩) ∨
  (∃ t, s.threads t = .popWon k ∧ s.queue.buffer (c.index k) = ⟨k + 1, v⟩) ∨
  (∃ t, s.threads t = .popCopied k v) ∨ (k, v) ∈ s.history.popped

/-- What the users of the queue rely on. -/
structure Safe (c : Capacity) (s : State ι T) : Prop where
  /-- At most one thread is between its compare-exchange and its sequence store on a node. -/
  exclusive : ∀ t u i, Owns c (writes ∘ s.threads) (reads ∘ s.threads) t i →
    Owns c (writes ∘ s.threads) (reads ∘ s.threads) u i → t = u
  /-- A pop owns a ticket only behind the sequence store of the push with that ticket. -/
  after_store : ∀ t k, reads (s.threads t) = some k → k ∈ s.history.published
  /-- A pop returns the value of the push with its ticket, behind the sequence store of that push. -/
  delivered : ∀ k d, (k, d) ∈ s.history.popped →
    s.history.pushed[k]? = some d ∧ k ∈ s.history.published
  /-- No ticket is returned twice. -/
  once : (s.history.popped.map Prod.fst).Nodup
  /-- No pushed value is lost or overwritten. -/
  kept : ∀ k ∈ s.history.published, ∃ v, s.history.pushed[k]? = some v ∧ Kept c s k v

omit [DecidableEq ι] in
theorem Inv.kept (hs : Inv c s) (hk : k ∈ s.history.published) :
    ∃ v, s.history.pushed[k]? = some v ∧ Kept c s k v := by
  have hcore := hs.core
  by_cases hD : s.queue.dequeuePos ≤ k
  · have hh := hcore.held_of_published hk hD
    exact ⟨_, hh.data, Or.inl ⟨hD, by rw [← hh.sequence]⟩⟩
  rcases hcore.dequeued k (not_le.mp hD) with ⟨t, ht⟩ | ⟨d, hd⟩
  · have hh := hcore.held (hcore.reads_ok t k ht).2
    have hl := hs.locals t
    cases hth : s.threads t with
    | popWon pos =>
      obtain rfl : pos = k := by simpa [hth, reads] using ht
      exact ⟨_, hh.data, Or.inr (Or.inl ⟨t, hth, by rw [← hh.sequence]⟩)⟩
    | popCopied pos data =>
      obtain rfl : pos = k := by simpa [hth, reads] using ht
      rw [hth] at hl
      exact ⟨data, hl, Or.inr (Or.inr (Or.inl ⟨t, hth⟩))⟩
    | _ => simp [hth, reads] at ht
  · exact ⟨d, (hcore.popped k d hd).2.1, Or.inr (Or.inr (Or.inr hd))⟩

/-- **The queue is safe.** For any number of threads, any interleaving and any capacity, in every
reachable state in which no counter has wrapped: nodes are used by one thread at a time, a pop returns
the value of the push with its ticket and only behind its sequence store, and no pushed value is lost,
returned twice or overwritten before it is popped. -/
theorem reach_safe (c : Capacity) (s : State ι T) (hs : (machine ι T c).Reach s)
    (hw : s.history.wrapped = false) : Safe c s := by
  have hinv := reach_inv hs hw
  have hcore := hinv.core
  refine ⟨fun t u i ht hu => hcore.owner_unique ht hu, fun t k ht => ?_, fun k d hd => ?_, hcore.nodup,
    fun k hk => hinv.kept hk⟩
  · exact hcore.published_of_seq (hcore.reads_ok t k ht).2
  · obtain ⟨hlt, hpushed, -⟩ := hcore.popped k d hd
    exact ⟨hpushed, hcore.published_of_lt hlt⟩

/-- The smallest capacity. -/
def twoNodes : Capacity := ⟨2, 1, rfl, le_rfl, by decide⟩

/-- A queue of two nodes, just constructed. -/
def constructed : State Bool ℕ where
  queue := ⟨fun i => ⟨i, 0⟩, 0, 0⟩
  threads _ := .idle none
  history := ⟨false, [], [], []⟩

/-- One thread pushes 7 while the other one pops: the pop finds the queue empty at first, then loses a
compare-exchange spuriously, and then takes the value. -/
def pushAndPop : List (LockFree.Action Bool ℕ) :=
  [.push true 7, .pop false, .run true false, .run false false, .run true false, .run false false,
    .run true false, .run true false, .run false false, .run true false, .pop false,
    .run false false, .run false false, .run false true, .run false false, .run false false,
    .run false false, .run false false]

theorem pushAndPop_safe : ∃ s : State Bool ℕ, (machine Bool ℕ twoNodes).Reach s ∧
    s.history.wrapped = false ∧ s.history.popped = [(0, 7)] ∧ Safe twoNodes s :=
  have hrun : (machine Bool ℕ twoNodes).Reach
      (((machine Bool ℕ twoNodes).exec constructed pushAndPop).get (by decide)) :=
    Machine.Reach.exec (s := constructed) pushAndPop
      (Machine.ReachVia.of_init ⟨fun _ _ => rfl, rfl, rfl, fun _ => rfl, rfl⟩) (by simp)
  ⟨_, hrun, by decide, by decide, reach_safe _ _ hrun (by decide)⟩

end Pacsni.Queue.Invariant
