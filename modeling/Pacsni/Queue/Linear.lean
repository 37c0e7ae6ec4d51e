import Pacsni.Lib.Linear
import Pacsni.Queue.Invariant

/-! # The queue as an atomic object

The queue is a bounded FIFO whose calls take effect at one moment: a call that succeeds at its
compare-exchange, and a call that fails where it loads the sequence number. A push may fail although
there is room while a pop is between its effect and its return, which keeps the node; a pop may fail
although there is an element while a push is. Positions are taken to stay below `2 ^ 63`, where the
differences of counters have the right sign. -/

namespace Pacsni.Queue.Linear

open Pacsni.Lib.Runs Pacsni.Lib.Linear Pacsni.Queue.LockFree Pacsni.Queue.Invariant

/-! ### The bounded FIFO -/

/-- A call. -/
inductive Op (T : Type*)
  | push (data : T)
  | pop

variable {ι T : Type*}

/-- The effects of the calls on a FIFO of the capacity `n`. -/
inductive Effect (n : ℕ) (x : Atomic ι (Op T) (Result T) (List T)) (t : ι) :
    Op T → Result T → List T → Prop
  | pushed (data : T) (h : x.object.length < n) :
      Effect n x t (.push data) (.pushed true) (x.object ++ [data])
  | full (data : T)
      (h : n ≤ x.object.length ∨ ∃ u v, u ≠ t ∧ x.phase u = .done .pop (.popped (some v))) :
      Effect n x t (.push data) (.pushed false) x.object
  | popped {v : T} {rest : List T} (h : x.object = v :: rest) :
      Effect n x t .pop (.popped (some v)) rest
  | empty (h : x.object = [] ∨ ∃ u data, u ≠ t ∧ x.phase u = .done (.push data) (.pushed true)) :
      Effect n x t .pop (.popped none) x.object

/-- An empty FIFO that nobody uses. -/
def unused : Atomic ι (Op T) (Result T) (List T) := ⟨[], fun _ => .idle⟩

/-! ### The abstraction -/

/-- Where a thread is with its call. -/
def phase (pushed : List T) : Local T → Phase (Op T) (Result T)
  | .idle _ => .idle
  | .pushEntry data => .called (.push data)
  | .pushLoop data _ => .called (.push data)
  | .pushTest data pos seq =>
    if diff seq pos < 0 then .done (.push data) (.pushed false) else .called (.push data)
  | .pushWon data _ => .done (.push data) (.pushed true)
  | .pushCopied data _ => .done (.push data) (.pushed true)
  | .popEntry => .called .pop
  | .popLoop _ => .called .pop
  | .popTest pos seq =>
    if diff seq ((pos + 1) % sizeMod) < 0 then .done .pop (.popped none) else .called .pop
  | .popWon pos => .done .pop (.popped pushed[pos]?)
  | .popCopied _ data => .done .pop (.popped (some data))

/-- The elements between the two positions, and the threads. -/
def fifo (s : State ι T) : Atomic ι (Op T) (Result T) (List T) where
  object := s.history.pushed.drop s.queue.dequeuePos
  phase t := phase s.history.pushed (s.threads t)

/-- The calls and returns of the machine: a thread that comes to rest returns. -/
def visible (c : Capacity) (s : State ι T) : LockFree.Action ι T → List (Visible ι (Op T) (Result T))
  | .push t data => [.call t (.push data)]
  | .pop t => [.call t .pop]
  | .run t spurious => match s.threads t with
    | .idle _ => []
    | l => match (LockFree.run c spurious s.queue l).2.1 with
      | .idle (some r) => [.ret t r]
      | _ => []

/-- The positions are far from the sign. -/
def Small (c : Capacity) (s : State ι T) : Prop := s.history.pushed.length + c.val < 2 ^ 63

variable {c : Capacity} {s s' : State ι T} {t : ι}

/-! ### Failures -/

/-- Far from the sign the difference is that of the numbers. -/
theorem diff_of_small {a b : ℕ} (ha : a < 2 ^ 63) (hb : b < 2 ^ 63) : diff a b = (a : ℤ) - b := by
  unfold diff sizeMod
  exact Int.bmod_eq_of_le (by omega) (by omega)

theorem sequence_small (hi : Inv c s) (hs : Small c s) (pos : ℕ) :
    (s.queue.buffer (c.index pos)).sequence < 2 ^ 63 := by
  have hE := hi.core.enq
  have hD := hi.core.deq_le
  unfold Small at hs
  obtain ⟨e, -, hf | hh⟩ := hi.core.node (c.index pos) (Capacity.index_lt c pos)
  · have h1 := hf.lt_deq
    rw [hf.sequence]
    omega
  · have h1 := hh.lt_enq
    rw [hh.sequence]
    omega

/-- Two tickets of one node are the same or a lap apart. -/
theorem lap_le {e pos : ℕ} (h : c.index e = c.index pos) (hlt : e < pos) : e + c.val ≤ pos := by
  by_contra hgt
  have := Capacity.index_inj h (by omega) (by omega)
  omega

/-- A push that has found a smaller sequence number has found the FIFO full, or a pop in the node. -/
theorem full_of_lt (hi : Inv c s) {pos : ℕ} (hpos : pos ≤ s.queue.enqueuePos)
    (hseq : (s.queue.buffer (c.index pos)).sequence < pos) :
    c.val ≤ (fifo s).object.length ∨
      ∃ u v, (fifo s).phase u = .done .pop (.popped (some v)) := by
  have hE := hi.core.enq
  have hD := hi.core.deq_le
  have hlen : (fifo s).object.length = s.queue.enqueuePos - s.queue.dequeuePos := by
    rw [fifo, List.length_drop, hE]
  obtain ⟨e, hidx, hf | hh⟩ := hi.core.node (c.index pos) (Capacity.index_lt c pos)
  · have hlap := lap_le hidx (hf.sequence ▸ hseq)
    have h1 := hf.deq_le
    have h2 := hi.core.enq_le
    exact Or.inl (by omega)
  · have hlt : e < pos := by have := hh.sequence; omega
    have hlap := lap_le hidx hlt
    have h1 := hh.enq_le
    by_cases hdeq : s.queue.dequeuePos ≤ e
    · exact Or.inl (by omega)
    · obtain ⟨u, hu⟩ := hh.reader (by omega)
      refine Or.inr ⟨u, (s.queue.buffer (c.index pos)).data, ?_⟩
      have hdata := hh.data
      have hl := hi.locals u
      have hu : reads (s.threads u) = some e := hu
      show phase s.history.pushed (s.threads u) = _
      cases hth : s.threads u with
      | popWon k =>
        obtain rfl : k = e := by simpa [hth, reads] using hu
        rw [phase, hdata]
      | popCopied k data =>
        obtain rfl : k = e := by simpa [hth, reads] using hu
        rw [hth] at hl
        obtain rfl : data = _ := Option.some.inj (hl.symm.trans hdata)
        rfl
      | _ => simp [hth, reads] at hu

/-- A pop that has found a smaller sequence number has found the FIFO empty, or a push in the node. -/
theorem empty_of_lt (hi : Inv c s) {pos : ℕ} (hpos : pos ≤ s.queue.dequeuePos)
    (hseq : (s.queue.buffer (c.index pos)).sequence < pos + 1) :
    (fifo s).object = [] ∨ ∃ u data, (fifo s).phase u = .done (.push data) (.pushed true) := by
  have hE := hi.core.enq
  have hD := hi.core.deq_le
  have hnil : s.queue.enqueuePos ≤ s.queue.dequeuePos → (fifo s).object = [] := fun hle =>
    List.drop_eq_nil_of_le (by omega)
  obtain ⟨e, hidx, hf | hh⟩ := hi.core.node (c.index pos) (Capacity.index_lt c pos)
  · have h1 := hf.deq_le
    have h2 := hf.sequence
    by_cases henq : e < s.queue.enqueuePos
    · obtain ⟨u, hu⟩ := hf.writer henq
      have hu : writes (s.threads u) = some e := hu
      refine Or.inr ⟨u, ?_⟩
      show ∃ data, phase s.history.pushed (s.threads u) = _
      cases hth : s.threads u with
      | pushWon data k => exact ⟨data, rfl⟩
      | pushCopied data k => exact ⟨data, rfl⟩
      | _ => simp [hth, writes] at hu
    · exact Or.inl (hnil (by omega))
  · have hlap := lap_le hidx (by have := hh.sequence; omega)
    have h1 := hh.enq_le
    exact Or.inl (hnil (by omega))

/-- What a thread returns with its step. -/
theorem visible_run {l : Local T} {spurious : Bool} (ht : s.threads t = l)
    (hl : ∀ last, l ≠ .idle last) : visible c s (.run t spurious) =
      match (LockFree.run c spurious s.queue l).2.1 with
      | .idle (some r) => [.ret t r]
      | _ => [] := by
  cases l with
  | idle last => exact absurd rfl (hl last)
  | _ => simp only [visible, ht]

variable [DecidableEq ι]

/-! ### No counter wraps -/

theorem pushed_add (h : History T) (ev : Event T) : h.pushed <+: (h.add c ev).pushed := by
  cases ev with
  | enqueued data pos => exact List.prefix_append _ _
  | _ => exact List.prefix_refl _

theorem small_back {a : LockFree.Action ι T} (h : (machine ι T c).step s a = some s')
    (hs : Small c s') : Small c s := by
  have hle : s.history.pushed.length ≤ s'.history.pushed.length := by
    cases a with
    | push t data =>
      simp only [machine] at h
      split at h
      · rw [← Option.some.inj h]
        exact le_refl _
      · cases h
    | pop t =>
      simp only [machine] at h
      split at h
      · rw [← Option.some.inj h]
        exact le_refl _
      · cases h
    | run t spurious =>
      rw [← Option.some.inj h]
      exact (pushed_add _ _).length_le
  unfold Small at hs ⊢
  omega

/-- A step wraps no counter. -/
theorem not_wrapped_run (hi : Inv c s) (hw : s.history.wrapped = false) (hs : Small c s) (t : ι)
    (spurious : Bool) : (s.run c t spurious).history.wrapped = false := by
  have hE := hi.core.enq
  have hD := hi.core.deq_le
  have h2 : sizeMod = 2 * 2 ^ 63 := by decide
  have hval := Capacity.two_le c
  unfold Small at hs
  cases ht : s.threads t with
  | pushTest data pos seq =>
    simp only [State.run, LockFree.run, ht]
    split_ifs with hd hcas
    · simp only [History.add, hw, Bool.false_or, decide_eq_false_iff_not, not_le]
      omega
    all_goals exact hw
  | popTest pos seq =>
    simp only [State.run, LockFree.run, ht]
    split_ifs with hd hcas
    · simp only [History.add, hw, Bool.false_or, decide_eq_false_iff_not, not_le]
      omega
    all_goals exact hw
  | popCopied pos data =>
    have hpos := (hi.core.reads_ok t pos (by simp [ht, reads])).1
    simp only [State.run, LockFree.run, ht, History.add, hw, Bool.false_or, decide_eq_false_iff_not,
      not_le]
    omega
  | _ => simpa only [State.run, LockFree.run, ht, History.add] using hw

theorem inv_of_small (h : (machine ι T c).Reach s) (hs : Small c s) : Inv c s := by
  suffices hall : Small c s → s.history.wrapped = false from reach_inv h (hall hs)
  refine Machine.ReachVia.invariant_of_reach (I := fun s => Small c s → s.history.wrapped = false) h
    (fun s h₀ _ => ?_) fun s a s' hr ih _ ha hs' => ?_
  · rw [h₀.2.2.2.2]
  · have hs := small_back ha hs'
    have hw := ih hs
    cases a with
    | push t data =>
      simp only [machine] at ha
      split at ha
      · rw [← Option.some.inj ha]
        exact hw
      · cases ha
    | pop t =>
      simp only [machine] at ha
      split at ha
      · rw [← Option.some.inj ha]
        exact hw
      · cases ha
    | run t spurious =>
      rw [← Option.some.inj ha]
      exact not_wrapped_run (reach_inv hr hw) hw hs t spurious

/-! ### Steps -/

/-- What a step of `t` that keeps the phases of the others does to the abstraction. -/
theorem fifo_update {q : LockFreeQueue T} {h : History T} {l : Local T}
    (hothers : ∀ u, u ≠ t → phase h.pushed (s.threads u) = phase s.history.pushed (s.threads u)) :
    fifo ⟨q, Function.update s.threads t l, h⟩ =
      ⟨h.pushed.drop q.dequeuePos, Function.update (fifo s).phase t (phase h.pushed l)⟩ := by
  have hphase : (fun u => phase h.pushed (Function.update s.threads t l u)) =
      Function.update (fifo s).phase t (phase h.pushed l) := by
    funext u
    by_cases hu : u = t
    · subst hu
      simp
    · rw [Function.update_of_ne hu, Function.update_of_ne hu]
      exact hothers u hu
  rw [fifo, hphase]

/-- A step that leaves the FIFO as it is. -/
theorem moves_goto {q : LockFreeQueue T} {h : History T} {l : Local T}
    {v : List (Visible ι (Op T) (Result T))} (hpushed : h.pushed = s.history.pushed)
    (hdeq : q.dequeuePos = s.queue.dequeuePos)
    (hmoves : Moves (Effect c.val) (fifo s) v
      ⟨(fifo s).object, Function.update (fifo s).phase t (phase s.history.pushed l)⟩) :
    Moves (Effect c.val) (fifo s) v (fifo ⟨q, Function.update s.threads t l, h⟩) := by
  rw [fifo_update fun u _ => by rw [hpushed], hpushed, hdeq]
  exact hmoves

/-- A step that is not seen and has no effect. -/
theorem moves_stutter {q : LockFreeQueue T} {h : History T} {l : Local T}
    (hpushed : h.pushed = s.history.pushed) (hdeq : q.dequeuePos = s.queue.dequeuePos)
    (hl : phase s.history.pushed l = phase s.history.pushed (s.threads t)) :
    Moves (Effect c.val) (fifo s) [] (fifo ⟨q, Function.update s.threads t l, h⟩) := by
  refine moves_goto hpushed hdeq (Or.inr ⟨rfl, ?_⟩)
  rw [hl]
  exact congrArg (Atomic.mk _) (Function.update_eq_self t (fifo s).phase)

/-- A push takes effect where it wins its ticket. -/
theorem moves_pushWin (hi : Inv c s) (hs : Small c s) {data : T} {seq : ℕ}
    (ht : s.threads t = .pushTest data s.queue.enqueuePos seq)
    (hd : diff seq s.queue.enqueuePos = 0)
    (hcalled : phase s.history.pushed (s.threads t) = .called (.push data)) (b : Bool) :
    Moves (Effect c.val) (fifo s) [] (fifo ⟨{ s.queue with enqueuePos := s.queue.enqueuePos + 1 },
      Function.update s.threads t (.pushWon data s.queue.enqueuePos),
      { s.history with wrapped := b, pushed := s.history.pushed ++ [data] }⟩) := by
  have hE := hi.core.enq
  have hD := hi.core.deq_le
  obtain ⟨-, hle⟩ : _ ∧ seq ≤ _ := ht ▸ hi.locals t
  have hsmall := sequence_small hi hs s.queue.enqueuePos
  have hseq : seq = s.queue.enqueuePos := by
    rw [diff_of_small (by omega) (by unfold Small at hs; omega)] at hd
    omega
  have hroom := (hi.core.free (hi.core.seq_eq_enq (hseq ▸ hle))).lt_deq
  have hlen : (fifo s).object.length = s.queue.enqueuePos - s.queue.dequeuePos := by
    rw [fifo, List.length_drop, hE]
  rw [fifo_update]
  · dsimp only
    rw [List.drop_append_of_le_length (by omega)]
    exact Or.inl (.effect t hcalled (.pushed data (by omega)))
  · intro u _
    cases hu : s.threads u with
    | popWon k =>
      have hk := (hi.core.reads_ok u k (by simp [hu, reads])).1
      rw [phase, phase, List.getElem?_append_left (by omega)]
    | _ => rfl

/-- A pop takes effect where it wins its ticket. -/
theorem moves_popWin (hi : Inv c s) (hs : Small c s) {seq : ℕ}
    (ht : s.threads t = .popTest s.queue.dequeuePos seq)
    (hd : diff seq (s.queue.dequeuePos + 1) = 0) (hlt : s.queue.dequeuePos + 1 < 2 ^ 63)
    (hcalled : phase s.history.pushed (s.threads t) = .called .pop) (b : Bool) :
    Moves (Effect c.val) (fifo s) [] (fifo ⟨{ s.queue with dequeuePos := s.queue.dequeuePos + 1 },
      Function.update s.threads t (.popWon s.queue.dequeuePos),
      { s.history with wrapped := b }⟩) := by
  obtain ⟨-, -, hle⟩ : _ ∧ _ ∧ seq ≤ _ := ht ▸ hi.locals t
  have hsmall := sequence_small hi hs s.queue.dequeuePos
  have hseq : seq = s.queue.dequeuePos + 1 := by
    rw [diff_of_small (by omega) hlt] at hd
    omega
  have hdata := (hi.core.held (hi.core.seq_eq_deq (hseq ▸ hle))).data
  obtain ⟨hget, hval⟩ := List.getElem?_eq_some_iff.mp hdata
  rw [fifo_update (h := { s.history with wrapped := b }) fun u _ => rfl]
  refine Or.inl ?_
  rw [phase, hdata]
  refine .effect t hcalled (.popped ?_)
  show s.history.pushed.drop s.queue.dequeuePos = _
  rw [List.drop_eq_getElem_cons hget, hval]

/-- **One step** of a thread is a step of the FIFO, or none. -/
theorem moves_run (hi : Inv c s) (hs : Small c s) (t : ι) (spurious : Bool) :
    Moves (Effect c.val) (fifo s) (visible c s (.run t spurious)) (fifo (s.run c t spurious)) := by
  have hE := hi.core.enq
  have hD := hi.core.deq_le
  have hlen : (fifo s).object.length = s.queue.enqueuePos - s.queue.dequeuePos := by
    rw [fifo, List.length_drop, hE]
  have hval := Capacity.two_le c
  have hl := hi.locals t
  have hphase : (fifo s).phase t = phase s.history.pushed (s.threads t) := rfl
  -- a thread that is behind its effect is not the one that comes to its effect
  have hne : ∀ {u : ι} {o o' : Op T} {r : Result T}, phase s.history.pushed (s.threads t) = .called o →
      (fifo s).phase u = .done o' r → u ≠ t := by
    rintro u o o' r hcalled hdone rfl
    rw [hphase, hcalled] at hdone
    cases hdone
  cases ht : s.threads t with
  | idle last =>
    simp only [visible, ht, State.run, LockFree.run, History.add]
    exact moves_stutter rfl rfl (by rw [ht])
  | pushEntry data =>
    rw [visible_run ht (by simp)]
    simp only [State.run, LockFree.run, ht, History.add]
    exact moves_stutter rfl rfl (by rw [ht]; rfl)
  | pushLoop data pos =>
    rw [ht] at hl
    rw [visible_run ht (by simp)]
    simp only [State.run, LockFree.run, ht, History.add]
    have hcalled : phase s.history.pushed (s.threads t) = .called (.push data) := by rw [ht]; rfl
    by_cases hneg : diff (s.queue.buffer (c.index pos)).sequence pos < 0
    · have hsmall := sequence_small hi hs pos
      have hpos : pos ≤ s.queue.enqueuePos := hl
      have hlt : (s.queue.buffer (c.index pos)).sequence < pos := by
        rw [diff_of_small hsmall (by unfold Small at hs; omega)] at hneg
        omega
      refine moves_goto rfl rfl (Or.inl ?_)
      rw [phase, if_pos hneg]
      refine .effect t hcalled (.full data ?_)
      rcases full_of_lt hi hpos hlt with hfull | ⟨u, v, hu⟩
      · exact Or.inl hfull
      · exact Or.inr ⟨u, v, hne hcalled hu, hu⟩
    · exact moves_stutter rfl rfl (by rw [hcalled, phase, if_neg hneg])
  | pushTest data pos seq =>
    rw [ht] at hl
    rw [visible_run ht (by simp)]
    simp only [State.run, LockFree.run, ht]
    split_ifs with hd hcas hneg
    · obtain ⟨rfl, -⟩ := hcas
      have hcalled : phase s.history.pushed (s.threads t) = .called (.push data) := by
        rw [ht, phase, if_neg (by omega)]
      rw [Nat.mod_eq_of_lt (by unfold Small at hs; unfold sizeMod; omega)]
      exact moves_pushWin hi hs ht hd hcalled _
    · exact moves_stutter rfl rfl (by rw [ht, phase, phase, if_neg (by omega)])
    · refine moves_goto rfl rfl (Or.inl (.ret t (o := .push data) ?_))
      rw [hphase, ht, phase, if_pos hneg]
    · exact moves_stutter rfl rfl (by rw [ht, phase, phase, if_neg hneg])
  | pushWon data pos =>
    rw [visible_run ht (by simp)]
    simp only [State.run, LockFree.run, ht, History.add]
    exact moves_stutter rfl rfl (by rw [ht]; rfl)
  | pushCopied data pos =>
    rw [visible_run ht (by simp)]
    simp only [State.run, LockFree.run, ht, History.add]
    exact moves_goto rfl rfl (Or.inl (.ret t (hphase.trans (by rw [ht]; rfl))))
  | popEntry =>
    rw [visible_run ht (by simp)]
    simp only [State.run, LockFree.run, ht, History.add]
    exact moves_stutter rfl rfl (by rw [ht]; rfl)
  | popLoop pos =>
    rw [ht] at hl
    rw [visible_run ht (by simp)]
    simp only [State.run, LockFree.run, ht, History.add]
    have hcalled : phase s.history.pushed (s.threads t) = .called .pop := by rw [ht]; rfl
    by_cases hneg : diff (s.queue.buffer (c.index pos)).sequence ((pos + 1) % sizeMod) < 0
    · have hpos : pos ≤ s.queue.dequeuePos := hl
      have hlt : (s.queue.buffer (c.index pos)).sequence < pos + 1 := by
        unfold Small at hs
        rw [Nat.mod_eq_of_lt (by unfold sizeMod; omega),
          diff_of_small (sequence_small hi hs pos) (by omega)] at hneg
        omega
      refine moves_goto rfl rfl (Or.inl ?_)
      rw [phase, if_pos hneg]
      refine .effect t hcalled (.empty ?_)
      rcases empty_of_lt hi hpos hlt with hnil | ⟨u, data, hu⟩
      · exact Or.inl hnil
      · exact Or.inr ⟨u, data, hne hcalled hu, hu⟩
    · exact moves_stutter rfl rfl (by rw [hcalled, phase, if_neg hneg])
  | popTest pos seq =>
    rw [visible_run ht (by simp)]
    simp only [State.run, LockFree.run, ht]
    split_ifs with hd hcas hneg
    · obtain ⟨rfl, -⟩ := hcas
      have hcalled : phase s.history.pushed (s.threads t) = .called .pop := by
        rw [ht, phase, if_neg (by omega)]
      have hlt : s.queue.dequeuePos + 1 < 2 ^ 63 := by unfold Small at hs; omega
      rw [Nat.mod_eq_of_lt (by unfold sizeMod; omega)] at hd ⊢
      exact moves_popWin hi hs ht hd hlt hcalled _
    · exact moves_stutter rfl rfl (by rw [ht, phase, phase, if_neg (by omega)])
    · refine moves_goto rfl rfl (Or.inl (.ret t (o := .pop) ?_))
      rw [hphase, ht, phase, if_pos hneg]
    · exact moves_stutter rfl rfl (by rw [ht, phase, phase, if_neg hneg])
  | popWon pos =>
    rw [visible_run ht (by simp)]
    simp only [State.run, LockFree.run, ht, History.add]
    have hh := hi.core.held (hi.core.reads_ok t pos (by simp [ht, reads])).2
    exact moves_stutter rfl rfl (by rw [ht, phase, phase, hh.data])
  | popCopied pos data =>
    rw [visible_run ht (by simp)]
    simp only [State.run, LockFree.run, ht, History.add]
    exact moves_goto rfl rfl (Or.inl (.ret t (hphase.trans (by rw [ht]; rfl))))

/-! ### Runs -/

/-- **Linearizability.** For any number of threads and any interleaving, the calls and returns of a run
are those of a run of the bounded FIFO, in which every call takes effect at one moment between its entry
and its return. -/
theorem linearizable (c : Capacity) {l : List (Visible ι (Op T) (Result T))}
    (h : ((machine ι T c).recorded (visible c)).Reach (s, l))
    (hs : s.history.pushed.length + c.val < 2 ^ 63) :
    Follows (Effect c.val) unused l (fifo s) := by
  refine follows_of_simulation (P := Small c) (fun s h₀ => ?_) (fun s a s' ha hs' => small_back ha hs')
    (fun s a s' hr ha hs' => ?_) h hs
  · obtain ⟨-, -, hdeq, hthreads, hhist⟩ := h₀
    simp [fifo, unused, hhist, hthreads, phase]
  · have hi := inv_of_small hr (small_back ha hs')
    cases a with
    | push t data =>
      simp only [machine] at ha
      split at ha
      · rename_i last ht
        rw [← Option.some.inj ha]
        exact moves_goto rfl rfl (Or.inl (.call t (Op.push data) (by simp [fifo, ht, phase])))
      · cases ha
    | pop t =>
      simp only [machine] at ha
      split at ha
      · rename_i last ht
        rw [← Option.some.inj ha]
        exact moves_goto rfl rfl (Or.inl (.call t Op.pop (by simp [fifo, ht, phase])))
      · cases ha
    | run t spurious =>
      obtain rfl := Option.some.inj ha
      exact moves_run hi (small_back ha hs') t spurious

/-- The calls and returns of two threads that push and pop at the same time. -/
def overlapping : List (Visible Bool (Op ℕ) (Result ℕ)) :=
  [.call true (.push 7), .call false .pop, .ret false (.popped none), .ret true (.pushed true),
    .call false .pop, .ret false (.popped (some 7))]

theorem linearizable_overlapping :
    ∃ s : State Bool ℕ, Follows (Effect twoNodes.val) unused overlapping (fifo s) :=
  have hrun : ((machine Bool ℕ twoNodes).recorded (visible twoNodes)).Reach
      ((((machine Bool ℕ twoNodes).recorded (visible twoNodes)).exec (constructed, [])
        pushAndPop).get (by decide)) :=
    Machine.Reach.exec (s := (constructed, [])) pushAndPop
      (Machine.ReachVia.of_init ⟨⟨fun _ _ => rfl, rfl, rfl, fun _ => rfl, rfl⟩, rfl⟩) (by simp)
  ⟨_, linearizable twoNodes (l := overlapping) hrun (by decide)⟩

end Pacsni.Queue.Linear
