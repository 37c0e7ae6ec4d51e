import Pacsni.Queue.Linear

/-! # Progress of the queue

A call goes round its loop again only after a spurious failure of the compare-exchange, or after
another call of its own kind has taken the position that it has loaded. So the steps of a call are at
most five, and two more for each of these. A thread that stands still anywhere, even between the two
stores of its call, holds nobody else up. -/

namespace Pacsni.Queue.Progress

open Pacsni.Lib.Runs Pacsni.Queue.LockFree Pacsni.Queue.Invariant Pacsni.Queue.Linear

variable {ι T : Type*}

/-! ### What a call still has to do -/

/-- Where a call begins. -/
def entry : Op T → Local T
  | .push data => .pushEntry data
  | .pop => .popEntry

/-- The call that a thread is in. -/
def call : Local T → Option (Op T)
  | .idle _ => none
  | .pushEntry data => some (.push data)
  | .pushLoop data _ => some (.push data)
  | .pushTest data _ _ => some (.push data)
  | .pushWon data _ => some (.push data)
  | .pushCopied data _ => some (.push data)
  | .popEntry => some .pop
  | .popLoop _ => some .pop
  | .popTest _ _ => some .pop
  | .popWon _ => some .pop
  | .popCopied _ _ => some .pop

/-- The position that a call increments. -/
def position (q : LockFreeQueue T) : Op T → ℕ
  | .push _ => q.enqueuePos
  | .pop => q.dequeuePos

/-- The steps to the return, if nothing gets in the way. -/
def left : Local T → ℕ
  | .idle _ => 0
  | .pushEntry _ => 5
  | .pushLoop _ _ => 4
  | .pushTest _ _ _ => 3
  | .pushWon _ _ => 2
  | .pushCopied _ _ => 1
  | .popEntry => 5
  | .popLoop _ => 4
  | .popTest _ _ => 3
  | .popWon _ => 2
  | .popCopied _ _ => 1

/-- The position that has been loaded is no longer that of the queue. -/
def behind (q : LockFreeQueue T) : Local T → ℕ
  | .pushLoop _ pos => if pos < q.enqueuePos then 1 else 0
  | .pushTest _ pos _ => if pos < q.enqueuePos then 1 else 0
  | .popLoop pos => if pos < q.dequeuePos then 1 else 0
  | .popTest pos _ => if pos < q.dequeuePos then 1 else 0
  | _ => 0

/-- The call has won a ticket. -/
def won : Local T → ℕ
  | .idle (some (.pushed true)) => 1
  | .idle (some (.popped (some _))) => 1
  | .pushWon _ _ => 1
  | .pushCopied _ _ => 1
  | .popWon _ => 1
  | .popCopied _ _ => 1
  | _ => 0

/-- An upper bound of the steps to the return, if nobody else moves; a ticket counts where it is won. -/
def work (q : LockFreeQueue T) (l : Local T) : ℕ := left l + 2 * behind q l + 2 * won l

theorem work_entry (q : LockFreeQueue T) (o : Op T) : work q (entry o) = 5 := by
  cases o <;> rfl

/-! ### Steps of others -/

/-- A position only grows. -/
structure Grows (q q' : LockFreeQueue T) : Prop where
  enq : q.enqueuePos ≤ q'.enqueuePos
  deq : q.dequeuePos ≤ q'.dequeuePos

theorem Grows.position {q q' : LockFreeQueue T} (hg : Grows q q') (o : Op T) :
    position q o ≤ position q' o := by
  cases o with
  | push data => exact hg.enq
  | pop => exact hg.deq

/-- Whoever else moves, a call falls behind by what the position of its own kind moves. -/
theorem Grows.work {q q' : LockFreeQueue T} (hg : Grows q q') {l : Local T} {o : Op T}
    (hl : call l = some o) :
    work q' l + 2 * Progress.position q o ≤ Progress.work q l + 2 * Progress.position q' o := by
  have hE := hg.enq
  have hD := hg.deq
  cases l with
  | idle last => cases hl
  | pushLoop data pos =>
    obtain rfl := Option.some.inj hl
    simp only [Progress.work, behind, Progress.position]
    split_ifs <;> omega
  | pushTest data pos seq =>
    obtain rfl := Option.some.inj hl
    simp only [Progress.work, behind, Progress.position]
    split_ifs <;> omega
  | popLoop pos =>
    obtain rfl := Option.some.inj hl
    simp only [Progress.work, behind, Progress.position]
    split_ifs <;> omega
  | popTest pos seq =>
    obtain rfl := Option.some.inj hl
    simp only [Progress.work, behind, Progress.position]
    split_ifs <;> omega
  | _ => exact Nat.add_le_add_left (Nat.mul_le_mul_left 2 (hg.position o)) _

variable {c : Capacity} {s s' : State ι T} {t : ι} {o : Op T}

theorem position_small (hi : Inv c s) (hs : Linear.Small c s) (o : Op T) :
    position s.queue o + 1 < 2 ^ 63 := by
  have hE := hi.core.enq
  have hD := hi.core.deq_le
  have hval := Capacity.two_le c
  unfold Linear.Small at hs
  cases o with
  | push data => exact show s.queue.enqueuePos + 1 < _ by omega
  | pop => exact show s.queue.dequeuePos + 1 < _ by omega

/-- What a step does to the positions. -/
theorem grows_run (hi : Inv c s) (hs : Linear.Small c s) (spurious : Bool) (l : Local T) :
    Grows s.queue (LockFree.run c spurious s.queue l).1 := by
  cases l with
  | pushTest data pos seq =>
    have hsmall : s.queue.enqueuePos + 1 < 2 ^ 63 := position_small hi hs (.push data)
    simp only [LockFree.run]
    split_ifs with hd hcas
    · refine ⟨?_, le_rfl⟩
      rw [← hcas.1, Nat.mod_eq_of_lt (by unfold sizeMod; omega)]
      exact Nat.le_succ _
    all_goals exact ⟨le_rfl, le_rfl⟩
  | popTest pos seq =>
    have hsmall : s.queue.dequeuePos + 1 < 2 ^ 63 := position_small hi hs (.pop : Op T)
    simp only [LockFree.run]
    split_ifs with hd hcas
    · refine ⟨le_rfl, ?_⟩
      rw [← hcas.1, Nat.mod_eq_of_lt (by unfold sizeMod; omega)]
      exact Nat.le_succ _
    all_goals exact ⟨le_rfl, le_rfl⟩
  | _ => exact ⟨le_rfl, le_rfl⟩

/-! ### Steps of the call -/

/-- A push whose sequence number says that its ticket is taken is behind. -/
theorem lt_enq_of_pos (hi : Inv c s) (hs : Linear.Small c s) {data : T} {pos seq : ℕ}
    (ht : s.threads t = .pushTest data pos seq) (hd : 0 < diff seq pos) :
    pos < s.queue.enqueuePos := by
  obtain ⟨hpos, hseq⟩ : pos ≤ _ ∧ seq ≤ _ := ht ▸ hi.locals t
  have hsmall := sequence_small hi hs pos
  have hpsmall : s.queue.enqueuePos + 1 < 2 ^ 63 := position_small hi hs (.push data)
  rw [diff_of_small (by omega) (by omega)] at hd
  refine Nat.lt_of_le_of_ne hpos fun heq => ?_
  subst heq
  have := hi.core.seq_eq_enq (by omega)
  omega

/-- A pop whose sequence number says that its ticket is taken is behind. -/
theorem lt_deq_of_pos (hi : Inv c s) (hs : Linear.Small c s) {pos seq : ℕ}
    (ht : s.threads t = .popTest pos seq) (hd : 0 < diff seq ((pos + 1) % sizeMod)) :
    pos < s.queue.dequeuePos := by
  obtain ⟨hpos, -, hseq⟩ : pos ≤ _ ∧ _ ∧ seq ≤ _ := ht ▸ hi.locals t
  have hsmall := sequence_small hi hs pos
  have hpsmall : s.queue.dequeuePos + 1 < 2 ^ 63 := position_small hi hs (.pop : Op T)
  rw [Nat.mod_eq_of_lt (by unfold sizeMod; omega), diff_of_small (by omega) (by omega)] at hd
  refine Nat.lt_of_le_of_ne hpos fun heq => ?_
  subst heq
  have := hi.core.seq_eq_deq (by omega)
  omega

/-- **One step of the call** takes from its work, but for a spurious failure and for the position that
it increments itself. -/
theorem work_run (hi : Inv c s) (hs : Linear.Small c s) (hcall : call (s.threads t) = some o) (spurious : Bool) :
    1 + work (LockFree.run c spurious s.queue (s.threads t)).1
        (LockFree.run c spurious s.queue (s.threads t)).2.1 + 2 * position s.queue o ≤
      work s.queue (s.threads t) +
        2 * position (LockFree.run c spurious s.queue (s.threads t)).1 o + 2 * spurious.toNat := by
  have hl := hi.locals t
  cases ht : s.threads t with
  | idle last => rw [ht] at hcall; cases hcall
  | pushTest data pos seq =>
    rw [ht] at hcall hl
    obtain rfl := Option.some.inj hcall
    have hsmall : s.queue.enqueuePos + 1 < 2 ^ 63 := position_small hi hs (.push data)
    have hpos : pos ≤ s.queue.enqueuePos := hl.1
    have hbehind := lt_enq_of_pos hi hs ht
    simp only [LockFree.run]
    split_ifs with hd hcas hneg
    · obtain ⟨rfl, rfl⟩ := hcas
      simp only [work, left, behind, won, position]
      rw [Nat.mod_eq_of_lt (by unfold sizeMod; omega)]
      simp only [Bool.toNat_false]
      omega
    · simp only [work, left, behind, won, position]
      cases spurious with
      | true => simp; omega
      | false =>
        have hne : s.queue.enqueuePos ≠ pos := fun heq => hcas ⟨heq, rfl⟩
        rw [if_neg (lt_irrefl _), if_pos (by omega)]
        omega
    · simp only [work, left, behind, won]
      omega
    · simp only [work, left, behind, won]
      rw [if_neg (lt_irrefl _), if_pos (hbehind (by omega))]
      omega
  | popTest pos seq =>
    rw [ht] at hcall hl
    obtain rfl := Option.some.inj hcall
    have hsmall : s.queue.dequeuePos + 1 < 2 ^ 63 := position_small hi hs (.pop : Op T)
    have hpos : pos ≤ s.queue.dequeuePos := hl.1
    have hbehind := lt_deq_of_pos hi hs ht
    simp only [LockFree.run]
    split_ifs with hd hcas hneg
    · obtain ⟨rfl, rfl⟩ := hcas
      simp only [work, left, behind, won, position]
      rw [Nat.mod_eq_of_lt (by unfold sizeMod; omega)]
      simp only [Bool.toNat_false]
      omega
    · simp only [work, left, behind, won, position]
      cases spurious with
      | true => simp; omega
      | false =>
        have hne : s.queue.dequeuePos ≠ pos := fun heq => hcas ⟨heq, rfl⟩
        rw [if_neg (lt_irrefl _), if_pos (by omega)]
        omega
    · simp only [work, left, behind, won]
      omega
    · simp only [work, left, behind, won]
      rw [if_neg (lt_irrefl _), if_pos (hbehind (by omega))]
      omega
  | pushLoop data pos =>
    rw [ht] at hcall
    obtain rfl := Option.some.inj hcall
    simp only [LockFree.run]
    simp only [work, left, behind, won, position]
    omega
  | popLoop pos =>
    rw [ht] at hcall
    obtain rfl := Option.some.inj hcall
    simp only [LockFree.run]
    simp only [work, left, behind, won, position]
    omega
  | _ =>
    rw [ht] at hcall
    obtain rfl := Option.some.inj hcall
    simp only [LockFree.run, LockFreeQueue.setNode, work, left, behind, won, position, lt_irrefl,
      if_false]
    omega

/-- A call moves the position by the ticket that it wins. -/
theorem position_run (hi : Inv c s) (hs : Linear.Small c s) (hcall : call (s.threads t) = some o)
    (spurious : Bool) :
    position (LockFree.run c spurious s.queue (s.threads t)).1 o + won (s.threads t) =
      position s.queue o + won (LockFree.run c spurious s.queue (s.threads t)).2.1 := by
  cases ht : s.threads t with
  | idle last => rw [ht] at hcall; cases hcall
  | pushTest data pos seq =>
    rw [ht] at hcall
    obtain rfl := Option.some.inj hcall
    have hsmall : s.queue.enqueuePos + 1 < 2 ^ 63 := position_small hi hs (.push data)
    simp only [LockFree.run]
    split_ifs with hd hcas
    · obtain ⟨rfl, -⟩ := hcas
      exact Nat.mod_eq_of_lt (hsmall.trans_le (by decide))
    all_goals rfl
  | popTest pos seq =>
    rw [ht] at hcall
    obtain rfl := Option.some.inj hcall
    have hsmall : s.queue.dequeuePos + 1 < 2 ^ 63 := position_small hi hs (.pop : Op T)
    simp only [LockFree.run]
    split_ifs with hd hcas
    · obtain ⟨rfl, -⟩ := hcas
      exact Nat.mod_eq_of_lt (hsmall.trans_le (by decide))
    all_goals rfl
  | _ =>
    rw [ht] at hcall
    obtain rfl := Option.some.inj hcall
    rfl

/-! ### Whole calls -/

variable [DecidableEq ι]

/-- A step of `t`. -/
def isRun (t : ι) : LockFree.Action ι T → Bool
  | .run u _ => u = t
  | _ => false

/-- A step of `t` in which a compare-exchange fails spuriously. -/
def isFailure (t : ι) : LockFree.Action ι T → Bool
  | .run u spurious => u = t && spurious
  | _ => false

/-- The thread `t` is in the call `o`. -/
def In (t : ι) (o : Op T) (s : State ι T) (_ : LockFree.Action ι T) : Prop :=
  call (s.threads t) = some o

/-- The tickets of the kind of `o` that others than `t` have won from `s` to `s'`. -/
def others (s s' : State ι T) (t : ι) (o : Op T) : ℕ :=
  position s'.queue o - position s.queue o - won (s'.threads t)

/-- **One action**, of whichever thread, while `t` is in the call `o`. -/
theorem work_step {a : LockFree.Action ι T} (hi : Inv c s) (hs : Linear.Small c s) (hin : In t o s a)
    (ha : (machine ι T c).step s a = some s') :
    (isRun t a).toNat + work s'.queue (s'.threads t) + 2 * position s.queue o ≤
      work s.queue (s.threads t) + 2 * position s'.queue o + 2 * (isFailure t a).toNat := by
  -- an entry of another thread
  have hentry : ∀ (u : ι) (l : Local T), (∃ last, s.threads u = .idle last) → s' = s.goto u l →
      work s'.queue (s'.threads t) + 2 * position s.queue o ≤
        work s.queue (s.threads t) + 2 * position s'.queue o := by
    rintro u l ⟨last, hu⟩ rfl
    have hne : t ≠ u := by
      rintro rfl
      rw [In, hu] at hin
      cases hin
    simp only [State.goto, Function.update_of_ne hne, le_refl]
  cases a with
  | push u data =>
    simp only [machine] at ha
    split at ha
    · rename_i last hu
      simpa [isRun, isFailure] using hentry u _ ⟨last, hu⟩ (Option.some.inj ha).symm
    · cases ha
  | pop u =>
    simp only [machine] at ha
    split at ha
    · rename_i last hu
      simpa [isRun, isFailure] using hentry u _ ⟨last, hu⟩ (Option.some.inj ha).symm
    · cases ha
  | run u spurious =>
    obtain rfl := Option.some.inj ha
    by_cases hu : u = t
    · subst hu
      have hrun := work_run hi hs hin spurious
      simpa [isRun, isFailure, State.run] using hrun
    · have hwork := (grows_run hi hs spurious (s.threads u)).work hin
      simpa [isRun, isFailure, State.run, hu, Function.update_of_ne (Ne.symm hu)] using hwork

theorem small_exec (as : List (LockFree.Action ι T)) : ∀ {s : State ι T},
    (machine ι T c).exec s as = some s' → Linear.Small c s' → Linear.Small c s := by
  induction as with
  | nil =>
    intro s he hs
    obtain rfl := Option.some.inj he
    exact hs
  | cons a as ih =>
    intro s he hs
    obtain ⟨s₁, ha, he⟩ := Option.bind_eq_some_iff.mp he
    exact small_back ha (ih he hs)

/-- **A run** while `t` is in the call `o`. -/
theorem work_exec (as : List (LockFree.Action ι T)) : ∀ {s : State ι T},
    (machine ι T c).Reach s → (machine ι T c).Along (In t o) s as →
    (machine ι T c).exec s as = some s' → Linear.Small c s' →
    as.countP (isRun t) + work s'.queue (s'.threads t) + 2 * position s.queue o ≤
      work s.queue (s.threads t) + 2 * position s'.queue o + 2 * as.countP (isFailure t) := by
  induction as with
  | nil =>
    intro s _ _ he _
    obtain rfl := Option.some.inj he
    simp
  | cons a as ih =>
    intro s hr hal he hs
    obtain ⟨s₁, ha, he⟩ := Option.bind_eq_some_iff.mp he
    obtain ⟨hin, hal⟩ := hal
    rw [ha] at hal
    have hrest := ih (hr.next trivial ha) hal he hs
    have hsmall : Linear.Small c s := small_back ha (small_exec as he hs)
    have hone := work_step (inv_of_small hr hsmall) hsmall hin ha
    rw [List.countP_cons, List.countP_cons]
    have hcount : ∀ b : Bool, (if b then 1 else 0) = b.toNat := by decide
    rw [hcount, hcount]
    omega

/-- Where only `t` moves, the position moves by its own ticket. -/
theorem position_exec (as : List (LockFree.Action ι T)) : ∀ {s : State ι T},
    (machine ι T c).Reach s → (machine ι T c).Along (In t o) s as →
    (∀ a ∈ as, isRun t a = true) → (machine ι T c).exec s as = some s' → Linear.Small c s' →
    position s'.queue o + won (s.threads t) = position s.queue o + won (s'.threads t) := by
  induction as with
  | nil =>
    intro s _ _ _ he _
    obtain rfl := Option.some.inj he
    rfl
  | cons a as ih =>
    intro s hr hal hall he hs
    obtain ⟨s₁, ha, he⟩ := Option.bind_eq_some_iff.mp he
    obtain ⟨hin, hal⟩ := hal
    rw [ha] at hal
    have hrest := ih (hr.next trivial ha) hal (fun b hb => hall b (List.mem_cons_of_mem _ hb)) he hs
    have hsmall : Linear.Small c s := small_back ha (small_exec as he hs)
    cases a with
    | push u data => exact absurd (hall _ List.mem_cons_self) (by simp [isRun])
    | pop u => exact absurd (hall _ List.mem_cons_self) (by simp [isRun])
    | run u spurious =>
      obtain rfl : u = t := by simpa [isRun] using hall _ List.mem_cons_self
      obtain rfl := Option.some.inj ha
      have hone := position_run (inv_of_small hr hsmall) hsmall hin spurious
      simp only [State.run, Function.update_self] at hrest
      omega

/-- Where only `t` moves, others win nothing. -/
theorem others_alone (hr : (machine ι T c).Reach s) (hentry : s.threads t = entry o)
    {as : List (LockFree.Action ι T)} (hal : (machine ι T c).Along (In t o) s as)
    (he : (machine ι T c).exec s as = some s') (hs : Linear.Small c s')
    (hall : ∀ a ∈ as, isRun t a = true) : others s s' t o = 0 := by
  have hpos := position_exec as hr hal hall he hs
  have hwon : won (entry o) = 0 := by cases o <;> rfl
  rw [hentry, hwon] at hpos
  unfold others
  omega

/-- **Lock freedom.** Whatever the other threads do, and wherever they stand still, a call takes at most
five steps, and two more for each ticket of its kind that another thread wins meanwhile and for each
spurious failure. A thread that runs alone returns after five steps and two for each spurious failure. -/
theorem lock_free (hr : (machine ι T c).Reach s) (hentry : s.threads t = entry o)
    {as : List (LockFree.Action ι T)} (hal : (machine ι T c).Along (In t o) s as)
    (he : (machine ι T c).exec s as = some s') (hs : s'.history.pushed.length + c.val < 2 ^ 63) :
    as.countP (isRun t) ≤ 5 + 2 * others s s' t o + 2 * as.countP (isFailure t) ∧
      ((∀ a ∈ as, isRun t a = true) → as.length ≤ 5 + 2 * as.countP (isFailure t)) := by
  have hwork := work_exec as hr hal he hs
  rw [hentry, work_entry] at hwork
  unfold work at hwork
  have hsteps : as.countP (isRun t) ≤ 5 + 2 * others s s' t o + 2 * as.countP (isFailure t) := by
    unfold others
    omega
  refine ⟨hsteps, fun hall => ?_⟩
  rw [others_alone hr hentry hal he hs hall, List.countP_eq_length.mpr hall] at hsteps
  omega

/-- The steps of a push between whose load and compare-exchange another one wins the ticket. -/
def overtaken : List (LockFree.Action Bool ℕ) :=
  [.run true false, .push false 8, .run true false, .run false false, .run false false,
    .run false false, .run true false, .run true false, .run true false, .run true false,
    .run true false]

theorem lock_free_overtaken : ∃ s s' : State Bool ℕ, others s s' true (.push 7) = 1 ∧
    overtaken.countP (isRun true) = 7 ∧
      (overtaken.countP (isRun true) ≤
          5 + 2 * others s s' true (.push 7) + 2 * overtaken.countP (isFailure true) ∧
        ((∀ a ∈ overtaken, isRun true a = true) →
          overtaken.length ≤ 5 + 2 * overtaken.countP (isFailure true))) :=
  have hentered : (machine Bool ℕ twoNodes).Reach (constructed.goto true (.pushEntry 7)) :=
    Machine.Reach.exec (s := constructed) [.push true 7]
      (Machine.ReachVia.of_init ⟨fun _ _ => rfl, rfl, rfl, fun _ => rfl, rfl⟩) rfl
  ⟨_, ((machine Bool ℕ twoNodes).exec (constructed.goto true (.pushEntry 7)) overtaken).get (by decide),
    by decide, by decide, lock_free (o := .push 7) (c := twoNodes) hentered rfl
      ⟨rfl, rfl, rfl, rfl, rfl, rfl, rfl, rfl, rfl, rfl, rfl, trivial⟩ (by simp) (by decide)⟩

end Pacsni.Queue.Progress
