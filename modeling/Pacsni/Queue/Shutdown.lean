import Pacsni.Lib.Runs

/-! # From the capture to the sender, and how it ends

The capture thread pushes raw packets into `raw_queue`, the workers move them as dissected records to
`dissected_queue`, the sender sends them. The queues are bounded FIFO channels. A record stands for the
raw packet it was made from, so packets are followed by their identity. Workers and sender test
`keep_running` each on their own: behind their running phase they drain their queue and terminate.

Nothing gets lost beyond three kinds of steps (`Careful` excludes them): a worker that gives up a record
because the flag is cleared while `dissected_queue` is full, a record pushed behind the end of the
sender, and a raw packet accepted behind the end of all workers. -/

namespace Pacsni.Queue.Shutdown

open Pacsni.Lib.Runs

/-- The capacity of both queues. -/
def queueCapacity : ℕ := 8192

/-- Where `main` is: in `pcap_loop`, behind it, behind the clearing of `keep_running`. -/
inductive Capture
  | inLoop
  | behindLoop
  | cleared

/-- Where a worker is in `worker_thread_main`. -/
inductive Worker (P : Type*)
  | check
  | pop
  | push (p : P)
  | retry (p : P)
  | drainPop
  | drainPush (p : P)
  | done

/-- Where the sender is in `sender_thread_main`. -/
inductive Sender (P : Type*)
  | check
  | pop
  | send (p : P)
  | drainPop
  | drainSend (p : P)
  | done

/-- The state of the process, with a history of what happened to the packets. -/
structure State (ι P : Type*) where
  keepRunning : Bool
  capture : Capture
  raw : List P
  dissected : List P
  workers : ι → Worker P
  sender : Sender P
  /-- The packets that `raw_queue.push` has accepted. -/
  accepted : List P
  /-- The packets that `send_packet_info` was called with. -/
  sent : List P
  /-- The packets that a worker has given up. -/
  lost : List P

/-- The threads start behind `main`'s creation of them. -/
def Init {ι P : Type*} (s : State ι P) : Prop :=
  s = ⟨true, .inLoop, [], [], fun _ => .check, .check, [], [], []⟩

/-- Steps of the capture thread (`capture`, `leaveLoop`, `clear`), the signal handler, a worker, the
sender. -/
inductive Action (ι P : Type*)
  | capture (p : P)
  | leaveLoop
  | clear
  | signal
  | worker (w : ι)
  | sender

variable {ι P : Type*} [DecidableEq ι]

/-- A step of the worker `w`. -/
def stepWorker (s : State ι P) (w : ι) : Option (State ι P) :=
  let goto (x : Worker P) (s : State ι P) : Option (State ι P) :=
    some { s with workers := Function.update s.workers w x }
  match s.workers w with
  | .check => goto (if s.keepRunning then .pop else .drainPop) s
  | .pop => match s.raw with
    | [] => goto .check s
    | p :: rest => goto (.push p) { s with raw := rest }
  | .push p =>
    if s.dissected.length < queueCapacity then
      goto .check { s with dissected := s.dissected ++ [p] }
    else goto (.retry p) s
  | .retry p =>
    if s.keepRunning then goto (.push p) s else goto .check { s with lost := s.lost ++ [p] }
  | .drainPop => match s.raw with
    | [] => goto .done s
    | p :: rest => goto (.drainPush p) { s with raw := rest }
  | .drainPush p =>
    if s.dissected.length < queueCapacity then
      goto .drainPop { s with dissected := s.dissected ++ [p] }
    else goto (.drainPush p) s
  | .done => none

/-- A step of the sender. -/
def stepSender (s : State ι P) : Option (State ι P) :=
  match s.sender with
  | .check => some { s with sender := if s.keepRunning then .pop else .drainPop }
  | .pop => match s.dissected with
    | [] => some { s with sender := .check }
    | p :: rest => some { s with dissected := rest, sender := .send p }
  | .send p => some { s with sent := s.sent ++ [p], sender := .check }
  | .drainPop => match s.dissected with
    | [] => some { s with sender := .done }
    | p :: rest => some { s with dissected := rest, sender := .drainSend p }
  | .drainSend p => some { s with sent := s.sent ++ [p], sender := .drainPop }
  | .done => none

/-- A packet arrives at `packet_handler`, which pushes it and ignores the result. -/
def stepCapture (s : State ι P) (p : P) : State ι P :=
  if s.raw.length < queueCapacity then
    { s with raw := s.raw ++ [p], accepted := s.accepted ++ [p] }
  else s

/-- The process. `pcap_loop` can end at any time (a signal, an error). -/
def machine (ι P : Type*) [DecidableEq ι] : Machine (State ι P) (Action ι P) where
  init := Init
  step s
    | .capture p => match s.capture with
      | .inLoop => some (stepCapture s p)
      | _ => none
    | .leaveLoop => match s.capture with
      | .inLoop => some { s with capture := .behindLoop }
      | _ => none
    | .clear => match s.capture with
      | .behindLoop => some { s with keepRunning := false, capture := .cleared }
      | _ => none
    | .signal => some { s with keepRunning := false }
    | .worker w => stepWorker s w
    | .sender => stepSender s

/-- All workers and the sender have terminated. -/
def Terminated (s : State ι P) : Prop := (∀ w, s.workers w = .done) ∧ s.sender = .done

/-! ### What a step can do -/

/-- The packet that a worker is carrying. -/
def Worker.hand : Worker P → Multiset P
  | .push p => {p}
  | .retry p => {p}
  | .drainPush p => {p}
  | _ => 0

/-- The packet that the sender is carrying. -/
def Sender.hand : Sender P → Multiset P
  | .send p => {p}
  | .drainSend p => {p}
  | _ => 0

theorem coe_concat (l : List P) (p : P) : ((l ++ [p] : List P) : Multiset P) = l + {p} := by
  rw [← Multiset.coe_add, Multiset.coe_singleton]

theorem coe_cons (l : List P) (p : P) : ((p :: l : List P) : Multiset P) = {p} + l := by
  rw [← Multiset.cons_coe, Multiset.singleton_add]

/-- What a worker's step can do: it moves packets between the queues, its hand and the lost ones. It
ends only behind an empty `raw_queue`. -/
structure WorkerMove (s : State ι P) (w : ι) (x : Worker P) (raw dissected lost : List P) : Prop where
  move : (raw : Multiset P) + x.hand + dissected + lost =
    s.raw + (s.workers w).hand + s.dissected + s.lost
  ends : x = .done → raw = []
  pushes : dissected = s.dissected ∨ s.dissected.length < queueCapacity ∧
    ∃ p, s.workers w = .push p ∨ s.workers w = .drainPush p
  loses : lost = s.lost ∨ s.keepRunning = false ∧ ∃ p, s.workers w = .retry p

theorem stepWorker_cases {s s' : State ι P} {w : ι} (h : stepWorker s w = some s') :
    ∃ x raw dissected lost, WorkerMove s w x raw dissected lost ∧ s' = { s with
      raw := raw, dissected := dissected, lost := lost, workers := Function.update s.workers w x } := by
  unfold stepWorker at h
  cases hw : s.workers w with
  | check =>
    simp only [hw, Option.some.injEq] at h
    refine ⟨_, _, _, _, ⟨?_, ?_, Or.inl rfl, Or.inl rfl⟩, h.symm⟩
    · cases s.keepRunning <;> simp [hw, Worker.hand]
    · cases s.keepRunning <;> simp
  | pop =>
    cases hr : s.raw with
    | nil =>
      simp only [hw, hr, Option.some.injEq] at h
      refine ⟨_, _, _, _, ⟨?_, ?_, Or.inl rfl, Or.inl rfl⟩, h.symm⟩
      · rw [hw, hr]; rfl
      · simp
    | cons p rest =>
      simp only [hw, hr, Option.some.injEq] at h
      refine ⟨_, _, _, _, ⟨?_, ?_, Or.inl rfl, Or.inl rfl⟩, h.symm⟩
      · rw [hw, hr, coe_cons]
        simp only [Worker.hand]
        abel
      · simp
  | push p =>
    simp only [hw] at h
    split_ifs at h with hroom
    · refine ⟨_, _, _, _, ⟨?_, ?_, Or.inr ⟨hroom, p, Or.inl hw⟩, Or.inl rfl⟩,
        (Option.some.inj h).symm⟩
      · rw [hw, coe_concat]
        simp only [Worker.hand]
        abel
      · simp
    · refine ⟨_, _, _, _, ⟨?_, ?_, Or.inl rfl, Or.inl rfl⟩, (Option.some.inj h).symm⟩
      · rw [hw]; rfl
      · simp
  | retry p =>
    simp only [hw] at h
    split_ifs at h with hrun
    · refine ⟨_, _, _, _, ⟨?_, ?_, Or.inl rfl, Or.inl rfl⟩, (Option.some.inj h).symm⟩
      · rw [hw]; rfl
      · simp
    · refine ⟨_, _, _, _, ⟨?_, ?_, Or.inl rfl, Or.inr ⟨by simpa using hrun, p, hw⟩⟩,
        (Option.some.inj h).symm⟩
      · rw [hw, coe_concat]
        simp only [Worker.hand]
        abel
      · simp
  | drainPop =>
    cases hr : s.raw with
    | nil =>
      simp only [hw, hr, Option.some.injEq] at h
      refine ⟨_, _, _, _, ⟨?_, fun _ => rfl, Or.inl rfl, Or.inl rfl⟩, h.symm⟩
      rw [hw, hr]; rfl
    | cons p rest =>
      simp only [hw, hr, Option.some.injEq] at h
      refine ⟨_, _, _, _, ⟨?_, ?_, Or.inl rfl, Or.inl rfl⟩, h.symm⟩
      · rw [hw, hr, coe_cons]
        simp only [Worker.hand]
        abel
      · simp
  | drainPush p =>
    simp only [hw] at h
    split_ifs at h with hroom
    · refine ⟨_, _, _, _, ⟨?_, ?_, Or.inr ⟨hroom, p, Or.inr hw⟩, Or.inl rfl⟩,
        (Option.some.inj h).symm⟩
      · rw [hw, coe_concat]
        simp only [Worker.hand]
        abel
      · simp
    · refine ⟨_, _, _, _, ⟨?_, ?_, Or.inl rfl, Or.inl rfl⟩, (Option.some.inj h).symm⟩
      · rw [hw]
      · simp
  | done => simp [hw] at h

omit [DecidableEq ι] in
/-- What the sender's step can do: it moves packets between `dissected_queue`, its hand and the sent
ones. It ends only behind an empty `dissected_queue`. -/
theorem stepSender_cases {s s' : State ι P} (h : stepSender s = some s') :
    ∃ (x : Sender P) (dissected sent : List P), ((dissected : Multiset P) + x.hand + sent =
      s.dissected + s.sender.hand + s.sent) ∧ (x = .done → dissected = []) ∧
      s' = { s with dissected := dissected, sender := x, sent := sent } := by
  unfold stepSender at h
  cases hx : s.sender with
  | check =>
    simp only [hx, Option.some.injEq] at h
    refine ⟨_, _, _, ?_, ?_, h.symm⟩
    · cases s.keepRunning <;> simp [Sender.hand]
    · cases s.keepRunning <;> simp
  | pop =>
    cases hd : s.dissected with
    | nil =>
      simp only [hx, hd, Option.some.injEq] at h
      refine ⟨_, _, _, ?_, ?_, h.symm⟩
      · rfl
      · simp
    | cons p rest =>
      simp only [hx, hd, Option.some.injEq] at h
      refine ⟨_, _, _, ?_, ?_, h.symm⟩
      · rw [coe_cons]
        simp only [Sender.hand]
        abel
      · simp
  | send p =>
    simp only [hx, Option.some.injEq] at h
    refine ⟨_, _, _, ?_, ?_, h.symm⟩
    · rw [coe_concat]
      simp only [Sender.hand]
      abel
    · simp
  | drainPop =>
    cases hd : s.dissected with
    | nil =>
      simp only [hx, hd, Option.some.injEq] at h
      refine ⟨_, _, _, ?_, fun _ => rfl, h.symm⟩
      rfl
    | cons p rest =>
      simp only [hx, hd, Option.some.injEq] at h
      refine ⟨_, _, _, ?_, ?_, h.symm⟩
      · rw [coe_cons]
        simp only [Sender.hand]
        abel
      · simp
  | drainSend p =>
    simp only [hx, Option.some.injEq] at h
    refine ⟨_, _, _, ?_, ?_, h.symm⟩
    · rw [coe_concat]
      simp only [Sender.hand]
      abel
    · simp
  | done => simp [hx] at h

/-- The step is none of the three that lose packets: accepting a raw packet when all workers have
terminated, pushing a record when the sender has terminated, giving up a record because the flag is
cleared. -/
def Careful (s : State ι P) : Action ι P → Prop
  | .capture _ => s.raw.length < queueCapacity → ∃ w, s.workers w ≠ .done
  | .worker w => match s.workers w with
    | .push _ => s.dissected.length < queueCapacity → s.sender ≠ .done
    | .drainPush _ => s.dissected.length < queueCapacity → s.sender ≠ .done
    | .retry _ => s.keepRunning = true
    | _ => True
  | _ => True

/-- What holds in careful runs: nothing is lost, and a queue whose readers have terminated is empty. -/
structure Drained (s : State ι P) : Prop where
  lost : s.lost = []
  raw : (∀ w, s.workers w = .done) → s.raw = []
  dissected : s.sender = .done → s.dissected = []

omit [DecidableEq ι] in
theorem init_drained {s : State ι P} (hs : Init s) : Drained s := by
  rw [show s = _ from hs]
  exact ⟨rfl, fun _ => rfl, fun _ => rfl⟩

/-- The worker's part: it ends behind an empty queue and pushes only if the sender is there. -/
theorem Drained.worker {s : State ι P} (hs : Drained s) {w : ι} (hok : Careful s (.worker w))
    {x : Worker P} {raw dissected lost : List P} (hmove : WorkerMove s w x raw dissected lost) :
    Drained { s with
      raw := raw, dissected := dissected, lost := lost, workers := Function.update s.workers w x } := by
  refine ⟨?_, fun hdone => ?_, fun hsend => ?_⟩
  · rcases hmove.loses with hl | ⟨hflag, p, hw⟩
    · exact hl.trans hs.lost
    · simp only [Careful, hw, hflag, Bool.false_eq_true] at hok
  · refine hmove.ends ?_
    have hx : Function.update s.workers w x w = .done := hdone w
    rwa [Function.update_self] at hx
  · rcases hmove.pushes with hd | ⟨hroom, p, hw | hw⟩
    · exact hd.trans (hs.dissected hsend)
    · simp only [Careful, hw] at hok
      exact absurd hsend (hok hroom)
    · simp only [Careful, hw] at hok
      exact absurd hsend (hok hroom)

omit [DecidableEq ι] in
theorem Drained.capture {s : State ι P} (hs : Drained s) {p : P} (hok : Careful s (.capture p)) :
    Drained (stepCapture s p) := by
  unfold stepCapture
  split_ifs with hroom
  · refine ⟨hs.lost, fun hdone => ?_, hs.dissected⟩
    obtain ⟨w, hw⟩ := hok hroom
    exact absurd (hdone w) hw
  · exact hs

theorem reachVia_drained {s : State ι P} (hs : (machine ι P).ReachVia Careful s) : Drained s := by
  refine hs.invariant (I := Drained) (fun s hs => init_drained hs) fun s a s' ih hok ha => ?_
  cases a with
  | capture p =>
    simp only [machine] at ha
    split at ha
    · cases ha
      exact ih.capture hok
    · cases ha
  | leaveLoop =>
    simp only [machine] at ha
    split at ha
    · cases ha
      exact ⟨ih.lost, ih.raw, ih.dissected⟩
    · cases ha
  | clear =>
    simp only [machine] at ha
    split at ha
    · cases ha
      exact ⟨ih.lost, ih.raw, ih.dissected⟩
    · cases ha
  | signal =>
    cases ha
    exact ⟨ih.lost, ih.raw, ih.dissected⟩
  | worker w =>
    obtain ⟨x, raw, dissected, lost, hmove, rfl⟩ := stepWorker_cases ha
    exact ih.worker hok hmove
  | sender =>
    obtain ⟨x, dissected, sent, -, hends, rfl⟩ := stepSender_cases ha
    exact ⟨ih.lost, ih.raw, hends⟩

/-! ### Conservation -/

section

variable [Fintype ι]

/-- Every accepted packet is in a queue, with a thread, sent, or lost, as often as it was accepted. -/
def Conserved (s : State ι P) : Prop :=
  (s.raw : Multiset P) + ∑ w, (s.workers w).hand + s.dissected + s.sender.hand + s.sent + s.lost =
    s.accepted

theorem sum_hand_update (f : ι → Worker P) (w : ι) (x : Worker P) :
    ∑ v, (Function.update f w x v).hand + (f w).hand = ∑ v, (f v).hand + x.hand := by
  have hold := Finset.add_sum_erase Finset.univ (fun v => (f v).hand) (Finset.mem_univ w)
  have hnew := Finset.add_sum_erase Finset.univ (fun v => (Function.update f w x v).hand)
    (Finset.mem_univ w)
  have hrest : ∑ v ∈ Finset.univ.erase w, (Function.update f w x v).hand =
      ∑ v ∈ Finset.univ.erase w, (f v).hand := by
    refine Finset.sum_congr rfl fun v hv => ?_
    rw [Function.update_of_ne (Finset.ne_of_mem_erase hv)]
  rw [Function.update_self, hrest] at hnew
  rw [← hold, ← hnew]
  abel

theorem Conserved.worker {s : State ι P} (hs : Conserved s) {w : ι} {x : Worker P}
    {raw dissected lost : List P} (hmove : WorkerMove s w x raw dissected lost) :
    Conserved { s with
      raw := raw, dissected := dissected, lost := lost, workers := Function.update s.workers w x } := by
  unfold Conserved at *
  have hsum := sum_hand_update s.workers w x
  apply add_right_cancel (b := (s.workers w).hand)
  calc _ = (raw : Multiset P) + (∑ v, (Function.update s.workers w x v).hand + (s.workers w).hand) +
        dissected + s.sender.hand + s.sent + lost := by dsimp only; abel
    _ = ((raw : Multiset P) + x.hand + dissected + lost) + ∑ v, (s.workers v).hand + s.sender.hand +
        s.sent := by rw [hsum]; abel
    _ = ((s.raw : Multiset P) + ∑ v, (s.workers v).hand + s.dissected + s.sender.hand + s.sent +
        s.lost) + (s.workers w).hand := by rw [hmove.move]; abel
    _ = s.accepted + (s.workers w).hand := by rw [hs]

omit [DecidableEq ι] in
theorem Conserved.sender {s : State ι P} (hs : Conserved s) {x : Sender P} {dissected sent : List P}
    (hmove : (dissected : Multiset P) + x.hand + sent = s.dissected + s.sender.hand + s.sent) :
    Conserved { s with dissected := dissected, sender := x, sent := sent } := by
  unfold Conserved at *
  calc _ = (s.raw : Multiset P) + ∑ v, (s.workers v).hand +
        ((dissected : Multiset P) + x.hand + sent) + s.lost := by dsimp only; abel
    _ = s.accepted := by rw [hmove, ← hs]; abel

omit [DecidableEq ι] in
theorem Conserved.accept {s : State ι P} (hs : Conserved s) (p : P) :
    Conserved { s with raw := s.raw ++ [p], accepted := s.accepted ++ [p] } := by
  unfold Conserved at *
  dsimp only
  rw [coe_concat, coe_concat, ← hs]
  abel

/-! ### Runs -/

/-- **Conservation.** In every reachable state, every accepted packet is in a queue, with a thread, sent,
or lost, as often as it was accepted. -/
theorem reach_conserved {s : State ι P} (hs : (machine ι P).Reach s) : Conserved s := by
  refine hs.invariant (I := Conserved) (fun s hs => ?_) fun s a s' ih ha => ?_
  · rw [show s = _ from hs]
    simp [Conserved, Worker.hand, Sender.hand]
  · cases a with
    | capture p =>
      simp only [machine] at ha
      split at ha
      · cases ha
        unfold stepCapture
        split_ifs
        · exact ih.accept p
        · exact ih
      · cases ha
    | leaveLoop =>
      simp only [machine] at ha
      split at ha
      · cases ha
        exact ih
      · cases ha
    | clear =>
      simp only [machine] at ha
      split at ha
      · cases ha
        exact ih
      · cases ha
    | signal =>
      cases ha
      exact ih
    | worker w =>
      obtain ⟨x, raw, dissected, lost, hmove, rfl⟩ := stepWorker_cases ha
      exact ih.worker hmove
    | sender =>
      obtain ⟨x, dissected, sent, hmove, -, rfl⟩ := stepSender_cases ha
      exact ih.sender hmove

/-- **Nothing is lost.** In every run without one of the three lossy steps, whenever all workers and
the sender have terminated, every accepted packet has been sent exactly once. -/
theorem sent_perm_accepted (s : State ι P) (hs : (machine ι P).ReachVia Careful s)
    (hterm : Terminated s) : s.sent.Perm s.accepted := by
  have hreach : (machine ι P).Reach s := hs.mono fun _ _ _ => trivial
  have hcons := reach_conserved hreach
  have hd := reachVia_drained hs
  obtain ⟨hworkers, hsender⟩ := hterm
  have hhands : ∑ w, (s.workers w).hand = 0 := Finset.sum_eq_zero fun w _ => by rw [hworkers w]; rfl
  unfold Conserved at hcons
  rw [hd.raw hworkers, hd.dissected hsender, hd.lost, hhands, hsender] at hcons
  exact Multiset.coe_eq_coe.mp (by simpa [Sender.hand] using hcons)

end

/-! ### Two runs -/

/-- The state behind the start of the threads. -/
def started : State Unit ℕ := ⟨true, .inLoop, [], [], fun _ => .check, .check, [], [], []⟩

/-- A packet is captured and sent; then the worker terminates, and behind it the sender. -/
def ordered : List (Action Unit ℕ) :=
  [.capture 7, .worker (), .worker (), .worker (), .sender, .sender, .sender, .signal,
    .worker (), .worker (), .sender, .sender]

/-- The sender sees the cleared flag first and terminates before the worker has passed on the packet. -/
def senderFirst : List (Action Unit ℕ) :=
  [.capture 7, .signal, .sender, .sender, .worker (), .worker (), .worker (), .worker ()]

theorem ordered_careful : (machine Unit ℕ).Along Careful started ordered :=
  ⟨fun _ => ⟨(), nofun⟩, trivial, trivial, fun _ => nofun, trivial, trivial, trivial, trivial, trivial,
    trivial, trivial, trivial, trivial⟩

theorem ordered_sent : ∃ s : State Unit ℕ, (machine Unit ℕ).ReachVia Careful s ∧ Terminated s ∧
    s.accepted = [7] ∧ s.sent.Perm s.accepted :=
  have hrun : (machine Unit ℕ).ReachVia Careful
      (((machine Unit ℕ).exec started ordered).get (by decide)) :=
    Machine.ReachVia.exec (s := started) ordered (Machine.ReachVia.of_init rfl) ordered_careful (by simp)
  ⟨_, hrun, ⟨fun _ => rfl, rfl⟩, rfl, sent_perm_accepted _ hrun ⟨fun _ => rfl, rfl⟩⟩

/-- A shutdown can lose a packet. -/
theorem senderFirst_loses : ¬ ∀ s : State Unit ℕ, (machine Unit ℕ).Reach s → Terminated s →
    s.sent.Perm s.accepted := by
  intro h
  have hrun : (machine Unit ℕ).Reach (((machine Unit ℕ).exec started senderFirst).get (by decide)) :=
    Machine.Reach.exec (s := started) senderFirst (Machine.ReachVia.of_init rfl) (by simp)
  have hperm : ([] : List ℕ).Perm [7] := h _ hrun ⟨fun _ => rfl, rfl⟩
  exact absurd hperm.length_eq (by decide)

end Pacsni.Queue.Shutdown
