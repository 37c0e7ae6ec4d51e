import Pacsni.Lib.Runs

/-! # The lock-free queue

`LockFreeQueue` of `packet_types.h`: a ring of nodes with a sequence number each, and two positions.
`push` and `pop` are cut into their atomic steps: position load, sequence load, compare-exchange,
data copy, sequence store. Between two of its steps a thread rests in a `Local` state, which says
where in the code it is and what its variables hold. Counters are `size_t`, computed modulo `2 ^ 64`.

The machine interleaves the steps of any number of threads. It keeps a history beside the queue: which
value was pushed with which ticket, which tickets are published, and what was popped. -/

namespace Pacsni.Queue.LockFree

open Pacsni.Lib.Runs

/-- The number of values of `size_t`. -/
def sizeMod : ℕ := 2 ^ 64

/-- `(intptr_t)a - (intptr_t)b` -/
def diff (a b : ℕ) : ℤ := ((a : ℤ) - b).bmod sizeMod

/-- A capacity that the constructor can be given: a power of two in the range of `size_t`, at
least 2. -/
structure Capacity where
  val : ℕ
  exp : ℕ
  val_eq : val = 2 ^ exp
  exp_pos : 1 ≤ exp
  exp_lt : exp < 64

/-- `capacity_mask_` -/
def Capacity.mask (c : Capacity) : ℕ := c.val - 1

/-- The node of a position. -/
def Capacity.index (c : Capacity) (pos : ℕ) : ℕ := pos &&& c.mask

/-- `Node` -/
structure Node (T : Type*) where
  sequence : ℕ
  data : T

/-- The members of the queue. -/
structure LockFreeQueue (T : Type*) where
  buffer : ℕ → Node T
  enqueuePos : ℕ
  dequeuePos : ℕ

/-- What a call returned; a `pop` that returns `true` has also set its argument. -/
inductive Result (T : Type*)
  | pushed (ok : Bool)
  | popped (data : Option T)

/-- Where a thread is. -/
inductive Local (T : Type*)
  | idle (last : Option (Result T))
  | pushEntry (data : T)
  | pushLoop (data : T) (pos : ℕ)
  | pushTest (data : T) (pos seq : ℕ)
  | pushWon (data : T) (pos : ℕ)
  | pushCopied (data : T) (pos : ℕ)
  | popEntry
  | popLoop (pos : ℕ)
  | popTest (pos seq : ℕ)
  | popWon (pos : ℕ)
  | popCopied (pos : ℕ) (data : T)

/-- What a step adds to the history. -/
inductive Event (T : Type*)
  | silent
  | enqueued (data : T) (pos : ℕ)
  | published (pos : ℕ)
  | dequeued (pos : ℕ)
  | released (pos : ℕ) (data : T)

variable {T : Type*}

/-- The queue with the node `i` changed. -/
def LockFreeQueue.setNode (q : LockFreeQueue T) (i : ℕ) (node : Node T) : LockFreeQueue T :=
  { q with buffer := Function.update q.buffer i node }

/-- One atomic step of a thread; `spurious` says whether a compare-exchange in it fails spuriously.
A compare-exchange that fails, spuriously or not, loads the position. -/
def run (c : Capacity) (spurious : Bool) (q : LockFreeQueue T) : Local T → LockFreeQueue T × Local T × Event T
  | .idle last => (q, .idle last, .silent)
  | .pushEntry data => (q, .pushLoop data q.enqueuePos, .silent)
  | .pushLoop data pos => (q, .pushTest data pos (q.buffer (c.index pos)).sequence, .silent)
  | .pushTest data pos seq =>
    if diff seq pos = 0 then
      if q.enqueuePos = pos ∧ spurious = false then
        ({ q with enqueuePos := (pos + 1) % sizeMod }, .pushWon data pos, .enqueued data pos)
      else (q, .pushLoop data q.enqueuePos, .silent)
    else if diff seq pos < 0 then (q, .idle (some (.pushed false)), .silent)
    else (q, .pushLoop data q.enqueuePos, .silent)
  | .pushWon data pos =>
    (q.setNode (c.index pos) ⟨(q.buffer (c.index pos)).sequence, data⟩,
      .pushCopied data pos, .silent)
  | .pushCopied _ pos =>
    (q.setNode (c.index pos) ⟨(pos + 1) % sizeMod, (q.buffer (c.index pos)).data⟩,
      .idle (some (.pushed true)), .published pos)
  | .popEntry => (q, .popLoop q.dequeuePos, .silent)
  | .popLoop pos => (q, .popTest pos (q.buffer (c.index pos)).sequence, .silent)
  | .popTest pos seq =>
    if diff seq ((pos + 1) % sizeMod) = 0 then
      if q.dequeuePos = pos ∧ spurious = false then
        ({ q with dequeuePos := (pos + 1) % sizeMod }, .popWon pos, .dequeued pos)
      else (q, .popLoop q.dequeuePos, .silent)
    else if diff seq ((pos + 1) % sizeMod) < 0 then (q, .idle (some (.popped none)), .silent)
    else (q, .popLoop q.dequeuePos, .silent)
  | .popWon pos => (q, .popCopied pos (q.buffer (c.index pos)).data, .silent)
  | .popCopied pos data =>
    (q.setNode (c.index pos) ⟨(pos + c.mask + 1) % sizeMod, (q.buffer (c.index pos)).data⟩,
      .idle (some (.popped (some data))), .released pos data)

/-! ### The machine -/

/-- The history of a run. -/
structure History (T : Type*) where
  /-- Some counter was set to a value that did not fit. -/
  wrapped : Bool
  /-- The values of the won enqueue tickets; ticket `k` is the element `k`. -/
  pushed : List T
  /-- The tickets of the pushes that have stored their sequence number. -/
  published : List ℕ
  /-- Tickets and values of the pops that have returned. -/
  popped : List (ℕ × T)

/-- The history with an event added. -/
def History.add (c : Capacity) (h : History T) : Event T → History T
  | .silent => h
  | .enqueued data pos =>
    { h with wrapped := h.wrapped || sizeMod ≤ pos + 1, pushed := h.pushed ++ [data] }
  | .published pos => { h with published := h.published ++ [pos] }
  | .dequeued pos => { h with wrapped := h.wrapped || sizeMod ≤ pos + 1 }
  | .released pos data =>
    { h with wrapped := h.wrapped || sizeMod ≤ pos + c.val, popped := h.popped ++ [(pos, data)] }

/-- The queue, the threads and the history. -/
structure State (ι T : Type*) where
  queue : LockFreeQueue T
  threads : ι → Local T
  history : History T

/-- A thread calls `push` or `pop`, or takes a step. -/
inductive Action (ι T : Type*)
  | push (t : ι) (data : T)
  | pop (t : ι)
  | run (t : ι) (spurious : Bool)

variable {ι : Type*} [DecidableEq ι]

/-- The thread `t` is at `l`. -/
def State.goto (s : State ι T) (t : ι) (l : Local T) : State ι T :=
  { s with threads := Function.update s.threads t l }

/-- The thread `t` takes a step. -/
def State.run (c : Capacity) (s : State ι T) (t : ι) (spurious : Bool) : State ι T :=
  let r := LockFree.run c spurious s.queue (s.threads t)
  { queue := r.1
    threads := Function.update s.threads t r.2.1
    history := s.history.add c r.2.2 }

/-- The state behind the constructor. The data of the nodes is what the memory held. -/
def Init (c : Capacity) (s : State ι T) : Prop :=
  (∀ i < c.val, (s.queue.buffer i).sequence = i) ∧ s.queue.enqueuePos = 0 ∧
    s.queue.dequeuePos = 0 ∧ (∀ t, s.threads t = .idle none) ∧ s.history = ⟨false, [], [], []⟩

/-- Any number of threads on one queue. -/
def machine (ι T : Type*) [DecidableEq ι] (c : Capacity) : Machine (State ι T) (Action ι T) where
  init := Init c
  step s
    | .push t data => match s.threads t with
      | .idle _ => some (s.goto t (.pushEntry data))
      | _ => none
    | .pop t => match s.threads t with
      | .idle _ => some (s.goto t .popEntry)
      | _ => none
    | .run t spurious => some (s.run c t spurious)

end Pacsni.Queue.LockFree
