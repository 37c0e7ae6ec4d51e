import Pacsni.Lib.Pool
import Pacsni.Capture.Send
import Pacsni.Capture.Raw
import Pacsni.Queue.Shutdown

/-! # The capture process

All threads of the capture process with what they carry: pcap hands frames to `packet_handler`, which
queues them; the workers take them from `raw_queue`, in any order, and queue the records that they make of
them; the sender takes the records from `dissected_queue` and writes their messages to the TLS session.
A call of `push` may fail on a queue that has room and one of `pop` on a queue that is not empty, as calls
of the lock-free queues do while another thread is in the middle of one.

What the sender pops are records of frames, each of a frame of its own (`Inv.exists_popped`), and the session
accepts a start of their messages (`Sends`). -/

namespace Pacsni.Capture.Process

open Pacsni.Lib.Runs Pacsni.Lib.Trace Pacsni.Lib.Pool
open Pacsni.Capture.Types Pacsni.Capture.Raw Pacsni.Capture.Layout Pacsni.Capture.Send
open Pacsni.Queue.Shutdown (Capture Worker Sender queueCapacity coe_concat coe_cons sum_hand_update)

/-- A call of `packet_handler`: the header, the bytes of the frame, and what the memory of its variable
`raw` holds before. -/
structure Callback where
  pkthdr : PcapPkthdr
  frame : ℕ → UInt8
  mem : ℕ → UInt8

/-- The raw packets that the calls make, the first one behind a frame of the time `last`. -/
def raws : Timeval → List Callback → List RawPacket
  | _, [] => []
  | last, c :: cs => packetHandler c.pkthdr c.frame c.mem last :: raws c.pkthdr.ts cs

/-- The variable `last_ts` behind the calls. -/
def lastTs : Timeval → List Callback → Timeval
  | last, [] => last
  | _, c :: cs => lastTs c.pkthdr.ts cs

/-- A raw packet in the variable of a worker; `mem` is the memory behind its data. -/
def loaded (raw : RawPacket) (mem : ℕ → UInt8) : RawPacket :=
  { raw with data := fun i => if i < maxPayloadSize then raw.data i else mem i }

/-- A worker can make the record of the raw packet. -/
def Dissected (raw : RawPacket) (info : PacketInfo) : Prop :=
  ∃ mem prior, (dissectRawPacket (loaded raw mem) prior).val = some info

/-- The state of the process. The sender is in `send_packet_info` with a record and the number of bytes
that are sent of its message. -/
structure State (ι : Type*) where
  keepRunning : Bool
  capture : Capture
  lastTs : Timeval
  rawQueue : List RawPacket
  dissectedQueue : List PacketInfo
  workers : ι → Worker PacketInfo
  sender : Sender (PacketInfo × ℕ)
  session : Session
  /-- The frames that pcap has delivered. -/
  callbacks : List Callback
  /-- The records that the sender has popped. -/
  popped : List PacketInfo

/-- The threads start behind `main`'s creation of them. -/
def init {ι : Type*} : State ι where
  keepRunning := true
  capture := .inLoop
  lastTs := ⟨0, 0⟩
  rawQueue := []
  dissectedQueue := []
  workers _ := .check
  sender := .check
  session := .fresh
  callbacks := []
  popped := []

/-- Steps of the capture thread (`capture`, `leaveLoop`, `clear`), the signal handler, a worker, the sender.
`ok` says whether a call of the queue gets through, `mem` and `prior` what the variables of the worker
hold, `o` what the session answers. -/
inductive Action (ι : Type*)
  | capture (c : Callback) (ok : Bool)
  | leaveLoop
  | clear
  | signal
  | worker (w : ι) (ok : Bool) (mem : ℕ → UInt8) (prior : PacketInfo)
  | sender (ok : Bool) (o : Outcome)

section

variable {ι : Type*}

/-- A call of `packet_handler`. -/
def stepCapture (s : State ι) (c : Callback) (ok : Bool) : State ι :=
  let raw := packetHandler c.pkthdr c.frame c.mem s.lastTs
  { s with
    lastTs := c.pkthdr.ts
    callbacks := s.callbacks ++ [c]
    rawQueue := if ok ∧ s.rawQueue.length < queueCapacity then s.rawQueue ++ [raw] else s.rawQueue }

/-- A step of a worker. There is none with a frame for which no record is defined. -/
def stepWorker [DecidableEq ι] (s : State ι) (w : ι) (ok : Bool) (mem : ℕ → UInt8) (prior : PacketInfo) :
    Option (State ι) :=
  let goto (x : Worker PacketInfo) (s : State ι) : State ι :=
    { s with workers := Function.update s.workers w x }
  match s.workers w with
  | .check => some (goto (if s.keepRunning then .pop else .drainPop) s)
  | .pop => match ok, s.rawQueue with
    | true, raw :: rest => (dissectRawPacket (loaded raw mem) prior).val.map fun info =>
        goto (.push info) { s with rawQueue := rest }
    | _, _ => some (goto .check s)
  | .push info =>
    if ok ∧ s.dissectedQueue.length < queueCapacity then
      some (goto .check { s with dissectedQueue := s.dissectedQueue ++ [info] })
    else some (goto (.retry info) s)
  | .retry info => some (goto (if s.keepRunning then .push info else .check) s)
  | .drainPop => match ok, s.rawQueue with
    | true, raw :: rest => (dissectRawPacket (loaded raw mem) prior).val.map fun info =>
        goto (.drainPush info) { s with rawQueue := rest }
    | _, _ => some (goto .done s)
  | .drainPush info =>
    if ok ∧ s.dissectedQueue.length < queueCapacity then
      some (goto .drainPop { s with dissectedQueue := s.dissectedQueue ++ [info] })
    else some s
  | .done => none

variable (hmac : List UInt8 → Vector UInt8 64)

/-- A call of `SSL_write` for the message of `info`, of which `sent` bytes are sent. Behind the message, or
an error, the sender goes on at `next`. -/
def stepWrite (s : State ι) (info : PacketInfo) (sent : ℕ) (o : Outcome)
    (stay : PacketInfo × ℕ → Sender (PacketInfo × ℕ)) (next : Sender (PacketInfo × ℕ)) : State ι :=
  match sslWrite s.session ((sendPacketInfo hmac info).drop sent) o with
  | (.count n, session) => { s with
      session := session
      sender := if sent + n < (sendPacketInfo hmac info).length then stay (info, sent + n) else next }
  | (.want, session) => { s with session := session }
  | (.error, session) => { s with session := session, sender := next }

/-- A step of the sender. -/
def stepSender (s : State ι) (ok : Bool) (o : Outcome) : Option (State ι) :=
  match s.sender with
  | .check => some { s with sender := if s.keepRunning then .pop else .drainPop }
  | .pop => match ok, s.dissectedQueue with
    | true, info :: rest => some { s with
        dissectedQueue := rest, sender := .send (info, 0), popped := s.popped ++ [info] }
    | _, _ => some { s with sender := .check }
  | .send (info, sent) => some (stepWrite hmac s info sent o .send .check)
  | .drainPop => match ok, s.dissectedQueue with
    | true, info :: rest => some { s with
        dissectedQueue := rest, sender := .drainSend (info, 0), popped := s.popped ++ [info] }
    | _, _ => some { s with sender := .done }
  | .drainSend (info, sent) => some (stepWrite hmac s info sent o .drainSend .drainPop)
  | .done => none

/-- The process. -/
def machine (ι : Type*) [DecidableEq ι] : Machine (State ι) (Action ι) where
  init s := s = Process.init
  step s
    | .capture c ok => match s.capture with
      | .inLoop => some (stepCapture s c ok)
      | _ => none
    | .leaveLoop => match s.capture with
      | .inLoop => some { s with capture := .behindLoop }
      | _ => none
    | .clear => match s.capture with
      | .behindLoop => some { s with keepRunning := false, capture := .cleared }
      | _ => none
    | .signal => some { s with keepRunning := false }
    | .worker w ok mem prior => stepWorker s w ok mem prior
    | .sender ok o => stepSender hmac s ok o

end

/-! ### The records -/

theorem raws_append (last : Timeval) (cs : List Callback) (c : Callback) :
    raws last (cs ++ [c]) =
      raws last cs ++ [packetHandler c.pkthdr c.frame c.mem (lastTs last cs)] := by
  induction cs generalizing last with
  | nil => rfl
  | cons d cs ih => rw [List.cons_append, raws, ih, raws, lastTs, List.cons_append]

theorem lastTs_append (last : Timeval) (cs : List Callback) (c : Callback) :
    lastTs last (cs ++ [c]) = c.pkthdr.ts := by
  induction cs generalizing last with
  | nil => rfl
  | cons d cs ih => rw [List.cons_append, lastTs, ih]

section

variable {ι : Type*} [Fintype ι]

/-- The records that have been made and are not lost. -/
def records (s : State ι) : Multiset PacketInfo :=
  ∑ w, (s.workers w).hand + s.dissectedQueue + s.popped

/-- Every record is made of a frame of its own. -/
structure Inv (s : State ι) : Prop where
  lastTs : s.lastTs = Process.lastTs ⟨0, 0⟩ s.callbacks
  made : Made Dissected (raws ⟨0, 0⟩ s.callbacks : Multiset RawPacket) s.rawQueue (records s)

variable {s s' : State ι}

/-- A step that neither takes a raw packet nor makes a record. -/
theorem Inv.onward (hs : Inv s) (hlast : s'.lastTs = s.lastTs) (hcalls : s'.callbacks = s.callbacks)
    (hraw : s'.rawQueue = s.rawQueue) (hrecords : records s' ≤ records s) : Inv s' where
  lastTs := by rw [hlast, hcalls, hs.lastTs]
  made := by
    rw [hcalls, hraw]
    exact hs.made.lose hrecords

theorem inv_init : Inv (init : State ι) where
  lastTs := rfl
  made := by
    have hzero : records (init : State ι) = 0 := by simp [records, init, Worker.hand]
    rw [hzero]
    exact Made.start Dissected

theorem inv_capture (hs : Inv s) (c : Callback) (ok : Bool) : Inv (stepCapture s c ok) where
  lastTs := (lastTs_append _ _ _).symm
  made := by
    have hraws : (raws ⟨0, 0⟩ (s.callbacks ++ [c]) : Multiset RawPacket) =
        raws ⟨0, 0⟩ s.callbacks + {packetHandler c.pkthdr c.frame c.mem s.lastTs} := by
      rw [raws_append, ← hs.lastTs, coe_concat]
    show Made Dissected (raws ⟨0, 0⟩ (s.callbacks ++ [c]) : Multiset RawPacket) _ (records s)
    rw [hraws]
    unfold stepCapture
    dsimp only
    split_ifs
    · rw [coe_concat]
      exact hs.made.arrive _
    · exact hs.made.refuse _

variable [DecidableEq ι]

/-- The records behind a step of the worker `w`. -/
theorem records_goto (s : State ι) (w : ι) (x : Worker PacketInfo) (raw : List RawPacket)
    (queue : List PacketInfo) :
    records { s with
      rawQueue := raw, dissectedQueue := queue, workers := Function.update s.workers w x } +
        ((s.workers w).hand + s.dissectedQueue) = records s + (x.hand + queue) := by
  have hsum := sum_hand_update s.workers w x
  unfold records
  calc _ = (∑ v, (Function.update s.workers w x v).hand + (s.workers w).hand) + queue + s.popped +
        s.dissectedQueue := by dsimp only; abel
    _ = _ := by rw [hsum]; abel

/-- A worker takes a raw packet and makes its record. -/
theorem Inv.work (hs : Inv s) {w : ι} {raw : RawPacket} {rest : List RawPacket} {info : PacketInfo}
    {x : Worker PacketInfo} (hw : (s.workers w).hand = 0) (hx : x.hand = {info})
    (hraw : s.rawQueue = raw :: rest) (hinfo : Dissected raw info) :
    Inv { s with rawQueue := rest, workers := Function.update s.workers w x } where
  lastTs := hs.lastTs
  made := by
    have hrecords := records_goto s w x rest s.dissectedQueue
    rw [hw, hx, zero_add, ← add_assoc] at hrecords
    have hmade := hs.made
    rw [hraw, coe_cons] at hmade
    have heq := add_right_cancel hrecords
    show Made Dissected _ _ (records _)
    rw [heq]
    exact hmade.work hinfo

/-- A worker hands on its record, or gives it up. -/
theorem Inv.hand (hs : Inv s) {w : ι} {x : Worker PacketInfo} {queue : List PacketInfo}
    (hle : x.hand + (queue : Multiset PacketInfo) ≤ (s.workers w).hand + s.dissectedQueue) :
    Inv { s with dissectedQueue := queue, workers := Function.update s.workers w x } := by
  refine hs.onward rfl rfl rfl ?_
  have hrecords := records_goto s w x s.rawQueue queue
  have hsum := add_le_add_right hle (records s)
  rw [← hrecords] at hsum
  exact le_of_add_le_add_right hsum

/-- A worker that only moves on. -/
theorem Inv.move (hs : Inv s) {w : ι} {x : Worker PacketInfo} (hx : x.hand ≤ (s.workers w).hand) :
    Inv { s with workers := Function.update s.workers w x } :=
  hs.hand (add_le_add_left hx _)

theorem inv_worker (hs : Inv s) {w : ι} {ok : Bool} {mem : ℕ → UInt8} {prior : PacketInfo}
    (h : stepWorker s w ok mem prior = some s') : Inv s' := by
  unfold stepWorker at h
  cases hw : s.workers w with
  | check =>
    simp only [hw, Option.some.injEq] at h
    subst h
    refine hs.move ?_
    rw [hw]
    split_ifs <;> exact le_rfl
  | pop =>
    simp only [hw] at h
    split at h
    · rename_i raw rest hraw
      obtain ⟨info, hinfo, rfl⟩ := Option.map_eq_some_iff.mp h
      exact hs.work (by rw [hw]; rfl) rfl hraw ⟨mem, prior, hinfo⟩
    · obtain rfl := Option.some.inj h
      exact hs.move (Multiset.zero_le _)
  | push info =>
    simp only [hw] at h
    split_ifs at h
    · obtain rfl := Option.some.inj h
      refine hs.hand ?_
      rw [hw, coe_concat, add_comm (s.dissectedQueue : Multiset PacketInfo)]
      exact (zero_add _).le
    · obtain rfl := Option.some.inj h
      refine hs.move ?_
      rw [hw]
      exact le_rfl
  | retry info =>
    simp only [hw, Option.some.injEq] at h
    subst h
    refine hs.move ?_
    rw [hw]
    split_ifs
    · exact le_rfl
    · exact Multiset.zero_le _
  | drainPop =>
    simp only [hw] at h
    split at h
    · rename_i raw rest hraw
      obtain ⟨info, hinfo, rfl⟩ := Option.map_eq_some_iff.mp h
      exact hs.work (by rw [hw]; rfl) rfl hraw ⟨mem, prior, hinfo⟩
    · obtain rfl := Option.some.inj h
      exact hs.move (Multiset.zero_le _)
  | drainPush info =>
    simp only [hw] at h
    split_ifs at h
    · obtain rfl := Option.some.inj h
      refine hs.hand ?_
      rw [hw, coe_concat, add_comm (s.dissectedQueue : Multiset PacketInfo)]
      exact (zero_add _).le
    · obtain rfl := Option.some.inj h
      exact hs
  | done =>
    simp only [hw] at h
    cases h

omit [DecidableEq ι] in
/-- Popping leaves the records as they are. -/
theorem Inv.pop (hs : Inv s) {info : PacketInfo} {rest : List PacketInfo} {x : Sender (PacketInfo × ℕ)}
    (hqueue : s.dissectedQueue = info :: rest) :
    Inv { s with dissectedQueue := rest, sender := x, popped := s.popped ++ [info] } := by
  refine hs.onward rfl rfl rfl (le_of_eq ?_)
  unfold records
  dsimp only
  rw [hqueue, coe_concat, coe_cons]
  abel

end

/-! ### The messages -/

section

variable {ι : Type*} (hmac : List UInt8 → Vector UInt8 64)

/-- What the sender has still to send of its message. -/
def unsent : Sender (PacketInfo × ℕ) → List UInt8
  | .send (info, sent) => (sendPacketInfo hmac info).drop sent
  | .drainSend (info, sent) => (sendPacketInfo hmac info).drop sent
  | _ => []

/-- The session has accepted a start of the messages of the records, and all that the sender is through
with, unless a call has failed. -/
structure Sends (s : State ι) : Prop where
  start : s.session.accepted <+: messages hmac s.popped
  whole : s.session.broken = false →
    s.session.accepted ++ unsent hmac s.sender = messages hmac s.popped

variable {hmac} {s s' : State ι}

theorem Sends.congr (hs : Sends hmac s) (hsession : s'.session = s.session) (hpopped : s'.popped = s.popped)
    (hunsent : unsent hmac s'.sender = unsent hmac s.sender) : Sends hmac s' where
  start := by
    rw [hsession, hpopped]
    exact hs.start
  whole hbroken := by
    rw [hsession] at hbroken ⊢
    rw [hpopped, hunsent]
    exact hs.whole hbroken

theorem messages_concat (infos : List PacketInfo) (info : PacketInfo) :
    messages hmac (infos ++ [info]) = messages hmac infos ++ sendPacketInfo hmac info := by
  unfold messages
  rw [List.flatMap_append, List.flatMap_singleton]

theorem messages_of_start {infos infos' : List PacketInfo} (h : infos <+: infos') :
    messages hmac infos <+: messages hmac infos' := by
  obtain ⟨more, rfl⟩ := h
  unfold messages
  rw [List.flatMap_append]
  exact List.prefix_append _ _

/-- A record is popped behind the messages of those before it. -/
theorem Sends.pop (hs : Sends hmac s) {info : PacketInfo} (hidle : unsent hmac s.sender = [])
    (hsession : s'.session = s.session) (hpopped : s'.popped = s.popped ++ [info])
    (hunsent : unsent hmac s'.sender = sendPacketInfo hmac info) : Sends hmac s' where
  start := by
    rw [hsession, hpopped, messages_concat]
    exact hs.start.trans (List.prefix_append _ _)
  whole hbroken := by
    rw [hsession] at hbroken ⊢
    have hwhole := hs.whole hbroken
    rw [hidle, List.append_nil] at hwhole
    rw [hpopped, hunsent, messages_concat, hwhole]

/-- **One call of `SSL_write`.** -/
theorem sends_write (hs : Sends hmac s) {info : PacketInfo} {sent : ℕ}
    (hsender : unsent hmac s.sender = (sendPacketInfo hmac info).drop sent) (o : Outcome)
    {stay : PacketInfo × ℕ → Sender (PacketInfo × ℕ)} {next : Sender (PacketInfo × ℕ)}
    (hstay : ∀ n, unsent hmac (stay (info, n)) = (sendPacketInfo hmac info).drop n)
    (hnext : unsent hmac next = []) : Sends hmac (stepWrite hmac s info sent o stay next) := by
  have hwhole := hs.whole
  rw [hsender] at hwhole
  generalize hbuf : (sendPacketInfo hmac info).drop sent = buf at hwhole
  unfold stepWrite sslWrite
  rw [hbuf]
  by_cases hbroken : s.session.broken = true
  · rw [if_pos hbroken]
    exact ⟨hs.start, fun h => absurd (hbroken.symm.trans h) (by decide)⟩
  rw [if_neg hbroken]
  rw [Bool.not_eq_true] at hbroken
  cases o with
  | wrote k =>
    dsimp only
    generalize min (k + 1) buf.length = n
    -- the rest of the message is what is left of the buffer, also when nothing is left
    have hrest : unsent hmac (if sent + n < (sendPacketInfo hmac info).length then
        stay (info, sent + n) else next) = buf.drop n := by
      rw [← hbuf, List.drop_drop]
      split_ifs with hlt
      · exact hstay _
      · rw [hnext, List.drop_eq_nil_of_le (by omega)]
    have hnew : (s.session.accepted ++ buf.take n) ++ buf.drop n = messages hmac s.popped := by
      rw [List.append_assoc, List.take_append_drop]
      exact hwhole hbroken
    refine ⟨?_, fun _ => ?_⟩
    · rw [← hnew]
      exact List.prefix_append _ _
    · exact (congrArg (_ ++ ·) hrest).trans hnew
  | wantRetry => exact hs
  | fatal => exact ⟨hs.start, nofun⟩

end

/-! ### Steps and runs -/

section

variable {ι : Type*} {hmac : List UInt8 → Vector UInt8 64} {s s' : State ι}

/-- The workers leave the sender alone. -/
theorem stepWorker_sender [DecidableEq ι] {w : ι} {ok : Bool} {mem : ℕ → UInt8} {prior : PacketInfo}
    (h : stepWorker s w ok mem prior = some s') :
    s'.session = s.session ∧ s'.popped = s.popped ∧ s'.sender = s.sender := by
  unfold stepWorker at h
  dsimp only at h
  split at h
  · obtain rfl := Option.some.inj h
    exact ⟨rfl, rfl, rfl⟩
  · split at h
    · obtain ⟨info, -, rfl⟩ := Option.map_eq_some_iff.mp h
      exact ⟨rfl, rfl, rfl⟩
    · obtain rfl := Option.some.inj h
      exact ⟨rfl, rfl, rfl⟩
  · split_ifs at h <;> obtain rfl := Option.some.inj h <;> exact ⟨rfl, rfl, rfl⟩
  · obtain rfl := Option.some.inj h
    exact ⟨rfl, rfl, rfl⟩
  · split at h
    · obtain ⟨info, -, rfl⟩ := Option.map_eq_some_iff.mp h
      exact ⟨rfl, rfl, rfl⟩
    · obtain rfl := Option.some.inj h
      exact ⟨rfl, rfl, rfl⟩
  · split_ifs at h <;> obtain rfl := Option.some.inj h <;> exact ⟨rfl, rfl, rfl⟩
  · cases h

theorem sends_worker [DecidableEq ι] (hs : Sends hmac s) {w : ι} {ok : Bool} {mem : ℕ → UInt8}
    {prior : PacketInfo} (h : stepWorker s w ok mem prior = some s') : Sends hmac s' := by
  obtain ⟨hsession, hpopped, hsender⟩ := stepWorker_sender h
  exact hs.congr hsession hpopped (congrArg _ hsender)

theorem sends_capture (hs : Sends hmac s) (c : Callback) (ok : Bool) :
    Sends hmac (stepCapture s c ok) := hs.congr rfl rfl rfl

variable [Fintype ι]

/-- **One step of the sender.** -/
theorem stepSender_keeps (hi : Inv s) (hs : Sends hmac s) {ok : Bool} {o : Outcome}
    (h : stepSender hmac s ok o = some s') : Inv s' ∧ Sends hmac s' := by
  have hmove : ∀ x : Sender (PacketInfo × ℕ), unsent hmac s.sender = [] → unsent hmac x = [] →
      Inv { s with sender := x } ∧ Sends hmac { s with sender := x } := fun x hold hnew =>
    ⟨hi.onward rfl rfl rfl le_rfl, hs.congr rfl rfl (hnew.trans hold.symm)⟩
  have hwrite : ∀ info sent stay next, Inv (stepWrite hmac s info sent o stay next) := by
    intro info sent stay next
    unfold stepWrite
    split <;> exact hi.onward rfl rfl rfl le_rfl
  unfold stepSender at h
  cases hx : s.sender with
  | check =>
    simp only [hx, Option.some.injEq] at h
    subst h
    exact hmove _ (by rw [hx]; rfl) (by split_ifs <;> rfl)
  | pop =>
    simp only [hx] at h
    split at h
    · rename_i info rest hqueue
      obtain rfl := Option.some.inj h
      exact ⟨hi.pop hqueue, hs.pop (by rw [hx]; rfl) rfl rfl rfl⟩
    · obtain rfl := Option.some.inj h
      exact hmove _ (by rw [hx]; rfl) rfl
  | send p =>
    obtain ⟨info, sent⟩ := p
    simp only [hx, Option.some.injEq] at h
    subst h
    exact ⟨hwrite _ _ _ _, sends_write hs (by rw [hx]; rfl) o (fun _ => rfl) rfl⟩
  | drainPop =>
    simp only [hx] at h
    split at h
    · rename_i info rest hqueue
      obtain rfl := Option.some.inj h
      exact ⟨hi.pop hqueue, hs.pop (by rw [hx]; rfl) rfl rfl rfl⟩
    · obtain rfl := Option.some.inj h
      exact hmove _ (by rw [hx]; rfl) rfl
  | drainSend p =>
    obtain ⟨info, sent⟩ := p
    simp only [hx, Option.some.injEq] at h
    subst h
    exact ⟨hwrite _ _ _ _, sends_write hs (by rw [hx]; rfl) o (fun _ => rfl) rfl⟩
  | done =>
    simp only [hx] at h
    cases h

/-- **What the sender pops**, each record with the raw packet that it was made of; no raw packet is one
of two records. -/
theorem Inv.exists_popped (hi : Inv s) : ∃ ds : List (RawPacket × PacketInfo),
    ds.map Prod.snd = s.popped ∧ (∀ d ∈ ds, Dissected d.1 d.2) ∧
      (ds.map Prod.fst : Multiset RawPacket) ≤ raws ⟨0, 0⟩ s.callbacks :=
  (hi.made.lose (Multiset.le_add_left _ _)).exists_list

variable [DecidableEq ι]

/-- **One step.** -/
theorem keeps_step {a : Action ι} (hi : Inv s) (hs : Sends hmac s)
    (h : (machine hmac ι).step s a = some s') : Inv s' ∧ Sends hmac s' := by
  cases a with
  | capture c ok =>
    simp only [machine] at h
    split at h
    · obtain rfl := Option.some.inj h
      exact ⟨inv_capture hi c ok, sends_capture hs c ok⟩
    · cases h
  | leaveLoop | clear =>
    simp only [machine] at h
    split at h
    · obtain rfl := Option.some.inj h
      exact ⟨hi.onward rfl rfl rfl le_rfl, hs.congr rfl rfl rfl⟩
    · cases h
  | signal =>
    obtain rfl := Option.some.inj h
    exact ⟨hi.onward rfl rfl rfl le_rfl, hs.congr rfl rfl rfl⟩
  | worker w ok mem prior => exact ⟨inv_worker hi h, sends_worker hs h⟩
  | sender ok o => exact stepSender_keeps hi hs h

omit [Fintype ι] [DecidableEq ι] in
theorem sends_init : Sends hmac (init : State ι) := ⟨List.nil_prefix, fun _ => rfl⟩

omit [Fintype ι] in
/-- No record is taken back. -/
theorem popped_step {a : Action ι} (h : (machine hmac ι).step s a = some s') : s.popped <+: s'.popped := by
  cases a with
  | capture c ok =>
    simp only [machine] at h
    split at h
    · obtain rfl := Option.some.inj h
      exact List.prefix_refl _
    · cases h
  | leaveLoop | clear =>
    simp only [machine] at h
    split at h
    · obtain rfl := Option.some.inj h
      exact List.prefix_refl _
    · cases h
  | signal =>
    obtain rfl := Option.some.inj h
    exact List.prefix_refl _
  | worker w ok mem prior =>
    rw [(stepWorker_sender h).2.1]
  | sender ok o =>
    have hwrite : ∀ info sent stay next,
        s.popped <+: (stepWrite hmac s info sent o stay next).popped := by
      intro info sent stay next
      unfold stepWrite
      split <;> exact List.prefix_refl _
    simp only [machine, stepSender] at h
    split at h
    · obtain rfl := Option.some.inj h
      exact List.prefix_refl _
    · split at h <;> obtain rfl := Option.some.inj h
      · exact List.prefix_append _ _
      · exact List.prefix_refl _
    · obtain rfl := Option.some.inj h
      exact hwrite _ _ _ _
    · split at h <;> obtain rfl := Option.some.inj h
      · exact List.prefix_append _ _
      · exact List.prefix_refl _
    · obtain rfl := Option.some.inj h
      exact hwrite _ _ _ _
    · cases h

end

end Pacsni.Capture.Process
