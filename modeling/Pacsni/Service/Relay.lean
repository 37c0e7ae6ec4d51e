import Pacsni.Lib.Broadcast
import Pacsni.Lib.Runs
import Pacsni.Service.Lines

/-! # The service

The tasks of the service: one for each connection of a capture process, one for each connection of a
dashboard, and the broadcast channel between them, `tokio::sync::broadcast`, which is a parameter. A
capture task reads, and sends the packets that it has decoded one by one before it reads again; a
dashboard task receives and writes. The tasks take their steps in any order. `reads` and `events` are the
histories of the connections. -/

namespace Pacsni.Service.Relay

open Pacsni.Lib.Runs Pacsni.Lib.Broadcast
open Pacsni.Service.Model Pacsni.Service.Framing Pacsni.Service.Lines

variable {κ δ : Type*}

/-- A connection of a dashboard: where it has subscribed, where it stands in the log, what it has
received with the results of its writes, and whether its task still runs. -/
structure Subscriber (κ : Type*) where
  start : ℕ
  next : ℕ
  events : List (Event (κ × DashboardPacket) × Write)
  running : Bool

/-- The state of the service. The packets in `log` are marked with the connection that has sent them. -/
structure State (κ δ : Type*) where
  log : List (κ × DashboardPacket)
  reads : κ → List Read
  conns : κ → Conn
  pending : κ → List DashboardPacket
  subscribers : δ → Option (Subscriber κ)

/-- Steps of the capture task `k` or the dashboard task `j`. -/
inductive Action (κ δ : Type*)
  | read (k : κ) (r : Read)
  | send (k : κ)
  | subscribe (j : δ)
  | recv (j : δ) (w : Write)

/-- The result of a write for an event; nothing is written for a lag. -/
def afterWrite : Event (κ × DashboardPacket) → Write → Bool
  | .value _, .failed _ => false
  | _, _ => true

/-- What `rx.recv()` returns for an event, with the result of the write. -/
def recvOf : Event (κ × DashboardPacket) × Write → Recv
  | (.value p, w) => .packet p.2 w
  | (.lagged n, _) => .lagged n

/-- What `rx.recv()` has returned to the dashboard task. -/
def Subscriber.recvs (x : Subscriber κ) : List Recv := x.events.map recvOf

variable (verify : List UInt8 → List UInt8 → Bool) (rx : Channel (κ × DashboardPacket))

section

variable [DecidableEq κ]

/-- A read of the capture task `k`; the packets that it has decoded are to be sent. -/
def stepRead (s : State κ δ) (k : κ) (r : Read) : Option (State κ δ) :=
  if s.pending k = [] then
    let conn := Framing.step verify (s.conns k) r
    some { s with
      reads := Function.update s.reads k (s.reads k ++ [r])
      conns := Function.update s.conns k conn
      pending := Function.update s.pending k (conn.sent.drop (s.conns k).sent.length) }
  else none

/-- `tx.send(packet)` -/
def stepSend (s : State κ δ) (k : κ) : Option (State κ δ) :=
  match s.pending k with
  | [] => none
  | d :: ds => some { s with
      log := s.log ++ [(k, d)]
      pending := Function.update s.pending k ds }

end

section

variable [DecidableEq δ]

/-- `tx.subscribe()` -/
def stepSubscribe (s : State κ δ) (j : δ) : Option (State κ δ) :=
  match s.subscribers j with
  | none => some { s with
      subscribers := Function.update s.subscribers j (some ⟨s.log.length, s.log.length, [], true⟩) }
  | some _ => none

/-- A pass of the loop of `handle_go_connection`. -/
def stepRecv (s : State κ δ) (j : δ) (w : Write) : Option (State κ δ) :=
  match s.subscribers j with
  | none => none
  | some x =>
    if x.running then
      match rx.recv s.log x.next with
      | none => none
      | some (e, next) => some { s with
          subscribers := Function.update s.subscribers j
            (some ⟨x.start, next, x.events ++ [(e, w)], afterWrite e w⟩) }
    else none

end

/-- The service. -/
def machine (δ : Type*) [DecidableEq κ] [DecidableEq δ] : Machine (State κ δ) (Action κ δ) where
  init s := s.log = [] ∧ (∀ k, s.reads k = []) ∧ (∀ k, s.conns k = Conn.init) ∧
    (∀ k, s.pending k = []) ∧ ∀ j, s.subscribers j = none
  step s
    | .read k r => stepRead verify s k r
    | .send k => stepSend s k
    | .subscribe j => stepSubscribe s j
    | .recv j w => stepRecv rx s j w

/-! ### Invariant -/

variable {verify rx}

/-- The connection has been told of the part of the log from its start to its place; only its last write
can have failed. -/
structure Told (log : List (κ × DashboardPacket)) (x : Subscriber κ) : Prop where
  start : x.start ≤ x.next
  next : x.next ≤ log.length
  covers : Covers ((log.take x.next).drop x.start) (x.events.map Prod.fst)
  writes : ∀ e ∈ x.events.dropLast, afterWrite e.1 e.2 = true
  running : x.running = true → ∀ e ∈ x.events, afterWrite e.1 e.2 = true

theorem Told.append {log : List (κ × DashboardPacket)} {x : Subscriber κ} (h : Told log x)
    (m : List (κ × DashboardPacket)) : Told (log ++ m) x where
  start := h.start
  next := by
    rw [List.length_append]
    exact Nat.le_add_right_of_le h.next
  covers := by
    rw [List.take_append_of_le_length h.next]
    exact h.covers
  writes := h.writes
  running := h.running

theorem Told.recv {log : List (κ × DashboardPacket)} {x : Subscriber κ} (h : Told log x)
    {e : Event (κ × DashboardPacket)} {next : ℕ} (w : Write)
    (hrun : x.running = true)
    (hrecv : rx.recv log x.next = some (e, next)) :
    Told log ⟨x.start, next, x.events ++ [(e, w)], afterWrite e w⟩ := by
  obtain ⟨hlt, hlen, hcovers⟩ := h.covers.recv h.start hrecv
  refine ⟨Nat.le_trans h.start (Nat.le_of_lt hlt), hlen, ?_, ?_, fun hok => ?_⟩
  · rw [List.map_append]
    exact hcovers
  · rw [List.dropLast_concat]
    exact h.running hrun
  · exact List.forall_mem_append.mpr ⟨h.running hrun, List.forall_mem_singleton.mpr hok⟩

variable [DecidableEq κ]

variable (verify) in
/-- The packets of every capture connection are in the log in the order in which they were decoded, and
every dashboard connection has been told of its part of the log. -/
structure Inv (s : State κ δ) : Prop where
  conn : ∀ k, s.conns k = handleCppConnection verify (s.reads k)
  order : ∀ k, (s.log.filter (·.1 = k)).map Prod.snd ++ s.pending k = (s.conns k).sent
  told : ∀ j x, s.subscribers j = some x → Told s.log x

/-- A read only adds to what has been sent. -/
theorem prefix_step (conn : Conn) (r : Read) : conn.sent <+: (Framing.step verify conn r).sent := by
  unfold Framing.step
  split_ifs
  · exact List.prefix_refl _
  · cases r with
    | error => exact List.prefix_refl _
    | bytes bs =>
      dsimp only
      split_ifs
      · exact List.prefix_refl _
      · exact List.prefix_refl _
      · obtain ⟨ds, b, -, hsent, -, -⟩ := drain_spec verify (conn.buffer ++ bs) conn.sent
        rw [hsent]
        exact List.prefix_append _ _

theorem inv_init [DecidableEq δ] {s : State κ δ} (h : (machine verify rx δ).init s) : Inv verify s := by
  obtain ⟨hlog, hreads, hconns, hpending, hsubs⟩ := h
  refine ⟨fun k => ?_, fun k => ?_, fun j x hx => ?_⟩
  · rw [hconns, hreads]
    rfl
  · rw [hlog, hpending, hconns]
    rfl
  · rw [hsubs] at hx
    cases hx

theorem inv_read {s s' : State κ δ} {k : κ} {r : Read} (hi : Inv verify s)
    (h : stepRead verify s k r = some s') : Inv verify s' := by
  unfold stepRead at h
  split_ifs at h with hpending
  obtain rfl := Option.some.inj h
  refine ⟨fun k' => ?_, fun k' => ?_, hi.told⟩
  · by_cases hk : k' = k
    · subst hk
      simp only [Function.update_self]
      rw [hi.conn, handleCppConnection, handleCppConnection, List.foldl_concat]
    · simpa only [Function.update_of_ne hk] using hi.conn k'
  · by_cases hk : k' = k
    · subst hk
      have horder := hi.order k'
      rw [hpending, List.append_nil] at horder
      simp only [Function.update_self]
      rw [horder]
      exact List.prefix_iff_eq_append.mp (prefix_step (s.conns k') r)
    · simpa only [Function.update_of_ne hk] using hi.order k'

theorem inv_send {s s' : State κ δ} {k : κ} (hi : Inv verify s) (h : stepSend s k = some s') :
    Inv verify s' := by
  unfold stepSend at h
  split at h
  · cases h
  · rename_i d ds hpending
    obtain rfl := Option.some.inj h
    refine ⟨hi.conn, fun k' => ?_, fun j x hx => (hi.told j x hx).append _⟩
    have horder := hi.order k'
    rw [List.filter_append, List.map_append]
    by_cases hk : k' = k
    · subst hk
      rw [hpending] at horder
      simpa [List.filter_singleton] using horder
    · have hne : ¬ k = k' := fun heq => hk heq.symm
      simpa [Function.update_of_ne hk, List.filter_singleton, hne] using horder

variable [DecidableEq δ]

theorem inv_subscribe {s s' : State κ δ} {j : δ} (hi : Inv verify s)
    (h : stepSubscribe s j = some s') : Inv verify s' := by
  unfold stepSubscribe at h
  split at h
  · obtain rfl := Option.some.inj h
    refine ⟨hi.conn, hi.order, fun j' x hx => ?_⟩
    by_cases hj : j' = j
    · subst hj
      simp only [Function.update_self, Option.some.injEq] at hx
      subst hx
      refine ⟨Nat.le_refl _, Nat.le_refl _, ?_, by simp, by simp⟩
      rw [List.take_length, List.drop_length]
      exact .nil
    · simp only [Function.update_of_ne hj] at hx
      exact hi.told j' x hx
  · cases h

theorem inv_recv {s s' : State κ δ} {j : δ} {w : Write} (hi : Inv verify s)
    (h : stepRecv rx s j w = some s') : Inv verify s' := by
  unfold stepRecv at h
  split at h
  · cases h
  · rename_i x hx
    split_ifs at h with hrun
    split at h
    · cases h
    · rename_i e next hrecv
      obtain rfl := Option.some.inj h
      refine ⟨hi.conn, hi.order, fun j' y hy => ?_⟩
      by_cases hj : j' = j
      · subst hj
        simp only [Function.update_self, Option.some.injEq] at hy
        subst hy
        exact (hi.told j' x hx).recv w hrun hrecv
      · simp only [Function.update_of_ne hj] at hy
        exact hi.told j' y hy

/-- **One step.** -/
theorem inv_step {s s' : State κ δ} {a : Action κ δ} (hi : Inv verify s)
    (h : (machine verify rx δ).step s a = some s') : Inv verify s' := by
  cases a with
  | read k r => exact inv_read hi h
  | send k => exact inv_send hi h
  | subscribe j => exact inv_subscribe hi h
  | recv j w => exact inv_recv hi h

theorem inv_of_reach {s : State κ δ} (h : (machine verify rx δ).Reach s) : Inv verify s :=
  h.invariant (fun _ hs => inv_init hs) fun _ _ _ hi ha => inv_step hi ha

end Pacsni.Service.Relay
