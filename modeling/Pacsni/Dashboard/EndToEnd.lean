import Pacsni.Dashboard.Link
import Pacsni.Dashboard.Clients
import Pacsni.Dashboard.Report

/-! # From the wire to the browsers

All programs in one machine: any number of capture processes with all their threads, the service, the
dashboard with its connections to the service, one after the other, and any number of browsers. They take
their steps in any order. A process and the service share a byte stream, the service and the dashboard
another one, and the goroutines of the dashboard the channel `packetChan`.

Whatever a browser is shown is the record of a frame that was captured; no frame is shown twice, and the
time, the length, the addresses and the bytes shown are those of the frame. -/

namespace Pacsni.Dashboard.EndToEnd

open Pacsni.Lib.Text Pacsni.Lib.Json Pacsni.Lib.Broadcast Pacsni.Lib.Runs
open Pacsni.Capture.Types Pacsni.Capture.Send Pacsni.Capture.Process
open Pacsni.Service.Decode Pacsni.Service.Framing Pacsni.Service.Lines Pacsni.Service.Relay
open Pacsni.Dashboard.Packet Pacsni.Dashboard.Lru Pacsni.Dashboard.Server Pacsni.Dashboard.Intake
open Pacsni.Dashboard.Pipeline Pacsni.Dashboard.Forward Pacsni.Dashboard.Clients
open Pacsni.Dashboard.Link (forwarded)
open Pacsni.Dashboard.Report (Reports reports_of_dissected)
open Pacsni.Dashboard.Unmarshal (forget)

/-! ### The machine -/

deriving instance DecidableEq for DashboardPacket

/-- The state of all programs. `arrived` are the packets that the packet goroutine has received. -/
structure World (ι κ δ ρ ν : Type*) where
  captures : κ → Capture.Process.State ι
  link : Link.State κ δ
  hub : Hub ρ ν
  arrived : List Service.Model.DashboardPacket

/-- A step of the capture process `k`, of the service or a connection to it, or of the dashboard. -/
inductive Move (ι κ δ ρ ν : Type*)
  | capture (k : κ) (a : Capture.Process.Action ι)
  | link (a : Link.Action κ δ)
  | hub (a : Act ρ ν)

section

variable {ι κ δ ρ ν : Type*}

/-- The service reads bytes that the session of the process `k` has accepted, and no more of them than its
buffer has room for. -/
def Delivers (s : World ι κ δ ρ ν) : Link.Action κ δ → Prop
  | .service (.read k (.bytes bs)) =>
    arrived (s.link.service.reads k ++ [.bytes bs]) <+: (s.captures k).session.accepted ∧
      bs.length ≤ bufferLimit - 1087
  | _ => True

instance (s : World ι κ δ ρ ν) : ∀ a, Decidable (Delivers s a)
  | .service (.read _ (.bytes _)) => inferInstanceAs (Decidable (_ ∧ _))
  | .service (.read _ .error) => .isTrue trivial
  | .service (.send _) => .isTrue trivial
  | .service (.subscribe _) => .isTrue trivial
  | .service (.recv _ _) => .isTrue trivial
  | .connect _ => .isTrue trivial
  | .read _ => .isTrue trivial
  | .close => .isTrue trivial

variable [DecidableEq ι] [DecidableEq κ] [DecidableEq δ] [DecidableEq ρ] [DecidableEq ν]

variable (ι κ δ ρ ν) in
/-- All programs. The packet goroutine receives what has been sent on `packetChan`. -/
def machine (hmac : κ → List UInt8 → Vector UInt8 64) (verify : List UInt8 → List UInt8 → Bool)
    (rx : Channel (κ × Service.Model.DashboardPacket)) (escape : Char → Str) (foldRune : Char → Char)
    (env : Env) (savedOK : LruCache → Prop) : Machine (World ι κ δ ρ ν) (Move ι κ δ ρ ν) where
  init s := (∀ k, s.captures k = Capture.Process.init) ∧
    (Link.machine verify rx escape δ).init s.link ∧ (hub ρ ν env savedOK).init s.hub ∧
    s.arrived = []
  step s
    | .capture k a => ((Capture.Process.machine (hmac k) ι).step (s.captures k) a).map fun x =>
        { s with captures := Function.update s.captures k x }
    | .link a =>
      if Delivers s a then
        ((Link.machine verify rx escape δ).step s.link a).map fun x => { s with link := x }
      else none
    | .hub a =>
      if (s.arrived ++ arrivals s.hub a).map received <+: forwarded foldRune s.link then
        ((hub ρ ν env savedOK).step s.hub a).map fun x =>
          { s with hub := x, arrived := s.arrived ++ arrivals s.hub a }
      else none

end

/-! ### The invariant -/

section

variable {ι κ δ ρ ν : Type*} [Fintype ι] [DecidableEq κ]
variable {hmac : κ → List UInt8 → Vector UInt8 64} {verify : List UInt8 → List UInt8 → Bool}
  {rx : Channel (κ × Service.Model.DashboardPacket)} {escape : Char → Str} {foldRune : Char → Char}
  {env : Env} {savedOK : LruCache → Prop} {s s' : World ι κ δ ρ ν}

variable (hmac verify escape foldRune env savedOK) in
/-- The programs keep what they keep on their own; what the service has read from a process is a start of
the messages of what its sender has popped, and what has arrived at the packet goroutine is a start of what
has been sent on `packetChan`. -/
structure Inv [DecidableEq ρ] (s : World ι κ δ ρ ν) : Prop where
  captures : ∀ k, Capture.Process.Inv (s.captures k) ∧ Sends (hmac k) (s.captures k)
  link : Link.Inv verify escape foldRune s.link
  hub : Clients.Inv env savedOK s.hub s.arrived
  stream : ∀ k, arrived (s.link.service.reads k) <+:
    Capture.Send.messages (hmac k) (s.captures k).popped
  fits : ∀ k bs, .bytes bs ∈ s.link.service.reads k → bs.length ≤ bufferLimit - 1087
  channel : s.arrived.map received <+: forwarded foldRune s.link

/-- What a step of the connections does to the reads of the service. -/
theorem reads_step [DecidableEq δ] {a : Link.Action κ δ} {y y' : Link.State κ δ}
    (h : (Link.machine verify rx escape δ).step y a = some y') :
    y'.service.reads = y.service.reads ∨ ∃ k r, a = .service (.read k r) ∧
      y'.service.reads = Function.update y.service.reads k (y.service.reads k ++ [r]) := by
  cases a with
  | service a =>
    obtain ⟨service, hservice, rfl⟩ := Option.map_eq_some_iff.mp h
    cases a with
    | read k r =>
      simp only [Service.Relay.machine, stepRead] at hservice
      split_ifs at hservice
      obtain rfl := Option.some.inj hservice
      exact Or.inr ⟨k, r, rfl, rfl⟩
    | send k =>
      simp only [Service.Relay.machine, stepSend] at hservice
      split at hservice
      · cases hservice
      · obtain rfl := Option.some.inj hservice
        exact Or.inl rfl
    | subscribe j =>
      simp only [Service.Relay.machine, stepSubscribe] at hservice
      split at hservice
      · obtain rfl := Option.some.inj hservice
        exact Or.inl rfl
      · cases hservice
    | recv j w =>
      simp only [Service.Relay.machine, stepRecv] at hservice
      split at hservice
      · cases hservice
      · split_ifs at hservice
        split at hservice
        · cases hservice
        · obtain rfl := Option.some.inj hservice
          exact Or.inl rfl
  | connect j =>
    simp only [Link.machine] at h
    split at h
    · obtain ⟨service, hservice, rfl⟩ := Option.map_eq_some_iff.mp h
      unfold stepSubscribe at hservice
      split at hservice
      · obtain rfl := Option.some.inj hservice
        exact Or.inl rfl
      · cases hservice
    · cases h
  | read chunk =>
    simp only [Link.machine, Link.stepRead] at h
    split at h
    · cases h
    · split at h
      · cases h
      · split_ifs at h
        obtain rfl := Option.some.inj h
        exact Or.inl rfl
  | close =>
    simp only [Link.machine] at h
    split at h
    · cases h
    · obtain rfl := Option.some.inj h
      exact Or.inl rfl

variable [DecidableEq ι] [DecidableEq δ] [DecidableEq ρ] [DecidableEq ν]

theorem inv_init (h : (machine ι κ δ ρ ν hmac verify rx escape foldRune env savedOK).init s) :
    Inv hmac verify escape foldRune env savedOK s := by
  obtain ⟨hcaptures, hlink, hhub, harrived⟩ := h
  have hreads : ∀ k, s.link.service.reads k = [] := hlink.1.2.1
  refine ⟨fun k => ?_, Link.inv_start hlink, ?_, fun k => ?_, fun k bs hbs => ?_, ?_⟩
  · rw [hcaptures]
    exact ⟨Capture.Process.inv_init, sends_init⟩
  · rw [harrived]
    exact Clients.inv_of_reach (x := (s.hub, [])) (.of_init ⟨hhub, rfl⟩)
  · rw [hreads]
    exact List.nil_prefix
  · rw [hreads] at hbs
    cases hbs
  · rw [harrived]
    exact List.nil_prefix

omit [DecidableEq δ] [DecidableEq ν] in
/-- A step of a capture process. -/
theorem inv_capture {k : κ} {a : Capture.Process.Action ι} {x : Capture.Process.State ι}
    (hs : Inv hmac verify escape foldRune env savedOK s)
    (h : (Capture.Process.machine (hmac k) ι).step (s.captures k) a = some x) :
    Inv hmac verify escape foldRune env savedOK { s with captures := Function.update s.captures k x } := by
  refine ⟨fun k' => ?_, hs.link, hs.hub, fun k' => ?_, hs.fits, hs.channel⟩
  · by_cases hk : k' = k
    · subst hk
      dsimp only
      rw [Function.update_self]
      exact keeps_step (hs.captures k').1 (hs.captures k').2 h
    · dsimp only
      rw [Function.update_of_ne hk]
      exact hs.captures k'
  · by_cases hk : k' = k
    · subst hk
      dsimp only
      rw [Function.update_self]
      exact (hs.stream k').trans (messages_of_start (popped_step h))
    · dsimp only
      rw [Function.update_of_ne hk]
      exact hs.stream k'

omit [DecidableEq ι] [DecidableEq ν] in
/-- A step of the service or of a connection to it. -/
theorem inv_link {a : Link.Action κ δ} {x : Link.State κ δ} (hescape : Escapes escape)
    (hs : Inv hmac verify escape foldRune env savedOK s) (hok : Delivers s a)
    (h : (Link.machine verify rx escape δ).step s.link a = some x) :
    Inv hmac verify escape foldRune env savedOK { s with link := x } := by
  have hstream : ∀ k, arrived (x.service.reads k) <+:
      Capture.Send.messages (hmac k) (s.captures k).popped ∧
      ∀ bs, .bytes bs ∈ x.service.reads k → bs.length ≤ bufferLimit - 1087 := by
    intro k
    have hold := (⟨hs.stream k, hs.fits k⟩ : _ ∧ _)
    rcases reads_step h with hsame | ⟨j, r, rfl, hread⟩
    · rwa [hsame]
    · rw [hread]
      by_cases hk : k = j
      · subst hk
        rw [Function.update_self]
        cases r with
        | error =>
          refine ⟨?_, fun bs hbs => hold.2 bs (by simpa using hbs)⟩
          simpa [arrived] using hold.1
        | bytes bs =>
          refine ⟨hok.1.trans (hs.captures k).2.start, fun bs' hbs' => ?_⟩
          rcases List.mem_append.mp hbs' with hmem | hmem
          · exact hold.2 bs' hmem
          · obtain rfl := Read.bytes.inj (List.mem_singleton.mp hmem)
            exact hok.2
      · rwa [Function.update_of_ne hk]
  exact ⟨hs.captures, Link.inv_step hescape hs.link h, hs.hub, fun k => (hstream k).1,
    fun k => (hstream k).2, hs.channel.trans (Link.forwarded_step h)⟩

theorem inv_step {a : Move ι κ δ ρ ν} (hescape : Escapes escape)
    (hs : Inv hmac verify escape foldRune env savedOK s)
    (h : (machine ι κ δ ρ ν hmac verify rx escape foldRune env savedOK).step s a = some s') :
    Inv hmac verify escape foldRune env savedOK s' := by
  cases a with
  | capture k a =>
    obtain ⟨x, hx, rfl⟩ := Option.map_eq_some_iff.mp h
    exact inv_capture hs hx
  | link a =>
    simp only [machine] at h
    split_ifs at h with hok
    obtain ⟨x, hx, rfl⟩ := Option.map_eq_some_iff.mp h
    exact inv_link hescape hs hok hx
  | hub a =>
    simp only [machine] at h
    split_ifs at h with hok
    obtain ⟨x, hx, rfl⟩ := Option.map_eq_some_iff.mp h
    exact ⟨hs.captures, hs.link, Clients.inv_step hs.hub hx, hs.stream, hs.fits, hok⟩

theorem inv_of_reach (hescape : Escapes escape)
    (h : (machine ι κ δ ρ ν hmac verify rx escape foldRune env savedOK).Reach s) :
    Inv hmac verify escape foldRune env savedOK s :=
  h.invariant (fun _ hs => inv_init hs) fun _ _ _ hs ha => inv_step hescape hs ha

/-! ### What is shown -/

/-- The packets that can be seen: those of the history, and those that a browser has got. -/
inductive Visible {ρ ν : Type*} (y : Hub ρ ν) : List DashboardPacket → Prop
  | history : Visible y (y.server.historyBuffer.getAll false)
  | client {c : ν} {client : Client} (h : y.clients c = some client) :
      Visible y (packetsOf client.written)

omit [Fintype ι] [DecidableEq κ] [DecidableEq ι] [DecidableEq δ] [DecidableEq ρ] [DecidableEq ν] in
/-- `packetChan` gives what was put into it. -/
theorem arrived_eq {l : List Service.Model.DashboardPacket} {ps : List (κ × Service.Model.DashboardPacket)}
    (h : l.map received <+: ps.map fun p => received (forget p.2)) : l <+: ps.map fun p => forget p.2 := by
  have hmap := h.map (·.toDashboardPacket)
  rw [List.map_map, List.map_map] at hmap
  have hid : (fun p : DashboardPacket => p.toDashboardPacket) ∘ received = id := rfl
  rwa [hid, List.map_id] at hmap

/-- **From the wire to the browsers.** In every state of all programs, the packets that are in the history
or that a browser has got come, in their order, from what the service has sent. Those that come from a
capture process that has the key are records of frames that it has captured, each of a frame of its own;
and what the dashboard has of a frame with an Ethernet header reports it. -/
theorem seen_on_wire (hescape : Escapes escape)
    (h : (machine ι κ δ ρ ν hmac verify rx escape foldRune env savedOK).Reach s)
    {seen : List DashboardPacket} (hseen : Visible s.hub seen) :
    ∃ ps : List (κ × Service.Model.DashboardPacket), ps.Sublist s.link.service.log ∧
      origins seen = ps.map (fun p => forget p.2) ∧
      ∀ k, (∀ chunk, verify chunk (hmac k chunk).toList = true) →
        ∃ ds : List (RawPacket × PacketInfo),
          (ps.filter (·.1 = k)).map Prod.snd = ds.map (fun d => shown d.2) ∧
          (ds.map Prod.fst : Multiset RawPacket) ≤ raws ⟨0, 0⟩ (s.captures k).callbacks ∧
          ∀ d ∈ ds, Dissected d.1 d.2 ∧
            (14 ≤ d.1.pkthdr.caplen.toNat → Reports d.1 (forget (shown d.2))) := by
  have hs := inv_of_reach hescape h
  obtain ⟨qs, hqs, hforwarded⟩ := hs.link.forwarded hescape
  have hchannel := hs.channel
  rw [hforwarded] at hchannel
  have hsub : (origins seen).Sublist s.arrived := by
    cases hseen with
    | history => exact hs.hub.history
    | client h => exact hs.hub.written h
  obtain ⟨ps, hps, heq⟩ := List.sublist_map_iff.mp (hsub.trans (arrived_eq hchannel).sublist)
  refine ⟨ps, hps.trans hqs, heq, fun k hverify => ?_⟩
  have hshown := filter_sublist_of_stream hs.link.service (hps.trans hqs) hverify (hs.fits k) (hs.stream k)
  obtain ⟨es, hpopped, hall, hraws⟩ := (hs.captures k).1.exists_popped
  rw [← hpopped, List.map_map] at hshown
  obtain ⟨ds, hds, hmap⟩ := List.sublist_map_iff.mp hshown
  refine ⟨ds, hmap, le_trans (Multiset.coe_le.mpr (hds.map _).subperm) hraws, fun d hd => ?_⟩
  have hd := hall d (hds.mem hd)
  exact ⟨hd, reports_of_dissected hd⟩

end

/-! ### One frame -/

section

variable {ι κ δ ρ ν : Type*} [DecidableEq ι] [DecidableEq κ] [DecidableEq δ] [DecidableEq ρ]
  [DecidableEq ν]
variable {hmac : κ → List UInt8 → Vector UInt8 64} {verify : List UInt8 → List UInt8 → Bool}
  {rx : Channel (κ × Service.Model.DashboardPacket)} {escape : Char → Str} {foldRune : Char → Char}
  {env : Env} {savedOK : LruCache → Prop} {s : World ι κ δ ρ ν}

/-- A capture process takes some steps. -/
theorem reach_capture {k : κ} (as : List (Capture.Process.Action ι)) {x : Capture.Process.State ι}
    (h : (machine ι κ δ ρ ν hmac verify rx escape foldRune env savedOK).Reach s)
    (he : (Capture.Process.machine (hmac k) ι).exec (s.captures k) as = some x) :
    (machine ι κ δ ρ ν hmac verify rx escape foldRune env savedOK).Reach
      { s with captures := Function.update s.captures k x } := by
  induction as generalizing s with
  | nil =>
    obtain rfl := Option.some.inj he
    rwa [Function.update_eq_self]
  | cons a as ih =>
    obtain ⟨y, hy, he⟩ := Option.bind_eq_some_iff.mp he
    have hstep : (machine ι κ δ ρ ν hmac verify rx escape foldRune env savedOK).step s (.capture k a) =
        some { s with captures := Function.update s.captures k y } := by
      simp only [machine, hy, Option.map_some]
    have hrest := ih (h.next trivial hstep) (by dsimp only; rwa [Function.update_self])
    dsimp only at hrest
    rwa [Function.update_idem] at hrest

/-- The service and the connections to it take some steps. -/
theorem reach_link (as : List (Link.Action κ δ)) {y : Link.State κ δ}
    (h : (machine ι κ δ ρ ν hmac verify rx escape foldRune env savedOK).Reach s)
    (he : (Link.machine verify rx escape δ).exec s.link as = some y)
    (hok : (Link.machine verify rx escape δ).Along (fun y a => Delivers { s with link := y } a)
      s.link as) :
    (machine ι κ δ ρ ν hmac verify rx escape foldRune env savedOK).Reach { s with link := y } := by
  induction as generalizing s with
  | nil =>
    obtain rfl := Option.some.inj he
    exact h
  | cons a as ih =>
    obtain ⟨z, hz, he⟩ := Option.bind_eq_some_iff.mp he
    obtain ⟨hdelivers, hrest⟩ := hok
    rw [hz] at hrest
    have hstep : (machine ι κ δ ρ ν hmac verify rx escape foldRune env savedOK).step s (.link a) =
        some { s with link := z } := by
      have hdelivers : Delivers s a := hdelivers
      simp only [machine, if_pos hdelivers, hz, Option.map_some]
    exact ih (s := { s with link := z }) (h.next trivial hstep) he hrest

/-- The log of a run only grows. -/
theorem log_of_exec {σ α ε : Type*} {M : Machine σ α} {note : σ → α → List ε} (as : List α)
    {x x' : σ × List ε} (h : (M.recorded note).exec x as = some x') : x.2 <+: x'.2 := by
  induction as generalizing x with
  | nil =>
    obtain rfl := Option.some.inj h
    exact List.prefix_refl _
  | cons a as ih =>
    obtain ⟨y, hy, h⟩ := Option.bind_eq_some_iff.mp h
    have hlog := (Machine.recorded_step.mp hy).2
    exact (List.prefix_append _ _).trans (hlog ▸ ih h)

/-- The dashboard takes some steps. -/
theorem reach_hub (as : List (Act ρ ν)) {y : Hub ρ ν} {l : List Service.Model.DashboardPacket}
    (h : (machine ι κ δ ρ ν hmac verify rx escape foldRune env savedOK).Reach s)
    (he : ((hub ρ ν env savedOK).recorded arrivals).exec (s.hub, s.arrived) as = some (y, l))
    (hl : l.map received <+: forwarded foldRune s.link) :
    (machine ι κ δ ρ ν hmac verify rx escape foldRune env savedOK).Reach
      { s with hub := y, arrived := l } := by
  induction as generalizing s with
  | nil =>
    obtain ⟨rfl, rfl⟩ := Prod.mk.inj (Option.some.inj he)
    exact h
  | cons a as ih =>
    obtain ⟨⟨z, m⟩, hz, he⟩ := Option.bind_eq_some_iff.mp he
    obtain ⟨hz, rfl⟩ := Machine.recorded_step.mp hz
    have hok : (s.arrived ++ arrivals s.hub a).map received <+: forwarded foldRune s.link :=
      ((log_of_exec as he).map _).trans hl
    have hstep : (machine ι κ δ ρ ν hmac verify rx escape foldRune env savedOK).step s (.hub a) =
        some { s with hub := z, arrived := s.arrived ++ arrivals s.hub a } := by
      simp only [machine, if_pos hok, hz, Option.map_some]
    exact ih (s := { s with hub := z, arrived := s.arrived ++ arrivals s.hub a }) (h.next trivial hstep) he hl

end

/-- The steps of a process that captures one frame and sends its record. -/
def sendOne (c : Callback) : List (Capture.Process.Action Unit) :=
  [.capture c true, .worker () true (fun _ => 0) PacketInfo.zero,
    .worker () true (fun _ => 0) PacketInfo.zero, .worker () true (fun _ => 0) PacketInfo.zero,
    .sender true .wantRetry, .sender true .wantRetry, .sender true (.wrote 1087)]

/-- The process behind that. -/
def sentOne (c : Callback) (info : PacketInfo) : Capture.Process.State Unit where
  keepRunning := true
  capture := .inLoop
  lastTs := c.pkthdr.ts
  rawQueue := []
  dissectedQueue := []
  workers _ := .check
  sender := .check
  session := ⟨Capture.Layout.sendPacketInfo zeroMac info, false⟩
  callbacks := [c]
  popped := [info]

theorem update_unit {β : Type*} (f : Unit → β) (b : β) : Function.update f () b = fun _ => b :=
  funext fun _ => Function.update_self ..

theorem exec_sendOne {c : Callback} {info : PacketInfo}
    (h : (Capture.Raw.dissectRawPacket (loaded (Capture.Raw.packetHandler c.pkthdr c.frame c.mem ⟨0, 0⟩)
      fun _ => 0) PacketInfo.zero).val = some info) :
    (Capture.Process.machine zeroMac Unit).exec Capture.Process.init (sendOne c) = some (sentOne c info) := by
  have hlen : (Capture.Layout.sendPacketInfo zeroMac info).length = 1088 := length_sendPacketInfo zeroMac info
  have hwrite : ∀ s : Capture.Process.State Unit, s.session = .fresh →
      stepWrite zeroMac s info 0 (.wrote 1087) .send .check = { s with
        session := ⟨Capture.Layout.sendPacketInfo zeroMac info, false⟩, sender := .check } := by
    intro s hs
    have htake : (Capture.Layout.sendPacketInfo zeroMac info).take (min (1087 + 1) 1088) =
        Capture.Layout.sendPacketInfo zeroMac info := List.take_of_length_le hlen.le
    simp only [stepWrite, sslWrite, hs, Session.fresh, List.drop_zero, hlen, htake]
    rfl
  have hraw : ([] : List RawPacket).length < Queue.Shutdown.queueCapacity := by decide
  have hrecord : ([] : List PacketInfo).length < Queue.Shutdown.queueCapacity := by decide
  simp only [Machine.exec, sendOne, Capture.Process.machine, Capture.Process.init, stepCapture, stepWorker,
    update_unit, true_and, hraw, hrecord, if_true, h, stepSender, Option.bind_some, Option.map_some,
    List.nil_append]
  exact congrArg some (hwrite _ rfl)
/-- What the connection of the dashboard has received. -/
def subscriberOne (info : PacketInfo) : Subscriber Unit := ⟨0, 1, [(.value ((), shown info), .ok)], true⟩

/-- The steps in which the record goes through the service, until the connection is closed. -/
def relayOne (info : PacketInfo) : List (Link.Action Unit Unit) :=
  [.connect (), .service (.read () (.bytes (Capture.Layout.sendPacketInfo zeroMac info))),
    .service (.send ()), .service (.recv () .ok),
    .read (handleGoConnection serdeEscape (subscriberOne info).recvs), .close]

/-- The service and the connections before. -/
def linkStart : Link.State Unit Unit :=
  ⟨⟨[], fun _ => [], fun _ => Conn.init, fun _ => [], fun _ => none⟩, [], none⟩

/-- The service and the connections behind that. -/
def relayedOne (info : PacketInfo) : Link.State Unit Unit where
  service := ⟨[((), shown info)], fun _ => [.bytes (Capture.Layout.sendPacketInfo zeroMac info)],
    fun _ => ⟨[], [shown info], none⟩, fun _ => [], fun _ => some (subscriberOne info)⟩
  past := [⟨(), [handleGoConnection serdeEscape (subscriberOne info).recvs]⟩]
  current := none

theorem exec_relayOne (info : PacketInfo) :
    (Link.machine (fun _ _ => true) oneChannel serdeEscape Unit).exec linkStart (relayOne info) =
      some (relayedOne info) := by
  have hline : [handleGoConnection serdeEscape (subscriberOne info).recvs].flatten <+:
      handleGoConnection serdeEscape (subscriberOne info).recvs := by simp
  have hpending : List.drop Conn.init.sent.length [shown info] = [shown info] := rfl
  have hrecv : oneChannel.recv [((), shown info)] 0 = some (.value ((), shown info), 1) := rfl
  have hafter : ∀ p : Unit × Service.Model.DashboardPacket, afterWrite (.value p) .ok = true := fun _ => rfl
  unfold subscriberOne at hline
  simp only [Machine.exec, relayOne, linkStart, Link.machine, stepSubscribe, update_unit, Option.map_some,
    Option.bind_some, Service.Relay.machine, stepRead, if_true, step_one, stepSend, stepRecv, Link.stepRead,
    hpending, List.nil_append, List.length_nil, hrecv, hafter, subscriberOne, hline]
  rfl
/-- A frame of 60 bytes of which 14 are captured, with an ethertype that the dissection does not know. -/
def stray : Callback := ⟨⟨⟨1, 5⟩, 14, 60⟩, fun i => if i < 12 then UInt8.ofNat i else 0x99, fun _ => 0⟩

/-- Its record. -/
def strayRecord : PacketInfo :=
  { PacketInfo.zero with
    timestamp := 1000005
    srcMac := #v[6, 7, 8, 9, 10, 11]
    dstMac := #v[0, 1, 2, 3, 4, 5]
    l3Offset := 14
    wireLen := 60 }

/-- The raw packet in the variable of a worker. -/
def strayRaw : RawPacket :=
  loaded (Capture.Raw.packetHandler stray.pkthdr stray.frame stray.mem ⟨0, 0⟩) fun _ => 0

open Pacsni.Capture.Raw Pacsni.Capture.LayerSpec Pacsni.Capture.Wire4 Pacsni.Lib.Trace in
theorem dissect_stray : (dissectRawPacket strayRaw PacketInfo.zero).val = some strayRecord := by
  have hdepth : TagDepth strayRaw.data strayRaw.pkthdr.caplen.toNat 0 := ⟨by decide, by decide, by decide⟩
  unfold dissectRawPacket
  rw [val_bind, parseEthernetLayer_of_tagDepth hdepth]
  rfl

/-- All programs with one of each. -/
abbrev oneOfEach : Machine (World Unit Unit Unit Unit Unit) (Move Unit Unit Unit Unit Unit) :=
  machine Unit Unit Unit Unit Unit (fun _ => zeroMac) (fun _ _ => true) oneChannel serdeEscape id Geo.atlas
    Geo.SavedOK

/-- All programs when the record has gone through the service. -/
def worldRelayed : World Unit Unit Unit Unit Unit where
  captures _ := sentOne stray strayRecord
  link := relayedOne strayRecord
  hub := unserved
  arrived := []

theorem reach_worldRelayed : oneOfEach.Reach worldRelayed := by
  have hstart : oneOfEach.Reach ⟨fun _ => Capture.Process.init, linkStart, unserved, []⟩ :=
    .of_init ⟨fun _ => rfl, ⟨⟨rfl, fun _ => rfl, fun _ => rfl, fun _ => rfl, fun _ => rfl⟩, rfl, rfl⟩,
      ⟨Geo.init_started, fun _ => rfl⟩, rfl⟩
  have hsent := reach_capture (k := ()) (sendOne stray) hstart (exec_sendOne dissect_stray)
  rw [update_unit] at hsent
  refine reach_link (relayOne strayRecord) hsent (exec_relayOne strayRecord) ⟨trivial, ⟨?_, ?_⟩, ?_⟩
  · show arrived [.bytes (Capture.Layout.sendPacketInfo zeroMac strayRecord)] <+:
      Capture.Layout.sendPacketInfo zeroMac strayRecord
    simp [arrived]
  · rw [length_sendPacketInfo]
    decide
  · cases (Link.machine (fun _ _ => true) oneChannel serdeEscape Unit).step _ _ with
    | none => trivial
    | some y => exact Machine.along_of_forall y _ (by simp [Delivers])

theorem forwarded_relayedOne (info : PacketInfo) :
    forwarded id (relayedOne info) = [forget (shown info)].map received := by
  have hrs : ∀ d w, .packet d w ∈ (subscriberOne info).recvs → Decoded (fun _ _ => true) d := by
    intro d w hd
    obtain ⟨rfl, rfl⟩ : d = shown info ∧ w = .ok := by
      simpa [subscriberOne, Subscriber.recvs, recvOf] using hd
    exact decoded_shown info (Vector.replicate 64 0)
  have hintake : intake id [handleGoConnection serdeEscape (subscriberOne info).recvs] =
      [forget (shown info)].map received :=
    (intake_of_flatten id escapes_serdeEscape hrs List.flatten_singleton).2
  simp [forwarded, relayedOne, hintake]

/-- The packet reaches a browser. -/
def showOne : List (Act Unit Unit) :=
  [.register (), .server (.arrive (forget (shown strayRecord))), .server .packetLoop, .server .packetLoop,
    .server .packetLoop, .take (), .write () true]

/-- The dashboard behind that. -/
def shownOne : Hub Unit Unit × List Service.Model.DashboardPacket :=
  (((hub Unit Unit Geo.atlas Geo.SavedOK).recorded arrivals).exec (unserved, []) showOne).get (by decide)

/-- The browser. -/
def strayClient : Client := (shownOne.1.clients ()).get (by decide)

/-- All programs behind that. -/
def worldShown : World Unit Unit Unit Unit Unit :=
  { worldRelayed with hub := shownOne.1, arrived := shownOne.2 }

theorem reach_worldShown : oneOfEach.Reach worldShown := by
  refine reach_hub (s := worldRelayed) showOne reach_worldRelayed ?_ ?_
  · simp [shownOne, worldRelayed]
  · rw [show worldRelayed.link = relayedOne strayRecord from rfl, forwarded_relayedOne,
      show shownOne.2 = [forget (shown strayRecord)] from rfl]

theorem seen_on_wire_stray : (packetsOf strayClient.written).length = 1 ∧
    ∃ ps : List (Unit × Service.Model.DashboardPacket), ps.Sublist worldShown.link.service.log ∧
      origins (packetsOf strayClient.written) = ps.map (fun p => forget p.2) ∧
      ∀ k, (∀ _ : List UInt8, true = true) →
        ∃ ds : List (RawPacket × PacketInfo),
          (ps.filter (·.1 = k)).map Prod.snd = ds.map (fun d => shown d.2) ∧
          (ds.map Prod.fst : Multiset RawPacket) ≤ raws ⟨0, 0⟩ (worldShown.captures k).callbacks ∧
          ∀ d ∈ ds, Dissected d.1 d.2 ∧
            (14 ≤ d.1.pkthdr.caplen.toNat → Reports d.1 (forget (shown d.2))) :=
  have hclient : worldShown.hub.clients () = some strayClient := by simp [strayClient, worldShown]
  ⟨rfl, seen_on_wire escapes_serdeEscape reach_worldShown (.client hclient)⟩

end Pacsni.Dashboard.EndToEnd
