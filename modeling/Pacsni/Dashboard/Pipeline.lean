import Pacsni.Capture.Send
import Pacsni.Service.Relay
import Pacsni.Dashboard.Intake

/-! # From the capture processes to the dashboard

The three programs together: a sender thread writes the records that it pops, the service checks and
decodes what arrives and hands it on, and a dashboard reads the lines that it is sent. In every state of
the service, what a dashboard has got is some of the log in its order, and of each capture process
records that it has popped, in their order (`intake_relayed`). Packets are lost in no way but by a lag
that the service has been told of, or behind a failed write (`intake_accounted`). -/

namespace Pacsni.Dashboard.Pipeline

open Pacsni.Lib.Text Pacsni.Lib.Json Pacsni.Lib.Scanner Pacsni.Lib.Broadcast Pacsni.Lib.Runs
open Pacsni.Capture.Types Pacsni.Capture.Layout
open Pacsni.Service.Model (structSize totalMsgSize)
open Pacsni.Service.Decode Pacsni.Service.Framing Pacsni.Service.Lines Pacsni.Service.Relay
open Pacsni.Dashboard.Packet Pacsni.Dashboard.Intake
open Pacsni.Dashboard.Unmarshal (forget)

/-! ### What a capture process has sent -/

section

theorem length_sendPacketInfo (hmac : List UInt8 → Vector UInt8 64) (info : PacketInfo) :
    (sendPacketInfo hmac info).length = totalMsgSize := by
  rw [sendPacketInfo, List.length_append, length_toBytes, Vector.length_toList]
  rfl

variable {hmac : List UInt8 → Vector UInt8 64} {verify : List UInt8 → List UInt8 → Bool}
  {infos : List PacketInfo}

/-- The complete messages in a start of the stream are those of the first records. -/
theorem messages_of_start {s : List UInt8} (h : s <+: Capture.Send.messages hmac infos) :
    messages s = (infos.take (s.length / totalMsgSize)).map (sendPacketInfo hmac) := by
  induction infos generalizing s with
  | nil =>
    obtain rfl : s = [] := List.prefix_nil.mp h
    rw [messages, dif_neg (by decide), List.take_nil, List.map_nil]
  | cons info infos ih =>
    have hcons : Capture.Send.messages hmac (info :: infos) =
        sendPacketInfo hmac info ++ Capture.Send.messages hmac infos := rfl
    rw [hcons] at h
    by_cases hlen : totalMsgSize ≤ s.length
    · obtain ⟨u, rfl⟩ : sendPacketInfo hmac info <+: s :=
        List.prefix_of_prefix_length_le (List.prefix_append _ _) h (by rwa [length_sendPacketInfo])
      have hu := ih ((List.prefix_append_right_inj _).mp h)
      have hdiv : (sendPacketInfo hmac info ++ u).length / totalMsgSize = u.length / totalMsgSize + 1 := by
        rw [List.length_append, length_sendPacketInfo, Nat.add_comm,
          Nat.add_div_right _ (by decide)]
      rw [messages, dif_pos hlen, hdiv, List.take_succ_cons, List.map_cons, ← hu,
        ← length_sendPacketInfo hmac info, List.take_left, List.drop_left]
    · rw [messages, dif_neg hlen, Nat.div_eq_of_lt (by omega), List.take_zero, List.map_nil]

/-- The service takes the messages of a process that has its key. -/
theorem framed_eq (hverify : ∀ chunk, verify chunk (hmac chunk).toList = true)
    {ds : List Service.Model.DashboardPacket} {b : Bool}
    (h : Framed verify (infos.map (sendPacketInfo hmac)) ds b) : ds = infos.map shown ∧ b = false := by
  induction infos generalizing ds with
  | nil =>
    cases h
    exact ⟨rfl, rfl⟩
  | cons info infos ih =>
    have hmsg : verifies verify (sendPacketInfo hmac info) = true := by
      have hlen : (toBytes info).length = structSize := length_toBytes info
      unfold verifies
      rw [← length_sendPacketInfo hmac info, List.take_length, sendPacketInfo, ← hlen,
        List.take_left, List.drop_left]
      exact hverify _
    cases h with
    | bad hv =>
      rw [hmsg] at hv
      cases hv
    | good hv hd hms =>
      have hrun := run_decode_send hmac info []
      rw [List.append_nil] at hrun
      rw [hrun, Option.some.injEq, Prod.mk.injEq] at hd
      obtain ⟨hds, hb⟩ := ih hms
      exact ⟨by rw [← hd.1, hds, List.map_cons], hb⟩

/-- The bytes that reads have returned. -/
def arrived (reads : List Read) : List UInt8 := reads.flatMap fun
  | .bytes bs => bs
  | .error => []

/-- A handler that has returned does nothing. -/
theorem foldl_done {conn : Conn} (h : conn.result.isSome = true) (reads : List Read) :
    reads.foldl (Service.Framing.step verify) conn = conn := by
  induction reads with
  | nil => rfl
  | cons r reads ih =>
    have hstep : Service.Framing.step verify conn r = conn := by
      unfold Service.Framing.step
      exact if_pos h
    rw [List.foldl_cons, hstep, ih]

/-- A handler that reads an error or the end of the stream returns. -/
theorem step_end {conn : Conn} (h : ¬ conn.result.isSome = true) {r : Read}
    (hr : r = .error ∨ r = .bytes []) :
    (Service.Framing.step verify conn r).result.isSome = true ∧
      (Service.Framing.step verify conn r).sent = conn.sent := by
  unfold Service.Framing.step
  rw [if_neg h]
  rcases hr with rfl | rfl
  · exact ⟨rfl, rfl⟩
  · exact ⟨rfl, rfl⟩

/-- **What is decoded.** The packets of a connection show the first records of its process. -/
theorem sent_of_start (hverify : ∀ chunk, verify chunk (hmac chunk).toList = true) (reads : List Read)
    (hfit : ∀ bs, .bytes bs ∈ reads → bs.length ≤ bufferLimit - 1087)
    (h : arrived reads <+: Capture.Send.messages hmac infos) :
    (handleCppConnection verify reads).sent <+: infos.map shown := by
  have hnow : ∀ {s t : List UInt8} {conn : Conn}, ConnOK verify s conn →
      s ++ t <+: Capture.Send.messages hmac infos → conn.sent <+: infos.map shown := by
    intro s t conn hconn hs
    obtain ⟨b, hf, -⟩ := hconn.framed
    rw [messages_of_start ((List.prefix_append s t).trans hs)] at hf
    rw [(framed_eq hverify hf).1]
    exact (List.take_prefix _ _).map shown
  have hrun : ∀ {s : List UInt8} {conn : Conn}, ConnOK verify s conn →
      s ++ arrived reads <+: Capture.Send.messages hmac infos →
      (reads.foldl (Service.Framing.step verify) conn).sent <+: infos.map shown := by
    clear h
    induction reads with
    | nil => exact fun hconn hs => hnow hconn hs
    | cons r reads ih =>
      intro s conn hconn hs
      by_cases hdone : conn.result.isSome = true
      · rw [foldl_done hdone]
        exact hnow hconn hs
      by_cases hend : r = .error ∨ r = .bytes []
      · obtain ⟨hres, hsent⟩ := @step_end verify conn hdone r hend
        rw [List.foldl_cons, foldl_done hres, hsent]
        exact hnow hconn hs
      cases r with
      | error => exact absurd (Or.inl rfl) hend
      | bytes bs =>
        have hbs : bs ≠ [] := fun hnil => hend (Or.inr (by rw [hnil]))
        refine ih (fun c hc => hfit c (List.mem_cons_of_mem _ hc))
          (hconn.step hbs (hfit bs List.mem_cons_self)) ?_
        rwa [List.append_assoc]
  exact hrun (connOK_init verify) h

end

/-! ### What is written to a dashboard -/

section

variable {escape : Char → Str}

/-- The packets that the task has received. -/
def packets (rs : List Recv) : List Service.Model.DashboardPacket := rs.filterMap fun
  | .packet d _ => some d
  | _ => none

/-- Only what has been received is written. -/
theorem written_sublist (rs : List Recv) : (written rs ++ whole escape rs).Sublist (packets rs) := by
  fun_induction written rs with
  | case1 => exact List.Sublist.refl _
  | case2 d rs ih => exact ih.cons_cons d
  | case3 d k rs =>
    show (if (utf8 (toJson escape d)).length ≤ k then [d] else []).Sublist (d :: packets rs)
    split_ifs
    · exact List.cons_sublist_cons.mpr (List.nil_sublist _)
    · exact List.nil_sublist _
  | case4 k rs ih => exact ih
  | case5 rs => exact List.nil_sublist _

variable {κ : Type*}

theorem packets_recvs (x : Subscriber κ) :
    packets x.recvs = (values (x.events.map Prod.fst)).map Prod.snd := by
  rw [Subscriber.recvs, packets, values, List.filterMap_map, List.filterMap_map, List.map_filterMap]
  refine List.filterMap_congr fun e _ => ?_
  rcases e with ⟨_ | _, _⟩ <;> rfl

/-- Without a failed write, what is received is written. -/
theorem written_append (es : List (Event (κ × Service.Model.DashboardPacket) × Write))
    (h : ∀ e ∈ es, afterWrite e.1 e.2 = true) (rs : List Recv) :
    written (es.map recvOf ++ rs) = packets (es.map recvOf) ++ written rs := by
  induction es with
  | nil => rfl
  | cons e es ih =>
    have ih := ih fun e' he => h e' (List.mem_cons_of_mem _ he)
    have he := h e List.mem_cons_self
    match e, he with
    | (.value p, .ok), _ => exact congrArg (p.2 :: ·) ih
    | (.value _, .failed _), he => cases he
    | (.lagged _, _), _ => exact ih

/-- Of the packets that were received at most the last one has not been written. -/
theorem length_written {log : List (κ × Service.Model.DashboardPacket)} {x : Subscriber κ}
    (h : Told log x) :
    (packets x.recvs).length ≤ (written x.recvs ++ whole escape x.recvs).length + 1 ∧
      (x.running = true → written x.recvs ++ whole escape x.recvs = packets x.recvs) := by
  have hall : ∀ {es}, x.events = es → (∀ e ∈ es, afterWrite e.1 e.2 = true) →
      written x.recvs ++ whole escape x.recvs = packets x.recvs := by
    rintro es rfl hes
    have hwritten := written_append x.events hes []
    rw [List.append_nil, written, List.append_nil] at hwritten
    refine (@written_sublist escape x.recvs).eq_of_length_le ?_
    rw [List.length_append, Subscriber.recvs, hwritten]
    exact Nat.le_add_right _ _
  refine ⟨?_, fun hrun => hall rfl (h.running hrun)⟩
  rcases List.eq_nil_or_concat' x.events with hnil | ⟨es, e, hes⟩
  · rw [hall hnil (by simp)]
    exact Nat.le_succ _
  · have hok := h.writes
    rw [hes, List.dropLast_concat] at hok
    have hwritten := written_append es hok [recvOf e]
    have hlast : (packets [recvOf e]).length ≤ 1 := List.length_filterMap_le _ _
    rw [Subscriber.recvs, hes, List.map_append, List.map_singleton, hwritten, packets,
      List.filterMap_append, List.length_append, List.length_append, List.length_append]
    simp only [packets] at hlast ⊢
    omega

end

/-! ### One record -/

/-- A MAC of zeros. -/
def zeroMac : List UInt8 → Vector UInt8 64 := fun _ => Vector.replicate 64 0

/-- A dashboard that has received one packet. -/
def oneSubscriber : Subscriber Unit :=
  ⟨0, 1, [(.value ((), shown newlineRecord), .ok)], true⟩

/-- The service when one packet has reached a dashboard that has subscribed before. -/
def oneState : Service.Relay.State Unit Unit where
  log := [((), shown newlineRecord)]
  reads _ := [.bytes (sendPacketInfo zeroMac newlineRecord)]
  conns _ := ⟨[], [shown newlineRecord], none⟩
  pending _ := []
  subscribers _ := some oneSubscriber

/-- The service reads the message of a record. -/
theorem step_one (r : PacketInfo) : Service.Framing.step (fun _ _ => true) Conn.init
    (.bytes (sendPacketInfo zeroMac r)) = ⟨[], [shown r], none⟩ := by
  have hlen := length_sendPacketInfo zeroMac r
  have hok := (connOK_init fun _ _ => true).step (List.ne_nil_of_length_eq_add_one hlen)
    (Nat.le_trans hlen.le (by decide))
  rw [List.nil_append] at hok
  obtain ⟨b, hf, hres⟩ := hok.framed
  have hmsgs : messages (sendPacketInfo zeroMac r) = [r].map (sendPacketInfo zeroMac) := by
    have hpre : sendPacketInfo zeroMac r <+: Capture.Send.messages zeroMac [r] := by
      simp [Capture.Send.messages]
    rw [messages_of_start hpre, hlen]
    rfl
  rw [hmsgs] at hf
  obtain ⟨hsent, rfl⟩ := framed_eq (fun _ => rfl) hf
  have hbuf := hok.buffer hres
  rw [trailing, dif_pos hlen.ge, ← hlen, List.drop_length, trailing, dif_neg (by decide)] at hbuf
  generalize Service.Framing.step (fun _ _ => true) Conn.init (.bytes (sendPacketInfo zeroMac r)) = conn
    at hbuf hsent hres
  cases conn
  simp_all

/-- `broadcast::channel(100)`, whose capacity is rounded up to a power of two. -/
def oneChannel : Channel (Unit × Service.Model.DashboardPacket) := keeping 128

theorem reach_oneState : (machine (fun _ _ => true) oneChannel Unit).Reach oneState := by
  have hinit : (machine (fun _ _ => true) oneChannel Unit).Reach
      ⟨[], fun _ => [], fun _ => Conn.init, fun _ => [], fun _ => none⟩ :=
    .of_init ⟨rfl, fun _ => rfl, fun _ => rfl, fun _ => rfl, fun _ => rfl⟩
  refine Machine.Reach.exec [.subscribe (), .read () (.bytes (sendPacketInfo zeroMac newlineRecord)),
    .send (), .recv () .ok] hinit ?_
  have hupdate : ∀ {β : Type} (f : Unit → β) (b : β), Function.update f () b = fun _ => b :=
    fun f b => funext fun _ => Function.update_self ..
  simp only [Machine.exec, machine, stepSubscribe, stepRead, hupdate, step_one, stepSend, stepRecv,
    Option.bind_some, if_true]
  rfl

/-! ### What the dashboard has got -/

section

variable {κ δ : Type*} [DecidableEq κ] {verify : List UInt8 → List UInt8 → Bool}
  {rx : Channel (κ × Service.Model.DashboardPacket)} {s : Service.Relay.State κ δ} {escape : Char → Str}

/-- The packets that a dashboard task receives were decoded. -/
theorem decoded_of_recvs (hi : Inv verify s) {j : δ} {x : Subscriber κ} (hx : s.subscribers j = some x)
    {d : Service.Model.DashboardPacket} {w : Write} (hd : .packet d w ∈ x.recvs) : Decoded verify d := by
  obtain ⟨p, hp, rfl⟩ : ∃ p ∈ values (x.events.map Prod.fst), p.2 = d := by
    have hmem : d ∈ packets x.recvs := List.mem_filterMap.mpr ⟨_, hd, rfl⟩
    rw [packets_recvs] at hmem
    exact List.mem_map.mp hmem
  have hlog : p ∈ s.log :=
    List.mem_of_mem_take (List.mem_of_mem_drop ((hi.told j x hx).covers.sublist.mem hp))
  have hsent : p.2 ∈ (s.conns p.1).sent := by
    rw [← hi.order p.1]
    exact List.mem_append_left _ (List.mem_map.mpr ⟨p, by simpa using hlog, rfl⟩)
  rw [hi.conn] at hsent
  exact ⟨_, hsent⟩

/-- What a dashboard has got is some of the log since it subscribed. -/
theorem intake_sublist (foldRune : Char → Char) (hi : Inv verify s) {j : δ} {x : Subscriber κ}
    (hx : s.subscribers j = some x) (hescape : Escapes escape) {reads : List (List UInt8)}
    (hreads : reads.flatten <+: handleGoConnection escape x.recvs) :
    (scan scannerLimit reads).tooLong = false ∧
      ∃ ps : List (κ × Service.Model.DashboardPacket), ps.Sublist (s.log.drop x.start) ∧
        intake foldRune reads = ps.map fun p => received (forget p.2) := by
  obtain ⟨hrun, ds, hds, hintake⟩ := intake_of_prefix foldRune hescape
    (fun d w hd => decoded_of_recvs hi hx hd) hreads
  refine ⟨hrun, ?_⟩
  have hvalues : ds.Sublist ((values (x.events.map Prod.fst)).map Prod.snd) := by
    rw [← packets_recvs]
    exact hds.sublist.trans (written_sublist x.recvs)
  obtain ⟨ps, hps, rfl⟩ := List.sublist_map_iff.mp hvalues
  have hsub : ps.Sublist (s.log.drop x.start) :=
    (hps.trans (hi.told j x hx).covers.sublist).trans ((List.take_sublist _ _).drop _)
  exact ⟨ps, hsub, by rw [hintake, List.map_map]; rfl⟩

/-- What comes from a capture process shows records that it has popped. -/
theorem filter_sublist_of_stream (hi : Inv verify s) {ps : List (κ × Service.Model.DashboardPacket)}
    (hps : ps.Sublist s.log) {k : κ} {hmac : List UInt8 → Vector UInt8 64} {infos : List PacketInfo}
    (hverify : ∀ chunk, verify chunk (hmac chunk).toList = true)
    (hfit : ∀ bs, .bytes bs ∈ s.reads k → bs.length ≤ bufferLimit - 1087)
    (harrived : arrived (s.reads k) <+: Capture.Send.messages hmac infos) :
    ((ps.filter (·.1 = k)).map Prod.snd).Sublist (infos.map shown) := by
  have hsent : ((ps.filter (·.1 = k)).map Prod.snd).Sublist (s.conns k).sent := by
    rw [← hi.order k]
    exact ((hps.filter _).map _).trans (List.sublist_append_left _ _)
  rw [hi.conn] at hsent
  exact hsent.trans (sent_of_start hverify (s.reads k) hfit harrived).sublist

theorem filter_sublist_shown (hi : Inv verify s) {ps : List (κ × Service.Model.DashboardPacket)}
    (hps : ps.Sublist s.log) {k : κ} {hmac : List UInt8 → Vector UInt8 64} {infos : List PacketInfo}
    {os : List Capture.Send.Outcome} (hverify : ∀ chunk, verify chunk (hmac chunk).toList = true)
    (hfit : ∀ bs, .bytes bs ∈ s.reads k → bs.length ≤ bufferLimit - 1087)
    (harrived : arrived (s.reads k) <+:
      (Capture.Send.senderThreadMain hmac infos .fresh os).session.accepted) :
    ((ps.filter (·.1 = k)).map Prod.snd).Sublist (infos.map shown) := by
  obtain ⟨n, -, hacc, -⟩ := @Capture.Send.senderThreadMain_spec hmac infos os .fresh rfl
  refine filter_sublist_of_stream hi hps hverify hfit (harrived.trans ?_)
  rw [hacc]
  exact List.take_prefix n _

variable [DecidableEq δ] (foldRune : Char → Char)

/-- **In every state of the three programs**, the packets that a dashboard has got from its connection
are some of those that the service has sent since it subscribed, in their order; those among them that
come from one capture process show some of the records that its sender has popped, in the order in which
it has popped them. -/
theorem intake_relayed (h : (machine verify rx δ).Reach s) {j : δ} {x : Subscriber κ}
    (hx : s.subscribers j = some x) (hescape : Escapes escape) (reads : List (List UInt8))
    (hreads : reads.flatten <+: handleGoConnection escape x.recvs) :
    (scan scannerLimit reads).tooLong = false ∧
      ∃ ps : List (κ × Service.Model.DashboardPacket), ps.Sublist (s.log.drop x.start) ∧
        intake foldRune reads = ps.map (fun p => received (forget p.2)) ∧
        ∀ (k : κ) (hmac : List UInt8 → Vector UInt8 64) (infos : List PacketInfo)
          (os : List Capture.Send.Outcome), (∀ chunk, verify chunk (hmac chunk).toList = true) →
          (∀ bs, .bytes bs ∈ s.reads k → bs.length ≤ bufferLimit - 1087) →
          arrived (s.reads k) <+:
            (Capture.Send.senderThreadMain hmac infos .fresh os).session.accepted →
          ((ps.filter (·.1 = k)).map Prod.snd).Sublist (infos.map shown) := by
  have hi := inv_of_reach h
  obtain ⟨hrun, ps, hsub, hintake⟩ := intake_sublist foldRune hi hx hescape hreads
  exact ⟨hrun, ps, hsub, hintake, fun k hmac infos os hverify hfit harrived =>
    filter_sublist_shown hi (hsub.trans (List.drop_sublist _ _)) hverify hfit harrived⟩

theorem intake_relayed_one :
    (scan scannerLimit [handleGoConnection serdeEscape oneSubscriber.recvs]).tooLong = false ∧
      ∃ ps : List (Unit × Service.Model.DashboardPacket), ps.Sublist (oneState.log.drop 0) ∧
        intake id [handleGoConnection serdeEscape oneSubscriber.recvs] =
          ps.map (fun p => received (forget p.2)) ∧
        ∀ (k : Unit) (hmac : List UInt8 → Vector UInt8 64) (infos : List PacketInfo)
          (os : List Capture.Send.Outcome), (∀ _ : List UInt8, true = true) →
          (∀ bs, .bytes bs ∈ oneState.reads k → bs.length ≤ bufferLimit - 1087) →
          arrived (oneState.reads k) <+:
            (Capture.Send.senderThreadMain hmac infos .fresh os).session.accepted →
          ((ps.filter (·.1 = k)).map Prod.snd).Sublist (infos.map shown) :=
  intake_relayed id reach_oneState (show oneState.subscribers () = some oneSubscriber from rfl)
    escapes_serdeEscape _ (by rw [List.flatten_singleton])

/-- **What is lost.** If everything that was written has arrived, the packets that a dashboard has got
and those that the service has reported as missed are as many as have passed it in the log, but for one
at most, with whose line the connection has ended. While the connection works there is no such packet,
and if it has missed nothing the dashboard has got every packet that has passed it since it subscribed;
packets that still wait in the channel have not. -/
theorem intake_accounted (h : (machine verify rx δ).Reach s) {j : δ} {x : Subscriber κ}
    (hx : s.subscribers j = some x) (hescape : Escapes escape) (reads : List (List UInt8))
    (hreads : reads.flatten = handleGoConnection escape x.recvs) :
    (intake foldRune reads).length + skipped (x.events.map Prod.fst) ≤ x.next - x.start ∧
      x.next - x.start ≤ (intake foldRune reads).length + skipped (x.events.map Prod.fst) + 1 ∧
      (x.running = true →
        x.next - x.start = (intake foldRune reads).length + skipped (x.events.map Prod.fst) ∧
        (skipped (x.events.map Prod.fst) = 0 → intake foldRune reads =
          ((s.log.take x.next).drop x.start).map fun p => received (forget p.2))) := by
  have hi := inv_of_reach h
  have htold := hi.told j x hx
  obtain ⟨-, hintake⟩ := intake_of_flatten foldRune hescape
    (fun d w hd => decoded_of_recvs hi hx hd) hreads
  obtain ⟨hlen, hrun⟩ := @length_written escape κ s.log x htold
  have hsub := (@written_sublist escape x.recvs).length_le
  have hpackets : (packets x.recvs).length = (values (x.events.map Prod.fst)).length := by
    rw [packets_recvs, List.length_map]
  have hcovers := htold.covers.length
  rw [List.length_drop, List.length_take, Nat.min_eq_left htold.next] at hcovers
  have hcount : (intake foldRune reads).length =
      (written x.recvs ++ whole escape x.recvs).length := by rw [hintake, List.length_map]
  refine ⟨by omega, by omega, fun hr => ⟨?_, fun hskip => ?_⟩⟩
  · rw [hrun hr] at hcount
    omega
  · rw [hintake, hrun hr, packets_recvs, htold.covers.eq_of_skipped hskip, List.map_map]
    rfl

theorem intake_accounted_one :
    (intake id [handleGoConnection serdeEscape oneSubscriber.recvs]).length +
        skipped (oneSubscriber.events.map Prod.fst) ≤ 1 - 0 ∧
      1 - 0 ≤ (intake id [handleGoConnection serdeEscape oneSubscriber.recvs]).length +
        skipped (oneSubscriber.events.map Prod.fst) + 1 ∧
      (oneSubscriber.running = true →
        1 - 0 = (intake id [handleGoConnection serdeEscape oneSubscriber.recvs]).length +
          skipped (oneSubscriber.events.map Prod.fst) ∧
        (skipped (oneSubscriber.events.map Prod.fst) = 0 →
          intake id [handleGoConnection serdeEscape oneSubscriber.recvs] =
            ((oneState.log.take 1).drop 0).map fun p => received (forget p.2))) :=
  intake_accounted id reach_oneState (show oneState.subscribers () = some oneSubscriber from rfl)
    escapes_serdeEscape _ List.flatten_singleton

end

end Pacsni.Dashboard.Pipeline
