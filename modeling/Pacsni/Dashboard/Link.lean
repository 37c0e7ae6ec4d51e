import Pacsni.Dashboard.Pipeline

/-! # The connections to the service, one after the other

The dashboard dials the service, reads the connection to its end, and dials again. The service knows a
new connection only from then on: `handle_go_connection` subscribes it to the broadcast channel, where
older packets are gone. So what goes to `packetChan` over all connections is still some of what the
service has sent, in its order: a packet may be missed between two connections, but none comes twice and
none comes late. -/

namespace Pacsni.Dashboard.Link

open Pacsni.Lib.Text Pacsni.Lib.Json Pacsni.Lib.Scanner Pacsni.Lib.Broadcast Pacsni.Lib.Runs
open Pacsni.Capture.Types
open Pacsni.Service.Decode Pacsni.Service.Framing Pacsni.Service.Lines Pacsni.Service.Relay
open Pacsni.Dashboard.Packet Pacsni.Dashboard.Intake Pacsni.Dashboard.Pipeline
open Pacsni.Dashboard.Unmarshal

/-! ### The machine -/

/-- A connection of the dashboard and what has been read from it. -/
structure Connection (δ : Type*) where
  id : δ
  reads : List (List UInt8)

/-- The service, and the connections of the dashboard: those that have ended, and the one it has. -/
structure State (κ δ : Type*) where
  service : Service.Relay.State κ δ
  past : List (Connection δ)
  current : Option (Connection δ)

/-- A step of the service, or of the goroutine of the dashboard: it is connected (`handle_go_connection`
subscribes the connection), reads a chunk, or closes the connection. -/
inductive Action (κ δ : Type*)
  | service (a : Service.Relay.Action κ δ)
  | connect (j : δ)
  | read (chunk : List UInt8)
  | close

section

variable (verify : List UInt8 → List UInt8 → Bool) {κ : Type*}
  (rx : Channel (κ × Service.Model.DashboardPacket)) (escape : Char → Str)
variable {δ : Type*} [DecidableEq κ] [DecidableEq δ]

/-- A read of the connection: a chunk of what the service has written to it and has not been read. -/
def stepRead (s : State κ δ) (chunk : List UInt8) : Option (State κ δ) :=
  match s.current with
  | none => none
  | some c => match s.service.subscribers c.id with
    | none => none
    | some x =>
      if (c.reads ++ [chunk]).flatten <+: handleGoConnection escape x.recvs then
        some { s with current := some { c with reads := c.reads ++ [chunk] } }
      else none

/-- The service and the dashboard's side of its connections. -/
def machine (δ : Type*) [DecidableEq δ] : Machine (State κ δ) (Action κ δ) where
  init s := (Service.Relay.machine verify rx δ).init s.service ∧ s.past = [] ∧ s.current = none
  step s
    | .service a => ((Service.Relay.machine verify rx δ).step s.service a).map fun service =>
        { s with service := service }
    | .connect j => match s.current with
      | none => (stepSubscribe s.service j).map fun service =>
          { s with service := service, current := some ⟨j, []⟩ }
      | some _ => none
    | .read chunk => stepRead escape s chunk
    | .close => match s.current with
      | none => none
      | some c => some { s with past := s.past ++ [c], current := none }

end

section

variable (foldRune : Char → Char)

/-- The packets of the lines that the scanner has returned so far. -/
def soFar (reads : List (List UInt8)) : List DashboardPacket :=
  (tokensSoFar scannerLimit reads).filterMap (unmarshal foldRune)

/-- The packets that have been sent on `packetChan`, or wait to be sent. -/
def forwarded {κ δ : Type*} (s : State κ δ) : List DashboardPacket :=
  (s.past.flatMap fun c => intake foldRune c.reads) ++
    s.current.toList.flatMap fun c => soFar foldRune c.reads

variable {foldRune}

theorem soFar_intake (reads : List (List UInt8)) : soFar foldRune reads <+: intake foldRune reads :=
  (tokensSoFar_scan reads).filterMap _

theorem soFar_concat (reads : List (List UInt8)) (chunk : List UInt8) :
    soFar foldRune reads <+: soFar foldRune (reads ++ [chunk]) :=
  (tokensSoFar_concat reads chunk).filterMap _

end

/-! ### What the service writes -/

section

variable {escape : Char → Str}

theorem handleGoConnection_append (rs rs' : List Recv) :
    handleGoConnection escape rs <+: handleGoConnection escape (rs ++ rs') := by
  induction rs with
  | nil => exact List.nil_prefix
  | cons r rs ih =>
    rcases r with ⟨d, _ | k⟩ | n | _
    · exact (List.prefix_append_right_inj _).mpr ih
    · exact List.prefix_refl _
    · exact ih
    · exact List.prefix_refl _

variable {verify : List UInt8 → List UInt8 → Bool} {κ δ : Type*}
  {rx : Channel (κ × Service.Model.DashboardPacket)} [DecidableEq κ] [DecidableEq δ]
  {s s' : Service.Relay.State κ δ}

/-- A step of the service: the log grows, and so does what a connection has received. -/
theorem relay_step {a : Service.Relay.Action κ δ}
    (h : (Service.Relay.machine verify rx δ).step s a = some s') :
    s.log <+: s'.log ∧ ∀ j x, s.subscribers j = some x →
      ∃ x', s'.subscribers j = some x' ∧ x'.start = x.start ∧ x.recvs <+: x'.recvs := by
  have hsame : ∀ {t : Service.Relay.State κ δ}, t.subscribers = s.subscribers → ∀ j x,
      s.subscribers j = some x → ∃ x', t.subscribers j = some x' ∧ x'.start = x.start ∧
        x.recvs <+: x'.recvs := fun ht j x hx => ⟨x, by rw [ht, hx], rfl, List.prefix_refl _⟩
  cases a with
  | read k r =>
    simp only [Service.Relay.machine, Service.Relay.stepRead] at h
    split_ifs at h
    obtain rfl := Option.some.inj h
    exact ⟨List.prefix_refl _, hsame rfl⟩
  | send k =>
    simp only [Service.Relay.machine, stepSend] at h
    split at h
    · cases h
    · obtain rfl := Option.some.inj h
      exact ⟨List.prefix_append _ _, hsame rfl⟩
  | subscribe j =>
    simp only [Service.Relay.machine, stepSubscribe] at h
    split at h
    · rename_i hj
      obtain rfl := Option.some.inj h
      refine ⟨List.prefix_refl _, fun i x hx => ⟨x, ?_, rfl, List.prefix_refl _⟩⟩
      have hne : i ≠ j := by
        rintro rfl
        rw [hj] at hx
        cases hx
      dsimp only
      rwa [Function.update_of_ne hne]
    · cases h
  | recv j w =>
    simp only [Service.Relay.machine, stepRecv] at h
    split at h
    · cases h
    · rename_i y hy
      split_ifs at h
      split at h
      · cases h
      · rename_i e next hrecv
        obtain rfl := Option.some.inj h
        refine ⟨List.prefix_refl _, fun i x hx => ?_⟩
        by_cases hi : i = j
        · subst hi
          obtain rfl : y = x := Option.some.inj (hy.symm.trans hx)
          refine ⟨_, Function.update_self .., rfl, ?_⟩
          unfold Subscriber.recvs
          rw [List.map_append]
          exact List.prefix_append _ _
        · refine ⟨x, ?_, rfl, List.prefix_refl _⟩
          dsimp only
          rwa [Function.update_of_ne hi]

end

/-! ### The invariant -/

section

variable {verify : List UInt8 → List UInt8 → Bool} {escape : Char → Str}
variable {κ δ : Type*} {rx : Channel (κ × Service.Model.DashboardPacket)} [DecidableEq κ]
  {foldRune : Char → Char} {s s' : State κ δ}

/-- The packets come from this part of the log. -/
def From (l : List (κ × Service.Model.DashboardPacket)) (qs : List DashboardPacket) : Prop :=
  ∃ ps : List (κ × Service.Model.DashboardPacket), ps.Sublist l ∧
    qs = ps.map fun p => received (forget p.2)

omit [DecidableEq κ] in
theorem From.mono {l l' : List (κ × Service.Model.DashboardPacket)} {qs : List DashboardPacket}
    (h : From l qs) (hl : l.Sublist l') : From l' qs := by
  obtain ⟨ps, hps, heq⟩ := h
  exact ⟨ps, hps.trans hl, heq⟩

omit [DecidableEq κ] in
theorem From.append {l l' : List (κ × Service.Model.DashboardPacket)} {qs qs' : List DashboardPacket}
    (h : From l qs) (h' : From l' qs') : From (l ++ l') (qs ++ qs') := by
  obtain ⟨ps, hps, rfl⟩ := h
  obtain ⟨ps', hps', rfl⟩ := h'
  exact ⟨ps ++ ps', hps.append hps', List.map_append.symm⟩

omit [DecidableEq κ] in
theorem From.start {l : List (κ × Service.Model.DashboardPacket)} {qs qs' : List DashboardPacket}
    (h : From l qs) (hq : qs' <+: qs) : From l qs' := by
  obtain ⟨ps, hps, rfl⟩ := h
  refine ⟨ps.take qs'.length, (List.take_sublist _ _).trans hps, ?_⟩
  rw [List.map_take]
  exact List.prefix_iff_eq_take.mp hq

/-- What the connections that have ended have brought. -/
def brought (foldRune : Char → Char) (s : State κ δ) : List DashboardPacket :=
  s.past.flatMap fun c => intake foldRune c.reads

variable (verify escape foldRune) in
/-- What the connections that have ended have brought lies before the start of the one that the dashboard
has, and that one has been read as far as the service has written. -/
structure Inv (s : State κ δ) : Prop where
  service : Service.Relay.Inv verify s.service
  idle : s.current = none → From s.service.log (brought foldRune s)
  busy : ∀ c, s.current = some c → ∃ x, s.service.subscribers c.id = some x ∧
    From (s.service.log.take x.start) (brought foldRune s) ∧
    c.reads.flatten <+: handleGoConnection escape x.recvs

/-- What the connection that the dashboard has would bring if it ended now. -/
theorem Inv.ended (hescape : Escapes escape) (hs : Inv verify escape foldRune s) {c : Connection δ}
    (hc : s.current = some c) :
    From s.service.log (brought foldRune s ++ intake foldRune c.reads) := by
  obtain ⟨x, hx, hpast, hreads⟩ := hs.busy c hc
  obtain ⟨-, qs, hqs, hintake⟩ := intake_sublist foldRune hs.service hx hescape hreads
  have hall := hpast.append (⟨qs, hqs, hintake⟩ : From _ (intake foldRune c.reads))
  rwa [List.take_append_drop] at hall

/-- The packets of all connections come from the log. -/
theorem Inv.forwarded (hescape : Escapes escape) (hs : Inv verify escape foldRune s) :
    From s.service.log (forwarded foldRune s) := by
  unfold Link.forwarded
  cases hc : s.current with
  | none =>
    rw [Option.toList_none, List.flatMap_nil, List.append_nil]
    exact hs.idle hc
  | some c =>
    rw [Option.toList_some, List.flatMap_singleton]
    exact (hs.ended hescape hc).start ((List.prefix_append_right_inj _).mpr (soFar_intake _))

variable [DecidableEq δ]

theorem inv_service {a : Service.Relay.Action κ δ} {service : Service.Relay.State κ δ}
    (hs : Inv verify escape foldRune s)
    (h : (Service.Relay.machine verify rx δ).step s.service a = some service) :
    Inv verify escape foldRune { s with service := service } := by
  obtain ⟨hlog, hsubs⟩ := relay_step h
  refine ⟨Service.Relay.inv_step hs.service h, fun hc => (hs.idle hc).mono hlog.sublist, fun c hc => ?_⟩
  obtain ⟨x, hx, hpast, hreads⟩ := hs.busy c hc
  obtain ⟨x', hx', hstart, hrecvs⟩ := hsubs c.id x hx
  obtain ⟨more, hmore⟩ := hrecvs
  refine ⟨x', hx', ?_, ?_⟩
  · rw [hstart]
    exact hpast.mono (hlog.take x.start).sublist
  · rw [← hmore]
    exact hreads.trans (handleGoConnection_append _ _)

theorem inv_step {a : Action κ δ} (hescape : Escapes escape) (hs : Inv verify escape foldRune s)
    (h : (machine verify rx escape δ).step s a = some s') : Inv verify escape foldRune s' := by
  cases a with
  | service a =>
    obtain ⟨service, hservice, rfl⟩ := Option.map_eq_some_iff.mp h
    exact inv_service hs hservice
  | connect j =>
    simp only [machine] at h
    split at h
    · rename_i hc
      obtain ⟨service, hservice, rfl⟩ := Option.map_eq_some_iff.mp h
      refine ⟨inv_subscribe hs.service hservice, fun hnone => absurd hnone (Option.some_ne_none _),
        fun c hcur => ?_⟩
      obtain rfl := Option.some.inj hcur
      unfold stepSubscribe at hservice
      split at hservice
      · obtain rfl := Option.some.inj hservice
        refine ⟨_, Function.update_self .., ?_, List.nil_prefix⟩
        dsimp only
        rw [List.take_length]
        exact hs.idle hc
      · cases hservice
    · cases h
  | read chunk =>
    simp only [machine, stepRead] at h
    split at h
    · cases h
    · rename_i c hc
      split at h
      · cases h
      · rename_i x hx
        split_ifs at h with hreads
        obtain rfl := Option.some.inj h
        refine ⟨hs.service, fun hnone => absurd hnone (Option.some_ne_none _), fun c' hc' => ?_⟩
        obtain rfl := Option.some.inj hc'
        obtain ⟨x', hx', hpast, -⟩ := hs.busy c hc
        obtain rfl : x' = x := Option.some.inj (hx'.symm.trans hx)
        exact ⟨x', hx, hpast, hreads⟩
  | close =>
    simp only [machine] at h
    split at h
    · cases h
    · rename_i c hc
      obtain rfl := Option.some.inj h
      refine ⟨hs.service, fun _ => ?_, fun c' hc' => absurd hc'.symm (Option.some_ne_none c')⟩
      unfold brought
      rw [List.flatMap_append, List.flatMap_singleton]
      exact hs.ended hescape hc

theorem inv_start (h : (machine verify rx escape δ).init s) :
    Inv verify escape foldRune s := by
  obtain ⟨hservice, hpast, hcurrent⟩ := h
  refine ⟨inv_init hservice, fun _ => ⟨[], List.nil_sublist _, by rw [brought, hpast]; rfl⟩,
    fun c hc => ?_⟩
  rw [hcurrent] at hc
  cases hc

/-- What has been sent is not taken back. -/
theorem forwarded_step {a : Action κ δ} (h : (machine verify rx escape δ).step s a = some s') :
    forwarded foldRune s <+: forwarded foldRune s' := by
  cases a with
  | service a =>
    obtain ⟨service, -, rfl⟩ := Option.map_eq_some_iff.mp h
    exact List.prefix_refl _
  | connect j =>
    simp only [machine] at h
    split at h
    · rename_i hc
      obtain ⟨service, -, rfl⟩ := Option.map_eq_some_iff.mp h
      unfold forwarded
      rw [hc, Option.toList_none, List.flatMap_nil, List.append_nil]
      exact List.prefix_append _ _
    · cases h
  | read chunk =>
    simp only [machine, stepRead] at h
    split at h
    · cases h
    · rename_i c hc
      split at h
      · cases h
      · split_ifs at h
        obtain rfl := Option.some.inj h
        unfold forwarded
        rw [hc, Option.toList_some, Option.toList_some, List.flatMap_singleton, List.flatMap_singleton]
        exact (List.prefix_append_right_inj _).mpr (soFar_concat _ _)
  | close =>
    simp only [machine] at h
    split at h
    · cases h
    · rename_i c hc
      obtain rfl := Option.some.inj h
      unfold forwarded
      rw [hc, Option.toList_some, Option.toList_none, List.flatMap_append, List.flatMap_singleton,
        List.flatMap_singleton, List.flatMap_nil, List.append_nil]
      exact (List.prefix_append_right_inj _).mpr (soFar_intake _)

end

end Pacsni.Dashboard.Link
