import Pacsni.Dashboard.Order

/-! # A page and the server

The server together with one page that is being opened: the page has sent its request to
`/api/packets`, and its websocket is not yet registered. The two are under way at the same time. The
answer replaces the array of the page, while messages are appended to it, so a packet can be lost or
come twice. Neither happens in a run in which no packet is told between the answer and the
registration, only packets of the answer are delivered before it is taken over, and none behind. -/

namespace Pacsni.Dashboard.Opening

open Pacsni.Lib.Runs
open Pacsni.Dashboard.Packet Pacsni.Dashboard.Ring Pacsni.Dashboard.Lru
open Pacsni.Dashboard.Server Pacsni.Dashboard.Steps Pacsni.Dashboard.Mutex Pacsni.Dashboard.History
open Pacsni.Dashboard.Client Pacsni.Dashboard.Order
open Pacsni.Dashboard.Geo (atlas fromPublic started init_started SavedOK)

/-! ### The machine -/

/-- Where the request to `/api/packets` is. -/
inductive Fetch
  | sent
  | answered (packets : List DashboardPacket)
  | done

/-- The page. `channel` holds the messages that are enqueued and not yet delivered; there is no channel
before `serveWs` has registered it. -/
structure Page where
  channel : Option (List Message)
  fetch : Fetch
  packets : List DashboardPacket

/-- The page when its script starts. -/
def Page.opened : Page := ⟨none, .sent, []⟩

/-- The server and the page. -/
structure Session (ι : Type*) where
  server : State ι
  page : Page

/-- The server takes a step, `serveWs` registers the channel, the handler of `/api/packets` answers, the
page takes over the answer, or a message is delivered. -/
inductive Act (ι : Type*)
  | server (a : Server.Action ι)
  | register
  | answer
  | takeOver
  | deliver

/-- The page behind a step of the server from `s` to `s'`. -/
def Page.hear {ι : Type*} (page : Page) (s s' : State ι) : Page :=
  { page with channel := page.channel.map (· ++ s'.broadcasts.drop s.broadcasts.length) }

variable {ι : Type*} [DecidableEq ι]

/-- The server with a page that is being opened. The handler of `/api/packets` takes `mu`. -/
def session (ι : Type*) [DecidableEq ι] (env : Env) (savedOK : LruCache → Prop) :
    Machine (Session ι) (Act ι) where
  init x := Init savedOK x.server ∧ x.page = Page.opened
  step x
    | .server a => ((machine ι env savedOK).step x.server a).map fun s' =>
        ⟨s', x.page.hear x.server s'⟩
    | .register => match x.page.channel with
      | none => some { x with page := { x.page with channel := some [] } }
      | some _ => none
    | .answer => match x.page.fetch, x.server.mu with
      | .sent, none => some { x with
          page := { x.page with fetch := .answered (apiPackets x.server) } }
      | _, _ => none
    | .takeOver => match x.page.fetch with
      | .answered ps => some { x with
          page := { x.page with fetch := .done, packets := displayData x.page.packets (some ps) } }
      | _ => none
    | .deliver => match x.page.channel with
      | some (m :: rest) => some { x with
          page := { x.page with channel := some rest, packets := onMessage x.page.packets m } }
      | _ => none

omit [DecidableEq ι] in
/-- No request clears the history. -/
def NoClear (s : State ι) (a : Server.Action ι) : Prop :=
  ∀ r f, a = .request r → s.requests r ≠ .start (some .clear) f

/-- The order of events that loses and repeats nothing. -/
def Timely (x : Session ι) : Act ι → Prop
  | .server .packetLoop => ∀ pkt, x.server.packetLoop = .stored pkt →
      x.page.fetch = .sent ∨ x.page.channel.isSome = true
  | .deliver => ∀ ps p rest, x.page.fetch = .answered ps →
      x.page.channel = some (.packet p :: rest) → p.index ∈ indexesOf ps
  | .takeOver => ∀ ps ms p, x.page.fetch = .answered ps → x.page.channel = some ms →
      Message.packet p ∈ ms → p.index ∉ indexesOf ps
  | _ => True

/-- What is assumed of every step of a run: no clear. -/
def Unclearing (x : Session ι) (a : Act ι) : Prop := ∀ b, a = .server b → NoClear x.server b

/-- Everything is delivered. -/
def Settled (x : Session ι) : Prop :=
  x.page.fetch = .done ∧ x.page.channel = some [] ∧ x.server.mu = none

/-! ### The server without clears -/

section

variable {env : Env} {savedOK : LruCache → Prop} {s s' : State ι} {a : Server.Action ι}

/-- No clear is under way or was told. -/
structure Unclear (s : State ι) : Prop where
  requests : ∀ r f, s.requests r ≠ .cleared f
  broadcasts : Message.clear ∉ s.broadcasts

omit [DecidableEq ι] in
theorem Unclear.tell (hs : Unclear s) {m : Message} (hm : m ≠ .clear) :
    Message.clear ∉ s.broadcasts ++ [m] := by
  intro hmem
  rcases List.mem_append.mp hmem with hmem | hmem
  · exact hs.broadcasts hmem
  · exact hm (List.mem_singleton.mp hmem).symm

theorem Unclear.goto (hs : Unclear s) {r : ι} {x : Request} (hx : ∀ f, x ≠ .cleared f) (r' : ι)
    (f : Option Lib.Text.Str) : Function.update s.requests r x r' ≠ .cleared f := by
  rw [Ne, cleared_update (hs.requests r) hx]
  exact hs.requests r' f

theorem unclear_step (hs : Unclear s) (hno : NoClear s a) (h : Step env s a s') : Unclear s' := by
  cases h with
  | clear hr => exact absurd hr (hno _ _ rfl)
  | tellClear hr => exact absurd hr (hs.requests _ _)
  | tell => exact ⟨hs.requests, hs.tell nofun⟩
  | tellGeo => exact ⟨hs.requests, hs.tell nofun⟩
  | opened => exact ⟨hs.goto nofun, hs.broadcasts⟩
  | plain => exact ⟨hs.goto (behindAction_ne_cleared _), hs.broadcasts⟩
  | toggle => exact ⟨hs.goto nofun, hs.broadcasts⟩
  | readToggle => exact ⟨hs.goto nofun, hs.broadcasts⟩
  | tellToggle => exact ⟨hs.goto nofun, hs.tell nofun⟩
  | sameFilter => exact ⟨hs.goto nofun, hs.broadcasts⟩
  | setFilter => exact ⟨hs.goto nofun, hs.broadcasts⟩
  | tellFilter => exact ⟨hs.goto nofun, hs.tell nofun⟩
  | _ => exact ⟨hs.requests, hs.broadcasts⟩

theorem unclear_of_reach (h : (machine ι env savedOK).ReachVia NoClear s) : Unclear s := by
  refine Machine.ReachVia.invariant (I := Unclear) h ?_ fun s a s' hs hno ha =>
    unclear_step hs hno (step_of_machine ha)
  intro s hinit
  obtain ⟨-, -, -, -, -, -, -, -, -, hreq, hb⟩ := hinit
  refine ⟨fun r f => ?_, ?_⟩
  · rw [hreq r]
    nofun
  · rw [hb]
    nofun

/-- Without a clear, the history does not shrink. -/
theorem count_mono (hno : NoClear s a) (h : Step env s a s') :
    s.historyBuffer.count ≤ s'.historyBuffer.count := by
  cases h with
  | clear hr => exact absurd hr (hno _ _ rfl)
  | keep hp hacc =>
    simp only [RingBuffer.add]
    split_ifs <;> omega
  | _ => exact le_rfl

/-- The indexes of the packets that were told. -/
def told (s : State ι) : List ℕ := packetIndexes s.broadcasts

/-- A step tells the packet that was stored, or no packet. -/
theorem told_step (h : Step env s a s') :
    ∃ ms, s'.broadcasts = s.broadcasts ++ ms ∧
      (packetIndexes ms = [] ∨ a = .packetLoop ∧ ∃ pkt, s.packetLoop = .stored pkt) := by
  cases h with
  | tell hp => exact ⟨_, rfl, Or.inr ⟨rfl, _, hp⟩⟩
  | tellGeo => exact ⟨_, rfl, Or.inl rfl⟩
  | tellClear => exact ⟨_, rfl, Or.inl rfl⟩
  | tellToggle => exact ⟨_, rfl, Or.inl rfl⟩
  | tellFilter => exact ⟨_, rfl, Or.inl rfl⟩
  | _ => exact ⟨[], by rw [List.append_nil], Or.inl rfl⟩

/-- Without a clear and before the history is full, the history is what was told, and the packet that is
stored and not yet told. -/
theorem indexes_eq_told (h : (machine ι env savedOK).ReachVia NoClear s)
    (hcount : s.historyBuffer.count < historySize) :
    (∀ pkt, s.packetLoop = .stored pkt → indexes s = told s ++ [pkt.index]) ∧
      ((∀ pkt, s.packetLoop ≠ .stored pkt) → indexes s = told s) := by
  have hun := unclear_of_reach h
  have hreach : (machine ι env savedOK).Reach s := h.mono fun _ _ _ => trivial
  obtain ⟨s₀, hinit, hrun⟩ := hreach
  obtain ⟨ms, hms, hm⟩ := mirrors_of_leads (.of_init hinit) (by
    unfold RingBuffer.getAll
    rw [hinit.1]
    rfl) hrun
  obtain ⟨-, -, -, -, -, -, -, -, -, -, hb⟩ := hinit
  rw [hb, List.nil_append] at hms
  subst hms
  rw [foldl_mirror (Nat.zero_le _) _ hun.broadcasts, List.nil_append] at hm
  have hlen : (indexes s).length < pageSize := by
    rw [indexes, List.length_map, RingBuffer.length_getAll]
    exact hcount
  constructor
  · intro pkt hp
    have hidx := hm.stored pkt hp
    rw [RingBuffer.rtake_append_rtake] at hidx
    rw [hidx] at hlen
    exact hidx.trans (RingBuffer.rtake_of_length_rtake_lt hlen)
  · intro hno
    have hidx := hm.settled hno hun.requests
    rw [hidx] at hlen
    exact hidx.trans (RingBuffer.rtake_of_length_rtake_lt hlen)

/-- The packets that were told are different ones, and fewer than the history has room for. -/
theorem told_nodup (h : (machine ι env savedOK).ReachVia NoClear s)
    (hcount : s.historyBuffer.count < historySize) :
    (told s).Nodup ∧ (told s).length < pageSize := by
  have hreach : (machine ι env savedOK).Reach s := h.mono fun _ _ _ => trivial
  obtain ⟨hst, hno⟩ := indexes_eq_told h hcount
  have hprefix : told s <+: indexes s := by
    by_cases hp : ∃ pkt, s.packetLoop = .stored pkt
    · obtain ⟨pkt, hp⟩ := hp
      rw [hst pkt hp]
      exact List.prefix_append _ _
    · rw [hno fun pkt hpkt => hp ⟨pkt, hpkt⟩]
  have hinc := (indexes_bounded hreach).1
  refine ⟨(hinc.sublist hprefix.sublist).imp fun hlt => Nat.ne_of_lt hlt, ?_⟩
  refine lt_of_le_of_lt hprefix.length_le ?_
  rw [indexes, List.length_map, RingBuffer.length_getAll]
  exact hcount

end

/-! ### Steps of the session -/

section

variable {env : Env} {savedOK : LruCache → Prop} {x x' : Session ι} {a : Act ι}

/-- The transitions of the session from `x`. -/
inductive Move (env : Env) (savedOK : LruCache → Prop) (x : Session ι) : Act ι → Session ι → Prop
  | server {a s'} (hstep : (machine ι env savedOK).step x.server a = some s') :
      Move env savedOK x (.server a) ⟨s', x.page.hear x.server s'⟩
  | register (hc : x.page.channel = none) :
      Move env savedOK x .register { x with page := { x.page with channel := some [] } }
  | answer (hf : x.page.fetch = .sent) (hmu : x.server.mu = none) :
      Move env savedOK x .answer { x with
        page := { x.page with fetch := .answered (apiPackets x.server) } }
  | takeOver {ps} (hf : x.page.fetch = .answered ps) :
      Move env savedOK x .takeOver { x with page := { x.page with fetch := .done, packets := ps } }
  | deliver {m rest} (hc : x.page.channel = some (m :: rest)) :
      Move env savedOK x .deliver { x with
        page := { x.page with channel := some rest, packets := onMessage x.page.packets m } }

theorem move_of_session (h : (session ι env savedOK).step x a = some x') : Move env savedOK x a x' := by
  cases a with
  | server b =>
    obtain ⟨s', hs', rfl⟩ := Option.map_eq_some_iff.mp h
    exact .server hs'
  | register =>
    cases hc : x.page.channel with
    | none =>
      simp only [session, hc, Option.some.injEq] at h
      subst h
      exact .register hc
    | some ms => simp [session, hc] at h
  | answer =>
    cases hf : x.page.fetch with
    | sent =>
      cases hmu : x.server.mu with
      | none =>
        simp only [session, hf, hmu, Option.some.injEq] at h
        subst h
        exact .answer hf hmu
      | some o => simp [session, hf, hmu] at h
    | answered ps => simp [session, hf] at h
    | done => simp [session, hf] at h
  | takeOver =>
    cases hf : x.page.fetch with
    | answered ps =>
      simp only [session, hf, Option.some.injEq] at h
      subst h
      exact .takeOver hf
    | sent => simp [session, hf] at h
    | done => simp [session, hf] at h
  | deliver =>
    cases hc : x.page.channel with
    | none => simp [session, hc] at h
    | some ms =>
      cases ms with
      | nil => simp [session, hc] at h
      | cons m rest =>
        simp only [session, hc, Option.some.injEq] at h
        subst h
        exact .deliver hc

/-! ### The invariant -/

/-- The indexes of the packets that are enqueued and not yet delivered. -/
def pending (channel : Option (List Message)) : List ℕ := packetIndexes (channel.getD [])

/-- What the page will have. Before the answer, what is enqueued is in the history. Between the answer
and its takeover, the packets behind the answer are all enqueued, behind packets of the answer. Behind
the takeover, every packet is on the page or enqueued. -/
def Synced (s : State ι) (page : Page) : Prop :=
  match page.fetch with
  | .sent => ∀ i ∈ pending page.channel, i ∈ told s
  | .answered ps => ∃ olds news, pending page.channel = olds ++ news ∧
      (told s).Perm (indexesOf ps ++ news) ∧ ∀ i ∈ olds, i ∈ indexesOf ps
  | .done => (told s).Perm (indexesOf page.packets ++ pending page.channel)

/-- The invariant of a timely run. -/
structure Inv (env : Env) (savedOK : LruCache → Prop) (x : Session ι) : Prop where
  server : (machine ι env savedOK).ReachVia NoClear x.server
  channel : ∀ m ∈ x.page.channel.getD [], m ∈ x.server.broadcasts
  synced : x.server.historyBuffer.count < historySize → Synced x.server x.page

variable {s s' : State ι} {page : Page}

omit [DecidableEq ι] in
theorem told_append {ms : List Message} (hms : s'.broadcasts = s.broadcasts ++ ms) :
    told s' = told s ++ packetIndexes ms := by
  rw [told, hms, packetIndexes_append]
  rfl

omit [DecidableEq ι] in
theorem hear_eq {ms : List Message} (hms : s'.broadcasts = s.broadcasts ++ ms) :
    page.hear s s' = { page with channel := page.channel.map (· ++ ms) } := by
  unfold Page.hear
  rw [hms, List.drop_left]

/-- What is enqueued behind the messages `ms`, if there is a channel or no packet among them. -/
theorem pending_hear {channel : Option (List Message)} {ms : List Message}
    (h : packetIndexes ms = [] ∨ channel.isSome = true) :
    pending (channel.map (· ++ ms)) = pending channel ++ packetIndexes ms := by
  unfold pending
  cases channel with
  | some ms' => exact packetIndexes_append ms' ms
  | none =>
    rcases h with h | h
    · rw [h, List.append_nil]
      rfl
    · cases h

omit [DecidableEq ι] in
/-- A step of the server. -/
theorem synced_hear (hs : Synced s page) {ms : List Message}
    (hms : s'.broadcasts = s.broadcasts ++ ms)
    (hok : packetIndexes ms = [] ∨ page.fetch = .sent ∨ page.channel.isSome = true) :
    Synced s' (page.hear s s') := by
  rw [hear_eq hms]
  unfold Synced at hs ⊢
  rw [told_append hms]
  cases hf : page.fetch with
  | sent =>
    rw [hf] at hs
    dsimp only at hs ⊢
    intro i hi
    cases hc : page.channel with
    | none =>
      rw [hc] at hi
      cases hi
    | some ms' =>
      rw [pending_hear (Or.inr (by rw [hc]; rfl))] at hi
      rcases List.mem_append.mp hi with hi | hi
      · exact List.mem_append_left _ (hs i hi)
      · exact List.mem_append_right _ hi
  | answered ps =>
    have hheard : packetIndexes ms = [] ∨ page.channel.isSome = true :=
      hok.imp_right fun h => h.resolve_left (by rw [hf]; nofun)
    rw [hf] at hs
    obtain ⟨olds, news, hpend, hperm, hold⟩ := hs
    refine ⟨olds, news ++ packetIndexes ms, ?_, ?_, hold⟩
    · rw [pending_hear hheard, hpend, List.append_assoc]
    · rw [← List.append_assoc]
      exact hperm.append_right _
  | done =>
    have hheard : packetIndexes ms = [] ∨ page.channel.isSome = true :=
      hok.imp_right fun h => h.resolve_left (by rw [hf]; nofun)
    rw [hf] at hs
    dsimp only at hs ⊢
    rw [pending_hear hheard, ← List.append_assoc]
    exact hs.append_right _

omit [DecidableEq ι] in
/-- The answer has every packet that was told. -/
theorem synced_answer (hf : page.fetch = .sent) (hs : Synced s page) (hidx : indexes s = told s) :
    Synced s { page with fetch := .answered (apiPackets s) } := by
  have hans : indexesOf (apiPackets s) = (told s).reverse := by
    rw [← hidx, indexesOf, apiPackets, RingBuffer.getAll_true, List.map_reverse]
    rfl
  unfold Synced at hs
  rw [hf] at hs
  refine ⟨pending page.channel, [], (List.append_nil _).symm, ?_, fun i hi => ?_⟩
  · rw [List.append_nil, hans]
    exact (List.reverse_perm _).symm
  · rw [hans, List.mem_reverse]
    exact hs i hi

omit [DecidableEq ι] in
/-- The page takes over the answer when no packet of it is enqueued. -/
theorem synced_takeOver {ps : List DashboardPacket} (hf : page.fetch = .answered ps)
    (hs : Synced s page) (hno : ∀ i ∈ pending page.channel, i ∉ indexesOf ps) :
    Synced s { page with fetch := .done, packets := ps } := by
  unfold Synced at hs
  rw [hf] at hs
  obtain ⟨olds, news, hpend, hperm, hold⟩ := hs
  have holds : olds = [] := by
    refine List.eq_nil_iff_forall_not_mem.mpr fun i hi => ?_
    refine hno i ?_ (hold i hi)
    rw [hpend]
    exact List.mem_append_left _ hi
  rw [holds, List.nil_append] at hpend
  show (told s).Perm (indexesOf ps ++ pending page.channel)
  rw [hpend]
  exact hperm

theorem packetIndexes_cons (m : Message) (rest : List Message) :
    packetIndexes (m :: rest) = packetIndexes [m] ++ packetIndexes rest :=
  packetIndexes_append [m] rest

/-- A message other than a clear appends its packet to a page that has room. -/
theorem indexesOf_onMessage_append {packets : List DashboardPacket} {m : Message}
    (hm : m ≠ .clear) (hroom : packets.length < pageSize) :
    indexesOf (onMessage packets m) = indexesOf packets ++ packetIndexes [m] := by
  rw [indexesOf_onMessage hroom.le]
  cases m with
  | packet p =>
    rw [mirror_packet]
    refine RingBuffer.rtake_of_length_le ?_
    rw [List.length_append, indexesOf, List.length_map, List.length_singleton]
    exact hroom
  | clear => exact absurd rfl hm
  | status b f => exact (List.append_nil _).symm
  | geoUpdate ip country city isp code => exact (List.append_nil _).symm

omit [DecidableEq ι] in
/-- A message is delivered; while the answer is under way, only a packet of the answer. -/
theorem synced_deliver {m : Message} {rest : List Message} (hc : page.channel = some (m :: rest))
    (hs : Synced s page) (hm : m ≠ .clear) (hnodup : (told s).Nodup)
    (hroom : (told s).length < pageSize)
    (htimely : ∀ ps p, page.fetch = .answered ps → m = .packet p → p.index ∈ indexesOf ps) :
    Synced s { page with channel := some rest, packets := onMessage page.packets m } := by
  have hpend : pending page.channel = packetIndexes [m] ++ pending (some rest) := by
    rw [hc]
    exact packetIndexes_cons m rest
  unfold Synced at hs ⊢
  cases hf : page.fetch with
  | sent =>
    rw [hf] at hs
    intro i hi
    apply hs
    rw [hpend]
    exact List.mem_append_right _ hi
  | answered ps =>
    rw [hf] at hs
    obtain ⟨olds, news, hsplit, hperm, hold⟩ := hs
    rw [hpend] at hsplit
    cases m with
    | packet p =>
      have hin := htimely ps p hf rfl
      cases olds with
      | nil =>
        -- a packet behind the answer would be delivered before it
        have hnews : p.index ∈ news := by
          rw [List.nil_append] at hsplit
          rw [← hsplit]
          exact List.mem_append_left _ List.mem_cons_self
        have hdisj := (List.nodup_append.mp (hperm.nodup hnodup)).2.2
        exact absurd rfl (hdisj _ hin _ hnews)
      | cons i olds =>
        have htail := (List.cons.inj hsplit).2
        exact ⟨olds, news, htail, hperm, fun j hj => hold j (List.mem_cons_of_mem _ hj)⟩
    | clear => exact absurd rfl hm
    | status b f => exact ⟨olds, news, hsplit, hperm, hold⟩
    | geoUpdate ip country city isp code => exact ⟨olds, news, hsplit, hperm, hold⟩
  | done =>
    rw [hf] at hs
    have hlen : page.packets.length < pageSize := by
      have := hs.length_eq
      rw [List.length_append, indexesOf, List.length_map] at this
      omega
    dsimp only at hs ⊢
    rw [indexesOf_onMessage_append hm hlen, List.append_assoc, ← hpend]
    exact hs

/-- A step of a timely run keeps the invariant. -/
theorem inv_move (hx : Inv env savedOK x) (hno : Unclearing x a) (htimely : Timely x a)
    (h : Move env savedOK x a x') : Inv env savedOK x' := by
  cases h with
  | @server b s' hstep =>
    have hclear := hno b rfl
    have hrule := step_of_machine hstep
    obtain ⟨ms, hms, htold⟩ := told_step hrule
    refine ⟨hx.server.next hclear hstep, ?_, fun hcount => ?_⟩
    · rw [hear_eq hms]
      intro m hm
      rw [hms]
      cases hc : x.page.channel with
      | none =>
        rw [hc] at hm
        cases hm
      | some ms' =>
        rw [hc] at hm
        rcases List.mem_append.mp hm with hm | hm
        · exact List.mem_append_left _ (hx.channel m (by rw [hc]; exact hm))
        · exact List.mem_append_right _ hm
    · have hbefore := hx.synced (lt_of_le_of_lt (count_mono hclear hrule) hcount)
      refine synced_hear hbefore hms ?_
      rcases htold with hnone | ⟨rfl, pkt, hp⟩
      · exact Or.inl hnone
      · exact Or.inr (htimely pkt hp)
  | register hc =>
    refine ⟨hx.server, by rintro _ ⟨⟩, fun hcount => ?_⟩
    have hs := hx.synced hcount
    have hpend : pending x.page.channel = pending (some []) := by rw [hc]; rfl
    unfold Synced at hs ⊢
    rw [hpend] at hs
    exact hs
  | answer hf hmu =>
    refine ⟨hx.server, hx.channel, fun hcount => synced_answer hf (hx.synced hcount) ?_⟩
    have hreach : (machine ι env savedOK).Reach x.server := hx.server.mono fun _ _ _ => trivial
    exact (indexes_eq_told hx.server hcount).2 fun pkt =>
      (locks_of_reach hreach).not_stored (by simp [hmu])
  | @takeOver ps hf =>
    refine ⟨hx.server, hx.channel, fun hcount => synced_takeOver hf (hx.synced hcount) ?_⟩
    intro i hi
    cases hc : x.page.channel with
    | none =>
      rw [hc] at hi
      cases hi
    | some ms =>
      rw [hc] at hi
      obtain ⟨m, hm, hmi⟩ := List.mem_filterMap.mp hi
      cases m with
      | packet p =>
        obtain rfl : p.index = i := Option.some.inj hmi
        exact htimely ps ms p hf hc hm
      | _ => cases hmi
  | @deliver m rest hc =>
    refine ⟨hx.server, fun m' hm' => hx.channel m' ?_, fun hcount => ?_⟩
    · rw [hc]
      exact List.mem_cons_of_mem _ hm'
    · obtain ⟨hnodup, hroom⟩ := told_nodup hx.server hcount
      refine synced_deliver hc (hx.synced hcount) ?_ hnodup hroom ?_
      · rintro rfl
        exact (unclear_of_reach hx.server).broadcasts
          (hx.channel _ (by rw [hc]; exact List.mem_cons_self))
      · rintro ps p hf rfl
        exact htimely ps p rest hf hc

theorem inv_of_reach
    (h : (session ι env savedOK).ReachVia (fun x a => Unclearing x a ∧ Timely x a) x) :
    Inv env savedOK x := by
  refine Machine.ReachVia.invariant (I := Inv env savedOK) h ?_ fun x a x' hx hok hstep =>
    inv_move hx hok.1 hok.2 (move_of_session hstep)
  rintro ⟨s, page⟩ ⟨hinit, hpage⟩
  obtain rfl : page = Page.opened := hpage
  exact ⟨.of_init hinit, by rintro _ ⟨⟩, fun _ => nofun⟩

end

/-- **Answer and messages.** In every timely run without a clear and with fewer than 5000 packets, once
everything is delivered the page has every packet of the history exactly once. -/
theorem page_has_each_once (env : Env) (savedOK : LruCache → Prop) (x : Session ι)
    (hx : (session ι env savedOK).ReachVia (fun x a => Unclearing x a ∧ Timely x a) x)
    (hcount : x.server.historyBuffer.count < historySize) (hsettled : Settled x) :
    ∀ p ∈ x.server.historyBuffer.getAll false, (indexesOf x.page.packets).count p.index = 1 := by
  obtain ⟨hfetch, hchan, hmu⟩ := hsettled
  have hinv := inv_of_reach hx
  have hreach : (machine ι env savedOK).Reach x.server := hinv.server.mono fun _ _ _ => trivial
  have htold : indexes x.server = told x.server := (indexes_eq_told hinv.server hcount).2 fun pkt =>
    (locks_of_reach hreach).not_stored (by simp [hmu])
  have hperm : (told x.server).Perm (indexesOf x.page.packets) := by
    have hs := hinv.synced hcount
    unfold Synced at hs
    rw [hfetch, hchan] at hs
    simpa [pending, packetIndexes] using hs
  intro p hp
  rw [← hperm.count_eq]
  refine List.count_eq_one_of_mem (told_nodup hinv.server hcount).1 ?_
  rw [← htold]
  exact List.mem_map_of_mem hp

/-! ### Two runs -/

/-- The server behind its start, and a page. -/
def openedFirst : Session Unit := ⟨started, Page.opened⟩

theorem init_openedFirst : (session Unit atlas SavedOK).init openedFirst := ⟨init_started, rfl⟩

/-- The answer is there and the channel is registered before the first packet. -/
def listeningFirst : List (Act Unit) :=
  [.answer, .takeOver, .register] ++ storeOne.map .server ++ [.deliver]

/-- A packet is stored and told between the answer and the registration of the channel. -/
def registeredLate : List (Act Unit) :=
  [.answer] ++ storeOne.map .server ++ [.register, .takeOver]

omit [DecidableEq ι] in
theorem unclearing_of_ne {x : Session ι} {a : Act ι} (h : ∀ r, a ≠ .server (.request r)) :
    Unclearing x a := by
  rintro b rfl r f rfl
  exact absurd rfl (h r)

omit [DecidableEq ι] in
/-- A step of the packet goroutine while the page listens. -/
theorem timely_of_listening {x : Session ι} (h : x.page.channel.isSome = true) :
    Timely x (.server .packetLoop) := fun _ _ => Or.inr h

theorem listeningFirst_timely : (session Unit atlas SavedOK).Along
    (fun x a => Unclearing x a ∧ Timely x a) openedFirst listeningFirst :=
  ⟨⟨unclearing_of_ne nofun, trivial⟩,
    ⟨unclearing_of_ne nofun, by rintro _ _ _ - ⟨⟩⟩,
    ⟨unclearing_of_ne nofun, trivial⟩,
    ⟨unclearing_of_ne nofun, trivial⟩,
    ⟨unclearing_of_ne nofun, timely_of_listening rfl⟩,
    ⟨unclearing_of_ne nofun, timely_of_listening rfl⟩,
    ⟨unclearing_of_ne nofun, timely_of_listening rfl⟩,
    ⟨unclearing_of_ne nofun, timely_of_listening rfl⟩,
    ⟨unclearing_of_ne nofun, timely_of_listening rfl⟩,
    ⟨unclearing_of_ne nofun, by rintro _ _ _ ⟨⟩⟩, trivial⟩

theorem listeningFirst_has_each_once : ∃ x : Session Unit,
    (session Unit atlas SavedOK).ReachVia (fun x a => Unclearing x a ∧ Timely x a) x ∧
    x.server.historyBuffer.count = 1 ∧ Settled x ∧
    ∀ p ∈ x.server.historyBuffer.getAll false, (indexesOf x.page.packets).count p.index = 1 := by
  have hrun : (session Unit atlas SavedOK).ReachVia (fun x a => Unclearing x a ∧ Timely x a)
      (((session Unit atlas SavedOK).exec openedFirst listeningFirst).get (by decide)) :=
    Machine.ReachVia.exec (s := openedFirst) listeningFirst (.of_init init_openedFirst)
      listeningFirst_timely (by simp)
  exact ⟨_, hrun, rfl, ⟨rfl, rfl, rfl⟩,
    page_has_each_once atlas SavedOK _ hrun (by decide) ⟨rfl, rfl, rfl⟩⟩

theorem registeredLate_unclearing :
    (session Unit atlas SavedOK).Along Unclearing openedFirst registeredLate :=
  ⟨unclearing_of_ne nofun, unclearing_of_ne nofun, unclearing_of_ne nofun, unclearing_of_ne nofun,
    unclearing_of_ne nofun, unclearing_of_ne nofun, unclearing_of_ne nofun, unclearing_of_ne nofun,
    unclearing_of_ne nofun, trivial⟩

/-- A packet can be lost to a page. -/
theorem registeredLate_loses : ¬ ∀ x : Session Unit,
    (session Unit atlas SavedOK).ReachVia Unclearing x →
    x.server.historyBuffer.count < historySize → Settled x →
    ∀ p ∈ x.server.historyBuffer.getAll false, (indexesOf x.page.packets).count p.index = 1 := by
  intro h
  have hrun : (session Unit atlas SavedOK).ReachVia Unclearing
      (((session Unit atlas SavedOK).exec openedFirst registeredLate).get (by decide)) :=
    Machine.ReachVia.exec (s := openedFirst) registeredLate (.of_init init_openedFirst)
      registeredLate_unclearing (by simp)
  have hone := h _ hrun (by decide) ⟨rfl, rfl, rfl⟩ _
    (RingBuffer.mem_getAll.mpr ⟨⟨0, by decide⟩, by decide, rfl⟩)
  have hempty : indexesOf (((session Unit atlas SavedOK).exec openedFirst registeredLate).get
      (by decide)).page.packets = [] := rfl
  rw [hempty, List.count_nil] at hone
  exact absurd hone (by decide)

end Pacsni.Dashboard.Opening
