import Pacsni.Dashboard.History

/-! # The packets of a page

What the script of the page keeps: `displayData` takes over the packets of an answer, and
`ws.onmessage` changes the array message by message. A page that listens from an empty history on has
the history of the server, packet by packet, whenever `mu` is free. -/

namespace Pacsni.Dashboard.Client

open Pacsni.Lib.Runs
open Pacsni.Dashboard.Packet Pacsni.Dashboard.Ring Pacsni.Dashboard.Lru
open Pacsni.Dashboard.Server Pacsni.Dashboard.Steps Pacsni.Dashboard.Mutex Pacsni.Dashboard.History
open Pacsni.Dashboard.Geo (atlas fromPublic started init_started SavedOK InSection)

/-! ### The script -/

/-- The length at which the oldest packet of the page goes. -/
def pageSize : ℕ := 5000

theorem pageSize_eq : pageSize = historySize := rfl

/-- `packets.push(p)`, and `packets.shift()` if there are too many. -/
def push (packets : List DashboardPacket) (p : DashboardPacket) : List DashboardPacket :=
  if pageSize < (packets ++ [p]).length then (packets ++ [p]).drop 1 else packets ++ [p]

/-- `displayData`: the array is replaced if the data come with packets. -/
def displayData (packets : List DashboardPacket) (data : Option (List DashboardPacket)) :
    List DashboardPacket := data.getD packets

/-- `ws.onmessage`. A status message comes without packets. -/
def onMessage (packets : List DashboardPacket) : Message → List DashboardPacket
  | .packet p => push packets p
  | .geoUpdate ip country city isp code => packets.map fun p =>
      if p.srcIp = ip ∨ p.dstIp = ip then
        { p with country := country, city := city, isp := isp, countryCode := code }
      else p
  | .status _ _ => displayData packets none
  | .clear => []

/-- The array after a sequence of messages. -/
def replay (packets : List DashboardPacket) (ms : List Message) : List DashboardPacket :=
  ms.foldl onMessage packets

/-- The packets in the answer to `/api/packets`. -/
def apiPackets {ι : Type*} (s : State ι) : List DashboardPacket := s.historyBuffer.getAll true

/-! ### By index -/

/-- The indexes of the packets. -/
def indexesOf (packets : List DashboardPacket) : List ℕ := packets.map (·.index)

/-- What a message does to the indexes of a page that is not too long. -/
def mirror (idx : List ℕ) : Message → List ℕ
  | .packet p => (idx ++ [p.index]).rtake pageSize
  | .clear => []
  | _ => idx

theorem mirror_packet (idx : List ℕ) (p : DashboardPacket) :
    mirror idx (.packet p) = (idx ++ [p.index]).rtake pageSize := rfl

theorem mirror_status (idx : List ℕ) (b : Bool) (f : Option Lib.Text.Str) :
    mirror idx (.status b f) = idx := rfl

theorem mirror_geoUpdate (idx : List ℕ) (ip country city isp code : Lib.Text.Str) :
    mirror idx (.geoUpdate ip country city isp code) = idx := rfl

variable {packets : List DashboardPacket}

theorem length_push (h : packets.length ≤ pageSize) (p : DashboardPacket) :
    (push packets p).length ≤ pageSize := by
  unfold push
  split_ifs with hlong
  · rw [List.length_drop, List.length_append, List.length_singleton]
    omega
  · omega

theorem push_eq_rtake (h : packets.length ≤ pageSize) (p : DashboardPacket) :
    push packets p = (packets ++ [p]).rtake pageSize := by
  have hlen : (packets ++ [p]).length = packets.length + 1 := by simp
  unfold push
  split_ifs with hlong
  · rw [List.rtake, show (packets ++ [p]).length - pageSize = 1 by omega]
  · rw [RingBuffer.rtake_of_length_le (by omega)]

theorem length_onMessage (h : packets.length ≤ pageSize) (m : Message) :
    (onMessage packets m).length ≤ pageSize := by
  cases m with
  | packet p => exact length_push h p
  | clear => exact Nat.zero_le _
  | status b f => exact h
  | geoUpdate ip country city isp code => exact (List.length_map _).trans_le h

theorem indexesOf_onMessage (h : packets.length ≤ pageSize) (m : Message) :
    indexesOf (onMessage packets m) = mirror (indexesOf packets) m := by
  cases m with
  | packet p =>
    show indexesOf (push packets p) = _
    rw [push_eq_rtake h, indexesOf, RingBuffer.map_rtake, List.map_append]
    rfl
  | clear => rfl
  | status b f => rfl
  | geoUpdate ip country city isp code =>
    show indexesOf (packets.map _) = indexesOf packets
    rw [indexesOf, List.map_map]
    refine List.map_congr_left fun p _ => ?_
    show DashboardPacket.index (if p.srcIp = ip ∨ p.dstIp = ip then _ else p) = p.index
    split_ifs <;> rfl

theorem replay_append_singleton (packets : List DashboardPacket) (ms : List Message) (m : Message) :
    replay packets (ms ++ [m]) = onMessage (replay packets ms) m := by
  unfold replay
  rw [List.foldl_append]
  rfl

theorem length_replay (h : packets.length ≤ pageSize) (ms : List Message) :
    (replay packets ms).length ≤ pageSize := by
  induction ms using List.reverseRecOn with
  | nil => exact h
  | append_singleton ms m ih =>
    rw [replay_append_singleton]
    exact length_onMessage ih m

/-- The indexes of the page behind a sequence of messages. -/
theorem indexesOf_replay (h : packets.length ≤ pageSize) (ms : List Message) :
    indexesOf (replay packets ms) = ms.foldl mirror (indexesOf packets) := by
  induction ms using List.reverseRecOn with
  | nil => rfl
  | append_singleton ms m ih =>
    rw [replay_append_singleton, indexesOf_onMessage (length_replay h ms), ih, List.foldl_append,
      List.foldl_cons, List.foldl_nil]

/-! ### The live mirror -/

variable {ι : Type*} {env : Env} {s s' : State ι} {idx : List ℕ}

/-- What a page with the indexes `idx` knows of the history: all of it, but for a packet that is stored
and not yet told, and but for a clear that is not yet told. -/
structure Mirrors (s : State ι) (idx : List ℕ) : Prop where
  stored : ∀ pkt, s.packetLoop = .stored pkt → indexes s = (idx ++ [pkt.index]).rtake pageSize
  clearing : ∀ r f, s.requests r = .cleared f → indexes s = []
  settled : (∀ pkt, s.packetLoop ≠ .stored pkt) → (∀ r f, s.requests r ≠ .cleared f) →
    indexes s = idx

/-- Nothing happens to the history, and nothing is left to be told or was told. -/
theorem Mirrors.same (hs : Mirrors s idx) (hidx : indexes s' = indexes s)
    (hst : ∀ pkt, s'.packetLoop = .stored pkt ↔ s.packetLoop = .stored pkt)
    (hcl : ∀ r f, s'.requests r = .cleared f ↔ s.requests r = .cleared f) : Mirrors s' idx where
  stored pkt hp := hidx.trans (hs.stored pkt ((hst pkt).mp hp))
  clearing r f hr := hidx.trans (hs.clearing r f ((hcl r f).mp hr))
  settled hnp hnr := hidx.trans (hs.settled (fun pkt hp => hnp pkt ((hst pkt).mpr hp))
    fun r f hr => hnr r f ((hcl r f).mpr hr))

/-- While the packet goroutine holds `mu`, no clear is under way. -/
theorem not_cleared_of_holds (hl : Locks s) (hmu : s.mu = some .packetLoop) (r : ι)
    (f : Option Lib.Text.Str) : s.requests r ≠ .cleared f := by
  intro hr
  have h := hl.request r (Or.inl ⟨f, hr⟩)
  rw [hmu] at h
  cases h

variable [DecidableEq ι]

theorem cleared_update {r : ι} {x : Request} (hr : ∀ f, s.requests r ≠ .cleared f)
    (hx : ∀ f, x ≠ .cleared f) (r' : ι) (f : Option Lib.Text.Str) :
    Function.update s.requests r x r' = .cleared f ↔ s.requests r' = .cleared f := by
  by_cases hrr : r' = r
  · subst hrr
    rw [Function.update_self]
    exact iff_of_false (hx f) (hr f)
  · rw [Function.update_of_ne hrr]

theorem behindAction_ne_cleared (f f' : Option Lib.Text.Str) : behindAction f ≠ .cleared f' := by
  cases f <;> nofun

/-- What the page has behind a step, with the messages of the step taken. -/
theorem mirrors_step {a : Server.Action ι} (hl : Locks s) (hs : Mirrors s idx) (h : Step env s a s') :
    ∃ ms, s'.broadcasts = s.broadcasts ++ ms ∧ Mirrors s' (ms.foldl mirror idx) := by
  have quiet : s'.broadcasts = s.broadcasts → Mirrors s' idx →
      ∃ ms, s'.broadcasts = s.broadcasts ++ ms ∧ Mirrors s' (ms.foldl mirror idx) :=
    fun hb hm => ⟨[], by rw [hb, List.append_nil], hm⟩
  have hsame : ∀ r f, s.requests r = .cleared f ↔ s.requests r = .cleared f := fun _ _ => Iff.rfl
  have hstay : ∀ pkt, s.packetLoop = .stored pkt ↔ s.packetLoop = .stored pkt := fun _ => Iff.rfl
  cases h with
  | arrive hp => exact quiet rfl (hs.same rfl (by simp [hp]) hsame)
  | skip hp hmu hscan => exact quiet rfl (hs.same rfl (by simp [hp]) hsame)
  | start hp hmu hscan hip => exact quiet rfl (hs.same rfl (by simp [hp]) hsame)
  | startLocal hp hmu hscan hip => exact quiet rfl (hs.same rfl (by simp [hp]) hsame)
  | lookupPrivate hp hip => exact quiet rfl (hs.same rfl (by simp [hp]) hsame)
  | hit hp hip hget => exact quiet rfl (hs.same rfl (by simp [hp]) hsame)
  | miss hp hip hget => exact quiet rfl (hs.same rfl (by simp [hp]) hsame)
  | ask hp hroom => exact quiet rfl (hs.same rfl (by simp [hp]) hsame)
  | drop hp hfull => exact quiet rfl (hs.same rfl (by simp [hp]) hsame)
  | @keep pkt hp hacc =>
    have hmu := hl.packet (by rw [hp]; trivial)
    have hnow := hs.settled (by simp [hp]) (not_cleared_of_holds hl hmu)
    refine quiet rfl ⟨?_, fun r f hr => absurd hr (not_cleared_of_holds hl hmu r f), ?_⟩
    · rintro _ ⟨⟩
      show ((s.historyBuffer.add pkt).getAll false).map (·.index) = _
      rw [RingBuffer.getAll_add, RingBuffer.map_rtake, List.map_append, ← hnow, pageSize_eq]
      rfl
    · intro hno
      exact absurd rfl (hno pkt)
  | reject hp hacc => exact quiet rfl (hs.same rfl (by simp [hp]) hsame)
  | @tell pkt hp =>
    have hmu := hl.packet (by rw [hp]; trivial)
    have htold : mirror idx (.packet pkt) = indexes s := (hs.stored pkt hp).symm
    refine ⟨[.packet pkt], rfl, ?_⟩
    rw [List.foldl_cons, List.foldl_nil, htold]
    exact ⟨by rintro _ ⟨⟩, fun r f hr => absurd hr (not_cleared_of_holds hl hmu r f), fun _ _ => rfl⟩
  | take => exact quiet rfl (hs.same rfl hstay hsame)
  | noDB => exact quiet rfl (hs.same rfl hstay hsame)
  | unknown => exact quiet rfl (hs.same rfl hstay hsame)
  | resolve => exact quiet rfl (hs.same rfl hstay hsame)
  | cache => exact quiet rfl (hs.same rfl hstay hsame)
  | update => exact quiet rfl (hs.same (indexes_update _ _) hstay hsame)
  | tellGeo => exact ⟨_, rfl, hs.same rfl hstay hsame⟩
  | opened hr => exact quiet rfl (hs.same rfl hstay (cleared_update (by simp [hr]) nofun))
  | plain hr =>
    exact quiet rfl (hs.same rfl hstay (cleared_update (by simp [hr]) (behindAction_ne_cleared _)))
  | clear hr hmu =>
    refine quiet rfl ⟨fun pkt hp => absurd hp (hl.not_stored (by simp [hmu])), fun _ _ _ => rfl, ?_⟩
    intro _ hno
    exact absurd (Function.update_self _ _ _) (hno _ _)
  | @tellClear r f hr =>
    have hmu := hl.request r (Or.inl ⟨f, hr⟩)
    have hempty := hs.clearing r f hr
    refine ⟨[.clear], rfl, fun pkt hp => absurd hp (hl.not_stored (by simp [hmu])),
      fun _ _ _ => hempty, fun _ _ => hempty⟩
  | toggle hr hmu => exact quiet rfl (hs.same rfl hstay (cleared_update (by simp [hr]) nofun))
  | readToggle hr => exact quiet rfl (hs.same rfl hstay (cleared_update (by simp [hr]) nofun))
  | tellToggle hr => exact ⟨_, rfl, hs.same rfl hstay (cleared_update (by simp [hr]) nofun)⟩
  | sameFilter hr => exact quiet rfl (hs.same rfl hstay (cleared_update (by simp [hr]) nofun))
  | setFilter hr => exact quiet rfl (hs.same rfl hstay (cleared_update (by simp [hr]) nofun))
  | tellFilter hr => exact ⟨_, rfl, hs.same rfl hstay (cleared_update (by simp [hr]) nofun)⟩

variable {savedOK : LruCache → Prop}

/-- From an empty history on, the page mirrors it. -/
theorem mirrors_of_leads (hs : (machine ι env savedOK).Reach s)
    (hempty : s.historyBuffer.getAll false = []) (hrun : (machine ι env savedOK).Leads s s') :
    ∃ ms, s'.broadcasts = s.broadcasts ++ ms ∧ Mirrors s' (ms.foldl mirror []) := by
  refine hrun.invariant (I := fun t => ∃ ms, t.broadcasts = s.broadcasts ++ ms ∧
    Mirrors t (ms.foldl mirror [])) hs ?_ ?_
  · have hidx : indexes s = [] := by rw [indexes, hempty]; rfl
    refine ⟨[], by rw [List.append_nil], fun pkt hp => ?_, fun _ _ _ => hidx, fun _ _ => hidx⟩
    have hcount := (locks_of_reach hs).stored pkt hp
    rw [← RingBuffer.length_getAll false, hempty] at hcount
    exact absurd rfl hcount
  · rintro t a t' ht ⟨ms, hms, hm⟩ ha
    obtain ⟨ms', hms', hm'⟩ := mirrors_step (locks_of_reach ht) hm (step_of_machine ha)
    refine ⟨ms ++ ms', by rw [hms', hms, List.append_assoc], ?_⟩
    rw [List.foldl_append]
    exact hm'

/-- **Live mirror.** A page that listens from a state with an empty history on has, whenever `mu` is
free, the packets of the history in its order. -/
theorem live_mirror (env : Env) (savedOK : LruCache → Prop) (s s' : State ι)
    (hs : (machine ι env savedOK).Reach s) (hempty : s.historyBuffer.getAll false = [])
    (hrun : (machine ι env savedOK).Leads s s') (hmu : s'.mu = none) :
    indexesOf (replay [] (s'.broadcasts.drop s.broadcasts.length)) = indexes s' := by
  obtain ⟨ms, hms, hm⟩ := mirrors_of_leads hs hempty hrun
  have hl := locks_of_reach (hs.leads hrun)
  rw [hms, List.drop_left, indexesOf_replay (Nat.zero_le _)]
  refine (hm.settled (fun pkt hp => hl.not_stored (by simp [hmu]) hp) fun r f hr => ?_).symm
  have h := hl.request r (Or.inl ⟨f, hr⟩)
  rw [hmu] at h
  cases h

/-- A page that listens from the start on has the one packet that is left behind the clear. -/
theorem live_mirror_keepClearKeep : ∃ s' : State Unit, (machine Unit atlas SavedOK).Leads started s' ∧
    s'.mu = none ∧ s'.broadcasts.length = 3 ∧ indexes s' = [2] ∧
    indexesOf (replay [] (s'.broadcasts.drop 0)) = indexes s' := by
  have hrun : (machine Unit atlas SavedOK).Leads started
      (((machine Unit atlas SavedOK).exec started keepClearKeep).get (by decide)) :=
    Machine.Leads.exec keepClearKeep (by simp)
  refine ⟨_, hrun, rfl, rfl, rfl, ?_⟩
  exact live_mirror atlas SavedOK started _ (.of_init init_started) rfl hrun rfl

end Pacsni.Dashboard.Client
