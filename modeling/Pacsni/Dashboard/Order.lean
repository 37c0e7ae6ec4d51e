import Pacsni.Dashboard.Client

/-! # The order of the page

`ws.onmessage` appends packets and drops the first one, and the table shows the array from its end: the
oldest packet is meant to be the first. The answer to `/api/packets` has the newest packet first, and
`displayData` takes it over as it is. So behind the answer and later packets the array is in the order
of the indexes if and only if the history had at most one packet, or so many packets came later that
at most one of the answer is left. -/

namespace Pacsni.Dashboard.Order

open Pacsni.Lib.Runs
open Pacsni.Dashboard.Packet Pacsni.Dashboard.Ring Pacsni.Dashboard.Lru
open Pacsni.Dashboard.Server Pacsni.Dashboard.Steps Pacsni.Dashboard.Mutex Pacsni.Dashboard.History
open Pacsni.Dashboard.Client
open Pacsni.Dashboard.Geo (Holds atlas fromPublic started init_started SavedOK)

/-! ### A reversed start -/

section

variable {H M : List ℕ} {n : ℕ}

/-- The last elements of a list are those of a long enough suffix. -/
theorem rtake_append_suffix {l t : List ℕ} (h : n ≤ t.length) : (l ++ t).rtake n <:+ t := by
  refine List.suffix_of_suffix_length_le (List.drop_suffix _ _) (List.suffix_append l t) ?_
  exact (RingBuffer.length_rtake_le (l ++ t) n).trans h

theorem suffix_rtake_append {l t : List ℕ} (h : t.length ≤ n) : t <:+ (l ++ t).rtake n := by
  refine List.suffix_of_suffix_length_le (List.suffix_append l t) (List.drop_suffix _ _) ?_
  rw [List.rtake, List.length_drop, List.length_append]
  omega

/-- **A reversed start.** A list whose first part is in reverse order is increasing at its end if and
only if at most one element of the first part is there. -/
theorem pairwise_rtake_iff (hH : H.Pairwise (· < ·)) (hM : M.Pairwise (· < ·))
    (hHM : ∀ i ∈ H, ∀ j ∈ M, i < j) :
    ((H.reverse ++ M).rtake n).Pairwise (· < ·) ↔ H.length ≤ 1 ∨ n ≤ M.length + 1 := by
  match H with
  | [] =>
    refine iff_of_true ?_ (Or.inl (Nat.zero_le _))
    exact hM.sublist (List.drop_suffix _ _).sublist
  | [i] =>
    refine iff_of_true ?_ (Or.inl le_rfl)
    have hall : (i :: M).Pairwise (· < ·) :=
      List.pairwise_cons.mpr ⟨fun j hj => hHM i List.mem_cons_self j hj, hM⟩
    exact hall.sublist (List.drop_suffix _ _).sublist
  | i :: j :: T =>
    have hij : i < j := (List.pairwise_cons.mp hH).1 j List.mem_cons_self
    constructor
    · intro hinc
      right
      by_contra hlong
      -- the two oldest elements are still there, in the wrong order
      have hsplit : (i :: j :: T).reverse ++ M = T.reverse ++ (j :: i :: M) := by simp
      have hsuffix : (j :: i :: M) <:+ ((i :: j :: T).reverse ++ M).rtake n := by
        rw [hsplit]
        refine suffix_rtake_append ?_
        simp only [List.length_cons]
        omega
      have hpair := hinc.sublist hsuffix.sublist
      have hji : j < i := (List.pairwise_cons.mp hpair).1 i List.mem_cons_self
      omega
    · rintro (hshort | hmany)
      · simp at hshort
      · have hsplit : (i :: j :: T).reverse ++ M = (j :: T).reverse ++ (i :: M) := by simp
        have hall : (i :: M).Pairwise (· < ·) :=
          List.pairwise_cons.mpr ⟨fun j hj => hHM i List.mem_cons_self j hj, hM⟩
        rw [hsplit]
        refine hall.sublist (rtake_append_suffix ?_).sublist
        rw [List.length_cons]
        exact hmany

end

/-! ### The packets that are told -/

/-- The indexes of the packets in a sequence of messages. -/
def packetIndexes (ms : List Message) : List ℕ :=
  ms.filterMap fun
    | .packet p => some p.index
    | _ => none

@[simp] theorem packetIndexes_append (ms ms' : List Message) :
    packetIndexes (ms ++ ms') = packetIndexes ms ++ packetIndexes ms' := List.filterMap_append

/-- Without a clear, the page has the last packets of what it had and what it was told. -/
theorem foldl_mirror {idx : List ℕ} (h : idx.length ≤ pageSize) (ms : List Message)
    (hclear : Message.clear ∉ ms) :
    ms.foldl mirror idx = (idx ++ packetIndexes ms).rtake pageSize := by
  induction ms using List.reverseRecOn with
  | nil =>
    show idx = (idx ++ []).rtake pageSize
    rw [List.append_nil, RingBuffer.rtake_of_length_le h]
  | append_singleton ms m ih =>
    have hms : Message.clear ∉ ms := fun hm => hclear (List.mem_append_left _ hm)
    rw [List.foldl_append, List.foldl_cons, List.foldl_nil, ih hms, packetIndexes_append]
    cases m with
    | packet p =>
      rw [mirror_packet, RingBuffer.rtake_append_rtake, List.append_assoc]
      rfl
    | clear => exact absurd (List.mem_append_right _ List.mem_cons_self) hclear
    | status b f =>
      rw [mirror_status, show packetIndexes [.status b f] = [] from rfl, List.append_nil]
    | geoUpdate ip country city isp code =>
      rw [mirror_geoUpdate, show packetIndexes [.geoUpdate ip country city isp code] = [] from rfl,
        List.append_nil]

variable {ι : Type*} {env : Env} {s s' : State ι}

/-- The packet that the packet goroutine has given an index and not yet told or rejected. -/
def inHand : PacketLoop → Option DashboardPacket
  | .stored pkt => some pkt
  | p => handled p

theorem holds_of_inHand {p : PacketLoop} {pkt : DashboardPacket} (h : inHand p = some pkt) :
    Holds p := by
  cases p with
  | idle => cases h
  | received pkt => cases h
  | _ => trivial

theorem inHand_of_handled {p : PacketLoop} {pkt : DashboardPacket} (h : handled p = some pkt) :
    inHand p = some pkt := by
  cases p with
  | stored q => cases h
  | _ => exact h

/-- The packets that are told behind a state with the counter `base`, and the packet that comes next. -/
structure Later (base : ℕ) (s : State ι) (told : List ℕ) : Prop where
  counter : base ≤ s.packetCounter
  increasing : told.Pairwise (· < ·)
  bounded : ∀ i ∈ told, base < i ∧ i ≤ s.packetCounter
  next : ∀ pkt, inHand s.packetLoop = some pkt →
    base < pkt.index ∧ pkt.index = s.packetCounter ∧ ∀ i ∈ told, i < pkt.index

variable {base : ℕ} {told : List ℕ}

/-- A packet that is stored and not told was in hand before. -/
def Carries (s s' : State ι) : Prop :=
  ∀ pkt, s'.packetLoop = .stored pkt →
    inHand s.packetLoop = some pkt ∧ s'.packetCounter = s.packetCounter

theorem carries_of_eq (hp : s'.packetLoop = s.packetLoop) (hc : s'.packetCounter = s.packetCounter) :
    Carries s s' := by
  intro pkt hpkt
  rw [hp] at hpkt
  exact ⟨by rw [hpkt]; rfl, hc⟩

theorem stored_or_handled {p : PacketLoop} {pkt : DashboardPacket} (h : inHand p = some pkt) :
    p = .stored pkt ∨ handled p = some pkt := by
  cases p with
  | stored q => exact Or.inl (congrArg _ (Option.some.inj h))
  | _ => exact Or.inr h

/-- A step that tells no packet. -/
theorem Later.onward (hs : Later base s told) (hcount : Counts s s') (hst : Carries s s') :
    Later base s' told := by
  have hcounter : s.packetCounter ≤ s'.packetCounter := by
    rcases hcount with ⟨hc, -⟩ | ⟨hc, -⟩ <;> omega
  refine ⟨hs.counter.trans hcounter, hs.increasing, fun i hi => ?_, fun pkt hpkt => ?_⟩
  · obtain ⟨habove, hle⟩ := hs.bounded i hi
    exact ⟨habove, hle.trans hcounter⟩
  · rcases stored_or_handled hpkt with hp | hp
    · obtain ⟨hold, hc⟩ := hst pkt hp
      rw [hc]
      exact hs.next pkt hold
    · rcases hcount with ⟨hc, hcur⟩ | ⟨hc, hcur⟩
      · obtain ⟨pkt', hpkt', hindex⟩ := hcur pkt hp
        rw [hc, hindex]
        exact hs.next pkt' (inHand_of_handled hpkt')
      · have hindex := hcur pkt hp
        have hbase := hs.counter
        refine ⟨by omega, hindex.trans hc.symm, fun i hi => ?_⟩
        have := hs.bounded i hi
        omega

variable [DecidableEq ι]

/-- What is told behind a step. -/
theorem later_step {a : Server.Action ι} (hs : Later base s told) (h : Step env s a s') :
    ∃ ms, s'.broadcasts = s.broadcasts ++ ms ∧ Later base s' (told ++ packetIndexes ms) := by
  have hcount := counts_step h
  have other : ∀ ms, packetIndexes ms = [] → s'.broadcasts = s.broadcasts ++ ms → Carries s s' →
      ∃ ms, s'.broadcasts = s.broadcasts ++ ms ∧ Later base s' (told ++ packetIndexes ms) := by
    intro ms hms hb hst
    refine ⟨ms, hb, ?_⟩
    rw [hms, List.append_nil]
    exact hs.onward hcount hst
  have quiet : s'.broadcasts = s.broadcasts → Carries s s' →
      ∃ ms, s'.broadcasts = s.broadcasts ++ ms ∧ Later base s' (told ++ packetIndexes ms) := by
    intro hb hst
    exact other [] rfl (by rw [hb, List.append_nil]) hst
  cases h with
  | arrive hp => exact quiet rfl (by rintro _ ⟨⟩)
  | skip hp hmu hscan => exact quiet rfl (by rintro _ ⟨⟩)
  | start hp hmu hscan hip => exact quiet rfl (by rintro _ ⟨⟩)
  | startLocal hp hmu hscan hip => exact quiet rfl (by rintro _ ⟨⟩)
  | lookupPrivate hp hip => exact quiet rfl (by rintro _ ⟨⟩)
  | hit hp hip hget => exact quiet rfl (by rintro _ ⟨⟩)
  | miss hp hip hget => exact quiet rfl (by rintro _ ⟨⟩)
  | ask hp hroom => exact quiet rfl (by rintro _ ⟨⟩)
  | drop hp hfull => exact quiet rfl (by rintro _ ⟨⟩)
  | keep hp hacc =>
    refine quiet rfl ?_
    rintro _ ⟨⟩
    exact ⟨by rw [hp]; rfl, rfl⟩
  | reject hp hacc => exact quiet rfl (by rintro _ ⟨⟩)
  | @tell pkt hp =>
    obtain ⟨habove, hindex, hlast⟩ := hs.next pkt (by rw [hp]; rfl)
    refine ⟨[.packet pkt], rfl, hs.counter, ?_, ?_, by rintro _ ⟨⟩⟩
    · rw [show packetIndexes [.packet pkt] = [pkt.index] from rfl, List.pairwise_append]
      refine ⟨hs.increasing, List.pairwise_singleton _ _, fun i hi j hj => ?_⟩
      rw [List.mem_singleton.mp hj]
      exact hlast i hi
    · intro i hi
      rcases List.mem_append.mp hi with hi | hi
      · exact hs.bounded i hi
      · obtain rfl := List.mem_singleton.mp hi
        exact ⟨habove, le_of_eq hindex⟩
  | tellGeo => exact other [_] rfl rfl (carries_of_eq rfl rfl)
  | tellClear => exact other [_] rfl rfl (carries_of_eq rfl rfl)
  | tellToggle => exact other [_] rfl rfl (carries_of_eq rfl rfl)
  | tellFilter => exact other [_] rfl rfl (carries_of_eq rfl rfl)
  | _ => exact quiet rfl (carries_of_eq rfl rfl)

variable {savedOK : LruCache → Prop}

theorem later_of_leads (hs : (machine ι env savedOK).Reach s) (hmu : s.mu = none)
    (hrun : (machine ι env savedOK).Leads s s') :
    ∃ ms, s'.broadcasts = s.broadcasts ++ ms ∧ Later s.packetCounter s' (packetIndexes ms) := by
  refine hrun.invariant (I := fun t => ∃ ms, t.broadcasts = s.broadcasts ++ ms ∧
    Later s.packetCounter t (packetIndexes ms)) hs ?_ ?_
  · refine ⟨[], by rw [List.append_nil], le_rfl, .nil, nofun, fun pkt hpkt => ?_⟩
    exact absurd (holds_of_inHand hpkt) ((locks_of_reach hs).not_holds (by simp [hmu]))
  · rintro t a t' - ⟨ms, hms, hl⟩ ha
    obtain ⟨ms', hms', hl'⟩ := later_step hl (step_of_machine ha)
    refine ⟨ms ++ ms', by rw [hms', hms, List.append_assoc], ?_⟩
    rwa [packetIndexes_append]

/-- The stored packets have increasing indexes, up to the counter. -/
theorem indexes_bounded (hs : (machine ι env savedOK).Reach s) :
    (indexes s).Pairwise (· < ·) ∧ ∀ i ∈ indexes s, i ≤ s.packetCounter := by
  obtain ⟨l, hl⟩ : ∃ l, ((machine ι env savedOK).recorded (note env)).Reach (s, l) :=
    hs.exists_recorded
  have hinv := inv_of_recorded hl
  have hsub : indexes s <:+ everKept l := by
    rw [hinv.history]
    exact (List.drop_suffix _ _).trans (sinceClear_suffix l)
  exact ⟨hinv.increasing.sublist hsub.sublist, fun i hi => hinv.bounded i (hsub.subset hi)⟩

/-- **The order of the page.** After the answer to `/api/packets` and the packets that are told later
the array is in increasing order if and only if the history had at most one packet, or at least 4999
packets were told. -/
theorem page_increasing_iff (env : Env) (savedOK : LruCache → Prop) (s s' : State ι)
    (hs : (machine ι env savedOK).Reach s) (hmu : s.mu = none)
    (hrun : (machine ι env savedOK).Leads s s') (ms : List Message)
    (hms : s'.broadcasts = s.broadcasts ++ ms) (hclear : Message.clear ∉ ms)
    (packets : List DashboardPacket) :
    (indexesOf (replay (displayData packets (some (apiPackets s))) ms)).Pairwise (· < ·) ↔
      s.historyBuffer.count ≤ 1 ∨ 4999 ≤ (packetIndexes ms).length := by
  obtain ⟨ms', hms', hl⟩ := later_of_leads hs hmu hrun
  obtain rfl : ms = ms' := List.append_cancel_left (hms.symm.trans hms')
  obtain ⟨hinc, hbound⟩ := indexes_bounded hs
  have hidx : indexesOf (apiPackets s) = (indexes s).reverse := by
    rw [indexesOf, apiPackets, RingBuffer.getAll_true, List.map_reverse]
    rfl
  have hlen : (indexes s).length = s.historyBuffer.count := by
    rw [indexes, List.length_map, RingBuffer.length_getAll]
  have hsize : (apiPackets s).length ≤ pageSize := by
    rw [apiPackets, RingBuffer.length_getAll]
    exact s.historyBuffer.count_le
  show (indexesOf (replay (apiPackets s) ms)).Pairwise _ ↔ _
  rw [indexesOf_replay hsize, foldl_mirror _ ms hclear, hidx,
    pairwise_rtake_iff hinc hl.increasing, hlen]
  · have hpage : pageSize = 5000 := rfl
    rw [hpage]
    exact Iff.or Iff.rfl (by omega)
  · intro i hi j hj
    have := hbound i hi
    have := hl.bounded j hj
    omega
  · rw [indexesOf, List.length_map]
    exact hsize

/-- The steps that store a packet from a public address, before its country is known. -/
def storeOne : List (Server.Action Unit) :=
  [.arrive fromPublic, .packetLoop, .packetLoop, .packetLoop, .packetLoop, .packetLoop]

/-- The server behind one stored packet. -/
def oneStored : State Unit := ((machine Unit atlas SavedOK).exec started storeOne).get (by decide)

/-- The server behind two stored packets. -/
def twoStored : State Unit := ((machine Unit atlas SavedOK).exec oneStored storeOne).get (by decide)

theorem reach_oneStored : (machine Unit atlas SavedOK).Reach oneStored :=
  Machine.Reach.exec (s := started) storeOne (.of_init init_started) (by simp [oneStored])

theorem leads_twoStored : (machine Unit atlas SavedOK).Leads oneStored twoStored :=
  Machine.Leads.exec storeOne (by simp [twoStored])

/-- A page that is opened behind the first packet and is told the second one. -/
theorem page_of_oneStored : ∃ ms, twoStored.broadcasts = oneStored.broadcasts ++ ms ∧
    (indexesOf (replay (displayData [] (some (apiPackets oneStored))) ms)).Pairwise (· < ·) := by
  refine ⟨_, rfl, (page_increasing_iff atlas SavedOK oneStored twoStored reach_oneStored rfl
    leads_twoStored _ rfl ?_ []).mpr (Or.inl (by decide))⟩
  intro hmem
  cases List.mem_singleton.mp hmem

/-- A page that is opened behind two packets has the newer one first. -/
theorem page_of_twoStored_decreasing : (machine Unit atlas SavedOK).Reach twoStored ∧
    twoStored.mu = none ∧
    ¬ (indexesOf (replay (displayData [] (some (apiPackets twoStored))) [])).Pairwise (· < ·) := by
  refine ⟨reach_oneStored.leads leads_twoStored, rfl, ?_⟩
  have hidx : indexesOf (replay (displayData [] (some (apiPackets twoStored))) []) = [2, 1] := rfl
  rw [hidx]
  decide

end Pacsni.Dashboard.Order
