import Pacsni.Dashboard.History

/-! # What becomes of an arrived packet

The packet goroutine numbers, labels and locates a packet, stores it and tells the clients, or drops it.
It takes one packet after the other, so what is stored and what is told are some of the packets that
have arrived, in their order; nothing of what has arrived with a packet is changed, by the geo updates
neither. -/

namespace Pacsni.Dashboard.Forward

open Pacsni.Lib.Text Pacsni.Lib.Runs
open Pacsni.Dashboard.Packet Pacsni.Dashboard.Ring Pacsni.Dashboard.Lru
open Pacsni.Dashboard.Server Pacsni.Dashboard.Steps

/-- The packets among some messages. -/
def packetsOf (ms : List Message) : List DashboardPacket :=
  ms.filterMap fun
    | .packet p => some p
    | _ => none

/-- What has arrived with some packets. -/
def origins (ps : List DashboardPacket) : List Service.Model.DashboardPacket :=
  ps.map (·.toDashboardPacket)

variable {ι : Type*}

/-- The packets that arrive. -/
def note (_ : State ι) : Server.Action ι → List Service.Model.DashboardPacket
  | .arrive pkt => [pkt]
  | _ => []

/-- The packet that the goroutine is busy with. -/
def inProcess : PacketLoop → List DashboardPacket
  | .idle => []
  | .received pkt => [pkt]
  | .lookup pkt _ => [pkt]
  | .request pkt _ => [pkt]
  | .decide pkt => [pkt]
  | .stored pkt => [pkt]

/-- The packet that is not yet stored. -/
def notStored : PacketLoop → List DashboardPacket
  | .stored _ => []
  | p => inProcess p

@[simp] theorem packetsOf_append (ms ms' : List Message) :
    packetsOf (ms ++ ms') = packetsOf ms ++ packetsOf ms' := List.filterMap_append

@[simp] theorem origins_append (ps ps' : List DashboardPacket) :
    origins (ps ++ ps') = origins ps ++ origins ps' := List.map_append

/-! ### What the goroutines set -/

theorem origin_label (lib : Matching.Library) (index : ℕ) (pkt : DashboardPacket) :
    (label lib index pkt).toDashboardPacket = pkt.toDashboardPacket := rfl

theorem origin_setCountry (pkt : DashboardPacket) (res : Str) :
    (setCountry pkt res).toDashboardPacket = pkt.toDashboardPacket := by
  unfold setCountry
  dsimp only
  split <;> rfl

theorem origin_applyGeo (ip : Str) (g : GeoResult) (p : DashboardPacket) :
    (applyGeo ip g p).toDashboardPacket = p.toDashboardPacket := by
  unfold applyGeo
  split_ifs <;> rfl

theorem origins_applyGeo (ip : Str) (g : GeoResult) (ps : List DashboardPacket) :
    origins (ps.map (applyGeo ip g)) = origins ps := by
  rw [origins, List.map_map]
  exact List.map_congr_left fun p _ => origin_applyGeo ip g p

/-! ### The invariant -/

variable {env : Env} {s s' : State ι} {l : List Service.Model.DashboardPacket}

/-- What is told and what is stored, with the packet in process behind it. -/
structure Inv (s : State ι) (l : List Service.Model.DashboardPacket) : Prop where
  told : (origins (packetsOf s.broadcasts ++ inProcess s.packetLoop)).Sublist l
  stored : (origins (s.historyBuffer.getAll false ++ notStored s.packetLoop)).Sublist l

/-- Other goroutines tell no packet, and store none. -/
theorem Inv.others (hs : Inv s l) (hpacket : s'.packetLoop = s.packetLoop)
    (htold : packetsOf s'.broadcasts = packetsOf s.broadcasts)
    (hstored : (origins (s'.historyBuffer.getAll false)).Sublist
      (origins (s.historyBuffer.getAll false))) : Inv s' l := by
  refine ⟨?_, ?_⟩
  · rw [htold, hpacket]
    exact hs.told
  · rw [hpacket, origins_append]
    refine List.Sublist.trans ?_ hs.stored
    rw [origins_append]
    exact hstored.append (List.Sublist.refl _)

/-- The packet goroutine goes on with the packet that it has, or drops it. -/
theorem Inv.onward (hs : Inv s l) (hhist : s'.historyBuffer = s.historyBuffer)
    (htold : s'.broadcasts = s.broadcasts)
    (hpacket : (origins (inProcess s'.packetLoop)).Sublist (origins (inProcess s.packetLoop)))
    (hnot : (origins (notStored s'.packetLoop)).Sublist (origins (notStored s.packetLoop))) :
    Inv s' l := by
  refine ⟨?_, ?_⟩
  · refine List.Sublist.trans ?_ hs.told
    rw [htold, origins_append, origins_append]
    exact (List.Sublist.refl _).append hpacket
  · refine List.Sublist.trans ?_ hs.stored
    rw [hhist, origins_append, origins_append]
    exact (List.Sublist.refl _).append hnot

variable [DecidableEq ι]

/-- **One step.** -/
theorem inv_step {a : Server.Action ι} (hs : Inv s l) (h : Step env s a s') : Inv s' (l ++ note s a) := by
  have hsame : ∀ {t : State ι}, Inv t l → Inv t (l ++ []) := fun ht => by rwa [List.append_nil]
  cases h with
  | @arrive pkt hp =>
    have htold := hs.told
    have hstored := hs.stored
    rw [hp, inProcess, List.append_nil] at htold
    rw [hp, show notStored .idle = [] from rfl, List.append_nil] at hstored
    refine ⟨?_, ?_⟩
    · rw [origins_append]
      exact htold.append (List.Sublist.refl _)
    · rw [origins_append]
      exact hstored.append (List.Sublist.refl _)
  | skip hp | reject hp =>
    refine hsame (hs.onward rfl rfl ?_ ?_)
    all_goals exact List.nil_sublist _
  | start hp | startLocal hp | lookupPrivate hp | hit hp | miss hp | ask hp | drop hp =>
    refine hsame (hs.onward rfl rfl ?_ ?_)
    all_goals
      rw [hp]
      simp [origins, inProcess, notStored, origin_label, origin_setCountry]
  | @keep pkt hp hacc =>
    have hstored := hs.stored
    rw [hp] at hstored
    refine hsame ⟨?_, ?_⟩
    · have htold := hs.told
      rwa [hp] at htold
    · show (origins ((s.historyBuffer.add pkt).getAll false ++ [])).Sublist l
      rw [RingBuffer.getAll_add, List.append_nil]
      exact ((List.drop_sublist _ _).map _).trans hstored
  | @tell pkt hp =>
    have htold := hs.told
    have hstored := hs.stored
    rw [hp] at htold hstored
    refine hsame ⟨?_, hstored⟩
    show (origins (packetsOf (s.broadcasts ++ [.packet pkt]) ++ [])).Sublist l
    rw [packetsOf_append, List.append_nil]
    exact htold
  | @update ip g hg =>
    refine hsame (hs.others rfl rfl ?_)
    show (origins ((s.historyBuffer.update (applyGeo ip g)).getAll false)).Sublist _
    rw [RingBuffer.getAll_update, origins_applyGeo]
  | clear hr hmu =>
    refine hsame (hs.others rfl rfl ?_)
    show (origins (s.historyBuffer.clear.getAll false)).Sublist _
    rw [RingBuffer.getAll_clear]
    exact List.nil_sublist _
  | tellGeo hg | tellClear hr | tellToggle hr | tellFilter hr =>
    exact hsame (hs.others rfl (by simp [packetsOf]) (List.Sublist.refl _))
  | _ => exact hsame (hs.others rfl rfl (List.Sublist.refl _))

/-- The packets told and stored come from those that have arrived. -/
theorem inv_of_recorded {savedOK : LruCache → Prop}
    (h : ((machine ι env savedOK).recorded note).Reach (s, l)) : Inv s l := by
  refine Machine.Reach.invariant (I := fun y => Inv y.1 y.2) h ?_ ?_
  · rintro ⟨s, l⟩ ⟨⟨hcount, -, -, -, -, -, -, hpacket, -, -, htold⟩, rfl⟩
    have hhist : s.historyBuffer.getAll false = [] := by
      rw [← List.length_eq_zero_iff, RingBuffer.length_getAll, hcount]
    refine ⟨?_, ?_⟩
    · rw [htold, hpacket]
      exact List.Sublist.refl _
    · rw [hhist, hpacket]
      exact List.Sublist.refl _
  · rintro ⟨s, l⟩ a ⟨s', l'⟩ hs ha
    obtain ⟨hstep, rfl⟩ := Machine.recorded_step.mp ha
    exact inv_step hs (step_of_machine hstep)

end Pacsni.Dashboard.Forward
