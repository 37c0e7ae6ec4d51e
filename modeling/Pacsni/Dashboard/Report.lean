import Pacsni.Capture.Process
import Pacsni.Dashboard.Unmarshal
import Pacsni.Dashboard.WireLength

/-! # What a packet says of its frame

A packet of the dashboard has the time at which its frame was captured, the length on the wire, the addresses
of the Ethernet header and, if the dissection handles the ethertype, the first bytes, at most 256 of the
captured ones; of any other frame it has no bytes. Only a frame too short for an Ethernet header leaves the
record as it was. -/

namespace Pacsni.Dashboard.Report

open Pacsni.Lib.Bytes Pacsni.Lib.Trace Pacsni.Lib.CBuffer
open Pacsni.Capture.Types Pacsni.Capture.Layers Pacsni.Capture.LayerSpec Pacsni.Capture.Dissectors
open Pacsni.Capture.Raw Pacsni.Capture.Stages Pacsni.Capture.Wire4 Pacsni.Capture.Process
open Pacsni.Service.Model (macAddrToString)
open Pacsni.Service.Decode Pacsni.Dashboard.Unmarshal Pacsni.Dashboard.WireLength

/-! ### The fields of every frame -/

/-- The fields of a record that do not depend on the ethertype. -/
structure FrameFields where
  timestamp : UInt64
  srcMac : Vector UInt8 6
  dstMac : Vector UInt8 6
  wireLen : UInt32

/-- These fields of a record. -/
def frameFields (i : PacketInfo) : FrameFields := ⟨i.timestamp, i.srcMac, i.dstMac, i.wireLen⟩

/-- The two records have them in common. -/
abbrev SameFrame (i r : PacketInfo) : Prop := frameFields r = frameFields i

variable {packet : ℕ → UInt8}

theorem frame_tcpOption (q : ℕ) (kind l : UInt8) (i : PacketInfo) :
    Ensures (SameFrame i) (tcpOption packet q kind l i) := by
  unfold tcpOption; dsimp only; split_ifs <;> rfl

theorem frame_transportFields (caplen : UInt32) (ip : IpInfo) (t : TransportInfo) (info : PacketInfo) :
    Ensures (SameFrame info) (transportFields packet caplen ip t info) := by
  unfold transportFields
  refine .bind (P := SameFrame info) ?_ fun i hi => .bind (P := SameFrame info) ?_ fun j hj => ?_
  · unfold tcpFields
    refine .ite (.bind (P := SameFrame info) ?_ fun i hi => ?_) (.pure rfl)
    · exact parseTcpOptionsExtended_keeps frame_tcpOption _ _ _
    · exact (checkTcpAnomalies_keeps (fun _ _ => rfl) i t).trans hi
  · exact (dispatchApp_keeps (fun _ _ _ _ _ _ _ _ => rfl) t i).trans hi
  · exact (l4Protocols_keeps (fun _ _ _ _ => rfl) caplen j).trans hj

theorem frame_dissectIp (caplen : UInt32) (eth : EthernetInfo) (info : PacketInfo) :
    Ensures (SameFrame info) (dissectIp packet caplen eth info) := by
  unfold dissectIp
  refine .step fun o => ?_
  cases o with
  | none => exact .pure rfl
  | some ip =>
    refine .bind (P := SameFrame info) (ipv6Fields_keeps (fun _ _ _ _ _ => rfl) _ _ _) fun i hi => ?_
    refine .bind (icmpFields_keeps (f := frameFields) (fun _ _ _ _ => rfl) caplen i) fun j hj => ?_
    unfold dissectTransport
    refine .step fun o => ?_
    cases o with
    | none => exact .pure (hj.trans hi)
    | some t => exact (frame_transportFields caplen ip t j).trans (hj.trans hi)

theorem frame_dissectLlc (caplen : UInt32) (eth : EthernetInfo) (info : PacketInfo) :
    Ensures (SameFrame info) (dissectLlc packet caplen eth info) := by
  unfold dissectLlc
  exact .step fun _ => .ite (.step fun _ => .pure rfl) (.pure rfl)

theorem frame_lldpLoop (p l o : ℕ) (i : PacketInfo) :
    Ensures (fun r => ∀ j, r = some j → SameFrame i j) (lldpLoop packet p l o i) := by
  have hsame : ∀ j, some i = some j → SameFrame i j := fun j hj => by cases hj; rfl
  have hdead : ∀ j, (none : Option PacketInfo) = some j → SameFrame i j := fun j hj => by cases hj
  fun_induction lldpLoop packet p l o i with
  | case1 o i hc ih1 ih2 ih3 =>
    refine .step fun tlv => .ite (.pure hsame) (.ite ?_ (.ite ?_ (.ite (.pure hsame) ?_)))
    · refine .step fun r => ?_
      cases r with
      | none => exact .pure hdead
      | some c => exact ih1 tlv c (fun j hj => by cases hj; rfl) (fun j hj => by cases hj)
    · refine .step fun r => ?_
      cases r with
      | none => exact .pure hdead
      | some c => exact ih2 tlv c (fun j hj => by cases hj; rfl) (fun j hj => by cases hj)
    · exact ih3 tlv hsame hdead
  | case2 => exact .pure hsame

theorem frame_dissectLldp (p : ℕ) (l : ℤ) (i : PacketInfo) :
    Ensures (fun r => ∀ j, r = some j → SameFrame i j) (dissectLldp packet p l i) := by
  unfold dissectLldp
  refine .bind (frame_lldpLoop p l.toNat 0 i) fun r hr => ?_
  cases r with
  | none => exact .pure fun j hj => by cases hj
  | some i' => exact .step fun info => .pure fun j hj => by cases hj; exact hr i' rfl

/-! ### The record -/

theorem shown_payload {n : ℕ} {r : PacketInfo} (h : Captured packet n r) (hn : n ≤ 256) :
    (shown r).payload = (List.range n).map packet := by
  obtain ⟨hlen, v, hpayload⟩ := h
  show r.payload.toList.take (min r.payloadLen.toNat 256) = _
  have htake := take_toList_writeAt v ((List.range n).map fun k => packet (0 + k)) (by simpa using hn)
  rw [List.length_map, List.length_range] at htake
  rw [hlen, UInt16.toNat_ofNat', Nat.mod_eq_of_lt (by omega), Nat.min_eq_left hn, hpayload, htake]
  exact List.map_congr_left fun k _ => by rw [Nat.zero_add]

theorem frame_finishAlive (caplen : UInt32) {info : PacketInfo} : ∀ r : Option PacketInfo,
    (∀ j, r = some j → SameFrame info j) → Ensures (fun r => ∀ j, r = some j →
      SameFrame info j ∧ Captured packet (min caplen.toNat maxPayloadSize) j) (finishAlive packet caplen r)
  | none, _ => .pure nofun
  | some i, hi => .bind (P := fun j => SameFrame info j ∧ Captured packet _ j)
    ⟨(finish_keeps (fun _ _ _ _ _ _ => rfl) caplen i).trans (hi i rfl), finish_payload caplen i⟩
    fun j hj => .pure fun k hk => by
      obtain rfl := Option.some.inj hk
      exact hj

theorem frame_dissectEtherType (caplen : UInt32) (eth : EthernetInfo) {info : PacketInfo}
    (hinfo : info.payloadLen = 0) : Ensures (fun r => ∀ j, r = some j → SameFrame info j ∧
      Captured packet (if Handled eth.etherType then min caplen.toNat maxPayloadSize else 0) j)
      (dissectEtherType packet caplen eth info) := by
  generalize hn : (if Handled eth.etherType then min caplen.toNat maxPayloadSize else 0) = n
  have hall : Handled eth.etherType → ∀ r : Option PacketInfo, (∀ j, r = some j → SameFrame info j) →
      Ensures (fun r => ∀ j, r = some j → SameFrame info j ∧ Captured packet n j)
        (finishAlive packet caplen r) := by
    intro h r hr
    rw [← hn, if_pos h]
    exact frame_finishAlive caplen r hr
  have hsome : ∀ {i : PacketInfo}, SameFrame info i → ∀ j, some i = some j → SameFrame info j := by
    rintro i hi j ⟨⟩
    exact hi
  unfold dissectEtherType
  split_ifs with hip harp hllc hlldp
  · exact .bind (frame_dissectIp caplen eth info) fun i hi => hall (Or.inl hip) _ (hsome hi)
  · exact .bind (dissectArp_keeps (fun _ _ _ _ => rfl) caplen eth info) fun i hi =>
      hall (Or.inr (Or.inl harp)) _ (hsome hi)
  · exact .bind (frame_dissectLlc caplen eth info) fun i hi =>
      hall (Or.inr (Or.inr (Or.inl hllc))) _ (hsome hi)
  · exact .bind (frame_dissectLldp _ _ info) fun r hr => hall (Or.inr (Or.inr (Or.inr hlldp))) r hr
  · refine .pure fun j hj => ?_
    obtain rfl := Option.some.inj hj
    have hnone : ¬ Handled eth.etherType := by
      rintro (h | h | h | h)
      · exact hip h
      · exact harp h
      · exact hllc h
      · exact hlldp h
    rw [if_neg hnone] at hn
    subst hn
    refine ⟨rfl, hinfo, info.payload, ?_⟩
    ext k hk
    rw [getElem_writeAt, if_neg (by simp)]

/-! ### The packet -/

/-- The time stamp of a frame in microseconds. -/
def microseconds (ts : Timeval) : UInt64 := UInt64.ofNat ((ts.tvSec * 1000000 + ts.tvUsec) % 2 ^ 64).toNat

/-- The bytes `i` to `i + 5` of a frame. -/
def macAt (frame : ℕ → UInt8) (i : ℕ) : Vector UInt8 6 := Vector.ofFn fun j => frame (i + j)

/-- What the packet `d` says of the frame of a raw packet. The ethertype is the one behind the VLAN tags;
where the tags reach behind the 256 bytes of the raw packet, it is whatever lies in memory. -/
structure Reports (raw : RawPacket) (d : Service.Model.DashboardPacket) : Prop where
  timestamp : d.timestamp = microseconds raw.pkthdr.ts
  wireLen : d.wireLen = raw.pkthdr.len
  srcMac : d.srcMac = macAddrToString (macAt raw.data 6)
  dstMac : d.dstMac = macAddrToString (macAt raw.data 0)
  payload : ∃ mem k, TagDepth (loaded raw mem).data raw.pkthdr.caplen.toNat k ∧
    d.payload = if Handled (etypeAt (loaded raw mem).data k) then
      (List.range (min raw.pkthdr.caplen.toNat maxPayloadSize)).map raw.data else []

/-- The fields of a frame. -/
def fieldsOf (raw : RawPacket) : FrameFields where
  timestamp := microseconds raw.pkthdr.ts
  srcMac := macAt raw.data 6
  dstMac := macAt raw.data 0
  wireLen := raw.pkthdr.len

theorem frame_initInfo (raw : RawPacket) (eth : EthernetInfo) :
    Ensures (fun i => i.payloadLen = 0 ∧ frameFields i = fieldsOf raw) (initInfo raw eth) := by
  have hmac : ∀ i, writeAt (zeros 6) 0 ((List.range 6).map fun j => raw.data (i + j)) = macAt raw.data i :=
    fun i => by
      rw [← writeAt_mac (macAt raw.data i), macAt, Vector.toList_ofFn]
      rfl
  unfold initInfo
  refine .bind (P := fun bs => bs = _) rfl fun sbs hs => .bind (P := fun bs => bs = _) rfl fun dbs hd =>
    .pure ⟨rfl, ?_⟩
  rw [hs, hd, val_loadBytes, val_loadBytes, hmac, hmac]
  rfl

theorem frame_dissectRawPacket {raw : RawPacket} {k : ℕ}
    (hk : TagDepth raw.data raw.pkthdr.caplen.toNat k) (prior : PacketInfo) :
    Ensures (fun r => ∀ j, r = some j → frameFields j = fieldsOf raw ∧ Captured raw.data
      (if Handled (etypeAt raw.data k) then min raw.pkthdr.caplen.toNat maxPayloadSize else 0) j)
      (dissectRawPacket raw prior) := by
  unfold dissectRawPacket
  refine .bind (P := fun o => o = some _) (parseEthernetLayer_of_tagDepth hk) fun o ho => ?_
  subst ho
  refine .bind (frame_initInfo _ _) fun i hi => ?_
  exact (frame_dissectEtherType _ _ hi.1).mono fun r hr j hj => ⟨(hr j hj).1.trans hi.2, (hr j hj).2⟩

theorem macAt_congr {f g : ℕ → UInt8} {i : ℕ} (h : ∀ j < 6, f (i + j) = g (i + j)) :
    macAt f i = macAt g i := by
  apply Vector.ext
  intro j hj
  simp only [macAt, Vector.getElem_ofFn, h j hj]

theorem fieldsOf_loaded (raw : RawPacket) (mem : ℕ → UInt8) : fieldsOf (loaded raw mem) = fieldsOf raw := by
  have hmac : ∀ i ≤ 6, macAt (loaded raw mem).data i = macAt raw.data i := fun i hi =>
    macAt_congr fun j hj => if_pos (show i + j < 256 by omega)
  simp only [fieldsOf, hmac 6 le_rfl, hmac 0 (Nat.zero_le 6)]
  rfl

/-- **The packet of a frame** that has an Ethernet header. -/
theorem reports_of_dissected {raw : RawPacket} {info : PacketInfo} (h : Dissected raw info)
    (hcap : 14 ≤ raw.pkthdr.caplen.toNat) : Reports raw (forget (shown info)) := by
  obtain ⟨mem, prior, hval⟩ := h
  obtain ⟨k, hk, -, -⟩ := @parseEthernetLayer_spec (loaded raw mem).data raw.pkthdr.caplen.toNat 0
    (fun _ => True) trivial hcap
  obtain ⟨hfields, hbytes⟩ := @frame_dissectRawPacket (loaded raw mem) k hk prior info hval
  rw [fieldsOf_loaded] at hfields
  simp only [frameFields, fieldsOf, FrameFields.mk.injEq] at hfields
  obtain ⟨htime, hsrc, hdst, hwire⟩ := hfields
  refine ⟨htime, hwire, congrArg macAddrToString hsrc, congrArg macAddrToString hdst, mem, k, hk, ?_⟩
  show (shown info).payload = _
  rw [show (loaded raw mem).pkthdr = raw.pkthdr from rfl] at hbytes
  split_ifs at hbytes ⊢ with hhandled
  · rw [shown_payload hbytes (Nat.min_le_right _ _)]
    refine List.map_congr_left fun i hi => if_pos ?_
    exact Nat.lt_of_lt_of_le (List.mem_range.mp hi) (Nat.min_le_right _ _)
  · exact shown_payload hbytes (Nat.zero_le _)

end Pacsni.Dashboard.Report
