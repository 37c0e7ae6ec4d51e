import Pacsni.Service.CStrings
import Pacsni.Dashboard.Export

/-! # The length on the wire

The record of a frame has the length that the frame had on the wire in a field of its own, but the
capture file gives the number of stored bytes for it. The two are the same if and only if all bytes of
the frame are stored (`original_length_iff`): at most 256 bytes are, and none of a frame of another
ethertype than those the dissection knows. -/

namespace Pacsni.Dashboard.WireLength

open Pacsni.Lib.Trace Pacsni.Lib.Bytes Pacsni.Lib.CBuffer Pacsni.Lib.Pcap Pacsni.Lib.Runs
open Pacsni.Capture.Types Pacsni.Capture.Layers Pacsni.Capture.LayerSpec Pacsni.Capture.Raw
open Pacsni.Capture.Stages Pacsni.Capture.Layout Pacsni.Capture.Wire4
open Pacsni.Service.Decode Pacsni.Service.CStrings
open Pacsni.Dashboard.Packet Pacsni.Dashboard.Ring Pacsni.Dashboard.Lru
open Pacsni.Dashboard.Server Pacsni.Dashboard.Steps Pacsni.Dashboard.Flow Pacsni.Dashboard.Export
open Pacsni.Dashboard.Geo (atlas SavedOK)

/-- The service makes the packet `d` of the record of the frame `raw`; `prior` is what the record held
before. -/
def FromFrame (raw : RawPacket) (prior : PacketInfo) (d : Service.Model.DashboardPacket) : Prop :=
  ∃ r hmac rest, (dissectRawPacket raw prior).val = some r ∧
    decode.run (sendPacketInfo hmac r ++ rest) = some (d, rest)

/-- The bytes of frames of this ethertype are copied into the record. -/
def Handled (etype : UInt16) : Prop :=
  IsIp etype ∨ etype = 0x0806 ∨ etype ≤ 1500 ∨ etype = 0x88cc

instance (etype : UInt16) : Decidable (Handled etype) :=
  inferInstanceAs (Decidable (_ ∨ _ ∨ _ ∨ _))

/-- The record has as many bytes as the frame had on the wire. -/
inductive Whole (raw : RawPacket) (prior : PacketInfo) : Prop
  /-- The frame was captured and copied to its end. -/
  | all (k : ℕ) (hk : TagDepth raw.data raw.pkthdr.caplen.toNat k) (etype : Handled (etypeAt raw.data k))
      (len : raw.pkthdr.len.toNat = min raw.pkthdr.caplen.toNat maxPayloadSize)
  | empty (k : ℕ) (hk : TagDepth raw.data raw.pkthdr.caplen.toNat k)
      (etype : ¬ Handled (etypeAt raw.data k)) (len : raw.pkthdr.len.toNat = 0)
  /-- Too short for an Ethernet header: the bytes are those that the record held before. -/
  | short (caplen : raw.pkthdr.caplen.toNat < 14)
      (len : raw.pkthdr.len.toNat = min prior.payloadLen.toNat maxPayloadSize)

/-! ### The number of stored bytes -/

variable {raw : RawPacket} {prior r : PacketInfo} {d : Service.Model.DashboardPacket}

theorem finishAlive_payloadLen (packet : ℕ → UInt8) (caplen : UInt32) : ∀ r : Option PacketInfo,
    Ensures (fun r => ∀ j, r = some j → j.payloadLen = UInt16.ofNat (min caplen.toNat maxPayloadSize))
      (finishAlive packet caplen r)
  | none => .pure nofun
  | some info => .bind (finish_payload caplen info) fun i hi => .pure fun j hj => by
    obtain rfl := Option.some.inj hj
    exact hi.1

/-- The branches on the ethertype that copy the bytes. -/
theorem dissectEtherType_payloadLen (packet : ℕ → UInt8) (caplen : UInt32) (eth : EthernetInfo)
    (info : PacketInfo) :
    Ensures (fun r => ∀ j, r = some j → j.payloadLen =
      if Handled eth.etherType then UInt16.ofNat (min caplen.toNat maxPayloadSize) else info.payloadLen)
      (dissectEtherType packet caplen eth info) := by
  generalize hn : (if Handled eth.etherType then UInt16.ofNat (min caplen.toNat maxPayloadSize)
    else info.payloadLen) = n
  have hcopied : Handled eth.etherType → ∀ r : Option PacketInfo,
      Ensures (fun r => ∀ j, r = some j → j.payloadLen = n) (finishAlive packet caplen r) := by
    intro h r
    rw [← hn, if_pos h]
    exact finishAlive_payloadLen packet caplen r
  unfold dissectEtherType
  split_ifs with hip harp hllc hlldp
  · exact .step fun _ => hcopied (Or.inl hip) _
  · exact .step fun _ => hcopied (Or.inr (Or.inl harp)) _
  · exact .step fun _ => hcopied (Or.inr (Or.inr (Or.inl hllc))) _
  · exact .step fun _ => hcopied (Or.inr (Or.inr (Or.inr hlldp))) _
  · refine .pure fun j hj => ?_
    obtain rfl := Option.some.inj hj
    rw [← hn, if_neg]
    rintro (h | h | h | h)
    · exact hip h
    · exact harp h
    · exact hllc h
    · exact hlldp h

theorem payloadLen_record {k : ℕ} (hk : TagDepth raw.data raw.pkthdr.caplen.toNat k)
    (hr : (dissectRawPacket raw prior).val = some r) : r.payloadLen =
      if Handled (etypeAt raw.data k) then UInt16.ofNat (min raw.pkthdr.caplen.toNat maxPayloadSize)
      else 0 := by
  have hrecord : Ensures (fun r => ∀ j, r = some j → j.payloadLen = if Handled (etypeAt raw.data k)
      then UInt16.ofNat (min raw.pkthdr.caplen.toNat maxPayloadSize) else 0)
      (dissectRawPacket raw prior) := by
    unfold dissectRawPacket
    refine .bind (P := fun o => o = some _) (parseEthernetLayer_of_tagDepth hk) fun o ho => ?_
    subst ho
    refine .bind (P := fun i => i.payloadLen = 0) ?_ fun i hi => ?_
    · unfold initInfo
      exact .step fun _ => .step fun _ => .pure rfl
    · rw [← hi]
      exact dissectEtherType_payloadLen raw.data raw.pkthdr.caplen (ethOf raw.data k) i
  exact hrecord r hr

theorem length_payload_shown (r : PacketInfo) :
    (shown r).payload.length = min r.payloadLen.toNat maxPayloadSize := by
  show (r.payload.toList.take (min r.payloadLen.toNat 256)).length = min r.payloadLen.toNat 256
  rw [List.length_take, Vector.length_toList]
  omega

/-- As many bytes are stored as the frame had on the wire if and only if the record is whole. -/
theorem length_payload_iff (h : FromFrame raw prior d) :
    d.payload.length = raw.pkthdr.len.toNat ↔ Whole raw prior := by
  obtain ⟨r, hmac, rest, hr, hd⟩ := h
  rw [eq_shown_of_run hd, length_payload_shown]
  by_cases hshort : raw.pkthdr.caplen.toNat < 14
  · obtain rfl : prior = r := by
      unfold dissectRawPacket at hr
      rw [parseEthernetLayer_short hshort] at hr
      exact Option.some.inj hr
    refine ⟨fun hlen => .short hshort hlen.symm, fun hwhole => ?_⟩
    cases hwhole with
    | all k hk _ _ => have := hk.fits; omega
    | empty k hk _ _ => have := hk.fits; omega
    | short _ len => exact len.symm
  · obtain ⟨k, hk, -, -⟩ := @parseEthernetLayer_spec raw.data raw.pkthdr.caplen.toNat 0
      (fun _ => True) trivial (not_lt.mp hshort)
    have hle : min raw.pkthdr.caplen.toNat maxPayloadSize ≤ 256 := Nat.min_le_right _ _
    rw [payloadLen_record hk hr]
    by_cases hetype : Handled (etypeAt raw.data k)
    · rw [if_pos hetype, UInt16.toNat_ofNat', Nat.mod_eq_of_lt (by omega), Nat.min_assoc, Nat.min_self]
      refine ⟨fun hlen => .all k hk hetype hlen.symm, fun hwhole => ?_⟩
      cases hwhole with
      | all _ _ _ len => exact len.symm
      | empty k' hk' hno _ => exact absurd (hk.unique hk' ▸ hetype) hno
      | short hlt _ => exact absurd hlt hshort
    · rw [if_neg hetype]
      refine ⟨fun hlen => .empty k hk hetype hlen.symm, fun hwhole => ?_⟩
      cases hwhole with
      | all k' hk' h _ => exact absurd (hk.unique hk' ▸ h) hetype
      | empty _ _ _ len => exact len.symm
      | short hlt _ => exact absurd hlt hshort

theorem length_payload_le (h : FromFrame raw prior d) : d.payload.length ≤ 256 := by
  obtain ⟨r, hmac, rest, hr, hd⟩ := h
  rw [eq_shown_of_run hd, length_payload_shown]
  exact Nat.min_le_right _ _

/-! ### The file -/

/-- The record has the lengths of the frame `raw`. -/
structure HasLengths (raw : RawPacket) (r : Record) : Prop where
  inclLen : r.inclLen.toNat = r.data.length
  origLen : r.origLen = raw.pkthdr.len

theorem hasLengths_iff {p : DashboardPacket} (h : FromFrame raw prior p.toDashboardPacket) :
    HasLengths raw (recordOf p) ↔ Whole raw prior := by
  have hle : p.payload.length ≤ 256 := length_payload_le h
  have hstored : (UInt32.ofNat p.payload.length).toNat = p.payload.length := by
    rw [UInt32.toNat_ofNat', Nat.mod_eq_of_lt (by omega)]
  rw [← length_payload_iff h, ← hstored, UInt32.toNat_inj]
  exact ⟨fun hr => hr.origLen, fun hlen => ⟨hstored, hlen⟩⟩

/-- A packet that arrives is made of a frame. -/
def OfFrame {ι : Type*} (a : Server.Action ι) : Prop :=
  ∀ d, a = .arrive d → ∃ raw prior, FromFrame raw prior d

variable {ι : Type*} [DecidableEq ι] {env : Env} {savedOK : LruCache → Prop} {s : State ι}

/-- The file of a history of frames. -/
theorem parse_apiExport (hs : (machine ι env savedOK).ReachVia (fun _ a => OfFrame a) s) :
    parse (apiExport s) = some (fileHeader, (s.historyBuffer.getAll false).map recordOf) := by
  refine parse_exportBytes fun p hp => ?_
  obtain ⟨raw, prior, hframe⟩ := history_of_arrivals hs p hp
  exact lt_of_le_of_lt (length_payload_le hframe) (by decide)

/-- **The lengths in the file.** The record of a stored packet has the lengths of the frame that the
packet was made of if and only if the record of the frame was whole. -/
theorem original_length_iff (env : Env) (savedOK : LruCache → Prop) (s : State ι)
    (hs : (machine ι env savedOK).ReachVia (fun _ a => OfFrame a) s) :
    ∃ h rs, parse (apiExport s) = some (h, rs) ∧
      List.Forall₂ (fun p r => r.data = p.payload ∧ ∀ raw prior, FromFrame raw prior p.toDashboardPacket →
        (HasLengths raw r ↔ Whole raw prior)) (s.historyBuffer.getAll false) rs := by
  refine ⟨_, _, parse_apiExport hs, ?_⟩
  rw [List.forall₂_map_right_iff, List.forall₂_same]
  exact fun p hp => ⟨rfl, fun raw prior hframe => hasLengths_iff hframe⟩

/-! ### One frame -/

/-- A frame of 300 bytes, captured to its end. -/
def longRaw : RawPacket := ⟨⟨⟨0, 0⟩, 300, 300⟩, fun i => if i = 12 then 8 else 0, 0⟩

theorem tagDepth_longRaw : TagDepth longRaw.data 300 0 :=
  ⟨by decide, fun j hj => absurd hj (Nat.not_lt_zero j), by decide⟩

theorem exists_fromFrame {raw : RawPacket} {k : ℕ} (hk : TagDepth raw.data raw.pkthdr.caplen.toNat k)
    (hetype : IsIp (etypeAt raw.data k)) : ∃ d, FromFrame raw PacketInfo.zero d := by
  obtain ⟨r, hr⟩ := exists_record hk hetype PacketInfo.zero
  exact ⟨shown r, r, fun _ => zeros 64, [], hr, run_decode_send _ r []⟩

theorem ofFrame_of_only (hd : FromFrame raw prior d)
    (hs : (machine ι env savedOK).ReachVia (Only d) s) :
    (machine ι env savedOK).ReachVia (fun _ a => OfFrame a) s := by
  refine hs.mono fun _ a ha d' hd' => ?_
  rw [ha d' hd']
  exact ⟨raw, prior, hd⟩

/-- A frame of 64 bytes has its length in the file. -/
theorem original_length_user : ∃ s : State Unit, s.historyBuffer.count = 1 ∧ ∃ h rs,
    parse (apiExport s) = some (h, rs) ∧
      List.Forall₂ (fun p r => r.data = p.payload ∧ ∀ raw prior, FromFrame raw prior p.toDashboardPacket →
        (HasLengths raw r ↔ Whole raw prior)) (s.historyBuffer.getAll false) rs := by
  obtain ⟨d, hd⟩ := exists_fromFrame (tagDepth_userRaw (Or.inr rfl)) (Or.inl rfl)
  obtain ⟨s, hs, hcount⟩ := exists_stored atlas d
  exact ⟨s, hcount, original_length_iff atlas SavedOK s (ofFrame_of_only hd hs)⟩

/-- The record of the frame of 300 bytes says that it had 256 bytes on the wire. -/
theorem long_length_lost : ¬ ∀ s : State Unit,
    (machine Unit atlas SavedOK).ReachVia (fun _ a => OfFrame a) s →
    ∃ h rs, parse (apiExport s) = some (h, rs) ∧
      List.Forall₂ (fun p r => r.data = p.payload ∧ ∀ raw prior, FromFrame raw prior p.toDashboardPacket →
        HasLengths raw r) (s.historyBuffer.getAll false) rs := by
  intro h
  obtain ⟨d, hd⟩ := exists_fromFrame tagDepth_longRaw (Or.inl rfl)
  obtain ⟨s, hs, hcount⟩ := exists_stored atlas d
  have hframes := ofFrame_of_only hd hs
  obtain ⟨_, rs, hparse, hrs⟩ := h s hframes
  obtain ⟨p, hp⟩ : ∃ p, p ∈ s.historyBuffer.getAll false :=
    List.exists_mem_of_length_pos (by rw [RingBuffer.length_getAll, hcount]; exact Nat.one_pos)
  have hpd : p.toDashboardPacket = d := history_of_arrivals hs p hp
  rw [parse_apiExport hframes] at hparse
  obtain rfl : (s.historyBuffer.getAll false).map recordOf = rs :=
    congrArg Prod.snd (Option.some.inj hparse)
  rw [List.forall₂_map_right_iff, List.forall₂_same] at hrs
  have hwhole := (hasLengths_iff (hpd ▸ hd)).mp ((hrs p hp).2 longRaw PacketInfo.zero (hpd ▸ hd))
  cases hwhole with
  | all _ _ _ len => exact absurd len (by decide)
  | empty _ _ _ len => exact absurd len (by decide)
  | short caplen _ => exact absurd caplen (by decide)

end Pacsni.Dashboard.WireLength
