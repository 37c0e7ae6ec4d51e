import Pacsni.Capture.Leftover
import Pacsni.Capture.Wire4
import Pacsni.Service.Decode

/-! # The texts of the record on the dashboard

The capture writes C strings to the text fields of the record. The service decodes all the bytes of a
field and strips NULs from both ends of the text, so it shows the C string only if nothing but NULs
stands behind its end (`textsKept_iff_sound`). Which frames leave something there is known from
`LeavesTail`. -/

namespace Pacsni.Service.CStrings

open Pacsni.Lib.Bytes Pacsni.Lib.Trace Pacsni.Lib.CBuffer Pacsni.Lib.Padding Pacsni.Lib.Text
open Pacsni.Lib.Cursor
open Pacsni.Capture.Types Pacsni.Capture.Layers Pacsni.Capture.Raw Pacsni.Capture.Layout
open Pacsni.Capture.LayerSpec Pacsni.Capture.Bounds Pacsni.Capture.Wire4 Pacsni.Capture.Leftover
open Pacsni.Service.Model Pacsni.Service.Decode

/-- Every text of the packet is the C string that the field of the record holds. -/
structure TextsKept (r : PacketInfo) (d : DashboardPacket) : Prop where
  extraInfo : d.extraInfo = fromUtf8Lossy (cString r.extraInfo)
  appLayerInfo : d.appLayerInfo = fromUtf8Lossy (cString r.appLayerInfo)
  dnsQuery : d.dnsQuery = fromUtf8Lossy (cString r.dnsQuery)
  tlsSni : d.tlsSni = fromUtf8Lossy (cString r.tlsSni)
  lldpChassis : d.lldpChassis = fromUtf8Lossy (cString r.lldpChassis)
  lldpPort : d.lldpPort = fromUtf8Lossy (cString r.lldpPort)

theorem lossyText_eq_iff {n : ℕ} (v : Vector UInt8 n) :
    lossyText v = fromUtf8Lossy (cString v) ↔ Padded v.toList :=
  trimNul_fromUtf8Lossy_iff v.toList

/-- The packet that a record decodes to keeps its texts if and only if every field is padded. -/
theorem textsKept_iff_sound (r : PacketInfo) : TextsKept r (shown r) ↔ Sound r := by
  constructor
  · intro h
    exact ⟨(lossyText_eq_iff _).mp h.extraInfo, (lossyText_eq_iff _).mp h.appLayerInfo,
      (lossyText_eq_iff _).mp h.dnsQuery, (lossyText_eq_iff _).mp h.tlsSni,
      (lossyText_eq_iff _).mp h.lldpChassis, (lossyText_eq_iff _).mp h.lldpPort⟩
  · intro h
    exact ⟨(lossyText_eq_iff _).mpr h.extraInfo, (lossyText_eq_iff _).mpr h.appLayerInfo,
      (lossyText_eq_iff _).mpr h.dnsQuery, (lossyText_eq_iff _).mpr h.tlsSni,
      (lossyText_eq_iff _).mpr h.lldpChassis, (lossyText_eq_iff _).mpr h.lldpPort⟩

section

variable {raw : RawPacket} {prior r : PacketInfo}

/-- A frame that leaves something has an Ethernet header. -/
theorem caplen_of_leavesTail {packet : ℕ → UInt8} {caplen : UInt32} (h : LeavesTail packet caplen) :
    14 ≤ caplen.toNat := by
  have hdepth : ∃ k, TagDepth packet caplen.toNat k := by
    cases h with
    | request k _ hk _ _ _ _ _ => exact ⟨k, hk.depth⟩
    | banner k _ hk _ _ _ _ _ _ => exact ⟨k, hk.depth⟩
    | control k _ hk _ _ _ _ _ _ => exact ⟨k, hk.depth⟩
    | dns k hk _ _ _ _ => exact ⟨k, hk.depth⟩
    | names k hk _ _ _ _ => exact ⟨k, hk⟩
  obtain ⟨k, hk⟩ := hdepth
  have := hk.fits
  omega

theorem sound_iff (hr : (dissectRawPacket raw prior).val = some r) :
    Sound r ↔ (raw.pkthdr.caplen.toNat < 14 → Sound prior) ∧
      ¬ LeavesTail raw.data raw.pkthdr.caplen := by
  by_cases hshort : raw.pkthdr.caplen.toNat < 14
  · -- the record stays as it was
    have hprior : r = prior := by
      unfold dissectRawPacket at hr
      rw [parseEthernetLayer_short hshort] at hr
      exact (Option.some.inj hr).symm
    have hno : ¬ LeavesTail raw.data raw.pkthdr.caplen := by
      intro h
      have := caplen_of_leavesTail h
      omega
    rw [hprior]
    exact ⟨fun hs => ⟨fun _ => hs, hno⟩, fun h => h.1 hshort⟩
  · have hframe := dissectRawPacket_sound_iff (not_lt.mp hshort) prior r hr
    exact ⟨fun hs => ⟨fun h => absurd h hshort, hframe.mp hs⟩, fun h => hframe.mpr h.2⟩

end

/-- **C strings across the wire.** The packet that the service makes of the record of a captured frame
has every text up to its first NUL if and only if the frame leaves nothing behind a text. A frame that
is too short for an Ethernet header leaves the record as it was. -/
theorem cStrings_kept_iff (hmac : List UInt8 → Vector UInt8 64) {raw : RawPacket}
    {prior r : PacketInfo} {d : DashboardPacket} {rest : List UInt8}
    (hr : (dissectRawPacket raw prior).val = some r)
    (hd : decode.run (sendPacketInfo hmac r ++ rest) = some (d, rest)) :
    TextsKept r d ↔ (raw.pkthdr.caplen.toNat < 14 → Sound prior) ∧
      ¬ LeavesTail raw.data raw.pkthdr.caplen := by
  rw [eq_shown_of_run hd]
  rw [textsKept_iff_sound]
  exact sound_iff hr

/-! ### A control channel with a closed window -/

/-- An IP frame always gets its record. -/
theorem exists_record {raw : RawPacket} {k : ℕ} (hk : TagDepth raw.data raw.pkthdr.caplen.toNat k)
    (hetype : IsIp (etypeAt raw.data k)) (prior : PacketInfo) :
    ∃ r, (dissectRawPacket raw prior).val = some r := by
  have hend : Ensures (fun o => ∃ r, o = some r) (dissectRawPacket raw prior) := by
    unfold dissectRawPacket
    refine .bind (P := fun o => o = some _) (parseEthernetLayer_of_tagDepth hk) fun o ho => ?_
    subst ho
    refine .step fun info => ?_
    unfold dissectEtherType
    rw [if_pos (show IsIp (ethOf raw.data k).etherType from hetype)]
    exact .step fun i => .step fun j => .pure ⟨j, rfl⟩
  exact hend

/-- A TCP segment with an acknowledgement, the given window and the payload `USER abcde`. -/
def userFrame (window : UInt8) : List UInt8 :=
  List.replicate 12 0 ++ [8, 0] ++ [0x45, 0, 0, 50, 0, 1, 0, 0, 64, 6, 0, 0] ++ List.replicate 8 1 ++
    [0x9c, 0x40, 0, 21, 0, 0, 0, 1, 0, 0, 0, 1, 0x50, 0x10, 0, window, 0, 0, 0, 0] ++
    [85, 83, 69, 82, 32, 97, 98, 99, 100, 101]

def userRaw (window : UInt8) : RawPacket :=
  ⟨⟨⟨0, 0⟩, 64, 64⟩, ((userFrame window).getD · 0), 0⟩

theorem tagDepth_userRaw {window : UInt8} (h : window = 0 ∨ window = 1) :
    TagDepth (userRaw window).data 64 0 := by
  refine ⟨by decide, fun j hj => absurd hj (Nat.not_lt_zero j), ?_⟩
  rcases h with rfl | rfl
  · decide
  · decide

/-- With an open window nothing is left behind `FTP Control`. -/
theorem not_leavesTail_userRaw : ¬ LeavesTail (userRaw 1).data 64 := by
  intro h
  have hdepth := @tagDepth_userRaw 1 (Or.inr rfl)
  cases h with
  | request k hl hk _ _ port _ _ =>
    obtain rfl := hdepth.unique hk.depth
    exact absurd port (by decide)
  | banner k hl hk _ htcp _ _ ssh _ =>
    obtain rfl := hdepth.unique hk.depth
    obtain rfl : 20 = hl := htcp.1.symm
    exact absurd ssh.2 (by decide)
  | control k hl hk _ _ _ _ _ stalled =>
    obtain rfl := hdepth.unique hk.depth
    exact absurd stalled (by decide)
  | dns k hk hp _ _ _ =>
    obtain rfl := hdepth.unique hk.depth
    exact absurd hp (by decide)
  | names k hk hlldp _ _ _ =>
    obtain rfl := hdepth.unique hk
    exact absurd hlldp (by decide)

theorem userRaw_cStrings_kept : ∃ r d, (dissectRawPacket (userRaw 1) PacketInfo.zero).val = some r ∧
    decode.run (sendPacketInfo (fun _ => zeros 64) r ++ []) = some (d, []) ∧ TextsKept r d := by
  obtain ⟨r, hr⟩ := exists_record (tagDepth_userRaw (Or.inr rfl)) (Or.inl rfl) PacketInfo.zero
  have hd := run_decode_send (fun _ => zeros 64) r []
  refine ⟨r, shown r, hr, hd, (cStrings_kept_iff _ hr hd).mpr ⟨?_, not_leavesTail_userRaw⟩⟩
  exact fun h => absurd h (by decide)

/-- With a closed window `FTP Control` is written over `TCP ZeroWindow`: the last two letters stay
behind its NUL, and the service shows them. -/
theorem leavesTail_userRaw : LeavesTail (userRaw 0).data 64 := by
  refine .control 0 20 ⟨tagDepth_userRaw (Or.inl rfl), Or.inl rfl, Or.inl ⟨20, by decide⟩⟩ rfl
    ⟨rfl, by decide, by decide⟩ (by decide) (by decide) ⟨by decide, ?_⟩ (by decide)
  exact List.mem_of_elem_eq_true rfl

theorem userRaw_cStrings_lost : ¬ ∀ (hmac : List UInt8 → Vector UInt8 64) (raw : RawPacket)
    (prior r : PacketInfo) (d : DashboardPacket) (rest : List UInt8),
    (dissectRawPacket raw prior).val = some r →
    decode.run (sendPacketInfo hmac r ++ rest) = some (d, rest) → TextsKept r d := by
  intro h
  obtain ⟨r, hr⟩ := exists_record (tagDepth_userRaw (Or.inl rfl)) (Or.inl rfl) PacketInfo.zero
  have hkept := h (fun _ => zeros 64) _ _ r _ [] hr (run_decode_send _ r [])
  exact ((sound_iff hr).mp ((textsKept_iff_sound r).mp hkept)).2 leavesTail_userRaw

end Pacsni.Service.CStrings
