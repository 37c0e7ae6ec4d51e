import Pacsni.Capture.Residue
import Pacsni.Capture.Exposure

/-! # Which frames leave something behind the texts of the record

`dissect_raw_packet` clears the record and then writes its text fields, at most one application
dissector after `check_tcp_anomalies`. Most writers leave nothing behind the NUL of their text. The
frames that do are collected in `LeavesTail`: a request, a banner or the name of a control channel over
the words for a window of zero, NULs in copied lines, labels or names, and LLDP names of different
length. Behind an Ethernet header every text field is padded if and only if the frame is none of these
(`dissectRawPacket_sound_iff`). -/

namespace Pacsni.Capture.Leftover

open Pacsni.Lib.Bytes Pacsni.Lib.Trace Pacsni.Lib.CBuffer Pacsni.Lib.Padding
open Pacsni.Capture.Types Pacsni.Capture.Layers Pacsni.Capture.Dissectors Pacsni.Capture.Raw
open Pacsni.Capture.LayerSpec Pacsni.Capture.Stages Pacsni.Capture.Bounds Pacsni.Capture.Window
open Pacsni.Capture.Copied Pacsni.Capture.Exposure Pacsni.Capture.Residue

variable {packet : ℕ → UInt8}

/-! ### The text fields -/

/-- The text fields of a record. -/
structure Fields where
  extraInfo : Vector UInt8 128
  appLayerInfo : Vector UInt8 128
  dnsQuery : Vector UInt8 64
  tlsSni : Vector UInt8 64
  lldpChassis : Vector UInt8 32
  lldpPort : Vector UInt8 32

/-- The text fields of a record. -/
def fields (i : PacketInfo) : Fields where
  extraInfo := i.extraInfo
  appLayerInfo := i.appLayerInfo
  dnsQuery := i.dnsQuery
  tlsSni := i.tlsSni
  lldpChassis := i.lldpChassis
  lldpPort := i.lldpPort

/-- The fields of a cleared record, with `extra_info` written. -/
def Fields.extra (e : Vector UInt8 128) : Fields :=
  ⟨e, zeros 128, zeros 64, zeros 64, zeros 32, zeros 32⟩

/-- Every text field is padded. -/
structure SoundFields (f : Fields) : Prop where
  extraInfo : Padded f.extraInfo.toList
  appLayerInfo : Padded f.appLayerInfo.toList
  dnsQuery : Padded f.dnsQuery.toList
  tlsSni : Padded f.tlsSni.toList
  lldpChassis : Padded f.lldpChassis.toList
  lldpPort : Padded f.lldpPort.toList

/-- Every text field of the record is padded. -/
abbrev Sound (i : PacketInfo) : Prop := SoundFields (fields i)

theorem soundFields_extra_iff {e : Vector UInt8 128} :
    SoundFields (.extra e) ↔ Padded e.toList :=
  ⟨fun h => h.extraInfo, fun h =>
    ⟨h, padded_zeros, padded_zeros, padded_zeros, padded_zeros, padded_zeros⟩⟩

theorem sound_of_fields {i : PacketInfo} {e : Vector UInt8 128} (h : fields i = .extra e)
    (he : Padded e.toList) : Sound i := by
  unfold Sound
  rw [h]
  exact soundFields_extra_iff.mpr he

/-- The record is cleared: no text is written, and the length of the payload is not set yet. -/
def Fresh (i : PacketInfo) : Prop := fields i = .extra (zeros 128) ∧ i.payloadLen = 0

theorem Fresh.sound {i : PacketInfo} (h : Fresh i) : Sound i := sound_of_fields h.1 padded_zeros

/-! ### Stages that leave the fields alone -/

/-- What the stages before the transport layer keep. -/
abbrev SameFields (i r : PacketInfo) : Prop := fields r = fields i ∧ r.payloadLen = i.payloadLen

theorem Fresh.of_same {i r : PacketInfo} (h : Fresh i) (hr : SameFields i r) : Fresh r :=
  ⟨hr.1.trans h.1, hr.2.trans h.2⟩

theorem fields_tcpOption (q : ℕ) (kind l : UInt8) (i : PacketInfo) :
    Ensures (fun r => (fields r, r.payloadLen) = (fields i, i.payloadLen))
      (tcpOption packet q kind l i) := by
  unfold tcpOption
  dsimp only
  split_ifs <;> rfl

theorem fields_ipv6Fields (caplen : UInt32) (ip : IpInfo) (info : PacketInfo) :
    Ensures (SameFields info) (ipv6Fields packet caplen ip info) :=
  (ipv6Fields_keeps (f := fun i => (fields i, i.payloadLen)) (fun _ _ _ _ _ => rfl) caplen ip info).mono
    fun _ hr => Prod.mk.inj hr

theorem fields_dissectArp (caplen : UInt32) (eth : EthernetInfo) (info : PacketInfo) :
    Ensures (SameFields info) (dissectArp packet caplen eth info) :=
  (dissectArp_keeps (f := fun i => (fields i, i.payloadLen)) (fun _ _ _ _ => rfl) caplen eth info).mono
    fun _ hr => Prod.mk.inj hr

/-! ### Stages that write fixed texts -/

section

variable {i info : PacketInfo} {e : Vector UInt8 128}

theorem extraInfo_of_fields (h : fields i = .extra e) : i.extraInfo = e := congrArg Fields.extraInfo h

theorem appLayerInfo_of_fields (h : fields i = .extra e) : i.appLayerInfo = zeros 128 :=
  congrArg Fields.appLayerInfo h

theorem dnsQuery_of_fields (h : fields i = .extra e) : i.dnsQuery = zeros 64 :=
  congrArg Fields.dnsQuery h

theorem tlsSni_of_fields (h : fields i = .extra e) : i.tlsSni = zeros 64 := congrArg Fields.tlsSni h

theorem fields_write (h : fields i = .extra e) (e' : Vector UInt8 128) :
    fields { i with extraInfo := e' } = .extra e' := by
  have hrest : fields { i with extraInfo := e' } = { fields i with extraInfo := e' } := rfl
  rw [hrest, h]
  rfl

/-- A record with another padded `extra_info`. -/
theorem sound_write (h : fields i = .extra e) {e' : Vector UInt8 128} (he : Padded e'.toList) :
    Sound { i with extraInfo := e' } := sound_of_fields (fields_write h e') he

/-- The ICMP texts are written for ICMP only. -/
theorem sound_icmpFields (caplen : UInt32) (h : Fresh info) :
    Ensures (fun r => Sound r ∧ (r.protocol ≠ 1 → r.protocol ≠ 58 → Fresh r))
      (icmpFields packet caplen info) := by
  unfold icmpFields
  dsimp only
  rw [extraInfo_of_fields h.1]
  by_cases h1 : info.protocol = 1 ∧ info.l4Offset.toNat + 8 ≤ caplen.toNat
  · rw [if_pos h1]
    refine .step fun t => .step fun c => .bind (P := fun e => e = _) rfl fun e he => ?_
    subst he
    refine .bind (P := fun e : Vector UInt8 128 => Padded e.toList) (padded_icmp t c) fun e he =>
      .pure ⟨?_, ?_⟩
    · exact sound_write h.1 he
    · exact fun hne => absurd h1.1 hne
  rw [if_neg h1]
  by_cases h58 : info.protocol = 58 ∧ info.l4Offset.toNat + 8 ≤ caplen.toNat
  · rw [if_pos h58]
    refine .step fun t => .step fun c => .bind (padded_icmp6 t) fun e he => .pure ⟨?_, ?_⟩
    · exact sound_write h.1 he
    · exact fun _ hne => absurd h58.1 hne
  · rw [if_neg h58]
    exact .pure ⟨h.sound, fun _ _ => h⟩

/-- A window of zero, as `check_tcp_anomalies` sees it. -/
def Stalled (t : TransportInfo) : Prop :=
  t.window = 0 ∧ t.flags &&& 0x10 ≠ 0 ∧ t.flags &&& (0x02 ||| 0x01 ||| 0x04) = 0

instance (t : TransportInfo) : Decidable (Stalled t) := inferInstanceAs (Decidable (_ ∧ _))

/-- The text for a keep-alive is never written: the length of the payload is not set yet. -/
theorem fields_checkTcpAnomalies (h : Fresh info) (t : TransportInfo) :
    Ensures (fun r => fields r = .extra (opening (Stalled t))) (checkTcpAnomalies info t) := by
  unfold checkTcpAnomalies opening
  dsimp only
  by_cases hz : t.window = 0 ∧ t.flags &&& 0x10 ≠ 0 ∧ t.flags &&& (0x02 ||| 0x01 ||| 0x04) = 0
  · rw [if_pos hz, if_pos (show Stalled t from hz), extraInfo_of_fields h.1]
    refine .bind (P := fun e => e = writeAt (zeros 128) 0 (ascii "TCP ZeroWindow" ++ [0])) ?_
      fun e he => .pure ?_
    · have htake : (ascii "TCP ZeroWindow").take 127 = ascii "TCP ZeroWindow" :=
        List.take_of_length_le (by decide)
      show writeAt (zeros 128) 0 ((ascii "TCP ZeroWindow").take 127 ++ [0]) = _
      rw [htake]
    · rw [fields_write h.1, he]
  · have hlen : ¬ (info.payloadLen = 1 ∧ t.seq + 1 = info.tcpSeq ∧
        t.flags &&& (0x02 ||| 0x01 ||| 0x04) = 0) := by
      rintro ⟨h1, -⟩
      rw [h.2] at h1
      exact absurd h1 (by decide)
    rw [if_neg hz, if_neg hlen, if_neg (show ¬ Stalled t from hz)]
    exact .pure h.1

theorem fields_tcpFields (h : Fresh info) (h6 : info.protocol = 6) (ip : IpInfo) (t : TransportInfo) :
    Ensures (fun r => fields r = .extra (opening (Stalled t)))
      (tcpFields packet ip t { info with srcPort := t.srcPort, dstPort := t.dstPort }) := by
  unfold tcpFields
  rw [if_pos h6]
  refine .bind (parseTcpOptionsExtended_keeps fields_tcpOption _ _ _) fun i hi => ?_
  have hfresh : Fresh i := ⟨(congrArg Prod.fst hi).trans h.1, (congrArg Prod.snd hi).trans h.2⟩
  exact fields_checkTcpAnomalies hfresh t

theorem sound_dissectIgmp (p : ℕ) (l : ℤ) (h : fields info = .extra (zeros 128)) :
    Ensures Sound (dissectIgmp packet p l info) := by
  have hkeep : Ensures (fun r => ∃ e, fields r = .extra e) (dissectIgmp packet p l info) := by
    unfold dissectIgmp
    refine .ite (.pure ⟨_, h⟩) (.step fun _ => .step fun _ => .step fun e => .pure ⟨e, ?_⟩)
    exact fields_write h e
  have hpad := @padded_dissectIgmp packet p l info (extraInfo_of_fields h)
  obtain ⟨e, he⟩ := hkeep
  unfold Ensures at hpad ⊢
  dsimp only at hpad
  rw [extraInfo_of_fields he] at hpad
  exact sound_of_fields he hpad

/-- At most one of OSPF, GRE and IGMP writes its text. -/
theorem sound_l4Protocols (caplen : UInt32) (h : fields info = .extra (zeros 128)) :
    Ensures Sound (l4Protocols packet caplen info) := by
  have hsound : Sound info := sound_of_fields h padded_zeros
  unfold l4Protocols
  refine .bind (P := fun r => (Sound r ∧ r.protocol = 89) ∨ r = info) ?_ fun i hi => ?_
  · by_cases h89 : info.protocol = 89
    · rw [if_pos h89, extraInfo_of_fields h]
      exact .bind (padded_dissectOspf _ _) fun e he => .pure (Or.inl ⟨sound_write h he, h89⟩)
    · rw [if_neg h89]
      exact .pure (Or.inr rfl)
  refine .bind (P := fun r => (Sound r ∧ (r.protocol = 89 ∨ r.protocol = 47)) ∨ r = info) ?_
    fun j hj => ?_
  · rcases hi with ⟨hs, h89⟩ | rfl
    · rw [h89, if_neg (by decide)]
      exact .pure (Or.inl ⟨hs, Or.inl h89⟩)
    by_cases h47 : i.protocol = 47
    · rw [if_pos h47, extraInfo_of_fields h]
      exact .bind (padded_dissectGre _ _) fun e he => .pure (Or.inl ⟨sound_write h he, Or.inr h47⟩)
    · rw [if_neg h47]
      exact .pure (Or.inr rfl)
  rcases hj with ⟨hs, hp⟩ | rfl
  · have h2 : j.protocol ≠ 2 := by
      rcases hp with hp | hp
      · rw [hp]
        decide
      · rw [hp]
        decide
    rw [if_neg h2]
    exact .pure hs
  · exact .ite (sound_dissectIgmp _ _ h) (.pure hsound)

theorem sound_dissectLlc (caplen : UInt32) (eth : EthernetInfo) (h : Fresh info) :
    Ensures Sound (dissectLlc packet caplen eth info) := by
  unfold dissectLlc
  refine .step fun dhost => .ite ?_ (.pure h.sound)
  dsimp only
  rw [extraInfo_of_fields h.1]
  exact .bind (padded_dissectStp _ _) fun e he => .pure (sound_write h.1 he)

/-- `app_layer_info` is written to a record without other texts but `extra_info`. -/
theorem sound_app {r : PacketInfo} (he : Padded e.toList) (ha : Padded r.appLayerInfo.toList)
    (h : { fields r with appLayerInfo := zeros 128 } = Fields.extra e) : Sound r := by
  have hextra : r.extraInfo = e := congrArg Fields.extraInfo h
  have hdns : r.dnsQuery = zeros 64 := congrArg Fields.dnsQuery h
  have hsni : r.tlsSni = zeros 64 := congrArg Fields.tlsSni h
  have hchassis : r.lldpChassis = zeros 32 := congrArg Fields.lldpChassis h
  have hport : r.lldpPort = zeros 32 := congrArg Fields.lldpPort h
  refine ⟨?_, ha, ?_, ?_, ?_, ?_⟩
  · show Padded r.extraInfo.toList
    rw [hextra]
    exact he
  · show Padded r.dnsQuery.toList
    rw [hdns]
    exact padded_zeros
  · show Padded r.tlsSni.toList
    rw [hsni]
    exact padded_zeros
  · show Padded r.lldpChassis.toList
    rw [hchassis]
    exact padded_zeros
  · show Padded r.lldpPort.toList
    rw [hport]
    exact padded_zeros

/-! ### The application dispatch -/

/-- What a TCP segment with its payload at `p` leaves; `z` says that its window is zero. -/
def TcpTail (packet : ℕ → UInt8) (info : PacketInfo) (p : ℕ) (l : ℤ) (z : Prop) : Prop :=
  (OnPort info 80 ∧ IsRequest packet p l.toNat ∧ RequestTail packet p l.toNat z) ∨
  (¬ OnPort info 80 ∧ ¬ OnPort info 4789 ∧
    ((IsBanner packet p l.toNat ∧ LineTail packet p l.toNat z) ∨ (IsControl packet p l.toNat ∧ z)))

theorem sound_tcp (z : Prop) [Decidable z] (h : fields info = .extra (opening z))
    (h6 : info.protocol = 6) {t : TransportInfo} {p : ℕ} (hp : t.payloadPtr = some p) :
    Ensures (fun r => Sound r ↔ ¬ TcpTail packet info p t.payloadLen z)
      (dispatchApp packet t info) := by
  have hsound : Sound info := sound_of_fields h (padded_opening z)
  unfold dispatchApp appCall
  rw [hp]
  by_cases hl : 0 < t.payloadLen
  swap
  · have hno : ¬ TcpTail packet info p t.payloadLen z := by
      rintro (⟨-, ⟨h10, -⟩, -⟩ | ⟨-, -, ⟨⟨h7, -⟩, -⟩ | ⟨⟨h4, -⟩, -⟩⟩) <;> omega
    simp only [h6, hl, ↓reduceIte, and_false]
    exact .pure (iff_of_true hsound hno)
  have hsni : info.tlsSni[0] = 0 := by
    rw [getElem_congr_coll (tlsSni_of_fields h)]
    rfl
  simp only [h6, hl, ↓reduceIte, Option.isSome_some, and_self, Option.getD_some, tcpDissector, hsni]
  refine .step fun _ => ?_
  unfold TcpTail
  by_cases h80 : OnPort info 80
  · simp only [h80, ↓reduceIte, runApp, true_and, not_true, false_and, or_false]
    rw [extraInfo_of_fields h, ← dissectHttp_padded_iff]
    refine .bind (P := fun e => e = (dissectHttp packet p t.payloadLen (opening z) 128).val) rfl
      fun e he => .pure ?_
    unfold Sound
    rw [fields_write h, soundFields_extra_iff, he]
  by_cases hvx : OnPort info 4789
  · simp only [h80, hvx, ↓reduceIte, runApp, false_and, not_true, and_false, or_false,
      not_false_eq_true, iff_true]
    have hkeep : Ensures (fun r => { fields r with appLayerInfo := zeros 128 } =
        { fields info with appLayerInfo := zeros 128 })
        (dissectVxlan packet p t.payloadLen info) := by
      unfold dissectVxlan
      split_ifs <;> rfl
    refine sound_app (padded_opening z) (padded_dissectVxlan p _ (appLayerInfo_of_fields h)) ?_
    exact Eq.trans hkeep (by rw [h]; rfl)
  · simp only [h80, hvx, ↓reduceIte, runApp, false_and, not_false_eq_true, true_and, false_or]
    rw [extraInfo_of_fields h, ← dissectAppCommon_padded_iff]
    refine .bind (P := fun e => e = (dissectAppCommon packet p t.payloadLen (opening z) 128).val) rfl
      fun e he => .pure ?_
    unfold Sound
    rw [fields_write h, soundFields_extra_iff, he]

/-- What a UDP datagram with its payload at `p` leaves. -/
def UdpTail (packet : ℕ → UInt8) (info : PacketInfo) (p : ℕ) (l : ℤ) : Prop :=
  OnPort info 53 ∧ DnsTail packet p (l - 12).toNat 0 0

theorem sound_dns (h : fields info = .extra (zeros 128)) {q : Vector UInt8 64} :
    Sound { info with dnsQuery := q } ↔ Padded q.toList := by
  have hrest : fields { info with dnsQuery := q } = { fields info with dnsQuery := q } := rfl
  unfold Sound
  rw [hrest, h]
  exact ⟨fun hs => hs.dnsQuery, fun hq =>
    ⟨padded_zeros, padded_zeros, hq, padded_zeros, padded_zeros, padded_zeros⟩⟩

theorem sound_udp (h : fields info = .extra (zeros 128)) (h17 : info.protocol = 17)
    {t : TransportInfo} {p : ℕ} (hp : t.payloadPtr = some p) :
    Ensures (fun r => Sound r ↔ ¬ UdpTail packet info p t.payloadLen) (dispatchApp packet t info) := by
  unfold dispatchApp appCall
  rw [hp]
  simp only [h17, ↓reduceIte, Option.isSome_some, and_true, Option.getD_some]
  unfold UdpTail
  by_cases h53 : OnPort info 53
  · simp only [h53, ↓reduceIte, runApp, true_and]
    rw [dnsQuery_of_fields h, ← dissectDns_padded_iff]
    refine .step fun _ => .bind (P := fun e => e = (dissectDns packet p t.payloadLen (zeros 64) 64).val)
      rfl fun e he => .pure ?_
    rw [sound_dns h, he]
  simp only [h53, ↓reduceIte, false_and, not_false_eq_true, iff_true]
  by_cases hdhcp : OnPort info 67 ∨ OnPort info 68
  · simp only [hdhcp, ↓reduceIte, runApp]
    rw [extraInfo_of_fields h]
    exact .step fun _ => .bind (padded_dissectDhcp p _) fun e he => .pure (sound_write h he)
  by_cases hntp : OnPort info 123
  · simp only [hdhcp, hntp, ↓reduceIte, runApp]
    refine .step fun _ => ?_
    have hkeep : Ensures (fun r => { fields r with appLayerInfo := zeros 128 } =
        { fields info with appLayerInfo := zeros 128 })
        (dissectNtp packet p t.payloadLen info >>= dissectNtpCore packet p t.payloadLen) := by
      unfold dissectNtp dissectNtpCore
      split_ifs <;> rfl
    refine sound_app padded_zeros (padded_dissectNtp p _ (appLayerInfo_of_fields h)) ?_
    exact Eq.trans hkeep (by rw [h]; rfl)
  · simp only [hdhcp, hntp, ↓reduceIte]
    exact .pure (sound_of_fields h padded_zeros)

end

/-! ### The frames that leave something -/

/-- The TCP header at `off` has a window of zero and acknowledges, without SYN, FIN or RST. -/
def ZeroWindow (packet : ℕ → UInt8) (off : ℕ) : Prop :=
  be16 (packet (off + 14)) (packet (off + 14 + 1)) = 0 ∧ packet (off + 13) &&& 0x10 ≠ 0 ∧
    packet (off + 13) &&& (0x02 ||| 0x01 ||| 0x04) = 0

instance (packet : ℕ → UInt8) (off : ℕ) : Decidable (ZeroWindow packet off) :=
  inferInstanceAs (Decidable (_ ∧ _))

/-- The number of bytes behind `k` tags, as `dissect_lldp` is told. -/
def lldpLen (caplen : UInt32) (k : ℕ) : ℕ := (asInt (caplen - UInt32.ofNat (14 + 4 * k))).toNat

/-- **The frames that leave something** behind the NUL of a text field. -/
inductive LeavesTail (packet : ℕ → UInt8) (caplen : UInt32) : Prop
  | request (k hl : ℕ) (hk : IpFrame packet caplen k) (hp : ipProtocol packet (14 + 4 * k) = 6)
      (accepted : TcpAt packet caplen.toNat (l4At packet k) hl)
      (port : PortAt packet (l4At packet k) 80)
      (request : IsRequest packet (l4At packet k + hl) (tcpPayload packet k hl))
      (tail : RequestTail packet (l4At packet k + hl) (tcpPayload packet k hl)
        (ZeroWindow packet (l4At packet k)))
  | banner (k hl : ℕ) (hk : IpFrame packet caplen k) (hp : ipProtocol packet (14 + 4 * k) = 6)
      (accepted : TcpAt packet caplen.toNat (l4At packet k) hl)
      (noHttp : ¬ PortAt packet (l4At packet k) 80) (noVxlan : ¬ PortAt packet (l4At packet k) 4789)
      (ssh : IsBanner packet (l4At packet k + hl) (tcpPayload packet k hl))
      (tail : LineTail packet (l4At packet k + hl) (tcpPayload packet k hl)
        (ZeroWindow packet (l4At packet k)))
  | control (k hl : ℕ) (hk : IpFrame packet caplen k) (hp : ipProtocol packet (14 + 4 * k) = 6)
      (accepted : TcpAt packet caplen.toNat (l4At packet k) hl)
      (noHttp : ¬ PortAt packet (l4At packet k) 80) (noVxlan : ¬ PortAt packet (l4At packet k) 4789)
      (word : IsControl packet (l4At packet k + hl) (tcpPayload packet k hl))
      (stalled : ZeroWindow packet (l4At packet k))
  | dns (k : ℕ) (hk : IpFrame packet caplen k) (hp : ipProtocol packet (14 + 4 * k) = 17)
      (accepted : l4At packet k + 8 ≤ caplen.toNat) (port : PortAt packet (l4At packet k) 53)
      (tail : DnsTail packet (l4At packet k + 8) (word packet (l4At packet k + 4) - 8 - 12) 0 0)
  | names (k : ℕ) (hk : TagDepth packet caplen.toNat k) (hetype : etypeAt packet k = 0x88cc)
      (type : UInt16) (htype : type = 1 ∨ type = 2)
      (tail : NameTail packet (14 + 4 * k) (lldpLen caplen k) type)

/-- What an IP frame leaves comes from an accepted TCP or UDP header. -/
theorem LeavesTail.accepted {caplen : UInt32} {k : ℕ} (h : LeavesTail packet caplen)
    (hk : TagDepth packet caplen.toNat k) (hetype : IsIp (etypeAt packet k)) :
    IpFrame packet caplen k ∧
      ((ipProtocol packet (14 + 4 * k) = 6 ∧ ∃ hl, TcpAt packet caplen.toNat (l4At packet k) hl) ∨
        (ipProtocol packet (14 + 4 * k) = 17 ∧ l4At packet k + 8 ≤ caplen.toNat)) := by
  cases h with
  | request k' hl hk' hp htcp _ _ _ =>
    obtain rfl := hk.unique hk'.depth
    exact ⟨hk', Or.inl ⟨hp, hl, htcp⟩⟩
  | banner k' hl hk' hp htcp _ _ _ _ =>
    obtain rfl := hk.unique hk'.depth
    exact ⟨hk', Or.inl ⟨hp, hl, htcp⟩⟩
  | control k' hl hk' hp htcp _ _ _ _ =>
    obtain rfl := hk.unique hk'.depth
    exact ⟨hk', Or.inl ⟨hp, hl, htcp⟩⟩
  | dns k' hk' hp hfit _ _ =>
    obtain rfl := hk.unique hk'.depth
    exact ⟨hk', Or.inr ⟨hp, hfit⟩⟩
  | names k' hk' hlldp _ _ _ =>
    obtain rfl := hk.unique hk'
    rw [hlldp] at hetype
    exact absurd hetype (by decide)

section

variable {caplen : UInt32} {k : ℕ} {ip : IpInfo} {info : PacketInfo}

theorem leavesTail_tcp_iff (hk : IpFrame packet caplen k) (hok : IpOK packet (14 + 4 * k) ip)
    (hp : ipProtocol packet (14 + 4 * k) = 6) {hl : ℕ}
    (htcp : TcpAt packet caplen.toNat (l4At packet k) hl)
    (hsrc : info.srcPort = (tcpInfo packet (l4At packet k) hl ip).srcPort)
    (hdst : info.dstPort = (tcpInfo packet (l4At packet k) hl ip).dstPort) :
    LeavesTail packet caplen ↔ TcpTail packet info (l4At packet k + hl)
      (tcpInfo packet (l4At packet k) hl ip).payloadLen
      (Stalled (tcpInfo packet (l4At packet k) hl ip)) := by
  have hz : Stalled (tcpInfo packet (l4At packet k) hl ip) ↔ ZeroWindow packet (l4At packet k) :=
    Iff.rfl
  unfold TcpTail
  rw [toNat_payloadLen_tcpInfo hok, onPort_iff hsrc hdst, onPort_iff hsrc hdst]
  constructor
  · intro h
    cases h with
    | request k' hl' hk' _ htcp' port request tail =>
      obtain rfl := hk.depth.unique hk'.depth
      obtain rfl : hl = hl' := htcp.1.trans htcp'.1.symm
      exact Or.inl ⟨port, request, tail⟩
    | banner k' hl' hk' _ htcp' noHttp noVxlan ssh tail =>
      obtain rfl := hk.depth.unique hk'.depth
      obtain rfl : hl = hl' := htcp.1.trans htcp'.1.symm
      exact Or.inr ⟨noHttp, noVxlan, Or.inl ⟨ssh, tail⟩⟩
    | control k' hl' hk' _ htcp' noHttp noVxlan word stalled =>
      obtain rfl := hk.depth.unique hk'.depth
      obtain rfl : hl = hl' := htcp.1.trans htcp'.1.symm
      exact Or.inr ⟨noHttp, noVxlan, Or.inr ⟨word, hz.mpr stalled⟩⟩
    | dns k' hk' hp' _ _ _ =>
      obtain rfl := hk.depth.unique hk'.depth
      rw [hp] at hp'
      exact absurd hp' (by decide)
    | names k' hk' hlldp _ _ _ =>
      obtain rfl := hk.depth.unique hk'
      have hetype := hk.etype
      rw [hlldp] at hetype
      exact absurd hetype (by decide)
  · rintro (⟨port, request, tail⟩ | ⟨noHttp, noVxlan, ⟨ssh, tail⟩ | ⟨word, stalled⟩⟩)
    · exact .request k hl hk hp htcp port request tail
    · exact .banner k hl hk hp htcp noHttp noVxlan ssh tail
    · exact .control k hl hk hp htcp noHttp noVxlan word (hz.mp stalled)

theorem leavesTail_udp_iff (hk : IpFrame packet caplen k) (hp : ipProtocol packet (14 + 4 * k) = 17)
    (hfit : l4At packet k + 8 ≤ caplen.toNat)
    (hsrc : info.srcPort = (udpInfo packet (l4At packet k)).srcPort)
    (hdst : info.dstPort = (udpInfo packet (l4At packet k)).dstPort) :
    LeavesTail packet caplen ↔ UdpTail packet info (l4At packet k + 8)
      (udpInfo packet (l4At packet k)).payloadLen := by
  unfold UdpTail
  rw [toNat_payloadLen_udpInfo, onPort_iff hsrc hdst]
  have hne : ∀ k', IpFrame packet caplen k' → ipProtocol packet (14 + 4 * k') ≠ 6 := by
    intro k' hk' hp'
    obtain rfl := hk.depth.unique hk'.depth
    rw [hp] at hp'
    exact absurd hp' (by decide)
  constructor
  · intro h
    cases h with
    | request k' _ hk' hp' _ _ _ _ => exact absurd hp' (hne k' hk')
    | banner k' _ hk' hp' _ _ _ _ _ => exact absurd hp' (hne k' hk')
    | control k' _ hk' hp' _ _ _ _ _ => exact absurd hp' (hne k' hk')
    | dns k' hk' _ _ port tail =>
      obtain rfl := hk.depth.unique hk'.depth
      exact ⟨port, tail⟩
    | names k' hk' hlldp _ _ _ =>
      obtain rfl := hk.depth.unique hk'
      have hetype := hk.etype
      rw [hlldp] at hetype
      exact absurd hetype (by decide)
  · rintro ⟨port, tail⟩
    exact .dns k hk hp hfit port tail

/-- The fields behind the transport layer, from a record with at most an ICMP text. -/
theorem sound_dissectTransport (hk : IpFrame packet caplen k) (hok : IpOK packet (14 + 4 * k) ip)
    (hs : Sound info) (hfresh : info.protocol ≠ 1 → info.protocol ≠ 58 → Fresh info)
    (hp : info.protocol = upperProtocol packet caplen (14 + 4 * k)) :
    Ensures (fun r => Sound r ↔ ¬ LeavesTail packet caplen)
      (dissectTransport packet caplen (14 + 4 * k) ip info) := by
  unfold dissectTransport
  rcases @parseTransportLayer_cases packet caplen.toNat k ip hok with
    ⟨h6, hl, htcp, hv⟩ | ⟨h17, hfit, hv⟩ | ⟨h6, h17, hv⟩ | ⟨h6, h17, hv⟩
  · refine .bind (P := fun r => r = some (tcpInfo packet (l4At packet k) hl ip)) hv fun r hr => ?_
    subst hr
    have hproto : info.protocol = 6 := by rw [hp, upperProtocol_eq (Or.inl h6), h6]
    have hf : Fresh info := hfresh (by rw [hproto]; decide) (by rw [hproto]; decide)
    refine .bind (P := fun i => fields i = _ ∧ i.srcPort = _ ∧ i.dstPort = _ ∧ i.protocol = _)
      ⟨fields_tcpFields hf hproto ip _, ports_tcpFields _ info⟩ fun i hi => ?_
    obtain ⟨hfields, hsrc, hdst, hpi⟩ := hi
    have hp6 : i.protocol = 6 := hpi.trans hproto
    refine .bind (P := fun j => (Sound j ↔ ¬ TcpTail packet i _ _ _) ∧ SameHeaders i j)
      ⟨sound_tcp _ hfields hp6 rfl, headers_dispatchApp _ i⟩ fun j hj => ?_
    have hpj : j.protocol = 6 := (congrArg Headers.protocol hj.2).trans hp6
    refine (l4Protocols_same ?_ ?_ ?_).mono fun r hr => ?_
    · rw [hpj]; decide
    · rw [hpj]; decide
    · rw [hpj]; decide
    · rw [hr, leavesTail_tcp_iff hk hok h6 htcp hsrc hdst]
      exact hj.1
  · refine .bind (P := fun r => r = some (udpInfo packet (l4At packet k))) hv fun r hr => ?_
    subst hr
    have hproto : info.protocol = 17 := by rw [hp, upperProtocol_eq (Or.inr h17), h17]
    have hf : Fresh info := hfresh (by rw [hproto]; decide) (by rw [hproto]; decide)
    refine .bind (P := fun i => fields i = .extra (zeros 128) ∧ i.srcPort = _ ∧ i.dstPort = _ ∧
      i.protocol = _) ⟨?_, ports_tcpFields _ info⟩ fun i hi => ?_
    · have h6 : ¬ info.protocol = 6 := by rw [hproto]; decide
      unfold tcpFields
      rw [if_neg h6]
      exact hf.1
    obtain ⟨hfields, hsrc, hdst, hpi⟩ := hi
    have hp17 : i.protocol = 17 := hpi.trans hproto
    refine .bind (P := fun j => (Sound j ↔ ¬ UdpTail packet i _ _) ∧ SameHeaders i j)
      ⟨sound_udp hfields hp17 rfl, headers_dispatchApp _ i⟩ fun j hj => ?_
    have hpj : j.protocol = 17 := (congrArg Headers.protocol hj.2).trans hp17
    refine (l4Protocols_same ?_ ?_ ?_).mono fun r hr => ?_
    · rw [hpj]; decide
    · rw [hpj]; decide
    · rw [hpj]; decide
    · rw [hr, leavesTail_udp_iff hk h17 hfit hsrc hdst]
      exact hj.1
  · have hno : ¬ LeavesTail packet caplen := by
      intro h
      rcases (h.accepted hk.depth hk.etype).2 with ⟨hp', -⟩ | ⟨hp', -⟩
      · exact h6 hp'
      · exact h17 hp'
    refine .bind (P := fun r => r = some TransportInfo.zero) hv fun r hr => ?_
    subst hr
    suffices hend : Ensures Sound (transportFields packet caplen ip TransportInfo.zero info) from
      hend.mono fun r hr => iff_of_true hr hno
    refine .bind (P := fun i => Sound i ∧ (i.protocol ≠ 1 → i.protocol ≠ 58 →
      fields i = .extra (zeros 128)) ∧ i.srcPort = 0 ∧ i.dstPort = 0) ?_ fun i hi => ?_
    · obtain ⟨hsrc, hdst, hpi⟩ := @ports_tcpFields packet ip TransportInfo.zero info
      by_cases hp6 : info.protocol = 6
      · have hf : Fresh info := hfresh (by rw [hp6]; decide) (by rw [hp6]; decide)
        have hfields := @fields_tcpFields packet info hf hp6 ip TransportInfo.zero
        have hopen : opening (Stalled TransportInfo.zero) = zeros 128 := if_neg (by decide)
        rw [hopen] at hfields
        exact ⟨sound_of_fields hfields padded_zeros, fun _ _ => hfields, hsrc, hdst⟩
      · refine ⟨?_, fun h1 h58 => ?_, hsrc, hdst⟩
        · unfold tcpFields
          rw [if_neg hp6]
          exact hs
        · rw [hpi] at h1 h58
          unfold tcpFields
          rw [if_neg hp6]
          exact (hfresh h1 h58).1
    obtain ⟨hsi, hfi, hports⟩ := hi
    refine .bind (dispatchApp_zero hports) fun j hj => ?_
    subst hj
    by_cases hicmp : j.protocol = 1 ∨ j.protocol = 58
    · refine (l4Protocols_same ?_ ?_ ?_).mono fun r hr => hr ▸ hsi
      all_goals
        rcases hicmp with h | h <;> rw [h] <;> decide
    · exact sound_l4Protocols caplen (hfi (fun h => hicmp (Or.inl h)) fun h => hicmp (Or.inr h))
  · have hno : ¬ LeavesTail packet caplen := by
      intro h
      rcases (h.accepted hk.depth hk.etype).2 with ⟨hp', hl, htcp⟩ | ⟨hp', hfit⟩
      · exact h6 hp' hl htcp
      · have := h17 hp'
        omega
    refine .bind (P := fun r => r = none) hv fun r hr => ?_
    subst hr
    exact .pure (iff_of_true hs hno)

end

/-! ### The whole record -/

theorem sound_dissectIp {caplen : UInt32} {k : ℕ} {eth : EthernetInfo}
    (heth : eth.headerLen = 14 + 4 * k) (hk : TagDepth packet caplen.toNat k)
    (hetype : IsIp (etypeAt packet k)) {info : PacketInfo} (hf : Fresh info)
    (hl3 : info.l3Offset.toNat = (14 + 4 * k) % 256) :
    Ensures (fun r => Sound r ↔ ¬ LeavesTail packet caplen) (dissectIp packet caplen eth info) := by
  unfold dissectIp
  rw [heth]
  rcases @parseIpLayer_cases packet caplen.toNat 0 (fun _ => True) trivial (14 + 4 * k) with
    ⟨ip, hat, hok, hv, -⟩ | ⟨hno, hv, -⟩
  · have hframe : IpFrame packet caplen k := ⟨hk, hetype, hat⟩
    refine .bind (P := fun r => r = some ip) hv fun r hr => ?_
    subst hr
    refine .bind (P := fun i => Fresh i ∧ i.protocol = upperProtocol packet caplen (14 + 4 * k)) ?_
      fun i hi => ?_
    · have hip : Fresh (ipFields eth ip info) := hf
      refine ⟨hip.of_same (fields_ipv6Fields caplen ip (ipFields eth ip info)), ?_⟩
      obtain ⟨f, hspec⟩ := @ipv6Fields_spec packet caplen _ ip eth info hok hl3
      exact congrArg Headers.protocol hspec
    obtain ⟨hfi, hpi⟩ := hi
    refine .bind (P := fun j => (Sound j ∧ (j.protocol ≠ 1 → j.protocol ≠ 58 → Fresh j)) ∧
      SameHeaders i j) ⟨sound_icmpFields caplen hfi, headers_icmpFields caplen i⟩ fun j hj => ?_
    exact sound_dissectTransport hframe hok hj.1.1 hj.1.2 ((congrArg Headers.protocol hj.2).trans hpi)
  · refine .bind (P := fun r => r = none) hv fun r hr => ?_
    subst hr
    exact .pure (iff_of_true hf.sound fun h => hno (h.accepted hk hetype).1.header)

theorem sound_dissectLldp (p : ℕ) (l : ℤ) {info : PacketInfo} (hf : Fresh info) :
    Ensures (fun r => ∀ j, r = some j →
      (Sound j ↔ ¬ NameTail packet p l.toNat 1 ∧ ¬ NameTail packet p l.toNat 2))
      (dissectLldp packet p l info) := by
  unfold dissectLldp
  refine .bind (named_lldpLoop p l.toNat 0 info) fun r hr => ?_
  cases r with
  | none => exact .pure fun j hj => by cases hj
  | some i =>
    obtain ⟨hchassis, hport, hextra, happ, hdns, hsni⟩ := hr i rfl
    rw [extraInfo_of_fields hf.1] at hextra
    rw [appLayerInfo_of_fields hf.1] at happ
    rw [dnsQuery_of_fields hf.1] at hdns
    rw [tlsSni_of_fields hf.1] at hsni
    rw [show info.lldpChassis = zeros 32 from congrArg Fields.lldpChassis hf.1] at hchassis
    rw [show info.lldpPort = zeros 32 from congrArg Fields.lldpPort hf.1] at hport
    have htext : 0 ∉ ascii "LLDP " ++ cString i.lldpChassis ++ ascii "/" ++ cString i.lldpPort :=
      nul_notMem_append (nul_notMem_append (nul_notMem_append (by decide) (nul_notMem_cString _))
        (by decide)) (nul_notMem_cString _)
    dsimp only
    rw [happ]
    refine .bind (P := fun e : Vector UInt8 128 => Padded e.toList)
      (padded_snprintf _ eq_zero_of_mem_zeros (Nat.le_refl _) htext) fun e he => .pure fun j hj => ?_
    obtain rfl := Option.some.inj hj
    rw [← padded_names_iff, ← padded_names_iff, ← hchassis, ← hport]
    refine ⟨fun hs => ⟨hs.lldpChassis, hs.lldpPort⟩, fun h => ⟨?_, he, ?_, ?_, h.1, h.2⟩⟩
    · show Padded i.extraInfo.toList
      rw [hextra]
      exact padded_zeros
    · show Padded i.dnsQuery.toList
      rw [hdns]
      exact padded_zeros
    · show Padded i.tlsSni.toList
      rw [hsni]
      exact padded_zeros

/-- The statistics leave the fields as they are. -/
theorem sound_finishAlive (caplen : UInt32) {Q : Prop} : ∀ {r : Option PacketInfo},
    (∀ i, r = some i → (Sound i ↔ Q)) →
    Ensures (fun r => ∀ i, r = some i → (Sound i ↔ Q)) (finishAlive packet caplen r)
  | none, h => .pure h
  | some info, h => .bind (finish_keeps (f := fields) (fun _ _ _ _ _ _ => rfl) caplen info)
    fun j hj => .pure fun i hi => by
    obtain rfl := Option.some.inj hi
    unfold Sound
    rw [hj]
    exact h info rfl

/-- A record that is sound for a frame that leaves nothing. -/
theorem sound_some {Q : Prop} (hQ : Q) {i : PacketInfo} (hs : Sound i) :
    ∀ j, some i = some j → (Sound j ↔ Q) := by
  intro j hj
  obtain rfl := Option.some.inj hj
  exact iff_of_true hs hQ

theorem sound_dissectEtherType {caplen : UInt32} {k : ℕ} {eth : EthernetInfo}
    (heth : eth.headerLen = 14 + 4 * k) (hk : TagDepth packet caplen.toNat k)
    (hetype : eth.etherType = etypeAt packet k) {info : PacketInfo} (hf : Fresh info)
    (hl3 : info.l3Offset.toNat = (14 + 4 * k) % 256) :
    Ensures (fun r => ∀ j, r = some j → (Sound j ↔ ¬ LeavesTail packet caplen))
      (dissectEtherType packet caplen eth info) := by
  unfold dissectEtherType
  by_cases hip : IsIp eth.etherType
  · rw [if_pos hip]
    refine .bind (sound_dissectIp heth hk (hetype ▸ hip) hf hl3) fun i hi => ?_
    refine sound_finishAlive caplen fun j hj => ?_
    obtain rfl := Option.some.inj hj
    exact hi
  rw [if_neg hip]
  -- without IP only names can leave something
  have hnames : LeavesTail packet caplen → etypeAt packet k = 0x88cc ∧
      (NameTail packet (14 + 4 * k) (lldpLen caplen k) 1 ∨
        NameTail packet (14 + 4 * k) (lldpLen caplen k) 2) := by
    intro h
    have hframe : ∀ k', ¬ IpFrame packet caplen k' := by
      intro k' hk'
      obtain rfl := hk.unique hk'.depth
      exact hip (hetype ▸ hk'.etype)
    cases h with
    | request k' _ hk' _ _ _ _ _ => exact absurd hk' (hframe k')
    | banner k' _ hk' _ _ _ _ _ _ => exact absurd hk' (hframe k')
    | control k' _ hk' _ _ _ _ _ _ => exact absurd hk' (hframe k')
    | dns k' hk' _ _ _ _ => exact absurd hk' (hframe k')
    | names k' hk' hlldp type htype tail =>
      obtain rfl := hk.unique hk'
      rcases htype with rfl | rfl
      · exact ⟨hlldp, Or.inl tail⟩
      · exact ⟨hlldp, Or.inr tail⟩
  by_cases hlldp : eth.etherType = 0x88cc
  · have htail : (¬ NameTail packet (14 + 4 * k) (lldpLen caplen k) 1 ∧
        ¬ NameTail packet (14 + 4 * k) (lldpLen caplen k) 2) ↔ ¬ LeavesTail packet caplen := by
      rw [← not_or]
      refine not_congr ⟨?_, fun h => (hnames h).2⟩
      rintro (h | h)
      · exact .names k hk (hetype ▸ hlldp) 1 (Or.inl rfl) h
      · exact .names k hk (hetype ▸ hlldp) 2 (Or.inr rfl) h
    rw [if_neg (by rw [hlldp]; decide), if_neg (by rw [hlldp]; decide), if_pos hlldp, heth, ← htail]
    exact .bind (sound_dissectLldp _ _ hf) fun r hr => sound_finishAlive caplen hr
  have hno : ¬ LeavesTail packet caplen := fun h => hlldp (hetype.trans (hnames h).1)
  rw [if_neg hlldp]
  refine .ite ?_ (.ite ?_ (.pure (sound_some hno hf.sound)))
  · exact .bind (fields_dissectArp caplen eth info) fun i hi =>
      sound_finishAlive caplen (sound_some hno (hf.of_same hi).sound)
  · exact .bind (sound_dissectLlc caplen eth hf) fun i hi =>
      sound_finishAlive caplen (sound_some hno hi)

theorem fresh_initInfo (raw : RawPacket) (eth : EthernetInfo) : Ensures Fresh (initInfo raw eth) := by
  unfold initInfo
  exact .step fun _ => .step fun _ => .pure ⟨rfl, rfl⟩

/-- **The text fields of a captured frame.** Behind an Ethernet header every text field of the record is
padded if and only if the frame leaves nothing behind a text. -/
theorem dissectRawPacket_sound_iff {raw : RawPacket} (h14 : 14 ≤ raw.pkthdr.caplen.toNat)
    (prior : PacketInfo) :
    Ensures (fun r => ∀ j, r = some j → (Sound j ↔ ¬ LeavesTail raw.data raw.pkthdr.caplen))
      (dissectRawPacket raw prior) := by
  obtain ⟨k, hk, heth, -⟩ := @parseEthernetLayer_spec raw.data raw.pkthdr.caplen.toNat 0
    (fun _ => True) trivial h14
  unfold dissectRawPacket
  refine .bind (P := fun r => r = some _) heth fun r hr => ?_
  subst hr
  refine .bind (P := fun i => Fresh i ∧ i.l3Offset.toNat = (14 + 4 * k) % 256)
    ⟨fresh_initInfo raw _, l3Offset_initInfo raw _⟩ fun i hi => ?_
  exact sound_dissectEtherType rfl hk rfl hi.1 hi.2

end Pacsni.Capture.Leftover
