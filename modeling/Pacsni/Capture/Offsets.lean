import Pacsni.Capture.Wire4
import Pacsni.Capture.Window

/-! # The offsets of the headers

The three layer parsers run one behind the other: each starts where the one before has ended, and
`dissect_raw_packet` stores the two ends in single bytes. In a capture of at most 256 bytes nothing is
cut off. No check in the code says so: an Ethernet header has 14 bytes and four for each tag, an IP
header has a multiple of four, so the IP header ends at an offset that is 2 modulo 4, and 256 is
not. -/

namespace Pacsni.Capture.Offsets

open Pacsni.Lib.Trace
open Pacsni.Capture.Types Pacsni.Capture.Layers Pacsni.Capture.Raw
open Pacsni.Capture.LayerSpec Pacsni.Capture.Stages Pacsni.Capture.Bounds Pacsni.Capture.Wire4
open Pacsni.Capture.Window

variable {packet : ℕ → UInt8} {caplen : ℕ}

/-! ### Reads of the layer parsers -/

/-- Every byte that is touched is below `n`. -/
abbrev AllBelow (n : ℕ) (log : List (Access Site)) : Prop := StaysBelow (fun _ => True) n log

theorem allBelow_append {n : ℕ} {l m : List (Access Site)} :
    AllBelow n (l ++ m) ↔ AllBelow n l ∧ AllBelow n m := staysBelow_append

theorem allBelow_block {n i m : ℕ} {s : Site} (h : i + m ≤ n) : AllBelow n [⟨s, i, m⟩] :=
  staysBelow_cons.mpr ⟨fun _ => Or.inr h, staysBelow_nil _ _⟩

/-- The Ethernet header behind its tags, and how far it is read. -/
theorem ethernet_below (packet : ℕ → UInt8) (caplen : ℕ) :
    AllBelow caplen (parseEthernetLayer packet caplen).log ∧
      ∀ eth, (parseEthernetLayer packet caplen).val = some eth →
        ∃ k, TagDepth packet caplen k ∧ eth = ethOf packet k := by
  by_cases h14 : caplen < 14
  · rw [parseEthernetLayer_short h14]
    exact ⟨staysBelow_nil _ _, fun eth h => by cases h⟩
  · obtain ⟨k, hk, hval, hlog⟩ := @parseEthernetLayer_spec packet caplen caplen (fun _ => True)
      trivial (not_lt.mp h14)
    refine ⟨hlog.mpr hk.fits, fun eth h => ⟨k, hk, ?_⟩⟩
    rw [hval] at h
    exact (Option.some.inj h).symm

/-- The IP header is read inside the capture. -/
theorem ip_below (packet : ℕ → UInt8) (caplen h : ℕ) :
    AllBelow caplen (parseIpLayer packet caplen h).log := by
  rcases @parseIpLayer_cases packet caplen caplen (fun _ => True) trivial h with
    ⟨ip, hat, -, -, hlog⟩ | ⟨-, -, hlog⟩
  · have hfit := hat.fits
    have hfixed := hat.fixed_le
    exact hlog.mpr (by omega)
  · exact hlog id

/-- The transport header is read inside the capture; an accepted TCP header ends there. -/
theorem transport_below {h : ℕ} {ip : IpInfo} (hat : IpAt packet caplen h) (hok : IpOK packet h ip) :
    AllBelow caplen (parseTransportLayer packet caplen h ip).log ∧
      (ip.protocol = 6 → ∀ t, (parseTransportLayer packet caplen h ip).val = some t →
        ∃ hl, 20 ≤ hl ∧ t.payloadPtr = some (h + ip.headerLen + hl) ∧
          h + ip.headerLen + hl ≤ caplen) := by
  have hfit := hat.fits
  have hfixed := hat.fixed_le
  have h20 : 20 ≤ ipFixedLen packet h := by
    unfold ipFixedLen
    split_ifs <;> omega
  have hhead := hok.header
  unfold parseTransportLayer
  dsimp only
  by_cases h6 : ip.protocol = 6
  · rw [if_pos h6]
    rcases @parseTcp_spec packet caplen caplen (fun _ => True) trivial (h + ip.headerLen) ip with
      ⟨hl, htcp, hval, hlog⟩ | ⟨-, hval, hlog⟩
    · obtain ⟨-, hl20, hend⟩ := htcp
      refine ⟨hlog.mpr ⟨by omega, by omega⟩, fun _ t ht => ⟨hl, hl20, ?_, hend⟩⟩
      rw [hval] at ht
      rw [← Option.some.inj ht]
      rfl
    · refine ⟨hlog.mpr (by omega), fun _ t ht => ?_⟩
      rw [hval] at ht
      cases ht
  rw [if_neg h6]
  refine ⟨?_, fun h' => absurd h' h6⟩
  by_cases h17 : ip.protocol = 17
  · rw [if_pos h17]
    rcases @parseUdp_spec packet caplen caplen (fun _ => True) trivial (h + ip.headerLen) with
      ⟨hend, -, hlog⟩ | ⟨-, -, hlog⟩
    · exact hlog.mpr (by omega)
    · exact hlog
  · rw [if_neg h17]
    exact staysBelow_nil _ _

/-- The divisibility argument. -/
theorem end_le_of_le {k : ℕ} (hat : IpAt packet caplen (14 + 4 * k)) (hcap : caplen ≤ 256) :
    14 + 4 * k + ipHeaderLen packet (14 + 4 * k) ≤ min caplen 255 := by
  have hfit := hat.fits
  have hmod := ipHeaderLen_mod packet (14 + 4 * k)
  omega

/-! ### The stored offsets -/

theorem offsets_dissectTransport (caplen : UInt32) (h : ℕ) (ip : IpInfo) (info : PacketInfo) :
    Ensures (fun r => r.l3Offset = info.l3Offset ∧ r.l4Offset = info.l4Offset)
      (dissectTransport packet caplen h ip info) := by
  unfold dissectTransport
  refine .step fun o => ?_
  cases o with
  | none => exact .pure ⟨rfl, rfl⟩
  | some t =>
    refine (headers_transportFields caplen ip t info).mono fun r hr => ⟨?_, ?_⟩
    · refine (congrArg Headers.l3Offset hr).trans ?_
      unfold withTransport withTcp
      split_ifs <;> rfl
    · exact (congrArg Headers.l4Offset hr).trans (l4Offset_withTransport t _)

theorem offsets_dissectIp {caplen : UInt32} {eth : EthernetInfo} {ip : IpInfo}
    (hip : (parseIpLayer packet caplen.toNat eth.headerLen).val = some ip) {info : PacketInfo}
    (hl3 : info.l3Offset.toNat = eth.headerLen % 256) :
    Ensures (fun r => r.l3Offset = info.l3Offset ∧
      r.l4Offset = UInt8.ofNat (eth.headerLen + ip.headerLen)) (dissectIp packet caplen eth info) := by
  obtain ⟨-, hok⟩ := ipOK_of_parse hip
  unfold dissectIp
  refine .bind (P := fun o => o = some ip) hip fun o ho => ?_
  subst ho
  refine .bind (ipv6Fields_spec hok hl3) fun i hi => ?_
  obtain ⟨f, hi⟩ := hi
  refine .bind (headers_icmpFields caplen i) fun j hj => ?_
  refine (offsets_dissectTransport caplen eth.headerLen ip j).mono fun r hr => ⟨?_, ?_⟩
  · have hij : j.l3Offset = i.l3Offset := congrArg Headers.l3Offset hj
    rw [hr.1, hij]
    exact congrArg Headers.l3Offset hi
  · have hij : j.l4Offset = i.l4Offset := congrArg Headers.l4Offset hj
    rw [hr.2, hij]
    exact congrArg Headers.l4Offset hi

theorem offsets_dissectRawPacket {raw : RawPacket} {eth : EthernetInfo} {ip : IpInfo}
    (heth : (parseEthernetLayer raw.data raw.pkthdr.caplen.toNat).val = some eth)
    (hetype : IsIp eth.etherType)
    (hip : (parseIpLayer raw.data raw.pkthdr.caplen.toNat eth.headerLen).val = some ip)
    (prior : PacketInfo) :
    Ensures (fun o => ∃ r, o = some r ∧ r.l3Offset = UInt8.ofNat eth.headerLen ∧
      r.l4Offset = UInt8.ofNat (eth.headerLen + ip.headerLen)) (dissectRawPacket raw prior) := by
  unfold dissectRawPacket
  refine .bind (P := fun o => o = some eth) heth fun o ho => ?_
  subst ho
  refine .bind (P := fun i : PacketInfo => i.l3Offset = UInt8.ofNat eth.headerLen) rfl
    fun i hi => ?_
  unfold dissectEtherType
  rw [if_pos hetype]
  have hl3 : i.l3Offset.toNat = eth.headerLen % 256 := by rw [hi, UInt8.toNat_ofNat']
  refine .bind (offsets_dissectIp hip hl3) fun j hj => ?_
  refine .bind (headers_finish raw.pkthdr.caplen j) fun r hr => .pure ⟨r, rfl, ?_, ?_⟩
  · exact (congrArg Headers.l3Offset hr).trans (hj.1.trans hi)
  · exact (congrArg Headers.l4Offset hr).trans hj.2

/-- **The header chain.** In a capture of at most 256 bytes each of the three parsers reads inside the
capture. An accepted IP header ends inside it and below 256, so the offsets that are stored are
exact, and an accepted TCP header ends inside the capture. -/
theorem headerChain_exact (raw : RawPacket) (hcap : raw.pkthdr.caplen.toNat ≤ 256)
    (prior : PacketInfo) :
    AllBelow raw.pkthdr.caplen.toNat (parseEthernetLayer raw.data raw.pkthdr.caplen.toNat).log ∧
    ∀ eth, (parseEthernetLayer raw.data raw.pkthdr.caplen.toNat).val = some eth →
      AllBelow raw.pkthdr.caplen.toNat
        (parseIpLayer raw.data raw.pkthdr.caplen.toNat eth.headerLen).log ∧
      ∀ ip, (parseIpLayer raw.data raw.pkthdr.caplen.toNat eth.headerLen).val = some ip →
        AllBelow raw.pkthdr.caplen.toNat
          (parseTransportLayer raw.data raw.pkthdr.caplen.toNat eth.headerLen ip).log ∧
        eth.headerLen + ip.headerLen ≤ min raw.pkthdr.caplen.toNat 255 ∧
        (IsIp eth.etherType → ∃ r, (dissectRawPacket raw prior).val = some r ∧
          r.l3Offset.toNat = eth.headerLen ∧ r.l4Offset.toNat = eth.headerLen + ip.headerLen) ∧
        (ip.protocol = 6 → ∀ t,
          (parseTransportLayer raw.data raw.pkthdr.caplen.toNat eth.headerLen ip).val = some t →
            ∃ hl, 20 ≤ hl ∧ t.payloadPtr = some (eth.headerLen + ip.headerLen + hl) ∧
              eth.headerLen + ip.headerLen + hl ≤ raw.pkthdr.caplen.toNat) := by
  obtain ⟨hreads, hdepth⟩ := ethernet_below raw.data raw.pkthdr.caplen.toNat
  refine ⟨hreads, fun eth heth => ?_⟩
  obtain ⟨k, hk, hethOf⟩ := hdepth eth heth
  have hlen : eth.headerLen = 14 + 4 * k := by rw [hethOf]; rfl
  refine ⟨ip_below raw.data raw.pkthdr.caplen.toNat eth.headerLen, fun ip hip => ?_⟩
  obtain ⟨hat, hok⟩ := ipOK_of_parse hip
  obtain ⟨htReads, htcp⟩ := transport_below hat hok
  have hend : eth.headerLen + ip.headerLen ≤ min raw.pkthdr.caplen.toNat 255 := by
    rw [hok.headerLen, hlen]
    exact end_le_of_le (hlen ▸ hat) hcap
  refine ⟨htReads, hend, fun hetype => ?_, htcp⟩
  obtain ⟨r, hr, hl3, hl4⟩ := offsets_dissectRawPacket heth hetype hip prior
  refine ⟨r, hr, ?_, ?_⟩
  · rw [hl3, UInt8.toNat_ofNat']
    omega
  · rw [hl4, UInt8.toNat_ofNat']
    omega

theorem truncatedQuery_offsets : (rawOf truncatedQuery).pkthdr.caplen.toNat ≤ 256 ∧
    ∃ r, (dissectRawPacket (rawOf truncatedQuery) PacketInfo.zero).val = some r ∧
      r.l3Offset.toNat = 14 ∧ r.l4Offset.toNat = 34 := by
  have hdepth : TagDepth (rawOf truncatedQuery).data 42 0 := ⟨by decide, by decide, by decide⟩
  have hip : (parseIpLayer (rawOf truncatedQuery).data 42 14).val = some _ := rfl
  have hchain := (headerChain_exact (rawOf truncatedQuery) (by decide) PacketInfo.zero).2 _
    (parseEthernetLayer_of_tagDepth hdepth)
  exact ⟨by decide, (hchain.2 _ hip).2.2.1 (Or.inl rfl)⟩

end Pacsni.Capture.Offsets
