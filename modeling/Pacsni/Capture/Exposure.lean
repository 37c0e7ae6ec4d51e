import Pacsni.Capture.Copied
import Pacsni.Capture.Window

/-! # Which bytes of a frame reach the texts of the record

The texts `extra_info`, `dns_query` and `tls_sni` of the record that `dissect_raw_packet` makes. Most
stages leave them alone (`SameTexts`) or write fixed words to `extra_info` (`Quiet`). Only three calls
copy bytes of the frame: `dissect_http` on port 80, `dissect_app_common` on the other TCP ports, and
`dissect_dns` on port 53. `Exposed` are the indices of the bytes they copy; the texts are free of
markup if and only if these bytes are (`dissectRawPacket_told`). `tls_sni` is never written: the
dispatch calls `dissect_tls_sni` only if there is a name already. -/

namespace Pacsni.Capture.Exposure

open Pacsni.Lib.Bytes Pacsni.Lib.Trace Pacsni.Lib.CBuffer
open Pacsni.Capture.Types Pacsni.Capture.Layers Pacsni.Capture.Dissectors Pacsni.Capture.Raw
open Pacsni.Capture.LayerSpec Pacsni.Capture.Stages Pacsni.Capture.Bounds Pacsni.Capture.Window
open Pacsni.Capture.Copied

variable {packet : ℕ → UInt8}

/-! ### The texts of a record -/

/-- The texts that the info column is made of. -/
structure Texts where
  extraInfo : Vector UInt8 128
  dnsQuery : Vector UInt8 64
  tlsSni : Vector UInt8 64

/-- The texts of a record. -/
def texts (i : PacketInfo) : Texts := ⟨i.extraInfo, i.dnsQuery, i.tlsSni⟩

/-- The two records have the same texts. -/
abbrev SameTexts (i r : PacketInfo) : Prop := texts r = texts i

/-- Nothing is written to the texts yet. -/
def Blank (i : PacketInfo) : Prop := texts i = ⟨zeros 128, zeros 64, zeros 64⟩

/-- Nothing is written to the texts but words without markup to `extra_info`. -/
structure Quiet (i : PacketInfo) : Prop where
  extraInfo : Clean i.extraInfo.toList
  dnsQuery : i.dnsQuery = zeros 64
  tlsSni : i.tlsSni = zeros 64

theorem Blank.extraInfo {i : PacketInfo} (h : Blank i) : i.extraInfo = zeros 128 :=
  congrArg Texts.extraInfo h

theorem Blank.dnsQuery {i : PacketInfo} (h : Blank i) : i.dnsQuery = zeros 64 :=
  congrArg Texts.dnsQuery h

theorem Blank.tlsSni {i : PacketInfo} (h : Blank i) : i.tlsSni = zeros 64 := congrArg Texts.tlsSni h

theorem Blank.quiet {i : PacketInfo} (h : Blank i) : Quiet i :=
  ⟨by rw [h.extraInfo]; exact clean_zeros, h.dnsQuery, h.tlsSni⟩

theorem Blank.of_same {i r : PacketInfo} (h : Blank i) (hr : SameTexts i r) : Blank r := hr.trans h

theorem Quiet.of_same {i r : PacketInfo} (h : Quiet i) (hr : SameTexts i r) : Quiet r := by
  have he : r.extraInfo = i.extraInfo := congrArg Texts.extraInfo hr
  have hd : r.dnsQuery = i.dnsQuery := congrArg Texts.dnsQuery hr
  have ht : r.tlsSni = i.tlsSni := congrArg Texts.tlsSni hr
  exact ⟨he ▸ h.extraInfo, hd.trans h.dnsQuery, ht.trans h.tlsSni⟩

/-! ### Stages that leave the texts alone -/

theorem texts_tcpOption (q : ℕ) (kind l : UInt8) (i : PacketInfo) :
    Ensures (SameTexts i) (tcpOption packet q kind l i) := by
  unfold tcpOption; dsimp only; split_ifs <;> rfl

theorem texts_lldpLoop (p l o : ℕ) (i : PacketInfo) :
    Ensures (fun r => ∀ j, r = some j → SameTexts i j) (lldpLoop packet p l o i) := by
  have hsame : ∀ j, some i = some j → SameTexts i j := fun j hj => by cases hj; rfl
  have hdead : ∀ j, (none : Option PacketInfo) = some j → SameTexts i j := fun j hj => by cases hj
  fun_induction lldpLoop packet p l o i with
  | case1 o i hc ih1 ih2 ih3 =>
    refine .step fun tlv => .ite (.pure hsame) (.ite ?_ (.ite ?_ (.ite (.pure hsame) ?_)))
    · refine .step fun r => ?_
      cases r with
      | none => exact .pure hdead
      | some c => exact ih1 tlv c (fun j hj => by cases hj; rfl) (fun j hj => by cases hj)
    · refine .step fun r => ?_
      cases r with
      | none => exact .pure hdead
      | some c => exact ih2 tlv c (fun j hj => by cases hj; rfl) (fun j hj => by cases hj)
    · exact ih3 tlv hsame hdead
  | case2 => exact .pure hsame

theorem texts_dissectLldp (p : ℕ) (l : ℤ) (i : PacketInfo) :
    Ensures (fun r => ∀ j, r = some j → SameTexts i j) (dissectLldp packet p l i) := by
  unfold dissectLldp
  refine .bind (texts_lldpLoop p l.toNat 0 i) fun r hr => ?_
  cases r with
  | none => exact .pure fun j hj => by cases hj
  | some i' => exact .step fun info => .pure fun j hj => by cases hj; exact hr i' rfl

/-! ### Stages that write fixed words -/

/-- A record with another `extra_info` that has no markup. -/
theorem Quiet.write {i : PacketInfo} (h : Quiet i) {e : Vector UInt8 128} (he : Clean e.toList) :
    Quiet { i with extraInfo := e } := ⟨he, h.dnsQuery, h.tlsSni⟩

theorem clean_icmpText (t c : UInt8) : Clean (ascii (icmpText t c)) := by
  unfold icmpText
  split_ifs <;> decide

theorem clean_icmp6Text (t : UInt8) : Clean (ascii (icmp6Text t)) := by
  unfold icmp6Text
  split_ifs <;> decide

theorem clean_dissectIcmpDetails (t c : UInt8) {o : Vector UInt8 128} (ho : Clean o.toList) :
    Ensures (fun r => Clean r.toList) (dissectIcmpDetails t c o 128) :=
  clean_say_ascii _ ho 128 (clean_icmpText t c)

theorem clean_checkIcmpUnreachable (t c : UInt8) {o : Vector UInt8 128} (ho : Clean o.toList) :
    Ensures (fun r => Clean r.toList) (checkIcmpUnreachable t c o 128) := by
  refine clean_say _ ho 128 _ fun text htext => ?_
  split_ifs at htext with hc
  obtain rfl := Option.some.inj htext
  -- eight reasons
  have h8 : c.toNat < 8 := hc.2
  have hall : ∀ k < 8, Clean (ascii ("ICMP Unreachable: " ++
      ["Net", "Host", "Proto", "Port", "Frag", "SrcRoute", "DestNet", "DestHost"].getD k "")) := by
    decide
  exact hall c.toNat h8

theorem clean_dissectIcmp6Details (t : UInt8) {o : Vector UInt8 128} (ho : Clean o.toList) :
    Ensures (fun r => Clean r.toList) (dissectIcmp6Details t o 128) :=
  clean_say_ascii _ ho 128 (clean_icmp6Text t)

theorem quiet_icmpFields (caplen : UInt32) {info : PacketInfo} (h : Quiet info) :
    Ensures Quiet (icmpFields packet caplen info) := by
  unfold icmpFields
  refine .ite (.step fun t => .step fun c => ?_) (.ite (.step fun t => .step fun c => ?_) (.pure h))
  · refine .bind (clean_dissectIcmpDetails t c h.extraInfo) fun e he => ?_
    exact .bind (clean_checkIcmpUnreachable t c he) fun e' he' => .pure ⟨he', h.dnsQuery, h.tlsSni⟩
  · refine .bind (clean_dissectIcmp6Details t h.extraInfo) fun e he => ?_
    exact .pure ⟨he, h.dnsQuery, h.tlsSni⟩

theorem quiet_checkTcpAnomalies {info : PacketInfo} (h : Quiet info) (t : TransportInfo) :
    Ensures Quiet (checkTcpAnomalies info t) := by
  unfold checkTcpAnomalies
  refine .ite ?_ (.ite ?_ (.pure h))
  · exact .bind (clean_say_ascii _ h.extraInfo 128 (by decide)) fun e he => .pure (h.write he)
  · exact .bind (clean_say_ascii _ h.extraInfo 128 (by decide)) fun e he => .pure (h.write he)

theorem quiet_tcpFields (ip : IpInfo) (t : TransportInfo) {info : PacketInfo} (h : Quiet info) :
    Ensures Quiet (tcpFields packet ip t info) := by
  unfold tcpFields
  refine .ite ?_ (.pure h)
  refine .bind (parseTcpOptionsExtended_keeps texts_tcpOption _ _ _) fun i hi => ?_
  exact quiet_checkTcpAnomalies (h.of_same hi) t

theorem clean_dissectOspf (p : ℕ) (l : ℤ) {o : Vector UInt8 128} (ho : Clean o.toList) :
    Ensures (fun r => Clean r.toList) (dissectOspf packet p l o 128) := by
  unfold dissectOspf
  refine .ite (.pure ho) (.step fun type => ?_)
  by_cases htype : 0 < type ∧ type < 6
  · rw [if_pos htype]
    refine .step fun v => clean_say _ ho 128 _ fun text htext => ?_
    obtain rfl := Option.some.inj htext
    have h6 : type.toNat < 6 := htype.2
    have hall : ∀ k < 6, Clean (ascii (" " ++
        ["?", "Hello", "DbDesc", "LSReq", "LSUpdate", "LSAck"].getD k "")) := by decide
    rw [clean_append, clean_append]
    exact ⟨⟨by decide, clean_decimal _⟩, hall _ h6⟩
  · rw [if_neg htype]
    exact .pure ho

theorem clean_dissectGre (p : ℕ) (l : ℤ) {o : Vector UInt8 128} (ho : Clean o.toList) :
    Ensures (fun r => Clean r.toList) (dissectGre packet p l o 128) := by
  unfold dissectGre
  refine .ite (.pure ho) (.step fun inner => clean_say _ ho 128 _ fun text htext => ?_)
  obtain rfl := Option.some.inj htext
  rw [clean_append, clean_append]
  exact ⟨⟨by decide, clean_hex4 _⟩, by decide⟩

theorem clean_dissectStp (p : ℕ) (l : ℤ) {o : Vector UInt8 128} (ho : Clean o.toList) :
    Ensures (fun r => Clean r.toList) (dissectStp packet p l o 128) := by
  unfold dissectStp
  refine .ite (.pure ho) (.step fun type => clean_say_ascii _ ho 128 ?_)
  split_ifs <;> decide

theorem clean_igmpText (type : UInt8) : Clean (ascii ("IGMP " ++ igmpText type ++ " Group ")) := by
  unfold igmpText
  split_ifs <;> decide

theorem quiet_dissectIgmp (p : ℕ) (l : ℤ) {info : PacketInfo} (h : Quiet info) :
    Ensures Quiet (dissectIgmp packet p l info) := by
  unfold dissectIgmp
  refine .ite (.pure h) (.step fun type => .step fun group => ?_)
  have hdot : Clean (ascii ".") := by decide
  refine .bind (clean_snprintf _ h.extraInfo 0 128 ?_) fun e he => .pure ⟨he, h.dnsQuery, h.tlsSni⟩
  simp only [clean_append, clean_decimal, hdot, and_true]
  exact clean_igmpText type

theorem clean_dhcpLoop (p len i : ℕ) {o : Vector UInt8 128} (ho : Clean o.toList) :
    Ensures (fun r => Clean r.toList) (dhcpLoop packet p len i o 128) := by
  unfold dhcpLoop
  dsimp only
  by_cases hi : i < len
  swap
  · rw [if_neg hi]
    exact .pure ho
  rw [if_pos hi]
  refine .step fun c => .ite (.pure ho) (.ite (clean_dhcpLoop p len (i + 1) ho) (.ite (.pure ho) ?_))
  refine .step fun optLen => .ite (.pure ho) (.ite ?_ (clean_dhcpLoop p len _ ho))
  refine .step fun t => clean_say _ ho 128 _ fun text htext => ?_
  split_ifs at htext with ht
  obtain rfl := Option.some.inj htext
  have h9 : t.toNat < 9 := ht.2
  have hall : ∀ k < 9, Clean (ascii ("DHCP " ++ ["?", "DISCOVER", "OFFER", "REQUEST", "DECLINE",
      "ACK", "NAK", "RELEASE", "INFORM"].getD k "")) := by decide
  exact hall t.toNat h9
termination_by len - i

theorem clean_dissectDhcp (p : ℕ) (l : ℤ) {o : Vector UInt8 128} (ho : Clean o.toList) :
    Ensures (fun r => Clean r.toList) (dissectDhcp packet p l o 128) := by
  unfold dissectDhcp
  exact .ite (.pure ho) (.step fun _ => .ite (.pure ho) (clean_dhcpLoop p _ 0 ho))

theorem quiet_l4Protocols (caplen : UInt32) {info : PacketInfo} (h : Quiet info) :
    Ensures Quiet (l4Protocols packet caplen info) := by
  unfold l4Protocols
  refine .bind (P := Quiet) ?_ fun i hi => .bind (P := Quiet) ?_ fun j hj => ?_
  · exact .ite (.bind (clean_dissectOspf _ _ h.extraInfo) fun e he => .pure (h.write he)) (.pure h)
  · exact .ite (.bind (clean_dissectGre _ _ hi.extraInfo) fun e he => .pure (hi.write he)) (.pure hi)
  · exact .ite (quiet_dissectIgmp _ _ hj) (.pure hj)

theorem quiet_dissectLlc (caplen : UInt32) (eth : EthernetInfo) {info : PacketInfo} (h : Quiet info) :
    Ensures Quiet (dissectLlc packet caplen eth info) := by
  unfold dissectLlc
  refine .step fun dhost => .ite ?_ (.pure h)
  exact .bind (clean_dissectStp _ _ h.extraInfo) fun e he => .pure ⟨he, h.dnsQuery, h.tlsSni⟩

/-! ### Exposed bytes -/

/-- One of the two ports of the transport header at `off` is `k`. -/
def PortAt (packet : ℕ → UInt8) (off : ℕ) (k : UInt16) : Prop :=
  be16 (packet off) (packet (off + 1)) = k ∨ be16 (packet (off + 2)) (packet (off + 2 + 1)) = k

instance (packet : ℕ → UInt8) (off : ℕ) (k : UInt16) : Decidable (PortAt packet off k) :=
  inferInstanceAs (Decidable (_ ∨ _))

/-- The length of the TCP payload behind `k` tags, as the length field of the IP header has it. -/
def tcpPayload (packet : ℕ → UInt8) (k hl : ℕ) : ℕ :=
  word packet (14 + 4 * k + 2) - ipHeaderLen packet (14 + 4 * k) - hl

/-- The indices of the bytes of a frame that are copied to the texts of the record. -/
inductive Exposed (packet : ℕ → UInt8) (caplen : UInt32) (i : ℕ) : Prop
  | http (k hl : ℕ) (hk : IpFrame packet caplen k) (hp : ipProtocol packet (14 + 4 * k) = 6)
      (accepted : TcpAt packet caplen.toNat (l4At packet k) hl)
      (port : PortAt packet (l4At packet k) 80)
      (request : IsRequest packet (l4At packet k + hl) (tcpPayload packet k hl))
      (copied : HttpCopies packet (l4At packet k + hl) (tcpPayload packet k hl) i)
  | banner (k hl : ℕ) (hk : IpFrame packet caplen k) (hp : ipProtocol packet (14 + 4 * k) = 6)
      (accepted : TcpAt packet caplen.toNat (l4At packet k) hl)
      (noHttp : ¬ PortAt packet (l4At packet k) 80) (noVxlan : ¬ PortAt packet (l4At packet k) 4789)
      (ssh : IsBanner packet (l4At packet k + hl) (tcpPayload packet k hl))
      (copied : BannerCopies packet (l4At packet k + hl) (tcpPayload packet k hl) i)
  | dns (k : ℕ) (hk : IpFrame packet caplen k) (hp : ipProtocol packet (14 + 4 * k) = 17)
      (accepted : l4At packet k + 8 ≤ caplen.toNat) (port : PortAt packet (l4At packet k) 53)
      (copied : DnsCopies packet (l4At packet k + 8) (word packet (l4At packet k + 4) - 8 - 12) 0 0 i)

/-- None of the bytes that are copied to the texts is markup. -/
def Unmarked (packet : ℕ → UInt8) (caplen : UInt32) : Prop :=
  ∀ i, Exposed packet caplen i → ¬ Markup (packet i)

/-- What is known of the texts of the record when the bytes with the indices `E` are copied. -/
structure Told (packet : ℕ → UInt8) (E : ℕ → Prop) (r : PacketInfo) : Prop where
  tlsSni : r.tlsSni = zeros 64
  single : r.extraInfo = zeros 128 ∨ r.dnsQuery = zeros 64
  clean_iff : Clean r.extraInfo.toList ∧ Clean r.dnsQuery.toList ↔ ∀ i, E i → ¬ Markup (packet i)

section

variable {E : ℕ → Prop} {i r : PacketInfo}

theorem Quiet.told (h : Quiet r) (hE : ∀ i, ¬ E i) : Told packet E r where
  tlsSni := h.tlsSni
  single := Or.inr h.dnsQuery
  clean_iff := by
    rw [h.dnsQuery]
    exact ⟨fun _ i hi => absurd hi (hE i), fun _ => ⟨h.extraInfo, clean_zeros⟩⟩

theorem Told.of_same (h : Told packet E i) (hr : SameTexts i r) : Told packet E r := by
  have he : r.extraInfo = i.extraInfo := congrArg Texts.extraInfo hr
  have hd : r.dnsQuery = i.dnsQuery := congrArg Texts.dnsQuery hr
  have ht : r.tlsSni = i.tlsSni := congrArg Texts.tlsSni hr
  obtain ⟨h1, h2, h3⟩ := h
  rw [← ht] at h1
  rw [← he, ← hd] at h2 h3
  exact ⟨h1, h2, h3⟩

theorem Told.congr {E' : ℕ → Prop} (h : Told packet E r) (hE : ∀ i, E' i ↔ E i) :
    Told packet E' r := by
  obtain ⟨h1, h2, h3⟩ := h
  refine ⟨h1, h2, h3.trans ?_⟩
  simp only [hE]

end

/-- What a TCP segment with its payload at `p` exposes. -/
def TcpCopies (packet : ℕ → UInt8) (info : PacketInfo) (p : ℕ) (l : ℤ) (i : ℕ) : Prop :=
  (OnPort info 80 ∧ IsRequest packet p l.toNat ∧ HttpCopies packet p l.toNat i) ∨
  (¬ OnPort info 80 ∧ ¬ OnPort info 4789 ∧ IsBanner packet p l.toNat ∧
    BannerCopies packet p l.toNat i)

theorem told_tcp {info : PacketInfo} (h : Quiet info) (h6 : info.protocol = 6) {t : TransportInfo}
    {p : ℕ} (hp : t.payloadPtr = some p) :
    Ensures (Told packet (TcpCopies packet info p t.payloadLen)) (dispatchApp packet t info) := by
  unfold dispatchApp appCall
  rw [hp]
  by_cases hl : 0 < t.payloadLen
  swap
  · have hE : ∀ i, ¬ TcpCopies packet info p t.payloadLen i := by
      rintro i (⟨-, ⟨h10, -⟩, -⟩ | ⟨-, -, ⟨h7, -⟩, -⟩) <;> omega
    simp only [h6, hl, ↓reduceIte, and_false]
    exact .pure (h.told hE)
  have hsni : info.tlsSni[0] = 0 := by
    rw [getElem_congr_coll h.tlsSni]
    rfl
  simp only [h6, hl, ↓reduceIte, Option.isSome_some, and_self, Option.getD_some, tcpDissector, hsni]
  refine .step fun _ => ?_
  by_cases h80 : OnPort info 80
  · simp only [h80, ↓reduceIte, runApp]
    refine .bind (P := fun e => e = (dissectHttp packet p t.payloadLen info.extraInfo 128).val) rfl
      fun e he => .pure ⟨h.tlsSni, Or.inr h.dnsQuery, ?_⟩
    dsimp only
    rw [h.dnsQuery, and_iff_left clean_zeros, he, dissectHttp_clean_iff h.extraInfo]
    unfold TcpCopies
    simp only [h80, true_and, not_true, false_and, or_false, and_imp]
    exact ⟨fun hall i hr hi => hall hr i hi, fun hall hr i hi => hall i hr hi⟩
  by_cases hvx : OnPort info 4789
  · simp only [h80, hvx, ↓reduceIte, runApp]
    have hE : ∀ i, ¬ TcpCopies packet info p t.payloadLen i := by
      rintro i (⟨h80', -⟩ | ⟨-, hvx', -⟩)
      · exact h80 h80'
      · exact hvx' hvx
    exact (h.of_same (dissectVxlan_keeps (fun _ _ _ => rfl) p _ info)).told hE
  · simp only [h80, hvx, ↓reduceIte, runApp]
    refine .bind (P := fun e => e = (dissectAppCommon packet p t.payloadLen info.extraInfo 128).val)
      rfl fun e he => .pure ⟨h.tlsSni, Or.inr h.dnsQuery, ?_⟩
    dsimp only
    rw [h.dnsQuery, and_iff_left clean_zeros, he, dissectAppCommon_clean_iff h.extraInfo]
    unfold TcpCopies
    simp only [h80, hvx, false_and, not_false_eq_true, true_and, false_or, and_imp]
    exact ⟨fun hall i hr hi => hall hr i hi, fun hall hr i hi => hall i hr hi⟩

/-- What a UDP datagram with its payload at `p` exposes. -/
def UdpCopies (packet : ℕ → UInt8) (info : PacketInfo) (p : ℕ) (l : ℤ) (i : ℕ) : Prop :=
  OnPort info 53 ∧ DnsCopies packet p (l - 12).toNat 0 0 i

theorem told_udp {info : PacketInfo} (h : Blank info) (h17 : info.protocol = 17) {t : TransportInfo}
    {p : ℕ} (hp : t.payloadPtr = some p) :
    Ensures (Told packet (UdpCopies packet info p t.payloadLen)) (dispatchApp packet t info) := by
  unfold dispatchApp appCall
  rw [hp]
  simp only [h17, ↓reduceIte, Option.isSome_some, and_true, Option.getD_some]
  by_cases h53 : OnPort info 53
  · simp only [h53, ↓reduceIte, runApp]
    refine .step fun _ => .bind (P := fun e =>
      e = (dissectDns packet p t.payloadLen info.dnsQuery 64).val) rfl
      fun e he => .pure ⟨h.tlsSni, Or.inl h.extraInfo, ?_⟩
    dsimp only
    rw [and_iff_right h.quiet.extraInfo, he,
      dissectDns_clean_iff (by rw [h.dnsQuery]; exact clean_zeros)]
    simp only [UdpCopies, h53, true_and]
  · have hE : ∀ i, ¬ UdpCopies packet info p t.payloadLen i := fun i hi => h53 hi.1
    simp only [h53, ↓reduceIte]
    by_cases hdhcp : OnPort info 67 ∨ OnPort info 68
    · simp only [hdhcp, ↓reduceIte, runApp]
      refine .step fun _ => .bind (clean_dissectDhcp p _ h.quiet.extraInfo) fun e he => .pure ?_
      exact (h.quiet.write he).told hE
    by_cases hntp : OnPort info 123
    · simp only [hdhcp, hntp, ↓reduceIte, runApp]
      refine .step fun _ => .bind (dissectNtp_keeps (f := texts) (fun _ _ _ _ => rfl) p _ info)
        fun i hi => ?_
      exact (h.quiet.of_same ((dissectNtpCore_keeps (fun _ _ => rfl) p _ i).trans hi)).told hE
    · simp only [hdhcp, hntp, ↓reduceIte]
      exact .pure (h.quiet.told hE)

/-- A transport header that the parser left at zero has no payload to show. -/
theorem appCall_zero {info : PacketInfo} (hports : info.srcPort = 0 ∧ info.dstPort = 0) :
    appCall info TransportInfo.zero = none := by
  have hport : ∀ k : UInt16, k ≠ 0 → ¬ OnPort info k := by
    rintro k hk (h | h)
    · exact hk (h.symm.trans hports.1)
    · exact hk (h.symm.trans hports.2)
  unfold appCall
  simp only [TransportInfo.zero, Option.isSome_none, Bool.false_eq_true, false_and, and_false,
    ↓reduceIte, hport 67 (by decide), hport 68 (by decide), hport 123 (by decide), or_self, ite_self]

theorem dispatchApp_zero {info : PacketInfo} (hports : info.srcPort = 0 ∧ info.dstPort = 0) :
    Ensures (fun r => r = info) (dispatchApp packet TransportInfo.zero info) := by
  unfold dispatchApp
  rw [appCall_zero hports]
  exact .pure rfl

/-! ### The transport stage -/

/-- A frame that exposes bytes has an accepted TCP or UDP header. -/
theorem Exposed.accepted {caplen : UInt32} {i : ℕ} (h : Exposed packet caplen i) :
    ∃ k, IpFrame packet caplen k ∧
      ((ipProtocol packet (14 + 4 * k) = 6 ∧ ∃ hl, TcpAt packet caplen.toNat (l4At packet k) hl) ∨
        (ipProtocol packet (14 + 4 * k) = 17 ∧ l4At packet k + 8 ≤ caplen.toNat)) := by
  cases h with
  | http k hl hk hp htcp _ _ _ => exact ⟨k, hk, Or.inl ⟨hp, hl, htcp⟩⟩
  | banner k hl hk hp htcp _ _ _ _ => exact ⟨k, hk, Or.inl ⟨hp, hl, htcp⟩⟩
  | dns k hk hp hfit _ _ => exact ⟨k, hk, Or.inr ⟨hp, hfit⟩⟩

section

variable {caplen : UInt32} {k : ℕ} {ip : IpInfo} {info : PacketInfo}

/-- The ports that the record has from a transport header. -/
theorem onPort_iff {off : ℕ} (hsrc : info.srcPort = be16 (packet off) (packet (off + 1)))
    (hdst : info.dstPort = be16 (packet (off + 2)) (packet (off + 2 + 1))) (n : UInt16) :
    OnPort info n ↔ PortAt packet off n := by
  unfold OnPort
  rw [hsrc, hdst]
  exact Iff.rfl

theorem toNat_payloadLen_tcpInfo (hok : IpOK packet (14 + 4 * k) ip) (hl : ℕ) :
    (tcpInfo packet (l4At packet k) hl ip).payloadLen.toNat = tcpPayload packet k hl := by
  have : (tcpInfo packet (l4At packet k) hl ip).payloadLen =
      (word packet (14 + 4 * k + 2) : ℤ) - ipHeaderLen packet (14 + 4 * k) - hl := by
    simp [tcpInfo, word, hok.header, hok.headerLen]
  unfold tcpPayload
  omega

theorem toNat_payloadLen_udpInfo (off : ℕ) :
    ((udpInfo packet off).payloadLen - 12).toNat = word packet (off + 4) - 8 - 12 := by
  have : (udpInfo packet off).payloadLen = (word packet (off + 4) : ℤ) - 8 := rfl
  omega

theorem exposed_tcp_iff (hk : IpFrame packet caplen k) (hok : IpOK packet (14 + 4 * k) ip)
    (hp : ipProtocol packet (14 + 4 * k) = 6) {hl : ℕ}
    (htcp : TcpAt packet caplen.toNat (l4At packet k) hl)
    (hsrc : info.srcPort = (tcpInfo packet (l4At packet k) hl ip).srcPort)
    (hdst : info.dstPort = (tcpInfo packet (l4At packet k) hl ip).dstPort) (i : ℕ) :
    Exposed packet caplen i ↔ TcpCopies packet info (l4At packet k + hl)
      (tcpInfo packet (l4At packet k) hl ip).payloadLen i := by
  unfold TcpCopies
  rw [toNat_payloadLen_tcpInfo hok, onPort_iff hsrc hdst, onPort_iff hsrc hdst]
  constructor
  · intro h
    cases h with
    | http k' hl' hk' _ htcp' port request copied =>
      obtain rfl := hk.depth.unique hk'.depth
      obtain rfl : hl = hl' := htcp.1.trans htcp'.1.symm
      exact Or.inl ⟨port, request, copied⟩
    | banner k' hl' hk' _ htcp' noHttp noVxlan ssh copied =>
      obtain rfl := hk.depth.unique hk'.depth
      obtain rfl : hl = hl' := htcp.1.trans htcp'.1.symm
      exact Or.inr ⟨noHttp, noVxlan, ssh, copied⟩
    | dns k' hk' hp' _ _ _ =>
      obtain rfl := hk.depth.unique hk'.depth
      rw [hp] at hp'
      exact absurd hp' (by decide)
  · rintro (⟨port, request, copied⟩ | ⟨noHttp, noVxlan, ssh, copied⟩)
    · exact .http k hl hk hp htcp port request copied
    · exact .banner k hl hk hp htcp noHttp noVxlan ssh copied

theorem exposed_udp_iff (hk : IpFrame packet caplen k) (hp : ipProtocol packet (14 + 4 * k) = 17)
    (hfit : l4At packet k + 8 ≤ caplen.toNat)
    (hsrc : info.srcPort = (udpInfo packet (l4At packet k)).srcPort)
    (hdst : info.dstPort = (udpInfo packet (l4At packet k)).dstPort) (i : ℕ) :
    Exposed packet caplen i ↔ UdpCopies packet info (l4At packet k + 8)
      (udpInfo packet (l4At packet k)).payloadLen i := by
  unfold UdpCopies
  rw [toNat_payloadLen_udpInfo, onPort_iff hsrc hdst]
  constructor
  · intro h
    cases h with
    | http k' _ hk' hp' _ _ _ _ =>
      obtain rfl := hk.depth.unique hk'.depth
      rw [hp] at hp'
      exact absurd hp' (by decide)
    | banner k' _ hk' hp' _ _ _ _ _ =>
      obtain rfl := hk.depth.unique hk'.depth
      rw [hp] at hp'
      exact absurd hp' (by decide)
    | dns k' hk' _ _ port copied =>
      obtain rfl := hk.depth.unique hk'.depth
      exact ⟨port, copied⟩
  · rintro ⟨port, copied⟩
    exact .dns k hk hp hfit port copied

/-- OSPF, GRE and IGMP have nothing to say about other protocols. -/
theorem l4Protocols_same (h89 : info.protocol ≠ 89) (h47 : info.protocol ≠ 47)
    (h2 : info.protocol ≠ 2) : Ensures (fun r => r = info) (l4Protocols packet caplen info) := by
  unfold l4Protocols
  refine .bind (P := fun r => r = info) ?_ fun i hi => .bind (P := fun r => r = info) ?_
    fun j hj => ?_
  · rw [if_neg h89]
    exact .pure rfl
  · rw [hi, if_neg h47]
    exact .pure rfl
  · rw [hj, if_neg h2]
    exact .pure rfl

theorem told_l4Protocols {E : ℕ → Prop} (h : Told packet E info)
    (hp : info.protocol = 6 ∨ info.protocol = 17) :
    Ensures (Told packet E) (l4Protocols packet caplen info) := by
  have hne : ∀ q : UInt8, q ≠ 6 → q ≠ 17 → info.protocol ≠ q := by
    rintro q h6 h17 rfl
    exact hp.elim h6 h17
  refine (l4Protocols_same (hne 89 ?_ ?_) (hne 47 ?_ ?_) (hne 2 ?_ ?_)).mono fun r hr => hr ▸ h
  all_goals decide

/-- The ports and the protocol that the application dispatch looks at. -/
theorem ports_tcpFields (t : TransportInfo) (info : PacketInfo) :
    Ensures (fun r => r.srcPort = t.srcPort ∧ r.dstPort = t.dstPort ∧ r.protocol = info.protocol)
      (tcpFields packet ip t { info with srcPort := t.srcPort, dstPort := t.dstPort }) := by
  have h := @headers_tcpFields packet ip t { info with srcPort := t.srcPort, dstPort := t.dstPort }
  refine ⟨?_, ?_, ?_⟩
  · refine (congrArg Headers.srcPort h).trans ?_
    unfold withTcp
    split_ifs <;> rfl
  · refine (congrArg Headers.dstPort h).trans ?_
    unfold withTcp
    split_ifs <;> rfl
  · refine (congrArg Headers.protocol h).trans ?_
    unfold withTcp
    split_ifs <;> rfl

/-- The texts behind the transport layer, from a record whose texts are quiet. -/
theorem told_dissectTransport (hk : IpFrame packet caplen k) (hok : IpOK packet (14 + 4 * k) ip)
    (hq : Quiet info) (hudp : info.protocol = 17 → Blank info)
    (hp : info.protocol = upperProtocol packet caplen (14 + 4 * k)) :
    Ensures (Told packet (Exposed packet caplen))
      (dissectTransport packet caplen (14 + 4 * k) ip info) := by
  unfold dissectTransport
  rcases @parseTransportLayer_cases packet caplen.toNat k ip hok with
    ⟨h6, hl, htcp, hv⟩ | ⟨h17, hfit, hv⟩ | ⟨h6, h17, hv⟩ | ⟨h6, h17, hv⟩
  · refine .bind (P := fun r => r = some (tcpInfo packet (l4At packet k) hl ip)) hv fun r hr => ?_
    subst hr
    have hproto : info.protocol = 6 := by rw [hp, upperProtocol_eq (Or.inl h6), h6]
    refine .bind (P := fun i => Quiet i ∧ i.srcPort = _ ∧ i.dstPort = _ ∧ i.protocol = _)
      ⟨quiet_tcpFields ip _ ⟨hq.extraInfo, hq.dnsQuery, hq.tlsSni⟩, ports_tcpFields _ info⟩
      fun i hi => ?_
    obtain ⟨hqi, hsrc, hdst, hpi⟩ := hi
    have hp6 : i.protocol = 6 := hpi.trans hproto
    refine .bind (P := fun j => Told packet (TcpCopies packet i _ _) j ∧ SameHeaders i j)
      ⟨told_tcp hqi hp6 rfl, headers_dispatchApp _ i⟩ fun j hj => ?_
    have hpj : j.protocol = 6 := (congrArg Headers.protocol hj.2).trans hp6
    exact told_l4Protocols (hj.1.congr (exposed_tcp_iff hk hok h6 htcp hsrc hdst)) (Or.inl hpj)
  · refine .bind (P := fun r => r = some (udpInfo packet (l4At packet k))) hv fun r hr => ?_
    subst hr
    have hproto : info.protocol = 17 := by rw [hp, upperProtocol_eq (Or.inr h17), h17]
    have hblank : Blank info := hudp hproto
    refine .bind (P := fun i => Blank i ∧ i.srcPort = _ ∧ i.dstPort = _ ∧ i.protocol = _)
      ⟨?_, ports_tcpFields _ info⟩ fun i hi => ?_
    · have h6 : ¬ info.protocol = 6 := by rw [hproto]; decide
      unfold tcpFields
      rw [if_neg h6]
      exact hblank
    obtain ⟨hbi, hsrc, hdst, hpi⟩ := hi
    have hp17 : i.protocol = 17 := hpi.trans hproto
    refine .bind (P := fun j => Told packet (UdpCopies packet i _ _) j ∧ SameHeaders i j)
      ⟨told_udp hbi hp17 rfl, headers_dispatchApp _ i⟩ fun j hj => ?_
    have hpj : j.protocol = 17 := (congrArg Headers.protocol hj.2).trans hp17
    exact told_l4Protocols (hj.1.congr (exposed_udp_iff hk h17 hfit hsrc hdst)) (Or.inr hpj)
  · have hE : ∀ i, ¬ Exposed packet caplen i := by
      intro i hi
      obtain ⟨k', hk', ⟨hp', -⟩ | ⟨hp', -⟩⟩ := hi.accepted
      · obtain rfl := hk.depth.unique hk'.depth
        exact h6 hp'
      · obtain rfl := hk.depth.unique hk'.depth
        exact h17 hp'
    refine .bind (P := fun r => r = some TransportInfo.zero) hv fun r hr => ?_
    subst hr
    refine .bind (P := fun i => Quiet i ∧ i.srcPort = _ ∧ i.dstPort = _ ∧ i.protocol = _)
      ⟨quiet_tcpFields ip _ ⟨hq.extraInfo, hq.dnsQuery, hq.tlsSni⟩, ports_tcpFields _ info⟩
      fun i hi => ?_
    obtain ⟨hqi, hsrc, hdst, -⟩ := hi
    refine .bind (dispatchApp_zero ⟨hsrc, hdst⟩) fun j hj => ?_
    exact (quiet_l4Protocols caplen (hj ▸ hqi)).told hE
  · have hE : ∀ i, ¬ Exposed packet caplen i := by
      intro i hi
      obtain ⟨k', hk', ⟨hp', hl, htcp⟩ | ⟨hp', hfit⟩⟩ := hi.accepted
      · obtain rfl := hk.depth.unique hk'.depth
        exact h6 hp' hl htcp
      · obtain rfl := hk.depth.unique hk'.depth
        have := h17 hp'
        omega
    refine .bind (P := fun r => r = none) hv fun r hr => ?_
    subst hr
    exact .pure (hq.told hE)

end

/-! ### The whole record -/

theorem told_dissectIp {caplen : UInt32} {k : ℕ} {eth : EthernetInfo} (heth : eth.headerLen = 14 + 4 * k)
    (hk : TagDepth packet caplen.toNat k) (hetype : IsIp (etypeAt packet k)) {info : PacketInfo}
    (hb : Blank info) (hl3 : info.l3Offset.toNat = (14 + 4 * k) % 256) :
    Ensures (Told packet (Exposed packet caplen)) (dissectIp packet caplen eth info) := by
  unfold dissectIp
  rw [heth]
  rcases @parseIpLayer_cases packet caplen.toNat 0 (fun _ => True) trivial (14 + 4 * k) with
    ⟨ip, hat, hok, hv, -⟩ | ⟨hno, hv, -⟩
  · have hframe : IpFrame packet caplen k := ⟨hk, hetype, hat⟩
    refine .bind (P := fun r => r = some ip) hv fun r hr => ?_
    subst hr
    refine .bind (P := fun i => Blank i ∧ i.protocol = upperProtocol packet caplen (14 + 4 * k)) ?_
      fun i hi => ?_
    · have hip : Blank (ipFields eth ip info) := hb
      refine ⟨hip.of_same (ipv6Fields_keeps (fun _ _ _ _ _ => rfl) caplen ip _), ?_⟩
      obtain ⟨f, hf⟩ := @ipv6Fields_spec packet caplen _ ip eth info hok hl3
      exact congrArg Headers.protocol hf
    obtain ⟨hbi, hpi⟩ := hi
    refine .bind (P := fun j => Quiet j ∧ SameHeaders i j ∧ (j.protocol = 17 → Blank j)) ?_
      fun j hj => ?_
    · have hh := @headers_icmpFields packet caplen i
      refine ⟨quiet_icmpFields caplen hbi.quiet, hh, fun h17 => ?_⟩
      have hi17 : i.protocol = 17 := (congrArg Headers.protocol hh).symm.trans h17
      -- no ICMP text for a UDP datagram
      have hsame : icmpFields packet caplen i = pure i := by
        unfold icmpFields
        simp [hi17]
      rw [hsame]
      exact hbi
    obtain ⟨hqj, hhj, hbj⟩ := hj
    exact told_dissectTransport hframe hok hqj hbj ((congrArg Headers.protocol hhj).trans hpi)
  · have hE : ∀ i, ¬ Exposed packet caplen i := by
      intro i hi
      obtain ⟨k', hk', -⟩ := hi.accepted
      obtain rfl := hk.unique hk'.depth
      exact hno hk'.header
    refine .bind (P := fun r => r = none) hv fun r hr => ?_
    subst hr
    exact .pure (hb.quiet.told hE)

/-- What is known of the result of a frame: the record, or that the process died. -/
def Outcome (packet : ℕ → UInt8) (caplen : UInt32) : Option PacketInfo → Prop
  | none => Unmarked packet caplen
  | some r => Told packet (Exposed packet caplen) r

theorem outcome_finishAlive (caplen : UInt32) : ∀ {r : Option PacketInfo},
    Outcome packet caplen r → Ensures (Outcome packet caplen) (finishAlive packet caplen r)
  | none, h => .pure h
  | some info, h => .bind (finish_keeps (f := texts) (fun _ _ _ _ _ _ => rfl) caplen info) fun _ hi =>
    .pure (show Told _ _ _ from Told.of_same h hi)

theorem blank_initInfo (raw : RawPacket) (eth : EthernetInfo) : Ensures Blank (initInfo raw eth) := by
  unfold initInfo
  exact .step fun _ => .step fun _ => .pure rfl

theorem outcome_dissectEtherType {caplen : UInt32} {k : ℕ} {eth : EthernetInfo}
    (heth : eth.headerLen = 14 + 4 * k) (hk : TagDepth packet caplen.toNat k)
    (hetype : eth.etherType = etypeAt packet k) {info : PacketInfo} (hb : Blank info)
    (hl3 : info.l3Offset.toNat = (14 + 4 * k) % 256) :
    Ensures (Outcome packet caplen) (dissectEtherType packet caplen eth info) := by
  unfold dissectEtherType
  by_cases hip : IsIp eth.etherType
  · rw [if_pos hip]
    refine .bind (told_dissectIp heth hk (hetype ▸ hip) hb hl3) fun i hi => ?_
    exact outcome_finishAlive caplen (r := some i) hi
  rw [if_neg hip]
  have hE : ∀ i, ¬ Exposed packet caplen i := by
    intro i hi
    obtain ⟨k', hk', -⟩ := hi.accepted
    obtain rfl := hk.unique hk'.depth
    exact hip (hetype ▸ hk'.etype)
  have hquiet : ∀ i, Quiet i → Ensures (Outcome packet caplen) (finishAlive packet caplen (some i)) :=
    fun i hi => outcome_finishAlive caplen (r := some i) (hi.told hE)
  refine .ite ?_ (.ite ?_ (.ite ?_ ?_))
  · exact .bind (dissectArp_keeps (f := texts) (fun _ _ _ _ => rfl) caplen eth info) fun i hi =>
      hquiet i (hb.of_same hi).quiet
  · exact .bind (quiet_dissectLlc caplen eth hb.quiet) hquiet
  · refine .bind (texts_dissectLldp _ _ info) fun r hr => ?_
    cases r with
    | none => exact outcome_finishAlive caplen (r := none) fun i hi => absurd hi (hE i)
    | some i => exact hquiet i (hb.of_same (hr i rfl)).quiet
  · exact .pure (hb.quiet.told hE)

/-- **The texts of a captured frame.** Behind an Ethernet header the texts of the record have no markup
byte if and only if none of the bytes is one that the dissectors copy; `tls_sni` is empty, and one of
the other two. -/
theorem dissectRawPacket_told {raw : RawPacket} (h14 : 14 ≤ raw.pkthdr.caplen.toNat)
    (prior : PacketInfo) :
    Ensures (Outcome raw.data raw.pkthdr.caplen) (dissectRawPacket raw prior) := by
  obtain ⟨k, hk, heth, -⟩ := @parseEthernetLayer_spec raw.data raw.pkthdr.caplen.toNat 0
    (fun _ => True) trivial h14
  unfold dissectRawPacket
  refine .bind (P := fun r => r = some _) heth fun r hr => ?_
  subst hr
  refine .bind (P := fun i => Blank i ∧ i.l3Offset.toNat = (14 + 4 * k) % 256)
    ⟨blank_initInfo raw _, l3Offset_initInfo raw _⟩ fun i hi => ?_
  exact outcome_dissectEtherType rfl hk rfl hi.1 hi.2

end Pacsni.Capture.Exposure
