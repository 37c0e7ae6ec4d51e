import Pacsni.Capture.Window
import Pacsni.Service.Decode

/-! # Labels and dissectors of UDP frames

`dissect_raw_packet` chooses a dissector for a UDP frame by its ports, and the service chooses a label
by the same ports. The two cascades ask for the ports in a different order, so they agree if and only
if the frame is not between a DNS port and a DHCP port. -/

namespace Pacsni.Service.Labels

open Pacsni.Lib.Bytes Pacsni.Lib.Trace Pacsni.Lib.Text
open Pacsni.Capture.Types Pacsni.Capture.Layers Pacsni.Capture.Raw Pacsni.Capture.LayerSpec
open Pacsni.Capture.Stages Pacsni.Capture.Bounds Pacsni.Capture.Window
open Pacsni.Service.Model Pacsni.Service.Decode

/-! ### Which dissector was run -/

/-- The dissector was run. -/
def Ran (d : AppDissector) (l : List (Access Site)) : Prop := ∃ a ∈ l, a.site = .window d

section

variable {d : AppDissector} {l m : List (Access Site)} {α β : Type} {x : C α} {f : α → C β}

theorem not_ran (h : NoWindow l) : ¬ Ran d l := by
  rintro ⟨a, ha, hsite⟩
  apply h a ha
  rw [hsite]
  trivial

theorem ran_append : Ran d (l ++ m) ↔ Ran d l ∨ Ran d m := by
  unfold Ran
  constructor
  · rintro ⟨a, ha, hsite⟩
    rcases List.mem_append.mp ha with ha | ha
    · exact Or.inl ⟨a, ha, hsite⟩
    · exact Or.inr ⟨a, ha, hsite⟩
  · rintro (⟨a, ha, hsite⟩ | ⟨a, ha, hsite⟩)
    · exact ⟨a, List.mem_append_left _ ha, hsite⟩
    · exact ⟨a, List.mem_append_right _ ha, hsite⟩

/-- Only the second part of the computation runs a dissector. -/
theorem ran_bind_right (hx : NoWindow x.log) : Ran d (x >>= f).log ↔ Ran d (f x.val).log := by
  rw [log_bind, ran_append]
  exact ⟨fun h => h.resolve_left (not_ran hx), Or.inr⟩

/-- Only the first part of the computation runs a dissector. -/
theorem ran_bind_left (hf : ∀ a, NoWindow (f a).log) : Ran d (x >>= f).log ↔ Ran d x.log := by
  rw [log_bind, ran_append]
  exact ⟨fun h => h.resolve_right (not_ran (hf _)), Or.inl⟩

end

variable {packet : ℕ → UInt8} {caplen : UInt32} {d : AppDissector}

theorem ran_dispatchApp (t : TransportInfo) (info : PacketInfo) :
    Ran d (dispatchApp packet t info).log ↔ (appCall info t).map AppCall.dissector = some d := by
  unfold dispatchApp
  cases appCall info t with
  | none => exact iff_of_false (not_ran (sitesIn_nil _)) (by simp)
  | some c =>
    rw [ran_bind_left fun _ => noWindow_runApp c info]
    simp [Ran]

/-! ### UDP frames -/

/-- An IPv4 frame with `k` tags and an IP header of `hl` bytes that announces UDP. -/
structure UdpFrame (packet : ℕ → UInt8) (caplen : UInt32) (k hl : ℕ) : Prop where
  depth : TagDepth packet caplen.toNat k
  etype : etypeAt packet k = 0x0800
  header : Ipv4At packet caplen.toNat (14 + 4 * k) hl
  protocol : packet (14 + 4 * k + 9) = 17

/-- The ports of a frame whose UDP header starts at `off`: zero if the header is cut off. -/
def framePorts (packet : ℕ → UInt8) (caplen : UInt32) (off : ℕ) : UInt16 × UInt16 :=
  if off + 8 ≤ caplen.toNat then
    (be16 (packet off) (packet (off + 1)), be16 (packet (off + 2)) (packet (off + 2 + 1)))
  else (0, 0)

/-- The dissector that the UDP branch chooses for two ports. -/
def udpDissector (srcPort dstPort : UInt16) : Option AppDissector :=
  if srcPort = 53 ∨ dstPort = 53 then some .dns
  else if (srcPort = 67 ∨ dstPort = 67) ∨ srcPort = 68 ∨ dstPort = 68 then some .dhcp
  else if srcPort = 123 ∨ dstPort = 123 then some .ntp
  else none

/-- The application call for an accepted UDP header. -/
theorem appCall_udp {info : PacketInfo} {off : ℕ} (h : info.protocol = 17) :
    (appCall info (udpInfo packet off)).map AppCall.dissector =
      udpDissector info.srcPort info.dstPort := by
  have h6 : info.protocol ≠ 6 := by rw [h]; decide
  have hptr : (udpInfo packet off).payloadPtr.isSome = true := rfl
  unfold appCall udpDissector
  dsimp only
  rw [if_neg h6, if_pos h]
  by_cases h53 : OnPort info 53
  · rw [if_pos ⟨h53, hptr⟩, if_pos (show info.srcPort = 53 ∨ info.dstPort = 53 from h53)]
    rfl
  rw [if_neg (fun hh => h53 hh.1), if_neg (show ¬ (info.srcPort = 53 ∨ info.dstPort = 53) from h53)]
  by_cases h67 : OnPort info 67 ∨ OnPort info 68
  · rw [if_pos h67, if_pos (show (_ ∨ _) ∨ info.srcPort = 68 ∨ _ from h67)]
    rfl
  rw [if_neg h67, if_neg (show ¬ ((_ ∨ _) ∨ info.srcPort = 68 ∨ _) from h67)]
  by_cases h123 : OnPort info 123
  · rw [if_pos h123, if_pos (show info.srcPort = 123 ∨ info.dstPort = 123 from h123)]
    rfl
  · rw [if_neg h123, if_neg (show ¬ (info.srcPort = 123 ∨ info.dstPort = 123) from h123)]
    rfl

/-- What is left behind the IP header of a UDP frame. -/
theorem dissectTransport_udp {ip : IpInfo} {h : ℕ} (hp : ip.protocol = 17) {info : PacketInfo}
    (hi : info.protocol = 17) (hs : info.srcPort = 0) (hd : info.dstPort = 0) :
    Ensures (fun r => r.protocol = 17 ∧
        (r.srcPort, r.dstPort) = framePorts packet caplen (h + ip.headerLen))
      (dissectTransport packet caplen h ip info) ∧
    ∀ d, Ran d (dissectTransport packet caplen h ip info).log ↔
      udpDissector (framePorts packet caplen (h + ip.headerLen)).1
        (framePorts packet caplen (h + ip.headerLen)).2 = some d := by
  have h6 : ip.protocol ≠ 6 := by rw [hp]; decide
  have hparse : parseTransportLayer packet caplen.toNat h ip =
      parseUdp packet caplen.toNat (h + ip.headerLen) := by
    unfold parseTransportLayer
    rw [if_neg h6, if_pos hp]
  have hno : NoWindow (parseTransportLayer packet caplen.toNat h ip).log :=
    noWindow (by_parseTransportLayer _ _ _)
  unfold dissectTransport
  rcases @parseUdp_spec packet caplen.toNat 0 (fun _ => True) trivial (h + ip.headerLen) with
    ⟨hfit, hval, -⟩ | ⟨hcut, hval, -⟩
  · rw [← hparse] at hval
    have hports : framePorts packet caplen (h + ip.headerLen) =
        ((udpInfo packet (h + ip.headerLen)).srcPort, (udpInfo packet (h + ip.headerLen)).dstPort) :=
      if_pos hfit
    rw [hports]
    constructor
    · refine .bind (P := fun r => r = some (udpInfo packet (h + ip.headerLen))) hval fun r hr => ?_
      subst hr
      refine (headers_transportFields caplen ip _ info).mono fun r hr => ?_
      have hne : (headers info).protocol ≠ 6 := by
        show info.protocol ≠ 6
        rw [hi]; decide
      rw [withTransport, withTcp, if_neg hne] at hr
      exact ⟨(congrArg Headers.protocol hr).trans hi,
        Prod.ext (congrArg Headers.srcPort hr) (congrArg Headers.dstPort hr)⟩
    · intro d
      rw [ran_bind_right hno, hval]
      dsimp only
      unfold transportFields
      set info' : PacketInfo := { info with
          srcPort := (udpInfo packet (h + ip.headerLen)).srcPort
          dstPort := (udpInfo packet (h + ip.headerLen)).dstPort } with hinfo'
      have hi' : info'.protocol = 17 := hi
      have hne : info'.protocol ≠ 6 := by rw [hi']; decide
      rw [ran_bind_right (noWindow_tcpFields _ _ _), tcpFields, if_neg hne, val_pure,
        ran_bind_left fun _ => noWindow_l4Protocols _ _, ran_dispatchApp, appCall_udp hi']
  · rw [← hparse] at hval
    have hports : framePorts packet caplen (h + ip.headerLen) = (0, 0) := if_neg (by omega)
    rw [hports]
    constructor
    · refine .bind (P := fun r => r = none) hval fun r hr => ?_
      subst hr
      exact .pure ⟨hi, Prod.ext hs hd⟩
    · intro d
      rw [ran_bind_right hno, hval]
      exact iff_of_false (not_ran (sitesIn_nil _)) (by rintro ⟨⟩)

theorem srcPort_headers (i : PacketInfo) : (headers i).srcPort = i.srcPort := rfl

theorem dstPort_headers (i : PacketInfo) : (headers i).dstPort = i.dstPort := rfl

theorem srcPort_ipFields (eth : EthernetInfo) (ip : IpInfo) (info : PacketInfo) :
    (ipFields eth ip info).srcPort = info.srcPort := rfl

theorem dstPort_ipFields (eth : EthernetInfo) (ip : IpInfo) (info : PacketInfo) :
    (ipFields eth ip info).dstPort = info.dstPort := rfl

/-- The IP branch on a UDP frame. -/
theorem dissectIp_udp {eth : EthernetInfo} {hl : ℕ} {info : PacketInfo}
    (hip : (parseIpLayer packet caplen.toNat eth.headerLen).val =
      some (ipv4Info packet eth.headerLen hl))
    (hp : packet (eth.headerLen + 9) = 17) (hs : info.srcPort = 0) (hd : info.dstPort = 0) :
    Ensures (fun r => r.protocol = 17 ∧
        (r.srcPort, r.dstPort) = framePorts packet caplen (eth.headerLen + hl))
      (dissectIp packet caplen eth info) ∧
    ∀ d, Ran d (dissectIp packet caplen eth info).log ↔
      udpDissector (framePorts packet caplen (eth.headerLen + hl)).1
        (framePorts packet caplen (eth.headerLen + hl)).2 = some d := by
  have hnot6 : (ipFields eth (ipv4Info packet eth.headerLen hl) info).isIpv6 = 0 := rfl
  have hv6 : ipv6Fields packet caplen (ipv4Info packet eth.headerLen hl)
      (ipFields eth (ipv4Info packet eth.headerLen hl) info) =
      pure (ipFields eth (ipv4Info packet eth.headerLen hl) info) := by
    rw [ipv6Fields, if_neg (by rw [hnot6]; decide)]
  obtain ⟨i, hi⟩ : ∃ i, (icmpFields packet caplen
      (ipFields eth (ipv4Info packet eth.headerLen hl) info)).val = i := ⟨_, rfl⟩
  have hhead : headers i = headers (ipFields eth (ipv4Info packet eth.headerLen hl) info) := by
    have := @headers_icmpFields packet caplen (ipFields eth (ipv4Info packet eth.headerLen hl) info)
    unfold Ensures at this
    rwa [hi] at this
  have hproto : i.protocol = 17 := (congrArg Headers.protocol hhead).trans hp
  have hsrc := congrArg Headers.srcPort hhead
  have hdst := congrArg Headers.dstPort hhead
  rw [srcPort_headers, srcPort_headers, srcPort_ipFields, hs] at hsrc
  rw [dstPort_headers, dstPort_headers, dstPort_ipFields, hd] at hdst
  have hrest := @dissectTransport_udp packet caplen (ipv4Info packet eth.headerLen hl) eth.headerLen
    hp i hproto hsrc hdst
  unfold dissectIp
  constructor
  · refine .bind (P := fun r => r = some (ipv4Info packet eth.headerLen hl)) hip fun r hr => ?_
    subst hr
    dsimp only
    rw [hv6]
    refine .bind (.pure rfl) fun j hj => .bind (P := fun j => j = i) ?_ fun j hj => ?_
    · subst hj
      exact hi
    · subst hj
      exact hrest.1
  · intro d
    rw [ran_bind_right (noWindow (by_parseIpLayer _ _)), hip]
    dsimp only
    rw [hv6, ran_bind_right (sitesIn_nil _), val_pure, ran_bind_right (noWindow_icmpFields _ _), hi]
    exact hrest.2 d

/-- The record of a UDP frame, and the dissector that was run for it. -/
theorem dissectRawPacket_udp {raw : RawPacket} {k hl : ℕ}
    (h : UdpFrame raw.data raw.pkthdr.caplen k hl) (prior : PacketInfo) :
    (∃ info, (dissectRawPacket raw prior).val = some info ∧ info.protocol = 17 ∧
      (info.srcPort, info.dstPort) = framePorts raw.data raw.pkthdr.caplen (14 + 4 * k + hl)) ∧
    ∀ d, Ran d (dissectRawPacket raw prior).log ↔
      udpDissector (framePorts raw.data raw.pkthdr.caplen (14 + 4 * k + hl)).1
        (framePorts raw.data raw.pkthdr.caplen (14 + 4 * k + hl)).2 = some d := by
  have hfit := h.depth.fits
  obtain ⟨k', hk', heth, -⟩ := @parseEthernetLayer_spec raw.data raw.pkthdr.caplen.toNat 0
    (fun _ => True) trivial (by omega)
  obtain rfl := h.depth.unique hk'
  have hip : (parseIpLayer raw.data raw.pkthdr.caplen.toNat (14 + 4 * k)).val =
      some (ipv4Info raw.data (14 + 4 * k) hl) := by
    rcases @parseIpLayer_spec raw.data raw.pkthdr.caplen.toNat 0 (fun _ => True) trivial
      (14 + 4 * k) with ⟨hl', h4, hval, -⟩ | ⟨h6, -, -⟩ | ⟨hno, -, -, -⟩
    · obtain rfl : hl = hl' := h.header.2.1.trans h4.2.1.symm
      exact hval
    · exact absurd h.header.isV4 h6.not_isV4
    · exact absurd h.header (hno hl)
  generalize hethInfo : (⟨0, 14 + 4 * k, etypeAt raw.data k,
    if k = 0 then 0 else vidAt raw.data (k - 1)⟩ : EthernetInfo) = eth at heth
  have hlen : eth.headerLen = 14 + 4 * k := by rw [← hethInfo]
  have hIp : IsIp eth.etherType := by
    rw [← hethInfo]
    exact Or.inl h.etype
  obtain ⟨info, hinfo⟩ : ∃ info, (initInfo raw eth).val = info := ⟨_, rfl⟩
  have hports : info.srcPort = 0 ∧ info.dstPort = 0 := by
    rw [← hinfo]
    exact ⟨rfl, rfl⟩
  rw [← hlen] at hip ⊢
  have hprot := h.protocol
  rw [← hlen] at hprot
  obtain ⟨hval, hran⟩ := dissectIp_udp hip hprot hports.1 hports.2
  unfold dissectRawPacket
  constructor
  · rw [val_bind, heth]
    dsimp only
    unfold dissectFrame
    rw [val_bind, hinfo, dissectEtherType, if_pos hIp, val_bind]
    obtain ⟨r, hr⟩ : ∃ r, (dissectIp raw.data raw.pkthdr.caplen eth info).val = r := ⟨_, rfl⟩
    unfold Ensures at hval
    rw [hr] at hval ⊢
    obtain ⟨r', hr'⟩ : ∃ r', (finish raw.data raw.pkthdr.caplen r).val = r' := ⟨_, rfl⟩
    have hhead : headers r' = headers r := hr' ▸ headers_finish raw.pkthdr.caplen r
    refine ⟨r', congrArg some hr', (congrArg Headers.protocol hhead).trans hval.1, ?_⟩
    rw [← hval.2]
    exact Prod.ext (congrArg Headers.srcPort hhead) (congrArg Headers.dstPort hhead)
  · intro d
    rw [ran_bind_right (noWindow (by_parseEthernetLayer _)), heth]
    dsimp only
    unfold dissectFrame
    rw [ran_bind_right (noWindow (by_initInfo _ _)), hinfo, dissectEtherType, if_pos hIp,
      ran_bind_left fun _ => noWindow_finishAlive _ _]
    exact hran d

/-! ### The label -/

/-- The label of a packet says which dissector was run: DNS, DHCP, or another one or none. -/
structure Agrees (label : Str) (l : List (Access Site)) : Prop where
  dns : label = "DNS".toList ↔ Ran .dns l
  dhcp : label = "DHCP".toList ↔ Ran .dhcp l
  udp : label = "UDP".toList ↔ ¬ Ran .dns l ∧ ¬ Ran .dhcp l

/-- One of the two ports is that of DNS, and one of them is that of DHCP. -/
def Mixed (ports : UInt16 × UInt16) : Prop :=
  (ports.1 = 53 ∨ ports.2 = 53) ∧ (ports.1 = 67 ∨ ports.1 = 68 ∨ ports.2 = 67 ∨ ports.2 = 68)

theorem protocolToString_udp (srcPort dstPort : UInt16) : protocolToString 17 srcPort dstPort =
    if srcPort = 67 ∨ srcPort = 68 ∨ dstPort = 67 ∨ dstPort = 68 then "DHCP".toList
    else if srcPort = 53 ∨ dstPort = 53 then "DNS".toList
    else "UDP".toList := by
  unfold protocolToString
  rw [if_neg (by decide), if_neg (by decide), if_pos rfl]

theorem udpDissector_eq_dns {s d : UInt16} : udpDissector s d = some .dns ↔ s = 53 ∨ d = 53 := by
  unfold udpDissector
  split_ifs <;> simp [*]

theorem udpDissector_eq_dhcp {s d : UInt16} : udpDissector s d = some .dhcp ↔
    ¬ (s = 53 ∨ d = 53) ∧ (s = 67 ∨ s = 68 ∨ d = 67 ∨ d = 68) := by
  unfold udpDissector
  split_ifs <;> grind

/-- The two cascades on a pair of ports. -/
theorem agrees_iff_not_mixed {s d : UInt16} {l : List (Access Site)}
    (hran : ∀ x, Ran x l ↔ udpDissector s d = some x) :
    Agrees (protocolToString 17 s d) l ↔ ¬ Mixed (s, d) := by
  have hdns := (hran .dns).trans udpDissector_eq_dns
  have hdhcp := (hran .dhcp).trans udpDissector_eq_dhcp
  rw [protocolToString_udp]
  unfold Mixed
  dsimp only
  by_cases h67 : s = 67 ∨ s = 68 ∨ d = 67 ∨ d = 68
  · rw [if_pos h67]
    constructor
    · rintro ⟨-, h, -⟩ ⟨h53, -⟩
      exact (hdhcp.mp (h.mp rfl)).1 h53
    · intro hno
      have h53 : ¬ (s = 53 ∨ d = 53) := fun h => hno ⟨h, h67⟩
      exact ⟨iff_of_false (by decide) fun h => h53 (hdns.mp h),
        iff_of_true rfl (hdhcp.mpr ⟨h53, h67⟩),
        iff_of_false (by decide) fun h => h.2 (hdhcp.mpr ⟨h53, h67⟩)⟩
  · rw [if_neg h67]
    have hnd : ¬ Ran .dhcp l := fun h => h67 (hdhcp.mp h).2
    refine iff_of_true ?_ fun h => h67 h.2
    by_cases h53 : s = 53 ∨ d = 53
    · rw [if_pos h53]
      exact ⟨iff_of_true rfl (hdns.mpr h53), iff_of_false (by decide) hnd,
        iff_of_false (by decide) fun h => h.1 (hdns.mpr h53)⟩
    · rw [if_neg h53]
      have hnn : ¬ Ran .dns l := fun h => h53 (hdns.mp h)
      exact ⟨iff_of_false (by decide) hnn, iff_of_false (by decide) hnd, iff_of_true rfl ⟨hnn, hnd⟩⟩

/-- **Labels and dissectors.** For every UDP frame the label of the service says which dissector was
run if and only if the frame is not between a DNS port and a DHCP port. -/
theorem label_agrees_iff (raw : RawPacket) (prior : PacketInfo) (k hl : ℕ)
    (h : UdpFrame raw.data raw.pkthdr.caplen k hl) :
    ∃ info, (dissectRawPacket raw prior).val = some info ∧
      (Agrees (shown info).protocol (dissectRawPacket raw prior).log ↔
        ¬ Mixed (framePorts raw.data raw.pkthdr.caplen (14 + 4 * k + hl))) := by
  obtain ⟨⟨info, hval, hprot, hports⟩, hran⟩ := dissectRawPacket_udp h prior
  refine ⟨info, hval, ?_⟩
  rw [← hports] at hran ⊢
  show Agrees (protocolToString info.protocol info.srcPort info.dstPort) _ ↔ _
  rw [hprot]
  exact agrees_iff_not_mixed hran

/-- The start of a UDP frame from port `s` to port `d`. -/
def udpHeaders (s d : UInt8) : List UInt8 :=
  [0, 1, 2, 3, 4, 5, 6, 7, 8, 9, 10, 11, 0x08, 0x00,
   0x45, 0, 0, 28, 0, 1, 0, 0, 64, 17, 0, 0, 10, 0, 0, 1, 10, 0, 0, 2,
   0, s, 0, d, 0, 8, 0, 0]

theorem caplen_udpHeaders (s d : UInt8) : (rawOf (udpHeaders s d)).pkthdr.caplen = 42 := rfl

theorem etypeAt_udpHeaders (s d : UInt8) : etypeAt (rawOf (udpHeaders s d)).data 0 = 0x0800 := by
  show be16 0x08 0x00 = 0x0800
  decide

theorem udpFrame_udpHeaders (s d : UInt8) :
    UdpFrame (rawOf (udpHeaders s d)).data (rawOf (udpHeaders s d)).pkthdr.caplen 0 20 where
  depth := by
    rw [caplen_udpHeaders]
    refine ⟨by decide, fun j hj => absurd hj (Nat.not_lt_zero j), fun hstop => ?_⟩
    have htag := hstop.1
    rw [etypeAt_udpHeaders] at htag
    exact absurd htag (by decide)
  etype := etypeAt_udpHeaders s d
  header := by
    have hbyte : (rawOf (udpHeaders s d)).data (14 + 4 * 0) = 0x45 := rfl
    unfold Ipv4At
    rw [caplen_udpHeaders, hbyte]
    decide
  protocol := rfl

/-- A query from a client port is labelled DNS, and `dissect_dns` was run. -/
theorem query_agrees : ∃ info,
    (dissectRawPacket (rawOf (udpHeaders 200 53)) PacketInfo.zero).val = some info ∧
      Agrees (shown info).protocol
        (dissectRawPacket (rawOf (udpHeaders 200 53)) PacketInfo.zero).log := by
  obtain ⟨info, hval, h⟩ := label_agrees_iff (rawOf (udpHeaders 200 53)) PacketInfo.zero 0 20
    (udpFrame_udpHeaders 200 53)
  refine ⟨info, hval, h.mpr ?_⟩
  rintro ⟨-, h⟩
  revert h
  decide +kernel

/-- A frame from the DNS port to the DHCP server port is labelled DHCP, but `dissect_dns` was run. -/
theorem dnsToDhcp_disagrees :
    UdpFrame (rawOf (udpHeaders 53 67)).data (rawOf (udpHeaders 53 67)).pkthdr.caplen 0 20 ∧
    ∃ info, (dissectRawPacket (rawOf (udpHeaders 53 67)) PacketInfo.zero).val = some info ∧
      ¬ Agrees (shown info).protocol
        (dissectRawPacket (rawOf (udpHeaders 53 67)) PacketInfo.zero).log := by
  have hframe := udpFrame_udpHeaders 53 67
  refine ⟨hframe, ?_⟩
  obtain ⟨⟨info, hval, hprot, hports⟩, hran⟩ := dissectRawPacket_udp hframe PacketInfo.zero
  refine ⟨info, hval, ?_⟩
  rw [← hports] at hran
  show ¬ Agrees (protocolToString info.protocol info.srcPort info.dstPort) _
  rw [hprot, agrees_iff_not_mixed hran, not_not, hports]
  unfold Mixed
  decide +kernel

end Pacsni.Service.Labels
