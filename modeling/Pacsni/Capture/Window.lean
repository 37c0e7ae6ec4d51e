import Pacsni.Capture.Bounds

/-! # The application window

`parse_transport_layer` computes the application payload from the length fields of the IP and UDP
headers, not from the capture. The window it returns, and every window that an application dissector
is given by `dissect_raw_packet`, lies inside the capture if and only if the frame does not
*overclaim*: a length field that is larger than the headers does not reach behind the capture. -/

namespace Pacsni.Capture.Window

open Pacsni.Lib.Bytes Pacsni.Lib.Trace Pacsni.Lib.CBuffer
open Pacsni.Capture.Types Pacsni.Capture.Layers Pacsni.Capture.Dissectors Pacsni.Capture.Raw
open Pacsni.Capture.LayerSpec Pacsni.Capture.Stages Pacsni.Capture.Bounds

variable {n : ℕ} {packet : ℕ → UInt8}

/-- The windows given to the application dissectors. -/
def IsWindow : Site → Prop
  | .window _ => True
  | _ => False

/-- No access is a window. -/
abbrev NoWindow (l : List (Access Site)) : Prop := SitesIn (fun s => ¬ IsWindow s) l

/-- What `parse_transport_layer` returns for a frame, behind the other two parsers. -/
def TransportResult (packet : ℕ → UInt8) (caplen : ℕ) (t : TransportInfo) : Prop :=
  ∃ eth ip, (parseEthernetLayer packet caplen).val = some eth ∧ IsIp eth.etherType ∧
    (parseIpLayer packet caplen eth.headerLen).val = some ip ∧
    (parseTransportLayer packet caplen eth.headerLen ip).val = some t

/-- The window of a transport header lies inside the capture. -/
def Inside (caplen : ℕ) (t : TransportInfo) : Prop :=
  t.payloadLen ≤ 0 ∨ ∃ ptr, t.payloadPtr = some ptr ∧ (ptr : ℤ) + t.payloadLen ≤ caplen

/-! ### Windows come from the transport header -/

section

variable {f : Fn} {l : List (Access Site)}

theorem NoWindow.staysBelow (h : NoWindow l) : StaysBelow IsWindow n l :=
  SitesIn.staysBelow h fun _ hs => hs

/-- Reads and writes of a function are no windows. -/
theorem noWindow (h : By f l) : NoWindow l := by
  refine SitesIn.mono h fun s hs => ?_
  cases s with
  | read g => exact id
  | write g b => exact id
  | window d => exact absurd hs (by simp [fnOf])

end

theorem noWindow_runApp (c : AppCall) (info : PacketInfo) :
    NoWindow (runApp packet c info).log := by
  obtain ⟨d, p, l⟩ := c
  unfold runApp
  cases d with
  | http => exact .bind (noWindow (by_dissectHttp _ _ _ _)) fun _ => sitesIn_nil _
  | vxlan => exact noWindow (by_dissectVxlan _ _ _)
  | appCommon => exact .bind (noWindow (by_dissectAppCommon _ _ _ _)) fun _ => sitesIn_nil _
  | tlsSni => exact .bind (noWindow (by_dissectTlsSni _ _ _ _)) fun _ => sitesIn_nil _
  | dns => exact .bind (noWindow (by_dissectDns _ _ _ _)) fun _ => sitesIn_nil _
  | dhcp => exact .bind (noWindow (by_dissectDhcp _ _ _ _)) fun _ => sitesIn_nil _
  | ntp => exact .bind (noWindow (by_dissectNtp _ _ _)) fun _ => noWindow (by_dissectNtpCore _ _ _)

/-- A call that is made has the window of the transport header, or an empty one. -/
theorem appCall_window {info : PacketInfo} {t : TransportInfo} {c : AppCall}
    (h : appCall info t = some c) : c.ptr = t.payloadPtr.getD 0 ∧ c.len = t.payloadLen := by
  unfold appCall at h
  dsimp only at h
  split_ifs at h <;> cases h <;> exact ⟨rfl, rfl⟩

theorem dispatchApp_window {t : TransportInfo} {caplen : ℕ} (ht : Inside caplen t)
    (info : PacketInfo) : StaysBelow IsWindow caplen (dispatchApp packet t info).log := by
  unfold dispatchApp
  cases hc : appCall info t with
  | none => exact staysBelow_nil _ _
  | some c =>
    refine .bind ?_ fun _ => (noWindow_runApp c info).staysBelow
    obtain ⟨hptr, hlen⟩ := appCall_window hc
    rw [log_touch, staysBelow_cons, hptr, hlen]
    refine ⟨fun _ => ?_, staysBelow_nil _ _⟩
    rcases ht with hle | ⟨ptr, hp, hfit⟩
    · left; omega
    · rw [hp, Option.getD_some]
      omega

theorem noWindow_icmpFields (caplen : UInt32) (info : PacketInfo) :
    NoWindow (icmpFields packet caplen info).log := by
  unfold icmpFields
  dsimp only
  split_ifs
  · exact .bind (noWindow (by_load8 _ _)) fun _ => .bind (noWindow (by_load8 _ _)) fun _ =>
      .bind (noWindow (by_say _ _ _ _)) fun _ => .bind (noWindow (by_say _ _ _ _)) fun _ =>
      sitesIn_nil _
  · exact .bind (noWindow (by_load8 _ _)) fun _ => .bind (noWindow (by_load8 _ _)) fun _ =>
      .bind (noWindow (by_say _ _ _ _)) fun _ => sitesIn_nil _
  · exact sitesIn_nil _

theorem noWindow_tcpFields (ip : IpInfo) (t : TransportInfo) (info : PacketInfo) :
    NoWindow (tcpFields packet ip t info).log := by
  unfold tcpFields
  split_ifs
  · exact .bind (noWindow (by_parseTcpOptionsExtended _ _ _)) fun _ =>
      noWindow (by_checkTcpAnomalies _ _)
  · exact sitesIn_nil _

theorem noWindow_finishAlive (caplen : UInt32) : ∀ r : Option PacketInfo,
    NoWindow (finishAlive packet caplen r).log
  | none => sitesIn_nil _
  | some info => by
    unfold finishAlive finish
    refine .bind (.bind (noWindow (by_calculateEntropyScaled _ _)) fun _ => ?_) fun _ =>
      sitesIn_nil _
    exact .bind (noWindow (by_calculateByteStats _ _ _)) fun _ =>
      .bind (noWindow (by_loadBytes _ _ _)) fun _ => sitesIn_nil _

theorem noWindow_l4Protocols (caplen : UInt32) (info : PacketInfo) :
    NoWindow (l4Protocols packet caplen info).log := by
  unfold l4Protocols
  refine .bind ?_ fun i => .bind ?_ fun j => ?_
  · split_ifs
    · exact .bind (noWindow (by_dissectOspf _ _ _ _)) fun _ => sitesIn_nil _
    · exact sitesIn_nil _
  · split_ifs
    · exact .bind (noWindow (by_dissectGre _ _ _ _)) fun _ => sitesIn_nil _
    · exact sitesIn_nil _
  · split_ifs
    · exact noWindow (by_dissectIgmp _ _ _)
    · exact sitesIn_nil _

theorem dissectTransport_window {caplen : UInt32} {h : ℕ} {ip : IpInfo} {m : ℕ}
    (ht : ∀ t, (parseTransportLayer packet caplen.toNat h ip).val = some t → Inside m t)
    (info : PacketInfo) : StaysBelow IsWindow m (dissectTransport packet caplen h ip info).log := by
  unfold dissectTransport
  refine .bind_val (noWindow (by_parseTransportLayer _ _ _)).staysBelow fun r hr => ?_
  cases r with
  | none => exact staysBelow_nil _ _
  | some t =>
    refine .bind (noWindow_tcpFields _ _ _).staysBelow fun i => .bind ?_ fun j =>
      (noWindow_l4Protocols _ _).staysBelow
    exact dispatchApp_window (ht t hr) i

theorem dissectIp_window {caplen : UInt32} {eth : EthernetInfo} {m : ℕ}
    (ht : ∀ ip t, (parseIpLayer packet caplen.toNat eth.headerLen).val = some ip →
      (parseTransportLayer packet caplen.toNat eth.headerLen ip).val = some t → Inside m t)
    (info : PacketInfo) : StaysBelow IsWindow m (dissectIp packet caplen eth info).log := by
  unfold dissectIp
  refine .bind_val (noWindow (by_parseIpLayer _ _)).staysBelow fun r hr => ?_
  cases r with
  | none => exact staysBelow_nil _ _
  | some ip =>
    refine .bind (noWindow (by_ipv6Fields _ _ _)).staysBelow fun i =>
      .bind (noWindow_icmpFields _ _).staysBelow fun j => ?_
    exact dissectTransport_window (fun t => ht ip t hr) j

/-- If every transport header has its window inside the capture, so has every application call. -/
theorem dissectRawPacket_window {raw : RawPacket} {m : ℕ}
    (ht : ∀ t, TransportResult raw.data raw.pkthdr.caplen.toNat t → Inside m t)
    (prior : PacketInfo) : StaysBelow IsWindow m (dissectRawPacket raw prior).log := by
  unfold dissectRawPacket
  refine .bind_val (noWindow (by_parseEthernetLayer _)).staysBelow fun r hr => ?_
  cases r with
  | none => exact staysBelow_nil _ _
  | some eth =>
    refine .bind (noWindow (by_initInfo _ _)).staysBelow fun info => ?_
    unfold dissectEtherType
    split_ifs with hip
    · refine .bind ?_ fun _ => (noWindow_finishAlive _ _).staysBelow
      exact dissectIp_window (fun ip t h1 h2 => ht t ⟨eth, ip, hr, hip, h1, h2⟩) info
    · exact .bind (noWindow (by_dissectArp _ _ _)).staysBelow fun _ =>
        (noWindow_finishAlive _ _).staysBelow
    · refine .bind (.bind (noWindow (by_loadBytes _ _ _)).staysBelow fun d => ?_) fun _ =>
        (noWindow_finishAlive _ _).staysBelow
      split_ifs
      · exact .bind (noWindow (by_dissectStp _ _ _ _)).staysBelow fun _ => staysBelow_nil _ _
      · exact staysBelow_nil _ _
    · exact .bind (noWindow (by_dissectLldp _ _ _)).staysBelow fun _ =>
        (noWindow_finishAlive _ _).staysBelow
    · exact staysBelow_nil _ _

/-! ### Frames that claim too much -/

/-- The 16-bit number at offset `i` of the frame. -/
def word (packet : ℕ → UInt8) (i : ℕ) : ℕ := (be16 (packet i) (packet (i + 1))).toNat

/-- A frame whose length field announces a payload that ends behind the capture: for TCP the field
at offset 2 of the IP header, for UDP the field at offset 4 of the UDP header. -/
inductive Overclaims (packet : ℕ → UInt8) (caplen : UInt32) : Prop
  | tcp (k hl : ℕ) (hk : IpFrame packet caplen k) (hp : ipProtocol packet (14 + 4 * k) = 6)
      (accepted : TcpAt packet caplen.toNat (l4At packet k) hl)
      (payload : ipHeaderLen packet (14 + 4 * k) + hl < word packet (14 + 4 * k + 2))
      (behind : caplen.toNat < 14 + 4 * k + word packet (14 + 4 * k + 2))
  | udp (k : ℕ) (hk : IpFrame packet caplen k) (hp : ipProtocol packet (14 + 4 * k) = 17)
      (accepted : l4At packet k + 8 ≤ caplen.toNat)
      (payload : 8 < word packet (l4At packet k + 4))
      (behind : caplen.toNat < l4At packet k + word packet (l4At packet k + 4))

/-- What the transport parser returns behind `k` tags and an accepted IP header, by protocol. -/
theorem parseTransportLayer_cases {caplen k : ℕ} {ip : IpInfo} (hok : IpOK packet (14 + 4 * k) ip) :
    (ipProtocol packet (14 + 4 * k) = 6 ∧ ∃ hl, TcpAt packet caplen (l4At packet k) hl ∧
      (parseTransportLayer packet caplen (14 + 4 * k) ip).val =
        some (tcpInfo packet (l4At packet k) hl ip)) ∨
    (ipProtocol packet (14 + 4 * k) = 17 ∧ l4At packet k + 8 ≤ caplen ∧
      (parseTransportLayer packet caplen (14 + 4 * k) ip).val =
        some (udpInfo packet (l4At packet k))) ∨
    (ipProtocol packet (14 + 4 * k) ≠ 6 ∧ ipProtocol packet (14 + 4 * k) ≠ 17 ∧
      (parseTransportLayer packet caplen (14 + 4 * k) ip).val = some TransportInfo.zero) ∨
    ((ipProtocol packet (14 + 4 * k) = 6 → ∀ hl, ¬ TcpAt packet caplen (l4At packet k) hl) ∧
      (ipProtocol packet (14 + 4 * k) = 17 → caplen < l4At packet k + 8) ∧
      (parseTransportLayer packet caplen (14 + 4 * k) ip).val = none) := by
  unfold parseTransportLayer
  dsimp only
  rw [hok.headerLen, hok.protocol]
  split_ifs with h6 h17
  · rcases @parseTcp_spec packet caplen 0 (fun _ => True) trivial
      (14 + 4 * k + ipHeaderLen packet (14 + 4 * k)) ip with ⟨hl, htcp, hv, -⟩ | ⟨hno, hv, -⟩
    · exact Or.inl ⟨h6, hl, htcp, hv⟩
    · have h17 : ipProtocol packet (14 + 4 * k) ≠ 17 := by rw [h6]; decide
      exact Or.inr (Or.inr (Or.inr ⟨fun _ => hno, fun h => absurd h h17, hv⟩))
  · rcases @parseUdp_spec packet caplen 0 (fun _ => True) trivial
      (14 + 4 * k + ipHeaderLen packet (14 + 4 * k)) with ⟨hfit, hv, -⟩ | ⟨hcut, hv, -⟩
    · exact Or.inr (Or.inl ⟨h17, hfit, hv⟩)
    · exact Or.inr (Or.inr (Or.inr ⟨fun h => absurd h h6, fun _ => hcut, hv⟩))
  · exact Or.inr (Or.inr (Or.inl ⟨h6, h17, rfl⟩))

/-- The transport headers that `parse_transport_layer` returns, by protocol. -/
theorem transportResult_cases {caplen : UInt32} {t : TransportInfo}
    (h : TransportResult packet caplen.toNat t) :
    ∃ k ip, IpFrame packet caplen k ∧ IpOK packet (14 + 4 * k) ip ∧
      ((ipProtocol packet (14 + 4 * k) = 6 ∧ ∃ hl, TcpAt packet caplen.toNat (l4At packet k) hl ∧
          t = tcpInfo packet (l4At packet k) hl ip) ∨
        (ipProtocol packet (14 + 4 * k) = 17 ∧ l4At packet k + 8 ≤ caplen.toNat ∧
          t = udpInfo packet (l4At packet k)) ∨
        t = TransportInfo.zero) := by
  obtain ⟨eth, ip, heth, hip, hval, ht⟩ := h
  have h14 : 14 ≤ caplen.toNat := by
    by_contra hlt
    rw [parseEthernetLayer_short (by omega)] at heth
    cases heth
  obtain ⟨k, hk, hethval, -⟩ := @parseEthernetLayer_spec packet caplen.toNat 0 (fun _ => True)
    trivial h14
  rw [hethval, Option.some.injEq] at heth
  subst heth
  rcases @parseIpLayer_cases packet caplen.toNat 0 (fun _ => True) trivial (14 + 4 * k) with
    ⟨ip', hat, hok, hval', -⟩ | ⟨-, hval', -⟩
  swap
  · exact absurd (hval'.symm.trans hval) (by simp)
  obtain rfl : ip' = ip := Option.some.inj (hval'.symm.trans hval)
  refine ⟨k, ip', ⟨hk, hip, hat⟩, hok, ?_⟩
  rcases @parseTransportLayer_cases packet caplen.toNat k ip' hok with
    ⟨h6, hl, htcp, hv⟩ | ⟨h17, hfit, hv⟩ | ⟨-, -, hv⟩ | ⟨-, -, hv⟩
  · exact Or.inl ⟨h6, hl, htcp, Option.some.inj (ht.symm.trans hv)⟩
  · exact Or.inr (Or.inl ⟨h17, hfit, Option.some.inj (ht.symm.trans hv)⟩)
  · exact Or.inr (Or.inr (Option.some.inj (ht.symm.trans hv)))
  · exact absurd (hv.symm.trans ht) (by simp)

/-- The result of the transport parser behind an IP header, as a result for the frame. -/
theorem transportResult_of_ipFrame {caplen : UInt32} {k : ℕ} (hk : IpFrame packet caplen k) :
    ∃ ip, IpOK packet (14 + 4 * k) ip ∧ ∀ t,
      (parseTransportLayer packet caplen.toNat (14 + 4 * k) ip).val = some t →
        TransportResult packet caplen.toNat t := by
  have hfit := hk.depth.fits
  obtain ⟨k', hk', heth, -⟩ := @parseEthernetLayer_spec packet caplen.toNat 0 (fun _ => True)
    trivial (by omega)
  obtain rfl := hk.depth.unique hk'
  rcases @parseIpLayer_cases packet caplen.toNat 0 (fun _ => True) trivial (14 + 4 * k) with
    ⟨ip, -, hok, hval, -⟩ | ⟨hno, -, -⟩
  · exact ⟨ip, hok, fun t ht => ⟨_, ip, heth, hk.etype, hval, ht⟩⟩
  · exact absurd hk.header hno

theorem inside_tcpInfo {k hl : ℕ} {ip : IpInfo} (hok : IpOK packet (14 + 4 * k) ip) (caplen : ℕ) :
    Inside caplen (tcpInfo packet (l4At packet k) hl ip) ↔
      word packet (14 + 4 * k + 2) ≤ ipHeaderLen packet (14 + 4 * k) + hl ∨
        14 + 4 * k + word packet (14 + 4 * k + 2) ≤ caplen := by
  have hlen : (tcpInfo packet (l4At packet k) hl ip).payloadLen =
      (word packet (14 + 4 * k + 2) : ℤ) - ipHeaderLen packet (14 + 4 * k) - hl := by
    simp [tcpInfo, word, hok.header, hok.headerLen]
  have hptr : (tcpInfo packet (l4At packet k) hl ip).payloadPtr = some (l4At packet k + hl) := rfl
  unfold Inside
  rw [hlen, hptr]
  constructor
  · rintro (h | ⟨ptr, hp, h⟩)
    · left; omega
    · right
      obtain rfl := Option.some.inj hp
      unfold l4At at h
      omega
  · rintro (h | h)
    · left; omega
    · right
      refine ⟨_, rfl, ?_⟩
      unfold l4At
      omega

theorem inside_udpInfo {off : ℕ} (caplen : ℕ) : Inside caplen (udpInfo packet off) ↔
    word packet (off + 4) ≤ 8 ∨ off + word packet (off + 4) ≤ caplen := by
  have hlen : (udpInfo packet off).payloadLen = (word packet (off + 4) : ℤ) - 8 := rfl
  have hptr : (udpInfo packet off).payloadPtr = some (off + 8) := rfl
  unfold Inside
  rw [hlen, hptr]
  constructor
  · rintro (h | ⟨ptr, hp, h⟩)
    · left; omega
    · right
      obtain rfl := Option.some.inj hp
      omega
  · rintro (h | h)
    · left; omega
    · exact Or.inr ⟨_, rfl, by omega⟩

theorem inside_iff {caplen : UInt32} :
    (∀ t, TransportResult packet caplen.toNat t → Inside caplen.toNat t) ↔
      ¬ Overclaims packet caplen := by
  constructor
  · intro h hover
    cases hover with
    | tcp k hl hk hp htcp hpay hbehind =>
      obtain ⟨ip, hok, hres⟩ := transportResult_of_ipFrame hk
      have hin := h (tcpInfo packet (l4At packet k) hl ip) (hres _ ?_)
      · rw [inside_tcpInfo hok] at hin
        omega
      · unfold parseTransportLayer
        rw [hok.headerLen, hok.protocol, if_pos hp]
        rcases @parseTcp_spec packet caplen.toNat 0 (fun _ => True) trivial (l4At packet k) ip with
          ⟨hl', htcp', hv, -⟩ | ⟨hno, -, -⟩
        · obtain rfl : hl = hl' := htcp.1.trans htcp'.1.symm
          exact hv
        · exact absurd htcp (hno hl)
    | udp k hk hp hfit hpay hbehind =>
      obtain ⟨ip, hok, hres⟩ := transportResult_of_ipFrame hk
      have h6 : ipProtocol packet (14 + 4 * k) ≠ 6 := by rw [hp]; decide
      have hin := h (udpInfo packet (l4At packet k)) (hres _ ?_)
      · rw [inside_udpInfo] at hin
        omega
      · unfold parseTransportLayer
        rw [hok.headerLen, hok.protocol, if_neg h6, if_pos hp]
        rcases @parseUdp_spec packet caplen.toNat 0 (fun _ => True) trivial (l4At packet k) with
          ⟨-, hv, -⟩ | ⟨hcut, -, -⟩
        · exact hv
        · omega
  · intro hno t ht
    obtain ⟨k, ip, hk, hok, ⟨hp, hl, htcp, rfl⟩ | ⟨hp, hfit, rfl⟩ | rfl⟩ := transportResult_cases ht
    · rw [inside_tcpInfo hok]
      by_contra hcon
      exact hno (.tcp k hl hk hp htcp (by omega) (by omega))
    · rw [inside_udpInfo]
      by_contra hcon
      exact hno (.udp k hk hp hfit (by omega) (by omega))
    · exact Or.inl (by decide)

/-- **The application window.** The window of every transport header, and every window that an
application dissector is given, lies inside the capture if and only if the frame does not
overclaim. -/
theorem windows_inside_iff (raw : RawPacket) (prior : PacketInfo) :
    ((∀ t, TransportResult raw.data raw.pkthdr.caplen.toNat t →
        Inside raw.pkthdr.caplen.toNat t) ∧
      StaysBelow IsWindow raw.pkthdr.caplen.toNat (dissectRawPacket raw prior).log) ↔
      ¬ Overclaims raw.data raw.pkthdr.caplen := by
  rw [inside_iff]
  constructor
  · exact And.left
  · intro h
    exact ⟨h, dissectRawPacket_window (inside_iff.mpr h) prior⟩

/-- A DNS query of which 42 bytes are captured, with a UDP length of 1000. -/
def truncatedQuery : List UInt8 :=
  [0, 1, 2, 3, 4, 5, 6, 7, 8, 9, 10, 11, 0x08, 0x00,
   0x45, 0, 0x03, 0xfc, 0, 1, 0, 0, 64, 17, 0, 0, 10, 0, 0, 1, 10, 0, 0, 2,
   0x30, 0x39, 0, 53, 0x03, 0xe8, 0, 0]

/-- The raw packet of a list of captured bytes. -/
def rawOf (bytes : List UInt8) : RawPacket where
  pkthdr := hdrOf (UInt32.ofNat bytes.length)
  data i := bytes.getD i 0
  deltaTime := 0

/-- The window of the truncated query ends behind its 42 captured bytes. -/
theorem truncatedQuery_window_outside : (rawOf truncatedQuery).pkthdr.caplen.toNat ≤ 256 ∧
    ¬ ((∀ t, TransportResult (rawOf truncatedQuery).data
          (rawOf truncatedQuery).pkthdr.caplen.toNat t →
        Inside (rawOf truncatedQuery).pkthdr.caplen.toNat t) ∧
      StaysBelow IsWindow (rawOf truncatedQuery).pkthdr.caplen.toNat
        (dissectRawPacket (rawOf truncatedQuery) PacketInfo.zero).log) := by
  refine ⟨by decide, fun h => inside_iff.mp h.1 ?_⟩
  refine .udp 0 ⟨⟨by decide, by decide, by decide⟩, by decide, Or.inl ⟨20, by decide +kernel⟩⟩
    ?_ ?_ ?_ ?_ <;> decide +kernel

end Pacsni.Capture.Window
