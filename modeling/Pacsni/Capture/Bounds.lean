import Pacsni.Capture.Stages

/-! # Reads of the copied bytes

`packet_handler` copies at most `MAX_PAYLOAD_SIZE` bytes of a frame, but the parsers get the length
`caplen` of the capture. The guarded sites are the reads of the layer parsers and of the dissectors
that are called with a length derived from `caplen`. They stay inside the copied bytes if and only
if the frame is not `Deep`: the headers and the few bytes behind them that are looked at end within
the first 256 bytes of the frame. -/

namespace Pacsni.Capture.Bounds

open Pacsni.Lib.Trace Pacsni.Lib.CBuffer
open Pacsni.Capture.Types Pacsni.Capture.Layers Pacsni.Capture.Dissectors Pacsni.Capture.Raw
open Pacsni.Capture.LayerSpec Pacsni.Capture.Stages

variable {n : ℕ} {packet : ℕ → UInt8}

/-- The reads that trust `caplen`. -/
def Guarded : Site → Prop
  | .read f => f = .parseEthernetLayer ∨ f = .parseIpLayer ∨ f = .parseTransportLayer ∨
      f = .dissectStp ∨ f = .dissectOspf ∨ f = .dissectGre ∨ f = .dissectIgmp
  | .write _ _ => False
  | .window _ => False

/-! ### Stages without guarded reads -/

theorem staysBelow_of_by {f : Fn} (hf : ¬ Guarded (.read f)) {l : List (Access Site)} (h : By f l) :
    StaysBelow Guarded n l := by
  refine SitesIn.staysBelow h fun s hs => ?_
  cases s with
  | read g => exact fun hg => hf (Option.some.inj hs ▸ hg)
  | write g b => exact id
  | window d => exact id

theorem staysBelow_snprintf {k : ℕ} (f : Fn) (b : Buf) (v : Vector UInt8 k) (i m : ℕ)
    (text : List UInt8) : StaysBelow Guarded n (snprintf (.write f b) v i m text).log :=
  (sitesIn_snprintf (P := fun s => ¬ Guarded s) id v i m text).staysBelow fun _ h => h

theorem staysBelow_say {k : ℕ} (f : Fn) (o : Vector UInt8 k) (m : ℕ) :
    ∀ t : Option (List UInt8), StaysBelow Guarded n (say f o m t).log
  | none => staysBelow_nil _ _
  | some text => staysBelow_snprintf f .out o 0 m text

theorem staysBelow_runApp (c : AppCall) (info : PacketInfo) :
    StaysBelow Guarded n (runApp packet c info).log := by
  obtain ⟨d, p, l⟩ := c
  unfold runApp
  cases d with
  | http =>
    refine staysBelow_append.mpr ⟨?_, staysBelow_nil _ _⟩
    exact staysBelow_of_by (by simp [Guarded]) (by_dissectHttp _ _ _ _)
  | vxlan => exact staysBelow_of_by (by simp [Guarded]) (by_dissectVxlan _ _ _)
  | appCommon =>
    refine staysBelow_append.mpr ⟨?_, staysBelow_nil _ _⟩
    exact staysBelow_of_by (by simp [Guarded]) (by_dissectAppCommon _ _ _ _)
  | tlsSni =>
    refine staysBelow_append.mpr ⟨?_, staysBelow_nil _ _⟩
    exact staysBelow_of_by (by simp [Guarded]) (by_dissectTlsSni _ _ _ _)
  | dns =>
    refine staysBelow_append.mpr ⟨?_, staysBelow_nil _ _⟩
    exact staysBelow_of_by (by simp [Guarded]) (by_dissectDns _ _ _ _)
  | dhcp =>
    refine staysBelow_append.mpr ⟨?_, staysBelow_nil _ _⟩
    exact staysBelow_of_by (by simp [Guarded]) (by_dissectDhcp _ _ _ _)
  | ntp =>
    refine staysBelow_append.mpr ⟨?_, ?_⟩
    · exact staysBelow_of_by (by simp [Guarded]) (by_dissectNtp _ _ _)
    · exact staysBelow_of_by (by simp [Guarded]) (by_dissectNtpCore _ _ _)

theorem staysBelow_dispatchApp (t : TransportInfo) (info : PacketInfo) :
    StaysBelow Guarded n (dispatchApp packet t info).log := by
  unfold dispatchApp
  cases appCall info t with
  | none => exact staysBelow_nil _ _
  | some c => exact .bind (by simp [Guarded]) fun _ => staysBelow_runApp c info

theorem staysBelow_tcpFields (ip : IpInfo) (t : TransportInfo) (info : PacketInfo) :
    StaysBelow Guarded n (tcpFields packet ip t info).log := by
  unfold tcpFields
  split_ifs
  · refine staysBelow_append.mpr ⟨?_, ?_⟩
    · exact staysBelow_of_by (by simp [Guarded]) (by_parseTcpOptionsExtended _ _ _)
    · exact staysBelow_of_by (by simp [Guarded]) (by_checkTcpAnomalies _ _)
  · exact staysBelow_nil _ _

theorem staysBelow_icmpFields (caplen : UInt32) (info : PacketInfo) :
    StaysBelow Guarded n (icmpFields packet caplen info).log := by
  unfold icmpFields
  dsimp only
  split_ifs
  · simp [Guarded, dissectIcmpDetails, checkIcmpUnreachable, staysBelow_say]
  · simp [Guarded, dissectIcmp6Details, staysBelow_say]
  · exact staysBelow_nil _ _

theorem staysBelow_finish (caplen : UInt32) (info : PacketInfo) :
    StaysBelow Guarded n (finish packet caplen info).log := by
  unfold finish
  refine staysBelow_append.mpr ⟨?_, staysBelow_append.mpr ⟨?_, ?_⟩⟩
  · exact staysBelow_of_by (by simp [Guarded]) (by_calculateEntropyScaled _ _)
  · exact staysBelow_of_by (by simp [Guarded]) (by_calculateByteStats _ _ _)
  · simp [Guarded]

theorem staysBelow_finishAlive (caplen : UInt32) : ∀ r : Option PacketInfo,
    StaysBelow Guarded n (finishAlive packet caplen r).log
  | none => staysBelow_nil _ _
  | some info => staysBelow_append.mpr ⟨staysBelow_finish caplen info, staysBelow_nil _ _⟩

/-! ### Dissectors with a length derived from `caplen` -/

section

variable {k : ℕ} (p : ℕ) (l : ℤ) (o : Vector UInt8 k) (m : ℕ)

theorem dissectStp_reach :
    StaysBelow Guarded n (dissectStp packet p l o m).log ↔ l < 35 ∨ p + 5 ≤ n := by
  unfold dissectStp
  by_cases h : l < 35
  · rw [if_pos h]; simp [h]
  · rw [if_neg h]; simp [h, Guarded, staysBelow_say, Nat.add_assoc]

theorem dissectOspf_reach :
    StaysBelow Guarded n (dissectOspf packet p l o m).log ↔ l < 24 ∨ p + 2 ≤ n := by
  unfold dissectOspf
  by_cases h : l < 24
  · simp [h]
  · simp only [h, ↓reduceIte, log_bind, val_load8]
    by_cases ht : 0 < packet (p + 1) ∧ packet (p + 1) < 6
    · simp only [ht, and_self, ↓reduceIte]
      simp [Guarded, staysBelow_say]; omega
    · simp only [ht, ↓reduceIte]
      simp [Guarded]; omega

theorem dissectGre_reach :
    StaysBelow Guarded n (dissectGre packet p l o m).log ↔ l < 4 ∨ p + 4 ≤ n := by
  unfold dissectGre
  by_cases h : l < 4
  · rw [if_pos h]; simp [h]
  · rw [if_neg h]; simp [h, Guarded, staysBelow_say, Nat.add_assoc]

theorem dissectIgmp_reach (i : PacketInfo) :
    StaysBelow Guarded n (dissectIgmp packet p l i).log ↔ l < 8 ∨ p + 8 ≤ n := by
  unfold dissectIgmp
  by_cases h : l < 8
  · rw [if_pos h]; simp [h]
  · rw [if_neg h]
    simp [h, Guarded, staysBelow_snprintf, Nat.add_assoc]
    omega

end

/-! ### Behind the layer parsers -/

/-- The dissectors of `l4Protocols` stay below `n`. -/
def L4Fits (n : ℕ) (caplen : UInt32) (protocol : UInt8) (l4 : ℕ) : Prop :=
  (protocol = 89 → caplen.toNat < l4 + 24 ∨ l4 + 2 ≤ n) ∧
  (protocol = 47 → caplen.toNat < l4 + 4 ∨ l4 + 4 ≤ n) ∧
  (protocol = 2 → caplen.toNat < l4 + 8 ∨ l4 + 8 ≤ n)

theorem asInt_sub {caplen : UInt32} {x : UInt8} (hcap : caplen.toNat ≤ bufsiz)
    (hx : x.toNat ≤ caplen.toNat) : asInt (caplen - x.toUInt32) = caplen.toNat - x.toNat := by
  have hsub : (caplen - x.toUInt32).toNat = caplen.toNat - x.toNat := by
    rw [UInt32.toNat_sub_of_le]
    · simp
    · simpa [UInt32.le_iff_toNat_le] using hx
  unfold bufsiz at hcap
  rw [asInt_of_lt (by omega), hsub]
  omega

theorem l4Protocols_reach {caplen : UInt32} (hcap : caplen.toNat ≤ bufsiz) (info : PacketInfo)
    (hl4 : info.l4Offset.toNat ≤ caplen.toNat) :
    StaysBelow Guarded n (l4Protocols packet caplen info).log ↔
      L4Fits n caplen info.protocol info.l4Offset.toNat := by
  unfold l4Protocols L4Fits
  rw [asInt_sub hcap hl4]
  by_cases h89 : info.protocol = 89
  · simp [h89, dissectOspf_reach]
    omega
  by_cases h47 : info.protocol = 47
  · simp [h47, dissectGre_reach]
    omega
  by_cases h2 : info.protocol = 2
  · simp [h2, dissectIgmp_reach]
    omega
  · simp [h89, h47, h2]

theorem transportFields_reach {caplen : UInt32} (hcap : caplen.toNat ≤ bufsiz) (ip : IpInfo)
    (t : TransportInfo) (info : PacketInfo) (hl4 : info.l4Offset.toNat ≤ caplen.toNat) :
    StaysBelow Guarded n (transportFields packet caplen ip t info).log ↔
      L4Fits n caplen info.protocol info.l4Offset.toNat := by
  unfold transportFields
  rw [log_bind, log_bind, staysBelow_append, staysBelow_append]
  have hi := @headers_tcpFields packet ip t
    { info with srcPort := t.srcPort, dstPort := t.dstPort }
  have hlog := @staysBelow_tcpFields n packet ip t
    { info with srcPort := t.srcPort, dstPort := t.dstPort }
  generalize tcpFields packet ip t { info with srcPort := t.srcPort, dstPort := t.dstPort } = x
    at hi hlog ⊢
  have hj := (@headers_dispatchApp packet t x.val).trans hi
  have hp : (dispatchApp packet t x.val).val.protocol = info.protocol :=
    (congrArg Headers.protocol hj).trans (protocol_withTransport t (headers info))
  have ho : (dispatchApp packet t x.val).val.l4Offset = info.l4Offset :=
    (congrArg Headers.l4Offset hj).trans (l4Offset_withTransport t (headers info))
  rw [l4Protocols_reach hcap _ (by rw [ho]; exact hl4), hp, ho]
  simp [hlog, staysBelow_dispatchApp]

/-- How far `parse_transport_layer` reads. -/
def TransportFits (n : ℕ) (packet : ℕ → UInt8) (caplen off : ℕ) (protocol : UInt8) : Prop :=
  (protocol = 6 → off + 20 ≤ caplen → off + 13 ≤ n) ∧
  (protocol = 6 → ∀ hl, TcpAt packet caplen off hl → off + 16 ≤ n) ∧
  (protocol = 17 → off + 8 ≤ caplen → off + 6 ≤ n)

theorem parseTransportLayer_reach {caplen ethHlen : ℕ} (ip : IpInfo) (hn : ip.header + 4 ≤ n) :
    StaysBelow Guarded n (parseTransportLayer packet caplen ethHlen ip).log ↔
      TransportFits n packet caplen (ethHlen + ip.headerLen) ip.protocol := by
  have hS : Guarded (.read .parseTransportLayer) := by simp [Guarded]
  unfold parseTransportLayer TransportFits
  dsimp only
  by_cases h6 : ip.protocol = 6
  · rw [if_pos h6]
    have h17 : ip.protocol ≠ 17 := by rw [h6]; decide
    rcases @parseTcp_spec packet caplen n Guarded hS (ethHlen + ip.headerLen) ip with
      ⟨hl, htcp, -, hlog⟩ | ⟨hno, -, hlog⟩
    · have := htcp.2
      rw [hlog]
      constructor
      · rintro ⟨h16, -⟩
        exact ⟨fun _ _ => by omega, fun _ _ _ => h16, fun h => absurd h h17⟩
      · rintro ⟨-, h, -⟩
        exact ⟨h h6 hl htcp, hn⟩
    · rw [hlog]
      constructor
      · intro h
        exact ⟨fun _ _ => by omega, fun _ hl htcp => absurd htcp (hno hl), fun h => absurd h h17⟩
      · rintro ⟨h, -, -⟩
        have := h h6
        omega
  by_cases h17 : ip.protocol = 17
  · rw [if_neg h6, if_pos h17]
    rcases @parseUdp_spec packet caplen n Guarded hS (ethHlen + ip.headerLen) with
      ⟨hfit, -, hlog⟩ | ⟨hcut, -, hlog⟩
    · rw [hlog]
      exact ⟨fun h => ⟨fun h' => absurd h' h6, fun h' => absurd h' h6, fun _ _ => h⟩,
        fun h => h.2.2 h17 hfit⟩
    · exact ⟨fun _ => ⟨fun h' => absurd h' h6, fun h' => absurd h' h6, fun _ h => by omega⟩,
        fun _ => hlog⟩
  · rw [if_neg h6, if_neg h17]
    simp [h6, h17]

/-- The transport layer is given up only for TCP and UDP. -/
theorem parseTransportLayer_none {caplen ethHlen : ℕ} {ip : IpInfo}
    (h : (parseTransportLayer packet caplen ethHlen ip).val = none) :
    ip.protocol = 6 ∨ ip.protocol = 17 := by
  by_contra hno
  obtain ⟨h6, h17⟩ := not_or.mp hno
  simp [parseTransportLayer, h6, h17] at h

theorem l4Fits_of_tcp_udp {caplen : UInt32} {q : UInt8} (hq : q = 6 ∨ q = 17) (l4 : ℕ) :
    L4Fits n caplen q l4 := by
  rcases hq with rfl | rfl <;> simp [L4Fits]

theorem dissectTransport_reach {caplen : UInt32} (hcap : caplen.toNat ≤ bufsiz) {h : ℕ} {ip : IpInfo}
    (hok : IpOK packet h ip) (hat : IpAt packet caplen.toNat h) (hn : h + 4 ≤ n) {info : PacketInfo}
    (hp : info.protocol = upperProtocol packet caplen h)
    (hl4 : info.l4Offset.toNat = (h + ipHeaderLen packet h) % 256) :
    StaysBelow Guarded n (dissectTransport packet caplen h ip info).log ↔
      TransportFits n packet caplen.toNat (h + ipHeaderLen packet h) (ipProtocol packet h) ∧
      L4Fits n caplen (upperProtocol packet caplen h) ((h + ipHeaderLen packet h) % 256) := by
  unfold dissectTransport
  rw [log_bind, staysBelow_append, parseTransportLayer_reach ip (by rw [hok.header]; exact hn),
    hok.headerLen, hok.protocol]
  refine and_congr_right fun _ => ?_
  cases ht : (parseTransportLayer packet caplen.toNat h ip).val with
  | none =>
    have hq := hok.protocol ▸ parseTransportLayer_none ht
    simp [upperProtocol_eq hq, l4Fits_of_tcp_udp hq]
  | some t =>
    have hle : info.l4Offset.toNat ≤ caplen.toNat := by
      rw [hl4]
      exact (Nat.mod_le _ _).trans hat.fits
    rw [transportFields_reach hcap ip t info hle, hp, hl4]

/-- The guarded reads behind an Ethernet header of `h` bytes stay below `n`. -/
structure IpFits (n : ℕ) (packet : ℕ → UInt8) (caplen : UInt32) (h : ℕ) : Prop where
  ip : h + ipFixedLen packet h ≤ n
  transport : TransportFits n packet caplen.toNat (h + ipHeaderLen packet h) (ipProtocol packet h)
  l4 : L4Fits n caplen (upperProtocol packet caplen h) ((h + ipHeaderLen packet h) % 256)

theorem dissectIp_reach {caplen : UInt32} (hcap : caplen.toNat ≤ bufsiz) {eth : EthernetInfo} {h : ℕ}
    (heth : eth.headerLen = h) {info : PacketInfo} (hl3 : info.l3Offset.toNat = h % 256)
    (hh : h + 1 ≤ caplen.toNat → h + 1 ≤ n) :
    StaysBelow Guarded n (dissectIp packet caplen eth info).log ↔
      (IpAt packet caplen.toNat h → IpFits n packet caplen h) := by
  unfold dissectIp
  rw [heth]
  rcases @parseIpLayer_cases packet caplen.toNat n Guarded (by simp [Guarded]) h with
    ⟨ip, hat, hok, hval, hlog⟩ | ⟨hno, hval, hlog⟩
  swap
  · simp [hval, hlog hh, hno]
  have h20 : 20 ≤ ipFixedLen packet h := by unfold ipFixedLen; split_ifs <;> omega
  have h6 : StaysBelow Guarded n (ipv6Fields packet caplen ip (ipFields eth ip info)).log :=
    staysBelow_of_by (by simp [Guarded]) (by_ipv6Fields _ _ _)
  simp only [log_bind, hval, staysBelow_append, hlog, staysBelow_icmpFields, h6, true_and]
  -- the record before the transport layer, and its two fields that matter here
  obtain ⟨f, hi⟩ := @ipv6Fields_spec packet caplen h ip eth info hok hl3
  have hj := (@headers_icmpFields packet caplen
    (ipv6Fields packet caplen ip (ipFields eth ip info)).val).trans hi
  have hp := congrArg Headers.protocol hj
  have ho : _ = UInt8.ofNat (eth.headerLen + ip.headerLen) := congrArg Headers.l4Offset hj
  rw [heth, hok.headerLen] at ho
  have hl4 := (congrArg UInt8.toNat ho).trans (UInt8.toNat_ofNat' ..)
  constructor
  · rintro ⟨h1, h2⟩ -
    obtain ⟨h3, h4⟩ := (dissectTransport_reach hcap hok hat (by omega) hp hl4).mp h2
    exact ⟨h1, h3, h4⟩
  · intro hfit
    obtain ⟨h1, h3, h4⟩ := hfit hat
    exact ⟨h1, (dissectTransport_reach hcap hok hat (by omega) hp hl4).mpr ⟨h3, h4⟩⟩

/-! ### The whole dissection -/

/-- The destination address is the bridge group address. -/
def ToBridges (packet : ℕ → UInt8) : Prop :=
  (List.range 6).map packet = [0x01, 0x80, 0xC2, 0x00, 0x00, 0x00]

theorem asInt_sub_ofNat {caplen : UInt32} {h : ℕ} (hcap : caplen.toNat ≤ bufsiz)
    (hh : h ≤ caplen.toNat) : asInt (caplen - UInt32.ofNat h) = caplen.toNat - h := by
  unfold bufsiz at hcap
  have hof : (UInt32.ofNat h).toNat = h := by rw [UInt32.toNat_ofNat']; omega
  have hsub : (caplen - UInt32.ofNat h).toNat = caplen.toNat - h := by
    rw [UInt32.toNat_sub_of_le, hof]
    rw [UInt32.le_iff_toNat_le, hof]
    exact hh
  rw [asInt_of_lt (by omega), hsub]
  omega

theorem dissectLlc_reach {caplen : UInt32} (hcap : caplen.toNat ≤ bufsiz) (eth : EthernetInfo)
    (hh : eth.headerLen ≤ caplen.toNat) (info : PacketInfo) :
    StaysBelow Guarded n (dissectLlc packet caplen eth info).log ↔
      (ToBridges packet → caplen.toNat < eth.headerLen + 35 ∨ eth.headerLen + 5 ≤ n) := by
  unfold dissectLlc ToBridges
  rw [log_bind, staysBelow_append, log_loadBytes]
  have hd : (loadBytes packet (Site.read .dissectRawPacket) 0 6).val = (List.range 6).map packet := by
    simp
  rw [hd]
  by_cases hb : (List.range 6).map packet = [0x01, 0x80, 0xC2, 0x00, 0x00, 0x00]
  · rw [if_pos hb, asInt_sub_ofNat hcap hh]
    simp [Guarded, hb, dissectStp_reach]
    omega
  · rw [if_neg hb]
    simp [Guarded, hb]

theorem l3Offset_initInfo (raw : RawPacket) (eth : EthernetInfo) :
    (initInfo raw eth).val.l3Offset.toNat = eth.headerLen % 256 := by
  simp [initInfo]

/-- Where the guarded reads behind the Ethernet header end, by ethertype. -/
structure FrameFits (n : ℕ) (packet : ℕ → UInt8) (caplen : UInt32) (etype : UInt16) (h : ℕ) :
    Prop where
  ip : IsIp etype → IpAt packet caplen.toNat h → IpFits n packet caplen h
  stp : etype ≤ 1500 → ToBridges packet → caplen.toNat < h + 35 ∨ h + 5 ≤ n

/-- Neither IP nor LLC: no guarded read behind the Ethernet header. -/
theorem dissectEtherType_other {eth : EthernetInfo} (hip : ¬ IsIp eth.etherType)
    (h1500 : ¬ eth.etherType ≤ 1500) (caplen : UInt32) (info : PacketInfo) :
    StaysBelow Guarded n (dissectEtherType packet caplen eth info).log := by
  unfold dissectEtherType
  rw [if_neg hip, if_neg h1500]
  split_ifs
  · refine .bind ?_ fun _ => staysBelow_finishAlive _ _
    exact staysBelow_of_by (by simp [Guarded]) (by_dissectArp _ _ _)
  · refine .bind ?_ fun _ => staysBelow_finishAlive _ _
    exact staysBelow_of_by (by simp [Guarded]) (by_dissectLldp _ _ _)
  · exact staysBelow_nil _ _

theorem not_le_of_isIp {etype : UInt16} (h : IsIp etype) : ¬ etype ≤ 1500 := by
  rcases h with rfl | rfl <;> decide

theorem dissectEtherType_reach {caplen : UInt32} (hcap : caplen.toNat ≤ bufsiz)
    {eth : EthernetInfo} {h : ℕ} (heth : eth.headerLen = h) (hfit : h ≤ caplen.toNat)
    (hh : h + 1 ≤ caplen.toNat → h + 1 ≤ n) {info : PacketInfo}
    (hl3 : info.l3Offset.toNat = h % 256) :
    StaysBelow Guarded n (dissectEtherType packet caplen eth info).log ↔
      FrameFits n packet caplen eth.etherType h := by
  by_cases hip : IsIp eth.etherType
  · rw [dissectEtherType, if_pos hip, log_bind, staysBelow_append, dissectIp_reach hcap heth hl3 hh]
    refine ⟨fun h => ⟨fun _ => h.1, fun h' => absurd h' (not_le_of_isIp hip)⟩, fun h => ⟨h.ip hip, ?_⟩⟩
    exact staysBelow_finishAlive _ _
  by_cases h1500 : eth.etherType ≤ 1500
  · have harp : eth.etherType ≠ 0x0806 := fun h => absurd (h ▸ h1500) (by decide)
    rw [dissectEtherType, if_neg hip, if_neg harp, if_pos h1500, log_bind, staysBelow_append,
      dissectLlc_reach hcap eth (heth ▸ hfit), heth]
    refine ⟨fun h => ⟨fun h' => absurd h' hip, fun _ => h.1⟩, fun h => ⟨h.stp h1500, ?_⟩⟩
    exact staysBelow_finishAlive _ _
  · refine ⟨fun _ => ⟨fun h => absurd h hip, fun h => absurd h h1500⟩, fun _ => ?_⟩
    exact dissectEtherType_other hip h1500 caplen info

/-- A frame with `k` tags and an IP header behind them. -/
structure IpFrame (packet : ℕ → UInt8) (caplen : UInt32) (k : ℕ) : Prop where
  depth : TagDepth packet caplen.toNat k
  etype : IsIp (etypeAt packet k)
  header : IpAt packet caplen.toNat (14 + 4 * k)

/-- The offset of the transport header behind `k` tags. -/
def l4At (packet : ℕ → UInt8) (k : ℕ) : ℕ := 14 + 4 * k + ipHeaderLen packet (14 + 4 * k)

/-- The frames with bytes behind the 256th that the guarded reads look at: a tag stack, an IP, TCP
or UDP header, or the start of a GRE, IGMP or STP message that is captured but reaches too far. -/
inductive Deep (packet : ℕ → UInt8) (caplen : UInt32) : Prop
  | tags (k : ℕ) (hk : TagDepth packet caplen.toNat k) (far : 256 < 14 + 4 * k)
  | ip (k : ℕ) (hk : IpFrame packet caplen k)
      (far : 256 < 14 + 4 * k + ipFixedLen packet (14 + 4 * k))
  | tcpLength (k : ℕ) (hk : IpFrame packet caplen k) (hp : ipProtocol packet (14 + 4 * k) = 6)
      (captured : l4At packet k + 20 ≤ caplen.toNat) (far : 256 < l4At packet k + 13)
  | tcp (k hl : ℕ) (hk : IpFrame packet caplen k) (hp : ipProtocol packet (14 + 4 * k) = 6)
      (captured : TcpAt packet caplen.toNat (l4At packet k) hl) (far : 256 < l4At packet k + 16)
  | udp (k : ℕ) (hk : IpFrame packet caplen k) (hp : ipProtocol packet (14 + 4 * k) = 17)
      (captured : l4At packet k + 8 ≤ caplen.toNat) (far : 256 < l4At packet k + 6)
  | gre (k : ℕ) (hk : IpFrame packet caplen k) (hp : upperProtocol packet caplen (14 + 4 * k) = 47)
      (captured : l4At packet k % 256 + 4 ≤ caplen.toNat) (far : 256 < l4At packet k % 256 + 4)
  | igmp (k : ℕ) (hk : IpFrame packet caplen k) (hp : upperProtocol packet caplen (14 + 4 * k) = 2)
      (captured : l4At packet k % 256 + 8 ≤ caplen.toNat) (far : 256 < l4At packet k % 256 + 8)
  | stp (k : ℕ) (hk : TagDepth packet caplen.toNat k) (etype : etypeAt packet k ≤ 1500)
      (hp : ToBridges packet) (captured : 14 + 4 * k + 35 ≤ caplen.toNat)
      (far : 256 < 14 + 4 * k + 5)

theorem ipHeaderLen_mod (packet : ℕ → UInt8) (h : ℕ) : ipHeaderLen packet h % 4 = 0 := by
  unfold ipHeaderLen; split_ifs <;> omega

/-- A frame of `k` tags that is not deep keeps its guarded reads below the copied length. -/
theorem fits_of_not_deep {caplen : UInt32} {k : ℕ} (hk : TagDepth packet caplen.toNat k)
    (hd : ¬ Deep packet caplen) :
    14 + 4 * k ≤ min caplen.toNat 256 ∧
      FrameFits (min caplen.toNat 256) packet caplen (etypeAt packet k) (14 + 4 * k) := by
  have hfit := hk.fits
  refine ⟨?_, ⟨fun hip hat => ?_, fun h1500 hb => ?_⟩⟩
  · by_contra h
    exact hd (.tags k hk (by omega))
  · have hframe : IpFrame packet caplen k := ⟨hk, hip, hat⟩
    have hend := hat.fits
    have hfixed := hat.fixed_le
    have hmod := ipHeaderLen_mod packet (14 + 4 * k)
    refine ⟨?_, ⟨fun hp hc => ?_, fun hp hl htcp => ?_, fun hp hc => ?_⟩,
      ⟨fun hp => ?_, fun hp => ?_, fun hp => ?_⟩⟩ <;> by_contra h
    · exact hd (.ip k hframe (by omega))
    · exact hd (.tcpLength k hframe hp hc (by unfold l4At; omega))
    · have := htcp.2
      exact hd (.tcp k hl hframe hp htcp (by unfold l4At; omega))
    · exact hd (.udp k hframe hp hc (by unfold l4At; omega))
    · omega
    · exact hd (.gre k hframe hp (by unfold l4At; omega) (by unfold l4At; omega))
    · exact hd (.igmp k hframe hp (by unfold l4At; omega) (by unfold l4At; omega))
  · by_contra h
    exact hd (.stp k hk h1500 hb (by omega) (by omega))

theorem not_deep_of_fits {caplen : UInt32} {k : ℕ} (hk : TagDepth packet caplen.toNat k)
    (hn : n ≤ 256) (htags : 14 + 4 * k ≤ n)
    (hf : FrameFits n packet caplen (etypeAt packet k) (14 + 4 * k)) : ¬ Deep packet caplen := by
  intro hd
  cases hd with
  | tags k' hk' far =>
    obtain rfl := hk.unique hk'
    omega
  | ip k' hk' far =>
    obtain rfl := hk.unique hk'.depth
    have := (hf.ip hk'.etype hk'.header).ip
    omega
  | tcpLength k' hk' hp hc far =>
    obtain rfl := hk.unique hk'.depth
    have := (hf.ip hk'.etype hk'.header).transport.1 hp hc
    unfold l4At at far
    omega
  | tcp k' hl hk' hp hc far =>
    obtain rfl := hk.unique hk'.depth
    have := (hf.ip hk'.etype hk'.header).transport.2.1 hp hl hc
    unfold l4At at far
    omega
  | udp k' hk' hp hc far =>
    obtain rfl := hk.unique hk'.depth
    have := (hf.ip hk'.etype hk'.header).transport.2.2 hp hc
    unfold l4At at far
    omega
  | gre k' hk' hp hc far =>
    obtain rfl := hk.unique hk'.depth
    have := (hf.ip hk'.etype hk'.header).l4.2.1 hp
    unfold l4At at far hc
    omega
  | igmp k' hk' hp hc far =>
    obtain rfl := hk.unique hk'.depth
    have := (hf.ip hk'.etype hk'.header).l4.2.2 hp
    unfold l4At at far hc
    omega
  | stp k' hk' he hb hc far =>
    obtain rfl := hk.unique hk'
    have := hf.stp he hb
    omega

theorem Deep.captured {caplen : UInt32} (hd : Deep packet caplen) : 14 ≤ caplen.toNat := by
  cases hd with
  | tags k hk | stp k hk => have := hk.fits; omega
  | ip k hk | tcpLength k hk | tcp k _ hk | udp k hk | gre k hk | igmp k hk =>
    have := hk.depth.fits; omega

/-- A frame that is copied in full is not deep. -/
theorem not_deep_of_le {caplen : UInt32} (h : caplen.toNat ≤ 256) : ¬ Deep packet caplen := by
  intro hd
  cases hd with
  | tags k hk | stp k hk => have := hk.fits; omega
  | ip k hk =>
    have := hk.header.fits
    have := hk.header.fixed_le
    omega
  | tcp k hl hk hp hc => have := hc.2; omega
  | tcpLength k hk hp hc | udp k hk hp hc | gre k hk hp hc | igmp k hk hp hc => omega

theorem dissectFrame_reach {raw : RawPacket} (hcap : raw.pkthdr.caplen.toNat ≤ bufsiz)
    {eth : EthernetInfo} {h : ℕ} (heth : eth.headerLen = h) (hfit : h ≤ raw.pkthdr.caplen.toNat)
    (hh : h + 1 ≤ raw.pkthdr.caplen.toNat → h + 1 ≤ n) :
    StaysBelow Guarded n (dissectFrame raw eth).log ↔
      FrameFits n raw.data raw.pkthdr.caplen eth.etherType h := by
  have hl3 := l3Offset_initInfo raw eth
  rw [heth] at hl3
  rw [dissectFrame, log_bind, staysBelow_append, dissectEtherType_reach hcap heth hfit hh hl3]
  refine ⟨And.right, fun hf => ⟨?_, hf⟩⟩
  exact staysBelow_of_by (by simp [Guarded]) (by_initInfo _ _)

theorem dissectRawPacket_reach {raw : RawPacket} (hcap : raw.pkthdr.caplen.toNat ≤ bufsiz)
    (prior : PacketInfo) :
    StaysBelow Guarded (copiedLen raw.pkthdr) (dissectRawPacket raw prior).log ↔
      ¬ Deep raw.data raw.pkthdr.caplen := by
  unfold dissectRawPacket copiedLen maxPayloadSize
  by_cases h14 : raw.pkthdr.caplen.toNat < 14
  · rw [parseEthernetLayer_short h14]
    exact ⟨fun _ hd => absurd hd.captured (by omega), fun _ => staysBelow_nil _ _⟩
  obtain ⟨k, hk, hval, hlog⟩ := @parseEthernetLayer_spec raw.data raw.pkthdr.caplen.toNat
    (min raw.pkthdr.caplen.toNat 256) Guarded (by simp [Guarded]) (by omega)
  have hfit := hk.fits
  rw [log_bind, staysBelow_append, hlog, hval]
  dsimp only
  constructor
  · rintro ⟨htags, hlog⟩
    rw [dissectFrame_reach (h := 14 + 4 * k) hcap rfl hfit (by omega)] at hlog
    exact not_deep_of_fits hk (by omega) htags hlog
  · intro hd
    obtain ⟨htags, hf⟩ := fits_of_not_deep hk hd
    refine ⟨htags, ?_⟩
    rw [dissectFrame_reach (h := 14 + 4 * k) hcap rfl hfit (by omega)]
    exact hf

/-- **Reads of the copied bytes.** For every pcap callback with a `caplen` within the snap length,
whatever lies in memory behind the copied bytes, the guarded reads of the dissection stay below the
number of copied bytes if and only if the frame is not deep. -/
theorem reads_below_copiedLen_iff (pkthdr : PcapPkthdr) (frame mem : ℕ → UInt8) (lastTs : Timeval)
    (prior : PacketInfo) (hcap : pkthdr.caplen.toNat ≤ bufsiz) :
    StaysBelow Guarded (copiedLen pkthdr)
        (dissectRawPacket (packetHandler pkthdr frame mem lastTs) prior).log ↔
      ¬ Deep (packetHandler pkthdr frame mem lastTs).data pkthdr.caplen :=
  @dissectRawPacket_reach (packetHandler pkthdr frame mem lastTs) hcap prior

/-- A frame of VLAN tags only. -/
def tagFrame (i : ℕ) : UInt8 := if i % 2 = 0 then 0x81 else 0x00

/-- The header of a capture of `n` bytes. -/
def hdrOf (n : UInt32) : PcapPkthdr := ⟨⟨1, 0⟩, n, n⟩

theorem tagDepth_tagFrame : TagDepth
    (packetHandler (hdrOf 300) tagFrame (fun _ => 0) ⟨0, 0⟩).data 300 61 where
  fits := by decide
  tags := by decide +kernel
  stop := by decide +kernel

/-- The dissection of a 300-byte capture of VLAN tags reads behind the 256 copied bytes. -/
theorem tagFrame_reads_behind_copy : (hdrOf 300).caplen.toNat ≤ bufsiz ∧
    ¬ StaysBelow Guarded (copiedLen (hdrOf 300)) (dissectRawPacket
      (packetHandler (hdrOf 300) tagFrame (fun _ => 0) ⟨0, 0⟩) PacketInfo.zero).log := by
  have hcap : (hdrOf 300).caplen.toNat ≤ bufsiz := by decide
  refine ⟨hcap, fun h => ?_⟩
  refine (@dissectRawPacket_reach (packetHandler (hdrOf 300) tagFrame (fun _ => 0) ⟨0, 0⟩)
    hcap PacketInfo.zero).mp h ?_
  exact .tags 61 tagDepth_tagFrame (by decide)

/-- The reads of the dissection of a 60-byte frame stay inside its copy. -/
theorem shortFrame_reads_inside : (hdrOf 60).caplen.toNat ≤ bufsiz ∧
    StaysBelow Guarded (copiedLen (hdrOf 60)) (dissectRawPacket
      (packetHandler (hdrOf 60) tagFrame (fun _ => 0) ⟨0, 0⟩) PacketInfo.zero).log :=
  ⟨by decide, (reads_below_copiedLen_iff (hdrOf 60) _ _ _ _ (by decide)).mpr
    (not_deep_of_le (by decide))⟩

end Pacsni.Capture.Bounds
