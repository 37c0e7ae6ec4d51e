import Pacsni.Capture.Ipv6

/-! # IPv6 frames on the wire

A `WireFrame6` is an Ethernet frame with any number of VLAN tags, an IPv6 header, a chain of extension
headers (hop-by-hop, routing and destination options, first fragments), a TCP or UDP header and a
payload. The extension header loop of `dissect_raw_packet` walks the chain and finds the protocol behind
it, but `parse_transport_layer` still works with the first next-header field and 40 bytes of IP header:
ports and `l4_offset` are right exactly for the empty chain (`transport_found_iff`). -/

namespace Pacsni.Capture.Wire6

open Pacsni.Lib.Bytes Pacsni.Lib.Trace Pacsni.Lib.Region
open Pacsni.Capture.Types Pacsni.Capture.Layers Pacsni.Capture.Raw Pacsni.Capture.LayerSpec
open Pacsni.Capture.Stages Pacsni.Capture.Wire4

/-! ### Frames -/

/-- An IPv6 header; version, payload length and next header follow from the frame. -/
structure WireIpv6 where
  trafficClass : UInt8
  flow : Fin (2 ^ 20)
  hopLimit : UInt8
  src : Vector UInt8 16
  dst : Vector UInt8 16

/-- The header for `n` bytes behind it, the first of them of type `nxt`. -/
def WireIpv6.bytes (h : WireIpv6) (nxt : UInt8) (n : ℕ) : List UInt8 :=
  [UInt8.ofNat (96 + h.trafficClass.toNat / 16),
    UInt8.ofNat (h.trafficClass.toNat % 16 * 16 + h.flow / 65536)] ++
    (beBytes16 (UInt16.ofNat (h.flow % 65536)) ++ (beBytes16 (UInt16.ofNat n) ++
      ([nxt, h.hopLimit] ++ (h.src.toList ++ h.dst.toList))))

/-- The extension headers with a length byte. -/
inductive OptionsKind
  | hopByHop | routing | destination

def OptionsKind.type : OptionsKind → UInt8
  | .hopByHop => 0
  | .routing => 43
  | .destination => 60

/-- An extension header. A fragment header is one of offset 0: `flags` are its two reserved bits and the
bit that announces more fragments. -/
inductive WireExt
  | options (kind : OptionsKind) (len : UInt8) (body : Vector UInt8 (8 * len.toNat + 6))
  | fragment (reserved : UInt8) (flags : Fin 8) (id : UInt32)

def WireExt.type : WireExt → UInt8
  | .options kind _ _ => kind.type
  | .fragment _ _ _ => 44

/-- The header in front of one of type `nxt`. -/
def WireExt.bytes (nxt : UInt8) : WireExt → List UInt8
  | .options _ len body => [nxt, len] ++ body.toList
  | .fragment reserved flags id => [nxt, reserved] ++ (beBytes16 (UInt16.ofNat flags) ++ beBytes32 id)

/-- The type that is announced in front of a chain with the protocol `q` behind it. -/
def chainNxt (q : UInt8) : List WireExt → UInt8
  | [] => q
  | e :: _ => e.type

def chainBytes (q : UInt8) : List WireExt → List UInt8
  | [] => []
  | e :: es => e.bytes (chainNxt q es) ++ chainBytes q es

/-- A frame. -/
structure WireFrame6 where
  dstMac : Vector UInt8 6
  srcMac : Vector UInt8 6
  tags : List WireTag
  ip : WireIpv6
  chain : List WireExt
  l4 : WireL4
  payload : List UInt8

/-- The transport header and the payload. -/
def WireFrame6.segment (f : WireFrame6) : List UInt8 := f.l4.bytes f.payload.length ++ f.payload

/-- Everything behind the IPv6 header. -/
def WireFrame6.body (f : WireFrame6) : List UInt8 := chainBytes f.l4.protocol f.chain ++ f.segment

/-- The frame in network order. -/
def WireFrame6.bytes (f : WireFrame6) : List UInt8 :=
  f.dstMac.toList ++ (f.srcMac.toList ++ (f.tags.flatMap WireTag.bytes ++ (beBytes16 0x86DD ++
    (f.ip.bytes (chainNxt f.l4.protocol f.chain) f.body.length ++ f.body))))

/-- The header of a capture of the whole frame. -/
def WireFrame6.pkthdr (f : WireFrame6) (ts : Timeval) : PcapPkthdr :=
  ⟨ts, UInt32.ofNat f.bytes.length, UInt32.ofNat f.bytes.length⟩

/-- The position of the IPv6 header. -/
def WireFrame6.ipStart (f : WireFrame6) : ℕ := 14 + 4 * f.tags.length

/-- The position where the chain ends and the transport header starts. -/
def WireFrame6.chainEnd (f : WireFrame6) : ℕ :=
  f.ipStart + 40 + (chainBytes f.l4.protocol f.chain).length

def srcPortOf : WireL4 → UInt16
  | .tcp h => h.srcPort
  | .udp h => h.srcPort

def dstPortOf : WireL4 → UInt16
  | .tcp h => h.dstPort
  | .udp h => h.dstPort

/-! ### Lengths and bytes -/

@[simp] theorem length_ip6Bytes (h : WireIpv6) (nxt : UInt8) (n : ℕ) : (h.bytes nxt n).length = 40 := by
  simp [WireIpv6.bytes]

theorem WireExt.eight_le_length (nxt : UInt8) (e : WireExt) : 8 ≤ (e.bytes nxt).length := by
  cases e with
  | options kind len body => simp [WireExt.bytes]
  | fragment reserved flags id => simp [WireExt.bytes]

theorem WireFrame6.length_bytes (f : WireFrame6) :
    f.bytes.length = f.chainEnd + f.segment.length := by
  simp [WireFrame6.bytes, WireFrame6.chainEnd, WireFrame6.ipStart, WireFrame6.body]
  omega

theorem eight_le_segment (f : WireFrame6) : 8 ≤ f.segment.length := by
  unfold WireFrame6.segment
  rw [List.length_append]
  cases f.l4 with
  | tcp h => simp [WireL4.bytes, WireTcp.dataOffset]; omega
  | udp h => simp [WireL4.bytes]

theorem version_six (n : ℕ) (h : n < 16) : (UInt8.ofNat (96 + n) >>> 4) &&& 0x0f = 6 := by
  have : ∀ i : Fin 16, (UInt8.ofNat (96 + i) >>> 4) &&& 0x0f = 6 := by decide
  exact this ⟨n, h⟩

variable {data : ℕ → UInt8}

/-- What the layer parsers need of a frame that lies in memory. -/
structure FrameAt (f : WireFrame6) (data : ℕ → UInt8) : Prop where
  depth : TagDepth data f.bytes.length f.tags.length
  etype : etypeAt data f.tags.length = 0x86DD
  ip : Ipv6At data f.bytes.length f.ipStart
  nxt : data (f.ipStart + 6) = chainNxt f.l4.protocol f.chain
  body : Holds data (f.ipStart + 40) f.body

theorem frameAt_of_holds {f : WireFrame6} (hb : Holds data 0 f.bytes) : FrameAt f data := by
  have hlen := f.length_bytes
  have hseg := eight_le_segment f
  have hstart : f.ipStart = 14 + 4 * f.tags.length := rfl
  have hend : f.ipStart + 40 ≤ f.chainEnd := Nat.le_add_right _ _
  obtain ⟨hdst, hb⟩ := holds_append.mp hb
  obtain ⟨hsrc, hb⟩ := holds_append.mp hb
  have h12 : 0 + f.dstMac.toList.length + f.srcMac.toList.length = 12 + 4 * 0 := by simp
  rw [h12] at hb
  obtain ⟨htags, het, hb⟩ := tags_at f.tags 0 hb
  rw [Nat.zero_add] at het hb
  obtain ⟨hip, hbody⟩ := holds_append.mp hb
  rw [length_ip6Bytes] at hbody
  obtain ⟨hvt, hip⟩ := holds_append.mp hip
  obtain ⟨-, hip⟩ := holds_append.mp hip
  obtain ⟨-, hip⟩ := holds_append.mp hip
  obtain ⟨hnh, -⟩ := holds_append.mp hip
  have h0 : data (14 + 4 * f.tags.length) = UInt8.ofNat (96 + f.ip.trafficClass.toNat / 16) :=
    hvt 0 (by simp)
  have h6 : data (14 + 4 * f.tags.length + 6) = chainNxt f.l4.protocol f.chain := hnh 0 (by simp)
  have htc : f.ip.trafficClass.toNat / 16 < 16 := by
    have := f.ip.trafficClass.toNat_lt
    omega
  refine ⟨⟨by omega, fun j hj => ?_, fun h => ?_⟩, het, ⟨?_, by omega⟩, h6, hbody⟩
  · have := (htags j hj).1
    rw [Nat.zero_add] at this
    rw [this]
    exact isTag_tpid _
  · rw [het] at h
    exact absurd h.1 (by decide)
  · rw [hstart, h0]
    exact version_six _ htc

/-! ### The chain and its two readers -/

theorem isOptions_type (k : OptionsKind) : k.type = 0 ∨ k.type = 43 ∨ k.type = 60 := by
  cases k <;> decide

theorem type_ne_transport (e : WireExt) : e.type ≠ 6 ∧ e.type ≠ 17 := by
  cases e with
  | options kind len body =>
    show kind.type ≠ 6 ∧ kind.type ≠ 17
    cases kind <;> decide
  | fragment reserved flags id =>
    show (44 : UInt8) ≠ 6 ∧ (44 : UInt8) ≠ 17
    decide

/-- The walk over a chain of at most `k` headers ends with the protocol behind it. -/
theorem upperWalk_chain {caplen : UInt32} (hcap : caplen.toNat < 2 ^ 31) {q : UInt8}
    (hq : q = 6 ∨ q = 17) {rest : List UInt8} : ∀ {k : ℕ} (es : List WireExt) {off : ℕ},
    es.length ≤ k → Holds data off (chainBytes q es ++ rest) →
    off + (chainBytes q es).length ≤ caplen.toNat →
    upperWalk data caplen k (chainNxt q es) off = q
  | k, [], off, _, _, _ => by
    refine upperWalk_of_ne ?_ ?_ k off <;> rcases hq with rfl | rfl <;> simp [chainNxt]
  | 0, e :: es, off, hk, _, _ => absurd hk (by simp)
  | k + 1, e :: es, off, hk, hb, hfit => by
    have hint := asInt_of_lt hcap
    rw [chainBytes, List.append_assoc] at hb
    rw [chainBytes, List.length_append] at hfit
    obtain ⟨he, hes⟩ := holds_append.mp hb
    have h8 := e.eight_le_length (chainNxt q es)
    have ih := upperWalk_chain hcap hq es (k := k) (by simpa using hk) hes (by omega)
    cases e with
    | options kind len body =>
      obtain ⟨hhead, -⟩ := holds_append.mp he
      have h0 : data off = chainNxt q es := hhead 0 (by simp)
      have h1 : data (off + 1) = len := hhead 1 (by simp)
      have hl : ((WireExt.options kind len body).bytes (chainNxt q es)).length =
          (len.toNat + 1) * 8 := by
        simp [WireExt.bytes]
        omega
      rw [hl] at ih
      show upperWalk data caplen (k + 1) kind.type off = q
      rw [upperWalk, if_pos (isOptions_type kind), if_neg (by omega), h0, h1]
      exact ih
    | fragment reserved flags id =>
      obtain ⟨hhead, -⟩ := holds_append.mp he
      have h0 : data off = chainNxt q es := hhead 0 (by simp)
      show upperWalk data caplen (k + 1) 44 off = q
      rw [upperWalk, if_neg (by decide), if_pos rfl, h0]
      exact ih

/-- The transport header that `parse_transport_layer` finds: the one of the frame behind an empty chain,
none otherwise. -/
theorem parseTransportLayer_chain {f : WireFrame6} (hf : FrameAt f data) {ip : IpInfo}
    (hok : IpOK data f.ipStart ip) :
    ∃ t, (parseTransportLayer data f.bytes.length f.ipStart ip).val = some t ∧
      (f.chain = [] → t.srcPort = srcPortOf f.l4 ∧ t.dstPort = dstPortOf f.l4) ∧
      (f.chain ≠ [] → t.srcPort = 0 ∧ t.dstPort = 0) := by
  have hlen : ip.headerLen = 40 := by rw [hok.headerLen, ipHeaderLen, if_neg hf.ip.not_isV4]
  have hproto : ip.protocol = chainNxt f.l4.protocol f.chain := by
    rw [hok.protocol, ipProtocol, if_neg hf.ip.not_isV4, hf.nxt]
  cases hc : f.chain with
  | nil =>
    have hbytes := f.length_bytes
    have hb := hf.body
    unfold WireFrame6.body at hb
    rw [hc, chainBytes, List.nil_append, ← hlen] at hb
    rw [hc] at hproto
    obtain ⟨hl4, -⟩ := holds_append.mp hb
    have hfit : f.ipStart + ip.headerLen + (f.l4.bytes f.payload.length).length ≤
        f.bytes.length := by
      rw [hbytes, WireFrame6.chainEnd, WireFrame6.segment, List.length_append, hlen]
      omega
    obtain ⟨t, ht, hcar⟩ := parseTransportLayer_wire hl4 hproto hfit
    refine ⟨t, ht, fun _ => ?_, fun h => absurd rfl h⟩
    revert hcar
    cases f.l4 with
    | tcp h => exact fun hcar => ⟨hcar.1, hcar.2.1⟩
    | udp h => exact fun hcar => hcar
  | cons e es =>
    obtain ⟨h6, h17⟩ := type_ne_transport e
    rw [hc] at hproto
    refine ⟨TransportInfo.zero, ?_, fun h => absurd h (by simp), fun _ => ⟨rfl, rfl⟩⟩
    unfold parseTransportLayer
    dsimp only
    rw [if_neg (by rw [hproto]; exact h6), if_neg (by rw [hproto]; exact h17)]
    rfl

/-! ### The record of a frame -/

/-- The header fields of a frame with an accepted transport header, for both IP versions. -/
theorem headers_dissectIp_of_ok {caplen : UInt32} {eth : EthernetInfo} {ip : IpInfo}
    {t : TransportInfo} (hip : (parseIpLayer data caplen.toNat eth.headerLen).val = some ip)
    (hok : IpOK data eth.headerLen ip)
    (ht : (parseTransportLayer data caplen.toNat eth.headerLen ip).val = some t)
    {info : PacketInfo} (hl3 : info.l3Offset.toNat = eth.headerLen % 256) :
    Ensures (fun r => ∃ b, headers r = withTransport t { headers (ipFields eth ip info) with
      protocol := upperProtocol data caplen eth.headerLen, isFragment := b })
      (dissectIp data caplen eth info) := by
  unfold dissectIp
  refine .bind (P := fun r => r = some ip) hip fun r hr => ?_
  subst hr
  refine .bind (ipv6Fields_spec hok hl3) fun i hi => ?_
  refine .bind (headers_icmpFields caplen i) fun j hj => ?_
  unfold dissectTransport
  refine .bind (P := fun r => r = some t) ht fun r hr => ?_
  subst hr
  obtain ⟨b, hb⟩ := hi
  exact ⟨b, (headers_transportFields caplen ip t j).trans (congrArg (withTransport t) (hj.trans hb))⟩

/-- The record of a frame in memory: what the walk over the chain finds, and what the transport parser
finds. -/
theorem dissectRawPacket_chain {f : WireFrame6} {raw : RawPacket} (hf : FrameAt f raw.data)
    (hcap : raw.pkthdr.caplen.toNat = f.bytes.length) (hlen : f.bytes.length ≤ 256)
    (prior : PacketInfo) :
    Ensures (fun o => ∃ r, o = some r ∧ r.l4Offset.toNat = f.ipStart + 40 ∧
      (f.chain.length ≤ 10 → r.protocol = f.l4.protocol) ∧
      (f.chain = [] → r.srcPort = srcPortOf f.l4 ∧ r.dstPort = dstPortOf f.l4) ∧
      (f.chain ≠ [] → r.srcPort = 0 ∧ r.dstPort = 0)) (dissectRawPacket raw prior) := by
  have hbytes := f.length_bytes
  have hseg := eight_le_segment f
  have hend : f.chainEnd = f.ipStart + 40 + (chainBytes f.l4.protocol f.chain).length := rfl
  have hdepth := hf.depth
  have hat := hf.ip
  obtain ⟨ip, hok, hval⟩ : ∃ ip, IpOK raw.data f.ipStart ip ∧
      (parseIpLayer raw.data f.bytes.length f.ipStart).val = some ip := by
    rcases @parseIpLayer_cases raw.data f.bytes.length 0 (fun _ => True) trivial f.ipStart with
      ⟨ip, -, hok, hval, -⟩ | ⟨hno, -, -⟩
    · exact ⟨ip, hok, hval⟩
    · exact absurd (Or.inr hat) hno
  obtain ⟨t, ht, hports, hzero⟩ := parseTransportLayer_chain hf hok
  rw [← hcap] at hdepth hval ht
  have heth := parseEthernetLayer_of_tagDepth hdepth
  have hstart : (ethOf raw.data f.tags.length).headerLen = f.ipStart := rfl
  have hl4 : (UInt8.ofNat (f.ipStart + ip.headerLen)).toNat = f.ipStart + 40 := by
    rw [hok.headerLen, ipHeaderLen, if_neg hat.not_isV4, UInt8.toNat_ofNat']
    omega
  have hproto : f.chain.length ≤ 10 →
      upperProtocol raw.data raw.pkthdr.caplen f.ipStart = f.l4.protocol := by
    intro hk
    have hq : f.l4.protocol = 6 ∨ f.l4.protocol = 17 := by
      cases f.l4 with
      | tcp h => exact Or.inl rfl
      | udp h => exact Or.inr rfl
    rw [upperProtocol, if_neg hat.not_isV4, hf.nxt, Nat.mod_eq_of_lt (by omega)]
    exact upperWalk_chain (by omega) hq f.chain hk hf.body (by omega)
  unfold dissectRawPacket
  refine .bind (P := fun o => o = some (ethOf raw.data f.tags.length)) heth fun o ho => ?_
  subst ho
  unfold dissectFrame
  refine .bind (P := fun i : PacketInfo => i.l3Offset.toNat = f.ipStart % 256)
    (by exact UInt8.toNat_ofNat') fun i hi => ?_
  unfold dissectEtherType
  rw [if_pos (show IsIp (ethOf raw.data f.tags.length).etherType from Or.inr hf.etype)]
  refine .bind (headers_dissectIp_of_ok hval hok ht hi) fun j hj => ?_
  refine .bind (headers_finish raw.pkthdr.caplen j) fun r hr => .pure ⟨r, rfl, ?_⟩
  obtain ⟨b, hj⟩ := hj
  have hh := hr.trans hj
  rw [withTransport_eq] at hh
  have hs : r.srcPort = t.srcPort := congrArg Headers.srcPort hh
  have hd : r.dstPort = t.dstPort := congrArg Headers.dstPort hh
  rw [hs, hd]
  refine ⟨(congrArg (fun h => h.l4Offset.toNat) hh).trans hl4, fun hk => ?_, hports, hzero⟩
  exact (congrArg Headers.protocol hh).trans (hproto hk)

/-- The record `r` points to the transport header of the frame and holds its ports. -/
def TransportFound (f : WireFrame6) (r : PacketInfo) : Prop :=
  r.srcPort = srcPortOf f.l4 ∧ r.dstPort = dstPortOf f.l4 ∧ r.l4Offset.toNat = f.chainEnd

/-- **Extension headers.** For an IPv6 frame of at most 256 bytes that is captured in full, the
dissection reports the ports of the transport header and its position exactly if there is no extension
header. -/
theorem transport_found_iff (f : WireFrame6) (hlen : f.bytes.length ≤ 256) (ts lastTs : Timeval)
    (mem : ℕ → UInt8) (prior : PacketInfo) :
    (∃ r, (dissectRawPacket (packetHandler (f.pkthdr ts) (fun i => f.bytes.getD i 0) mem lastTs)
      prior).val = some r ∧ TransportFound f r) ↔ f.chain = [] := by
  obtain ⟨hb, hcap⟩ := holds_packetHandler hlen (show (f.pkthdr ts).caplen = _ from rfl) lastTs mem
  obtain ⟨r, hr, hl4, -, hports, -⟩ := dissectRawPacket_chain (frameAt_of_holds hb) hcap hlen prior
  rw [hr]
  constructor
  · rintro ⟨r', hr', -, -, hoff⟩
    obtain rfl := Option.some.inj hr'
    rw [hl4, WireFrame6.chainEnd] at hoff
    cases hc : f.chain with
    | nil => rfl
    | cons e es =>
      have h8 := e.eight_le_length (chainNxt f.l4.protocol es)
      rw [hc, chainBytes, List.length_append] at hoff
      omega
  · intro hc
    obtain ⟨hs, hd⟩ := hports hc
    refine ⟨r, rfl, hs, hd, ?_⟩
    rw [hl4, WireFrame6.chainEnd, hc]
    rfl

/-- A TCP segment behind a hop-by-hop header of 8 bytes. -/
def hopByHopFrame : WireFrame6 where
  dstMac := taggedQuery.dstMac
  srcMac := taggedQuery.srcMac
  tags := []
  ip := ⟨0, 0, 64, Vector.replicate 16 1, Vector.replicate 16 2⟩
  chain := [.options .hopByHop 0 #v[5, 2, 0, 0, 1, 0]]
  l4 := .tcp (httpsSegment 1024)
  payload := [1, 2, 3]

theorem hopByHopFrame_transport_missed : hopByHopFrame.bytes.length ≤ 256 ∧
    hopByHopFrame.chain.length < 10 ∧
    ¬ ∃ r, (dissectRawPacket (packetHandler (hopByHopFrame.pkthdr ⟨0, 0⟩)
      (fun i => hopByHopFrame.bytes.getD i 0) (fun _ => 0) ⟨0, 0⟩) PacketInfo.zero).val = some r ∧
      TransportFound hopByHopFrame r := by
  have hlen : hopByHopFrame.bytes.length ≤ 256 := by decide
  obtain ⟨hb, hcap⟩ := holds_packetHandler hlen
    (show (hopByHopFrame.pkthdr ⟨0, 0⟩).caplen = _ from rfl) ⟨0, 0⟩ (fun _ => 0)
  obtain ⟨r, hr, -, -, -, hzero⟩ :=
    dissectRawPacket_chain (frameAt_of_holds hb) hcap hlen PacketInfo.zero
  refine ⟨hlen, by decide, ?_⟩
  rintro ⟨r', hr', hs, -, -⟩
  obtain rfl := Option.some.inj (hr.symm.trans hr')
  rw [(hzero (by simp [hopByHopFrame])).1] at hs
  exact absurd hs (by decide)

/-- A UDP datagram right behind the IPv6 header. -/
def plainFrame : WireFrame6 where
  dstMac := taggedQuery.dstMac
  srcMac := taggedQuery.srcMac
  tags := [vlanTwelve]
  ip := ⟨0, 77, 64, Vector.replicate 16 1, Vector.replicate 16 2⟩
  chain := []
  l4 := .udp ⟨40000, 9999, 0⟩
  payload := [1, 2, 3]

theorem plainFrame_transport_found : plainFrame.bytes.length ≤ 256 ∧
    ∃ r, (dissectRawPacket (packetHandler (plainFrame.pkthdr ⟨0, 0⟩)
      (fun i => plainFrame.bytes.getD i 0) (fun _ => 0) ⟨0, 0⟩) PacketInfo.zero).val = some r ∧
      TransportFound plainFrame r :=
  have hlen : plainFrame.bytes.length ≤ 256 := by decide
  ⟨hlen, (transport_found_iff plainFrame hlen ⟨0, 0⟩ ⟨0, 0⟩ (fun _ => 0) PacketInfo.zero).mpr rfl⟩

end Pacsni.Capture.Wire6
