import Pacsni.Lib.Cursor
import Pacsni.Capture.Layout
import Pacsni.Service.Model

/-! # Decoding a message

The body of the inner loop of `handle_cpp_connection` behind the MAC check: it reads the fields of
the record one after the other from the receive buffer. On the bytes that `send_packet_info` sends it
recovers the record (`decode_message`), and on any buffer it takes exactly one message
(`consumes_decode`). -/

namespace Pacsni.Service.Decode

open Pacsni.Lib.Bytes Pacsni.Lib.Cursor Pacsni.Lib.Text
open Pacsni.Capture.Types Pacsni.Capture.Layout
open Pacsni.Service.Model

variable {n : ℕ}

/-- `String::from_utf8_lossy(&raw).trim_matches('\0').to_string()` -/
def lossyText (raw : Vector UInt8 n) : Str := trimNul (fromUtf8Lossy raw.toList)

/-- The decoding of one message. -/
def decode : Reader DashboardPacket := do
  let timestamp ← getU64Le
  let srcIpRaw ← copyToSlice 16
  let dstIpRaw ← copyToSlice 16
  let srcPort ← getU16Le
  let dstPort ← getU16Le
  let protocol ← getU8
  let hasTcpAo ← getU8
  let tcpFlags ← getU8
  let l3Offset ← getU8
  let l4Offset ← getU8
  let tcpSeq ← getU32Le
  let tcpAck ← getU32Le
  let icmpType ← getU8
  let icmpCode ← getU8
  let deltaTime ← getU32Le
  let vlanId ← getU16Le
  let ipTtl ← getU8
  let ipTos ← getU8
  let tcpWin ← getU16Le
  let ipId ← getU16Le
  let isIpv6 ← getU8
  let isFragment ← getU8
  let tcpMss ← getU16Le
  let tcpWs ← getU8
  let ipv6ExtCount ← getU8
  let ipv6Flow ← getU32Le
  let wireLen ← getU32Le
  let tcpTsVal ← getU32Le
  let tcpTsEcr ← getU32Le
  let tcpSack ← getU8
  let tcpRtt ← getU32Le
  let vxlanVni ← getU32Le
  let entropyScaled ← getU32Le
  let ntpStratum ← getU8
  let ntpMode ← getU8
  let igmpType ← getU8
  let igmpGroupRaw ← copyToSlice 4
  let lldpCRaw ← copyToSlice 32
  let lldpPRaw ← copyToSlice 32
  let sackEdges ← repeatRead getU32Le 8
  let topByte ← getU8
  let topFreq ← getU8
  advance 151
  let payloadLen ← getU16Le
  let srcMacRaw ← copyToSlice 6
  let dstMacRaw ← copyToSlice 6
  let dnsRaw ← copyToSlice 64
  let sniRaw ← copyToSlice 64
  let extraRaw ← copyToSlice 128
  let appRaw ← copyToSlice 128
  let payloadRaw ← copyToSlice 256
  advance 8
  advance hashSize
  return {
    timestamp := timestamp
    srcIp := ipAddrToString srcIpRaw (isIpv6 != 0)
    dstIp := ipAddrToString dstIpRaw (isIpv6 != 0)
    srcPort := srcPort
    dstPort := dstPort
    protocol := protocolToString protocol srcPort dstPort
    hasTcpAo := hasTcpAo != 0
    tcpFlags := tcpFlags
    l3Offset := l3Offset
    l4Offset := l4Offset
    tcpSeq := tcpSeq
    tcpAck := tcpAck
    icmpType := icmpType
    icmpCode := icmpCode
    deltaTime := deltaTime
    vlanId := vlanId
    ipTtl := ipTtl
    ipTos := ipTos
    tcpWin := tcpWin
    ipId := ipId
    isIpv6 := isIpv6 != 0
    isFragment := isFragment != 0
    tcpMss := tcpMss
    tcpWs := tcpWs
    ipv6ExtCount := ipv6ExtCount
    ipv6Flow := ipv6Flow
    wireLen := wireLen
    tcpTsVal := tcpTsVal
    tcpTsEcr := tcpTsEcr
    tcpSack := tcpSack != 0
    tcpRtt := tcpRtt
    vxlanVni := vxlanVni
    entropyScaled := entropyScaled
    ntpStratum := ntpStratum
    ntpMode := ntpMode
    igmpGroup := quad igmpGroupRaw[0]! igmpGroupRaw[1]! igmpGroupRaw[2]! igmpGroupRaw[3]!
    igmpType := igmpType
    lldpChassis := lossyText lldpCRaw
    lldpPort := lossyText lldpPRaw
    tcpSackEdges := sackEdges
    topByteInfo := topByteText topByte topFreq
    dnsQuery := lossyText dnsRaw
    tlsSni := lossyText sniRaw
    extraInfo := lossyText extraRaw
    appLayerInfo := lossyText appRaw
    payload := payloadRaw.toList.take (min payloadLen.toNat 256)
    srcMac := macAddrToString srcMacRaw
    dstMac := macAddrToString dstMacRaw }

/-- The packet that a record decodes to. -/
def shown (p : PacketInfo) : DashboardPacket where
  timestamp := p.timestamp
  srcIp := ipAddrToString p.srcIp (p.isIpv6 != 0)
  dstIp := ipAddrToString p.dstIp (p.isIpv6 != 0)
  srcPort := p.srcPort
  dstPort := p.dstPort
  protocol := protocolToString p.protocol p.srcPort p.dstPort
  hasTcpAo := p.hasTcpAo != 0
  tcpFlags := p.tcpFlags
  l3Offset := p.l3Offset
  l4Offset := p.l4Offset
  tcpSeq := p.tcpSeq
  tcpAck := p.tcpAck
  icmpType := p.icmpType
  icmpCode := p.icmpCode
  deltaTime := p.deltaTime
  vlanId := p.vlanId
  ipTtl := p.ipTtl
  ipTos := p.ipTos
  tcpWin := p.tcpWin
  ipId := p.ipId
  isIpv6 := p.isIpv6 != 0
  isFragment := p.isFragment != 0
  tcpMss := p.tcpMss
  tcpWs := p.tcpWs
  ipv6ExtCount := p.ipv6ExtCount
  ipv6Flow := p.ipv6Flow
  wireLen := p.wireLen
  tcpTsVal := p.tcpTsVal
  tcpTsEcr := p.tcpTsEcr
  tcpSack := p.tcpSack != 0
  tcpRtt := p.tcpRtt
  vxlanVni := p.vxlanVni
  entropyScaled := p.entropyScaled
  ntpStratum := p.ntpStratum
  ntpMode := p.ntpMode
  igmpGroup := quad p.igmpGroup[0]! p.igmpGroup[1]! p.igmpGroup[2]! p.igmpGroup[3]!
  igmpType := p.igmpType
  lldpChassis := lossyText p.lldpChassis
  lldpPort := lossyText p.lldpPort
  tcpSackEdges := p.tcpSackEdges.toList
  topByteInfo := topByteText p.topByte p.topByteFreq
  dnsQuery := lossyText p.dnsQuery
  tlsSni := lossyText p.tlsSni
  extraInfo := lossyText p.extraInfo
  appLayerInfo := lossyText p.appLayerInfo
  payload := p.payload.toList.take (min p.payloadLen.toNat 256)
  srcMac := macAddrToString p.srcMac
  dstMac := macAddrToString p.dstMac

theorem run_decode (p : PacketInfo) (mac : Vector UInt8 64) (rest : List UInt8) :
    decode.run (toBytes p ++ (mac.toList ++ rest)) = some (shown p, rest) := by
  unfold toBytes decode hashSize
  simp only [List.flatten_cons, List.flatten_nil, List.append_assoc, List.nil_append, bind_getU64Le,
    bind_copyToSlice, bind_getU16Le, bind_getU8, bind_getU32Le, bind_repeatRead, bind_advance,
    run_pure]
  rfl

/-- What is sent for a record is decoded again. -/
theorem run_decode_send (hmac : List UInt8 → Vector UInt8 64) (r : PacketInfo) (rest : List UInt8) :
    decode.run (sendPacketInfo hmac r ++ rest) = some (shown r, rest) := by
  unfold sendPacketInfo
  rw [List.append_assoc]
  exact run_decode r _ rest

/-- What is decoded from the message of a record is what the record shows. -/
theorem eq_shown_of_run {hmac : List UInt8 → Vector UInt8 64} {r : PacketInfo} {d : DashboardPacket}
    {rest : List UInt8} (hd : decode.run (sendPacketInfo hmac r ++ rest) = some (d, rest)) :
    d = shown r := by
  rw [run_decode_send] at hd
  exact (congrArg Prod.fst (Option.some.inj hd)).symm

/-! ### What the decoded packet shows -/

/-- The text `t` is what a field holds that is a NUL-free ASCII string padded with zero bytes. -/
def ShowsText (raw : Vector UInt8 n) (t : Str) : Prop :=
  ∀ (s : List UInt8) (k : ℕ), (∀ b ∈ s, IsAscii b ∧ b ≠ 0) → raw.toList = s ++ List.replicate k 0 →
    t = s.map charOf

theorem showsText_lossyText (raw : Vector UInt8 n) : ShowsText raw (lossyText raw) := by
  intro s k hs hraw
  have hascii : ∀ b ∈ raw.toList, IsAscii b := by
    intro b hb
    rw [hraw, List.mem_append] at hb
    rcases hb with hb | hb
    · exact (hs b hb).1
    · rw [(List.mem_replicate.mp hb).2]; decide
  have hnul : '\x00' ∉ s.map charOf := by
    intro h
    obtain ⟨b, hb, hb0⟩ := List.mem_map.mp h
    have hz : b.toNat = 0 := by rw [← toNat_charOf (hs b hb).1, hb0]; rfl
    exact (hs b hb).2 (UInt8.toNat_inj.mp hz)
  unfold lossyText
  rw [fromUtf8Lossy_ascii _ hascii, hraw, List.map_append, List.map_replicate]
  exact trimNul_append_replicate _ k hnul

/-- Four bytes as a dotted decimal. -/
def dotted (bs : List UInt8) : Str := joinWith '.' (bs.map fun b => dec b.toNat)

/-- Bytes as two hexadecimal digits each, with colons. -/
def colonHex (bs : List UInt8) : Str := joinWith ':' (bs.map hex2)

/-- Pairs of bytes as groups of four hexadecimal digits, with colons. -/
def hexGroups (bs : List (UInt8 × UInt8)) : Str := joinWith ':' (bs.map fun b => hex2 b.1 ++ hex2 b.2)

/-- The pairs of bytes of an IPv6 address. -/
def bytePairs (ip : Vector UInt8 16) : List (UInt8 × UInt8) :=
  List.ofFn fun i : Fin 8 => (ip[2 * i.val], ip[2 * i.val + 1])

/-- The text of an address is the dotted decimal of its last four bytes for IPv4, and the hexadecimal
groups of all its bytes for IPv6. -/
def ShowsAddr (ip : Vector UInt8 16) (isV6 : UInt8) (t : Str) : Prop :=
  (isV6 = 0 → t = dotted (ip.toList.drop 12)) ∧ (isV6 ≠ 0 → t = hexGroups (bytePairs ip))

theorem toList_eq_ofFn {α : Type} {n : ℕ} (v : Vector α n) : v.toList = List.ofFn v.get := by
  refine List.ext_getElem (by simp) fun i hi _ => ?_
  rw [Vector.getElem_toList, List.getElem_ofFn, Vector.get_eq_getElem]

theorem dotted_four (v : Vector UInt8 4) : dotted v.toList = quad v[0]! v[1]! v[2]! v[3]! := by
  simp [toList_eq_ofFn, List.ofFn_succ, Vector.get_eq_getElem, dotted, joinWith, quad]

theorem showsAddr_ipAddrToString (ip : Vector UInt8 16) (isV6 : UInt8) :
    ShowsAddr ip isV6 (ipAddrToString ip (isV6 != 0)) := by
  constructor <;> intro h
  · simp [ipAddrToString, h, toList_eq_ofFn, List.ofFn_succ, Vector.get_eq_getElem, dotted, joinWith, quad]
  · simp [ipAddrToString, h, bytePairs, List.ofFn_succ, hexGroups, joinWith]

theorem macAddrToString_eq (mac : Vector UInt8 6) : macAddrToString mac = colonHex mac.toList := by
  simp [macAddrToString, toList_eq_ofFn, List.ofFn_succ, Vector.get_eq_getElem, colonHex, joinWith]

/-- The protocols whose name does not depend on the ports. -/
def protocolNames : List (UInt8 × String) :=
  [(1, "ICMP"), (58, "ICMPv6"), (89, "OSPF"), (200, "ARP"), (202, "STP")]

/-- The text of a protocol number between two ports. A TCP or UDP packet has the name of a service if one of
its ports is that of the service. -/
structure ShowsProtocol (proto : UInt8) (ports : List UInt16) (t : Str) : Prop where
  named : ∀ e ∈ protocolNames, proto = e.1 → t = e.2.toList
  http : proto = 6 → 80 ∈ ports → t = "HTTP".toList
  https : proto = 6 → 80 ∉ ports → 443 ∈ ports → t = "HTTPS".toList
  tcp : proto = 6 → 80 ∉ ports → 443 ∉ ports → t = "TCP".toList
  dhcp : proto = 17 → 67 ∈ ports ∨ 68 ∈ ports → t = "DHCP".toList
  dns : proto = 17 → 67 ∉ ports → 68 ∉ ports → 53 ∈ ports → t = "DNS".toList
  udp : proto = 17 → 67 ∉ ports → 68 ∉ ports → 53 ∉ ports → t = "UDP".toList
  unknown : proto ∉ [6, 17] ++ protocolNames.map Prod.fst →
    t = "Unknown(".toList ++ dec proto.toNat ++ ")".toList

theorem showsProtocol_protocolToString (proto : UInt8) (src dst : UInt16) :
    ShowsProtocol proto [src, dst] (protocolToString proto src dst) := by
  have hmem : ∀ port : UInt16, port ∈ [src, dst] ↔ src = port ∨ dst = port := fun port => by
    rw [List.mem_pair, eq_comm, @eq_comm _ port dst]
  have hdhcp : (67 ∈ [src, dst] ∨ 68 ∈ [src, dst]) ↔ (src = 67 ∨ src = 68 ∨ dst = 67 ∨ dst = 68) := by
    rw [hmem, hmem]
    tauto
  refine ⟨?_, ?_, ?_, ?_, ?_, ?_, ?_, ?_⟩
  · rintro e he rfl
    fin_cases he <;> rfl
  · rintro rfl h
    rw [hmem] at h
    simp [protocolToString, h]
  · rintro rfl h h'
    rw [hmem] at h h'
    simp [protocolToString, h, h']
  · rintro rfl h h'
    rw [hmem] at h h'
    simp [protocolToString, h, h']
  · rintro rfl h
    simp [protocolToString, hdhcp.mp h]
  · rintro rfl h67 h68 h53
    rw [hmem] at h53
    simp [protocolToString, mt hdhcp.mpr (not_or_intro h67 h68), h53]
  · rintro rfl h67 h68 h53
    rw [hmem] at h53
    simp [protocolToString, mt hdhcp.mpr (not_or_intro h67 h68), h53]
  · intro h
    simp only [protocolNames, List.map_cons, List.map_nil, List.cons_append, List.nil_append,
      List.mem_cons, List.not_mem_nil, or_false, not_or] at h
    simp [protocolToString, h]

/-- The text of the most frequent byte: two hexadecimal digits, and its share in percent. -/
def ShowsTopByte (topByte topFreq : UInt8) (t : Str) : Prop :=
  t = "0x".toList ++ [Nat.digitChar (topByte.toNat / 16), Nat.digitChar (topByte.toNat % 16)] ++
    " (".toList ++ dec topFreq.toNat ++ "%)".toList

theorem showsTopByte_topByteText (topByte topFreq : UInt8) :
    ShowsTopByte topByte topFreq (topByteText topByte topFreq) := by
  rw [ShowsTopByte, topByteText, hex2_eq]

/-- The packet shows the record: numbers are the numbers of the record, flags tell whether their byte
is not zero, addresses and texts are those of the record. -/
structure Shows (p : PacketInfo) (d : DashboardPacket) : Prop where
  timestamp : d.timestamp = p.timestamp
  ports : d.srcPort = p.srcPort ∧ d.dstPort = p.dstPort
  offsets : d.l3Offset = p.l3Offset ∧ d.l4Offset = p.l4Offset
  tcp : d.tcpFlags = p.tcpFlags ∧ d.tcpSeq = p.tcpSeq ∧ d.tcpAck = p.tcpAck ∧ d.tcpWin = p.tcpWin
  tcpOptions : d.tcpMss = p.tcpMss ∧ d.tcpWs = p.tcpWs ∧ d.tcpTsVal = p.tcpTsVal ∧
    d.tcpTsEcr = p.tcpTsEcr ∧ d.tcpRtt = p.tcpRtt
  icmp : d.icmpType = p.icmpType ∧ d.icmpCode = p.icmpCode
  link : d.deltaTime = p.deltaTime ∧ d.vlanId = p.vlanId ∧ d.wireLen = p.wireLen
  ip : d.ipTtl = p.ipTtl ∧ d.ipTos = p.ipTos ∧ d.ipId = p.ipId
  ipv6 : d.ipv6ExtCount = p.ipv6ExtCount ∧ d.ipv6Flow = p.ipv6Flow
  app : d.vxlanVni = p.vxlanVni ∧ d.entropyScaled = p.entropyScaled ∧
    d.ntpStratum = p.ntpStratum ∧ d.ntpMode = p.ntpMode ∧ d.igmpType = p.igmpType
  hasTcpAo : d.hasTcpAo = true ↔ p.hasTcpAo ≠ 0
  isIpv6 : d.isIpv6 = true ↔ p.isIpv6 ≠ 0
  isFragment : d.isFragment = true ↔ p.isFragment ≠ 0
  tcpSack : d.tcpSack = true ↔ p.tcpSack ≠ 0
  protocol : ShowsProtocol p.protocol [p.srcPort, p.dstPort] d.protocol
  topByteInfo : ShowsTopByte p.topByte p.topByteFreq d.topByteInfo
  tcpSackEdges : d.tcpSackEdges = [p.tcpSackEdges[0], p.tcpSackEdges[1], p.tcpSackEdges[2],
    p.tcpSackEdges[3], p.tcpSackEdges[4], p.tcpSackEdges[5], p.tcpSackEdges[6], p.tcpSackEdges[7]]
  payload : d.payload = p.payload.toList.take (min p.payloadLen.toNat 256)
  srcIp : ShowsAddr p.srcIp p.isIpv6 d.srcIp
  dstIp : ShowsAddr p.dstIp p.isIpv6 d.dstIp
  srcMac : d.srcMac = colonHex p.srcMac.toList
  dstMac : d.dstMac = colonHex p.dstMac.toList
  igmpGroup : d.igmpGroup = dotted p.igmpGroup.toList
  lldpChassis : ShowsText p.lldpChassis d.lldpChassis
  lldpPort : ShowsText p.lldpPort d.lldpPort
  dnsQuery : ShowsText p.dnsQuery d.dnsQuery
  tlsSni : ShowsText p.tlsSni d.tlsSni
  extraInfo : ShowsText p.extraInfo d.extraInfo
  appLayerInfo : ShowsText p.appLayerInfo d.appLayerInfo

theorem toList_eq_of_eight {α : Type} (v : Vector α 8) :
    v.toList = [v[0], v[1], v[2], v[3], v[4], v[5], v[6], v[7]] := by
  simp [toList_eq_ofFn, List.ofFn_succ, Vector.get_eq_getElem]

theorem shows_shown (p : PacketInfo) : Shows p (shown p) where
  timestamp := rfl
  ports := ⟨rfl, rfl⟩
  offsets := ⟨rfl, rfl⟩
  tcp := ⟨rfl, rfl, rfl, rfl⟩
  tcpOptions := ⟨rfl, rfl, rfl, rfl, rfl⟩
  icmp := ⟨rfl, rfl⟩
  link := ⟨rfl, rfl, rfl⟩
  ip := ⟨rfl, rfl, rfl⟩
  ipv6 := ⟨rfl, rfl⟩
  app := ⟨rfl, rfl, rfl, rfl, rfl⟩
  hasTcpAo := bne_iff_ne
  isIpv6 := bne_iff_ne
  isFragment := bne_iff_ne
  tcpSack := bne_iff_ne
  protocol := showsProtocol_protocolToString p.protocol p.srcPort p.dstPort
  topByteInfo := showsTopByte_topByteText p.topByte p.topByteFreq
  tcpSackEdges := toList_eq_of_eight p.tcpSackEdges
  payload := rfl
  srcIp := showsAddr_ipAddrToString p.srcIp p.isIpv6
  dstIp := showsAddr_ipAddrToString p.dstIp p.isIpv6
  srcMac := macAddrToString_eq p.srcMac
  dstMac := macAddrToString_eq p.dstMac
  igmpGroup := (dotted_four p.igmpGroup).symm
  lldpChassis := showsText_lossyText p.lldpChassis
  lldpPort := showsText_lossyText p.lldpPort
  dnsQuery := showsText_lossyText p.dnsQuery
  tlsSni := showsText_lossyText p.tlsSni
  extraInfo := showsText_lossyText p.extraInfo
  appLayerInfo := showsText_lossyText p.appLayerInfo

/-- **Round trip of the wire format.** A message has 1088 bytes, and its decoding takes exactly these
from the buffer and shows the record that was sent. -/
theorem decode_message (hmac : List UInt8 → Vector UInt8 64) (p : PacketInfo) (rest : List UInt8) :
    (sendPacketInfo hmac p).length = totalMsgSize ∧
      ∃ d, decode.run (sendPacketInfo hmac p ++ rest) = some (d, rest) ∧ Shows p d := by
  refine ⟨?_, shown p, run_decode_send hmac p rest, shows_shown p⟩
  unfold sendPacketInfo
  rw [List.length_append, length_toBytes, Vector.length_toList]
  rfl

/-- The record of an HTTPS segment from `10.0.0.1` to `10.0.0.2`. -/
def httpsRecord : PacketInfo :=
  { PacketInfo.zero with
    srcIp := #v[0, 0, 0, 0, 0, 0, 0, 0, 0, 0, 0, 0, 10, 0, 0, 1]
    dstIp := #v[0, 0, 0, 0, 0, 0, 0, 0, 0, 0, 0, 0, 10, 0, 0, 2]
    srcPort := 40000
    dstPort := 443
    protocol := 6
    topByte := 0x41
    topByteFreq := 50 }

/-- It is decoded from a buffer with three more bytes. -/
theorem decode_message_https :
    (sendPacketInfo (fun _ => Vector.replicate 64 0) httpsRecord).length = totalMsgSize ∧
      ∃ d, decode.run (sendPacketInfo (fun _ => Vector.replicate 64 0) httpsRecord ++ [1, 2, 3]) =
          some (d, [1, 2, 3]) ∧
        Shows httpsRecord d ∧ d.protocol = "HTTPS".toList ∧ d.srcIp = "10.0.0.1".toList ∧
        d.topByteInfo = "0x41 (50%)".toList := by
  obtain ⟨hlen, d, hrun, hshows⟩ :=
    decode_message (fun _ => Vector.replicate 64 0) httpsRecord [1, 2, 3]
  refine ⟨hlen, d, hrun, hshows, hshows.protocol.https rfl (by decide) (by decide), ?_, ?_⟩
  · rw [hshows.srcIp.1 rfl]
    decide
  · rw [hshows.topByteInfo]
    decide

/-! ### Any buffer -/

/-- The decoding takes exactly one message from any buffer that holds one. -/
theorem consumes_decode : Consumes totalMsgSize decode := by
  unfold decode
  refine .step consumes_getU64Le fun _ => .step (consumes_copyToSlice 16) fun _ => ?_
  refine .step (consumes_copyToSlice 16) fun _ => .step consumes_getU16Le fun _ => ?_
  refine .step consumes_getU16Le fun _ => .step consumes_getU8 fun _ => ?_
  refine .step consumes_getU8 fun _ => .step consumes_getU8 fun _ => ?_
  refine .step consumes_getU8 fun _ => .step consumes_getU8 fun _ => ?_
  refine .step consumes_getU32Le fun _ => .step consumes_getU32Le fun _ => ?_
  refine .step consumes_getU8 fun _ => .step consumes_getU8 fun _ => ?_
  refine .step consumes_getU32Le fun _ => .step consumes_getU16Le fun _ => ?_
  refine .step consumes_getU8 fun _ => .step consumes_getU8 fun _ => ?_
  refine .step consumes_getU16Le fun _ => .step consumes_getU16Le fun _ => ?_
  refine .step consumes_getU8 fun _ => .step consumes_getU8 fun _ => ?_
  refine .step consumes_getU16Le fun _ => .step consumes_getU8 fun _ => ?_
  refine .step consumes_getU8 fun _ => .step consumes_getU32Le fun _ => ?_
  refine .step consumes_getU32Le fun _ => .step consumes_getU32Le fun _ => ?_
  refine .step consumes_getU32Le fun _ => .step consumes_getU8 fun _ => ?_
  refine .step consumes_getU32Le fun _ => .step consumes_getU32Le fun _ => ?_
  refine .step consumes_getU32Le fun _ => .step consumes_getU8 fun _ => ?_
  refine .step consumes_getU8 fun _ => .step consumes_getU8 fun _ => ?_
  refine .step (consumes_copyToSlice 4) fun _ => .step (consumes_copyToSlice 32) fun _ => ?_
  refine .step (consumes_copyToSlice 32) fun _ => ?_
  refine .step (consumes_repeatRead consumes_getU32Le 8) fun _ => ?_
  refine .step consumes_getU8 fun _ => .step consumes_getU8 fun _ => ?_
  refine .step (consumes_advance 151) fun _ => .step consumes_getU16Le fun _ => ?_
  refine .step (consumes_copyToSlice 6) fun _ => .step (consumes_copyToSlice 6) fun _ => ?_
  refine .step (consumes_copyToSlice 64) fun _ => .step (consumes_copyToSlice 64) fun _ => ?_
  refine .step (consumes_copyToSlice 128) fun _ => .step (consumes_copyToSlice 128) fun _ => ?_
  refine .step (consumes_copyToSlice 256) fun _ => .step (consumes_advance 8) fun _ => ?_
  exact .step (consumes_advance hashSize) fun _ => .pure _

end Pacsni.Service.Decode
