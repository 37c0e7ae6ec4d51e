import Pacsni.Capture.Layers
import Pacsni.Capture.Dissectors

/-! # From the pcap callback to the packet record

`packet_handler` stores a frame as a `RawPacket`; a worker runs `dissect_raw_packet` on it. The body
of `dissect_raw_packet` is cut at its own branches: the IP branch (with the IPv6 extension walk, the
ICMP fields and the transport layer), the ARP, STP and LLDP branches, and the statistics at the end.
The application dispatch is a choice of a call (`appCall`), which is then run (`runApp`).

The result is `none` behind undefined behaviour, where no record is defined (see
`Dissectors.lldpName`). -/

namespace Pacsni.Capture.Raw

open Pacsni.Lib.Trace Pacsni.Lib.CBuffer
open Pacsni.Capture.Types Pacsni.Capture.Layers Pacsni.Capture.Dissectors

/-- `(int)x` -/
def asInt (x : UInt32) : ℤ := (x.toNat : ℤ).bmod (2 ^ 32)

theorem asInt_of_lt {x : UInt32} (h : x.toNat < 2 ^ 31) : asInt x = x.toNat := by
  unfold asInt
  rw [Int.bmod_eq_of_le] <;> omega

variable (packet : ℕ → UInt8)

/-! ### Application dispatch -/

/-- A call of an application dissector: its data pointer and the length it is told. -/
structure AppCall where
  dissector : AppDissector
  ptr : ℕ
  len : ℤ

/-- One of the two ports is `k`. -/
def OnPort (info : PacketInfo) (k : UInt16) : Prop := info.srcPort = k ∨ info.dstPort = k

instance (info : PacketInfo) (k : UInt16) : Decidable (OnPort info k) :=
  inferInstanceAs (Decidable (_ ∨ _))

/-- The dissector that the TCP branch chooses. -/
def tcpDissector (info : PacketInfo) : AppDissector :=
  if OnPort info 80 then .http
  else if OnPort info 4789 then .vxlan
  else if info.tlsSni[0] = 0 then .appCommon
  else .tlsSni

/-- The application call that `dissect_raw_packet` makes, if any. -/
def appCall (info : PacketInfo) (t : TransportInfo) : Option AppCall :=
  let ptr := t.payloadPtr.getD 0
  if info.protocol = 6 then
    if t.payloadPtr.isSome ∧ 0 < t.payloadLen then some ⟨tcpDissector info, ptr, t.payloadLen⟩
    else none
  else if info.protocol = 17 then
    if OnPort info 53 ∧ t.payloadPtr.isSome then some ⟨.dns, ptr, t.payloadLen⟩
    else if OnPort info 67 ∨ OnPort info 68 then some ⟨.dhcp, ptr, t.payloadLen⟩
    else if OnPort info 123 then some ⟨.ntp, ptr, t.payloadLen⟩
    else none
  else none

/-- The call itself. -/
def runApp (c : AppCall) (info : PacketInfo) : C PacketInfo :=
  match c.dissector with
  | .http => do
    let e ← dissectHttp packet c.ptr c.len info.extraInfo 128
    pure { info with extraInfo := e }
  | .vxlan => dissectVxlan packet c.ptr c.len info
  | .appCommon => do
    let e ← dissectAppCommon packet c.ptr c.len info.extraInfo 128
    pure { info with extraInfo := e }
  | .tlsSni => do
    let e ← dissectTlsSni packet c.ptr c.len info.tlsSni 64
    pure { info with tlsSni := e }
  | .dns => do
    let e ← dissectDns packet c.ptr c.len info.dnsQuery 64
    pure { info with dnsQuery := e }
  | .dhcp => do
    let e ← dissectDhcp packet c.ptr c.len info.extraInfo 128
    pure { info with extraInfo := e }
  | .ntp => do
    let info ← dissectNtp packet c.ptr c.len info
    dissectNtpCore packet c.ptr c.len info

/-- The application dispatch. The window that the chosen dissector is given is recorded. -/
def dispatchApp (t : TransportInfo) (info : PacketInfo) : C PacketInfo :=
  match appCall info t with
  | some c => do
    touch (.window c.dissector) c.ptr c.len.toNat
    runApp packet c info
  | none => pure info

/-! ### The IP branch -/

/-- The fields taken from the IP header. -/
def ipFields (eth : EthernetInfo) (ip : IpInfo) (info : PacketInfo) : PacketInfo :=
  { info with
    srcIp := ip.srcIp
    dstIp := ip.dstIp
    protocol := ip.protocol
    l4Offset := UInt8.ofNat (eth.headerLen + ip.headerLen)
    ipTtl := ip.ttl
    ipTos := ip.tos
    ipId := ip.id
    isIpv6 := if ip.isIpv6 then 1 else 0
    isFragment := if ip.isFragment then 1 else 0 }

/-- The extension header loop, with `k` rounds left before `ipv6_ext_count` reaches 10. -/
def extLoop (caplen : UInt32) : ℕ → UInt8 → ℕ → PacketInfo → C (UInt8 × PacketInfo)
  | 0, nxt, _, info => pure (nxt, info)
  | k + 1, nxt, v6Off, info =>
    let rd := Site.read .dissectRawPacket
    if nxt = 0 ∨ nxt = 43 ∨ nxt = 60 then
      if asInt caplen < v6Off + 8 then pure (nxt, info)
      else do
        let nxt' ← load8 packet rd v6Off
        let len ← load8 packet rd (v6Off + 1)
        extLoop caplen k nxt' (v6Off + (len.toNat + 1) * 8)
          { info with ipv6ExtCount := info.ipv6ExtCount + 1 }
    else if nxt = 44 then do
      let nxt' ← load8 packet rd v6Off
      extLoop caplen k nxt' (v6Off + 8)
        { info with isFragment := 1, ipv6ExtCount := info.ipv6ExtCount + 1 }
    else pure (nxt, info)

/-- The IPv6 part: flow label and extension headers. -/
def ipv6Fields (caplen : UInt32) (ip : IpInfo) (info : PacketInfo) : C PacketInfo :=
  let rd := Site.read .dissectRawPacket
  if info.isIpv6 ≠ 0 then do
    let flow ← load32 packet rd ip.header
    let nxt ← load8 packet rd (ip.header + 6)
    let r ← extLoop packet caplen 10 nxt (info.l3Offset.toNat + 40)
      { info with ipv6Flow := flow &&& 0x0FFFFF }
    pure { r.2 with protocol := r.1 }
  else pure info

/-- The ICMP and ICMPv6 fields. -/
def icmpFields (caplen : UInt32) (info : PacketInfo) : C PacketInfo :=
  let rd := Site.read .dissectRawPacket
  let l4 := info.l4Offset.toNat
  if info.protocol = 1 ∧ l4 + 8 ≤ caplen.toNat then do
    let t ← load8 packet rd l4
    let c ← load8 packet rd (l4 + 1)
    let e ← dissectIcmpDetails t c info.extraInfo 128
    let e ← checkIcmpUnreachable t c e 128
    pure { info with icmpType := t, icmpCode := c, extraInfo := e }
  else if info.protocol = 58 ∧ l4 + 8 ≤ caplen.toNat then do
    let t ← load8 packet rd l4
    let c ← load8 packet rd (l4 + 1)
    let e ← dissectIcmp6Details t info.extraInfo 128
    pure { info with icmpType := t, icmpCode := c, extraInfo := e }
  else pure info

/-- The TCP fields, options and anomalies. -/
def tcpFields (ip : IpInfo) (t : TransportInfo) (info : PacketInfo) : C PacketInfo :=
  if info.protocol = 6 then do
    let info := { info with
      tcpFlags := t.flags, tcpSeq := t.seq, tcpAck := t.ack, tcpWin := t.window }
    let o := info.l3Offset.toNat + ip.headerLen
    let h := match t.payloadPtr with
      | some ptr => ptr - o
      | none => 20
    let info ← parseTcpOptionsExtended packet o h info
    checkTcpAnomalies info t
  else pure info

/-- OSPF, GRE and IGMP, on the bytes from `l4_offset` to the end of the capture. -/
def l4Protocols (caplen : UInt32) (info : PacketInfo) : C PacketInfo := do
  let p := info.l4Offset.toNat
  let l := asInt (caplen - info.l4Offset.toUInt32)
  let info ← (if info.protocol = 89 then do
      let e ← dissectOspf packet p l info.extraInfo 128
      pure { info with extraInfo := e }
    else pure info)
  let info ← (if info.protocol = 47 then do
      let e ← dissectGre packet p l info.extraInfo 128
      pure { info with extraInfo := e }
    else pure info)
  if info.protocol = 2 then dissectIgmp packet p l info else pure info

/-- Everything behind a successful `parse_transport_layer`. -/
def transportFields (caplen : UInt32) (ip : IpInfo) (t : TransportInfo) (info : PacketInfo) :
    C PacketInfo := do
  let info ← tcpFields packet ip t { info with srcPort := t.srcPort, dstPort := t.dstPort }
  let info ← dispatchApp packet t info
  l4Protocols packet caplen info

/-- The transport layer and everything behind it. -/
def dissectTransport (caplen : UInt32) (ethHlen : ℕ) (ip : IpInfo) (info : PacketInfo) :
    C PacketInfo := do
  match ← parseTransportLayer packet caplen.toNat ethHlen ip with
  | none => pure info
  | some t => transportFields packet caplen ip t info

/-- The IP branch of `dissect_raw_packet`. -/
def dissectIp (caplen : UInt32) (eth : EthernetInfo) (info : PacketInfo) : C PacketInfo := do
  match ← parseIpLayer packet caplen.toNat eth.headerLen with
  | none => pure info
  | some ip => do
    let info ← ipv6Fields packet caplen ip (ipFields eth ip info)
    let info ← icmpFields packet caplen info
    dissectTransport packet caplen eth.headerLen ip info

/-! ### The other branches -/

/-- The ARP branch: the two protocol addresses. -/
def dissectArp (caplen : UInt32) (eth : EthernetInfo) (info : PacketInfo) : C PacketInfo :=
  let rd := Site.read .dissectRawPacket
  let info := { info with protocol := 200 }
  if eth.headerLen + 28 ≤ caplen.toNat then do
    let pro ← load16 packet rd (eth.headerLen + 2)
    let hln ← load8 packet rd (eth.headerLen + 4)
    let pln ← load8 packet rd (eth.headerLen + 5)
    if pro = 0x0800 ∧ pln = 4 then do
      let arpPtr := eth.headerLen + 8 + 2 * hln.toNat
      let src ← loadBytes packet rd arpPtr 4
      let dst ← loadBytes packet rd (arpPtr + 4 + hln.toNat) 4
      pure { info with srcIp := writeAt info.srcIp 12 src, dstIp := writeAt info.dstIp 12 dst }
    else pure info
  else pure info

/-- The spanning tree branch: ethertype at most 1500 and the bridge group address. -/
def dissectLlc (caplen : UInt32) (eth : EthernetInfo) (info : PacketInfo) : C PacketInfo := do
  let dhost ← loadBytes packet (.read .dissectRawPacket) 0 6
  if dhost = [0x01, 0x80, 0xC2, 0x00, 0x00, 0x00] then do
    let info := { info with protocol := 202 }
    let e ← dissectStp packet eth.headerLen (asInt (caplen - UInt32.ofNat eth.headerLen))
      info.extraInfo 128
    pure { info with extraInfo := e }
  else pure info

/-- The captured bytes and their statistics. -/
def finish (caplen : UInt32) (info : PacketInfo) : C PacketInfo := do
  let captureLen := min caplen.toNat maxPayloadSize
  let entropy ← calculateEntropyScaled packet 0 captureLen
  let info ← calculateByteStats packet 0 captureLen
    { info with payloadLen := UInt16.ofNat captureLen, entropyScaled := entropy }
  let bytes ← loadBytes packet (.read .dissectRawPacket) 0 captureLen
  pure { info with payload := writeAt info.payload 0 bytes }

/-- The statistics, unless the process has died. -/
def finishAlive (caplen : UInt32) : Option PacketInfo → C (Option PacketInfo)
  | none => pure none
  | some info => do
    let info ← finish packet caplen info
    pure (some info)

/-- The fields that do not depend on the ethertype. -/
def initInfo (raw : RawPacket) (eth : EthernetInfo) : C PacketInfo := do
  let shost ← loadBytes raw.data (.read .dissectRawPacket) 6 6
  let dhost ← loadBytes raw.data (.read .dissectRawPacket) 0 6
  pure { PacketInfo.zero with
    timestamp := UInt64.ofNat
      ((raw.pkthdr.ts.tvSec * 1000000 + raw.pkthdr.ts.tvUsec) % 2 ^ 64).toNat
    deltaTime := raw.deltaTime
    srcMac := writeAt (zeros 6) 0 shost
    dstMac := writeAt (zeros 6) 0 dhost
    l3Offset := UInt8.ofNat eth.headerLen
    vlanId := eth.vlanId
    wireLen := raw.pkthdr.len }

/-- The ethertype of IPv4 or IPv6. -/
def IsIp (etype : UInt16) : Prop := etype = 0x0800 ∨ etype = 0x86DD

instance (etype : UInt16) : Decidable (IsIp etype) := inferInstanceAs (Decidable (_ ∨ _))

/-- The branch on the ethertype. -/
def dissectEtherType (caplen : UInt32) (eth : EthernetInfo) (info : PacketInfo) :
    C (Option PacketInfo) :=
  if IsIp eth.etherType then do
    let info ← dissectIp packet caplen eth info
    finishAlive packet caplen (some info)
  else if eth.etherType = 0x0806 then do
    let info ← dissectArp packet caplen eth info
    finishAlive packet caplen (some info)
  else if eth.etherType ≤ 1500 then do
    let info ← dissectLlc packet caplen eth info
    finishAlive packet caplen (some info)
  else if eth.etherType = 0x88cc then do
    let r ← dissectLldp packet eth.headerLen (asInt (caplen - UInt32.ofNat eth.headerLen)) info
    finishAlive packet caplen r
  else pure (some info)

/-- Everything behind a successful `parse_ethernet_layer`. -/
def dissectFrame (raw : RawPacket) (eth : EthernetInfo) : C (Option PacketInfo) := do
  let info ← initInfo raw eth
  dissectEtherType raw.data raw.pkthdr.caplen eth info

/-- `dissect_raw_packet`; `info` is what the variable of the caller holds before the call. -/
def dissectRawPacket (raw : RawPacket) (info : PacketInfo) : C (Option PacketInfo) := do
  match ← parseEthernetLayer raw.data raw.pkthdr.caplen.toNat with
  | none => pure (some info)
  | some eth => dissectFrame raw eth

/-! ### The callback -/

/-- The number of bytes `packet_handler` copies. -/
def copiedLen (pkthdr : PcapPkthdr) : ℕ := min pkthdr.caplen.toNat maxPayloadSize

/-- The raw packet that `packet_handler` queues. `mem` is what the memory of the local variable `raw`
and behind it held before, `lastTs` the time stamp of the frame before this one. -/
def packetHandler (pkthdr : PcapPkthdr) (frame mem : ℕ → UInt8) (lastTs : Timeval) : RawPacket where
  pkthdr := pkthdr
  data i := if i < copiedLen pkthdr then frame i else mem i
  deltaTime :=
    if lastTs.tvSec = 0 then 0
    else UInt32.ofNat (((pkthdr.ts.tvSec - lastTs.tvSec) * 1000000 +
      (pkthdr.ts.tvUsec - lastTs.tvUsec)) % 2 ^ 32).toNat

end Pacsni.Capture.Raw
