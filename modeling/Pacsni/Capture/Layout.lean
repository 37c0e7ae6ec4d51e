import Pacsni.Capture.Types

/-! # The bytes of a packet record

`PacketInfo` is a packed record: its fields lie behind each other without gaps, numbers lowest byte
first. `send_packet_info` sends these 1024 bytes and a MAC of 64 bytes over them; the MAC is HMAC
with SHA-512, a parameter here. -/

namespace Pacsni.Capture.Layout

open Pacsni.Lib.Bytes
open Pacsni.Capture.Types

/-- The memory of a `PacketInfo`, in the order of its declaration. -/
def toBytes (p : PacketInfo) : List UInt8 :=
  List.flatten [
    leBytes 8 p.timestamp.toNat,
    p.srcIp.toList,
    p.dstIp.toList,
    leBytes 2 p.srcPort.toNat,
    leBytes 2 p.dstPort.toNat,
    [p.protocol],
    [p.hasTcpAo],
    [p.tcpFlags],
    [p.l3Offset],
    [p.l4Offset],
    leBytes 4 p.tcpSeq.toNat,
    leBytes 4 p.tcpAck.toNat,
    [p.icmpType],
    [p.icmpCode],
    leBytes 4 p.deltaTime.toNat,
    leBytes 2 p.vlanId.toNat,
    [p.ipTtl],
    [p.ipTos],
    leBytes 2 p.tcpWin.toNat,
    leBytes 2 p.ipId.toNat,
    [p.isIpv6],
    [p.isFragment],
    leBytes 2 p.tcpMss.toNat,
    [p.tcpWs],
    [p.ipv6ExtCount],
    leBytes 4 p.ipv6Flow.toNat,
    leBytes 4 p.wireLen.toNat,
    leBytes 4 p.tcpTsVal.toNat,
    leBytes 4 p.tcpTsEcr.toNat,
    [p.tcpSack],
    leBytes 4 p.tcpRtt.toNat,
    leBytes 4 p.vxlanVni.toNat,
    leBytes 4 p.entropyScaled.toNat,
    [p.ntpStratum],
    [p.ntpMode],
    [p.igmpType],
    p.igmpGroup.toList,
    p.lldpChassis.toList,
    p.lldpPort.toList,
    leWords p.tcpSackEdges.toList,
    [p.topByte],
    [p.topByteFreq],
    p.pad.toList,
    leBytes 2 p.payloadLen.toNat,
    p.srcMac.toList,
    p.dstMac.toList,
    p.dnsQuery.toList,
    p.tlsSni.toList,
    p.extraInfo.toList,
    p.appLayerInfo.toList,
    p.payload.toList,
    p.finalPad.toList]

/-- `sizeof(PacketInfo)`, as the `static_assert` of the header file says. -/
theorem length_toBytes (p : PacketInfo) : (toBytes p).length = 1024 := by
  simp [toBytes]

/-- The message that `send_packet_info` writes for a record. -/
def sendPacketInfo (hmac : List UInt8 → Vector UInt8 64) (p : PacketInfo) : List UInt8 :=
  toBytes p ++ (hmac (toBytes p)).toList

end Pacsni.Capture.Layout
