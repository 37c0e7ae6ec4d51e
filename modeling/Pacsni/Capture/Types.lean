import Pacsni.Lib.CBuffer

/-! # The data of the capture process

The records of `packet_types.h` and `protocol_dissectors.h`. Fixed-width fields keep their width,
`char` and `uint8_t` arrays are vectors of bytes. A pointer into the captured frame is an offset
from its first byte; the null pointer is `none`.

`RawPacket.data` is the memory from `raw.data` on. `packet_handler` fills its first
`min caplen MAX_PAYLOAD_SIZE` bytes; the bytes behind them are whatever the memory holds, so every
statement about a raw packet quantifies over them. -/

namespace Pacsni.Capture.Types

open Pacsni.Lib.Trace

/-- `MAX_PAYLOAD_SIZE` -/
def maxPayloadSize : ℕ := 256

/-- `BUFSIZ`, the snap length given to `pcap_open_live`. -/
def bufsiz : ℕ := 8192

/-- `PacketInfo`, the packed record that is sent for every frame. -/
structure PacketInfo where
  timestamp : UInt64
  srcIp : Vector UInt8 16
  dstIp : Vector UInt8 16
  srcPort : UInt16
  dstPort : UInt16
  protocol : UInt8
  hasTcpAo : UInt8
  tcpFlags : UInt8
  l3Offset : UInt8
  l4Offset : UInt8
  tcpSeq : UInt32
  tcpAck : UInt32
  icmpType : UInt8
  icmpCode : UInt8
  deltaTime : UInt32
  vlanId : UInt16
  ipTtl : UInt8
  ipTos : UInt8
  tcpWin : UInt16
  ipId : UInt16
  isIpv6 : UInt8
  isFragment : UInt8
  tcpMss : UInt16
  tcpWs : UInt8
  ipv6ExtCount : UInt8
  ipv6Flow : UInt32
  wireLen : UInt32
  tcpTsVal : UInt32
  tcpTsEcr : UInt32
  tcpSack : UInt8
  tcpRtt : UInt32
  vxlanVni : UInt32
  entropyScaled : UInt32
  ntpStratum : UInt8
  ntpMode : UInt8
  igmpType : UInt8
  igmpGroup : Vector UInt8 4
  lldpChassis : Vector UInt8 32
  lldpPort : Vector UInt8 32
  tcpSackEdges : Vector UInt32 8
  topByte : UInt8
  topByteFreq : UInt8
  pad : Vector UInt8 151
  payloadLen : UInt16
  srcMac : Vector UInt8 6
  dstMac : Vector UInt8 6
  dnsQuery : Vector UInt8 64
  tlsSni : Vector UInt8 64
  extraInfo : Vector UInt8 128
  appLayerInfo : Vector UInt8 128
  payload : Vector UInt8 256
  finalPad : Vector UInt8 8

/-- `n` zero bytes. -/
def zeros (n : ℕ) : Vector UInt8 n := Vector.replicate n 0

/-- The record after `memset(&info, 0, sizeof(info))`. -/
def PacketInfo.zero : PacketInfo where
  timestamp := 0
  srcIp := zeros 16
  dstIp := zeros 16
  srcPort := 0
  dstPort := 0
  protocol := 0
  hasTcpAo := 0
  tcpFlags := 0
  l3Offset := 0
  l4Offset := 0
  tcpSeq := 0
  tcpAck := 0
  icmpType := 0
  icmpCode := 0
  deltaTime := 0
  vlanId := 0
  ipTtl := 0
  ipTos := 0
  tcpWin := 0
  ipId := 0
  isIpv6 := 0
  isFragment := 0
  tcpMss := 0
  tcpWs := 0
  ipv6ExtCount := 0
  ipv6Flow := 0
  wireLen := 0
  tcpTsVal := 0
  tcpTsEcr := 0
  tcpSack := 0
  tcpRtt := 0
  vxlanVni := 0
  entropyScaled := 0
  ntpStratum := 0
  ntpMode := 0
  igmpType := 0
  igmpGroup := zeros 4
  lldpChassis := zeros 32
  lldpPort := zeros 32
  tcpSackEdges := Vector.replicate 8 0
  topByte := 0
  topByteFreq := 0
  pad := zeros 151
  payloadLen := 0
  srcMac := zeros 6
  dstMac := zeros 6
  dnsQuery := zeros 64
  tlsSni := zeros 64
  extraInfo := zeros 128
  appLayerInfo := zeros 128
  payload := zeros 256
  finalPad := zeros 8

/-- `EthernetInfo` -/
structure EthernetInfo where
  header : ℕ
  headerLen : ℕ
  etherType : UInt16
  vlanId : UInt16

/-- `IpInfo` -/
structure IpInfo where
  header : ℕ
  headerLen : ℕ
  srcIp : Vector UInt8 16
  dstIp : Vector UInt8 16
  protocol : UInt8
  ttl : UInt8
  tos : UInt8
  id : UInt16
  isIpv6 : Bool
  isFragment : Bool

/-- `TransportInfo`; `mss`, `ws` and `hasAo` are filled by the older option parser only. -/
structure TransportInfo where
  srcPort : UInt16
  dstPort : UInt16
  seq : UInt32
  ack : UInt32
  window : UInt16
  flags : UInt8
  mss : UInt16
  ws : UInt8
  hasAo : Bool
  payloadPtr : Option ℕ
  payloadLen : ℤ

/-- The record after `memset(&t, 0, sizeof(t))`. -/
def TransportInfo.zero : TransportInfo := ⟨0, 0, 0, 0, 0, 0, 0, 0, false, none, 0⟩

/-- `struct timeval` -/
structure Timeval where
  tvSec : ℤ
  tvUsec : ℤ

/-- `struct pcap_pkthdr` -/
structure PcapPkthdr where
  ts : Timeval
  caplen : UInt32
  len : UInt32

/-- `RawPacket`; `data` is the memory from `raw.data` on. -/
structure RawPacket where
  pkthdr : PcapPkthdr
  data : ℕ → UInt8
  deltaTime : UInt32

/-! ### Program sites -/

/-- The functions that touch the captured frame or a text field. -/
inductive Fn
  | parseEthernetLayer | parseIpLayer | parseTransportLayer | parseTcpOptionsExtended | parseTcpOptions
  | dissectRawPacket | dissectDns | dissectTlsSni | dissectHttp | dissectDhcp | dissectNtp
  | dissectNtpCore | dissectLldp | dissectIgmp | dissectVxlan | dissectAppCommon
  | dissectIcmpDetails | checkIcmpUnreachable | dissectIcmp6Details | dissectOspf | dissectStp
  | dissectGre | checkTcpAnomalies | calculateEntropyScaled | calculateByteStats
deriving DecidableEq, Repr

/-- The text buffers that are written: the `out` argument of a function, or a field it names. -/
inductive Buf
  | out | lldpChassis | lldpPort | appLayerInfo | extraInfo
deriving DecidableEq, Repr

/-- The application dissectors. -/
inductive AppDissector
  | http | vxlan | appCommon | tlsSni | dns | dhcp | ntp
deriving DecidableEq, Repr

/-- A read of the frame, a write to a text buffer, or the window of the frame that an application
dissector is given. -/
inductive Site
  | read (f : Fn)
  | write (f : Fn) (b : Buf)
  | window (d : AppDissector)
deriving DecidableEq, Repr

/-- A computation of the capture process. -/
abbrev C := Traced Site

end Pacsni.Capture.Types
