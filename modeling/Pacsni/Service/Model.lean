import Pacsni.Lib.Text

/-! # The packet of the dashboard

`DashboardPacket` and the renderings of `model.rs`. -/

namespace Pacsni.Service.Model

open Pacsni.Lib.Text

/-- `STRUCT_SIZE` -/
def structSize : ℕ := 1024

/-- `HASH_SIZE` -/
def hashSize : ℕ := 64

/-- `TOTAL_MSG_SIZE` -/
def totalMsgSize : ℕ := structSize + hashSize

/-- `DashboardPacket` -/
structure DashboardPacket where
  timestamp : UInt64
  srcIp : Str
  dstIp : Str
  srcPort : UInt16
  dstPort : UInt16
  protocol : Str
  hasTcpAo : Bool
  tcpFlags : UInt8
  l3Offset : UInt8
  l4Offset : UInt8
  tcpSeq : UInt32
  tcpAck : UInt32
  icmpType : UInt8
  icmpCode : UInt8
  deltaTime : UInt32
  vlanId : UInt16
  ipTtl : UInt8
  ipTos : UInt8
  tcpWin : UInt16
  ipId : UInt16
  isIpv6 : Bool
  isFragment : Bool
  tcpMss : UInt16
  tcpWs : UInt8
  ipv6ExtCount : UInt8
  ipv6Flow : UInt32
  wireLen : UInt32
  tcpTsVal : UInt32
  tcpTsEcr : UInt32
  tcpSack : Bool
  tcpRtt : UInt32
  vxlanVni : UInt32
  entropyScaled : UInt32
  ntpStratum : UInt8
  ntpMode : UInt8
  igmpGroup : Str
  igmpType : UInt8
  lldpChassis : Str
  lldpPort : Str
  tcpSackEdges : List UInt32
  topByteInfo : Str
  dnsQuery : Str
  tlsSni : Str
  extraInfo : Str
  appLayerInfo : Str
  payload : List UInt8
  srcMac : Str
  dstMac : Str
deriving DecidableEq

/-- `format!("{}.{}.{}.{}", …)` of four bytes. -/
def quad (a b c d : UInt8) : Str :=
  dec a.toNat ++ ['.'] ++ dec b.toNat ++ ['.'] ++ dec c.toNat ++ ['.'] ++ dec d.toNat

/-- `ip_addr_to_string` -/
def ipAddrToString (ip : Vector UInt8 16) (isV6 : Bool) : Str :=
  if isV6 then
    hex2 ip[0] ++ hex2 ip[1] ++ [':'] ++ hex2 ip[2] ++ hex2 ip[3] ++ [':'] ++
    hex2 ip[4] ++ hex2 ip[5] ++ [':'] ++ hex2 ip[6] ++ hex2 ip[7] ++ [':'] ++
    hex2 ip[8] ++ hex2 ip[9] ++ [':'] ++ hex2 ip[10] ++ hex2 ip[11] ++ [':'] ++
    hex2 ip[12] ++ hex2 ip[13] ++ [':'] ++ hex2 ip[14] ++ hex2 ip[15]
  else quad ip[12] ip[13] ip[14] ip[15]

/-- `mac_addr_to_string` -/
def macAddrToString (mac : Vector UInt8 6) : Str :=
  hex2 mac[0] ++ [':'] ++ hex2 mac[1] ++ [':'] ++ hex2 mac[2] ++ [':'] ++
  hex2 mac[3] ++ [':'] ++ hex2 mac[4] ++ [':'] ++ hex2 mac[5]

/-- `protocol_to_string` -/
def protocolToString (proto : UInt8) (srcPort dstPort : UInt16) : Str :=
  if proto = 1 then "ICMP".toList
  else if proto = 6 then
    if srcPort = 80 ∨ dstPort = 80 then "HTTP".toList
    else if srcPort = 443 ∨ dstPort = 443 then "HTTPS".toList
    else "TCP".toList
  else if proto = 17 then
    if srcPort = 67 ∨ srcPort = 68 ∨ dstPort = 67 ∨ dstPort = 68 then "DHCP".toList
    else if srcPort = 53 ∨ dstPort = 53 then "DNS".toList
    else "UDP".toList
  else if proto = 58 then "ICMPv6".toList
  else if proto = 89 then "OSPF".toList
  else if proto = 200 then "ARP".toList
  else if proto = 202 then "STP".toList
  else "Unknown(".toList ++ dec proto.toNat ++ [')']

/-- `format!("0x{:02x} ({}%)", top_byte, top_freq)` -/
def topByteText (topByte topFreq : UInt8) : Str :=
  "0x".toList ++ hex2 topByte ++ " (".toList ++ dec topFreq.toNat ++ "%)".toList

end Pacsni.Service.Model
