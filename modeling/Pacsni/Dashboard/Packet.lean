import Pacsni.Lib.Net
import Pacsni.Lib.Strings
import Pacsni.Service.Model

/-! # Packets in the dashboard

`DashboardPacket` of the Go server with what it adds to the packets of the service, and the texts it
makes for them. -/

namespace Pacsni.Dashboard.Packet

open Pacsni.Lib.Text Pacsni.Lib.Strings Pacsni.Lib.Net

/-- `DashboardPacket`: the packet that the service sends, and the fields that the server fills in. -/
structure DashboardPacket extends Service.Model.DashboardPacket where
  index : ℕ
  info : Str
  srcMacVendor : Str
  dstMacVendor : Str
  country : Str
  city : Str
  isp : Str
  countryCode : Str

/-- A packet as it comes out of `json.Unmarshal`: the service sends none of the added fields. -/
def received (p : Service.Model.DashboardPacket) : DashboardPacket :=
  { p with
    index := 0, info := [], srcMacVendor := [], dstMacVendor := [], country := [], city := [],
    isp := [], countryCode := [] }

/-! ### MAC vendors -/

/-- `macVendors` -/
def macVendors : List (Str × Str) :=
  [("00:00:00", "Xerox"), ("00:00:0C", "Cisco"), ("00:00:0F", "Fujitsu"), ("00:00:1C", "Intel"),
    ("00:00:2D", "Apple"), ("00:00:33", "IBM"), ("00:00:3F", "Motorola"), ("00:00:5E", "IANA"),
    ("00:00:86", "HP"), ("00:00:A7", "Dell"), ("00:00:C0", "Western Digital"),
    ("00:00:E8", "Samsung"), ("00:01:42", "Microsoft"), ("00:01:4F", "Netgear"),
    ("00:01:6C", "Linksys"), ("00:01:96", "Huawei"), ("00:02:B3", "Google"), ("00:03:93", "Juniper"),
    ("00:04:20", "Nokia"), ("00:05:00", "VMware"), ("00:05:1A", "Broadcom"),
    ("00:05:9A", "D-Link")].map fun e => (e.1.toList, e.2.toList)

/-- `getMacVendor`; MAC addresses are ASCII. -/
def getMacVendor (mac : Str) : Str :=
  if mac.length < 8 then []
  else (macVendors.lookup ((mac.take 8).map Char.toUpper)).getD []

/-! ### The info text -/

/-- A flag of a TCP packet in colour. -/
def flagSpan (color name : String) : Str :=
  "<span style='color:".toList ++ color.toList ++ "; font-weight:800;'>".toList ++ name.toList ++
    "</span>".toList

/-- `fmt.Sprintf("%d -> %d", pkt.SrcPort, pkt.DstPort)` -/
def ports (pkt : DashboardPacket) : Str :=
  dec pkt.srcPort.toNat ++ " -> ".toList ++ dec pkt.dstPort.toNat

/-- The flags of a TCP packet, in the order of the appends. -/
def tcpFlagTexts (flags : UInt8) : List Str :=
  (if flags &&& 0x02 ≠ 0 then [flagSpan "#fbbf24" "SYN"] else []) ++
  (if flags &&& 0x01 ≠ 0 then [flagSpan "#a855f7" "FIN"] else []) ++
  (if flags &&& 0x04 ≠ 0 then [flagSpan "#f43f5e" "RST"] else []) ++
  (if flags &&& 0x10 ≠ 0 then ["ACK".toList] else []) ++
  (if flags &&& 0x08 ≠ 0 then ["PSH".toList] else [])

/-- The TCP branch. The text with the VLAN is overwritten before it is used. -/
def tcpText (pkt : DashboardPacket) : Str :=
  let info := ports pkt
  let info := if 7200 < pkt.entropyScaled then
      info ++ (" <span title='High Entropy (Possible Encryption)' " ++
        "style='color:#ec4899; cursor:help;'>[!]</span>").toList
    else info
  let flags := tcpFlagTexts pkt.tcpFlags
  let info := if flags ≠ [] then info ++ " [".toList ++ joinWith ',' flags ++ "]".toList else info
  info ++ " seq=".toList ++ dec pkt.tcpSeq.toNat ++ " ack=".toList ++ dec pkt.tcpAck.toNat ++
    " win=".toList ++ dec pkt.tcpWin.toNat ++ " len=".toList ++ dec pkt.payload.length

/-- A vendor in parentheses. -/
def vendorText (vendor : Str) : Str :=
  if vendor ≠ [] then " (".toList ++ vendor ++ ")".toList else []

/-- City and ISP in parentheses. -/
def cityISP (pkt : DashboardPacket) : Str :=
  if pkt.city ≠ [] ∨ pkt.isp ≠ [] then
    " (".toList ++ pkt.city ++ ", ".toList ++ pkt.isp ++ ")".toList
  else []

/-- The text for the protocol of the packet. -/
def protocolText (toLower : Str → Str) (pkt : DashboardPacket) : Str :=
  let len := " len=".toList ++ dec pkt.payload.length
  if pkt.protocol = "TCP".toList then tcpText pkt
  else if pkt.protocol = "UDP".toList then ports pkt ++ len
  else if pkt.protocol = "DHCP".toList then "DHCP Message ".toList ++ ports pkt ++ len
  else if pkt.protocol = "HTTP".toList then "HTTP Request/Response ".toList ++ ports pkt ++ len
  else if pkt.protocol = "ICMP".toList then "echo (ping) request".toList
  else if pkt.protocol = "ARP".toList then
    "ARP Request/Reply ".toList ++ pkt.srcIp ++ vendorText pkt.srcMacVendor ++ " -> ".toList ++
      pkt.dstIp ++ vendorText pkt.dstMacVendor
  else if pkt.protocol = "ND".toList then
    "Neighbor Discovery (Solicitation/Advertisement)".toList
  else if pkt.protocol = "ICMPv6".toList then "ICMPv6 Control Message".toList
  else if pkt.protocol = "OSPF".toList then "OSPF Routing Protocol Message".toList
  else if pkt.protocol = "STP".toList then
    "Spanning Tree Protocol Message to ".toList ++ pkt.dstMac ++ vendorText pkt.dstMacVendor ++
      cityISP pkt
  else "protocol ".toList ++ toLower pkt.protocol ++ " message".toList

/-- `getPacketInfo` -/
def getPacketInfo (toLower : Str → Str) (pkt : DashboardPacket) : Str :=
  if pkt.tlsSni ≠ [] then
    "TLS SNI: ".toList ++ pkt.tlsSni ++ " (".toList ++ ports pkt ++ ")".toList
  else if pkt.extraInfo ≠ [] then pkt.extraInfo
  else if pkt.dnsQuery ≠ [] then "DNS Query: ".toList ++ pkt.dnsQuery
  else protocolText toLower pkt

/-! ### Addresses -/

/-- `isPrivateIP` -/
def isPrivateIP (ipStr : Str) : Bool :=
  match parseIP ipStr with
  | none => true
  | some parsed => !isGlobalUnicast parsed || isPrivate parsed

end Pacsni.Dashboard.Packet
