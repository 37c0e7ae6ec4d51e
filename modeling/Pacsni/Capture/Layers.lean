import Pacsni.Capture.Types

/-! # The layer parsers

`parse_ethernet_layer`, `parse_ip_layer` and `parse_transport_layer` of `protocol_dissectors.cpp`,
in the order in which they read the frame. Lengths and offsets are natural numbers: the C++ code
adds small non-negative `int`s and compares them with `caplen`, so nothing wraps. `payload_len` is
the one difference that can be negative. -/

namespace Pacsni.Capture.Layers

open Pacsni.Lib.Trace Pacsni.Lib.CBuffer
open Pacsni.Capture.Types

/-! ### Ethernet -/

/-- The ethertype announces an 802.1Q or 802.1ad tag. -/
def IsTag (etype : UInt16) : Prop := etype = 0x8100 ∨ etype = 0x88a8

instance (etype : UInt16) : Decidable (IsTag etype) := inferInstanceAs (Decidable (_ ∨ _))

/-- The tag loop of `parse_ethernet_layer`. -/
def tagLoop (packet : ℕ → UInt8) (caplen hlen : ℕ) (etype vId : UInt16) : C EthernetInfo :=
  if IsTag etype ∧ hlen + 4 ≤ caplen then do
    let tci ← load16 packet (.read .parseEthernetLayer) hlen
    let etype' ← load16 packet (.read .parseEthernetLayer) (hlen + 2)
    tagLoop packet caplen (hlen + 4) etype' (tci &&& 0x0FFF)
  else pure ⟨0, hlen, etype, vId⟩
termination_by caplen - hlen

/-- `parse_ethernet_layer` -/
def parseEthernetLayer (packet : ℕ → UInt8) (caplen : ℕ) : C (Option EthernetInfo) :=
  if caplen < 14 then pure none
  else do
    let etype ← load16 packet (.read .parseEthernetLayer) 12
    let eth ← tagLoop packet caplen 14 etype 0
    pure (some eth)

/-! ### IP -/

/-- The IPv4 branch of `parse_ip_layer`. -/
def parseIpv4 (packet : ℕ → UInt8) (caplen ethHlen : ℕ) : C (Option IpInfo) :=
  if caplen < ethHlen + 20 then pure none
  else do
    let vhl ← load8 packet (.read .parseIpLayer) ethHlen
    let headerLen := (vhl &&& 0x0f).toNat * 4
    if headerLen < 20 ∨ caplen < ethHlen + headerLen then pure none
    else do
      let src ← loadBytes packet (.read .parseIpLayer) (ethHlen + 12) 4
      let dst ← loadBytes packet (.read .parseIpLayer) (ethHlen + 16) 4
      let protocol ← load8 packet (.read .parseIpLayer) (ethHlen + 9)
      let ttl ← load8 packet (.read .parseIpLayer) (ethHlen + 8)
      let tos ← load8 packet (.read .parseIpLayer) (ethHlen + 1)
      let id ← load16 packet (.read .parseIpLayer) (ethHlen + 4)
      let off ← load16 packet (.read .parseIpLayer) (ethHlen + 6)
      pure (some {
        header := ethHlen
        headerLen := headerLen
        srcIp := writeAt (zeros 16) 12 src
        dstIp := writeAt (zeros 16) 12 dst
        protocol := protocol
        ttl := ttl
        tos := tos
        id := id
        isIpv6 := false
        isFragment := off &&& (0x2000 ||| 0x1fff) ≠ 0 })

/-- The IPv6 branch of `parse_ip_layer`. -/
def parseIpv6 (packet : ℕ → UInt8) (caplen ethHlen : ℕ) : C (Option IpInfo) :=
  if caplen < ethHlen + 40 then pure none
  else do
    let src ← loadBytes packet (.read .parseIpLayer) (ethHlen + 8) 16
    let dst ← loadBytes packet (.read .parseIpLayer) (ethHlen + 24) 16
    let nxt ← load8 packet (.read .parseIpLayer) (ethHlen + 6)
    let hlim ← load8 packet (.read .parseIpLayer) (ethHlen + 7)
    let flow ← load32 packet (.read .parseIpLayer) ethHlen
    pure (some {
      header := ethHlen
      headerLen := 40
      srcIp := writeAt (zeros 16) 0 src
      dstIp := writeAt (zeros 16) 0 dst
      protocol := nxt
      ttl := hlim
      tos := ((flow >>> 20) &&& 0xFF).toUInt8
      id := 0
      isIpv6 := true
      isFragment := false })

/-- `parse_ip_layer` -/
def parseIpLayer (packet : ℕ → UInt8) (caplen ethHlen : ℕ) : C (Option IpInfo) :=
  if caplen < ethHlen + 1 then pure none
  else do
    let b ← load8 packet (.read .parseIpLayer) ethHlen
    let version := (b >>> 4) &&& 0x0f
    if version = 4 then parseIpv4 packet caplen ethHlen
    else if version = 6 then parseIpv6 packet caplen ethHlen
    else pure none

/-! ### Transport -/

/-- The TCP branch of `parse_transport_layer`. Its payload length is taken from the 16-bit field at
offset 2 of the IP header, whatever the IP version is. -/
def parseTcp (packet : ℕ → UInt8) (caplen offset : ℕ) (ip : IpInfo) : C (Option TransportInfo) :=
  if caplen < offset + 20 then pure none
  else do
    let doff ← load8 packet (.read .parseTransportLayer) (offset + 12)
    let hlen := ((doff >>> 4) &&& 0x0f).toNat * 4
    if hlen < 20 ∨ caplen < offset + hlen then pure none
    else do
      let srcPort ← load16 packet (.read .parseTransportLayer) offset
      let dstPort ← load16 packet (.read .parseTransportLayer) (offset + 2)
      let seq ← load32 packet (.read .parseTransportLayer) (offset + 4)
      let ack ← load32 packet (.read .parseTransportLayer) (offset + 8)
      let window ← load16 packet (.read .parseTransportLayer) (offset + 14)
      let flags ← load8 packet (.read .parseTransportLayer) (offset + 13)
      let ipLen ← load16 packet (.read .parseTransportLayer) (ip.header + 2)
      pure (some { TransportInfo.zero with
        srcPort := srcPort
        dstPort := dstPort
        seq := seq
        ack := ack
        window := window
        flags := flags
        payloadPtr := some (offset + hlen)
        payloadLen := (ipLen.toNat : ℤ) - ip.headerLen - hlen })

/-- The UDP branch of `parse_transport_layer`. -/
def parseUdp (packet : ℕ → UInt8) (caplen offset : ℕ) : C (Option TransportInfo) :=
  if caplen < offset + 8 then pure none
  else do
    let srcPort ← load16 packet (.read .parseTransportLayer) offset
    let dstPort ← load16 packet (.read .parseTransportLayer) (offset + 2)
    let udpLen ← load16 packet (.read .parseTransportLayer) (offset + 4)
    pure (some { TransportInfo.zero with
      srcPort := srcPort
      dstPort := dstPort
      payloadPtr := some (offset + 8)
      payloadLen := (udpLen.toNat : ℤ) - 8 })

/-- `parse_transport_layer` -/
def parseTransportLayer (packet : ℕ → UInt8) (caplen ethHlen : ℕ) (ip : IpInfo) :
    C (Option TransportInfo) :=
  let offset := ethHlen + ip.headerLen
  if ip.protocol = 6 then parseTcp packet caplen offset ip
  else if ip.protocol = 17 then parseUdp packet caplen offset
  else pure (some TransportInfo.zero)

end Pacsni.Capture.Layers
