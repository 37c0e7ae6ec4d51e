import Pacsni.Capture.Types

/-! # The protocol dissectors

The dissectors of `protocol_dissectors.cpp` and `packet_capture.cpp`. A dissector gets the offset
`p` of its data in the frame and the length `l` it is told to trust; text goes to a buffer `o` of
which it may use `m` bytes. The loops are recursions on the cursor of the C++ loop.

Constant texts are written by `say`; the functions that only choose a text are written as a choice
of text (`none` leaves the buffer alone). -/

namespace Pacsni.Capture.Dissectors

open Pacsni.Lib.Bytes Pacsni.Lib.Trace Pacsni.Lib.CBuffer
open Pacsni.Capture.Types

variable {n : ℕ} (packet : ℕ → UInt8)

/-- `snprintf(o, m, …)` of a text, or nothing. -/
def say (f : Fn) (o : Vector UInt8 n) (m : ℕ) : Option (List UInt8) → C (Vector UInt8 n)
  | none => pure o
  | some text => snprintf (.write f .out) o 0 m text

/-! ### ICMP, OSPF, STP, GRE -/

/-- `check_icmp_unreachable` -/
def checkIcmpUnreachable (t c : UInt8) (o : Vector UInt8 n) (m : ℕ) : C (Vector UInt8 n) :=
  let reasons := ["Net", "Host", "Proto", "Port", "Frag", "SrcRoute", "DestNet", "DestHost"]
  say .checkIcmpUnreachable o m <|
    if t = 3 ∧ c < 8 then some (ascii ("ICMP Unreachable: " ++ reasons.getD c.toNat "")) else none

/-- The text of `dissect_icmp_details`. -/
def icmpText (t c : UInt8) : String :=
  if t = 0 then "Echo Reply"
  else if t = 3 then
    if c = 0 then "Net Unreachable"
    else if c = 1 then "Host Unreachable"
    else if c = 2 then "Proto Unreachable"
    else if c = 3 then "Port Unreachable"
    else if c = 4 then "Frag Required (DF set)"
    else "Dest Unreachable"
  else if t = 8 then "Echo Request"
  else if t = 11 then "Time Exceeded (TTL)"
  else "ICMP Info"

/-- `dissect_icmp_details` -/
def dissectIcmpDetails (t c : UInt8) (o : Vector UInt8 n) (m : ℕ) : C (Vector UInt8 n) :=
  say .dissectIcmpDetails o m (some (ascii (icmpText t c)))

/-- The text of `dissect_icmp6_details`. -/
def icmp6Text (t : UInt8) : String :=
  if t = 128 then "Echo Request"
  else if t = 129 then "Echo Reply"
  else if t = 1 then "Dest Unreachable"
  else if t = 2 then "Packet Too Big"
  else if t = 3 then "Time Exceeded"
  else if t = 133 then "Router Solicit"
  else if t = 134 then "Router Advert"
  else if t = 135 then "Neighbor Solicit"
  else if t = 136 then "Neighbor Advert"
  else "ICMPv6 Info"

/-- `dissect_icmp6_details` -/
def dissectIcmp6Details (t : UInt8) (o : Vector UInt8 n) (m : ℕ) : C (Vector UInt8 n) :=
  say .dissectIcmp6Details o m (some (ascii (icmp6Text t)))

/-- `dissect_ospf` -/
def dissectOspf (p : ℕ) (l : ℤ) (o : Vector UInt8 n) (m : ℕ) : C (Vector UInt8 n) :=
  let t := ["?", "Hello", "DbDesc", "LSReq", "LSUpdate", "LSAck"]
  if l < 24 then pure o
  else do
    let type ← load8 packet (.read .dissectOspf) (p + 1)
    if 0 < type ∧ type < 6 then do
      let v ← load8 packet (.read .dissectOspf) p
      say .dissectOspf o m <|
        some (ascii "OSPFv" ++ decimal v.toNat ++ ascii (" " ++ t.getD type.toNat ""))
    else pure o

/-- `dissect_stp` -/
def dissectStp (p : ℕ) (l : ℤ) (o : Vector UInt8 n) (m : ℕ) : C (Vector UInt8 n) :=
  if l < 35 then pure o
  else do
    let type ← load8 packet (.read .dissectStp) (p + 4)
    say .dissectStp o m <|
      some (ascii ("STP " ++ if type = 0x00 then "Config" else if type = 0x80 then "TCN" else "BPDU"))

/-- `dissect_gre` -/
def dissectGre (p : ℕ) (l : ℤ) (o : Vector UInt8 n) (m : ℕ) : C (Vector UInt8 n) :=
  if l < 4 then pure o
  else do
    let inner ← load16 packet (.read .dissectGre) (p + 2)
    say .dissectGre o m (some (ascii "GRE Tunnel (Inner: 0x" ++ hex4 inner ++ ascii ")"))

/-! ### Application text -/

/-- `dissect_app_common` -/
def dissectAppCommon (p : ℕ) (l : ℤ) (o : Vector UInt8 n) (m : ℕ) : C (Vector UInt8 n) :=
  let rd := Site.read .dissectAppCommon
  if l < 4 then pure o
  else do
    let head ← (if 4 < l then loadBytes packet rd p 4 else pure [])
    if 7 < l ∧ head = ascii "SSH-" then do
      let line ← copyLine packet rd (.write .dissectAppCommon .out) p l.toNat m 0
      touch (.write .dissectAppCommon .out) line.length 1
      pure (writeAt o 0 (line ++ [0]))
    else if 4 < l ∧ (head = ascii "220 " ∨ head = ascii "HELO" ∨ head = ascii "EHLO") then
      say .dissectAppCommon o m (some (ascii "SMTP Control"))
    else if 4 < l ∧ (head = ascii "USER" ∨ head = ascii "PASS" ∨ head = ascii "220 ") then
      say .dissectAppCommon o m (some (ascii "FTP Control"))
    else do
      let b0 ← load8 packet rd p
      let b1 ← (if b0 = 0xff then load8 packet rd (p + 1) else pure 0)
      if b0 = 0xff ∧ b1 = 0xfb then say .dissectAppCommon o m (some (ascii "Telnet Negotiation"))
      else if b0 &&& 0xc0 = 0x80 ∧ 12 < l then
        say .dissectAppCommon o m (some (ascii "QUIC Long Header"))
      else pure o

/-- The request methods `dissect_http` looks for. -/
def httpMethods : List (List UInt8) :=
  [ascii "GET ", ascii "POST ", ascii "PUT ", ascii "DELETE ", ascii "HEAD ", ascii "OPTIONS "]

/-- The first of the methods that the data start with. -/
def findMethod (p : ℕ) (l : ℤ) : List (List UInt8) → C (Option (List UInt8))
  | [] => pure none
  | ml :: rest =>
    if (ml.length : ℤ) < l then do
      let w ← loadBytes packet (.read .dissectHttp) p ml.length
      if w = ml then pure (some ml) else findMethod p l rest
    else findMethod p l rest

/-- `dissect_http`: the request line, then the `Host` header if there is one. -/
def dissectHttp (p : ℕ) (l : ℤ) (o : Vector UInt8 n) (m : ℕ) : C (Vector UInt8 n) :=
  let rd := Site.read .dissectHttp
  if l < 10 then pure o
  else do
    match ← findMethod packet p l httpMethods with
    | none => pure o
    | some _ => do
      let line ← copyLine packet rd (.write .dissectHttp .out) p l.toNat m 0
      touch (.write .dissectHttp .out) line.length 1
      let o := writeAt o 0 (line ++ [0])
      match ← memmem packet rd p l.toNat (ascii "\r\nHost: ") with
      | none => pure o
      | some hp => do
        let host ← loadStr packet rd 32 (hp + 8)
        let len := (cString o).length
        snprintf (.write .dissectHttp .out) o len (m - len)
          (ascii " [Host: " ++ host ++ ascii "]")

/-- The inner loop of `dissect_dns`: at most `k` more bytes of a label. `len` is the number of bytes
behind the DNS header, `text` is `out[0 .. out_pos)`. -/
def dnsLabel (p len m : ℕ) : ℕ → ℕ → List UInt8 → C (ℕ × List UInt8)
  | 0, pos, text => pure (pos, text)
  | k + 1, pos, text =>
    if pos < len ∧ text.length < m - 1 then do
      let b ← load8 packet (.read .dissectDns) (p + 12 + pos)
      touch (.write .dissectDns .out) text.length 1
      dnsLabel p len m k (pos + 1) (text ++ [b])
    else pure (pos, text)

theorem le_dnsLabel (p len m : ℕ) : ∀ (k pos : ℕ) (text : List UInt8),
    pos ≤ (dnsLabel packet p len m k pos text).val.1
  | 0, _, _ => le_rfl
  | k + 1, pos, text => by
    unfold dnsLabel
    split_ifs
    · exact (Nat.le_succ pos).trans (le_dnsLabel p len m k (pos + 1) _)
    · exact le_rfl

/-- The outer loop of `dissect_dns`. -/
def dnsLoop (p len m pos : ℕ) (text : List UInt8) : C (List UInt8) :=
  if _h : pos < len ∧ text.length < m - 1 then do
    let b ← load8 packet (.read .dissectDns) (p + 12 + pos)
    if b = 0 ∨ 63 < b then pure text
    else do
      let ⟨r, _hr⟩ ← (dnsLabel packet p len m b.toNat (pos + 1) text).attach
      if r.2.length < m - 1 then do
        touch (.write .dissectDns .out) r.2.length 1
        dnsLoop p len m r.1 (r.2 ++ ascii ".")
      else dnsLoop p len m r.1 r.2
  else pure text
termination_by len - pos
decreasing_by
  all_goals
    have := le_dnsLabel packet p len m b.toNat (pos + 1) text
    rw [← _hr] at this
    omega

/-- `dissect_dns` -/
def dissectDns (p : ℕ) (len : ℤ) (out : Vector UInt8 n) (outMax : ℕ) : C (Vector UInt8 n) :=
  if len < 12 then pure out
  else do
    let text ← dnsLoop packet p (len - 12).toNat outMax 0 []
    let out := writeAt out 0 text
    if 0 < text.length then do
      let i := text.length - if text.getLast? = some 46 then 1 else 0
      touch (.write .dissectDns .out) i 1
      pure (writeAt out i [0])
    else pure out

/-- The extension loop of `dissect_tls_sni`: the host name, if one is found. -/
def sniLoop (p extEnd pos : ℕ) (out : Vector UInt8 n) (outMax : ℕ) : C (Vector UInt8 n) :=
  let rd := Site.read .dissectTlsSni
  if pos + 4 ≤ extEnd then do
    let extType ← load16 packet rd (p + pos)
    let extLen ← load16 packet rd (p + pos + 2)
    if extType = 0 ∧ pos + 4 + 5 ≤ extEnd then do
      let nameLen ← load16 packet rd (p + pos + 4 + 3)
      if pos + 4 + 5 + nameLen.toNat ≤ extEnd then do
        let name ← loadBytes packet rd (p + pos + 4 + 5) (min nameLen.toNat (outMax - 1))
        touch (.write .dissectTlsSni .out) 0 (name.length + 1)
        pure (writeAt out 0 (name ++ [0]))
      else sniLoop p extEnd (pos + 4 + extLen.toNat) out outMax
    else sniLoop p extEnd (pos + 4 + extLen.toNat) out outMax
  else pure out
termination_by extEnd - pos

/-- `dissect_tls_sni` -/
def dissectTlsSni (p : ℕ) (len : ℤ) (out : Vector UInt8 n) (outMax : ℕ) : C (Vector UInt8 n) :=
  let rd := Site.read .dissectTlsSni
  if len < 43 then pure out
  else do
    let b0 ← load8 packet rd p
    let b5 ← (if b0 = 0x16 then load8 packet rd (p + 5) else pure 0)
    if b0 ≠ 0x16 ∨ b5 ≠ 0x01 then pure out
    else do
      let sidLen ← load8 packet rd (p + 43)
      let pos := 43 + 1 + sidLen.toNat
      if len ≤ pos + 2 then pure out
      else do
        let csLen ← load16 packet rd (p + pos)
        let pos := pos + 2 + csLen.toNat
        if len ≤ pos + 1 then pure out
        else do
          let compLen ← load8 packet rd (p + pos)
          let pos := pos + 1 + compLen.toNat
          if len ≤ pos + 2 then pure out
          else do
            let extTotalLen ← load16 packet rd (p + pos)
            let pos := pos + 2
            sniLoop packet p (min (pos + extTotalLen.toNat) len.toNat) pos out outMax

/-! ### DHCP, NTP, VXLAN, IGMP, LLDP -/

/-- The option loop of `dissect_dhcp`, on the `len` bytes behind the magic cookie. -/
def dhcpLoop (p len i : ℕ) (o : Vector UInt8 n) (m : ℕ) : C (Vector UInt8 n) :=
  let rd := Site.read .dissectDhcp
  let ts := ["?", "DISCOVER", "OFFER", "REQUEST", "DECLINE", "ACK", "NAK", "RELEASE", "INFORM"]
  if i < len then do
    let c ← load8 packet rd (p + 240 + i)
    if c = 255 then pure o
    else if c = 0 then dhcpLoop p len (i + 1) o m
    else if len ≤ i + 1 then pure o
    else do
      let optLen ← load8 packet rd (p + 240 + (i + 1))
      if len < i + 2 + optLen.toNat then pure o
      else if c = 53 ∧ optLen = 1 then do
        let t ← load8 packet rd (p + 240 + (i + 2))
        say .dissectDhcp o m <|
          if 0 < t ∧ t < 9 then some (ascii ("DHCP " ++ ts.getD t.toNat "")) else none
      else dhcpLoop p len (i + 2 + optLen.toNat) o m
  else pure o
termination_by len - i

/-- `dissect_dhcp` -/
def dissectDhcp (p : ℕ) (l : ℤ) (o : Vector UInt8 n) (m : ℕ) : C (Vector UInt8 n) :=
  if l < 240 then pure o
  else do
    let cookie ← loadBytes packet (.read .dissectDhcp) (p + 236) 4
    if cookie ≠ [0x63, 0x82, 0x53, 0x63] then pure o
    else dhcpLoop packet p (l - 240).toNat 0 o m

/-- The mode names of the two NTP dissectors. -/
def ntpModes : List String := ["Res", "SymA", "SymP", "Cli", "Srv", "Bcast", "Ctrl", "Priv"]

/-- `dissect_ntp` -/
def dissectNtp (p : ℕ) (l : ℤ) (i : PacketInfo) : C PacketInfo :=
  if l < 48 then pure i
  else do
    let b0 ← load8 packet (.read .dissectNtp) p
    let b1 ← load8 packet (.read .dissectNtp) (p + 1)
    let mode := b0 &&& 0x07
    let text := ascii ("NTP " ++ ntpModes.getD (mode.toNat % 8) "" ++ " (Stratum ") ++
      decimal b1.toNat ++ ascii ")"
    let info ← snprintf (.write .dissectNtp .appLayerInfo) i.appLayerInfo 0 128 text
    pure { i with ntpMode := mode, ntpStratum := b1, appLayerInfo := info }

/-- `dissect_ntp_core`: appends to what `dissect_ntp` has written. -/
def dissectNtpCore (p : ℕ) (l : ℤ) (i : PacketInfo) : C PacketInfo :=
  if l < 48 then pure i
  else do
    let b0 ← load8 packet (.read .dissectNtpCore) p
    let b1 ← load8 packet (.read .dissectNtpCore) (p + 1)
    let mode := b0 &&& 0x07
    let text := ascii (" [Mode: " ++ ntpModes.getD (mode.toNat % 8) "" ++ ", Stratum: ") ++
      decimal b1.toNat ++ ascii "]"
    let len := (cString i.appLayerInfo).length
    let info ← snprintf (.write .dissectNtpCore .appLayerInfo) i.appLayerInfo len (128 - len) text
    pure { i with appLayerInfo := info }

/-- `dissect_vxlan` -/
def dissectVxlan (p : ℕ) (l : ℤ) (i : PacketInfo) : C PacketInfo :=
  if l < 8 then pure i
  else do
    let b4 ← load8 packet (.read .dissectVxlan) (p + 4)
    let b5 ← load8 packet (.read .dissectVxlan) (p + 5)
    let b6 ← load8 packet (.read .dissectVxlan) (p + 6)
    let vni := (b4.toUInt32 <<< 16) ||| (b5.toUInt32 <<< 8) ||| b6.toUInt32
    let info ← snprintf (.write .dissectVxlan .appLayerInfo) i.appLayerInfo 0 128
      (ascii "VXLAN VNI: " ++ decimal vni.toNat)
    pure { i with vxlanVni := vni, appLayerInfo := info }

/-- The name of an IGMP message type. -/
def igmpText (type : UInt8) : String :=
  if type = 0x11 then "Query"
  else if type = 0x12 then "v1 Report"
  else if type = 0x16 then "v2 Report"
  else if type = 0x17 then "v2 Leave"
  else if type = 0x22 then "v3 Report"
  else "?"

/-- `dissect_igmp` -/
def dissectIgmp (p : ℕ) (l : ℤ) (i : PacketInfo) : C PacketInfo :=
  if l < 8 then pure i
  else do
    let type ← load8 packet (.read .dissectIgmp) p
    let group ← loadBytes packet (.read .dissectIgmp) (p + 4) 4
    let group := writeAt i.igmpGroup 0 group
    let info ← snprintf (.write .dissectIgmp .extraInfo) i.extraInfo 0 128
      (ascii ("IGMP " ++ igmpText type ++ " Group ") ++ decimal group[0]!.toNat ++ ascii "." ++
        decimal group[1]!.toNat ++ ascii "." ++ decimal group[2]!.toNat ++ ascii "." ++
        decimal group[3]!.toNat)
    pure { i with igmpType := type, igmpGroup := group, extraInfo := info }

/-- `memcpy(name, p + 1, sl); name[sl] = '\0'` of `dissect_lldp`, with `sl = min (len - 1) 31`. For
an empty TLV `sl` is `-1` and the copy is of `2^64 - 1` bytes. This is undefined behaviour, and there is no
defined record behind it: `none`. -/
def lldpName (b : Buf) (p len : ℕ) (name : Vector UInt8 32) : C (Option (Vector UInt8 32)) :=
  if len = 0 then do
    let _ ← (⟨(), [⟨.read .dissectLldp, p + 1, 2 ^ 64 - 1⟩]⟩ : C Unit)
    touch (.write .dissectLldp b) 0 (2 ^ 64 - 1)
    pure none
  else do
    let bs ← loadBytes packet (.read .dissectLldp) (p + 1) (min (len - 1) 31)
    touch (.write .dissectLldp b) 0 (bs.length + 1)
    pure (some (writeAt name 0 (bs ++ [0])))

/-- The TLV loop of `dissect_lldp`. -/
def lldpLoop (p l o : ℕ) (i : PacketInfo) : C (Option PacketInfo) :=
  if o + 2 ≤ l then do
    let tlv ← load16 packet (.read .dissectLldp) (p + o)
    let type := tlv >>> 9
    let len := (tlv &&& 0x01FF).toNat
    if l < o + 2 + len then pure (some i)
    else if type = 1 then do
      match ← lldpName packet .lldpChassis (p + o + 2) len i.lldpChassis with
      | none => pure none
      | some c => lldpLoop p l (o + 2 + len) { i with lldpChassis := c }
    else if type = 2 then do
      match ← lldpName packet .lldpPort (p + o + 2) len i.lldpPort with
      | none => pure none
      | some c => lldpLoop p l (o + 2 + len) { i with lldpPort := c }
    else if type = 0 then pure (some i)
    else lldpLoop p l (o + 2 + len) i
  else pure (some i)
termination_by l - o

/-- `dissect_lldp` -/
def dissectLldp (p : ℕ) (l : ℤ) (i : PacketInfo) : C (Option PacketInfo) := do
  match ← lldpLoop packet p l.toNat 0 i with
  | none => pure none
  | some i => do
    let info ← snprintf (.write .dissectLldp .appLayerInfo) i.appLayerInfo 0 128
      (ascii "LLDP " ++ cString i.lldpChassis ++ ascii "/" ++ cString i.lldpPort)
    pure (some { i with appLayerInfo := info })

/-! ### TCP options and anomalies -/

/-- `memcpy(i.tcp_sack_edges, …)`: the copied words are host words, lowest byte first. -/
def copyEdges (edges : Vector UInt32 8) (src : List UInt8) : Vector UInt32 8 :=
  Vector.ofFn fun k => if 4 * k + 4 ≤ src.length
    then UInt32.ofNat (leNat ((src.drop (4 * k)).take 4)) else edges[k]

/-- The effect of one option of kind `kind` and length `l` at `q` in `parse_tcp_options_extended`. -/
def tcpOption (q : ℕ) (kind l : UInt8) (i : PacketInfo) : C PacketInfo :=
  let rd := Site.read .parseTcpOptionsExtended
  if kind = 2 ∧ l = 4 then do
    let v ← load16 packet rd (q + 2)
    pure { i with tcpMss := v }
  else if kind = 3 ∧ l = 3 then do
    let v ← load8 packet rd (q + 2)
    pure { i with tcpWs := v }
  else if kind = 4 ∧ l = 2 then pure { i with tcpSack := 1 }
  else if kind = 5 ∧ 10 ≤ l then do
    let blocks := min ((l.toNat - 2) / 8) 4
    let v ← loadBytes packet rd (q + 2) (blocks * 8)
    pure { i with tcpSackEdges := copyEdges i.tcpSackEdges v }
  else if kind = 8 ∧ l = 10 then do
    let v ← load32 packet rd (q + 2)
    let e ← load32 packet rd (q + 6)
    pure { i with tcpTsVal := v, tcpTsEcr := e }
  else if kind = 29 then pure { i with hasTcpAo := 1 }
  else pure i

/-- The option loop of `parse_tcp_options_extended` on the `len` bytes at `opts`. -/
def tcpOptionsLoop (opts len k : ℕ) (i : PacketInfo) : C PacketInfo :=
  let rd := Site.read .parseTcpOptionsExtended
  if k < len then do
    let kind ← load8 packet rd (opts + k)
    if kind = 0 then pure i
    else if kind = 1 then tcpOptionsLoop opts len (k + 1) i
    else if len ≤ k + 1 then pure i
    else do
      let l ← load8 packet rd (opts + k + 1)
      if _h : l < 2 ∨ len < k + l.toNat then pure i
      else do
        let i ← tcpOption packet (opts + k) kind l i
        tcpOptionsLoop opts len (k + l.toNat) i
  else pure i
termination_by len - k
decreasing_by
  · omega
  · have : 2 ≤ l.toNat := Nat.not_lt.mp (not_or.mp _h).1
    omega

/-- `parse_tcp_options_extended` -/
def parseTcpOptionsExtended (o h : ℕ) (i : PacketInfo) : C PacketInfo :=
  if h ≤ 20 then pure i else tcpOptionsLoop packet (o + 20) (h - 20) 0 i

/-- The effect of one option of kind `kind` and length `len` at `q` in `parse_tcp_options`. -/
def transportOption (q : ℕ) (kind len : UInt8) (t : TransportInfo) : C TransportInfo :=
  let rd := Site.read .parseTcpOptions
  if kind = 2 ∧ len = 4 then do
    let v ← load16 packet rd (q + 2)
    pure { t with mss := v }
  else if kind = 3 ∧ len = 3 then do
    let v ← load8 packet rd (q + 2)
    pure { t with ws := v }
  else if kind = 29 then pure { t with hasAo := true }
  else pure t

/-- The option loop of `parse_tcp_options` on the `optLen` bytes at `options`. -/
def transportOptionsLoop (options optLen i : ℕ) (t : TransportInfo) : C TransportInfo :=
  let rd := Site.read .parseTcpOptions
  if i < optLen then do
    let kind ← load8 packet rd (options + i)
    if kind = 0 then pure t
    else if kind = 1 then transportOptionsLoop options optLen (i + 1) t
    else if optLen ≤ i + 1 then pure t
    else do
      let len ← load8 packet rd (options + i + 1)
      if _h : len < 2 ∨ optLen < i + len.toNat then pure t
      else do
        let t ← transportOption packet (options + i) kind len t
        transportOptionsLoop options optLen (i + len.toNat) t
  else pure t
termination_by optLen - i
decreasing_by
  · omega
  · have : 2 ≤ len.toNat := Nat.not_lt.mp (not_or.mp _h).1
    omega

/-- `parse_tcp_options`, the older option parser; nothing calls it. -/
def parseTcpOptions (offset tcpHlen : ℕ) (t : TransportInfo) : C TransportInfo :=
  if tcpHlen ≤ 20 then pure t else transportOptionsLoop packet (offset + 20) (tcpHlen - 20) 0 t

/-- `check_tcp_anomalies` -/
def checkTcpAnomalies (info : PacketInfo) (t : TransportInfo) : C PacketInfo :=
  let plain := t.flags &&& (0x02 ||| 0x01 ||| 0x04) = 0
  if t.window = 0 ∧ t.flags &&& 0x10 ≠ 0 ∧ plain then do
    let e ← say .checkTcpAnomalies info.extraInfo 128 (some (ascii "TCP ZeroWindow"))
    pure { info with extraInfo := e }
  else if info.payloadLen = 1 ∧ t.seq + 1 = info.tcpSeq ∧ plain then do
    let e ← say .checkTcpAnomalies info.extraInfo 128 (some (ascii "TCP Keep-Alive"))
    pure { info with extraInfo := e }
  else pure info

/-! ### Statistics of the captured bytes -/

/-- `calculate_entropy_scaled`, in double precision. -/
def calculateEntropyScaled (d l : ℕ) : C UInt32 :=
  if l = 0 then pure 0
  else do
    let bs ← loadBytes packet (.read .calculateEntropyScaled) d l
    let e := (List.range 256).foldl (fun (e : Float) v =>
      let f := bs.count (UInt8.ofNat v)
      if 0 < f then
        let p := Float.ofNat f / Float.ofNat l
        e - p * p.log2
      else e) 0.0
    pure (e * 1000).toUInt32

/-- The state of the loop of `calculate_byte_stats`. -/
structure ByteStats where
  counts : UInt8 → ℕ
  maxF : ℕ
  topByte : UInt8

/-- One iteration of the loop of `calculate_byte_stats`. -/
def byteStep (st : ByteStats) (b : UInt8) : ByteStats :=
  let counts := fun v => if v = b then st.counts v + 1 else st.counts v
  if st.maxF < counts b then ⟨counts, counts b, b⟩ else { st with counts := counts }

/-- `calculate_byte_stats` -/
def calculateByteStats (d l : ℕ) (i : PacketInfo) : C PacketInfo :=
  if l = 0 then pure i
  else do
    let bs ← loadBytes packet (.read .calculateByteStats) d l
    let st := bs.foldl byteStep ⟨fun _ => 0, 0, i.topByte⟩
    pure { i with topByte := st.topByte, topByteFreq := UInt8.ofNat (st.maxF * 100 / l) }

end Pacsni.Capture.Dissectors
