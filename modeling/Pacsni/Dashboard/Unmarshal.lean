import Pacsni.Lib.JsonRead
import Pacsni.Lib.Utf8
import Pacsni.Service.Lines
import Pacsni.Dashboard.Packet

/-! # Packets from JSON

`json.Unmarshal` into the struct of the dashboard. A member goes to the field whose tag it has, or else
to the first one whose tag is the same up to case; members that name no field are skipped, a later
member for a field replaces an earlier one, and one member that does not fit its field is an error for
the whole text. The object that the service writes gives the packet that it has been made from, but for
the four fields that only the service knows (`unmarshal_toJson`).

`null`, which leaves a field as it is, and numbers with a sign, a fraction or an exponent are refused here;
the lines of the service have none of them. -/

namespace Pacsni.Dashboard.Unmarshal

open Pacsni.Lib.Text Pacsni.Lib.Json Pacsni.Lib.JsonRead Pacsni.Lib.Utf8
open Pacsni.Service.Lines Pacsni.Dashboard.Packet

/-! ### Fields -/

/-- The fields of the struct. -/
inductive Field
  | timestamp | srcIp | dstIp | srcPort | dstPort | srcMac | dstMac | protocol | hasTcpAo | tcpFlags
  | l3Offset | l4Offset | tcpSeq | tcpAck | vlanId | ipTtl | ipTos | tcpWin | ipId | isIpv6
  | isFragment | tcpMss | tcpWs | ipv6ExtCount | ipv6Flow | wireLen | tcpTsVal | tcpTsEcr | tcpSack
  | tcpRtt | vxlanVni | entropyScaled | ntpStratum | ntpMode | igmpGroup | igmpType | lldpChassis
  | lldpPort | tcpSackEdges | topByteInfo | dnsQuery | tlsSni | extraInfo | payload | index | info
  | srcMacVendor | dstMacVendor | country | city | isp | countryCode
deriving DecidableEq

/-- The fields in their order. -/
def fields : List Field :=
  [.timestamp, .srcIp, .dstIp, .srcPort, .dstPort, .srcMac, .dstMac, .protocol, .hasTcpAo, .tcpFlags,
    .l3Offset, .l4Offset, .tcpSeq, .tcpAck, .vlanId, .ipTtl, .ipTos, .tcpWin, .ipId, .isIpv6,
    .isFragment, .tcpMss, .tcpWs, .ipv6ExtCount, .ipv6Flow, .wireLen, .tcpTsVal, .tcpTsEcr, .tcpSack,
    .tcpRtt, .vxlanVni, .entropyScaled, .ntpStratum, .ntpMode, .igmpGroup, .igmpType, .lldpChassis,
    .lldpPort, .tcpSackEdges, .topByteInfo, .dnsQuery, .tlsSni, .extraInfo, .payload, .index, .info,
    .srcMacVendor, .dstMacVendor, .country, .city, .isp, .countryCode]

/-- The tag of a field. -/
def Field.tag : Field → Str
  | .timestamp => "timestamp".toList
  | .srcIp => "src_ip".toList
  | .dstIp => "dst_ip".toList
  | .srcPort => "src_port".toList
  | .dstPort => "dst_port".toList
  | .srcMac => "src_mac".toList
  | .dstMac => "dst_mac".toList
  | .protocol => "protocol".toList
  | .hasTcpAo => "has_tcp_ao".toList
  | .tcpFlags => "tcp_flags".toList
  | .l3Offset => "l3_offset".toList
  | .l4Offset => "l4_offset".toList
  | .tcpSeq => "tcp_seq".toList
  | .tcpAck => "tcp_ack".toList
  | .vlanId => "vlan_id".toList
  | .ipTtl => "ip_ttl".toList
  | .ipTos => "ip_tos".toList
  | .tcpWin => "tcp_win".toList
  | .ipId => "ip_id".toList
  | .isIpv6 => "is_ipv6".toList
  | .isFragment => "is_fragment".toList
  | .tcpMss => "tcp_mss".toList
  | .tcpWs => "tcp_ws".toList
  | .ipv6ExtCount => "ipv6_ext_count".toList
  | .ipv6Flow => "ipv6_flow".toList
  | .wireLen => "wire_len".toList
  | .tcpTsVal => "tcp_ts_val".toList
  | .tcpTsEcr => "tcp_ts_ecr".toList
  | .tcpSack => "tcp_sack".toList
  | .tcpRtt => "tcp_rtt".toList
  | .vxlanVni => "vxlan_vni".toList
  | .entropyScaled => "entropy_scaled".toList
  | .ntpStratum => "ntp_stratum".toList
  | .ntpMode => "ntp_mode".toList
  | .igmpGroup => "igmp_group".toList
  | .igmpType => "igmp_type".toList
  | .lldpChassis => "lldp_chassis".toList
  | .lldpPort => "lldp_port".toList
  | .tcpSackEdges => "tcp_sack_edges".toList
  | .topByteInfo => "top_byte_info".toList
  | .dnsQuery => "dns_query".toList
  | .tlsSni => "tls_sni".toList
  | .extraInfo => "extra_info".toList
  | .payload => "payload".toList
  | .index => "index".toList
  | .info => "info".toList
  | .srcMacVendor => "src_mac_vendor".toList
  | .dstMacVendor => "dst_mac_vendor".toList
  | .country => "country".toList
  | .city => "city".toList
  | .isp => "isp".toList
  | .countryCode => "country_code".toList

/-- `foldName`: a name without the difference of case; `foldRune` is what becomes of a character that is
not ASCII. -/
def foldName (foldRune : Char → Char) (name : Str) : Str :=
  name.map fun c => if AsciiChar c then c.toUpper else foldRune c

variable (foldRune : Char → Char)

/-- The field that a member names. -/
def resolve (name : Str) : Option Field :=
  (fields.find? fun f => f.tag = name).or
    (fields.find? fun f => foldName foldRune f.tag = foldName foldRune name)

/-! ### Values -/

/-- An unsigned number below `bound`. -/
def number (bound : ℕ) : Node → Option ℕ
  | .num n => if n < bound then some n else none
  | _ => none

def uint8 (v : Node) : Option UInt8 := (number (2 ^ 8) v).map UInt8.ofNat
def uint16 (v : Node) : Option UInt16 := (number (2 ^ 16) v).map UInt16.ofNat
def uint32 (v : Node) : Option UInt32 := (number (2 ^ 32) v).map UInt32.ofNat
def uint64 (v : Node) : Option UInt64 := (number (2 ^ 64) v).map UInt64.ofNat

/-- A number for a signed field of 64 bits. -/
def int (v : Node) : Option ℕ := number (2 ^ 63) v

def bool : Node → Option Bool
  | .bool b => some b
  | _ => none

def string : Node → Option Str
  | .str s => some s
  | _ => none

def uint32s : Node → Option (List UInt32)
  | .arr vs => vs.mapM uint32
  | _ => none

/-- The groups of six bits of base64. -/
def value64 (c : Char) : Option ℕ :=
  "ABCDEFGHIJKLMNOPQRSTUVWXYZabcdefghijklmnopqrstuvwxyz0123456789+/".toList.findIdx? (· = c)

/-- The bytes of groups of six bits. Bits that do not fill a byte are dropped. -/
def octets : List ℕ → List UInt8
  | a :: b :: c :: d :: rest =>
    UInt8.ofNat (a * 4 + b / 16) :: UInt8.ofNat (b % 16 * 16 + c / 4) ::
      UInt8.ofNat (c % 4 * 64 + d) :: octets rest
  | [a, b, c] => [UInt8.ofNat (a * 4 + b / 16), UInt8.ofNat (b % 16 * 16 + c / 4)]
  | [a, b] => [UInt8.ofNat (a * 4 + b / 16)]
  | _ => []

/-- A text without up to two characters of padding at its end. -/
def stripPadding (s : Str) : Str :=
  if s.getLast? = some '=' then
    if s.dropLast.getLast? = some '=' then s.dropLast.dropLast else s.dropLast
  else s

/-- `base64.StdEncoding.DecodeString`: newlines are dropped, and the text is made of full quanta. -/
def decodeString (s : Str) : Option (List UInt8) :=
  let s := s.filter fun c => c ≠ '\n' ∧ c ≠ '\r'
  if s.length % 4 = 0 then ((stripPadding s).mapM value64).map octets else none

/-- Bytes are an array of numbers, or a string in base64. -/
def bytes : Node → Option (List UInt8)
  | .arr vs => vs.mapM uint8
  | .str s => decodeString s
  | _ => none

/-! ### Objects -/

/-- The values for a field. -/
def values (ms : List (Str × Node)) (f : Field) : List Node :=
  (ms.filter fun m => resolve foldRune m.1 = some f).map Prod.snd

/-- What the field holds in the end; `zero` if no member is for it. -/
def field {α : Type} (ms : List (Str × Node)) (f : Field) (read : Node → Option α) (zero : α) :
    Option α := do
  let xs ← (values foldRune ms f).mapM read
  some (xs.getLastD zero)

/-- The struct for an object. -/
def ofMembers (ms : List (Str × Node)) : Option DashboardPacket := do
  let timestamp ← field foldRune ms .timestamp uint64 0
  let srcIp ← field foldRune ms .srcIp string []
  let dstIp ← field foldRune ms .dstIp string []
  let srcPort ← field foldRune ms .srcPort uint16 0
  let dstPort ← field foldRune ms .dstPort uint16 0
  let srcMac ← field foldRune ms .srcMac string []
  let dstMac ← field foldRune ms .dstMac string []
  let protocol ← field foldRune ms .protocol string []
  let hasTcpAo ← field foldRune ms .hasTcpAo bool false
  let tcpFlags ← field foldRune ms .tcpFlags uint8 0
  let l3Offset ← field foldRune ms .l3Offset uint8 0
  let l4Offset ← field foldRune ms .l4Offset uint8 0
  let tcpSeq ← field foldRune ms .tcpSeq uint32 0
  let tcpAck ← field foldRune ms .tcpAck uint32 0
  let vlanId ← field foldRune ms .vlanId uint16 0
  let ipTtl ← field foldRune ms .ipTtl uint8 0
  let ipTos ← field foldRune ms .ipTos uint8 0
  let tcpWin ← field foldRune ms .tcpWin uint16 0
  let ipId ← field foldRune ms .ipId uint16 0
  let isIpv6 ← field foldRune ms .isIpv6 bool false
  let isFragment ← field foldRune ms .isFragment bool false
  let tcpMss ← field foldRune ms .tcpMss uint16 0
  let tcpWs ← field foldRune ms .tcpWs uint8 0
  let ipv6ExtCount ← field foldRune ms .ipv6ExtCount uint8 0
  let ipv6Flow ← field foldRune ms .ipv6Flow uint32 0
  let wireLen ← field foldRune ms .wireLen uint32 0
  let tcpTsVal ← field foldRune ms .tcpTsVal uint32 0
  let tcpTsEcr ← field foldRune ms .tcpTsEcr uint32 0
  let tcpSack ← field foldRune ms .tcpSack bool false
  let tcpRtt ← field foldRune ms .tcpRtt uint32 0
  let vxlanVni ← field foldRune ms .vxlanVni uint32 0
  let entropyScaled ← field foldRune ms .entropyScaled uint32 0
  let ntpStratum ← field foldRune ms .ntpStratum uint8 0
  let ntpMode ← field foldRune ms .ntpMode uint8 0
  let igmpGroup ← field foldRune ms .igmpGroup string []
  let igmpType ← field foldRune ms .igmpType uint8 0
  let lldpChassis ← field foldRune ms .lldpChassis string []
  let lldpPort ← field foldRune ms .lldpPort string []
  let tcpSackEdges ← field foldRune ms .tcpSackEdges uint32s []
  let topByteInfo ← field foldRune ms .topByteInfo string []
  let dnsQuery ← field foldRune ms .dnsQuery string []
  let tlsSni ← field foldRune ms .tlsSni string []
  let extraInfo ← field foldRune ms .extraInfo string []
  let payload ← field foldRune ms .payload bytes []
  let index ← field foldRune ms .index int 0
  let info ← field foldRune ms .info string []
  let srcMacVendor ← field foldRune ms .srcMacVendor string []
  let dstMacVendor ← field foldRune ms .dstMacVendor string []
  let country ← field foldRune ms .country string []
  let city ← field foldRune ms .city string []
  let isp ← field foldRune ms .isp string []
  let countryCode ← field foldRune ms .countryCode string []
  some {
    timestamp, srcIp, dstIp, srcPort, dstPort, protocol, hasTcpAo, tcpFlags, l3Offset, l4Offset,
    tcpSeq, tcpAck, icmpType := 0, icmpCode := 0, deltaTime := 0, vlanId, ipTtl, ipTos, tcpWin, ipId,
    isIpv6, isFragment, tcpMss, tcpWs, ipv6ExtCount, ipv6Flow, wireLen, tcpTsVal, tcpTsEcr, tcpSack,
    tcpRtt, vxlanVni, entropyScaled, ntpStratum, ntpMode, igmpGroup, igmpType, lldpChassis, lldpPort,
    tcpSackEdges, topByteInfo, dnsQuery, tlsSni, extraInfo, appLayerInfo := [], payload, srcMac,
    dstMac, index, info, srcMacVendor, dstMacVendor, country, city, isp, countryCode }

/-- `json.Unmarshal(scanner.Bytes(), &pkt)`; `none` if it returns an error. -/
def unmarshal (line : List UInt8) : Option DashboardPacket :=
  match parse (runes line) with
  | some (.obj ms) => ofMembers foldRune ms
  | _ => none

/-! ### What the service writes -/

/-- The packet without the fields that only the service knows. -/
def forget (d : Service.Model.DashboardPacket) : Service.Model.DashboardPacket :=
  { d with icmpType := 0, icmpCode := 0, deltaTime := 0, appLayerInfo := [] }

section

variable {α β : Type} {read : Node → Option α} {x zero : α}

theorem uint8_num (n : UInt8) : uint8 (.num n.toNat) = some n := by
  simp [uint8, number, n.toNat_lt]

theorem uint16_num (n : UInt16) : uint16 (.num n.toNat) = some n := by
  simp [uint16, number, n.toNat_lt]

theorem uint32_num (n : UInt32) : uint32 (.num n.toNat) = some n := by
  simp [uint32, number, n.toNat_lt]

theorem uint64_num (n : UInt64) : uint64 (.num n.toNat) = some n := by
  simp [uint64, number, n.toNat_lt]

/-- The elements of an array that are written one by one are read one by one. -/
theorem mapM_read {toNode : α → Node} (h : ∀ a, read (toNode a) = some a) (as : List α) :
    (as.map toNode).mapM read = some as := by
  induction as with
  | nil => rfl
  | cons a as ih => simp [h, ih]

theorem uint32s_arr (es : List UInt32) : uint32s (.arr (es.map fun e => .num e.toNat)) = some es :=
  mapM_read uint32_num es

theorem bytes_arr (bs : List UInt8) : bytes (.arr (bs.map fun b => .num b.toNat)) = some bs :=
  mapM_read uint8_num bs

/-- The fields that the members of the object name. -/
def served : List (Option Field) :=
  [some .timestamp, some .srcIp, some .dstIp, some .srcPort, some .dstPort, some .protocol,
    some .hasTcpAo, some .tcpFlags, some .l3Offset, some .l4Offset, some .tcpSeq, some .tcpAck, none,
    none, none, some .vlanId, some .ipTtl, some .ipTos, some .tcpWin, some .ipId, some .isIpv6,
    some .isFragment, some .tcpMss, some .tcpWs, some .ipv6ExtCount, some .ipv6Flow, some .wireLen,
    some .tcpTsVal, some .tcpTsEcr, some .tcpSack, some .tcpRtt, some .vxlanVni, some .entropyScaled,
    some .ntpStratum, some .ntpMode, some .igmpGroup, some .igmpType, some .lldpChassis,
    some .lldpPort, some .tcpSackEdges, some .topByteInfo, some .dnsQuery, some .tlsSni,
    some .extraInfo, none, some .payload, some .srcMac, some .dstMac]

/-- The values that the object has for a field. -/
def sent (d : Service.Model.DashboardPacket) : Field → List Node
  | .timestamp => [.num d.timestamp.toNat]
  | .srcIp => [.str d.srcIp]
  | .dstIp => [.str d.dstIp]
  | .srcPort => [.num d.srcPort.toNat]
  | .dstPort => [.num d.dstPort.toNat]
  | .srcMac => [.str d.srcMac]
  | .dstMac => [.str d.dstMac]
  | .protocol => [.str d.protocol]
  | .hasTcpAo => [.bool d.hasTcpAo]
  | .tcpFlags => [.num d.tcpFlags.toNat]
  | .l3Offset => [.num d.l3Offset.toNat]
  | .l4Offset => [.num d.l4Offset.toNat]
  | .tcpSeq => [.num d.tcpSeq.toNat]
  | .tcpAck => [.num d.tcpAck.toNat]
  | .vlanId => [.num d.vlanId.toNat]
  | .ipTtl => [.num d.ipTtl.toNat]
  | .ipTos => [.num d.ipTos.toNat]
  | .tcpWin => [.num d.tcpWin.toNat]
  | .ipId => [.num d.ipId.toNat]
  | .isIpv6 => [.bool d.isIpv6]
  | .isFragment => [.bool d.isFragment]
  | .tcpMss => [.num d.tcpMss.toNat]
  | .tcpWs => [.num d.tcpWs.toNat]
  | .ipv6ExtCount => [.num d.ipv6ExtCount.toNat]
  | .ipv6Flow => [.num d.ipv6Flow.toNat]
  | .wireLen => [.num d.wireLen.toNat]
  | .tcpTsVal => [.num d.tcpTsVal.toNat]
  | .tcpTsEcr => [.num d.tcpTsEcr.toNat]
  | .tcpSack => [.bool d.tcpSack]
  | .tcpRtt => [.num d.tcpRtt.toNat]
  | .vxlanVni => [.num d.vxlanVni.toNat]
  | .entropyScaled => [.num d.entropyScaled.toNat]
  | .ntpStratum => [.num d.ntpStratum.toNat]
  | .ntpMode => [.num d.ntpMode.toNat]
  | .igmpGroup => [.str d.igmpGroup]
  | .igmpType => [.num d.igmpType.toNat]
  | .lldpChassis => [.str d.lldpChassis]
  | .lldpPort => [.str d.lldpPort]
  | .tcpSackEdges => [.arr (d.tcpSackEdges.map fun e => .num e.toNat)]
  | .topByteInfo => [.str d.topByteInfo]
  | .dnsQuery => [.str d.dnsQuery]
  | .tlsSni => [.str d.tlsSni]
  | .extraInfo => [.str d.extraInfo]
  | .payload => [.arr (d.payload.map fun b => .num b.toNat)]
  | _ => []

theorem resolve_members (d : Service.Model.DashboardPacket) :
    (members d).map (fun m => resolve foldRune m.1) = served := by
  rfl

theorem values_eq (ms : List (Str × Node)) (f : Field) :
    values foldRune ms f = (((ms.map fun m => resolve foldRune m.1).zip (ms.map Prod.snd)).filter
      fun p => p.1 = some f).map Prod.snd := by
  induction ms with
  | nil => rfl
  | cons m ms ih =>
    unfold values at ih ⊢
    rw [List.filter_cons, List.map_cons, List.map_cons, List.zip_cons_cons, List.filter_cons]
    split_ifs
    · rw [List.map_cons, List.map_cons, ih]
    · exact ih

theorem values_members (d : Service.Model.DashboardPacket) (f : Field) :
    values foldRune (members d) f = sent d f := by
  rw [values_eq, resolve_members]
  cases f <;> rfl

variable {foldRune} {ms : List (Str × Node)} {f : Field} {v : Node}

/-- A field with one value. -/
theorem field_one (h : values foldRune ms f = [v]) (hv : read v = some x) :
    field foldRune ms f read zero = some x := by
  simp [field, h, hv]

/-- A field without a value. -/
theorem field_none (h : values foldRune ms f = []) : field foldRune ms f read zero = some zero := by
  simp [field, h]

/-- The result of a step that succeeds. -/
theorem bind_some {o : Option α} {k : α → Option β} {r : Option β} (h : o = some x) (hk : k x = r) :
    o >>= k = r := by
  rw [h]
  exact hk

variable (foldRune)

theorem ofMembers_members (d : Service.Model.DashboardPacket) :
    ofMembers foldRune (members d) = some (received (forget d)) := by
  have h := values_members foldRune d
  unfold ofMembers
  refine bind_some (field_one (h .timestamp) (uint64_num _)) <| bind_some (field_one (h .srcIp) rfl) ?_
  refine bind_some (field_one (h .dstIp) rfl) <| bind_some (field_one (h .srcPort) (uint16_num _)) ?_
  refine bind_some (field_one (h .dstPort) (uint16_num _)) <| bind_some (field_one (h .srcMac) rfl) ?_
  refine bind_some (field_one (h .dstMac) rfl) <| bind_some (field_one (h .protocol) rfl) ?_
  refine bind_some (field_one (h .hasTcpAo) rfl) ?_
  refine bind_some (field_one (h .tcpFlags) (uint8_num _)) ?_
  refine bind_some (field_one (h .l3Offset) (uint8_num _)) ?_
  refine bind_some (field_one (h .l4Offset) (uint8_num _)) ?_
  refine bind_some (field_one (h .tcpSeq) (uint32_num _)) ?_
  refine bind_some (field_one (h .tcpAck) (uint32_num _)) ?_
  refine bind_some (field_one (h .vlanId) (uint16_num _)) ?_
  refine bind_some (field_one (h .ipTtl) (uint8_num _)) ?_
  refine bind_some (field_one (h .ipTos) (uint8_num _)) ?_
  refine bind_some (field_one (h .tcpWin) (uint16_num _)) ?_
  refine bind_some (field_one (h .ipId) (uint16_num _)) <| bind_some (field_one (h .isIpv6) rfl) ?_
  refine bind_some (field_one (h .isFragment) rfl) ?_
  refine bind_some (field_one (h .tcpMss) (uint16_num _)) ?_
  refine bind_some (field_one (h .tcpWs) (uint8_num _)) ?_
  refine bind_some (field_one (h .ipv6ExtCount) (uint8_num _)) ?_
  refine bind_some (field_one (h .ipv6Flow) (uint32_num _)) ?_
  refine bind_some (field_one (h .wireLen) (uint32_num _)) ?_
  refine bind_some (field_one (h .tcpTsVal) (uint32_num _)) ?_
  refine bind_some (field_one (h .tcpTsEcr) (uint32_num _)) ?_
  refine bind_some (field_one (h .tcpSack) rfl) <| bind_some (field_one (h .tcpRtt) (uint32_num _)) ?_
  refine bind_some (field_one (h .vxlanVni) (uint32_num _)) ?_
  refine bind_some (field_one (h .entropyScaled) (uint32_num _)) ?_
  refine bind_some (field_one (h .ntpStratum) (uint8_num _)) ?_
  refine bind_some (field_one (h .ntpMode) (uint8_num _)) ?_
  refine bind_some (field_one (h .igmpGroup) rfl) ?_
  refine bind_some (field_one (h .igmpType) (uint8_num _)) ?_
  refine bind_some (field_one (h .lldpChassis) rfl) <| bind_some (field_one (h .lldpPort) rfl) ?_
  refine bind_some (field_one (h .tcpSackEdges) (uint32s_arr _)) ?_
  refine bind_some (field_one (h .topByteInfo) rfl) <| bind_some (field_one (h .dnsQuery) rfl) ?_
  refine bind_some (field_one (h .tlsSni) rfl) <| bind_some (field_one (h .extraInfo) rfl) ?_
  refine bind_some (field_one (h .payload) (bytes_arr _)) <| bind_some (field_none (h .index)) ?_
  refine bind_some (field_none (h .info)) <| bind_some (field_none (h .srcMacVendor)) ?_
  refine bind_some (field_none (h .dstMacVendor)) <| bind_some (field_none (h .country)) ?_
  refine bind_some (field_none (h .city)) <| bind_some (field_none (h .isp)) ?_
  refine bind_some (field_none (h .countryCode)) ?_
  rfl

/-- **Records.** From the line that the service writes for a packet, the dashboard gets this packet,
without the four fields that its struct lacks. -/
theorem unmarshal_toJson {escape : Char → Str} (hescape : Escapes escape)
    (d : Service.Model.DashboardPacket) :
    unmarshal foldRune (utf8 (toJson escape d)) = some (received (forget d)) := by
  have hparse := parse_of_value (value_toJson hescape d)
  simp only [unmarshal, runes_utf8, hparse, ofMembers_members]

end

end Pacsni.Dashboard.Unmarshal
