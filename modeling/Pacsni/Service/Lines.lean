import Pacsni.Lib.Json
import Pacsni.Service.Framing

/-! # The lines of the dashboard

`handle_go_connection`: every packet that a subscriber receives is written as a JSON object and a
newline. `escape` is how the serializer writes a character inside a string.

A packet that was decoded has short texts (`sized_of_decoded`), so that its object is far shorter than
the longest line the reader takes. As no JSON text holds a newline, the reader cuts the stream into
these objects again, whatever bytes the texts were decoded from (`handleGoConnection_lines`). -/

namespace Pacsni.Service.Lines

open Pacsni.Lib.Cursor Pacsni.Lib.Text Pacsni.Lib.Json
open Pacsni.Capture.Types Pacsni.Capture.Layout
open Pacsni.Service.Model Pacsni.Service.Decode Pacsni.Service.Framing

/-! ### The object of a packet -/

/-- The members of the object of a packet: the fields of `DashboardPacket` in their order. -/
def members (d : DashboardPacket) : List (Str × Node) :=
  [("timestamp".toList, .num d.timestamp.toNat),
    ("src_ip".toList, .str d.srcIp),
    ("dst_ip".toList, .str d.dstIp),
    ("src_port".toList, .num d.srcPort.toNat),
    ("dst_port".toList, .num d.dstPort.toNat),
    ("protocol".toList, .str d.protocol),
    ("has_tcp_ao".toList, .bool d.hasTcpAo),
    ("tcp_flags".toList, .num d.tcpFlags.toNat),
    ("l3_offset".toList, .num d.l3Offset.toNat),
    ("l4_offset".toList, .num d.l4Offset.toNat),
    ("tcp_seq".toList, .num d.tcpSeq.toNat),
    ("tcp_ack".toList, .num d.tcpAck.toNat),
    ("icmp_type".toList, .num d.icmpType.toNat),
    ("icmp_code".toList, .num d.icmpCode.toNat),
    ("delta_time".toList, .num d.deltaTime.toNat),
    ("vlan_id".toList, .num d.vlanId.toNat),
    ("ip_ttl".toList, .num d.ipTtl.toNat),
    ("ip_tos".toList, .num d.ipTos.toNat),
    ("tcp_win".toList, .num d.tcpWin.toNat),
    ("ip_id".toList, .num d.ipId.toNat),
    ("is_ipv6".toList, .bool d.isIpv6),
    ("is_fragment".toList, .bool d.isFragment),
    ("tcp_mss".toList, .num d.tcpMss.toNat),
    ("tcp_ws".toList, .num d.tcpWs.toNat),
    ("ipv6_ext_count".toList, .num d.ipv6ExtCount.toNat),
    ("ipv6_flow".toList, .num d.ipv6Flow.toNat),
    ("wire_len".toList, .num d.wireLen.toNat),
    ("tcp_ts_val".toList, .num d.tcpTsVal.toNat),
    ("tcp_ts_ecr".toList, .num d.tcpTsEcr.toNat),
    ("tcp_sack".toList, .bool d.tcpSack),
    ("tcp_rtt".toList, .num d.tcpRtt.toNat),
    ("vxlan_vni".toList, .num d.vxlanVni.toNat),
    ("entropy_scaled".toList, .num d.entropyScaled.toNat),
    ("ntp_stratum".toList, .num d.ntpStratum.toNat),
    ("ntp_mode".toList, .num d.ntpMode.toNat),
    ("igmp_group".toList, .str d.igmpGroup),
    ("igmp_type".toList, .num d.igmpType.toNat),
    ("lldp_chassis".toList, .str d.lldpChassis),
    ("lldp_port".toList, .str d.lldpPort),
    ("tcp_sack_edges".toList, .arr (d.tcpSackEdges.map fun e => .num e.toNat)),
    ("top_byte_info".toList, .str d.topByteInfo),
    ("dns_query".toList, .str d.dnsQuery),
    ("tls_sni".toList, .str d.tlsSni),
    ("extra_info".toList, .str d.extraInfo),
    ("app_layer_info".toList, .str d.appLayerInfo),
    ("payload".toList, .arr (d.payload.map fun b => .num b.toNat)),
    ("src_mac".toList, .str d.srcMac),
    ("dst_mac".toList, .str d.dstMac)]

section

variable (escape : Char → Str)

/-- `serde_json::to_string(&packet)` -/
def toJson (d : DashboardPacket) : Str := write escape (.obj (members d))

/-! ### The connection -/

/-- What `socket.write_all` returns; a write that fails has passed on the first `k` bytes. -/
inductive Write
  | ok
  | failed (k : ℕ)

/-- What `rx.recv()` returns; the line of a packet is written at once. -/
inductive Recv
  | packet (d : DashboardPacket) (w : Write)
  | lagged (skipped : ℕ)
  | closed

/-- `handle_go_connection`: the bytes that are written. The newline stands at the end of the buffer of
one `write_all`, so that a write that fails has not passed it on. -/
def handleGoConnection : List Recv → List UInt8
  | [] => []
  | .packet d .ok :: rs => utf8 (toJson escape d ++ ['\n']) ++ handleGoConnection rs
  | .packet d (.failed k) :: _ => (utf8 (toJson escape d)).take k
  | .lagged _ :: rs => handleGoConnection rs
  | .closed :: _ => []

/-- The packets whose line was written, in order. -/
def written : List Recv → List DashboardPacket
  | [] => []
  | .packet d .ok :: rs => d :: written rs
  | .packet _ (.failed _) :: _ => []
  | .lagged _ :: rs => written rs
  | .closed :: _ => []

/-- What was written of the line at which the socket failed. -/
def unfinished : List Recv → List UInt8
  | [] => []
  | .packet _ .ok :: rs => unfinished rs
  | .packet d (.failed k) :: _ => (utf8 (toJson escape d)).take k
  | .lagged _ :: rs => unfinished rs
  | .closed :: _ => []

/-- The longest token of the scanner that reads the lines. -/
def scannerLimit : ℕ := 1024 * 1024

end

/-! ### Decoded packets are short -/

/-- The texts and lists of a packet have at most 256 entries. -/
structure Sized (d : DashboardPacket) : Prop where
  texts : ∀ s ∈ [d.srcIp, d.dstIp, d.protocol, d.igmpGroup, d.lldpChassis, d.lldpPort, d.topByteInfo,
    d.dnsQuery, d.tlsSni, d.extraInfo, d.appLayerInfo, d.srcMac, d.dstMac], s.length ≤ 256
  edges : d.tcpSackEdges.length ≤ 256
  payload : d.payload.length ≤ 256

theorem length_dec_le (b : UInt8) : (dec b.toNat).length ≤ 3 := by
  have hlt := b.toNat_lt
  exact (Nat.length_toDigits_le_iff (by omega) (by omega)).mpr (by omega)

theorem length_quad_le (a b c d : UInt8) : (quad a b c d).length ≤ 15 := by
  have ha := length_dec_le a
  have hb := length_dec_le b
  have hc := length_dec_le c
  have hd := length_dec_le d
  unfold quad
  simp only [List.length_append, List.length_singleton]
  omega

theorem length_ipAddrToString_le (ip : Vector UInt8 16) (v6 : Bool) :
    (ipAddrToString ip v6).length ≤ 39 := by
  unfold ipAddrToString
  split_ifs
  · simp only [List.length_append, List.length_singleton, length_hex2]
    omega
  · exact Nat.le_trans (length_quad_le ..) (by omega)

theorem length_macAddrToString (mac : Vector UInt8 6) : (macAddrToString mac).length = 17 := by
  unfold macAddrToString
  simp only [List.length_append, List.length_singleton, length_hex2]

theorem length_protocolToString_le (proto : UInt8) (srcPort dstPort : UInt16) :
    (protocolToString proto srcPort dstPort).length ≤ 12 := by
  have hdec := length_dec_le proto
  have hopen : "Unknown(".toList.length = 8 := rfl
  unfold protocolToString
  split_ifs
  all_goals first
    | exact Nat.le_of_ble_eq_true rfl
    | (rw [List.length_append, List.length_append, List.length_singleton]; omega)

theorem length_topByteText_le (topByte topFreq : UInt8) :
    (topByteText topByte topFreq).length ≤ 11 := by
  have hdec := length_dec_le topFreq
  have hparts : "0x".toList.length = 2 ∧ " (".toList.length = 2 ∧ "%)".toList.length = 2 :=
    ⟨rfl, rfl, rfl⟩
  unfold topByteText
  simp only [List.length_append, length_hex2]
  omega

theorem length_fromUtf8Lossy_le (bs : List UInt8) : (fromUtf8Lossy bs).length ≤ bs.length := by
  fun_induction fromUtf8Lossy bs with
  | case1 => exact Nat.le_refl _
  | case2 b rest hb ih =>
    rw [List.length_cons, List.length_cons]
    omega
  | case3 b rest hb ih =>
    obtain ⟨⟨k, hk, -⟩, -⟩ := nextChar_ok b rest
    rw [hk, List.length_drop] at ih
    rw [hk, List.length_cons, List.length_cons]
    omega

theorem length_lossyText_le {n : ℕ} (raw : Vector UInt8 n) : (lossyText raw).length ≤ n := by
  have hlossy := length_fromUtf8Lossy_le raw.toList
  have hfront := (List.dropWhile_suffix (· = '\x00') (l := fromUtf8Lossy raw.toList)).length_le
  have hback := (List.dropWhile_suffix (· = '\x00')
    (l := ((fromUtf8Lossy raw.toList).dropWhile (· = '\x00')).reverse)).length_le
  rw [List.length_reverse] at hback
  rw [Vector.length_toList] at hlossy
  unfold lossyText trimNul
  rw [List.length_reverse]
  omega

/-- Whatever the bytes of a message are, the texts decoded from it are short. -/
theorem gives_decode : Gives Sized decode := by
  unfold decode
  iterate 39 refine .skip fun _ => ?_
  refine (gives_repeatRead getU32Le 8).bind fun edges hedges => ?_
  iterate 13 refine .skip fun _ => ?_
  refine .pure ⟨?_, ?_, ?_⟩
  · simp only [List.forall_mem_cons, List.not_mem_nil, false_imp_iff, implies_true, and_true]
    refine ⟨?_, ?_, ?_, ?_, ?_, ?_, ?_, ?_, ?_, ?_, ?_, ?_, ?_⟩
    · exact Nat.le_trans (length_ipAddrToString_le ..) (by omega)
    · exact Nat.le_trans (length_ipAddrToString_le ..) (by omega)
    · exact Nat.le_trans (length_protocolToString_le ..) (by omega)
    · exact Nat.le_trans (length_quad_le ..) (by omega)
    · exact Nat.le_trans (length_lossyText_le _) (by omega)
    · exact Nat.le_trans (length_lossyText_le _) (by omega)
    · exact Nat.le_trans (length_topByteText_le ..) (by omega)
    · exact Nat.le_trans (length_lossyText_le _) (by omega)
    · exact Nat.le_trans (length_lossyText_le _) (by omega)
    · exact Nat.le_trans (length_lossyText_le _) (by omega)
    · exact Nat.le_trans (length_lossyText_le _) (by omega)
    · exact Nat.le_trans (length_macAddrToString _).le (by omega)
    · exact Nat.le_trans (length_macAddrToString _).le (by omega)
  · show edges.length ≤ 256
    omega
  · show (List.take _ _).length ≤ 256
    rw [List.length_take]
    omega

/-! ### Objects are short -/

section

variable {escape : Char → Str}

/-- The text of the value has at most 5400 bytes. -/
def Fits (escape : Char → Str) (v : Node) : Prop := (utf8 (write escape v)).length ≤ 5400

theorem length_num_le {n : ℕ} (hn : n < 2 ^ 64) : (utf8 (write escape (.num n))).length ≤ 20 := by
  have hdec := @length_utf8_dec_le n 20 (by omega) (by omega)
  rw [write]
  exact hdec

theorem fits_num {n : ℕ} (hn : n < 2 ^ 64) : Fits escape (.num n) :=
  Nat.le_trans (length_num_le hn) (by omega)

theorem fits_u8 (n : UInt8) : Fits escape (.num n.toNat) :=
  fits_num (Nat.lt_trans n.toNat_lt (by decide))

theorem fits_u16 (n : UInt16) : Fits escape (.num n.toNat) :=
  fits_num (Nat.lt_trans n.toNat_lt (by decide))

theorem fits_u32 (n : UInt32) : Fits escape (.num n.toNat) :=
  fits_num (Nat.lt_trans n.toNat_lt (by decide))

theorem fits_u64 (n : UInt64) : Fits escape (.num n.toNat) := fits_num n.toNat_lt

theorem fits_bool (b : Bool) : Fits escape (.bool b) := by
  have hlen : (utf8 (if b then ['t', 'r', 'u', 'e'] else ['f', 'a', 'l', 's', 'e'])).length ≤ 5 := by
    cases b <;> decide
  unfold Fits
  rw [write]
  omega

theorem fits_str (h : Escapes escape) {s : Str} (hs : s.length ≤ 256) : Fits escape (.str s) := by
  have hquote := length_utf8_quote_le h s
  unfold Fits
  rw [write]
  omega

/-- An array of at most 256 numbers, each of at most 20 digits. -/
theorem fits_arr {α : Type} {toNat : α → ℕ} (hlt : ∀ a, toNat a < 2 ^ 64) {as : List α}
    (has : as.length ≤ 256) : Fits escape (.arr (as.map fun a => .num (toNat a))) := by
  have helem : ∀ v ∈ as.map fun a => Node.num (toNat a), (utf8 (write escape v)).length ≤ 20 := by
    intro v hv
    obtain ⟨a, -, rfl⟩ := List.mem_map.mp hv
    exact length_num_le (hlt a)
  have hlen := length_utf8_arr_le helem
  rw [List.length_map] at hlen
  unfold Fits
  omega

/-- Every value of the object of a short packet fits. -/
theorem fits_members (h : Escapes escape) {d : DashboardPacket} (hd : Sized d) :
    ∀ m ∈ members d, Fits escape m.2 := by
  have htexts := hd.texts
  simp only [List.forall_mem_cons, List.not_mem_nil, false_imp_iff, implies_true, and_true] at htexts
  obtain ⟨hsrc, hdst, hproto, hgroup, hchassis, hport, htop, hdns, hsni, hextra, happ, hsmac,
    hdmac⟩ := htexts
  have hedges : Fits escape (.arr (d.tcpSackEdges.map fun e => .num e.toNat)) :=
    fits_arr (fun e => Nat.lt_trans e.toNat_lt (by decide)) hd.edges
  have hpayload : Fits escape (.arr (d.payload.map fun b => .num b.toNat)) :=
    fits_arr (fun b => Nat.lt_trans b.toNat_lt (by decide)) hd.payload
  simp only [members, List.forall_mem_cons, List.not_mem_nil, false_imp_iff, implies_true, and_true]
  exact ⟨fits_u64 _, fits_str h hsrc, fits_str h hdst, fits_u16 _, fits_u16 _, fits_str h hproto,
    fits_bool _, fits_u8 _, fits_u8 _, fits_u8 _, fits_u32 _, fits_u32 _, fits_u8 _, fits_u8 _,
    fits_u32 _, fits_u16 _, fits_u8 _, fits_u8 _, fits_u16 _, fits_u16 _, fits_bool _, fits_bool _,
    fits_u16 _, fits_u8 _, fits_u8 _, fits_u32 _, fits_u32 _, fits_u32 _, fits_u32 _, fits_bool _,
    fits_u32 _, fits_u32 _, fits_u32 _, fits_u8 _, fits_u8 _, fits_str h hgroup, fits_u8 _,
    fits_str h hchassis, fits_str h hport, hedges, fits_str h htop, fits_str h hdns,
    fits_str h hsni, fits_str h hextra, fits_str h happ, hpayload, fits_str h hsmac,
    fits_str h hdmac⟩

theorem length_key_le (d : DashboardPacket) : ∀ m ∈ members d, m.1.length ≤ 14 := by
  simp only [members, List.forall_mem_cons]
  decide

/-- The object of a short packet is shorter than the longest line. -/
theorem length_toJson_lt (h : Escapes escape) {d : DashboardPacket} (hd : Sized d) :
    (utf8 (toJson escape d)).length < scannerLimit := by
  have hmembers : ∀ m ∈ members d,
      (utf8 (quote escape m.1)).length + (utf8 (write escape m.2)).length ≤ 5486 := by
    intro m hm
    have hkey := length_utf8_quote_le h m.1
    have hshort := length_key_le d m hm
    have hval : (utf8 (write escape m.2)).length ≤ 5400 := fits_members h hd m hm
    omega
  have hobj := length_utf8_obj_le hmembers
  have hcount : (members d).length = 48 := rfl
  unfold toJson scannerLimit
  omega

/-! ### The stream -/

/-- The line of a packet is a text of its object. -/
theorem value_toJson (h : Escapes escape) (d : DashboardPacket) :
    Value (.obj (members d)) (toJson escape d) := value_write h _

/-- The stream is the lines that were written, and what was written of one more. -/
theorem handleGoConnection_eq (rs : List Recv) :
    handleGoConnection escape rs =
      ((written rs).map fun d => utf8 (toJson escape d)).flatMap (· ++ [10]) ++
        unfinished escape rs := by
  fun_induction written rs with
  | case1 => rfl
  | case2 d rs ih =>
    have hnewline : utf8 ['\n'] = [10] := rfl
    rw [handleGoConnection, unfinished, ih, utf8_append, hnewline, List.map_cons, List.flatMap_cons,
      List.append_assoc _ _ (unfinished escape rs)]
  | case3 d k rs => rfl
  | case4 k rs ih => exact ih
  | case5 rs => rfl

theorem newline_notMem_unfinished (h : Escapes escape) (rs : List Recv) :
    (10 : UInt8) ∉ unfinished escape rs := by
  fun_induction unfinished escape rs with
  | case1 => exact List.not_mem_nil
  | case2 d rs ih => exact ih
  | case3 d k rs =>
    exact fun hmem => newline_notMem_utf8 (value_toJson h d).printable (List.mem_of_mem_take hmem)
  | case4 k rs ih => exact ih
  | case5 rs => exact List.not_mem_nil

theorem unfinished_eq_nil (rs : List Recv) (hok : ∀ d k, .packet d (.failed k) ∉ rs) :
    unfinished escape rs = [] := by
  fun_induction unfinished escape rs with
  | case1 => rfl
  | case2 d rs ih => exact ih fun d' k hmem => hok d' k (List.mem_cons_of_mem _ hmem)
  | case3 d k rs => exact absurd List.mem_cons_self (hok d k)
  | case4 k rs ih => exact ih fun d' k' hmem => hok d' k' (List.mem_cons_of_mem _ hmem)
  | case5 rs => rfl

theorem recv_of_mem_written (rs : List Recv) : ∀ d ∈ written rs, .packet d .ok ∈ rs := by
  fun_induction written rs with
  | case1 => simp
  | case2 d rs ih =>
    refine List.forall_mem_cons.mpr ⟨List.mem_cons_self, fun d' hd' => ?_⟩
    exact List.mem_cons_of_mem _ (ih d' hd')
  | case3 d k rs => simp
  | case4 k rs ih => exact fun d hd => List.mem_cons_of_mem _ (ih d hd)
  | case5 rs => simp

/-- The packet was decoded and sent by `handle_cpp_connection`, on some sequence of reads. -/
def Decoded (verify : List UInt8 → List UInt8 → Bool) (d : DashboardPacket) : Prop :=
  ∃ reads, d ∈ (handleCppConnection verify reads).sent

theorem Decoded.sized {verify : List UInt8 → List UInt8 → Bool} {d : DashboardPacket}
    (h : Decoded verify d) : Sized d := by
  obtain ⟨reads, hsent⟩ := h
  obtain ⟨m, hrun⟩ := sent_decoded reads d hsent
  exact gives_decode m d [] hrun

end

/-- **One line for each packet.** However the packets of a subscriber were decoded, a reader that cuts
the stream at newlines gets the JSON texts of the packets that were written, in order, each of them
shorter than its longest line. Behind them there is nothing unless the socket failed in a line. -/
theorem handleGoConnection_lines {escape : Char → Str} (h : Escapes escape)
    (verify : List UInt8 → List UInt8 → Bool) (rs : List Recv)
    (hrs : ∀ d w, .packet d w ∈ rs → Decoded verify d) :
    (handleGoConnection escape rs).splitOn 10 =
        ((written rs).map fun d => utf8 (toJson escape d)) ++ [unfinished escape rs] ∧
      (∀ d ∈ written rs, Value (.obj (members d)) (toJson escape d) ∧
        (utf8 (toJson escape d)).length < scannerLimit) ∧
      ((∀ d k, .packet d (.failed k) ∉ rs) → unfinished escape rs = []) := by
  refine ⟨?_, fun d hd => ?_, unfinished_eq_nil rs⟩
  · rw [handleGoConnection_eq]
    refine splitOn_lines (newline_notMem_unfinished h rs) _ fun l hl => ?_
    obtain ⟨d, -, rfl⟩ := List.mem_map.mp hl
    exact newline_notMem_utf8 (value_toJson h d).printable
  · have hsized := (hrs d .ok (recv_of_mem_written rs d hd)).sized
    exact ⟨value_toJson h d, length_toJson_lt h hsized⟩

/-! ### A text with a newline -/

/-- The escapes of `serde_json`. -/
def serdeEscape (c : Char) : Str :=
  if c = '"' then ['\\', '"']
  else if c = '\\' then ['\\', '\\']
  else if c = '\x08' then ['\\', 'b']
  else if c = '\x0c' then ['\\', 'f']
  else if c = '\n' then ['\\', 'n']
  else if c = '\r' then ['\\', 'r']
  else if c = '\t' then ['\\', 't']
  else if c.toNat < 0x20 then
    ['\\', 'u', '0', '0', Nat.digitChar (c.toNat / 16), Nat.digitChar (c.toNat % 16)]
  else [c]

theorem escapes_serdeEscape : Escapes serdeEscape := by
  intro c
  have hdigit : ∀ i < 16, hexValue (Nat.digitChar i) = some i := by decide
  unfold serdeEscape
  split_ifs with h1 h2 h3 h4 h5 h6 h7 h8
  · subst h1
    exact .short (by decide)
  · subst h2
    exact .short (by decide)
  · subst h3
    exact .short (by decide)
  · subst h4
    exact .short (by decide)
  · subst h5
    exact .short (by decide)
  · subst h6
    exact .short (by decide)
  · subst h7
    exact .short (by decide)
  · have hzero : hexValue '0' = some 0 := by decide
    refine .unicode hzero hzero (hdigit _ (by omega)) (hdigit _ (by omega)) (by omega)
  · exact .plain (by omega) h1 h2

/-- A record whose text is a quote, a newline and a byte that is not UTF-8. -/
def newlineRecord : PacketInfo :=
  { PacketInfo.zero with extraInfo := Vector.ofFn fun i => [0x22, 0x0a, 0xff].getD i 0 }

/-- A message that passes the check is decoded and sent. -/
theorem decoded_shown (p : PacketInfo) (mac : Vector UInt8 64) :
    Decoded (fun _ _ => true) (shown p) := by
  have hlen : (toBytes p ++ mac.toList).length = totalMsgSize := by
    rw [List.length_append, length_toBytes, Vector.length_toList]
    rfl
  have hmsg : messages (toBytes p ++ mac.toList) = [toBytes p ++ mac.toList] := by
    rw [messages, dif_pos hlen.ge, ← hlen, List.take_length, List.drop_length, messages,
      dif_neg (by decide)]
  have hrun := run_decode p mac []
  rw [List.append_nil] at hrun
  refine ⟨[.bytes (toBytes p ++ mac.toList)], ?_⟩
  show shown p ∈ (Framing.step _ Conn.init (.bytes (toBytes p ++ mac.toList))).sent
  obtain ⟨ds, b, hf, hsent, -, -⟩ := drain_spec (fun _ _ => true) (toBytes p ++ mac.toList) []
  have hstep : Framing.step (fun _ _ => true) Conn.init (.bytes (toBytes p ++ mac.toList)) =
      drain (fun _ _ => true) (toBytes p ++ mac.toList) [] := by
    have hinit : Conn.init.buffer ++ (toBytes p ++ mac.toList) = toBytes p ++ mac.toList := rfl
    unfold Framing.step
    rw [if_neg (by decide)]
    dsimp only
    rw [if_neg (by rw [hlen]; decide), if_neg (by rw [hinit, hlen]; decide), hinit]
    rfl
  rw [hstep, hsent]
  rw [hmsg] at hf
  cases hf with
  | bad hv => cases hv
  | good hv hd hms =>
    rw [hrun, Option.some.injEq, Prod.mk.injEq] at hd
    rw [hd.1]
    exact List.mem_cons_self

/-- Two packets of that record, with packets skipped between them. -/
def newlineRecvs : List Recv :=
  [.packet (shown newlineRecord) .ok, .lagged 3, .packet (shown newlineRecord) .ok]

theorem newlineRecvs_lines :
    (handleGoConnection serdeEscape newlineRecvs).splitOn 10 =
        ((written newlineRecvs).map fun d => utf8 (toJson serdeEscape d)) ++
          [unfinished serdeEscape newlineRecvs] ∧
      (∀ d ∈ written newlineRecvs, Value (.obj (members d)) (toJson serdeEscape d) ∧
        (utf8 (toJson serdeEscape d)).length < scannerLimit) ∧
      ((∀ d k, .packet d (.failed k) ∉ newlineRecvs) → unfinished serdeEscape newlineRecvs = []) := by
  refine handleGoConnection_lines escapes_serdeEscape (fun _ _ => true) newlineRecvs fun d w hmem => ?_
  have hd : d = shown newlineRecord := by
    simp only [newlineRecvs, List.mem_cons, List.not_mem_nil, or_false, Recv.packet.injEq,
      reduceCtorEq, false_or] at hmem
    rcases hmem with h | h
    · exact h.1
    · exact h.1
  rw [hd]
  exact decoded_shown newlineRecord (Vector.replicate 64 0)

end Pacsni.Service.Lines
