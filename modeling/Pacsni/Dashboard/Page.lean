import Pacsni.Lib.Markup
import Pacsni.Capture.Exposure
import Pacsni.Service.Decode
import Pacsni.Dashboard.Server

/-! # The info column of the page

`displayData` puts the fields of a packet into a table row by concatenating strings, and the row
becomes part of the page as markup. `info` is a mixture: getPacketInfo writes spans of its own around
values of the packet. `infoPieces` takes it apart by origin, as the branches of `getPacketInfo` put it
together.

Nothing on the way escapes a value: the dissectors copy bytes, the service decodes them, the server
formats them and JSON carries them unchanged. The row is therefore the one with every value escaped
if and only if no value has a special character, and only a text that was copied from the frame can
have one. -/

namespace Pacsni.Dashboard.Page

open Pacsni.Lib.Bytes Pacsni.Lib.Trace Pacsni.Lib.Text Pacsni.Lib.Markup
open Pacsni.Capture.Types Pacsni.Capture.LayerSpec Pacsni.Capture.Raw Pacsni.Capture.Layout
open Pacsni.Capture.Copied Pacsni.Capture.Exposure Pacsni.Capture.Bounds
open Pacsni.Service.Model Pacsni.Service.Decode
open Pacsni.Dashboard.Packet Pacsni.Dashboard.Matching Pacsni.Dashboard.Server

/-! ### The row -/

/-- The row up to the info cell. `localTime` renders the time stamp, and `decodedLength` is known of
the packets that came over the socket. -/
def rowStart (localTime : UInt64 → Str) (selectedIdx : ℤ) (decodedLength : Option ℕ)
    (pkt : Packet.DashboardPacket) : Str :=
  let index := dec pkt.index
  let protocol := if pkt.protocol = [] then "Unknown".toList else pkt.protocol
  "<tr id=\"pkt-".toList ++ index ++ "\" onclick=\"selectPacket(".toList ++ index ++
  ")\" oncontextmenu=\"showContextMenu(event, ".toList ++ index ++ ")\" class=\"".toList ++
  (if (pkt.index : ℤ) = selectedIdx then "selected".toList else []) ++
  (if decodedLength = some 0 then " empty-packet".toList else []) ++ "\">".toList ++
  "<td style=\"padding-left:20px; color:var(--muted);\">".toList ++ index ++ "</td>".toList ++
  "<td>".toList ++ localTime pkt.timestamp ++ "</td>".toList ++
  "<td>".toList ++ pkt.srcIp ++ "</td>".toList ++
  "<td>".toList ++ pkt.dstIp ++ "</td>".toList ++
  "<td>".toList ++ (if pkt.country = [] then "—".toList else pkt.country) ++ "</td>".toList ++
  "<td><span class=\"proto-cell proto-".toList ++ protocol ++ "\">".toList ++ protocol ++
  "</span>".toList ++
  (if pkt.hasTcpAo then (" <span class=\"badge-ao\" title=\"TCP Authentication Option (RFC 5925)\" " ++
    "style=\"cursor:help;\" onclick=\"event.stopPropagation(); alert('RFC 5925 (TCP-AO): Provides " ++
    "cryptographic authentication for TCP segments using Key Chains.')\">AO</span>").toList
    else []) ++ "</td>".toList ++
  "<td class=\"".toList ++ (if decodedLength = some 0 then "len-zero".toList else []) ++ "\">".toList ++
  dec (decodedLength.getD 0) ++ "</td>".toList

/-- The info cell with the text `info`. -/
def infoCell (info : Str) : Str :=
  "<td style=\"color:var(--muted); font-size:11px;\">".toList ++ info ++ "</td>".toList

/-- The row that `displayData` builds for a packet. -/
def row (localTime : UInt64 → Str) (selectedIdx : ℤ) (decodedLength : Option ℕ)
    (pkt : Packet.DashboardPacket) : Str :=
  rowStart localTime selectedIdx decodedLength pkt ++ infoCell pkt.info ++ "</tr>".toList

/-! ### The pieces of the info text -/

/-- A text that is written in the code. -/
def fixed (s : String) : Piece := .own s.toList

/-- A number of the packet. -/
def number (n : ℕ) : Piece := .value (dec n)

/-- The pieces of `ports`. -/
def portPieces (pkt : Packet.DashboardPacket) : List Piece :=
  [number pkt.srcPort.toNat, fixed " -> ", number pkt.dstPort.toNat]

/-- The pieces of `tcpText`. -/
def tcpPieces (pkt : Packet.DashboardPacket) : List Piece :=
  let flags := tcpFlagTexts pkt.tcpFlags
  portPieces pkt ++
  (if 7200 < pkt.entropyScaled then [fixed (" <span title='High Entropy (Possible Encryption)' " ++
    "style='color:#ec4899; cursor:help;'>[!]</span>")] else []) ++
  (if flags ≠ [] then [fixed " [", .own (joinWith ',' flags), fixed "]"] else []) ++
  [fixed " seq=", number pkt.tcpSeq.toNat, fixed " ack=", number pkt.tcpAck.toNat,
    fixed " win=", number pkt.tcpWin.toNat, fixed " len=", number pkt.payload.length]

/-- The pieces of `vendorText`. -/
def vendorPieces (vendor : Str) : List Piece :=
  if vendor ≠ [] then [fixed " (", .value vendor, fixed ")"] else []

/-- The pieces of `cityISP`. -/
def cityISPPieces (pkt : Packet.DashboardPacket) : List Piece :=
  if pkt.city ≠ [] ∨ pkt.isp ≠ [] then
    [fixed " (", .value pkt.city, fixed ", ", .value pkt.isp, fixed ")"]
  else []

/-- The pieces of `protocolText`. -/
def protocolPieces (toLower : Str → Str) (pkt : Packet.DashboardPacket) : List Piece :=
  let len := [fixed " len=", number pkt.payload.length]
  if pkt.protocol = "TCP".toList then tcpPieces pkt
  else if pkt.protocol = "UDP".toList then portPieces pkt ++ len
  else if pkt.protocol = "DHCP".toList then fixed "DHCP Message " :: (portPieces pkt ++ len)
  else if pkt.protocol = "HTTP".toList then fixed "HTTP Request/Response " :: (portPieces pkt ++ len)
  else if pkt.protocol = "ICMP".toList then [fixed "echo (ping) request"]
  else if pkt.protocol = "ARP".toList then
    [fixed "ARP Request/Reply ", .value pkt.srcIp] ++ vendorPieces pkt.srcMacVendor ++
      [fixed " -> ", .value pkt.dstIp] ++ vendorPieces pkt.dstMacVendor
  else if pkt.protocol = "ND".toList then
    [fixed "Neighbor Discovery (Solicitation/Advertisement)"]
  else if pkt.protocol = "ICMPv6".toList then [fixed "ICMPv6 Control Message"]
  else if pkt.protocol = "OSPF".toList then [fixed "OSPF Routing Protocol Message"]
  else if pkt.protocol = "STP".toList then
    [fixed "Spanning Tree Protocol Message to ", .value pkt.dstMac] ++
      vendorPieces pkt.dstMacVendor ++ cityISPPieces pkt
  else [fixed "protocol ", .value (toLower pkt.protocol), fixed " message"]

/-- The pieces of the info text, by origin. -/
def infoPieces (toLower : Str → Str) (pkt : Packet.DashboardPacket) : List Piece :=
  if pkt.tlsSni ≠ [] then
    [fixed "TLS SNI: ", .value pkt.tlsSni, fixed " ("] ++ portPieces pkt ++ [fixed ")"]
  else if pkt.extraInfo ≠ [] then [.value pkt.extraInfo]
  else if pkt.dnsQuery ≠ [] then [fixed "DNS Query: ", .value pkt.dnsQuery]
  else protocolPieces toLower pkt

section

variable (pkt : Packet.DashboardPacket) (toLower : Str → Str)

theorem text_fixed (s : String) : (fixed s).text = s.toList := rfl

theorem text_number (n : ℕ) : (number n).text = dec n := rfl

theorem plain_portPieces : plain (portPieces pkt) = ports pkt := by
  unfold portPieces ports
  simp only [plain_cons, plain_nil, text_fixed, text_number, List.append_nil, List.append_assoc]

theorem plain_tcpPieces : plain (tcpPieces pkt) = tcpText pkt := by
  unfold tcpPieces tcpText
  by_cases he : 7200 < pkt.entropyScaled <;> by_cases hf : tcpFlagTexts pkt.tcpFlags = [] <;>
    simp only [he, hf, ne_eq, not_true, not_false_eq_true, ↓reduceIte, plain_append, plain_cons,
      plain_nil, plain_portPieces, text_fixed, text_number, text_own, List.append_nil, List.append_assoc]

theorem plain_vendorPieces (vendor : Str) : plain (vendorPieces vendor) = vendorText vendor := by
  unfold vendorPieces vendorText
  split_ifs <;>
    simp only [plain_cons, plain_nil, text_fixed, text_value, List.append_nil, List.append_assoc]

theorem plain_cityISPPieces : plain (cityISPPieces pkt) = cityISP pkt := by
  unfold cityISPPieces cityISP
  split_ifs <;>
    simp only [plain_cons, plain_nil, text_fixed, text_value, List.append_nil, List.append_assoc]

theorem plain_fixed (s : String) : plain [fixed s] = s.toList := List.append_nil _

theorem plain_ite {c : Prop} [Decidable c] {ps qs : List Piece} {t u : Str} (hps : plain ps = t)
    (hqs : plain qs = u) : plain (if c then ps else qs) = if c then t else u := by
  rw [apply_ite plain, hps, hqs]

theorem plain_protocolPieces : plain (protocolPieces toLower pkt) = protocolText toLower pkt := by
  unfold protocolPieces protocolText
  refine plain_ite (plain_tcpPieces pkt) (plain_ite ?udp (plain_ite ?dhcp (plain_ite ?http
    (plain_ite (plain_fixed _) (plain_ite ?arp (plain_ite (plain_fixed _)
    (plain_ite (plain_fixed _) (plain_ite (plain_fixed _) (plain_ite ?stp ?other)))))))))
  case udp | dhcp | http =>
    simp only [plain_append, plain_cons, plain_nil, plain_portPieces, text_fixed, text_number,
      List.append_nil, List.append_assoc]
  case arp =>
    simp only [plain_append, plain_cons, plain_nil, plain_vendorPieces, text_fixed, text_value,
      List.append_nil, List.append_assoc]
  case stp =>
    simp only [plain_append, plain_cons, plain_nil, plain_vendorPieces, plain_cityISPPieces,
      text_fixed, text_value, List.append_nil, List.append_assoc]
  case other =>
    simp only [plain_cons, plain_nil, text_fixed, text_value, List.append_nil, List.append_assoc]

/-- The pieces are those of the info text. -/
theorem plain_infoPieces : plain (infoPieces toLower pkt) = getPacketInfo toLower pkt := by
  unfold infoPieces getPacketInfo
  refine plain_ite ?sni (plain_ite ?extra (plain_ite ?dns (plain_protocolPieces pkt toLower)))
  case sni =>
    simp only [plain_append, plain_cons, plain_nil, plain_portPieces, text_fixed, text_value,
      List.append_nil, List.append_assoc]
  case extra => simp only [plain_cons, plain_nil, text_value, List.append_nil]
  case dns => simp only [plain_cons, plain_nil, text_fixed, text_value, List.append_nil]

end

/-- In the row of a packet every value in the info cell is escaped: the cell has the special
characters that `getPacketInfo` writes, and no others. -/
def InfoEscaped (lib : Library) (index : ℕ) (localTime : UInt64 → Str) (selectedIdx : ℤ)
    (decodedLength : Option ℕ) (pkt : Packet.DashboardPacket) : Prop :=
  row localTime selectedIdx decodedLength (label lib index pkt) =
    rowStart localTime selectedIdx decodedLength (label lib index pkt) ++
      infoCell (escaped (infoPieces lib.toLower pkt)) ++ "</tr>".toList

theorem infoEscaped_iff (lib : Library) (index : ℕ) (localTime : UInt64 → Str) (selectedIdx : ℤ)
    (decodedLength : Option ℕ) (pkt : Packet.DashboardPacket) :
    InfoEscaped lib index localTime selectedIdx decodedLength pkt ↔
      ValuesPlain (infoPieces lib.toLower pkt) := by
  have hinfo : (label lib index pkt).info = plain (infoPieces lib.toLower pkt) := by
    rw [plain_infoPieces]
    rfl
  unfold InfoEscaped row infoCell
  rw [hinfo, ← plain_eq_escaped_iff]
  constructor
  · intro h
    exact List.append_cancel_left (List.append_cancel_right (List.append_cancel_left
      (List.append_cancel_right h)))
  · intro h
    rw [h]

/-! ### Texts without special characters -/

theorem plainText_digits : PlainText digits := by decide

theorem plainText_dec (n : ℕ) : PlainText (dec n) := fun _ hc =>
  plainText_digits _ (dec_subset_digits n hc)

theorem plainText_hex2 (b : UInt8) : PlainText (hex2 b) := fun _ hc =>
  plainText_digits _ (hex2_subset_digits b hc)

theorem plainText_ipAddrToString (ip : Vector UInt8 16) (isV6 : Bool) :
    PlainText (ipAddrToString ip isV6) := by
  have hcolon : PlainText [':'] := by decide
  have hdot : PlainText ['.'] := by decide
  unfold ipAddrToString quad
  split_ifs <;> simp only [plainText_append, plainText_hex2, plainText_dec, hcolon, hdot, and_self]

theorem plainText_macAddrToString (mac : Vector UInt8 6) : PlainText (macAddrToString mac) := by
  have hcolon : PlainText [':'] := by decide
  unfold macAddrToString
  simp only [plainText_append, plainText_hex2, hcolon, and_self]

/-- `unicode.ToLower` on ASCII. -/
def LowersAscii (lib : Library) : Prop := ∀ c, AsciiChar c → lib.lower c = c.toLower

/-- An ASCII text without special characters. -/
def PlainAscii (t : Str) : Prop := ∀ c ∈ t, AsciiChar c ∧ ¬ Special c

instance (t : Str) : Decidable (PlainAscii t) := List.decidableBAll _ t

theorem not_special_toLower {c : Char} (hc : AsciiChar c) (h : ¬ Special c) : ¬ Special c.toLower := by
  have hall : ∀ n < 128, ¬ Special (Char.ofNat n) → ¬ Special (Char.ofNat n).toLower := by decide
  have := hall c.toNat hc
  rw [Char.ofNat_toNat] at this
  exact this h

theorem plainText_toLower {lib : Library} (hlib : LowersAscii lib) {t : Str} (ht : PlainAscii t) :
    PlainText (lib.toLower t) := by
  intro c hc
  obtain ⟨d, hd, rfl⟩ := List.mem_map.mp hc
  obtain ⟨hascii, hplain⟩ := ht d hd
  rw [hlib d hascii]
  exact not_special_toLower hascii hplain

theorem plainAscii_unknown (proto : UInt8) :
    PlainAscii ("Unknown(".toList ++ dec proto.toNat ++ [')']) := by
  have hdigits : PlainAscii digits := by decide
  have hopen : PlainAscii "Unknown(".toList := by decide
  have hclose : PlainAscii [')'] := by decide
  intro c hc
  rcases List.mem_append.mp hc with hc | hc
  · rcases List.mem_append.mp hc with hc | hc
    · exact hopen c hc
    · exact hdigits c (dec_subset_digits _ hc)
  · exact hclose c hc

theorem plainAscii_protocolToString (proto : UInt8) (src dst : UInt16) :
    PlainAscii (protocolToString proto src dst) := by
  unfold protocolToString
  split_ifs <;> first | exact plainAscii_unknown proto | decide

/-! ### What a record shows -/

theorem special_charOf {b : UInt8} (hb : IsAscii b) : Special (charOf b) ↔ Markup b := by
  have hall : ∀ n < 128, Special (charOf (UInt8.ofNat n)) ↔ Markup (UInt8.ofNat n) := by decide
  have := hall b.toNat hb
  rwa [UInt8.ofNat_toNat] at this

/-- The special characters of a decoded text are the markup bytes of the field. -/
theorem plainText_lossyText {n : ℕ} (raw : Vector UInt8 n) :
    PlainText (lossyText raw) ↔ Clean raw.toList := by
  constructor
  · intro h b hb hm
    have hascii : IsAscii b := by rcases hm with rfl | rfl | rfl <;> decide
    have hspecial : Special (charOf b) := (special_charOf hascii).mpr hm
    have hchar : AsciiChar (charOf b) := by unfold AsciiChar; rw [toNat_charOf hascii]; exact hascii
    have hne : charOf b ≠ '\x00' := by
      rcases hspecial with h | h | h <;> rw [h] <;> decide
    have hmem : charOf b ∈ fromUtf8Lossy raw.toList :=
      (mem_fromUtf8Lossy hchar _).mpr ⟨b, hb, hascii, rfl⟩
    exact h _ (mem_trimNul hmem hne) hspecial
  · intro h c hc hspecial
    have hchar : AsciiChar c := by rcases hspecial with rfl | rfl | rfl <;> decide
    obtain ⟨b, hb, hascii, rfl⟩ := (mem_fromUtf8Lossy hchar _).mp (mem_of_mem_trimNul hc)
    exact h b hb ((special_charOf hascii).mp hspecial)

theorem lossyText_eq_nil_iff {n : ℕ} (raw : Vector UInt8 n) : lossyText raw = [] ↔ raw = zeros n := by
  unfold lossyText
  rw [trimNul_eq_nil_iff]
  constructor
  · intro h
    have hall := eq_zero_of_fromUtf8Lossy _ h
    apply Vector.ext
    intro i hi
    rw [hall raw[i] (by simp)]
    simp [zeros]
  · rintro rfl c hc
    have hascii : ∀ b ∈ (zeros n).toList, IsAscii b := by
      intro b hb
      rw [zeros, Vector.toList_replicate, List.mem_replicate] at hb
      rw [hb.2]
      decide
    rw [fromUtf8Lossy_ascii _ hascii] at hc
    obtain ⟨b, hb, rfl⟩ := List.mem_map.mp hc
    rw [zeros, Vector.toList_replicate, List.mem_replicate] at hb
    rw [hb.2]
    rfl

/-- The field whose text `getPacketInfo` shows, if the record has one. -/
def shownBytes (p : PacketInfo) : List UInt8 :=
  if p.tlsSni ≠ zeros 64 then p.tlsSni.toList
  else if p.extraInfo ≠ zeros 128 then p.extraInfo.toList
  else p.dnsQuery.toList

section

variable {lib : Library} (hlib : LowersAscii lib) (p : PacketInfo)

theorem valuesPlain_fixed {s : String} {ps : List Piece} :
    ValuesPlain (fixed s :: ps) ↔ ValuesPlain ps := valuesPlain_own

theorem valuesPlain_number {n : ℕ} {ps : List Piece} :
    ValuesPlain (number n :: ps) ↔ ValuesPlain ps := by
  unfold number
  rw [valuesPlain_value, and_iff_right (plainText_dec n)]

theorem valuesPlain_portPieces (pkt : Packet.DashboardPacket) : ValuesPlain (portPieces pkt) := by
  simp only [portPieces, valuesPlain_number, valuesPlain_fixed, valuesPlain_nil]

theorem valuesPlain_tcpPieces (pkt : Packet.DashboardPacket) : ValuesPlain (tcpPieces pkt) := by
  unfold tcpPieces
  simp only [valuesPlain_append, valuesPlain_portPieces, valuesPlain_number, valuesPlain_fixed,
    valuesPlain_nil, true_and, and_true]
  constructor
  · exact .ite (valuesPlain_fixed.mpr valuesPlain_nil) valuesPlain_nil
  · refine .ite ?_ valuesPlain_nil
    simp only [valuesPlain_fixed, valuesPlain_own, valuesPlain_nil]

include hlib

/-- The texts that are made of the header fields have no special characters. -/
theorem valuesPlain_protocolPieces :
    ValuesPlain (protocolPieces lib.toLower (received (shown p))) := by
  have hlower : PlainText (lib.toLower (received (shown p)).protocol) :=
    plainText_toLower hlib (plainAscii_protocolToString _ _ _)
  have hsrc : PlainText (received (shown p)).srcIp := plainText_ipAddrToString _ _
  have hdst : PlainText (received (shown p)).dstIp := plainText_ipAddrToString _ _
  have hmac : PlainText (received (shown p)).dstMac := plainText_macAddrToString _
  have hsv : vendorPieces (received (shown p)).srcMacVendor = [] := rfl
  have hdv : vendorPieces (received (shown p)).dstMacVendor = [] := rfl
  have hgeo : cityISPPieces (received (shown p)) = [] := rfl
  unfold protocolPieces
  refine .ite (valuesPlain_tcpPieces _) (.ite ?_ (.ite ?_ (.ite ?_ (.ite ?_ (.ite ?_ (.ite ?_
    (.ite ?_ (.ite ?_ (.ite ?_ ?_)))))))))
  all_goals
    simp only [hsv, hdv, hgeo, hlower, hsrc, hdst, hmac, valuesPlain_append, valuesPlain_portPieces,
      valuesPlain_number, valuesPlain_fixed, valuesPlain_value, valuesPlain_nil, and_self]

/-- The info text of a record is free of special characters if and only if the field it shows has no
markup byte. -/
theorem valuesPlain_infoPieces :
    ValuesPlain (infoPieces lib.toLower (received (shown p))) ↔ Clean (shownBytes p) := by
  have hsni : (received (shown p)).tlsSni = lossyText p.tlsSni := rfl
  have hextra : (received (shown p)).extraInfo = lossyText p.extraInfo := rfl
  have hdns : (received (shown p)).dnsQuery = lossyText p.dnsQuery := rfl
  unfold infoPieces shownBytes
  rw [hsni, hextra, hdns]
  simp only [ne_eq, lossyText_eq_nil_iff]
  by_cases h1 : p.tlsSni = zeros 64
  swap
  · simp only [h1, not_false_eq_true, ↓reduceIte, valuesPlain_append, valuesPlain_portPieces,
      valuesPlain_fixed, valuesPlain_value, valuesPlain_nil, and_true, plainText_lossyText]
  by_cases h2 : p.extraInfo = zeros 128
  swap
  · simp only [h1, h2, not_true, not_false_eq_true, ↓reduceIte, valuesPlain_value, valuesPlain_nil,
      and_true, plainText_lossyText]
  by_cases h3 : p.dnsQuery = zeros 64
  · simp only [h1, h2, h3, not_true, ↓reduceIte]
    exact ⟨fun _ => clean_zeros, fun _ => valuesPlain_protocolPieces hlib p⟩
  · simp only [h1, h2, h3, not_true, not_false_eq_true, ↓reduceIte, valuesPlain_fixed,
      valuesPlain_value, valuesPlain_nil, and_true, plainText_lossyText]

end

/-! ### From the frame to the row -/

theorem clean_shownBytes_of_told {packet : ℕ → UInt8} {E : ℕ → Prop} {r : PacketInfo}
    (h : Told packet E r) : Clean (shownBytes r) ↔ ∀ i, E i → ¬ Markup (packet i) := by
  rw [← h.clean_iff]
  unfold shownBytes
  rw [if_neg (not_not.mpr h.tlsSni)]
  rcases h.single with hextra | hdns
  · rw [if_neg (not_not.mpr hextra), hextra, and_iff_right clean_zeros]
  · rw [hdns, and_iff_left clean_zeros]
    split_ifs with hextra
    · exact Iff.rfl
    · rw [not_not.mp hextra]
      exact ⟨fun _ => clean_zeros, fun _ => clean_zeros⟩

/-- Every record that is made of a raw packet has all the values of its info cell escaped, once it has
been sent, decoded and labelled. -/
def RowsEscaped (lib : Library) (hmac : List UInt8 → Vector UInt8 64) (index : ℕ)
    (localTime : UInt64 → Str) (selectedIdx : ℤ) (decodedLength : Option ℕ) (raw : RawPacket)
    (prior : PacketInfo) : Prop :=
  ∀ record pkt, (dissectRawPacket raw prior).val = some record →
    decode.run (sendPacketInfo hmac record) = some (pkt, []) →
    InfoEscaped lib index localTime selectedIdx decodedLength (received pkt)

section

variable {lib : Library} (hlib : LowersAscii lib) {hmac : List UInt8 → Vector UInt8 64} {index : ℕ}
  {localTime : UInt64 → Str} {selectedIdx : ℤ} {decodedLength : Option ℕ} {raw : RawPacket}
  {prior : PacketInfo}

include hlib

theorem rowsEscaped_iff_clean : RowsEscaped lib hmac index localTime selectedIdx decodedLength raw prior ↔
    ∀ record, (dissectRawPacket raw prior).val = some record → Clean (shownBytes record) := by
  have hrun : ∀ record, decode.run (sendPacketInfo hmac record) = some (shown record, []) := by
    intro record
    have h := run_decode_send hmac record []
    rwa [List.append_nil] at h
  unfold RowsEscaped
  constructor
  · intro h record hrec
    have := h record _ hrec (hrun record)
    rwa [infoEscaped_iff, valuesPlain_infoPieces hlib] at this
  · intro h record pkt hrec hdec
    rw [hrun, Option.some.injEq, Prod.mk.injEq] at hdec
    rw [← hdec.1, infoEscaped_iff, valuesPlain_infoPieces hlib]
    exact h record hrec

/-- Too short for an Ethernet header: the record is what it was. -/
theorem rowsEscaped_short (h : raw.pkthdr.caplen.toNat < 14) :
    RowsEscaped lib hmac index localTime selectedIdx decodedLength raw prior ↔
      Clean (shownBytes prior) := by
  have hval : (dissectRawPacket raw prior).val = some prior := by
    unfold dissectRawPacket
    rw [parseEthernetLayer_short h]
    rfl
  rw [rowsEscaped_iff_clean hlib, hval]
  constructor
  · exact fun h => h prior rfl
  · intro h record hrec
    rwa [← Option.some.inj hrec]

theorem rowsEscaped_frame (h : 14 ≤ raw.pkthdr.caplen.toNat) :
    RowsEscaped lib hmac index localTime selectedIdx decodedLength raw prior ↔
      Unmarked raw.data raw.pkthdr.caplen := by
  have htold := dissectRawPacket_told h prior
  unfold Ensures at htold
  rw [rowsEscaped_iff_clean hlib]
  cases hval : (dissectRawPacket raw prior).val with
  | none =>
    rw [hval] at htold
    exact ⟨fun _ => htold, fun _ record hrec => absurd hrec (by simp)⟩
  | some r =>
    rw [hval] at htold
    constructor
    · intro hall
      exact (clean_shownBytes_of_told htold).mp (hall r rfl)
    · intro hun record hrec
      rw [← Option.some.inj hrec]
      exact (clean_shownBytes_of_told htold).mpr hun

end

/-- **No markup in the info cell.** For a captured frame every value in the info cell of its row is
escaped if and only if none of the bytes that the dissectors copy to the texts is markup; a frame that
is too short for an Ethernet header shows the text that was left in the record. -/
theorem infoCell_escaped_iff (lib : Library) (hlib : LowersAscii lib)
    (hmac : List UInt8 → Vector UInt8 64) (pkthdr : PcapPkthdr) (frame mem : ℕ → UInt8)
    (lastTs : Timeval) (prior : PacketInfo) (index : ℕ) (localTime : UInt64 → Str) (selectedIdx : ℤ)
    (decodedLength : Option ℕ) :
    RowsEscaped lib hmac index localTime selectedIdx decodedLength
        (packetHandler pkthdr frame mem lastTs) prior ↔
      (pkthdr.caplen.toNat < 14 → Clean (shownBytes prior)) ∧
        Unmarked (packetHandler pkthdr frame mem lastTs).data pkthdr.caplen := by
  by_cases h : pkthdr.caplen.toNat < 14
  · have hnone : Unmarked (packetHandler pkthdr frame mem lastTs).data pkthdr.caplen := by
      intro i hi
      obtain ⟨k, hk, -⟩ := hi.accepted
      have := hk.depth.fits
      omega
    rw [@rowsEscaped_short lib hlib hmac index localTime selectedIdx decodedLength
      (packetHandler pkthdr frame mem lastTs) prior h]
    exact ⟨fun hc => ⟨fun _ => hc, hnone⟩, fun hc => hc.1 h⟩
  · rw [@rowsEscaped_frame lib hlib hmac index localTime selectedIdx decodedLength
      (packetHandler pkthdr frame mem lastTs) prior (not_lt.mp h)]
    exact ⟨fun hun => ⟨fun hlt => absurd hlt h, hun⟩, And.right⟩

/-- A library whose `unicode.ToLower` is that of ASCII. -/
def asciiLibrary : Library := ⟨Char.toLower, fun _ => none, fun _ => none⟩

/-- A TCP segment to port 80 with the given ten bytes of payload. -/
def requestFrame (payload : String) (i : ℕ) : UInt8 :=
  ([0, 1, 2, 3, 4, 5, 6, 7, 8, 9, 10, 11, 0x08, 0x00,
    0x45, 0, 0, 50, 0, 1, 0, 0, 64, 6, 0, 0, 10, 0, 0, 1, 10, 0, 0, 2,
    0x30, 0x39, 0, 80, 0, 0, 0, 1, 0, 0, 0, 1, 0x50, 0x18, 1, 0, 0, 0, 0, 0] ++
    Lib.CBuffer.ascii payload).getD i 0

/-- A request without markup is shown as it is. -/
theorem plainRequest_escaped : LowersAscii asciiLibrary ∧
    RowsEscaped asciiLibrary (fun _ => zeros 64) 1 (fun _ => []) (-1) (some 64)
      (packetHandler (hdrOf 64) (requestFrame "GET /a b\r\n") (fun _ => 0) ⟨0, 0⟩) PacketInfo.zero := by
  refine ⟨fun _ _ => rfl, (infoCell_escaped_iff asciiLibrary (fun _ _ => rfl) _ _ _ _ _ _ _ _ _ _).mpr
    ⟨fun h => absurd h (by decide), fun i _ => ?_⟩⟩
  have hbytes : ∀ j < 64, ¬ Markup (requestFrame "GET /a b\r\n" j) := by decide
  show ¬ Markup (if i < copiedLen (hdrOf 64) then requestFrame "GET /a b\r\n" i else 0)
  split_ifs with hi
  · exact hbytes i (lt_of_lt_of_le hi (by decide))
  · decide

/-- A tag in a request line becomes a tag of the page. -/
theorem taggedRequest_injects :
    ¬ RowsEscaped asciiLibrary (fun _ => zeros 64) 1 (fun _ => []) (-1) (some 64)
      (packetHandler (hdrOf 64) (requestFrame "GET /<b>\r\n") (fun _ => 0) ⟨0, 0⟩) PacketInfo.zero := by
  rw [rowsEscaped_frame (fun _ _ => rfl) (by decide)]
  intro h
  refine h 59 (.http 0 20 ⟨⟨by decide, by decide, by decide⟩, by decide, Or.inl ⟨20, by decide⟩⟩
    (by decide) ⟨by decide, by decide, by decide⟩ ?_ ?_ ?_) (by decide)
  · exact Or.inr (by decide)
  · exact ⟨by decide, _, List.mem_cons_self .., by decide⟩
  · exact .start (show 5 < textLen _ _ _ by decide)

end Pacsni.Dashboard.Page
