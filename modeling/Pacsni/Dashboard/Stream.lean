import Pacsni.Service.Hosts
import Pacsni.Dashboard.Page
import Pacsni.Dashboard.Geo

/-! # Stream filters

A filter `STREAM:a:p:b:q` selects the packets of a TCP connection. The server cuts it at its colons, so
it works for the dotted addresses of IPv4 only. The page asks for it under the name `stream`, which the
server does not know: it takes the whole text for a word to look for. -/

namespace Pacsni.Dashboard.Stream

open Pacsni.Lib.Text Pacsni.Lib.Strings Pacsni.Lib.Runs
open Pacsni.Service.Model (ipAddrToString quad)
open Pacsni.Service.Hosts (colon_mem_ipAddrToString)
open Pacsni.Dashboard.Packet Pacsni.Dashboard.Lru Pacsni.Dashboard.Matching Pacsni.Dashboard.Server
open Pacsni.Dashboard.Page (LowersAscii asciiLibrary)
open Pacsni.Dashboard.Geo (fromPublic started init_started SavedOK)

/-- The name of a filter and the two ends of a connection, with colons between them. -/
def streamText (name a : Str) (p : UInt16) (b : Str) (q : UInt16) : Str :=
  name ++ ':' :: (a ++ ':' :: (dec p.toNat ++ ':' :: (b ++ ':' :: dec q.toNat)))

/-- The packet goes from the first end to the second one. -/
def Connects (pkt : DashboardPacket) (a : Str) (p : UInt16) (b : Str) (q : UInt16) : Prop :=
  pkt.srcIp = a ∧ pkt.srcPort = p ∧ pkt.dstIp = b ∧ pkt.dstPort = q

/-! ### Addresses -/

/-- What addresses are written with. -/
def addressChars : Str := digits ++ ".:".toList

theorem quad_subset (a b c d : UInt8) : quad a b c d ⊆ digits ++ ['.'] := by
  have hdec : ∀ n, dec n ⊆ digits ++ ['.'] := fun n =>
    List.subset_append_of_subset_left _ (dec_subset_digits n)
  have hdot : ['.'] ⊆ digits ++ ['.'] := List.subset_append_right _ _
  unfold quad
  simp only [List.append_subset, hdec, hdot, and_self]

theorem ipAddrToString_subset (ip : Vector UInt8 16) (isV6 : Bool) :
    ipAddrToString ip isV6 ⊆ addressChars := by
  have hhex : ∀ b, hex2 b ⊆ addressChars := fun b =>
    List.subset_append_of_subset_left _ (hex2_subset_digits b)
  have hcolon : [':'] ⊆ addressChars := by decide
  have hquad : digits ++ ['.'] ⊆ addressChars := by decide
  cases isV6 with
  | true =>
    show _ ++ _ ⊆ addressChars
    simp only [List.append_subset, hhex, hcolon, and_self]
  | false => exact fun _ h => hquad (quad_subset _ _ _ _ h)

/-! ### The filter that the server knows -/

section

variable {a b : Str} {p q : UInt16}

theorem endpoints_eq_true (pkt : DashboardPacket) :
    endpoints pkt a (dec p.toNat) b (dec q.toNat) = true ↔ Connects pkt a p b q := by
  have hport : ∀ x y : UInt16, dec x.toNat = dec y.toNat ↔ x = y := fun x y =>
    ⟨fun h => UInt16.toNat_inj.mp (dec_injective h), fun h => by rw [h]⟩
  simp only [endpoints, Connects, Bool.and_eq_true, beq_iff_eq, hport, and_assoc]

theorem split_streamText {name : Str} (hname : ':' ∉ name) (ha : ':' ∉ a) (hb : ':' ∉ b) :
    split (streamText name a p b q) ':' = [name, a, dec p.toNat, b, dec q.toNat] := by
  have hdec : ∀ n, ':' ∉ dec n := notMem_dec (by decide)
  show (joinWith ':' [name, a, dec p.toNat, b, dec q.toNat]).splitOn ':' = _
  exact splitOn_joinWith (by simp [hname, ha, hb, hdec]) nofun

theorem accepts_stream (lib : Library) (pkt : DashboardPacket) :
    accepts lib (Filter.ofText lib (streamText "STREAM".toList a p b q)) pkt =
      matchStream (streamText "STREAM".toList a p b q) pkt := by
  have hne : streamText "STREAM".toList a p b q ≠ [] := nofun
  have hpre : hasPrefix (streamText "STREAM".toList a p b q) "STREAM:".toList = true := rfl
  simp only [accepts, Filter.ofText, hne, hpre, ↓reduceIte]

theorem matchStream_iff (ha : ':' ∉ a) (hb : ':' ∉ b) (pkt : DashboardPacket) :
    matchStream (streamText "STREAM".toList a p b q) pkt = true ↔
      pkt.protocol = "TCP".toList ∧ (Connects pkt a p b q ∨ Connects pkt b q a p) := by
  rw [matchStream_of_split (split_streamText (by decide) ha hb)]
  simp only [endpoints_eq_true]

/-- With one more colon there are too many parts. -/
theorem matchStream_of_colon (h : ':' ∈ a ∨ ':' ∈ b) (pkt : DashboardPacket) :
    matchStream (streamText "STREAM".toList a p b q) pkt = false := by
  have hcount : 1 ≤ a.count ':' + b.count ':' := by
    rcases h with h | h
    · have := List.count_pos_iff.mpr h
      omega
    · have := List.count_pos_iff.mpr h
      omega
  have hlen : 5 < (split (streamText "STREAM".toList a p b q) ':').length := by
    rw [length_split]
    simp only [streamText, List.count_append, List.count_cons_self]
    omega
  unfold matchStream
  split
  · rename_i heq
    rw [heq] at hlen
    simp at hlen
  · rfl

/-- **Stream filters.** A stream filter selects the packets of the connection if and only if both
addresses are dotted ones. -/
theorem stream_exact_iff (lib : Library) (ip₁ ip₂ : Vector UInt8 16) (v₁ v₂ : Bool) (p q : UInt16) :
    (∀ pkt : DashboardPacket,
      accepts lib (Filter.ofText lib (streamText "STREAM".toList (ipAddrToString ip₁ v₁) p
          (ipAddrToString ip₂ v₂) q)) pkt = true ↔
        pkt.protocol = "TCP".toList ∧
          (Connects pkt (ipAddrToString ip₁ v₁) p (ipAddrToString ip₂ v₂) q ∨
            Connects pkt (ipAddrToString ip₂ v₂) q (ipAddrToString ip₁ v₁) p)) ↔
      v₁ = false ∧ v₂ = false := by
  have hcolon : ∀ ip v, ':' ∉ ipAddrToString ip v ↔ v = false := by
    intro ip v
    rw [colon_mem_ipAddrToString, Bool.not_eq_true]
  simp only [accepts_stream]
  constructor
  · intro h
    rw [← hcolon ip₁, ← hcolon ip₂]
    by_contra hno
    have hsome : ':' ∈ ipAddrToString ip₁ v₁ ∨ ':' ∈ ipAddrToString ip₂ v₂ := by
      by_contra hnone
      exact hno (not_or.mp hnone)
    -- a packet of the connection is rejected
    have hpkt := (h { received fromPublic with
      protocol := "TCP".toList
      srcIp := ipAddrToString ip₁ v₁
      srcPort := p
      dstIp := ipAddrToString ip₂ v₂
      dstPort := q }).mpr ⟨rfl, Or.inl ⟨rfl, rfl, rfl, rfl⟩⟩
    rw [matchStream_of_colon hsome] at hpkt
    cases hpkt
  · rintro ⟨h₁, h₂⟩ pkt
    exact matchStream_iff ((hcolon ip₁ v₁).mpr h₁) ((hcolon ip₂ v₂).mpr h₂) pkt

end

/-- The address `::1`. -/
def loopback6 : Vector UInt8 16 := #v[0, 0, 0, 0, 0, 0, 0, 0, 0, 0, 0, 0, 0, 0, 0, 1]

/-- A TCP packet from `::1` to `::1`. -/
def loopbackSegment : DashboardPacket :=
  { received fromPublic with
    protocol := "TCP".toList
    srcIp := ipAddrToString loopback6 true
    srcPort := 1234
    dstIp := ipAddrToString loopback6 true
    dstPort := 4321 }

/-- A packet of a connection over IPv6 is rejected by the filter for it. -/
theorem loopbackSegment_rejected :
    ¬ ∀ (ip₁ ip₂ : Vector UInt8 16) (v₁ v₂ : Bool) (p q : UInt16) (pkt : DashboardPacket),
      accepts asciiLibrary (Filter.ofText asciiLibrary (streamText "STREAM".toList
          (ipAddrToString ip₁ v₁) p (ipAddrToString ip₂ v₂) q)) pkt = true ↔
        pkt.protocol = "TCP".toList ∧
          (Connects pkt (ipAddrToString ip₁ v₁) p (ipAddrToString ip₂ v₂) q ∨
            Connects pkt (ipAddrToString ip₂ v₂) q (ipAddrToString ip₁ v₁) p) := by
  intro h
  have hacc := (h loopback6 loopback6 true true 1234 4321 loopbackSegment).mpr
    ⟨rfl, Or.inl ⟨rfl, rfl, rfl, rfl⟩⟩
  rw [accepts_stream, matchStream_of_colon
    (Or.inl ((colon_mem_ipAddrToString loopback6 true).mpr rfl))] at hacc
  cases hacc

/-! ### The filter that the page asks for -/

/-- `followStream`: the URL that the page goes to. -/
def followStream (src : Str) (sport : UInt16) (dst : Str) (dport : UInt16) : Str :=
  "/?filter=".toList ++ streamText "stream".toList src sport dst dport

/-- The value of a hexadecimal digit. -/
def unhex (c : Char) : Option ℕ :=
  if '0' ≤ c ∧ c ≤ '9' then some (c.toNat - '0'.toNat)
  else if 'a' ≤ c ∧ c ≤ 'f' then some (c.toNat - 'a'.toNat + 10)
  else if 'A' ≤ c ∧ c ≤ 'F' then some (c.toNat - 'A'.toNat + 10)
  else none

/-- `url.QueryUnescape`, over the ASCII characters of a URL. -/
def queryUnescape : Str → Option (List UInt8)
  | [] => some []
  | '+' :: t => (queryUnescape t).map (0x20 :: ·)
  | '%' :: x :: y :: t => do
    let high ← unhex x
    let low ← unhex y
    (queryUnescape t).map (UInt8.ofNat (16 * high + low) :: ·)
  | '%' :: _ => none
  | c :: t => (queryUnescape t).map (UInt8.ofNat c.toNat :: ·)

/-- A pair of `url.ParseQuery`. -/
def queryPair (pair : Str) : Option (List UInt8 × List UInt8) :=
  if ';' ∈ pair then none
  else do
    let key ← queryUnescape (pair.takeWhile (· ≠ '='))
    let value ← queryUnescape ((pair.dropWhile (· ≠ '=')).drop 1)
    return (key, value)

/-- `query["filter"][0]` of the query of a URL. -/
def filterOf (url : Str) : Option Str :=
  let pairs := (split ((url.dropWhile (· ≠ '?')).drop 1) '&').filterMap queryPair
  (pairs.lookup (Lib.CBuffer.ascii "filter")).map fromUtf8Lossy

/-- What a stream filter is written with. -/
def streamChars : Str := "stream".toList ++ addressChars

theorem streamChars_eq : streamChars = ['s', 't', 'r', 'e', 'a', 'm', '0', '1', '2', '3', '4', '5', '6',
    '7', '8', '9', 'a', 'b', 'c', 'd', 'e', 'f', '*', '.', ':'] := rfl

theorem streamText_subset {a b : Str} (ha : a ⊆ addressChars) (hb : b ⊆ addressChars) (p q : UInt16) :
    streamText "stream".toList a p b q ⊆ streamChars := by
  have hname : "stream".toList ⊆ streamChars := List.subset_append_left _ _
  have haddr : addressChars ⊆ streamChars := List.subset_append_right _ _
  have hdec : ∀ n, dec n ⊆ streamChars := by
    intro n c hc
    exact haddr (List.mem_append_left _ (dec_subset_digits n hc))
  have hcolon : ':' ∈ streamChars := by decide
  unfold streamText
  simp only [List.append_subset, List.cons_subset, hname, hcolon, hdec, true_and, and_true]
  exact ⟨fun _ h => haddr (ha h), fun _ h => haddr (hb h)⟩

theorem queryUnescape_plain {c : Char} (t : Str) (hplus : c ≠ '+') (hpercent : c ≠ '%') :
    queryUnescape (c :: t) = (queryUnescape t).map (UInt8.ofNat c.toNat :: ·) := by
  rw [queryUnescape]
  · exact hplus
  · exact fun _ _ _ h _ => hpercent h
  · exact hpercent

/-- Characters that stand for themselves. -/
theorem queryUnescape_eq : ∀ {t : Str}, (∀ c ∈ t, c ≠ '+' ∧ c ≠ '%') →
    queryUnescape t = some (t.map fun c => UInt8.ofNat c.toNat)
  | [], _ => rfl
  | c :: t, h => by
    obtain ⟨⟨hplus, hpercent⟩, ht⟩ := List.forall_mem_cons.mp h
    rw [queryUnescape_plain t hplus hpercent, queryUnescape_eq ht]
    rfl

/-- The text of a filter is read back from its bytes. -/
theorem fromUtf8Lossy_map {t : Str} (h : t ⊆ streamChars) :
    fromUtf8Lossy (t.map fun c => UInt8.ofNat c.toNat) = t := by
  have hascii : ∀ c ∈ streamChars, IsAscii (UInt8.ofNat c.toNat) ∧
      charOf (UInt8.ofNat c.toNat) = c := by
    rw [streamChars_eq]
    simp [IsAscii, charOf]
  rw [fromUtf8Lossy_ascii, List.map_map]
  · exact (List.map_congr_left fun c hc => (hascii c (h hc)).2).trans (List.map_id t)
  · intro b hb
    obtain ⟨c, hc, rfl⟩ := List.mem_map.mp hb
    exact (hascii c (h hc)).1

/-- The server gets the text that the page has put into the URL. -/
theorem filterOf_followStream {a b : Str} (ha : a ⊆ addressChars) (hb : b ⊆ addressChars)
    (p q : UInt16) :
    filterOf (followStream a p b q) = some (streamText "stream".toList a p b q) := by
  have hsub := streamText_subset ha hb p q
  generalize ht : streamText "stream".toList a p b q = t at hsub
  have hother : ∀ c ∈ streamChars, c ≠ '&' ∧ c ≠ ';' ∧ c ≠ '+' ∧ c ≠ '%' := by
    rw [streamChars_eq]
    simp
  have hamp : '&' ∉ "filter=".toList ++ t := by
    simpa using fun h => (hother _ (hsub h)).1 rfl
  have hsemi : ';' ∉ "filter=".toList ++ t := by
    simpa using fun h => (hother _ (hsub h)).2.1 rfl
  have hquery : ((followStream a p b q).dropWhile (· ≠ '?')).drop 1 = "filter=".toList ++ t := by
    have hurl : followStream a p b q = "/?filter=".toList ++ t := congrArg _ ht
    simp [hurl]
  have hkey : ("filter=".toList ++ t).takeWhile (· ≠ '=') = "filter".toList := by simp
  have hvalue : (("filter=".toList ++ t).dropWhile (· ≠ '=')).drop 1 = t := by simp
  have hpair : queryPair ("filter=".toList ++ t) =
      some (Lib.CBuffer.ascii "filter", t.map fun c => UInt8.ofNat c.toNat) := by
    unfold queryPair
    rw [if_neg hsemi, hkey, hvalue, queryUnescape_eq (by simp),
      queryUnescape_eq fun c hc => (hother c (hsub hc)).2.2]
    rfl
  unfold filterOf
  rw [hquery, split, List.splitOn_eq_singleton hamp]
  show (([_].filterMap queryPair).lookup _).map fromUtf8Lossy = _
  rw [List.filterMap_cons_some hpair, List.filterMap_nil, List.lookup_cons_self, Option.map_some,
    fromUtf8Lossy_map hsub]

/-! ### How the server takes it -/

section

variable {lib : Library} (hlib : LowersAscii lib) {a b : Str} (ha : a ⊆ addressChars)
  (hb : b ⊆ addressChars) (p q : UInt16)

include hlib

theorem toLower_of_subset {t : Str} (ht : t ⊆ streamChars) : lib.toLower t = t := by
  have hlow : ∀ c ∈ streamChars, AsciiChar c ∧ c.toLower = c := by
    rw [streamChars_eq]
    simp [AsciiChar]
  refine (List.map_congr_left fun c hc => ?_).trans (List.map_id t)
  obtain ⟨hascii, hsame⟩ := hlow c (ht hc)
  rw [hlib c hascii, hsame, id]

theorem toLower_address (ha : a ⊆ addressChars) : lib.toLower a = a :=
  toLower_of_subset hlib fun _ h => List.mem_append_right _ (ha h)

/-- The word does not occur in a packet whose texts have no colon. -/
theorem mentions_streamText {pkt : DashboardPacket} (hproto : pkt.protocol = "TCP".toList)
    (hsrc : pkt.srcIp ⊆ addressChars) (hdst : pkt.dstIp ⊆ addressChars)
    (hinfo : ':' ∉ lib.toLower pkt.info) (hcountry : ':' ∉ lib.toLower pkt.country)
    (hcode : ':' ∉ lib.toLower pkt.countryCode) :
    mentions lib (streamText "stream".toList a p b q) pkt = false := by
  have hs : 's' ∈ streamText "stream".toList a p b q := by simp [streamText]
  have hcolon : ':' ∈ streamText "stream".toList a p b q := by simp [streamText]
  have haddr : 's' ∉ addressChars := by decide
  have htcp : lib.toLower "TCP".toList = "tcp".toList := by
    have hascii : ∀ c ∈ "TCP".toList, lib.lower c = c.toLower := fun c hc =>
      hlib c ((show ∀ c ∈ "TCP".toList, AsciiChar c by simp [AsciiChar]) c hc)
    rw [Library.toLower, List.map_congr_left hascii]
    rfl
  unfold mentions
  rw [hproto, htcp, toLower_address hlib hsrc, toLower_address hlib hdst,
    contains_eq_false hs (by decide), contains_eq_false hs fun h => haddr (hsrc h),
    contains_eq_false hs fun h => haddr (hdst h), contains_eq_false hcolon hinfo,
    contains_eq_false hcolon hcountry, contains_eq_false hcolon hcode]
  simp [streamText]

include ha hb in
theorem rejects_streamText {pkt : DashboardPacket} (hproto : pkt.protocol = "TCP".toList)
    (hsrc : pkt.srcIp ⊆ addressChars) (hdst : pkt.dstIp ⊆ addressChars)
    (hinfo : ':' ∉ lib.toLower pkt.info) (hcountry : ':' ∉ lib.toLower pkt.country)
    (hcode : ':' ∉ lib.toLower pkt.countryCode) :
    accepts lib (Filter.ofText lib (streamText "stream".toList a p b q)) pkt = false := by
  have hmention := mentions_streamText hlib (a := a) (b := b) p q hproto hsrc hdst hinfo hcountry hcode
  have hsub := streamText_subset ha hb p q
  have hother : ∀ c ∈ streamChars, isSpace c = false ∧ c ≠ '/' := by
    rw [streamChars_eq]
    simp [isSpace]
  have hlow := toLower_of_subset hlib hsub
  have hne : streamText "stream".toList a p b q ≠ [] := by simp [streamText]
  have hhead : ∀ d t, d ≠ 's' → hasPrefix (streamText "stream".toList a p b q) (d :: t) = false :=
    fun d t hd => hasPrefix_cons_of_ne (c := 's') hd
  have hstream : hasPrefix (streamText "stream".toList a p b q) "STREAM:".toList = false :=
    hhead 'S' _ (by decide)
  have hregex : hasPrefix (streamText "stream".toList a p b q) "regex:".toList = false :=
    hhead 'r' _ (by decide)
  have hminus : hasPrefix (streamText "stream".toList a p b q) ['-'] = false :=
    hhead '-' _ (by decide)
  have hslash : contains (streamText "stream".toList a p b q) ['/'] = false :=
    contains_eq_false List.mem_cons_self fun h => (hother _ (hsub h)).2 rfl
  have hfields := fields_eq_singleton (fun c hc => (hother c (hsub hc)).1) hne
  simp only [accepts, Filter.ofText, hne, hstream, hlow, hregex, matchText, hfields, matchPart,
    hminus, hmention, hslash, List.all_cons, List.all_nil, Bool.false_eq_true, ↓reduceIte,
    Bool.and_true, Bool.and_false]

theorem colon_not_mem_toLower {t : Str} (ht : ∀ c ∈ t, AsciiChar c ∧ c ≠ ':') :
    ':' ∉ lib.toLower t := by
  have hall : ∀ n < 128, Char.ofNat n ≠ ':' → (Char.ofNat n).toLower ≠ ':' := by decide
  intro h
  obtain ⟨c, hc, hlow⟩ := List.mem_map.mp h
  obtain ⟨hascii, hne⟩ := ht c hc
  have hcolon := hall c.toNat hascii
  rw [Char.ofNat_toNat] at hcolon
  rw [hlib c hascii] at hlow
  exact hcolon hne hlow

end

/-- The packet without anything that is shown in its info beside the fields of its TCP header. -/
def bare (p : Service.Model.DashboardPacket) : Service.Model.DashboardPacket :=
  { p with tlsSni := [], extraInfo := [], dnsQuery := [], tcpFlags := 0, entropyScaled := 0 }

theorem info_bare (lib : Library) (n : ℕ) {p : Service.Model.DashboardPacket}
    (hproto : p.protocol = "TCP".toList) :
    (label lib n (received (bare p))).info =
      dec p.srcPort.toNat ++ " -> ".toList ++ dec p.dstPort.toNat ++ " seq=".toList ++
        dec p.tcpSeq.toNat ++ " ack=".toList ++ dec p.tcpAck.toNat ++ " win=".toList ++
        dec p.tcpWin.toNat ++ " len=".toList ++ dec p.payload.length := by
  show protocolText lib.toLower { received (bare p) with index := n } = _
  unfold protocolText
  rw [if_pos (show (received (bare p)).protocol = "TCP".toList from hproto)]
  simp [tcpText, ports, received, bare, tcpFlagTexts]

/-- What the info of such a packet is written with. -/
def infoChars : Str := digits ++ " ->=seqackwinlen".toList

theorem info_bare_subset (lib : Library) (n : ℕ) {p : Service.Model.DashboardPacket}
    (hproto : p.protocol = "TCP".toList) :
    (label lib n (received (bare p))).info ⊆ infoChars := by
  have hdec : ∀ n, dec n ⊆ infoChars := fun n =>
    List.subset_append_of_subset_left _ (dec_subset_digits n)
  have harrow : " -> ".toList ⊆ infoChars := by decide
  have hseq : " seq=".toList ⊆ infoChars := by decide
  have hack : " ack=".toList ⊆ infoChars := by decide
  have hwin : " win=".toList ⊆ infoChars := by decide
  have hlen : " len=".toList ⊆ infoChars := by decide
  rw [info_bare lib n hproto]
  simp only [List.append_subset, hdec, harrow, hseq, hack, hwin, hlen, and_self]

theorem colon_not_mem_info {lib : Library} (hlib : LowersAscii lib) (n : ℕ)
    {p : Service.Model.DashboardPacket} (hproto : p.protocol = "TCP".toList) :
    ':' ∉ lib.toLower (label lib n (received (bare p))).info := by
  have hall : ∀ c ∈ infoChars, AsciiChar c ∧ c ≠ ':' := by
    show ∀ c ∈ ['0', '1', '2', '3', '4', '5', '6', '7', '8', '9', 'a', 'b', 'c', 'd', 'e', 'f', '*', ' ',
      '-', '>', '=', 's', 'e', 'q', 'a', 'c', 'k', 'w', 'i', 'n', 'l', 'e', 'n'], _
    simp [AsciiChar]
  exact colon_not_mem_toLower hlib fun c hc => hall c (info_bare_subset lib n hproto hc)

/-! ### A packet of the connection is rejected -/

/-- The packet belongs to the connection of `p`, in one of the two directions. -/
def SameConnection (p : Service.Model.DashboardPacket) (pkt : DashboardPacket) : Prop :=
  pkt.protocol = "TCP".toList ∧ (Connects pkt p.srcIp p.srcPort p.dstIp p.dstPort ∨
    Connects pkt p.dstIp p.dstPort p.srcIp p.srcPort)

/-- The server runs, with the filter in force and nothing in its cache. -/
structure Filtered (env : Env) (f : Str) (s : State Unit) : Prop where
  reach : (machine Unit env SavedOK).Reach s
  filter : s.filter = Filter.ofText env.lib f
  idle : s.packetLoop = .idle
  free : s.mu = none
  scanning : s.isScanning = true
  cache : s.geoCache = LruCache.new 10000

theorem exists_filtered (env : Env) {f : Str} (hf : f ≠ []) : ∃ s, Filtered env f s := by
  have h₀ : (machine Unit env SavedOK).Reach started := .of_init init_started
  have h₁ := h₀.next (a := .open () none (some f)) trivial rfl
  have h₂ := h₁.next (a := .request ()) trivial rfl
  have h₃ : (machine Unit env SavedOK).Reach { started with
      filter := Filter.ofText env.lib f
      mu := some (.request ())
      requests := Function.update (Function.update (Function.update started.requests ()
        (.start none (some f))) () (.filter f)) () (.filterSet true f) } := by
    refine h₂.next (a := .request ()) trivial ?_
    show (if ([] : Str) = f then _ else _) = _
    rw [if_neg hf.symm]
    rfl
  have h₄ := h₃.next (a := .request ()) trivial rfl
  exact ⟨_, h₄, rfl, rfl, rfl, rfl, rfl⟩

theorem setCountry_searching (pkt : DashboardPacket) :
    setCountry pkt searching = { pkt with country := searching } := rfl

/-- A packet that arrives then is decided on as a local one, or with the placeholder. -/
theorem Filtered.exists_decide {env : Env} {f : Str} {s : State Unit} (hs : Filtered env f s)
    (q : Service.Model.DashboardPacket) : ∃ (t : State Unit) (n : ℕ) (country : Str),
      (machine Unit env SavedOK).Reach t ∧ t.filter = s.filter ∧
      t.packetLoop = .decide { label env.lib n (received q) with country := country } ∧
      (country = "local".toList ∨ country = searching) := by
  have h₁ : (machine Unit env SavedOK).Reach { s with packetLoop := .received (received q) } := by
    refine hs.reach.next (a := .arrive q) trivial ?_
    simp only [machine, hs.idle]
  have hstart : stepPacket env { s with packetLoop := .received (received q) } =
      some (startItem env { s with packetLoop := .received (received q) } (received q)) := by
    simp only [stepPacket, hs.free]
  have h₂ : (machine Unit env SavedOK).Reach
      (startItem env { s with packetLoop := .received (received q) } (received q)) :=
    h₁.next (a := .packetLoop) trivial hstart
  unfold startItem at h₂
  rw [if_pos hs.scanning] at h₂
  dsimp only at h₂
  cases hip : geoAddress (label env.lib (s.packetCounter + 1) (received q)) with
  | none =>
    rw [hip] at h₂
    exact ⟨_, _, _, h₂, rfl, rfl, Or.inl rfl⟩
  | some ip =>
    rw [hip] at h₂
    have hpublic := (Geo.geoAddress_spec hip).1
    have hget : s.geoCache.get ip = (s.geoCache, none) := by rw [hs.cache]; rfl
    have h₃ : (machine Unit env SavedOK).Reach { s with
        packetCounter := s.packetCounter + 1
        mu := some .packetLoop
        packetLoop := .request (label env.lib (s.packetCounter + 1) (received q)) ip } := by
      refine h₂.next (a := .packetLoop) trivial ?_
      simp only [machine, stepPacket, hpublic, hget, Bool.false_eq_true, ↓reduceIte]
    have h₄ := h₃.next (a := .packetLoop) trivial rfl
    exact ⟨_, _, _, h₄, rfl, congrArg _ (setCountry_searching _), Or.inr rfl⟩

/-- **Following a stream.** For every TCP packet that the page shows there is a run of the server in
which the filter that the page asks for rejects a packet of the same connection. -/
theorem follow_rejects (env : Env) (hlib : LowersAscii env.lib) (p : Service.Model.DashboardPacket)
    (hproto : p.protocol = "TCP".toList) (ip₁ ip₂ : Vector UInt8 16) (isV6 : Bool)
    (hsrc : p.srcIp = ipAddrToString ip₁ isV6) (hdst : p.dstIp = ipAddrToString ip₂ isV6) :
    ¬ ∀ f, filterOf (followStream p.srcIp p.srcPort p.dstIp p.dstPort) = some f →
      ∀ (s : State Unit) (pkt : DashboardPacket), (machine Unit env SavedOK).Reach s →
        s.filter = Filter.ofText env.lib f → s.packetLoop = .decide pkt → SameConnection p pkt →
        accepts env.lib s.filter pkt = true := by
  intro h
  have ha : p.srcIp ⊆ addressChars := by rw [hsrc]; exact ipAddrToString_subset _ _
  have hb : p.dstIp ⊆ addressChars := by rw [hdst]; exact ipAddrToString_subset _ _
  obtain ⟨s, hs⟩ := exists_filtered env
    (show streamText "stream".toList p.srcIp p.srcPort p.dstIp p.dstPort ≠ [] by simp [streamText])
  obtain ⟨t, n, country, ht, hfilter, hdecide, hcountry⟩ := hs.exists_decide (bare p)
  have hplain : ':' ∉ env.lib.toLower country := by
    have hlocal : ∀ c ∈ "local".toList, AsciiChar c ∧ c ≠ ':' := by simp [AsciiChar]
    have hsearching : ∀ c ∈ searching, AsciiChar c ∧ c ≠ ':' := by
      show ∀ c ∈ ['s', 'e', 'a', 'r', 'c', 'h', 'i', 'n', 'g', '.', '.', '.'], _
      simp [AsciiChar]
    refine colon_not_mem_toLower hlib fun c hc => ?_
    rcases hcountry with h | h
    · exact hlocal c (h ▸ hc)
    · exact hsearching c (h ▸ hc)
  have hrej : accepts env.lib
      (Filter.ofText env.lib (streamText "stream".toList p.srcIp p.srcPort p.dstIp p.dstPort))
      { label env.lib n (received (bare p)) with country := country } = false :=
    rejects_streamText hlib ha hb _ _ hproto ha hb (colon_not_mem_info hlib n hproto) hplain
      List.not_mem_nil
  have hacc := h _ (filterOf_followStream ha hb _ _) t _ ht (hfilter.trans hs.filter) hdecide
    ⟨hproto, Or.inl ⟨rfl, rfl, rfl, rfl⟩⟩
  rw [hfilter, hs.filter, hrej] at hacc
  cases hacc

/-- A TCP packet between two hosts of a network. -/
def segment : Service.Model.DashboardPacket :=
  { fromPublic with
    protocol := "TCP".toList
    srcIp := "10.0.0.1".toList
    srcPort := 40000
    dstIp := "10.0.0.2".toList
    dstPort := 8080 }

theorem lowersAscii_asciiLibrary : LowersAscii asciiLibrary := fun _ _ => rfl

theorem follow_rejects_segment : segment.protocol = "TCP".toList ∧
    ¬ ∀ f, filterOf (followStream segment.srcIp segment.srcPort segment.dstIp segment.dstPort) =
        some f →
      ∀ (s : State Unit) (pkt : DashboardPacket),
        (machine Unit ⟨asciiLibrary, none⟩ SavedOK).Reach s →
        s.filter = Filter.ofText asciiLibrary f → s.packetLoop = .decide pkt →
        SameConnection segment pkt → accepts asciiLibrary s.filter pkt = true :=
  ⟨rfl, follow_rejects ⟨asciiLibrary, none⟩ lowersAscii_asciiLibrary segment rfl
    #v[0, 0, 0, 0, 0, 0, 0, 0, 0, 0, 0, 0, 10, 0, 0, 1]
    #v[0, 0, 0, 0, 0, 0, 0, 0, 0, 0, 0, 0, 10, 0, 0, 2] false rfl rfl⟩

/-- The filter that the page asks for rejects a copy of the packet itself. -/
theorem segment_not_followed : ¬ ∀ (p : Service.Model.DashboardPacket) (f : Str),
    p.protocol = "TCP".toList →
    filterOf (followStream p.srcIp p.srcPort p.dstIp p.dstPort) = some f →
      ∀ n, accepts asciiLibrary (Filter.ofText asciiLibrary f)
        { label asciiLibrary n (received p) with country := "local".toList } = true := by
  intro h
  have hsrc : segment.srcIp ⊆ addressChars := by
    show ipAddrToString #v[0, 0, 0, 0, 0, 0, 0, 0, 0, 0, 0, 0, 10, 0, 0, 1] false ⊆ _
    exact ipAddrToString_subset _ _
  have hdst : segment.dstIp ⊆ addressChars := by
    show ipAddrToString #v[0, 0, 0, 0, 0, 0, 0, 0, 0, 0, 0, 0, 10, 0, 0, 2] false ⊆ _
    exact ipAddrToString_subset _ _
  have hacc := h segment _ rfl (filterOf_followStream hsrc hdst _ _) 2
  have hrej : accepts asciiLibrary (Filter.ofText asciiLibrary
      (streamText "stream".toList segment.srcIp segment.srcPort segment.dstIp segment.dstPort))
      { label asciiLibrary 2 (received (bare segment)) with country := "local".toList } = false :=
    rejects_streamText lowersAscii_asciiLibrary hsrc hdst _ _ rfl hsrc hdst
      (colon_not_mem_info lowersAscii_asciiLibrary 2 (p := segment) rfl) (by decide)
      List.not_mem_nil
  rw [show bare segment = segment from rfl] at hrej
  rw [hrej] at hacc
  cases hacc

end Pacsni.Dashboard.Stream
