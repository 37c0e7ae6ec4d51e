import Pacsni.Dashboard.Packet

/-! # The packet filter

The part of the packet goroutine that decides whether a packet matches the filter in force. What the
packages `unicode`, `regexp` and `net` compute is a parameter. -/

namespace Pacsni.Dashboard.Matching

open Pacsni.Lib.Text Pacsni.Lib.Strings
open Pacsni.Dashboard.Packet

/-- The library functions that the server calls. -/
structure Library where
  /-- `unicode.ToLower` -/
  lower : Char → Char
  /-- `regexp.Compile`, and `MatchString` of its result. -/
  compile : Str → Option (Str → Bool)
  /-- `net.ParseCIDR`, and `Contains(net.ParseIP(·))` of its result. -/
  parseCIDR : Str → Option (Str → Bool)

/-- `strings.ToLower` -/
def Library.toLower (lib : Library) (s : Str) : Str := s.map lib.lower

/-- `filterStr` and `filterRegex` -/
structure Filter where
  str : Str
  regex : Option (Str → Bool)

/-- No filter. -/
def Filter.empty : Filter := ⟨[], none⟩

/-- The filter that the root handler sets for the text `f`. -/
def Filter.ofText (lib : Library) (f : Str) : Filter :=
  ⟨f, if hasPrefix (lib.toLower f) "regex:".toList then lib.compile ("(?i)".toList ++ f.drop 6)
    else none⟩

/-- The packet has the two endpoints, in this order. -/
def endpoints (pkt : DashboardPacket) (a p b q : Str) : Bool :=
  pkt.srcIp == a && dec pkt.srcPort.toNat == p && pkt.dstIp == b && dec pkt.dstPort.toNat == q

/-- A `STREAM:` filter. -/
def matchStream (f : Str) (pkt : DashboardPacket) : Bool :=
  match split f ':' with
  | [_, a, p, b, q] =>
    pkt.protocol == "TCP".toList && (endpoints pkt a p b q || endpoints pkt b q a p)
  | _ => false

theorem matchStream_of_split {pkt : DashboardPacket} {f name a p b q : Str}
    (h : split f ':' = [name, a, p, b, q]) : matchStream f pkt = true ↔
      pkt.protocol = "TCP".toList ∧
        (endpoints pkt a p b q = true ∨ endpoints pkt b q a p = true) := by
  unfold matchStream
  rw [h]
  simp only [Bool.and_eq_true, Bool.or_eq_true, beq_iff_eq]

/-- A regular expression, on the shown fields of the packet. -/
def matchRegex (re : Str → Bool) (pkt : DashboardPacket) : Bool :=
  re pkt.protocol || re pkt.srcIp || re pkt.dstIp || re pkt.info || re pkt.country ||
    re pkt.countryCode

/-- The term occurs in a field of the packet. -/
def mentions (lib : Library) (term : Str) (pkt : DashboardPacket) : Bool :=
  contains (lib.toLower pkt.protocol) term || contains (lib.toLower pkt.srcIp) term ||
    contains (lib.toLower pkt.dstIp) term || contains (lib.toLower pkt.info) term ||
    contains (lib.toLower pkt.country) term || contains (lib.toLower pkt.countryCode) term ||
    ((term == "tcp-ao".toList || term == "ao".toList) && pkt.hasTcpAo)

/-- One term of a text filter. A term that looks like a subnet gets a second chance. -/
def matchPart (lib : Library) (part : Str) (pkt : DashboardPacket) : Bool :=
  let negate := hasPrefix part ['-']
  let checkPart := if negate then trimPrefix part ['-'] else part
  let partMatch := mentions lib checkPart pkt
  let partMatch := if negate then !partMatch else partMatch
  if !partMatch && contains checkPart ['/'] then
    match lib.parseCIDR checkPart with
    | some inNet =>
      let found := inNet pkt.srcIp || inNet pkt.dstIp
      if negate then !found else found
    | none => partMatch
  else partMatch

/-- A text filter: every term matches. -/
def matchText (lib : Library) (f : Str) (pkt : DashboardPacket) : Bool :=
  (fields (lib.toLower f)).all fun part => matchPart lib part pkt

/-- The packet matches the filter. -/
def accepts (lib : Library) (f : Filter) (pkt : DashboardPacket) : Bool :=
  if f.str = [] then true
  else if hasPrefix f.str "STREAM:".toList then matchStream f.str pkt
  else match f.regex with
    | some re => matchRegex re pkt
    | none => matchText lib f.str pkt

end Pacsni.Dashboard.Matching
