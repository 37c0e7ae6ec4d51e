import Pacsni.Dashboard.Geo
import Pacsni.Dashboard.Page

/-! # Negated terms

A term of a text filter with a minus in front of it is meant to select the packets that the term does
not select. A term that looks like a subnet is first looked for as a text, and only if that fails the
addresses of the packet are compared with the subnet. With a minus the first result is negated before it
is known whether the comparison is needed, so a packet that is in the subnet and does not mention it is
selected by the term and by its negation. -/

namespace Pacsni.Dashboard.Negation

open Pacsni.Lib.Text Pacsni.Lib.Strings
open Pacsni.Dashboard.Packet Pacsni.Dashboard.Matching
open Pacsni.Dashboard.Page (LowersAscii)
open Pacsni.Dashboard.Geo (fromPublic)

/-- One lower-case word, without a minus and without the name of another kind of filter. -/
structure Term (lib : Library) (t : Str) : Prop where
  ne_nil : t ≠ []
  word : ∀ c ∈ t, isSpace c = false
  lower : lib.toLower t = t
  minus : hasPrefix t ['-'] = false
  regex : hasPrefix t "regex:".toList = false
  stream : hasPrefix t "STREAM:".toList = false

/-- One of the addresses of the packet is in the subnet. -/
def inSubnet (inNet : Str → Bool) (pkt : DashboardPacket) : Bool :=
  inNet pkt.srcIp || inNet pkt.dstIp

variable {lib : Library} {t : Str}

/-- A filter that is one word. -/
theorem accepts_word {f : Str} (hne : f ≠ []) (hword : ∀ c ∈ f, isSpace c = false)
    (hlow : lib.toLower f = f) (hregex : hasPrefix f "regex:".toList = false)
    (hstream : hasPrefix f "STREAM:".toList = false) (pkt : DashboardPacket) :
    accepts lib (Filter.ofText lib f) pkt = matchPart lib f pkt := by
  simp only [accepts, Filter.ofText, hne, hstream, hlow, hregex, matchText,
    fields_eq_singleton hword hne, List.all_cons, List.all_nil, Bool.false_eq_true, ↓reduceIte,
    Bool.and_true]

theorem accepts_term (ht : Term lib t) (pkt : DashboardPacket) :
    accepts lib (Filter.ofText lib t) pkt = matchPart lib t pkt :=
  accepts_word ht.ne_nil ht.word ht.lower ht.regex ht.stream pkt

theorem accepts_minus (hlib : LowersAscii lib) (ht : Term lib t) (pkt : DashboardPacket) :
    accepts lib (Filter.ofText lib ('-' :: t)) pkt = matchPart lib ('-' :: t) pkt := by
  have hminus : lib.lower '-' = '-' := (hlib '-' (by decide)).trans (by decide)
  refine accepts_word (List.cons_ne_nil _ _) ?_ ?_ ?_ ?_ pkt
  · exact List.forall_mem_cons.mpr ⟨by decide, ht.word⟩
  · show lib.lower '-' :: lib.toLower t = _
    rw [hminus, ht.lower]
  · exact hasPrefix_cons_of_ne (c := '-') (d := 'r') (by decide)
  · exact hasPrefix_cons_of_ne (c := '-') (d := 'S') (by decide)

/-- A term is looked for as a text and then as a subnet. -/
theorem matchPart_term (ht : Term lib t) (pkt : DashboardPacket) :
    matchPart lib t pkt = true ↔ mentions lib t pkt = true ∨
      ('/' ∈ t ∧ ∃ inNet, lib.parseCIDR t = some inNet ∧ inSubnet inNet pkt = true) := by
  rw [← contains_singleton]
  unfold matchPart inSubnet
  simp only [ht.minus, Bool.false_eq_true, ↓reduceIte]
  cases hm : mentions lib t pkt with
  | true => simp
  | false =>
    cases hs : contains t ['/'] with
    | false => simp
    | true =>
      cases hc : lib.parseCIDR t with
      | none => simp
      | some inNet => simp

/-- With a minus it is compared with the subnet only if it was found as a text. -/
theorem matchPart_minus (pkt : DashboardPacket) :
    matchPart lib ('-' :: t) pkt = true ↔ mentions lib t pkt = false ∨
      ('/' ∈ t ∧ ∃ inNet, lib.parseCIDR t = some inNet ∧ inSubnet inNet pkt = false) := by
  have hminus : hasPrefix ('-' :: t) ['-'] = true := by simp [hasPrefix, List.isPrefixOf]
  have htrim : trimPrefix ('-' :: t) ['-'] = t := by simp [trimPrefix, hminus]
  rw [← contains_singleton]
  unfold matchPart inSubnet
  simp only [hminus, htrim, ↓reduceIte]
  cases hm : mentions lib t pkt with
  | false => simp
  | true =>
    cases hs : contains t ['/'] with
    | false => simp
    | true =>
      cases hc : lib.parseCIDR t with
      | none => simp
      | some inNet => simp

/-- **Negated terms.** The filter with the minus accepts the packets that the filter without it rejects,
if and only if the packet mentions a term that is a subnet exactly if it is in the subnet. -/
theorem negated_is_complement_iff (lib : Library) (hlib : LowersAscii lib) (t : Str)
    (ht : Term lib t) (pkt : DashboardPacket) :
    (accepts lib (Filter.ofText lib ('-' :: t)) pkt = true ↔
        accepts lib (Filter.ofText lib t) pkt = false) ↔
      ∀ inNet, '/' ∈ t → lib.parseCIDR t = some inNet →
        mentions lib t pkt = inSubnet inNet pkt := by
  have hrej : matchPart lib t pkt = false ↔ ¬ (mentions lib t pkt = true ∨
      ('/' ∈ t ∧ ∃ inNet, lib.parseCIDR t = some inNet ∧ inSubnet inNet pkt = true)) := by
    rw [← matchPart_term ht, Bool.not_eq_true]
  rw [accepts_minus hlib ht, accepts_term ht, matchPart_minus, hrej]
  by_cases hslash : '/' ∈ t
  · cases hc : lib.parseCIDR t with
    | none => cases mentions lib t pkt <;> simp
    | some inNet =>
      cases mentions lib t pkt <;> cases hin : inSubnet inNet pkt <;> simp [hslash, hin]
  · cases mentions lib t pkt <;> simp [hslash]

/-- A library that knows one subnet. -/
def netLibrary : Library where
  lower := Char.toLower
  compile _ := none
  parseCIDR t := if t = "10.0.0.0/8".toList then some fun ip => hasPrefix ip "10.".toList else none

theorem term_net : Term netLibrary "10.0.0.0/8".toList where
  ne_nil := nofun
  word := by
    show ∀ c ∈ ['1', '0', '.', '0', '.', '0', '.', '0', '/', '8'], _
    simp [isSpace]
  lower := rfl
  minus := rfl
  regex := rfl
  stream := rfl

theorem negated_net_complement_iff :
    (accepts netLibrary (Filter.ofText netLibrary "-10.0.0.0/8".toList) (received fromPublic) = true ↔
        accepts netLibrary (Filter.ofText netLibrary "10.0.0.0/8".toList)
          (received fromPublic) = false) ↔
      ∀ inNet, '/' ∈ "10.0.0.0/8".toList → netLibrary.parseCIDR "10.0.0.0/8".toList = some inNet →
        mentions netLibrary "10.0.0.0/8".toList (received fromPublic) =
          inSubnet inNet (received fromPublic) :=
  negated_is_complement_iff netLibrary (fun _ _ => rfl) "10.0.0.0/8".toList term_net
    (received fromPublic)

/-- A packet in a subnet is accepted by the filter for the subnet and by the negated one. -/
theorem fromPublic_accepted_by_both : ¬ ∀ (t : Str) (pkt : DashboardPacket), Term netLibrary t →
    (accepts netLibrary (Filter.ofText netLibrary ('-' :: t)) pkt = true ↔
      accepts netLibrary (Filter.ofText netLibrary t) pkt = false) := by
  intro h
  have hboth := h "10.0.0.0/8".toList (received fromPublic) term_net
  rw [accepts_minus (fun _ _ => rfl) term_net, accepts_term term_net,
    show matchPart netLibrary ('-' :: "10.0.0.0/8".toList) (received fromPublic) = true from rfl,
    show matchPart netLibrary "10.0.0.0/8".toList (received fromPublic) = true from rfl] at hboth
  exact absurd (hboth.mp rfl) (by decide)

end Pacsni.Dashboard.Negation
