import Pacsni.Dashboard.Geo
import Pacsni.Dashboard.Subnet

/-! # The search of the page

The filter of `displayData`. The terms of a query are tested one by one, each in the searched fields, then
as a subnet and as the name of the TCP authentication option. The result of the first test is a `const`,
so that the script throws when it gets to the others: the filter works if and only if every term that it
gets to occurs in a searched field (`filteredPackets_iff`). A lone `-` has no bare term and excludes
nothing. -/

namespace Pacsni.Dashboard.Search

open Pacsni.Lib.Text Pacsni.Lib.Strings Pacsni.Lib.Script
open Pacsni.Dashboard.Packet Pacsni.Dashboard.Subnet
open Pacsni.Dashboard.Geo (fromPublic)

/-! ### The script -/

/-- `\s` of a regular expression of the script. -/
def isBlank (c : Char) : Bool :=
  let n := c.toNat
  (9 ≤ n && n ≤ 13) || n == 0x20 || n == 0xA0 || n == 0x1680 || (0x2000 ≤ n && n ≤ 0x200a) ||
    n == 0x2028 || n == 0x2029 || n == 0x202f || n == 0x205f || n == 0x3000 || n == 0xfeff

/-- `searchQuery.split(/\s+/).filter(part => part.length > 0)` -/
def terms (searchQuery : Str) : List Str := (searchQuery.splitOnP isBlank).filter (· ≠ [])

/-- An assignment to a variable that is declared with `const`; the value is computed before. -/
def assignConst {α : Type} (name : String) (_value : α) : Js Unit := .error (.typeError name)

variable (js : Engine)

/-- The test that initializes `found`. -/
def mentions (p : DashboardPacket) (check : Str) : Bool :=
  let includes (field : Str) : Bool := contains (js.toLowerCase field) check
  includes p.srcIp || includes p.dstIp || includes p.protocol ||
    (p.srcMacVendor ≠ [] && includes p.srcMacVendor) ||
    (p.dstMacVendor ≠ [] && includes p.dstMacVendor) || includes p.info ||
    (p.country ≠ [] && includes p.country) || (p.countryCode ≠ [] && includes p.countryCode) ||
    (p.city ≠ [] && includes p.city) || (p.isp ≠ [] && includes p.isp)

/-- What is left of a term without the `-` in front. -/
def bare (part : Str) : Str := if hasPrefix part ['-'] then part.drop 1 else part

/-- The callback of `every`. -/
def testPart (p : DashboardPacket) (part : Str) : Js Bool :=
  let negate := hasPrefix part ['-']
  let check := bare part
  if check = [] then .ok true
  else do
    let found := mentions js p check
    if !found && contains check ['/'] then
      assignConst "found" (ipInCIDR js p.srcIp check || ipInCIDR js p.dstIp check)
    if !found then
      assignConst "found" ((check == "tcp-ao".toList || check == "ao".toList) && p.hasTcpAo)
    return if negate then !found else found

/-- A query that is a regular expression; one that does not compile matches nothing. -/
def testRegex (source : Str) (p : DashboardPacket) : Bool :=
  match js.regExp source with
  | some test => test p.srcIp || test p.dstIp || test p.protocol || test p.info ||
      (p.country ≠ [] && test p.country)
  | none => false

/-- The callback of `filter`. -/
def keeps (searchQuery : Str) (p : DashboardPacket) : Js Bool :=
  if hasPrefix searchQuery "regex:".toList then .ok (testRegex js (searchQuery.drop 6) p)
  else every (testPart js p) (terms searchQuery)

/-- `filteredPackets` -/
def filteredPackets (searchQuery : Str) (packets : List DashboardPacket) :
    Js (List DashboardPacket) :=
  if searchQuery = [] then .ok packets else filter (keeps js searchQuery) packets

/-! ### What a query means -/

/-- The fields that are searched. -/
def searched (p : DashboardPacket) : List Str :=
  [p.srcIp, p.dstIp, p.protocol, p.srcMacVendor, p.dstMacVendor, p.info, p.country, p.countryCode,
    p.city, p.isp]

/-- The text occurs in a searched field. -/
def Occurs (p : DashboardPacket) (text : Str) : Prop :=
  ∃ field ∈ searched p, contains (js.toLowerCase field) text = true

instance (p : DashboardPacket) (text : Str) : Decidable (Occurs js p text) :=
  inferInstanceAs (Decidable (∃ field ∈ searched p, _))

/-- A term without a `-` in front. -/
def BareHolds (p : DashboardPacket) (text : Str) : Prop :=
  Occurs js p text ∨
    (Lib.Cidr.contains text p.srcIp = true ∨ Lib.Cidr.contains text p.dstIp = true) ∨
    ((text = "tcp-ao".toList ∨ text = "ao".toList) ∧ p.hasTcpAo = true)

instance (p : DashboardPacket) (text : Str) : Decidable (BareHolds js p text) :=
  inferInstanceAs (Decidable (_ ∨ _ ∨ _))

/-- The packet meets a term of the query. -/
def TermHolds (p : DashboardPacket) (part : Str) : Prop :=
  if hasPrefix part ['-'] then bare part = [] ∨ ¬ BareHolds js p (bare part)
  else BareHolds js p part

instance (p : DashboardPacket) (part : Str) : Decidable (TermHolds js p part) :=
  inferInstanceAs (Decidable (if hasPrefix part ['-'] then bare part = [] ∨ ¬ BareHolds js p (bare part)
    else BareHolds js p part))

/-- The packet meets every term of the query. -/
def Meets (searchQuery : Str) (p : DashboardPacket) : Prop :=
  ∀ part ∈ terms searchQuery, TermHolds js p part

instance (searchQuery : Str) (p : DashboardPacket) : Decidable (Meets js searchQuery p) :=
  inferInstanceAs (Decidable (∀ part ∈ terms searchQuery, _))

/-- The terms up to the first that excludes something. -/
def upToExclusion : List Str → List Str
  | [] => []
  | part :: parts =>
    if hasPrefix part ['-'] ∧ bare part ≠ [] then [part] else part :: upToExclusion parts

/-! ### One term -/

variable {js} {p : DashboardPacket} {part : Str}

theorem contains_nil {text : Str} (h : text ≠ []) : contains [] text = false := by
  obtain ⟨c, t, rfl⟩ := List.exists_cons_of_ne_nil h
  rfl

/-- The fields that may be empty are tested only if they are not. -/
theorem mentions_iff {text : Str} (h : text ≠ []) : mentions js p text = true ↔ Occurs js p text := by
  have hfilled : ∀ field : Str, (decide (field ≠ []) && contains (js.toLowerCase field) text) =
      contains (js.toLowerCase field) text := by
    intro field
    by_cases hnil : field = []
    · rw [hnil, js.toLowerCase_nil, contains_nil h, Bool.and_false]
    · rw [decide_eq_true hnil, Bool.true_and]
  unfold mentions Occurs searched
  simp only [hfilled, Bool.or_eq_true, List.mem_cons, List.not_mem_nil, or_false, exists_eq_or_imp,
    exists_eq_left]
  tauto

theorem testPart_blank (h : bare part = []) : testPart js p part = .ok true := if_pos h

/-- The bare term occurs: no other test is made. -/
theorem testPart_occurs (hne : bare part ≠ []) (h : Occurs js p (bare part)) :
    testPart js p part = .ok (!hasPrefix part ['-']) := by
  have hfound := (mentions_iff hne).mpr h
  unfold testPart
  simp only [if_neg hne, hfound]
  cases hasPrefix part ['-'] <;> rfl

/-- The bare term does not occur: `found` is assigned to. -/
theorem testPart_throws (hne : bare part ≠ []) (h : ¬ Occurs js p (bare part)) :
    testPart js p part = .error (.typeError "found") := by
  have hfound : mentions js p (bare part) = false := by
    rw [Bool.eq_false_iff]
    exact fun htrue => h ((mentions_iff hne).mp htrue)
  unfold testPart
  simp only [if_neg hne, hfound]
  cases contains (bare part) ['/'] <;> rfl

theorem termHolds_blank (hneg : hasPrefix part ['-'] = true) (h : bare part = []) :
    TermHolds js p part := by
  rw [TermHolds, if_pos hneg]
  exact Or.inl h

theorem termHolds_occurs (hne : bare part ≠ []) (h : Occurs js p (bare part)) :
    TermHolds js p part ↔ hasPrefix part ['-'] = false := by
  unfold TermHolds
  cases hneg : hasPrefix part ['-'] with
  | true =>
    rw [if_pos rfl]
    refine iff_of_false ?_ nofun
    rintro (hnil | hno)
    · exact hne hnil
    · exact hno (Or.inl h)
  | false =>
    have hbare : bare part = part := by simp [bare, hneg]
    rw [hbare] at h
    rw [if_neg nofun]
    exact iff_of_true (Or.inl h) rfl

/-! ### The terms of a query -/

variable {parts : List Str}

/-- The first term is always tested. -/
theorem mem_upToExclusion_head : part ∈ upToExclusion (part :: parts) := by
  unfold upToExclusion
  split_ifs
  · exact List.mem_singleton_self _
  · exact List.mem_cons_self

/-- A term that is met leaves the answer to the others. -/
theorem every_testPart_cons (hholds : TermHolds js p part) (htest : testPart js p part = .ok true) :
    every (testPart js p) (part :: parts) = .ok (decide (∀ x ∈ part :: parts, TermHolds js p x)) ↔
      every (testPart js p) parts = .ok (decide (∀ x ∈ parts, TermHolds js p x)) := by
  rw [every_cons_true htest, decide_eq_decide.mpr (List.forall_mem_cons.trans (and_iff_right hholds))]

/-- A term that excludes the packet ends the test. -/
theorem every_testPart_excluded (hno : ¬ TermHolds js p part)
    (htest : testPart js p part = .ok false) :
    every (testPart js p) (part :: parts) = .ok (decide (∀ x ∈ part :: parts, TermHolds js p x)) := by
  rw [every_cons_false htest, eq_comm, decide_eq_false]
  exact fun hall => hno (hall part List.mem_cons_self)

/-- The callback of `filter` is right for a packet if and only if the terms up to the first that excludes
something occur. Induction on the terms: behind a term that excludes the packet nothing is tested. -/
theorem every_testPart_iff (parts : List Str) (hparts : ∀ part ∈ parts, part ≠ []) :
    every (testPart js p) parts = .ok (decide (∀ part ∈ parts, TermHolds js p part)) ↔
      ∀ part ∈ upToExclusion parts, bare part = [] ∨ Occurs js p (bare part) := by
  induction parts with
  | nil => exact iff_of_true rfl nofun
  | cons part parts ih =>
    have ih := ih fun x hx => hparts x (List.mem_cons_of_mem _ hx)
    by_cases hnil : bare part = []
    · have hneg : hasPrefix part ['-'] = true := by
        by_contra hneg
        rw [bare, if_neg hneg] at hnil
        exact hparts part List.mem_cons_self hnil
      rw [every_testPart_cons (termHolds_blank hneg hnil) (testPart_blank hnil), ih, upToExclusion,
        if_neg fun h => h.2 hnil, List.forall_mem_cons]
      exact (and_iff_right (Or.inl hnil)).symm
    by_cases hocc : Occurs js p (bare part)
    · have htest := testPart_occurs hnil hocc
      have hholds := termHolds_occurs hnil hocc
      cases hneg : hasPrefix part ['-'] with
      | true =>
        rw [hneg] at htest hholds
        rw [upToExclusion, if_pos ⟨hneg, hnil⟩]
        refine iff_of_true (every_testPart_excluded (fun h => absurd (hholds.mp h) nofun) htest)
          fun x hx => ?_
        rw [List.mem_singleton.mp hx]
        exact Or.inr hocc
      | false =>
        rw [hneg] at htest
        rw [every_testPart_cons (hholds.mpr hneg) htest, ih, upToExclusion,
          if_neg (by simp [hneg]), List.forall_mem_cons]
        exact (and_iff_right (Or.inr hocc)).symm
    · rw [every_cons_error (testPart_throws hnil hocc)]
      exact iff_of_false nofun fun hall => (hall part mem_upToExclusion_head).elim hnil hocc

/-- **The search.** The filter throws nothing and returns exactly the packets that meet every term of the
query if and only if, for each packet, every term up to the first that excludes something occurs in a
searched field. -/
theorem filteredPackets_iff (js : Engine) (searchQuery : Str) (packets : List DashboardPacket)
    (hquery : hasPrefix searchQuery "regex:".toList = false) :
    filteredPackets js searchQuery packets =
        .ok (packets.filter fun p => decide (Meets js searchQuery p)) ↔
      ∀ p ∈ packets, ∀ part ∈ upToExclusion (terms searchQuery),
        bare part = [] ∨ Occurs js p (bare part) := by
  have hparts : ∀ part ∈ terms searchQuery, part ≠ [] := by
    intro part hpart
    simpa using (List.mem_filter.mp hpart).2
  unfold filteredPackets
  by_cases hnil : searchQuery = []
  · subst hnil
    rw [if_pos rfl]
    refine iff_of_true ?_ fun _ _ => nofun
    rw [List.filter_eq_self.mpr fun p _ => decide_eq_true (show Meets js [] p from nofun)]
  · rw [if_neg hnil, filter_eq_ok_iff]
    refine forall₂_congr fun p _ => ?_
    rw [keeps, hquery]
    exact every_testPart_iff _ hparts

/-- Both terms occur in a UDP packet from `8.8.8.8`, and the second excludes it. -/
theorem search_excludes :
    filteredPackets plain "8.8 -udp tcp".toList [received fromPublic] = .ok
      ([received fromPublic].filter fun p => decide (Meets plain "8.8 -udp tcp".toList p)) :=
  (filteredPackets_iff plain "8.8 -udp tcp".toList [received fromPublic] (by decide)).mpr (by decide)

/-- A search for `tcp` throws at a UDP packet. -/
theorem search_throws : ¬ ∀ (js : Engine) (searchQuery : Str) (packets : List DashboardPacket),
    hasPrefix searchQuery "regex:".toList = false → filteredPackets js searchQuery packets =
      .ok (packets.filter fun p => decide (Meets js searchQuery p)) := by
  intro h
  have hsearch := h plain "tcp".toList [received fromPublic] (by decide)
  have hthrows : filteredPackets plain "tcp".toList [received fromPublic] =
      .error (.typeError "found") := rfl
  rw [hthrows] at hsearch
  cases hsearch

end Pacsni.Dashboard.Search
