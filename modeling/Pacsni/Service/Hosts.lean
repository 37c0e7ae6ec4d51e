import Pacsni.Service.Decode

/-! # Hosts

The text of an address names one host. A dotted address has four decimal numbers of any length between
its dots, and the groups of an IPv6 address have four digits each; in both the parts are read back at
the separators, and only the second has colons. So two rendered addresses are equal if and only if they
are of one family and agree in the bytes that this family uses (`ipAddrToString_eq_iff`). -/

namespace Pacsni.Service.Hosts

open Pacsni.Lib.Text
open Pacsni.Service.Model Pacsni.Service.Decode

/-- A host, with the bytes of its address. -/
inductive Host
  | v4 (bytes : Vector UInt8 4)
  | v6 (bytes : Vector UInt8 16)
deriving DecidableEq

/-- The bytes of an IPv4 address, which the capture puts last. -/
def lastFour (ip : Vector UInt8 16) : Vector UInt8 4 := ip.drop 12

/-- The host that an address of the capture stands for. -/
def hostOf (ip : Vector UInt8 16) (isV6 : Bool) : Host := if isV6 then .v6 ip else .v4 (lastFour ip)

/-- The text for a host. -/
def Host.text : Host → Str
  | .v4 b => dotted b.toList
  | .v6 b => hexGroups (bytePairs b)

/-- The two addresses are of one family and agree in all bytes for IPv6, in the last four for IPv4. -/
structure SameHost (a : Vector UInt8 16) (v : Bool) (b : Vector UInt8 16) (w : Bool) : Prop where
  family : v = w
  bytes : ∀ i (hi : i < 16), v = true ∨ 12 ≤ i → a[i] = b[i]

theorem toList_lastFour (ip : Vector UInt8 16) : (lastFour ip).toList = ip.toList.drop 12 :=
  Vector.toList_drop

theorem getElem_lastFour (ip : Vector UInt8 16) {i : ℕ} (hi : i < 4) (hlast : 12 + i < 16) :
    (lastFour ip)[i] = ip[12 + i] :=
  Vector.getElem_drop (by omega)

theorem text_hostOf (ip : Vector UInt8 16) (isV6 : Bool) : (hostOf ip isV6).text = ipAddrToString ip isV6 := by
  cases isV6 with
  | true => exact ((showsAddr_ipAddrToString ip 1).2 (by decide)).symm
  | false =>
    exact (congrArg dotted (toList_lastFour ip)).trans ((showsAddr_ipAddrToString ip 0).1 rfl).symm

/-! ### Parts -/

variable {bs cs : List UInt8} {ps qs : List (UInt8 × UInt8)} {sep : Char}

/-- Numbers with dots between them are read back. -/
theorem dotted_inj (hbs : bs ≠ []) (hcs : cs ≠ []) : dotted bs = dotted cs ↔ bs = cs := by
  have hdot : ∀ bs : List UInt8, ∀ t ∈ bs.map fun b => dec b.toNat, '.' ∉ t := by
    intro bs t ht
    obtain ⟨b, -, rfl⟩ := List.mem_map.mp ht
    exact notMem_dec (by decide) _
  have hdec : Function.Injective fun b : UInt8 => dec b.toNat := fun b c h =>
    UInt8.toNat_inj.mp (dec_injective h)
  unfold dotted
  rw [joinWith_inj (hdot bs) (hdot cs) (by simpa using hbs) (by simpa using hcs)]
  exact (List.map_injective_iff.mpr hdec).eq_iff

/-- A group of four digits is two bytes. -/
theorem group_injective : Function.Injective fun p : UInt8 × UInt8 => hex2 p.1 ++ hex2 p.2 := by
  intro p q h
  have hlen : (hex2 p.1).length = (hex2 q.1).length := by rw [length_hex2, length_hex2]
  obtain ⟨hfirst, hsecond⟩ := List.append_inj h hlen
  exact Prod.ext (hex2_injective hfirst) (hex2_injective hsecond)

/-- Groups with colons between them are read back. -/
theorem hexGroups_inj (hps : ps ≠ []) (hqs : qs ≠ []) : hexGroups ps = hexGroups qs ↔ ps = qs := by
  have hcolon : ∀ ps : List (UInt8 × UInt8), ∀ t ∈ ps.map fun p => hex2 p.1 ++ hex2 p.2, ':' ∉ t := by
    intro ps t ht
    obtain ⟨p, -, rfl⟩ := List.mem_map.mp ht
    rw [List.mem_append]
    rintro (h | h)
    · exact notMem_hex2 (by decide) _ h
    · exact notMem_hex2 (by decide) _ h
  unfold hexGroups
  rw [joinWith_inj (hcolon ps) (hcolon qs) (by simpa using hps) (by simpa using hqs)]
  exact (List.map_injective_iff.mpr group_injective).eq_iff

/-- An address has all its bytes in its pairs. -/
theorem bytePairs_injective : Function.Injective bytePairs := by
  intro a b h
  have hpair := congrFun (List.ofFn_injective h)
  refine Vector.ext fun i hi => ?_
  have hi' := Prod.ext_iff.mp (hpair ⟨i / 2, by omega⟩)
  obtain heven | hodd : 2 * (i / 2) = i ∨ 2 * (i / 2) + 1 = i := by omega
  · simpa only [heven] using hi'.1
  · simpa only [hodd] using hi'.2

theorem bytePairs_ne_nil (b : Vector UInt8 16) : bytePairs b ≠ [] := by
  simp [bytePairs]

/-! ### Hosts and addresses -/

/-- Only the groups of an IPv6 address have colons between them. -/
theorem colon_mem_text (h : Host) : ':' ∈ h.text ↔ ∃ bytes, h = .v6 bytes := by
  cases h with
  | v6 b => exact iff_of_true (by simp [Host.text, bytePairs, List.ofFn_succ, hexGroups, joinWith]) ⟨b, rfl⟩
  | v4 b =>
    refine iff_of_false (fun h => ?_) (by simp)
    rcases mem_joinWith h with hsep | ⟨t, ht, hc⟩
    · exact absurd hsep (by decide)
    · obtain ⟨x, -, rfl⟩ := List.mem_map.mp ht
      exact notMem_dec (by decide) _ hc

/-- **Hosts.** Different hosts have different texts. -/
theorem text_injective : Function.Injective Host.text := by
  intro x y h
  have hcolon : (∃ bytes, x = .v6 bytes) ↔ ∃ bytes, y = .v6 bytes := by
    rw [← colon_mem_text, ← colon_mem_text, h]
  cases x with
  | v4 a =>
    cases y with
    | v4 b =>
      have hne : ∀ v : Vector UInt8 4, v.toList ≠ [] := fun v => by simp
      exact congrArg Host.v4 (Vector.toList_inj.mp ((dotted_inj (hne a) (hne b)).mp h))
    | v6 b => simp at hcolon
  | v6 a =>
    cases y with
    | v4 b => simp at hcolon
    | v6 b =>
      have hpairs := (hexGroups_inj (bytePairs_ne_nil a) (bytePairs_ne_nil b)).mp h
      exact congrArg Host.v6 (bytePairs_injective hpairs)

theorem hostOf_eq_iff {a b : Vector UInt8 16} {v w : Bool} :
    hostOf a v = hostOf b w ↔ SameHost a v b w := by
  constructor
  · intro h
    cases v with
    | true =>
      cases w with
      | true => exact ⟨rfl, fun i hi _ => by rw [Host.v6.inj h]⟩
      | false => cases h
    | false =>
      cases w with
      | true => cases h
      | false =>
        have hbytes := Host.v4.inj h
        refine ⟨rfl, fun i hi hlast => ?_⟩
        obtain ⟨k, rfl⟩ := Nat.exists_eq_add_of_le (hlast.resolve_left (by decide))
        have hk : k < 4 := by omega
        rw [← getElem_lastFour a hk hi, ← getElem_lastFour b hk hi, hbytes]
  · rintro ⟨rfl, hbytes⟩
    cases v with
    | true => exact congrArg Host.v6 (Vector.ext fun i hi => hbytes i hi (Or.inl rfl))
    | false =>
      refine congrArg Host.v4 (Vector.ext fun i hi => ?_)
      have hlast : 12 + i < 16 := by omega
      rw [getElem_lastFour a hi hlast, getElem_lastFour b hi hlast]
      exact hbytes (12 + i) hlast (Or.inr (by omega))

/-- **Addresses.** Two rendered addresses are equal if and only if they are those of one host. -/
theorem ipAddrToString_eq_iff (a b : Vector UInt8 16) (v w : Bool) :
    ipAddrToString a v = ipAddrToString b w ↔ SameHost a v b w := by
  rw [← text_hostOf, ← text_hostOf, text_injective.eq_iff, hostOf_eq_iff]

theorem colon_mem_ipAddrToString (ip : Vector UInt8 16) (isV6 : Bool) :
    ':' ∈ ipAddrToString ip isV6 ↔ isV6 = true := by
  rw [← text_hostOf, colon_mem_text]
  cases isV6 with
  | true => exact iff_of_true ⟨ip, rfl⟩ rfl
  | false => simp [hostOf]

end Pacsni.Service.Hosts
