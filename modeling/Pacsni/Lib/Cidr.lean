import Pacsni.Lib.Net

/-! # Subnets

`net.ParseCIDR` of Go and `IPNet.Contains` of its result. An address of a length that does not occur is
the empty list, as `nil` is in Go. A subnet of IPv4 contains the addresses that share its first bits
with it (`contains_iff`). -/

namespace Pacsni.Lib.Cidr

open Pacsni.Lib.Text Pacsni.Lib.Net

/-- `net.IPNet` -/
structure IPNet where
  ip : IP
  mask : List UInt8

/-! ### Masks -/

/-- A byte that starts with `k` ones, all of them if `k` is 8 or more. -/
def maskByte (k : ℕ) : UInt8 := if 8 ≤ k then 0xff else ~~~((0xff : UInt8) >>> UInt8.ofNat k)

/-- `net.CIDRMask` -/
def cidrMask (ones bits : ℕ) : List UInt8 :=
  (List.range (bits / 8)).map fun i => maskByte (ones - 8 * i)

/-- `IP.To4`, for an address of 4 or of 16 bytes. -/
def shortForm (ip : IP) : Option IP := if ip.length = 4 then some ip else to4 ip

/-- `IP.Mask` -/
def maskIP (ip : IP) (mask : List UInt8) : IP :=
  let m := if mask.length = 16 ∧ ip.length = 4 ∧ (mask.take 12).all (· == 0xff) then mask.drop 12
    else mask
  let x := if m.length = 4 ∧ ip.length = 16 then (to4 ip).getD ip else ip
  if x.length = m.length then List.zipWith (· &&& ·) x m else []

/-! ### Reading a subnet -/

/-- `netip.ParseAddr` without a zone, and `BitLen` of its result. -/
def parseAddr (s : Str) : Option (IP × ℕ) :=
  match s.find? fun c => c = '.' ∨ c = ':' ∨ c = '%' with
  | some '.' => (parseIPv4 s).map (·, 32)
  | some ':' => if '%' ∈ s then none else (parseIPv6 s).map (·, 128)
  | _ => none

/-- `dtoi`, on a text that is read to its end. -/
def dtoi (s : Str) : Option ℕ :=
  match s.mapM digit with
  | some (d :: ds) =>
    let n := (d :: ds).foldl (fun n d => n * 10 + d) 0
    if n < 0xFFFFFF then some n else none
  | _ => none

/-- `net.ParseCIDR` -/
def parseCIDR (s : Str) : Option IPNet :=
  match s.dropWhile (· ≠ '/') with
  | [] => none
  | _ :: mask => do
    let (ip, bits) ← parseAddr (s.takeWhile (· ≠ '/'))
    let n ← dtoi mask
    if n ≤ bits then some ⟨maskIP ip (cidrMask n bits), cidrMask n bits⟩ else none

/-! ### Membership -/

/-- `networkNumberAndMask` -/
def IPNet.numberAndMask (n : IPNet) : List UInt8 × List UInt8 :=
  match shortForm n.ip with
  | some ip =>
    if n.mask.length = 4 then (ip, n.mask)
    else if n.mask.length = 16 then (ip, n.mask.drop 12)
    else ([], [])
  | none => if n.ip.length = 16 ∧ n.mask.length = 16 then (n.ip, n.mask) else ([], [])

/-- `IPNet.Contains` -/
def IPNet.contains (n : IPNet) (ip : IP) : Bool :=
  let (nn, m) := n.numberAndMask
  let x := (shortForm ip).getD ip
  x.length == nn.length &&
    (List.range x.length).all fun i => nn.getD i 0 &&& m.getD i 0 == x.getD i 0 &&& m.getD i 0

/-- `ipnet.Contains(net.ParseIP(ip))` for the subnet that `net.ParseCIDR` makes of the text; `false` if it
makes none. -/
def contains (cidr ip : Str) : Bool :=
  match parseCIDR cidr with
  | some net => net.contains ((parseIP ip).getD [])
  | none => false

/-! ### Bits -/

/-- Bit `i` of the address, counted from the left. -/
def bit (ip : List UInt8) (i : ℕ) : Bool := (ip.getD (i / 8) 0).toNat.testBit (7 - i % 8)

/-- The first `n` bits of the two addresses are equal. -/
def SamePrefix (n : ℕ) (a b : List UInt8) : Prop := ∀ i < n, bit a i = bit b i

instance (n : ℕ) (a b : List UInt8) : Decidable (SamePrefix n a b) :=
  inferInstanceAs (Decidable (∀ i < n, _))

theorem testBit_maskByte (k : ℕ) (j : ℕ) (hj : j < 8) :
    (maskByte k).toNat.testBit (7 - j) = decide (j < k) := by
  by_cases hk : 8 ≤ k
  · rw [maskByte, if_pos hk, decide_eq_true (by omega)]
    interval_cases j <;> rfl
  · have hall : ∀ k j : Fin 8, (maskByte k).toNat.testBit (7 - j) = decide (j < k) := by decide
    exact hall ⟨k, by omega⟩ ⟨j, hj⟩

/-- Two bytes agree under a mask if and only if they agree in the bits that it keeps. -/
theorem and_maskByte_iff (x y : UInt8) (k : ℕ) : x &&& maskByte k = y &&& maskByte k ↔
    ∀ j < 8, j < k → x.toNat.testBit (7 - j) = y.toNat.testBit (7 - j) := by
  rw [← UInt8.toNat_inj, UInt8.toNat_and, UInt8.toNat_and]
  constructor
  · intro h j hj hk
    have hbit := congrArg (·.testBit (7 - j)) h
    simpa only [Nat.testBit_and, testBit_maskByte k j hj, hk, decide_true, Bool.and_true] using hbit
  · intro h
    refine Nat.eq_of_testBit_eq fun i => ?_
    rw [Nat.testBit_and, Nat.testBit_and]
    by_cases hi : i < 8
    · have hmask := testBit_maskByte k (7 - i) (by omega)
      rw [show 7 - (7 - i) = i by omega] at hmask
      rw [hmask]
      by_cases hk : 7 - i < k
      · rw [show i = 7 - (7 - i) by omega, h (7 - i) (by omega) hk]
      · rw [decide_eq_false hk, Bool.and_false, Bool.and_false]
    · have hlt : (maskByte k).toNat < 2 ^ i :=
        lt_of_lt_of_le (maskByte k).toNat_lt (Nat.pow_le_pow_right (by decide) (by omega))
      rw [Nat.testBit_lt_two_pow hlt, Bool.and_false, Bool.and_false]

theorem cidrMask_32 (n : ℕ) :
    cidrMask n 32 = [maskByte n, maskByte (n - 8), maskByte (n - 16), maskByte (n - 24)] := rfl

/-- The bits of four bytes, byte by byte. -/
theorem samePrefix_iff {n : ℕ} (hn : n ≤ 32) (a b : Vector UInt8 4) :
    SamePrefix n a.toList b.toList ↔ ∀ i (hi : i < 4), ∀ j < 8, j < n - 8 * i →
      a[i].toNat.testBit (7 - j) = b[i].toNat.testBit (7 - j) := by
  have hbit : ∀ (a : Vector UInt8 4) i (hi : i < 4) j, j < 8 →
      bit a.toList (8 * i + j) = a[i].toNat.testBit (7 - j) := by
    intro a i hi j hj
    unfold bit
    rw [show (8 * i + j) / 8 = i by omega, show (8 * i + j) % 8 = j by omega]
    simp [List.getD, hi]
  constructor
  · intro h i hi j hj hk
    rw [← hbit a i hi j hj, ← hbit b i hi j hj]
    exact h _ (by omega)
  · intro h i hi
    have hsplit : i = 8 * (i / 8) + i % 8 := by omega
    rw [hsplit, hbit a _ (by omega) _ (by omega), hbit b _ (by omega) _ (by omega)]
    exact h _ (by omega) _ (by omega) (by omega)

theorem toList_four (a : Vector UInt8 4) : a.toList = [a[0], a[1], a[2], a[3]] := by
  refine List.ext_getElem (by simp) fun i h h' => ?_
  have hi : i < 4 := by simpa using h
  interval_cases i <;> rfl

/-- **Membership.** A subnet of IPv4 contains exactly the addresses that share its first bits with it. -/
theorem contains_iff {n : ℕ} (hn : n ≤ 32) (a b : Vector UInt8 4) :
    IPNet.contains ⟨maskIP (v4InV6 ++ b.toList) (cidrMask n 32), cidrMask n 32⟩ (v4InV6 ++ a.toList) =
      true ↔ SamePrefix n a.toList b.toList := by
  have hmask : ∀ x y z : UInt8, (x &&& y) &&& y = z &&& y ↔ z &&& y = x &&& y := by
    intro x y z
    rw [UInt8.and_assoc, UInt8.and_self]
    exact eq_comm
  rw [samePrefix_iff hn, toList_four a, toList_four b, cidrMask_32]
  simp only [← and_maskByte_iff]
  have hcontains : IPNet.contains ⟨maskIP (v4InV6 ++ [b[0], b[1], b[2], b[3]])
      [maskByte n, maskByte (n - 8), maskByte (n - 16), maskByte (n - 24)],
      [maskByte n, maskByte (n - 8), maskByte (n - 16), maskByte (n - 24)]⟩
      (v4InV6 ++ [a[0], a[1], a[2], a[3]]) = true ↔
      (b[0] &&& maskByte n) &&& maskByte n = a[0] &&& maskByte n ∧
      (b[1] &&& maskByte (n - 8)) &&& maskByte (n - 8) = a[1] &&& maskByte (n - 8) ∧
      (b[2] &&& maskByte (n - 16)) &&& maskByte (n - 16) = a[2] &&& maskByte (n - 16) ∧
      (b[3] &&& maskByte (n - 24)) &&& maskByte (n - 24) = a[3] &&& maskByte (n - 24) := by
    simp [IPNet.contains, IPNet.numberAndMask, maskIP, shortForm, to4, v4InV6, List.range_succ]
  rw [hcontains, hmask, hmask, hmask, hmask]
  constructor
  · rintro ⟨h0, h1, h2, h3⟩ i hi
    interval_cases i
    · exact h0
    · exact h1
    · exact h2
    · exact h3
  · exact fun h => ⟨h 0 (by omega), h 1 (by omega), h 2 (by omega), h 3 (by omega)⟩

/-! ### Texts -/

/-- The dotted form of an address. -/
def dotted (a : Vector UInt8 4) : Str :=
  dec a[0].toNat ++ '.' :: (dec a[1].toNat ++ '.' :: (dec a[2].toNat ++ '.' :: dec a[3].toNat))

/-- The subnet of the first `n` bits of an address. -/
def slashed (a : Vector UInt8 4) (n : ℕ) : Str := dotted a ++ '/' :: dec n

theorem octet_dec (b : UInt8) : octet (dec b.toNat) = some b := by
  have hall : ∀ k : Fin 256, octet (dec k) = some (UInt8.ofNat k) := by decide +kernel
  have hb := hall ⟨b.toNat, b.toNat_lt⟩
  rwa [UInt8.ofNat_toNat] at hb

theorem dtoi_dec {n : ℕ} (hn : n ≤ 32) : dtoi (dec n) = some n := by
  have hall : ∀ k : Fin 33, dtoi (dec k) = some k.val := by decide +kernel
  exact hall ⟨n, by omega⟩

theorem parseIPv4_dotted (a : Vector UInt8 4) : parseIPv4 (dotted a) = some (v4InV6 ++ a.toList) := by
  have hdot : ∀ n, '.' ∉ dec n := notMem_dec (by decide)
  have hsplit : (dotted a).splitOn '.' =
      [dec a[0].toNat, dec a[1].toNat, dec a[2].toNat, dec a[3].toNat] := by
    show (joinWith '.' [dec a[0].toNat, dec a[1].toNat, dec a[2].toNat, dec a[3].toNat]).splitOn '.' = _
    exact splitOn_joinWith (by simp [hdot]) nofun
  unfold parseIPv4 parseIPv4Fields
  rw [hsplit, toList_four]
  simp [octet_dec]

/-- The first character of a dotted address that is no digit is a dot. -/
theorem find?_dotted (a : Vector UInt8 4) :
    (dotted a).find? (fun c => c = '.' ∨ c = ':' ∨ c = '%') = some '.' := by
  have hno : ∀ c ∈ dec a[0].toNat, decide (c = '.' ∨ c = ':' ∨ c = '%') = false := by
    intro c hc
    have hmem := dec_subset_digits _ hc
    rw [decide_eq_false_iff_not]
    rintro (rfl | rfl | rfl) <;> exact absurd hmem (by decide)
  unfold dotted
  rw [List.find?_append, List.find?_eq_none.mpr fun c hc => by simpa using hno c hc]
  rfl

theorem parseIP_dotted (a : Vector UInt8 4) : parseIP (dotted a) = some (v4InV6 ++ a.toList) := by
  unfold parseIP
  rw [find?_dotted]
  exact parseIPv4_dotted a

theorem parseCIDR_slashed {n : ℕ} (hn : n ≤ 32) (b : Vector UInt8 4) : parseCIDR (slashed b n) =
    some ⟨maskIP (v4InV6 ++ b.toList) (cidrMask n 32), cidrMask n 32⟩ := by
  have hno : ∀ n, '/' ∉ dec n := notMem_dec (by decide)
  have hslash : ∀ c ∈ dotted b, decide (c ≠ '/') = true := by
    intro c hc
    rw [decide_eq_true_iff]
    rintro rfl
    unfold dotted at hc
    simp [hno] at hc
  have haddr : parseAddr (dotted b) = some (v4InV6 ++ b.toList, 32) := by
    unfold parseAddr
    rw [find?_dotted]
    exact congrArg (Option.map (·, 32)) (parseIPv4_dotted b)
  unfold parseCIDR slashed
  rw [List.dropWhile_append_of_pos hslash, List.takeWhile_append_of_pos hslash]
  simp [haddr, dtoi_dec hn, hn]

/-- **A subnet in text form** contains exactly the addresses that share its first bits with it. -/
theorem contains_slashed {n : ℕ} (hn : n ≤ 32) (a b : Vector UInt8 4) :
    contains (slashed b n) (dotted a) = true ↔ SamePrefix n a.toList b.toList := by
  unfold contains
  rw [parseCIDR_slashed hn, parseIP_dotted]
  exact contains_iff hn a b

end Pacsni.Lib.Cidr
