import Pacsni.Lib.Cidr
import Pacsni.Lib.Script
import Pacsni.Lib.Strings

/-! # The subnet test of the page

`ipInCIDR` of the script. Its callbacks name their parameter `oct` but read `octet`, a variable that no
script and no element of the page declares, so that the body always throws and the answer is always
`false`. It is right only for addresses outside the subnet (`ipInCIDR_iff`). -/

namespace Pacsni.Dashboard.Subnet

open Pacsni.Lib.Text Pacsni.Lib.Strings Pacsni.Lib.Script
open Pacsni.Lib.Cidr (SamePrefix dotted slashed contains_slashed)

/-- The functions of the browser that the script calls. -/
structure Engine where
  /-- `String.prototype.toLowerCase` -/
  toLowerCase : Str → Str
  toLowerCase_nil : toLowerCase [] = []
  /-- The number that a text stands for, or `undefined`. -/
  toNumber : Option Str → Float
  /-- `parseInt(text, 10)` -/
  parseInt : Str → Float
  /-- `new RegExp(source, 'i')`, and `test` of its result. -/
  regExp : Str → Option (Str → Bool)

/-- What the script throws. -/
inductive JsError
  | referenceError (name : String)
  | typeError (name : String)
deriving DecidableEq

/-- A computation of the script. -/
abbrev Js := Except JsError

/-- Reading a variable that is declared nowhere. -/
def undeclared {α : Type} (name : String) : Js α := .error (.referenceError name)

/-! ### Numbers -/

/-- `ToUint32`: the integer part of a number modulo `2 ^ 32`, or 0 for a number without one. -/
def toUint32 (x : Float) : UInt32 :=
  let m := x.abs.floor
  let r := (m - (m / 4294967296).floor * 4294967296).toUInt32
  if x < 0 then -r else r

/-- `x << k`, which is a signed number. -/
def shiftLeft (x : Float) (k : UInt32) : Float := Float.ofInt (toUint32 x <<< k).toInt32.toInt

/-! ### The function -/

variable (js : Engine)

/-- `(acc, oct) => (acc << 8) + parseInt(octet, 10)` -/
def addOctet (acc : Float) (_oct : Str) : Js Float := do
  let octet ← undeclared "octet"
  return shiftLeft acc 8 + js.parseInt octet

/-- The body of the `try`. The bits that `&` yields are the same whether its operands are signed. -/
def ipInCIDRBody (ip cidr : Str) : Js Bool := do
  let parts := split cidr '/'
  let range := parts.headD []
  let bits := parts[1]?
  let mask := ~~~ toUint32 (Float.pow 2 (32 - js.toNumber bits) - 1)
  let ipNum ← (split ip '.').foldlM (addOctet js) 0
  let rangeNum ← (split range '.').foldlM (addOctet js) 0
  return toUint32 ipNum &&& mask == toUint32 rangeNum &&& mask

/-- `ipInCIDR` -/
def ipInCIDR (ip cidr : Str) : Bool := tryCatch (ipInCIDRBody js ip cidr) false

/-- A text has at least one part, so that the callback is called. -/
theorem ipInCIDRBody_throws (ip cidr : Str) :
    ipInCIDRBody js ip cidr = .error (.referenceError "octet") := by
  obtain ⟨part, parts, hparts⟩ := List.exists_cons_of_ne_nil (List.splitOn_ne_nil '.' ip)
  have hreduce : (split ip '.').foldlM (addOctet js) 0 = .error (.referenceError "octet") := by
    rw [split, hparts]
    rfl
  unfold ipInCIDRBody
  rw [hreduce]
  rfl

theorem ipInCIDR_eq_false (ip cidr : Str) : ipInCIDR js ip cidr = false := by
  rw [ipInCIDR, ipInCIDRBody_throws]
  rfl

/-! ### Membership -/

/-- The test says whether the address has the first `n` bits of the other, as the server does. -/
structure IsMembership (a b : Vector UInt8 4) (n : ℕ) : Prop where
  prefix_iff : ipInCIDR js (dotted a) (slashed b n) = true ↔ SamePrefix n a.toList b.toList
  server : ipInCIDR js (dotted a) (slashed b n) = Lib.Cidr.contains (slashed b n) (dotted a)

/-- **Subnets in the browser.** The test is right if and only if the address is not in the subnet. -/
theorem ipInCIDR_iff (js : Engine) (a b : Vector UInt8 4) (n : ℕ) (hn : n ≤ 32) :
    IsMembership js a b n ↔ ¬ SamePrefix n a.toList b.toList := by
  constructor
  · intro h hsame
    have htrue := h.prefix_iff.mpr hsame
    rw [ipInCIDR_eq_false] at htrue
    cases htrue
  · intro hdiff
    refine ⟨iff_of_false (by rw [ipInCIDR_eq_false]; decide) hdiff, ?_⟩
    rw [ipInCIDR_eq_false, eq_comm, Bool.eq_false_iff]
    exact fun h => hdiff ((contains_slashed hn a b).mp h)

/-- A browser of which nothing is asked. -/
def plain : Engine where
  toLowerCase s := s.map Char.toLower
  toLowerCase_nil := rfl
  toNumber _ := 0
  parseInt _ := 0
  regExp _ := none

/-- `192.168.1.7` and `10.0.0.0/8` -/
theorem ipInCIDR_outside : (8 ≤ 32) ∧ (IsMembership plain #v[192, 168, 1, 7] #v[10, 0, 0, 0] 8 ↔
    ¬ SamePrefix 8 [192, 168, 1, 7] [10, 0, 0, 0]) :=
  ⟨by decide, ipInCIDR_iff plain #v[192, 168, 1, 7] #v[10, 0, 0, 0] 8 (by decide)⟩

/-- `10.1.2.3` is in `10.0.0.0/8`. -/
theorem ipInCIDR_inside : ¬ ∀ (js : Engine) (a b : Vector UInt8 4) (n : ℕ), n ≤ 32 →
    IsMembership js a b n := by
  intro h
  have hmember := h plain #v[10, 1, 2, 3] #v[10, 0, 0, 0] 8 (by decide)
  have htrue := hmember.prefix_iff.mpr (by decide)
  rw [ipInCIDR_eq_false] at htrue
  cases htrue

end Pacsni.Dashboard.Subnet
