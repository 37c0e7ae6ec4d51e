import Mathlib

/-! # Fixed-width numbers as bytes

Big-endian numbers of two and four bytes (network order), and little-endian numbers of any width
`k`: `leBytes k n` are the `k` low bytes of `n`, lowest first, and `leNat` reads a number back. -/

namespace Pacsni.Lib.Bytes

/-! ### Network order -/

/-- The 16-bit number with high byte `a` and low byte `b`. -/
def be16 (a b : UInt8) : UInt16 := UInt16.ofNat (a.toNat * 256 + b.toNat)

/-- The 32-bit number with bytes `a`, `b`, `c`, `d`, highest first. -/
def be32 (a b c d : UInt8) : UInt32 :=
  UInt32.ofNat (((a.toNat * 256 + b.toNat) * 256 + c.toNat) * 256 + d.toNat)

/-- The two bytes of a 16-bit number, high byte first. -/
def beBytes16 (x : UInt16) : List UInt8 := [UInt8.ofNat (x.toNat / 256), UInt8.ofNat x.toNat]

/-- The four bytes of a 32-bit number, highest first. -/
def beBytes32 (x : UInt32) : List UInt8 :=
  [UInt8.ofNat (x.toNat / 256 ^ 3), UInt8.ofNat (x.toNat / 256 ^ 2), UInt8.ofNat (x.toNat / 256),
    UInt8.ofNat x.toNat]

@[simp] theorem length_beBytes16 (x : UInt16) : (beBytes16 x).length = 2 := rfl
@[simp] theorem length_beBytes32 (x : UInt32) : (beBytes32 x).length = 4 := rfl

theorem toNat_be16 (a b : UInt8) : (be16 a b).toNat = a.toNat * 256 + b.toNat := by
  have ha := a.toNat_lt
  have hb := b.toNat_lt
  rw [be16, UInt16.toNat_ofNat']
  exact Nat.mod_eq_of_lt (by omega)

theorem be16_beBytes (x : UInt16) :
    be16 (UInt8.ofNat (x.toNat / 256)) (UInt8.ofNat x.toNat) = x := by
  have hx := x.toNat_lt
  apply UInt16.toNat_inj.mp
  rw [toNat_be16, UInt8.toNat_ofNat', UInt8.toNat_ofNat']
  omega

theorem be32_beBytes (x : UInt32) :
    be32 (UInt8.ofNat (x.toNat / 256 ^ 3)) (UInt8.ofNat (x.toNat / 256 ^ 2))
      (UInt8.ofNat (x.toNat / 256)) (UInt8.ofNat x.toNat) = x := by
  have hx := x.toNat_lt
  apply UInt32.toNat_inj.mp
  simp only [be32, UInt32.toNat_ofNat', UInt8.toNat_ofNat']
  omega

theorem be32_inj {a b c d a' b' c' d' : UInt8} :
    be32 a b c d = be32 a' b' c' d' ↔ a = a' ∧ b = b' ∧ c = c' ∧ d = d' := by
  constructor
  · intro h
    have ha := a.toNat_lt
    have hb := b.toNat_lt
    have hc := c.toNat_lt
    have hd := d.toNat_lt
    have ha' := a'.toNat_lt
    have hb' := b'.toNat_lt
    have hc' := c'.toNat_lt
    have hd' := d'.toNat_lt
    have h := congrArg UInt32.toNat h
    simp only [be32, UInt32.toNat_ofNat'] at h
    rw [Nat.mod_eq_of_lt (by omega), Nat.mod_eq_of_lt (by omega)] at h
    refine ⟨UInt8.toNat_inj.mp ?_, UInt8.toNat_inj.mp ?_, UInt8.toNat_inj.mp ?_,
      UInt8.toNat_inj.mp ?_⟩ <;> omega
  · rintro ⟨rfl, rfl, rfl, rfl⟩
    rfl

/-! ### Little-endian numbers -/

/-- The `k` low bytes of `n`, lowest first. -/
def leBytes : ℕ → ℕ → List UInt8
  | 0, _ => []
  | k + 1, n => UInt8.ofNat n :: leBytes k (n / 256)

/-- The number whose bytes are given lowest first. -/
def leNat : List UInt8 → ℕ
  | [] => 0
  | b :: bs => b.toNat + 256 * leNat bs

@[simp] theorem length_leBytes : ∀ k n : ℕ, (leBytes k n).length = k
  | 0, _ => rfl
  | k + 1, n => by simp [leBytes, length_leBytes k]

theorem leNat_leBytes : ∀ (k n : ℕ), n < 256 ^ k → leNat (leBytes k n) = n
  | 0, n, h => by
    have : n = 0 := by simpa using h
    simp [this, leBytes, leNat]
  | k + 1, n, h => by
    have hd : n / 256 < 256 ^ k := by
      apply (Nat.div_lt_iff_lt_mul (by decide)).mpr
      rwa [← Nat.pow_succ]
    simp only [leBytes, leNat, leNat_leBytes k _ hd, UInt8.toNat_ofNat']
    omega

/-- Four bytes read lowest first are the bytes read highest first the other way round. -/
theorem ofNat_leNat_four (a b c d : UInt8) : UInt32.ofNat (leNat [a, b, c, d]) = be32 d c b a := by
  unfold be32
  congr 1
  simp only [leNat]
  omega

/-- The 32-bit words of a list, each lowest byte first. -/
def leWords (ws : List UInt32) : List UInt8 := ws.flatMap fun w => leBytes 4 w.toNat

@[simp] theorem length_leWords : ∀ ws : List UInt32, (leWords ws).length = 4 * ws.length
  | [] => rfl
  | w :: ws => by
    have ih := length_leWords ws
    unfold leWords at ih ⊢
    rw [List.flatMap_cons, List.length_append, ih, length_leBytes, List.length_cons]
    omega

end Pacsni.Lib.Bytes
