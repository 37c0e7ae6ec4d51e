import Mathlib

/-! # The delay before a new connection

The goroutine that connects to the packet service waits before it tries again, twice as long behind each
failure. Shift and product wrap around in 64 bits, and a delay out of range is set to the longest one.
No wrapped product is in range (`wrapped_out_of_range`): `2 * time.Second` has the factor `2 ^ 10`, so
a product that wraps has the factor `2 ^ 43`, and it is zero, negative, or longer than two hours. -/

namespace Pacsni.Dashboard.Reconnect

/-- `minInterval`, in nanoseconds. -/
def minInterval : BitVec 64 := 2 * 1000000000

/-- `maxInterval`, in nanoseconds. -/
def maxInterval : BitVec 64 := 60 * 1000000000

/-- `backoff`. A shift by 64 or more gives zero. -/
def backoff (consecutiveFailures : BitVec 64) : BitVec 64 :=
  let backoff := minInterval * (1#64 <<< (consecutiveFailures - 1).toNat)
  if maxInterval.slt backoff || backoff.slt minInterval then maxInterval else backoff

/-! ### The product -/

variable {n : BitVec 64} {k : ℕ}

/-- A positive number as a natural number. -/
theorem toInt_eq_toNat (hn : 0 < n.toInt) : n.toInt = n.toNat := by
  rw [BitVec.toInt_eq_toNat_cond] at hn ⊢
  split_ifs at hn ⊢
  · rfl
  · have := n.isLt
    omega

theorem toNat_sub_one (hn : 0 < n.toInt) : (n - 1).toNat = n.toInt.toNat - 1 := by
  have hnat := toInt_eq_toNat hn
  have hlt := n.isLt
  rw [BitVec.toNat_sub, hnat, Int.toNat_natCast, show (1 : BitVec 64).toNat = 1 from rfl]
  omega

/-- The shift and the product modulo `2 ^ 64`. -/
theorem toNat_product (k : ℕ) : (minInterval * (1#64 <<< k)).toNat = 2000000000 * 2 ^ k % 2 ^ 64 := by
  rw [BitVec.toNat_mul, BitVec.toNat_shiftLeft, Nat.shiftLeft_eq,
    show (1#64).toNat = 1 from rfl, Nat.one_mul, Nat.mul_mod_mod]
  rfl

/-- A product out of range is replaced. -/
theorem backoff_of_out (hk : (n - 1).toNat = k)
    (h : 60000000000 < (minInterval * (1#64 <<< k)).toInt ∨
      (minInterval * (1#64 <<< k)).toInt < 2000000000) : backoff n = maxInterval := by
  have hmin : minInterval.toInt = 2000000000 := by decide
  have hmax : maxInterval.toInt = 60000000000 := by decide
  unfold backoff
  dsimp only
  rw [hk, if_pos]
  rwa [Bool.or_eq_true, BitVec.slt_iff_toInt_lt, BitVec.slt_iff_toInt_lt, hmin, hmax]

/-- Up to 32 failures the product does not wrap. -/
theorem large_out_of_range (h5 : 5 ≤ k) (h32 : k ≤ 32) :
    60000000000 < (minInterval * (1#64 <<< k)).toInt := by
  have hlow : 2 ^ 5 ≤ 2 ^ k := Nat.pow_le_pow_right (by decide) h5
  have hhigh : 2 ^ k ≤ 2 ^ 32 := Nat.pow_le_pow_right (by decide) h32
  have hnat := toNat_product k
  generalize 2 ^ k = power at hlow hhigh hnat
  rw [Nat.mod_eq_of_lt (by omega)] at hnat
  rw [BitVec.toInt_eq_toNat_cond, hnat]
  split_ifs <;> omega

/-- A multiple of `2 ^ 43` is out of range. -/
theorem multiple_out_of_range {x : BitVec 64} (h : 2 ^ 43 ∣ x.toNat) :
    60000000000 < x.toInt ∨ x.toInt < 2000000000 := by
  obtain ⟨q, hq⟩ := h
  have hlt := x.isLt
  rw [BitVec.toInt_eq_toNat_cond]
  split_ifs <;> omega

/-- A product that can wrap has the factor `2 ^ 43`. -/
theorem wrapped_out_of_range (h33 : 33 ≤ k) :
    60000000000 < (minInterval * (1#64 <<< k)).toInt ∨
      (minInterval * (1#64 <<< k)).toInt < 2000000000 := by
  apply multiple_out_of_range
  have hfactor : 2000000000 * 2 ^ k = 2 ^ 43 * (1953125 * 2 ^ (k - 33)) := by
    have hsplit : 2 ^ k = 2 ^ 33 * 2 ^ (k - 33) := by rw [← pow_add, Nat.add_sub_cancel' h33]
    omega
  rw [toNat_product, Nat.dvd_mod_iff (Nat.pow_dvd_pow 2 (by decide)), hfactor]
  exact Nat.dvd_mul_right _ _

/-! ### The delay -/

theorem backoff_small (hk : (n - 1).toNat = k) (h : k < 5) :
    (backoff n).toInt = 2 * 2 ^ k * 1000000000 := by
  unfold backoff
  dsimp only
  rw [hk]
  interval_cases k <;> decide

/-- The delay in seconds. -/
theorem toInt_backoff (hn : 0 < n.toInt) :
    (backoff n).toInt = min (2 * 2 ^ (n.toInt.toNat - 1)) 60 * 1000000000 := by
  have hk := toNat_sub_one hn
  have hmax : maxInterval.toInt = 60 * 1000000000 := by decide
  by_cases h5 : n.toInt.toNat - 1 < 5
  · rw [backoff_small hk h5, min_eq_left]
    have hle : (2 : ℤ) ^ (n.toInt.toNat - 1) ≤ 2 ^ 4 :=
      pow_le_pow_right₀ (by norm_num) (by omega)
    omega
  · have hge : (2 : ℤ) ^ 5 ≤ 2 ^ (n.toInt.toNat - 1) := pow_le_pow_right₀ (by norm_num) (by omega)
    rw [backoff_of_out hk, hmax, min_eq_right (by omega)]
    by_cases h32 : n.toInt.toNat - 1 ≤ 32
    · exact Or.inl (large_out_of_range (by omega) h32)
    · exact wrapped_out_of_range (by omega)

theorem backoff_bounds (hn : 0 < n.toInt) :
    2 * 1000000000 ≤ (backoff n).toInt ∧ (backoff n).toInt ≤ 60 * 1000000000 := by
  have hone : (1 : ℤ) ≤ 2 ^ (n.toInt.toNat - 1) := one_le_pow₀ (by norm_num)
  rw [toInt_backoff hn]
  omega

/-- **The delay.** Behind `n` failures it is two seconds, doubled for each failure but the first, and at
most a minute. It is never below two seconds or above a minute, and does not decrease. -/
theorem backoff_delay (n : BitVec 64) (hn : 0 < n.toInt) :
    (backoff n).toInt = min (2 * 2 ^ (n.toInt.toNat - 1)) 60 * 1000000000 ∧
    (2 * 1000000000 ≤ (backoff n).toInt ∧ (backoff n).toInt ≤ 60 * 1000000000) ∧
    ∀ m : BitVec 64, n.toInt ≤ m.toInt → (backoff n).toInt ≤ (backoff m).toInt := by
  refine ⟨toInt_backoff hn, backoff_bounds hn, fun m hm => ?_⟩
  have hpow : (2 : ℤ) ^ (n.toInt.toNat - 1) ≤ 2 ^ (m.toInt.toNat - 1) :=
    pow_le_pow_right₀ (by norm_num) (by omega)
  rw [toInt_backoff hn, toInt_backoff (lt_of_lt_of_le hn hm)]
  omega

/-- Forty failures: the product is `2 ^ 39` times two seconds, and wraps. -/
theorem backoff_delay_forty :
    (backoff 40).toInt = min (2 * 2 ^ ((40#64).toInt.toNat - 1)) 60 * 1000000000 ∧
    (2 * 1000000000 ≤ (backoff 40).toInt ∧ (backoff 40).toInt ≤ 60 * 1000000000) ∧
    ∀ m : BitVec 64, (40#64).toInt ≤ m.toInt → (backoff 40).toInt ≤ (backoff m).toInt :=
  backoff_delay 40 (by decide)

end Pacsni.Dashboard.Reconnect
