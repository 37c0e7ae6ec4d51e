import Pacsni.Lib.CBuffer

/-! # Option lists

Many headers end in a list of options: a code byte, a length byte and data, with one code that stands
for a single byte of padding and one that ends the list. `options` reads such a list from any bytes;
it stops at the end code, and at the first option that does not fit. The formats differ in the two
codes and in what the length counts: `own` is the number of bytes of the option's own head that are
counted.

The second half reads the list from memory: one equation for each way a loop over the list goes on. -/

namespace Pacsni.Lib.Options

open Pacsni.Lib.CBuffer

/-- The conventions of an option list. -/
structure Format where
  pad : UInt8
  stop : UInt8
  own : ℕ

/-- An option: its code and its data. -/
structure Opt where
  code : UInt8
  data : List UInt8
deriving DecidableEq, Repr

/-- The options that the bytes hold. -/
def options (g : Format) : List UInt8 → List Opt
  | [] => []
  | [_] => []
  | c :: len :: body =>
    if c = g.stop then []
    else if c = g.pad then options g (len :: body)
    else if len.toNat < g.own ∨ body.length + g.own < len.toNat then []
    else ⟨c, body.take (len.toNat - g.own)⟩ :: options g (body.drop (len.toNat - g.own))
termination_by bs => bs.length

/-! ### From memory -/

theorem drop_slice (mem : ℕ → UInt8) (p k j : ℕ) :
    (slice mem p k).drop j = slice mem (p + j) (k - j) := by
  apply List.ext_getElem
  · rw [List.length_drop, length_slice, length_slice]
  · intro i h1 h2
    rw [List.getElem_drop, getElem_slice, getElem_slice, Nat.add_assoc]

section

variable {g : Format} {mem : ℕ → UInt8} {p n k : ℕ}

theorem options_of_le (h : n ≤ k) : options g (slice mem (p + k) (n - k)) = [] := by
  have hnil : slice mem (p + k) (n - k) = [] := by
    rw [Nat.sub_eq_zero_of_le h]
    rfl
  rw [hnil, options]

/-- At least two bytes are left. -/
theorem slice_two (h : k + 1 < n) : slice mem (p + k) (n - k) =
    mem (p + k) :: mem (p + k + 1) :: slice mem (p + k + 2) (n - (k + 2)) := by
  have hlen : n - k = n - (k + 2) + 1 + 1 := by omega
  rw [hlen, slice_succ, slice_succ]

/-- One byte is left. -/
theorem options_last (h : n = k + 1) : options g (slice mem (p + k) (n - k)) = [] := by
  have hone : n - k = 0 + 1 := by omega
  rw [hone, slice_succ]
  exact options.eq_2 g _

theorem options_stop (h : mem (p + k) = g.stop) : options g (slice mem (p + k) (n - k)) = [] := by
  rcases lt_trichotomy (k + 1) n with hlt | heq | hgt
  · rw [slice_two hlt, options, if_pos h]
  · exact options_last heq.symm
  · exact options_of_le (by omega)

theorem options_pad (hstop : mem (p + k) ≠ g.stop) (h : mem (p + k) = g.pad) :
    options g (slice mem (p + k) (n - k)) = options g (slice mem (p + (k + 1)) (n - (k + 1))) := by
  rcases lt_trichotomy (k + 1) n with hlt | heq | hgt
  · have hnext : slice mem (p + (k + 1)) (n - (k + 1)) =
        mem (p + k + 1) :: slice mem (p + k + 2) (n - (k + 2)) := by
      have hlen : n - (k + 1) = n - (k + 2) + 1 := by omega
      rw [hlen, slice_succ]
      rfl
    rw [slice_two hlt, options, if_neg hstop, if_pos h, hnext]
  · rw [options_last heq.symm, options_of_le (by omega)]
  · rw [options_of_le (by omega), options_of_le (by omega)]

/-- The option at `k` does not fit. -/
theorem options_cut (hpad : mem (p + k) ≠ g.pad)
    (h : n ≤ k + 1 ∨ (mem (p + k + 1)).toNat < g.own ∨ n + g.own < k + 2 + (mem (p + k + 1)).toNat) :
    options g (slice mem (p + k) (n - k)) = [] := by
  rcases lt_trichotomy (k + 1) n with hlt | heq | hgt
  · rw [slice_two hlt, options, if_neg hpad, length_slice]
    split_ifs with hstop hbad
    · rfl
    · rfl
    · omega
  · exact options_last heq.symm
  · exact options_of_le (by omega)

/-- The option at `k`, with its data and what comes behind it. -/
theorem options_cons (hstop : mem (p + k) ≠ g.stop) (hpad : mem (p + k) ≠ g.pad) (hlt : k + 1 < n)
    (hown : g.own ≤ (mem (p + k + 1)).toNat) (hfit : k + 2 + (mem (p + k + 1)).toNat ≤ n + g.own)
    {k' : ℕ} (hk' : k' = k + 2 + ((mem (p + k + 1)).toNat - g.own)) :
    options g (slice mem (p + k) (n - k)) =
      ⟨mem (p + k), slice mem (p + k + 2) ((mem (p + k + 1)).toNat - g.own)⟩ ::
        options g (slice mem (p + k') (n - k')) := by
  have hbad : ¬ ((mem (p + k + 1)).toNat < g.own ∨
      (slice mem (p + k + 2) (n - (k + 2))).length + g.own < (mem (p + k + 1)).toNat) := by
    rw [length_slice]
    omega
  have hmin : min ((mem (p + k + 1)).toNat - g.own) (n - (k + 2)) =
      (mem (p + k + 1)).toNat - g.own := by omega
  have hstart : p + k + 2 + ((mem (p + k + 1)).toNat - g.own) = p + k' := by omega
  have hrest : n - (k + 2) - ((mem (p + k + 1)).toNat - g.own) = n - k' := by omega
  rw [slice_two hlt, options, if_neg hstop, if_neg hpad, if_neg hbad, take_slice, hmin, drop_slice,
    hstart, hrest]

/-- **Loops over an option list.** A loop that goes from option to option, and changes its state by `f`
for each of them, is the fold over the parsed list. -/
theorem loop_eq_foldl {α : Type} {f : α → Opt → α} {F : ℕ → α → α}
    (hend : ∀ k s, n ≤ k → F k s = s)
    (hstop : ∀ k s, k < n → mem (p + k) = g.stop → F k s = s)
    (hpad : ∀ k s, k < n → mem (p + k) ≠ g.stop → mem (p + k) = g.pad → F k s = F (k + 1) s)
    (hcut : ∀ k s, k < n → mem (p + k) ≠ g.stop → mem (p + k) ≠ g.pad →
      n ≤ k + 1 ∨ (mem (p + k + 1)).toNat < g.own ∨ n + g.own < k + 2 + (mem (p + k + 1)).toNat →
      F k s = s)
    (hcons : ∀ k s, mem (p + k) ≠ g.stop → mem (p + k) ≠ g.pad → k + 1 < n →
      g.own ≤ (mem (p + k + 1)).toNat → k + 2 + (mem (p + k + 1)).toNat ≤ n + g.own →
      F k s = F (k + 2 + ((mem (p + k + 1)).toNat - g.own))
        (f s ⟨mem (p + k), slice mem (p + k + 2) ((mem (p + k + 1)).toNat - g.own)⟩))
    (k : ℕ) (s : α) : F k s = (options g (slice mem (p + k) (n - k))).foldl f s := by
  by_cases hk : k < n
  swap
  · rw [hend k s (not_lt.mp hk), options_of_le (not_lt.mp hk)]
    rfl
  by_cases h0 : mem (p + k) = g.stop
  · rw [hstop k s hk h0, options_stop h0]
    rfl
  by_cases h1 : mem (p + k) = g.pad
  · rw [hpad k s hk h0 h1, options_pad h0 h1]
    exact loop_eq_foldl hend hstop hpad hcut hcons (k + 1) s
  by_cases hc : n ≤ k + 1 ∨ (mem (p + k + 1)).toNat < g.own ∨
      n + g.own < k + 2 + (mem (p + k + 1)).toNat
  · rw [hcut k s hk h0 h1 hc, options_cut h1 hc]
    rfl
  · obtain ⟨hone, hlen⟩ := not_or.mp hc
    obtain ⟨hown, hfit⟩ := not_or.mp hlen
    rw [hcons k s h0 h1 (not_le.mp hone) (not_lt.mp hown) (not_lt.mp hfit),
      options_cons h0 h1 (not_le.mp hone) (not_lt.mp hown) (not_lt.mp hfit) rfl, List.foldl_cons]
    exact loop_eq_foldl hend hstop hpad hcut hcons _ _
termination_by n - k

end

/-! ### The last option that counts -/

section

variable {α β : Type}

/-- The value of the last element that has one. -/
def lastOf (f : α → Option β) (l : List α) : Option β := (l.filterMap f).getLast?

@[simp] theorem lastOf_nil (f : α → Option β) : lastOf f [] = none := rfl

theorem lastOf_cons (f : α → Option β) (a : α) (l : List α) :
    lastOf f (a :: l) = (lastOf f l).or (f a) := by
  unfold lastOf
  cases hf : f a with
  | none => rw [List.filterMap_cons_none hf, Option.or_none]
  | some y =>
    rw [List.filterMap_cons_some hf, List.getLast?_cons]
    cases (l.filterMap f).getLast? <;> rfl

end

end Pacsni.Lib.Options
