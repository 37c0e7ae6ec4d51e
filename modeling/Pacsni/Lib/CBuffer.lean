import Pacsni.Lib.Trace

/-! # Character buffers of a C program

A `char[n]` is a `Vector UInt8 n`. `writeAt` overwrites a stretch of it; `cString` is what a reader
of a NUL-terminated string sees; `snprintf` prints an already formatted text with the truncation of
the C function. Texts are lists of bytes, written as ASCII literals. -/

namespace Pacsni.Lib.CBuffer

open Pacsni.Lib.Trace

variable {n : ℕ}

/-- The bytes of an ASCII literal. -/
def ascii (s : String) : List UInt8 := s.toList.map fun c => UInt8.ofNat c.toNat

/-- The buffer with `src` written from index `i` on; what does not fit is dropped. -/
def writeAt (v : Vector UInt8 n) (i : ℕ) (src : List UInt8) : Vector UInt8 n :=
  Vector.ofFn fun k => if i ≤ k ∧ k < i + src.length then src.getD (k - i) 0 else v[k]

theorem getElem_writeAt (v : Vector UInt8 n) (i : ℕ) (src : List UInt8) (k : ℕ) (hk : k < n) :
    (writeAt v i src)[k] = if i ≤ k ∧ k < i + src.length then src.getD (k - i) 0 else v[k] := by
  simp [writeAt]

theorem take_toList_writeAt (v : Vector UInt8 n) (bs : List UInt8) (h : bs.length ≤ n) :
    (writeAt v 0 bs).toList.take bs.length = bs := by
  apply List.ext_getElem
  · rw [List.length_take, Vector.length_toList]; omega
  · intro i h1 h2
    rw [List.getElem_take, Vector.getElem_toList, getElem_writeAt, if_pos ⟨Nat.zero_le i, by omega⟩]
    simp [List.getD_eq_getElem?_getD, h2]

/-- A second text written over the end of a first one. -/
theorem writeAt_writeAt (v : Vector UInt8 n) {xs ys zs : List UInt8} (h : ys.length ≤ zs.length) :
    writeAt (writeAt v 0 (xs ++ ys)) xs.length zs = writeAt v 0 (xs ++ zs) := by
  apply Vector.ext
  intro k hk
  rw [getElem_writeAt, getElem_writeAt, getElem_writeAt, List.length_append, List.length_append,
    Nat.sub_zero]
  by_cases hx : k < xs.length
  · rw [if_neg (by omega), if_pos ⟨Nat.zero_le k, by omega⟩, if_pos ⟨Nat.zero_le k, by omega⟩,
      List.getD_append _ _ _ _ hx, List.getD_append _ _ _ _ hx]
  by_cases hz : k < xs.length + zs.length
  · rw [if_pos ⟨by omega, hz⟩, if_pos ⟨Nat.zero_le k, by omega⟩,
      List.getD_append_right _ _ _ _ (by omega)]
  · rw [if_neg (by omega), if_neg (by omega), if_neg (by omega)]

/-- The bytes before the first NUL. -/
def cString (v : Vector UInt8 n) : List UInt8 := v.toList.takeWhile (· ≠ 0)

theorem cString_writeAt (v : Vector UInt8 n) (bs : List UInt8) (h : bs.length < n) :
    cString (writeAt v 0 (bs ++ [0])) = bs.takeWhile (· ≠ 0) := by
  have hlen : (bs ++ [0]).length ≤ n := by rw [List.length_append, List.length_singleton]; omega
  have hsplit := take_toList_writeAt v (bs ++ [0]) hlen
  unfold cString
  rw [← List.take_append_drop (bs ++ [0]).length (writeAt v 0 (bs ++ [0])).toList, hsplit,
    List.append_assoc, List.takeWhile_append]
  split_ifs with hall
  · have hbs : bs.takeWhile (· ≠ 0) = bs := (List.takeWhile_prefix _).eq_of_length hall
    rw [hbs, List.singleton_append, List.takeWhile_cons_of_neg (by decide), List.append_nil]
  · rfl

/-- `snprintf(o + i, m, "%s", text)`: at most `m - 1` bytes of the text and a NUL. -/
def snprintf {σ : Type} (s : σ) (v : Vector UInt8 n) (i m : ℕ) (text : List UInt8) :
    Traced σ (Vector UInt8 n) :=
  if m = 0 then pure v
  else do
    let out := text.take (m - 1) ++ [0]
    touch s i out.length
    pure (writeAt v i out)

/-! ### Reading strings from memory -/

section

variable {σ : Type} (mem : ℕ → UInt8) (s : σ)

/-- What `%.*s` with precision `k` prints of the string at `i`: at most `k` bytes, up to a NUL. -/
def loadStr : ℕ → ℕ → Traced σ (List UInt8)
  | 0, _ => pure []
  | k + 1, i => do
    let b ← load8 mem s i
    if b = 0 then pure []
    else do
      let bs ← loadStr k (i + 1)
      pure (b :: bs)

/-- The search loop of `memmem`, from offset `i` of a haystack of `l` bytes at `p`. -/
def memmemLoop (p l : ℕ) (needle : List UInt8) (i : ℕ) : Traced σ (Option ℕ) :=
  if i + needle.length ≤ l then do
    let w ← loadBytes mem s (p + i) needle.length
    if w = needle then pure (some (p + i)) else memmemLoop p l needle (i + 1)
  else pure none
termination_by l + 1 - i

/-- `memmem(mem + p, l, needle, strlen(needle))` for a non-empty needle. -/
def memmem (p l : ℕ) (needle : List UInt8) : Traced σ (Option ℕ) := memmemLoop mem s p l needle 0

/-- The copy loop over one line: bytes from `p + c` on, up to a CR or LF, at most `l` bytes of the
frame and `m - 1` of the output; `w` is the site of the stores to the output. -/
def copyLine (w : σ) (p l m c : ℕ) : Traced σ (List UInt8) :=
  if c < l ∧ c < m - 1 then do
    let b ← load8 mem s (p + c)
    if b = 13 ∨ b = 10 then pure []
    else do
      touch w c 1
      let bs ← copyLine w p l m (c + 1)
      pure (b :: bs)
  else pure []
termination_by l - c

variable {P : σ → Prop}

theorem sitesIn_loadStr (hs : P s) : ∀ k i : ℕ, SitesIn P (loadStr mem s k i).log
  | 0, _ => .pure
  | k + 1, i => .bind (by simpa using hs) fun _ =>
    .ite .pure (.bind (sitesIn_loadStr hs k (i + 1)) fun _ => .pure)

theorem sitesIn_memmemLoop (hs : P s) (p l : ℕ) (needle : List UInt8) (i : ℕ) :
    SitesIn P (memmemLoop mem s p l needle i).log := by
  unfold memmemLoop
  split_ifs
  · exact .bind (by simpa using hs) fun _ => .ite .pure (sitesIn_memmemLoop hs p l needle (i + 1))
  · exact .pure
termination_by l + 1 - i

theorem sitesIn_copyLine (hs : P s) {w : σ} (hw : P w) (p l m c : ℕ) :
    SitesIn P (copyLine mem s w p l m c).log := by
  unfold copyLine
  split_ifs
  · exact .bind (by simpa using hs) fun _ => .ite .pure (.bind (by simpa using hw) fun _ =>
      .bind (sitesIn_copyLine hs hw p l m (c + 1)) fun _ => .pure)
  · exact .pure
termination_by l - c

end

theorem sitesIn_snprintf {σ : Type} {P : σ → Prop} {s : σ} (hs : P s) (v : Vector UInt8 n) (i m : ℕ)
    (text : List UInt8) : SitesIn P (snprintf s v i m text).log := by
  unfold snprintf
  exact .ite .pure (.bind (by simpa using hs) fun _ => .pure)

/-! ### What the readers return -/

/-- The `k` bytes at `p`. -/
def slice (mem : ℕ → UInt8) (p k : ℕ) : List UInt8 := (List.range k).map fun j => mem (p + j)

/-- How many of the `k` bytes at `p` come before the first one that stops the reader. -/
def stretch (stop : UInt8 → Bool) (mem : ℕ → UInt8) : ℕ → ℕ → ℕ
  | _, 0 => 0
  | p, k + 1 => if stop (mem p) then 0 else stretch stop mem (p + 1) k + 1

/-- A carriage return or a line feed. -/
def isBreak (b : UInt8) : Bool := b = 13 ∨ b = 10

/-- The byte that ends a C string. -/
def isNul (b : UInt8) : Bool := b = 0

section

variable {mem : ℕ → UInt8} {σ : Type} {s : σ}

theorem val_loadBytes_eq_slice (p k : ℕ) : (loadBytes mem s p k).val = slice mem p k := rfl

@[simp] theorem length_slice (p k : ℕ) : (slice mem p k).length = k := by simp [slice]

theorem getElem_slice {p k j : ℕ} (h : j < (slice mem p k).length) :
    (slice mem p k)[j] = mem (p + j) := by simp [slice]

theorem getElem?_slice {p k j : ℕ} (h : j < k) : (slice mem p k)[j]? = some (mem (p + j)) := by
  rw [List.getElem?_eq_getElem (by rw [length_slice]; exact h), getElem_slice]

theorem mem_slice {p k : ℕ} {b : UInt8} : b ∈ slice mem p k ↔ ∃ j < k, mem (p + j) = b := by
  simp [slice]

theorem take_slice (p k i : ℕ) : (slice mem p k).take i = slice mem p (min i k) := by
  unfold slice
  rw [← List.map_take, List.take_range]

theorem slice_succ (p k : ℕ) : slice mem p (k + 1) = mem p :: slice mem (p + 1) k := by
  unfold slice
  rw [List.range_succ_eq_map, List.map_cons, List.map_map]
  congr 1
  exact List.map_congr_left fun j _ => congrArg mem (by omega)

theorem stretch_le (stop : UInt8 → Bool) : ∀ p k : ℕ, stretch stop mem p k ≤ k
  | _, 0 => le_rfl
  | p, k + 1 => by
    unfold stretch
    have := stretch_le stop (p + 1) k
    split_ifs <;> omega

theorem not_stop_of_lt_stretch (stop : UInt8 → Bool) : ∀ p k j : ℕ, j < stretch stop mem p k →
    stop (mem (p + j)) = false
  | _, 0, j, h => absurd h (Nat.not_lt_zero j)
  | p, k + 1, j, h => by
    unfold stretch at h
    by_cases hp : stop (mem p) = true
    · rw [if_pos hp] at h
      exact absurd h (Nat.not_lt_zero j)
    · rw [if_neg hp] at h
      cases j with
      | zero => simpa using hp
      | succ j =>
        rw [Nat.add_comm j 1, ← Nat.add_assoc]
        exact not_stop_of_lt_stretch stop (p + 1) k j (by omega)

/-- A stretch that ends early ends at a stop. -/
theorem stop_stretch (stop : UInt8 → Bool) : ∀ p k : ℕ, stretch stop mem p k < k →
    stop (mem (p + stretch stop mem p k)) = true
  | _, 0, h => absurd h (Nat.not_lt_zero _)
  | p, k + 1, h => by
    unfold stretch at h ⊢
    by_cases hp : stop (mem p) = true
    · rw [if_pos hp]
      exact hp
    · rw [if_neg hp] at h ⊢
      rw [Nat.add_comm (stretch stop mem (p + 1) k) 1, ← Nat.add_assoc]
      exact stop_stretch stop (p + 1) k (by omega)

theorem le_stretch {stop : UInt8 → Bool} {p k m : ℕ} (hmk : m ≤ k)
    (h : ∀ j < m, stop (mem (p + j)) = false) : m ≤ stretch stop mem p k := by
  by_contra hlt
  have hstop := @stop_stretch mem stop p k (by omega)
  rw [h _ (by omega)] at hstop
  cases hstop

/-- The part of a stretch of memory before the first stop. -/
theorem takeWhile_slice (stop : UInt8 → Bool) : ∀ p k : ℕ,
    (slice mem p k).takeWhile (fun b => !stop b) = slice mem p (stretch stop mem p k)
  | _, 0 => rfl
  | p, k + 1 => by
    have ih := takeWhile_slice stop (p + 1) k
    unfold stretch
    rw [slice_succ, List.takeWhile_cons]
    by_cases h : stop (mem p) = true
    · simp [h, slice]
    · simp only [h, Bool.not_false, ↓reduceIte, ih, slice_succ, Bool.false_eq_true]

/-- The length of the string in a buffer to which bytes of memory are written. -/
theorem length_cString_slice {n : ℕ} (v : Vector UInt8 n) {p k : ℕ} (h : k < n) :
    (cString (writeAt v 0 (slice mem p k ++ [0]))).length = stretch isNul mem p k := by
  have hnul : (fun b : UInt8 => decide (b ≠ 0)) = fun b => !isNul b := by
    funext b
    simp [isNul]
  rw [cString_writeAt v _ (by rw [length_slice]; exact h), hnul, takeWhile_slice, length_slice]

theorem val_copyLine (w : σ) (p l m c : ℕ) : (copyLine mem s w p l m c).val =
    slice mem (p + c) (stretch isBreak mem (p + c) (min l (m - 1) - c)) := by
  unfold copyLine
  by_cases hc : c < l ∧ c < m - 1
  · have hn : min l (m - 1) - c = min l (m - 1) - (c + 1) + 1 := by omega
    rw [if_pos hc, hn, stretch, val_bind, val_load8]
    by_cases hb : mem (p + c) = 13 ∨ mem (p + c) = 10
    · have hstop : isBreak (mem (p + c)) = true := by simpa [isBreak] using hb
      rw [if_pos hb, if_pos hstop]
      rfl
    · have hstop : ¬ isBreak (mem (p + c)) = true := by simpa [isBreak] using hb
      rw [if_neg hb, if_neg hstop, slice_succ, val_bind, val_bind, val_copyLine w p l m (c + 1)]
      rfl
  · have hn : min l (m - 1) - c = 0 := by omega
    rw [if_neg hc, hn]
    rfl
termination_by l - c

theorem val_loadStr : ∀ k i : ℕ, (loadStr mem s k i).val = slice mem i (stretch isNul mem i k)
  | 0, _ => rfl
  | k + 1, i => by
    unfold loadStr
    rw [stretch, val_bind, val_load8]
    by_cases hb : mem i = 0
    · have hstop : isNul (mem i) = true := by simpa [isNul] using hb
      rw [if_pos hb, if_pos hstop]
      rfl
    · have hstop : ¬ isNul (mem i) = true := by simpa [isNul] using hb
      rw [if_neg hb, if_neg hstop, slice_succ, val_bind, val_loadStr k (i + 1)]
      rfl

/-- The first place at or behind offset `i` of the `l` bytes at `p` where the needle lies. -/
structure FirstAt (mem : ℕ → UInt8) (p l : ℕ) (needle : List UInt8) (i x : ℕ) : Prop where
  le : i ≤ x
  fits : x + needle.length ≤ l
  here : slice mem (p + x) needle.length = needle
  first : ∀ j, i ≤ j → j < x → slice mem (p + j) needle.length ≠ needle

theorem FirstAt.unique {p l i x y : ℕ} {needle : List UInt8} (hx : FirstAt mem p l needle i x)
    (hy : FirstAt mem p l needle i y) : x = y := by
  rcases lt_trichotomy x y with h | h | h
  · exact absurd hx.here (hy.first x hx.le h)
  · exact h
  · exact absurd hy.here (hx.first y hy.le h)

theorem memmemLoop_spec (p l : ℕ) (needle : List UInt8) (i : ℕ) :
    (∃ x, (memmemLoop mem s p l needle i).val = some (p + x) ∧ FirstAt mem p l needle i x) ∨
    ((memmemLoop mem s p l needle i).val = none ∧ ∀ x, ¬ FirstAt mem p l needle i x) := by
  unfold memmemLoop
  by_cases hfit : i + needle.length ≤ l
  · rw [if_pos hfit, val_bind, val_loadBytes_eq_slice]
    by_cases hw : slice mem (p + i) needle.length = needle
    · left
      refine ⟨i, ?_, le_rfl, hfit, hw, fun j hij hji => by omega⟩
      rw [if_pos hw]
      rfl
    · rw [if_neg hw]
      have hstep : ∀ x, FirstAt mem p l needle i x ↔ FirstAt mem p l needle (i + 1) x := by
        intro x
        constructor
        · rintro ⟨hle, hx, hhere, hfirst⟩
          have hne : i ≠ x := fun h => hw (h ▸ hhere)
          exact ⟨by omega, hx, hhere, fun j hij hjx => hfirst j (by omega) hjx⟩
        · rintro ⟨hle, hx, hhere, hfirst⟩
          refine ⟨by omega, hx, hhere, fun j hij hjx => ?_⟩
          rcases eq_or_lt_of_le hij with rfl | hlt
          · exact hw
          · exact hfirst j hlt hjx
      simpa only [hstep] using memmemLoop_spec p l needle (i + 1)
  · right
    rw [if_neg hfit]
    exact ⟨rfl, fun x hx => by have := hx.le; have := hx.fits; omega⟩
termination_by l + 1 - i

end

/-! ### Conversions of `printf` -/

/-- `%d` and `%u` of a natural number. -/
def decimal (k : ℕ) : List UInt8 := (Nat.toDigits 10 k).map fun c => UInt8.ofNat c.toNat

/-- `%04x` of a 16-bit number. -/
def hex4 (x : UInt16) : List UInt8 :=
  let ds := Nat.toDigits 16 x.toNat
  (List.replicate (4 - ds.length) '0' ++ ds).map fun c => UInt8.ofNat c.toNat

end Pacsni.Lib.CBuffer
