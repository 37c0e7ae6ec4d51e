import Pacsni.Lib.Bytes

/-! # Text

Strings are lists of characters. `fromUtf8Lossy` decodes bytes as UTF-8 and puts U+FFFD in place of
every maximal ill-formed sequence. ASCII bytes survive it: the ASCII characters of the result are the
ASCII bytes of the input, in order (`filter_fromUtf8Lossy`). -/

namespace Pacsni.Lib.Text

/-- A string. -/
abbrev Str := List Char

/-! ### Numbers -/

/-- A number in decimal. -/
def dec (n : ℕ) : Str := Nat.toDigits 10 n

/-- A byte as two hexadecimal digits. -/
def hex2 (b : UInt8) : Str :=
  let ds := Nat.toDigits 16 b.toNat
  List.replicate (2 - ds.length) '0' ++ ds

/-- What numbers are written with. -/
def digits : Str := "0123456789abcdef*".toList

theorem digitChar_mem_digits : ∀ d : ℕ, Nat.digitChar d ∈ digits
  | 0 | 1 | 2 | 3 | 4 | 5 | 6 | 7 | 8 | 9 | 10 | 11 | 12 | 13 | 14 | 15 => by decide
  | d + 16 => by
    have : Nat.digitChar (d + 16) = '*' := Nat.digitChar_eq_star.mpr (by omega)
    rw [this]
    decide

theorem mem_digits_of_mem_toDigits {b : ℕ} (hb : 1 < b) {c : Char} (n : ℕ)
    (hc : c ∈ Nat.toDigits b n) : c ∈ digits := by
  induction n using Nat.strong_induction_on with
  | _ n ih =>
    rw [Nat.toDigits_eq_if hb] at hc
    split_ifs at hc with hn
    · rw [List.mem_singleton.mp hc]
      exact digitChar_mem_digits n
    · rcases List.mem_append.mp hc with hc | hc
      · exact ih (n / b) (Nat.div_lt_self (by omega) hb) hc
      · rw [List.mem_singleton.mp hc]
        exact digitChar_mem_digits (n % b)

theorem dec_subset_digits (n : ℕ) : dec n ⊆ digits := fun _ hc =>
  mem_digits_of_mem_toDigits (by decide) n hc

theorem hex2_subset_digits (b : UInt8) : hex2 b ⊆ digits := by
  intro c hc
  rcases List.mem_append.mp hc with hc | hc
  · rw [(List.mem_replicate.mp hc).2]
    decide
  · exact mem_digits_of_mem_toDigits (by decide) _ hc

theorem notMem_dec {c : Char} (hc : c ∉ digits) (n : ℕ) : c ∉ dec n :=
  fun h => hc (dec_subset_digits n h)

theorem notMem_hex2 {c : Char} (hc : c ∉ digits) (b : UInt8) : c ∉ hex2 b :=
  fun h => hc (hex2_subset_digits b h)

/-- The number is read back from its digits. -/
theorem dec_injective : Function.Injective dec := by
  intro m n h
  have hm : Nat.ofDigitChars 10 (dec m) 0 = m := Nat.ofDigitChars_ten_toDigits
  have hn : Nat.ofDigitChars 10 (dec n) 0 = n := Nat.ofDigitChars_ten_toDigits
  rw [← hm, h, hn]

/-- The two digits of a byte. -/
theorem hex2_eq (b : UInt8) : hex2 b = [Nat.digitChar (b.toNat / 16), Nat.digitChar (b.toNat % 16)] := by
  have hlt := b.toNat_lt
  unfold hex2
  rw [Nat.toDigits_eq_if (by decide)]
  split_ifs with hsmall
  · rw [Nat.div_eq_of_lt hsmall, Nat.mod_eq_of_lt hsmall]
    rfl
  · rw [Nat.toDigits_of_lt_base (by omega)]
    rfl

theorem length_hex2 (b : UInt8) : (hex2 b).length = 2 := by rw [hex2_eq]; rfl

theorem hex2_injective : Function.Injective hex2 := by
  intro b c h
  have hdigit : ∀ m < 16, ∀ n < 16, Nat.digitChar m = Nat.digitChar n → m = n := by decide
  have hb := b.toNat_lt
  have hc := c.toNat_lt
  rw [hex2_eq, hex2_eq, List.cons.injEq, List.cons.injEq] at h
  have hhigh := hdigit _ (by omega) _ (by omega) h.1
  have hlow := hdigit _ (by omega) _ (by omega) h.2.1
  exact UInt8.toNat_inj.mp (by omega)

/-! ### Parts -/

/-- The parts with `sep` between them. -/
def joinWith (sep : Char) : List Str → Str
  | [] => []
  | [t] => t
  | t :: u :: ts => t ++ sep :: joinWith sep (u :: ts)

theorem joinWith_eq_intercalate (sep : Char) : ∀ ts : List Str, joinWith sep ts = [sep].intercalate ts
  | [] => rfl
  | [t] => by simp [joinWith]
  | t :: u :: ts => by
    rw [joinWith, joinWith_eq_intercalate sep (u :: ts), List.intercalate_cons_cons]
    simp

variable {c sep : Char} {ts us : List Str}

theorem mem_joinWith (h : c ∈ joinWith sep ts) : c = sep ∨ ∃ t ∈ ts, c ∈ t := by
  fun_induction joinWith sep ts with
  | case1 => cases h
  | case2 t => exact Or.inr ⟨t, List.mem_cons_self, h⟩
  | case3 t u ts ih =>
    rcases List.mem_append.mp h with h | h
    · exact Or.inr ⟨t, List.mem_cons_self, h⟩
    rcases List.mem_cons.mp h with rfl | h
    · exact Or.inl rfl
    · exact (ih h).imp_right fun ⟨v, hv, hc⟩ => ⟨v, List.mem_cons_of_mem _ hv, hc⟩

/-- The parts are read back from the text. -/
theorem splitOn_joinWith (hsep : ∀ t ∈ ts, sep ∉ t) (hne : ts ≠ []) :
    (joinWith sep ts).splitOn sep = ts := by
  rw [joinWith_eq_intercalate]
  exact List.splitOn_intercalate sep hsep hne

/-- **Unique decomposition.** Texts are equal if and only if their parts are, when no part has the
separator in it. -/
theorem joinWith_inj (hts : ∀ t ∈ ts, sep ∉ t) (hus : ∀ u ∈ us, sep ∉ u) (hts' : ts ≠ [])
    (hus' : us ≠ []) : joinWith sep ts = joinWith sep us ↔ ts = us := by
  refine ⟨fun h => ?_, fun h => h ▸ rfl⟩
  rw [← splitOn_joinWith hts hts', h, splitOn_joinWith hus hus']

/-! ### UTF-8 -/

/-- The byte as a character. -/
def charOf (b : UInt8) : Char := Char.ofNat b.toNat

/-- An ASCII byte. -/
def IsAscii (b : UInt8) : Prop := b.toNat < 0x80

instance (b : UInt8) : Decidable (IsAscii b) := inferInstanceAs (Decidable (_ < _))

/-- A continuation byte. -/
def IsCont (c : UInt8) : Prop := 0x80 ≤ c.toNat ∧ c.toNat ≤ 0xBF

instance (c : UInt8) : Decidable (IsCont c) := inferInstanceAs (Decidable (_ ∧ _))

/-- The byte `c` may follow the first byte `b` of a three-byte character. -/
def Second3 (b c : UInt8) : Prop :=
  IsCont c ∧ (b.toNat = 0xE0 → 0xA0 ≤ c.toNat) ∧ (b.toNat = 0xED → c.toNat ≤ 0x9F)

instance (b c : UInt8) : Decidable (Second3 b c) := inferInstanceAs (Decidable (_ ∧ _))

/-- The byte `c` may follow the first byte `b` of a four-byte character. -/
def Second4 (b c : UInt8) : Prop :=
  IsCont c ∧ (b.toNat = 0xF0 → 0x90 ≤ c.toNat) ∧ (b.toNat = 0xF4 → c.toNat ≤ 0x8F)

instance (b c : UInt8) : Decidable (Second4 b c) := inferInstanceAs (Decidable (_ ∧ _))

/-- The low six bits of a continuation byte. -/
def low6 (c : UInt8) : ℕ := c.toNat - 0x80

/-- The character that starts with the byte `b ≥ 0x80`, or `none` if it is ill-formed, and the bytes
behind it. An ill-formed sequence ends before the first byte that cannot continue it. -/
def nextChar (b : UInt8) (rest : List UInt8) : Option Char × List UInt8 :=
  if 0xC2 ≤ b.toNat ∧ b.toNat ≤ 0xDF then
    match rest with
    | c :: t =>
      if IsCont c then (some (Char.ofNat ((b.toNat - 0xC0) * 64 + low6 c)), t) else (none, rest)
    | [] => (none, [])
  else if 0xE0 ≤ b.toNat ∧ b.toNat ≤ 0xEF then
    match rest with
    | c :: d :: t =>
      if Second3 b c then
        if IsCont d then
          (some (Char.ofNat ((b.toNat - 0xE0) * 4096 + low6 c * 64 + low6 d)), t)
        else (none, d :: t)
      else (none, rest)
    | [c] => if Second3 b c then (none, []) else (none, rest)
    | [] => (none, [])
  else if 0xF0 ≤ b.toNat ∧ b.toNat ≤ 0xF4 then
    match rest with
    | c :: d :: e :: t =>
      if Second4 b c then
        if IsCont d then
          if IsCont e then
            (some (Char.ofNat
              ((b.toNat - 0xF0) * 262144 + low6 c * 4096 + low6 d * 64 + low6 e)), t)
          else (none, e :: t)
        else (none, d :: e :: t)
      else (none, rest)
    | [c, d] => if Second4 b c then if IsCont d then (none, []) else (none, [d]) else (none, rest)
    | [c] => if Second4 b c then (none, []) else (none, rest)
    | [] => (none, [])
  else (none, rest)

theorem toNat_ofNat_of_valid {n : ℕ} (h : n.isValidChar) : (Char.ofNat n).toNat = n := by
  rw [Char.ofNat, dif_pos h]
  rfl

/-- What `nextChar` skips of `rest` is not ASCII, and neither is the character it returns. -/
structure NextOK (rest : List UInt8) (r : Option Char × List UInt8) : Prop where
  skipped : ∃ k, r.2 = rest.drop k ∧ ∀ c ∈ rest.take k, ¬ IsAscii c
  char : ∀ ch, r.1 = some ch → 0x80 ≤ ch.toNat

theorem NextOK.none {rest : List UInt8} (k : ℕ) (h : ∀ c ∈ rest.take k, ¬ IsAscii c) :
    NextOK rest (Option.none, rest.drop k) := ⟨⟨k, rfl, h⟩, fun _ hc => by cases hc⟩

theorem NextOK.some {rest : List UInt8} (k n : ℕ) (h : ∀ c ∈ rest.take k, ¬ IsAscii c)
    (hv : n.isValidChar) (hn : 0x80 ≤ n) : NextOK rest (Option.some (Char.ofNat n), rest.drop k) := by
  refine ⟨⟨k, rfl, h⟩, fun ch hc => ?_⟩
  obtain rfl := Option.some.inj hc
  rwa [toNat_ofNat_of_valid hv]

theorem IsCont.not_ascii {c : UInt8} (h : IsCont c) : ¬ IsAscii c := by
  unfold IsAscii
  have := h.1
  omega

theorem nextChar_ok (b : UInt8) (rest : List UInt8) : NextOK rest (nextChar b rest) := by
  unfold nextChar
  split_ifs with h2 h3 h4
  · match rest with
    | [] => exact .none 0 (by simp)
    | c :: t =>
      dsimp only
      split_ifs with hc
      · refine .some 1 _ (by simpa using hc.not_ascii) ?_ ?_
        · have := hc.2; unfold low6 Nat.isValidChar; omega
        · omega
      · exact .none 0 (by simp)
  · match rest with
    | [] => exact .none 0 (by simp)
    | [c] =>
      dsimp only
      split_ifs with hc
      · exact .none 1 (by simpa using hc.1.not_ascii)
      · exact .none 0 (by simp)
    | c :: d :: t =>
      dsimp only
      split_ifs with hc hd
      · refine .some 2 _ (by simpa using ⟨hc.1.not_ascii, hd.not_ascii⟩) ?_ ?_ <;>
          obtain ⟨⟨hc1, hc2⟩, hE0, hED⟩ := hc <;> obtain ⟨hd1, hd2⟩ := hd <;> unfold low6
        · unfold Nat.isValidChar; omega
        · omega
      · exact .none 1 (by simpa using hc.1.not_ascii)
      · exact .none 0 (by simp)
  · match rest with
    | [] => exact .none 0 (by simp)
    | [c] =>
      dsimp only
      split_ifs with hc
      · exact .none 1 (by simpa using hc.1.not_ascii)
      · exact .none 0 (by simp)
    | [c, d] =>
      dsimp only
      split_ifs with hc hd
      · exact .none 2 (by simpa using ⟨hc.1.not_ascii, hd.not_ascii⟩)
      · exact .none 1 (by simpa using hc.1.not_ascii)
      · exact .none 0 (by simp)
    | c :: d :: e :: t =>
      dsimp only
      split_ifs with hc hd he
      · refine .some 3 _ (by simpa using ⟨hc.1.not_ascii, hd.not_ascii, he.not_ascii⟩) ?_ ?_ <;>
          obtain ⟨⟨hc1, hc2⟩, hF0, hF4⟩ := hc <;> obtain ⟨hd1, hd2⟩ := hd <;>
          obtain ⟨he1, he2⟩ := he <;> unfold low6
        · unfold Nat.isValidChar; omega
        · omega
      · exact .none 2 (by simpa using ⟨hc.1.not_ascii, hd.not_ascii⟩)
      · exact .none 1 (by simpa using hc.1.not_ascii)
      · exact .none 0 (by simp)
  · exact .none 0 (by simp)

theorem length_nextChar_le (b : UInt8) (rest : List UInt8) :
    (nextChar b rest).2.length ≤ rest.length := by
  obtain ⟨k, hk, -⟩ := (nextChar_ok b rest).skipped
  rw [hk, List.length_drop]
  omega

/-- `String::from_utf8_lossy` -/
def fromUtf8Lossy : List UInt8 → Str
  | [] => []
  | b :: rest =>
    if IsAscii b then charOf b :: fromUtf8Lossy rest
    else (nextChar b rest).1.getD (Char.ofNat 0xFFFD) :: fromUtf8Lossy (nextChar b rest).2
termination_by bs => bs.length
decreasing_by
  · simp
  · have := length_nextChar_le b rest
    simp only [List.length_cons]
    omega

/-- An ASCII character. -/
def AsciiChar (c : Char) : Prop := c.toNat < 0x80

instance (c : Char) : Decidable (AsciiChar c) := inferInstanceAs (Decidable (_ < _))

theorem toNat_charOf {b : UInt8} (h : IsAscii b) : (charOf b).toNat = b.toNat := by
  unfold IsAscii at h
  exact toNat_ofNat_of_valid (by unfold Nat.isValidChar; omega)

/-- The ASCII characters of the decoded text are the ASCII bytes, in order. -/
theorem filter_fromUtf8Lossy (bs : List UInt8) :
    (fromUtf8Lossy bs).filter (fun c => decide (AsciiChar c)) =
      (bs.filter fun b => decide (IsAscii b)).map charOf := by
  fun_induction fromUtf8Lossy bs with
  | case1 => rfl
  | case2 b rest hb ih =>
    have hc : AsciiChar (charOf b) := by unfold AsciiChar; rw [toNat_charOf hb]; exact hb
    simp [hb, hc, ih]
  | case3 b rest hb ih =>
    obtain ⟨⟨k, hk, hskip⟩, hchar⟩ := nextChar_ok b rest
    have hc : ¬ AsciiChar ((nextChar b rest).1.getD (Char.ofNat 0xFFFD)) := by
      unfold AsciiChar
      cases h : (nextChar b rest).1 with
      | none => decide
      | some ch => have := hchar ch h; simp only [Option.getD_some]; omega
    have hrest : (rest.filter fun b => decide (IsAscii b)) =
        ((rest.drop k).filter fun b => decide (IsAscii b)) := by
      conv_lhs => rw [← List.take_append_drop k rest, List.filter_append]
      rw [List.filter_eq_nil_iff.mpr fun c hc => by simpa using hskip c hc, List.nil_append]
    rw [hk] at ih ⊢
    rw [List.filter_cons_of_neg (by simpa using hc), List.filter_cons_of_neg (by simpa using hb),
      hrest, ih]

theorem mem_fromUtf8Lossy {c : Char} (hc : AsciiChar c) (bs : List UInt8) :
    c ∈ fromUtf8Lossy bs ↔ ∃ b ∈ bs, IsAscii b ∧ charOf b = c := by
  have hfilter : c ∈ (fromUtf8Lossy bs).filter (fun c => decide (AsciiChar c)) ↔
      c ∈ fromUtf8Lossy bs := by simp [hc]
  rw [← hfilter, filter_fromUtf8Lossy]
  simp [and_assoc]

/-- Only zero bytes decode to NULs. -/
theorem eq_zero_of_fromUtf8Lossy (bs : List UInt8) (h : ∀ c ∈ fromUtf8Lossy bs, c = '\x00') :
    ∀ b ∈ bs, b = 0 := by
  fun_induction fromUtf8Lossy bs with
  | case1 => simp
  | case2 b rest hb ih =>
    intro d hd
    rcases List.mem_cons.mp hd with rfl | hd
    · have hnul : (charOf d).toNat = 0 := by rw [h (charOf d) (by simp)]; rfl
      rw [toNat_charOf hb] at hnul
      exact UInt8.toNat_inj.mp hnul
    · exact ih (fun c hc => h c (by simp [hc])) d hd
  | case3 b rest hb ih =>
    -- the first character is not ASCII
    have hfirst := h _ (List.mem_cons_self ..)
    obtain ⟨-, hchar⟩ := nextChar_ok b rest
    cases hn : (nextChar b rest).1 with
    | none =>
      rw [hn, Option.getD_none] at hfirst
      exact absurd hfirst (by decide)
    | some ch =>
      have hge := hchar ch hn
      rw [hn, Option.getD_some] at hfirst
      rw [hfirst] at hge
      exact absurd hge (by decide)

theorem fromUtf8Lossy_ascii : ∀ bs : List UInt8, (∀ b ∈ bs, IsAscii b) →
    fromUtf8Lossy bs = bs.map charOf
  | [], _ => by simp [fromUtf8Lossy]
  | b :: rest, h => by
    rw [fromUtf8Lossy, if_pos (h b (by simp)), List.map_cons,
      fromUtf8Lossy_ascii rest fun c hc => h c (by simp [hc])]

/-! ### Trimming -/

/-- `trim_matches('\0')` -/
def trimNul (t : Str) : Str :=
  ((t.dropWhile (· = '\x00')).reverse.dropWhile (· = '\x00')).reverse

theorem mem_of_mem_trimNul {c : Char} {t : Str} (h : c ∈ trimNul t) : c ∈ t := by
  unfold trimNul at h
  rw [List.mem_reverse] at h
  have := (List.dropWhile_suffix _).subset h
  rw [List.mem_reverse] at this
  exact (List.dropWhile_suffix _).subset this

theorem mem_trimNul {c : Char} {t : Str} (h : c ∈ t) (hc : c ≠ '\x00') : c ∈ trimNul t := by
  have hdrop : ∀ l : Str, c ∈ l → c ∈ l.dropWhile (· = '\x00') := by
    intro l
    induction l with
    | nil => exact id
    | cons d l ih =>
      intro hmem
      by_cases hd : d = '\x00'
      · rw [List.dropWhile_cons_of_pos (by simpa using hd)]
        rcases List.mem_cons.mp hmem with rfl | hl
        · exact absurd hd hc
        · exact ih hl
      · rwa [List.dropWhile_cons_of_neg (by simpa using hd)]
  unfold trimNul
  rw [List.mem_reverse]
  exact hdrop _ (List.mem_reverse.mpr (hdrop t h))

theorem trimNul_eq_nil_iff {t : Str} : trimNul t = [] ↔ ∀ c ∈ t, c = '\x00' := by
  constructor
  · intro h c hc
    by_contra hne
    have := mem_trimNul hc hne
    rw [h] at this
    exact absurd this (List.not_mem_nil)
  · intro h
    have hall : t.dropWhile (· = '\x00') = [] :=
      List.dropWhile_eq_nil_iff.mpr fun c hc => by simpa using h c hc
    unfold trimNul
    rw [hall]
    rfl

/-- Text without NULs survives the NULs behind it being trimmed. -/
theorem trimNul_append_replicate (t : Str) (k : ℕ) (h : '\x00' ∉ t) :
    trimNul (t ++ List.replicate k '\x00') = t := by
  unfold trimNul
  cases t with
  | nil => simp
  | cons c t =>
    have hc : c ≠ '\x00' := fun hc => h (by simp [hc])
    rw [List.cons_append, List.dropWhile_cons_of_neg (by simpa using hc), ← List.cons_append,
      List.reverse_append, List.reverse_replicate]
    rw [List.dropWhile_append_of_pos (by simp)]
    have hlast : (c :: t).reverse.dropWhile (· = '\x00') = (c :: t).reverse := by
      apply List.dropWhile_eq_self_iff.mpr
      intro hl
      have hmem : (c :: t).reverse[0] ∈ c :: t := List.mem_reverse.mp (List.getElem_mem hl)
      simp only [decide_eq_true_eq]
      exact fun he => h (he ▸ hmem)
    rw [hlast, List.reverse_reverse]

end Pacsni.Lib.Text
