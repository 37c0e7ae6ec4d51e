import Pacsni.Lib.Json

/-! # Decoding UTF-8

The bytes of a text are decoded to this text again, by Rust's lossy decoder and by Go, which differ
only in how they go on behind an ill-formed byte. -/

namespace Pacsni.Lib.Utf8

open Pacsni.Lib.Text Pacsni.Lib.Json

/-- The characters of a byte string in Go: an ill-formed byte stands for U+FFFD, and decoding goes on
with the byte behind it. -/
def runes : List UInt8 → Str
  | [] => []
  | b :: rest =>
    if IsAscii b then charOf b :: runes rest
    else (nextChar b rest).1.getD (Char.ofNat 0xFFFD) ::
      runes (if (nextChar b rest).1.isSome then (nextChar b rest).2 else rest)
termination_by bs => bs.length
decreasing_by
  · simp
  · have hle := length_nextChar_le b rest
    rw [List.length_cons]
    split_ifs <;> omega

variable {c : Char} {rest : List UInt8}

theorem toNat_ofNat {n : ℕ} (hn : n < 256) : (UInt8.ofNat n).toNat = n :=
  UInt8.toNat_ofNat_of_lt' hn

/-- An ASCII character is its byte. -/
theorem utf8EncodeChar_ascii (h : c.toNat < 0x80) :
    String.utf8EncodeChar c = [UInt8.ofNat c.toNat] ∧ charOf (UInt8.ofNat c.toNat) = c := by
  constructor
  · show ite _ _ _ = _
    rw [if_pos (show c.val.toNat ≤ 0x7f from Nat.le_of_lt_succ h)]
    rfl
  · rw [charOf, toNat_ofNat (by omega), Char.ofNat_toNat]

section

variable {b d e f : UInt8}

theorem nextChar_two (hb : b.toNat = c.toNat / 64 + 0xC0) (hd : d.toNat = c.toNat % 64 + 0x80)
    (hlow : 0x80 ≤ c.toNat) (hhigh : c.toNat ≤ 0x7ff) : nextChar b (d :: rest) = (some c, rest) := by
  have hcont : IsCont d := by unfold IsCont; omega
  have hval : (b.toNat - 0xC0) * 64 + low6 d = c.toNat := by unfold low6; omega
  unfold nextChar
  rw [if_pos (by omega)]
  dsimp only
  rw [if_pos hcont, hval, Char.ofNat_toNat]

theorem nextChar_three (hb : b.toNat = c.toNat / 4096 + 0xE0)
    (hd : d.toNat = c.toNat / 64 % 64 + 0x80) (he : e.toNat = c.toNat % 64 + 0x80)
    (hlow : 0x7ff < c.toNat) (hhigh : c.toNat ≤ 0xffff) :
    nextChar b (d :: e :: rest) = (some c, rest) := by
  have hvalid : c.toNat < 0xD800 ∨ 0xDFFF < c.toNat ∧ c.toNat < 0x110000 := c.valid
  have hsecond : Second3 b d := by unfold Second3 IsCont; omega
  have hcont : IsCont e := by unfold IsCont; omega
  have hval : (b.toNat - 0xE0) * 4096 + low6 d * 64 + low6 e = c.toNat := by unfold low6; omega
  unfold nextChar
  rw [if_neg (by omega), if_pos (by omega)]
  dsimp only
  rw [if_pos hsecond, if_pos hcont, hval, Char.ofNat_toNat]

theorem nextChar_four (hb : b.toNat = c.toNat / 262144 + 0xF0)
    (hd : d.toNat = c.toNat / 4096 % 64 + 0x80) (he : e.toNat = c.toNat / 64 % 64 + 0x80)
    (hf : f.toNat = c.toNat % 64 + 0x80) (hlow : 0xffff < c.toNat) :
    nextChar b (d :: e :: f :: rest) = (some c, rest) := by
  have hvalid : c.toNat < 0xD800 ∨ 0xDFFF < c.toNat ∧ c.toNat < 0x110000 := c.valid
  have hsecond : Second4 b d := by unfold Second4 IsCont; omega
  have hcont : IsCont e := by unfold IsCont; omega
  have hcont' : IsCont f := by unfold IsCont; omega
  have hval : (b.toNat - 0xF0) * 262144 + low6 d * 4096 + low6 e * 64 + low6 f = c.toNat := by
    unfold low6; omega
  unfold nextChar
  rw [if_neg (by omega), if_neg (by omega), if_pos (by omega)]
  dsimp only
  rw [if_pos hsecond, if_pos hcont, if_pos hcont', hval, Char.ofNat_toNat]

end

/-- Another character is a first byte that is not ASCII, and continuation bytes from which it is read. -/
theorem nextChar_utf8EncodeChar (h : 0x80 ≤ c.toNat) :
    ∃ b tail, String.utf8EncodeChar c = b :: tail ∧ ¬ IsAscii b ∧
      nextChar b (tail ++ rest) = (some c, rest) := by
  have hlt : c.toNat < 0x110000 := by
    have hvalid : c.toNat < 0xD800 ∨ 0xDFFF < c.toNat ∧ c.toNat < 0x110000 := c.valid
    omega
  have hval : c.val.toNat = c.toNat := rfl
  have hbyte : ∀ {n k : ℕ}, n < 256 → n = k → (UInt8.ofNat n).toNat = k := fun hn hk =>
    (toNat_ofNat hn).trans hk
  have hascii : ∀ {b : UInt8}, 0x80 ≤ b.toNat → ¬ IsAscii b := fun hb hlt => Nat.not_lt.mpr hb hlt
  unfold String.utf8EncodeChar
  rw [hval]
  dsimp only
  rw [if_neg (by omega)]
  split_ifs with h2 h3
  · refine ⟨_, _, rfl, hascii ?_, nextChar_two (hbyte (by omega) (by omega))
      (hbyte (by omega) rfl) h h2⟩
    rw [toNat_ofNat (by omega)]
    omega
  · refine ⟨_, _, rfl, hascii ?_, nextChar_three (hbyte (by omega) (by omega))
      (hbyte (by omega) rfl) (hbyte (by omega) rfl) (by omega) h3⟩
    rw [toNat_ofNat (by omega)]
    omega
  · refine ⟨_, _, rfl, hascii ?_, nextChar_four (hbyte (by omega) (by omega))
      (hbyte (by omega) rfl) (hbyte (by omega) rfl) (hbyte (by omega) rfl) (by omega)⟩
    rw [toNat_ofNat (by omega)]
    omega

/-- **Round trip.** Go reads the text whose bytes these are. -/
theorem runes_utf8 (t : Str) : runes (utf8 t) = t := by
  induction t with
  | nil => rw [utf8, List.flatMap_nil, runes]
  | cons c t ih =>
    have hcons : utf8 (c :: t) = String.utf8EncodeChar c ++ utf8 t := List.flatMap_cons
    rw [hcons]
    rcases Nat.lt_or_ge c.toNat 0x80 with hc | hc
    · obtain ⟨henc, hchar⟩ := utf8EncodeChar_ascii hc
      have hascii : IsAscii (UInt8.ofNat c.toNat) := by
        unfold IsAscii
        rwa [toNat_ofNat (by omega)]
      rw [henc, List.singleton_append, runes, if_pos hascii, hchar, ih]
    · obtain ⟨b, tail, henc, hascii, hnext⟩ := @nextChar_utf8EncodeChar c (utf8 t) hc
      rw [henc, List.cons_append, runes, if_neg hascii, hnext]
      exact congrArg (c :: ·) ih

/-- An ASCII byte in the bytes of a text is one of its characters. -/
theorem mem_of_mem_utf8 {b : UInt8} (hb : IsAscii b) {t : Str} (h : b ∈ utf8 t) :
    ∃ c ∈ t, c.toNat = b.toNat := by
  obtain ⟨c, hc, hmem⟩ := List.mem_flatMap.mp h
  refine ⟨c, hc, ?_⟩
  rcases Nat.lt_or_ge c.toNat 0x80 with hlt | hge
  · rw [(utf8EncodeChar_ascii hlt).1, List.mem_singleton] at hmem
    rw [hmem, toNat_ofNat (by omega)]
  · have hval : c.val.toNat = c.toNat := rfl
    have hbyte : ∀ {n : ℕ}, b = UInt8.ofNat n → n < 256 → b.toNat = n := by
      rintro n rfl hn
      exact toNat_ofNat hn
    have hvalid : c.toNat < 0xD800 ∨ 0xDFFF < c.toNat ∧ c.toNat < 0x110000 := c.valid
    unfold IsAscii at hb
    unfold String.utf8EncodeChar at hmem
    rw [hval] at hmem
    dsimp only at hmem
    rw [if_neg (by omega)] at hmem
    -- every byte of a longer character has its high bit set
    split_ifs at hmem <;> simp only [List.mem_cons, List.not_mem_nil, or_false] at hmem
    · rcases hmem with h | h <;> have := hbyte h (by omega) <;> omega
    · rcases hmem with h | h | h <;> have := hbyte h (by omega) <;> omega
    · rcases hmem with h | h | h | h <;> have := hbyte h (by omega) <;> omega

/-- A start of the bytes of a text that ends with an ASCII byte does not cut a character. -/
theorem prefix_utf8 {b : UInt8} (hb : IsAscii b) {l : List UInt8} (hlast : l.getLast? = some b)
    {t : Str} (h : l <+: utf8 t) : ∃ p, p <+: t ∧ l = utf8 p := by
  induction t generalizing l with
  | nil =>
    obtain rfl : l = [] := List.prefix_nil.mp h
    cases hlast
  | cons c t ih =>
    have hcons : utf8 (c :: t) = utf8 [c] ++ utf8 t := utf8_append [c] t
    rw [hcons] at h
    rcases List.prefix_or_prefix_of_prefix h (List.prefix_append (utf8 [c]) (utf8 t)) with hl | ⟨u, rfl⟩
    · -- the byte at the end is the character, which has no other byte
      obtain ⟨d, hd, hval⟩ := mem_of_mem_utf8 hb (hl.mem (List.mem_of_getLast? hlast))
      obtain rfl := List.mem_singleton.mp hd
      have hone : utf8 [d] = [UInt8.ofNat d.toNat] := by
        rw [utf8, List.flatMap_singleton, (utf8EncodeChar_ascii (by rw [hval]; exact hb)).1]
      refine ⟨[d], ⟨t, rfl⟩, ?_⟩
      rw [hone] at hl ⊢
      rcases List.prefix_cons_iff.mp hl with rfl | ⟨u, rfl, hu⟩
      · cases hlast
      · rw [List.prefix_nil.mp hu]
    · have hu : u <+: utf8 t := (List.prefix_append_right_inj _).mp h
      cases hnil : u.getLast? with
      | none =>
        rw [List.getLast?_eq_none_iff] at hnil
        exact ⟨[c], ⟨t, rfl⟩, by rw [hnil, List.append_nil]⟩
      | some d =>
        rw [List.getLast?_append, hnil, Option.some_or, Option.some.injEq] at hlast
        obtain ⟨p, hp, rfl⟩ := ih (hlast ▸ hnil) hu
        exact ⟨c :: p, List.cons_prefix_cons.mpr ⟨rfl, hp⟩, (utf8_append [c] p).symm⟩

/-- An ASCII character at the end comes from an ASCII byte at the end. -/
theorem getLast?_runes {l : List UInt8} (h : (runes l).getLast? = some c) (hc : AsciiChar c) :
    ∃ b, l.getLast? = some b ∧ IsAscii b := by
  have hend : ∀ {d : UInt8} {m : List UInt8}, (∃ b, m.getLast? = some b ∧ IsAscii b) →
      ∃ b, (d :: m).getLast? = some b ∧ IsAscii b := by
    rintro d m ⟨b, hm, hb⟩
    exact ⟨b, by rw [List.getLast?_cons, hm, Option.getD_some], hb⟩
  fun_induction runes l with
  | case1 => cases h
  | case2 b rest hb ih =>
    rw [List.getLast?_cons] at h
    cases hr : (runes rest).getLast? with
    | none =>
      cases rest with
      | nil => exact ⟨b, rfl, hb⟩
      | cons d rest =>
        rw [List.getLast?_eq_none_iff, runes] at hr
        split_ifs at hr
    | some d =>
      rw [hr, Option.getD_some] at h
      exact hend (ih (hr.trans h))
  | case3 b rest hb ih =>
    obtain ⟨⟨k, hk, -⟩, hchar⟩ := nextChar_ok b rest
    rw [List.getLast?_cons] at h
    set next := if (nextChar b rest).1.isSome then (nextChar b rest).2 else rest
    cases hr : (runes next).getLast? with
    | none =>
      -- a character that is read from a byte above ASCII is not ASCII
      rw [hr, Option.getD_none] at h
      exfalso
      unfold AsciiChar at hc
      cases hn : (nextChar b rest).1 with
      | none =>
        rw [hn] at h
        rw [← Option.some.inj h] at hc
        revert hc
        decide
      | some d =>
        rw [hn] at h
        have hd := hchar d hn
        rw [show d = c from Option.some.inj h] at hd
        omega
    | some d =>
      rw [hr, Option.getD_some] at h
      obtain ⟨e, he, hascii⟩ := ih (hr.trans h)
      refine hend ⟨e, ?_, hascii⟩
      split_ifs at he
      · rw [hk] at he
        have hsuffix := List.drop_suffix k rest
        obtain ⟨u, hu⟩ := hsuffix
        rw [← hu, List.getLast?_append, he, Option.some_or]
      · exact he

end Pacsni.Lib.Utf8
