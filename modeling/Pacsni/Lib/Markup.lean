import Pacsni.Lib.Text

/-! # Text in markup

A text that becomes markup is put together of pieces: some are written by the program, others are
values. `escape` takes their meaning from the three special characters, so a value is shown and never
read as markup. Leaving the values as they are is the same as escaping them if and only if none of
them has a special character (`plain_eq_escaped_iff`). -/

namespace Pacsni.Lib.Markup

open Pacsni.Lib.Text

/-- The characters that mean something in markup. -/
def Special (c : Char) : Prop := c = '<' ∨ c = '>' ∨ c = '&'

instance (c : Char) : Decidable (Special c) := inferInstanceAs (Decidable (_ ∨ _))

/-- The reference that stands for a special character. -/
def escapeChar (c : Char) : Str :=
  if c = '&' then "&amp;".toList
  else if c = '<' then "&lt;".toList
  else if c = '>' then "&gt;".toList
  else [c]

/-- The text with its special characters replaced by references. -/
def escape (t : Str) : Str := t.flatMap escapeChar

/-- A piece of a text, by its origin. -/
inductive Piece
  | own (t : Str)
  | value (t : Str)
deriving DecidableEq

/-- The characters of a piece. -/
def Piece.text : Piece → Str
  | own t => t
  | value t => t

/-- A piece with its value escaped. -/
def Piece.escaped : Piece → Str
  | own t => t
  | value t => escape t

/-- The text as it is. -/
def plain (ps : List Piece) : Str := ps.flatMap Piece.text

/-- The text with every value escaped. -/
def escaped (ps : List Piece) : Str := ps.flatMap Piece.escaped

@[simp] theorem text_own (t : Str) : (Piece.own t).text = t := rfl
@[simp] theorem text_value (t : Str) : (Piece.value t).text = t := rfl
@[simp] theorem plain_nil : plain [] = [] := rfl
@[simp] theorem plain_cons (p : Piece) (ps : List Piece) : plain (p :: ps) = p.text ++ plain ps := rfl
@[simp] theorem plain_append (ps qs : List Piece) : plain (ps ++ qs) = plain ps ++ plain qs := by
  simp [plain]

/-- The text has no special character. -/
def PlainText (t : Str) : Prop := ∀ c ∈ t, ¬ Special c

instance (t : Str) : Decidable (PlainText t) := List.decidableBAll _ t

theorem plainText_append {t u : Str} : PlainText (t ++ u) ↔ PlainText t ∧ PlainText u := by
  simp only [PlainText, List.mem_append]
  constructor
  · exact fun h => ⟨fun c hc => h c (Or.inl hc), fun c hc => h c (Or.inr hc)⟩
  · rintro ⟨h1, h2⟩ c (hc | hc)
    · exact h1 c hc
    · exact h2 c hc

/-- No value among the pieces has a special character. -/
def ValuesPlain (ps : List Piece) : Prop := ∀ t, Piece.value t ∈ ps → PlainText t

@[simp] theorem valuesPlain_nil : ValuesPlain [] := by simp [ValuesPlain]

@[simp] theorem valuesPlain_own {t : Str} {ps : List Piece} :
    ValuesPlain (.own t :: ps) ↔ ValuesPlain ps := by
  simp [ValuesPlain]

@[simp] theorem valuesPlain_value {t : Str} {ps : List Piece} :
    ValuesPlain (.value t :: ps) ↔ PlainText t ∧ ValuesPlain ps := by
  simp [ValuesPlain]

@[simp] theorem valuesPlain_append {ps qs : List Piece} :
    ValuesPlain (ps ++ qs) ↔ ValuesPlain ps ∧ ValuesPlain qs := by
  simp only [ValuesPlain, List.mem_append]
  constructor
  · exact fun h => ⟨fun t ht => h t (Or.inl ht), fun t ht => h t (Or.inr ht)⟩
  · rintro ⟨h1, h2⟩ t (ht | ht)
    · exact h1 t ht
    · exact h2 t ht

theorem ValuesPlain.ite {c : Prop} [Decidable c] {ps qs : List Piece} (hps : ValuesPlain ps)
    (hqs : ValuesPlain qs) : ValuesPlain (if c then ps else qs) := by
  split_ifs
  · exact hps
  · exact hqs

theorem escapeChar_of_not_special {c : Char} (h : ¬ Special c) : escapeChar c = [c] := by
  unfold Special at h
  push Not at h
  simp [escapeChar, h]

theorem one_lt_length_escapeChar {c : Char} (h : Special c) : 1 < (escapeChar c).length := by
  rcases h with rfl | rfl | rfl <;> decide

theorem escape_of_plain : ∀ t : Str, PlainText t → escape t = t
  | [], _ => rfl
  | c :: t, h => by
    have ih := escape_of_plain t fun d hd => h d (by simp [hd])
    unfold escape at ih ⊢
    rw [List.flatMap_cons, ih, escapeChar_of_not_special (h c (by simp))]
    rfl

/-- Escaping makes a text longer, unless there is nothing to escape. -/
theorem length_escape : ∀ t : Str,
    t.length ≤ (escape t).length ∧ ((∃ c ∈ t, Special c) → t.length < (escape t).length)
  | [] => by simp [escape]
  | c :: t => by
    obtain ⟨hle, hlt⟩ := length_escape t
    have hlen : (escape (c :: t)).length = (escapeChar c).length + (escape t).length := by
      simp [escape]
    rw [hlen, List.length_cons]
    by_cases hc : Special c
    · have := one_lt_length_escapeChar hc
      exact ⟨by omega, fun _ => by omega⟩
    · rw [escapeChar_of_not_special hc, List.length_singleton]
      refine ⟨by omega, ?_⟩
      rintro ⟨d, hd, hspecial⟩
      rcases List.mem_cons.mp hd with rfl | hd
      · exact absurd hspecial hc
      · have := hlt ⟨d, hd, hspecial⟩
        omega

theorem length_text_le (p : Piece) : p.text.length ≤ p.escaped.length := by
  cases p with
  | own t => exact le_rfl
  | value t => exact (length_escape t).1

/-- A special character in one of the values makes the escaped text longer. -/
theorem length_plain (ps : List Piece) : (plain ps).length ≤ (escaped ps).length ∧
    (∀ t, Piece.value t ∈ ps → (∃ c ∈ t, Special c) → (plain ps).length < (escaped ps).length) := by
  induction ps with
  | nil => simp [plain, escaped]
  | cons p ps ih =>
    obtain ⟨hle, hlt⟩ := ih
    have hp := length_text_le p
    have hplain : (plain (p :: ps)).length = p.text.length + (plain ps).length := by simp
    have hescaped : (escaped (p :: ps)).length = p.escaped.length + (escaped ps).length := by
      simp [escaped]
    rw [hplain, hescaped]
    refine ⟨by omega, fun t ht hc => ?_⟩
    rcases List.mem_cons.mp ht with rfl | ht
    · have : (Piece.value t).text.length < (Piece.value t).escaped.length := (length_escape t).2 hc
      omega
    · have := hlt t ht hc
      omega

/-- **Escaping changes nothing.** The text is the one with every value escaped if and only if no value
has a special character. -/
theorem plain_eq_escaped_iff (ps : List Piece) : plain ps = escaped ps ↔ ValuesPlain ps := by
  constructor
  · intro heq t ht c hc hspecial
    have hlt := (length_plain ps).2 t ht ⟨c, hc, hspecial⟩
    rw [heq] at hlt
    exact lt_irrefl _ hlt
  · intro h
    unfold plain escaped
    refine List.flatMap_congr fun p hp => ?_
    cases p with
    | own t => rfl
    | value t => exact (escape_of_plain t (h t hp)).symm

end Pacsni.Lib.Markup
