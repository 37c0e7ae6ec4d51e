import Pacsni.Lib.JsonRead
import Pacsni.Lib.Utf8

/-! # Texts that are cut

The reader does not look behind what it reads: a value that it finds in a text is found in every longer
text (`readValue_append`), and an object ends with its brace. So a text from which it reads an object is
not the start of a longer one (`eq_of_start`), and neither are the bytes of such a text, wherever they
are cut (`eq_of_parse_runes`). -/

namespace Pacsni.Lib.JsonRead

open Pacsni.Lib.Text Pacsni.Lib.Json Pacsni.Lib.Utf8

section

variable {c : Char} {s t u rest : Str} {k n m : ℕ}

/-! ### Characters -/

theorem hex4_append (h : hex4 s = some (k, rest)) :
    rest <:+ s ∧ hex4 (s ++ u) = some (k, rest ++ u) := by
  unfold hex4 at h
  split at h
  · rename_i a b c d r
    simp only [Option.bind_eq_bind, Option.bind_eq_some_iff, Option.some.injEq, Prod.mk.injEq] at h
    obtain ⟨i, hi, j, hj, p, hp, l, hl, hk, rfl⟩ := h
    refine ⟨⟨[a, b, c, d], rfl⟩, ?_⟩
    simp [hex4, hi, hj, hp, hl, hk]
  · cases h

/-- What follows is the end of the string, or another character of it. -/
def Goes (s : Str) : Prop := s.head? = some '"' ∨ (readChar s).isSome

theorem lowSurrogate_append (h : lowSurrogate s = some (k, rest)) :
    rest <:+ s ∧ lowSurrogate (s ++ u) = some (k, rest ++ u) := by
  unfold lowSurrogate at h
  split at h
  · rename_i r
    obtain ⟨hhex, hrange⟩ := Option.filter_eq_some_iff.mp h
    obtain ⟨hsuffix, happend⟩ := @hex4_append r u rest k hhex
    refine ⟨hsuffix.trans ⟨['\\', 'u'], rfl⟩, ?_⟩
    show Option.filter _ (hex4 (r ++ u)) = _
    rw [happend]
    exact Option.filter_eq_some_iff.mpr ⟨rfl, hrange⟩
  · cases h

/-- Half of a pair is not completed by what follows the string. -/
theorem lowSurrogate_append_none (h : lowSurrogate s = none) (hs : Goes s) :
    lowSurrogate (s ++ u) = none := by
  match s, h, hs with
  | [], _, hs => rcases hs with hs | hs <;> simp [readChar] at hs
  | [c], _, hs =>
    have hc : c ≠ '\\' := by
      rintro rfl
      rcases hs with hs | hs <;> simp [readChar, readEscape] at hs
    simp [lowSurrogate, hc]
  | c :: e :: r, h, hs =>
    by_cases hc : c = '\\'
    · subst hc
      by_cases he : e = 'u'
      · subst he
        have hsome : (hex4 r).isSome := by
          rcases hs with hs | hs
          · simp at hs
          · simp only [readChar, readEscape, if_true, unicodeEscape] at hs
            cases hhex : hex4 r with
            | none => simp [hhex] at hs
            | some p => rfl
        obtain ⟨⟨k, q⟩, hhex⟩ := Option.isSome_iff_exists.mp hsome
        have happend := (@hex4_append r u q k hhex).2
        have hnot : (hex4 r).filter (fun r => 0xDC00 ≤ r.1 ∧ r.1 ≤ 0xDFFF) = none := h
        show (hex4 (r ++ u)).filter (fun r => 0xDC00 ≤ r.1 ∧ r.1 ≤ 0xDFFF) = none
        rw [hhex] at hnot
        rw [happend]
        rw [Option.filter_eq_none_iff] at hnot ⊢
        simpa using hnot
      · simp [lowSurrogate, he]
    · simp [lowSurrogate, hc]

theorem unicodeEscape_append (h : unicodeEscape s = some (c, rest)) :
    rest <:+ s ∧ (Goes rest → unicodeEscape (s ++ u) = some (c, rest ++ u)) := by
  simp only [unicodeEscape, Option.bind_eq_bind, Option.bind_eq_some_iff] at h
  obtain ⟨⟨k, r⟩, hhex, h⟩ := h
  obtain ⟨hsuffix, happend⟩ := @hex4_append s u r k hhex
  simp only [unicodeEscape, happend, Option.bind_eq_bind, Option.bind_some]
  dsimp only at h
  split_ifs at h ⊢ with hsur hhigh
  · cases hlow : lowSurrogate r with
    | none =>
      rw [hlow] at h
      obtain ⟨rfl, rfl⟩ := Prod.mk.inj (Option.some.inj h)
      refine ⟨hsuffix, fun hgoes => ?_⟩
      rw [lowSurrogate_append_none hlow hgoes]
    | some p =>
      obtain ⟨l, q⟩ := p
      rw [hlow] at h
      obtain ⟨rfl, rfl⟩ := Prod.mk.inj (Option.some.inj h)
      obtain ⟨hsuffix', happend'⟩ := @lowSurrogate_append r u q l hlow
      refine ⟨hsuffix'.trans hsuffix, fun _ => ?_⟩
      rw [happend']
  · obtain ⟨rfl, rfl⟩ := Prod.mk.inj (Option.some.inj h)
    exact ⟨hsuffix, fun _ => rfl⟩
  · obtain ⟨rfl, rfl⟩ := Prod.mk.inj (Option.some.inj h)
    exact ⟨hsuffix, fun _ => rfl⟩

theorem readChar_append (h : readChar s = some (c, rest)) :
    rest <:+ s ∧ (Goes rest → readChar (s ++ u) = some (c, rest ++ u)) := by
  cases s with
  | nil => cases h
  | cons d r =>
    rw [readChar] at h
    rw [List.cons_append, readChar]
    split_ifs at h ⊢ with hd hlow
    · cases r with
      | nil => cases h
      | cons e r =>
        rw [readEscape] at h
        rw [List.cons_append, readEscape]
        split_ifs at h ⊢ with he
        · obtain ⟨hsuffix, happend⟩ := @unicodeEscape_append c r u rest h
          exact ⟨hsuffix.trans ⟨[d, e], rfl⟩, happend⟩
        · obtain ⟨x, hx, heq⟩ := Option.map_eq_some_iff.mp h
          obtain ⟨rfl, rfl⟩ := Prod.mk.inj heq
          exact ⟨⟨[d, e], rfl⟩, fun _ => by rw [hx]; rfl⟩
    · obtain ⟨rfl, rfl⟩ := Prod.mk.inj (Option.some.inj h)
      exact ⟨⟨[d], rfl⟩, fun _ => rfl⟩

theorem readBody_append (h : readBody n s = some (t, rest)) (hn : n ≤ m) :
    rest <:+ s ∧ readBody m (s ++ u) = some (t, rest ++ u) := by
  induction n generalizing s t m with
  | zero => cases h
  | succ n ih =>
    obtain ⟨m, rfl⟩ := Nat.exists_eq_succ_of_ne_zero (show m ≠ 0 by omega)
    rw [readBody] at h
    rw [readBody]
    split_ifs at h with hquote
    · obtain ⟨rfl, rfl⟩ := Prod.mk.inj (Option.some.inj h)
      cases s with
      | nil => cases hquote
      | cons d s => exact ⟨⟨[d], rfl⟩, by rw [List.cons_append, if_pos (by simpa using hquote)]; rfl⟩
    · simp only [Option.bind_eq_bind, Option.bind_eq_some_iff] at h
      obtain ⟨⟨c, r⟩, hchar, ⟨cs, q⟩, hbody, heq⟩ := h
      obtain ⟨rfl, rfl⟩ := Prod.mk.inj (Option.some.inj heq)
      dsimp only at hbody
      have hgoes : Goes r := by
        cases n with
        | zero => cases hbody
        | succ n =>
          rw [readBody] at hbody
          split_ifs at hbody with hq
          · exact Or.inl hq
          · cases hr : readChar r with
            | none => simp [hr] at hbody
            | some p => exact Or.inr (by rw [hr]; rfl)
      obtain ⟨hsuffix, happend⟩ := @readChar_append c s u r hchar
      obtain ⟨hsuffix', happend'⟩ := ih hbody (show n ≤ m by omega)
      have hfirst : (s ++ u).head? ≠ some '"' := by
        cases s with
        | nil => cases hchar
        | cons d s => simpa using hquote
      refine ⟨hsuffix'.trans hsuffix, ?_⟩
      rw [if_neg hfirst, happend hgoes]
      simp [happend']

/-! ### Values -/

theorem skip_suffix : skip s <:+ s := List.dropWhile_suffix _

theorem skip_append (h : skip s = c :: t) : skip (s ++ u) = c :: (t ++ u) := by
  unfold skip at h ⊢
  rw [List.dropWhile_append, h]
  rfl

theorem readNumber_append (h : readNumber s = some (k, rest)) (hrest : rest ≠ []) :
    readNumber (s ++ u) = some (k, rest ++ u) := by
  have hsplit := List.takeWhile_append_dropWhile (p := Char.isDigit) (l := s)
  unfold readNumber at h
  dsimp only at h
  split_ifs at h with hbad
  obtain ⟨rfl, rfl⟩ := Prod.mk.inj (Option.some.inj h)
  have hdrop : (s ++ u).dropWhile Char.isDigit = s.dropWhile Char.isDigit ++ u := by
    rw [List.dropWhile_append]
    exact if_neg (by simpa using hrest)
  have htake : (s ++ u).takeWhile Char.isDigit = s.takeWhile Char.isDigit := by
    have hall := List.takeWhile_append_dropWhile (p := Char.isDigit) (l := s ++ u)
    rw [hdrop, ← List.append_assoc] at hall
    exact List.append_cancel_right (List.append_cancel_right (hall.trans (by rw [← hsplit]; simp)))
  simp only [readNumber, htake, hdrop, if_neg hbad]

theorem readNumber_suffix (h : readNumber s = some (k, rest)) : rest <:+ s := by
  unfold readNumber at h
  dsimp only at h
  split_ifs at h
  obtain ⟨-, rfl⟩ := Prod.mk.inj (Option.some.inj h)
  exact List.dropWhile_suffix _

/-- A value that is not a number at the end of the text. -/
def Closed (v : Node) (rest : Str) : Prop := (∀ k, v ≠ .num k) ∨ rest ≠ []

/-- What a reader leaves of a text is an end of it, and a longer text with more fuel is read in the same
way. -/
def ValueAppend (n : ℕ) : Prop := ∀ {s v rest}, readValue n s = some (v, rest) →
  rest <:+ s ∧ ((∀ ms, v = .obj ms → ('\x7d' :: rest) <:+ s) ∧
    (Closed v rest → ∀ {m} u, n ≤ m → readValue m (s ++ u) = some (v, rest ++ u)))

def ElementsAppend (n : ℕ) : Prop := ∀ {s vs rest}, readElements n s = some (vs, rest) →
  rest <:+ s ∧ ∀ {m} u, n ≤ m → readElements m (s ++ u) = some (vs, rest ++ u)

def MembersAppend (n : ℕ) : Prop := ∀ {s ms rest}, readMembers n s = some (ms, rest) →
  ('\x7d' :: rest) <:+ s ∧ ∀ {m} u, n ≤ m → readMembers m (s ++ u) = some (ms, rest ++ u)

theorem closed_of_skip {v : Node} (h : skip rest = c :: t) : Closed v rest := by
  refine Or.inr ?_
  rintro rfl
  cases h

theorem skip_of_head? (h : (skip s).head? = some c) : ∃ t, skip s = c :: t := by
  cases hs : skip s with
  | nil => simp [hs] at h
  | cons d t => exact ⟨t, by simpa [hs] using h⟩

theorem skip_of_readElements {vs : List Node} (h : readElements n s = some (vs, rest)) :
    ∃ c t, skip s = c :: t := by
  cases n with
  | zero => cases h
  | succ n =>
    cases n with
    | zero => simp [readElements, readValue] at h
    | succ n =>
      cases hs : skip s with
      | nil => simp [readElements, readValue, hs] at h
      | cons c t => exact ⟨c, t, rfl⟩

theorem skip_of_readMembers {ms : List (Str × Node)} (h : readMembers n s = some (ms, rest)) :
    ∃ c t, skip s = c :: t := by
  cases n with
  | zero => cases h
  | succ n =>
    rw [readMembers] at h
    split_ifs at h with hquote
    obtain ⟨t, ht⟩ := skip_of_head? hquote
    exact ⟨_, t, ht⟩

/-- The first character behind the blanks is the same in a longer text. -/
theorem head?_skip_append (h : skip s = c :: t) : (skip (s ++ u)).head? = (skip s).head? := by
  rw [h, skip_append h]
  rfl

theorem valueAppend_succ (he : ElementsAppend n) (hm : MembersAppend n) : ValueAppend (n + 1) := by
  intro s v rest h
  rw [readValue] at h
  cases hs : skip s with
  | nil => simp [hs] at h
  | cons c r =>
    have hr : r <:+ s := (List.suffix_cons c r).trans (hs ▸ skip_suffix)
    rw [hs] at h
    dsimp only at h
    -- the same branch is taken in the longer text, as it goes on with the same character
    have hstep : ∀ {m} u, n + 1 ≤ m → ∃ m', m = m' + 1 ∧ n ≤ m' ∧ skip (s ++ u) = c :: (r ++ u) := by
      intro m u hle
      obtain ⟨m, rfl⟩ := Nat.exists_eq_succ_of_ne_zero (show m ≠ 0 by omega)
      exact ⟨m, rfl, by omega, skip_append hs⟩
    split_ifs at h with hquote hopen hend hbrace hend ht hword hf hword
    · obtain ⟨⟨t, q⟩, hbody, heq⟩ := Option.map_eq_some_iff.mp h
      obtain ⟨rfl, rfl⟩ := Prod.mk.inj heq
      refine ⟨(@readBody_append r t [] q n n hbody (Nat.le_refl n)).1.trans hr, by simp, ?_⟩
      intro _ m u hle
      obtain ⟨m, rfl, hle, hskip⟩ := hstep u hle
      rw [readValue, hskip]
      dsimp only
      rw [if_pos hquote, (readBody_append hbody hle).2]
      rfl
    · obtain ⟨rfl, rfl⟩ := Prod.mk.inj (Option.some.inj h)
      obtain ⟨q, hq⟩ := skip_of_head? hend
      rw [hq, List.tail_cons]
      refine ⟨((List.suffix_cons ']' q).trans (hq ▸ skip_suffix)).trans hr, by simp, ?_⟩
      intro _ m u hle
      obtain ⟨m, rfl, hle, hskip⟩ := hstep u hle
      rw [readValue, hskip]
      dsimp only
      rw [if_neg hquote, if_pos hopen, skip_append hq, if_pos (List.head?_cons ..), List.tail_cons]
    · obtain ⟨⟨vs, q⟩, hel, heq⟩ := Option.map_eq_some_iff.mp h
      obtain ⟨rfl, rfl⟩ := Prod.mk.inj heq
      obtain ⟨hsuffix, happend⟩ := he hel
      obtain ⟨d, t, hd⟩ := skip_of_readElements hel
      refine ⟨hsuffix.trans hr, by simp, fun _ m u hle => ?_⟩
      obtain ⟨m, rfl, hle, hskip⟩ := hstep u hle
      rw [readValue, hskip]
      dsimp only
      rw [if_neg hquote, if_pos hopen, if_neg (by rwa [head?_skip_append hd]), happend u hle]
      rfl
    · obtain ⟨rfl, rfl⟩ := Prod.mk.inj (Option.some.inj h)
      obtain ⟨q, hq⟩ := skip_of_head? hend
      rw [hq, List.tail_cons]
      have hsuffix : ('\x7d' :: q) <:+ s := (hq ▸ skip_suffix).trans hr
      refine ⟨(List.suffix_cons '\x7d' q).trans hsuffix, fun _ _ => hsuffix, ?_⟩
      intro _ m u hle
      obtain ⟨m, rfl, hle, hskip⟩ := hstep u hle
      rw [readValue, hskip]
      dsimp only
      rw [if_neg hquote, if_neg hopen, if_pos hbrace, skip_append hq, if_pos (List.head?_cons ..),
        List.tail_cons]
    · obtain ⟨⟨ms, q⟩, hmem, heq⟩ := Option.map_eq_some_iff.mp h
      obtain ⟨rfl, rfl⟩ := Prod.mk.inj heq
      obtain ⟨hsuffix, happend⟩ := hm hmem
      obtain ⟨d, t, hd⟩ := skip_of_readMembers hmem
      have hsuffix := hsuffix.trans hr
      refine ⟨(List.suffix_cons '\x7d' q).trans hsuffix, fun _ _ => hsuffix, fun _ m u hle => ?_⟩
      obtain ⟨m, rfl, hle, hskip⟩ := hstep u hle
      rw [readValue, hskip]
      dsimp only
      rw [if_neg hquote, if_neg hopen, if_pos hbrace, if_neg (by rwa [head?_skip_append hd]),
        happend u hle]
      rfl
    · obtain ⟨rfl, rfl⟩ := Prod.mk.inj (Option.some.inj h)
      refine ⟨(List.drop_suffix 3 r).trans hr, by simp, fun _ m u hle => ?_⟩
      obtain ⟨m, rfl, -, hskip⟩ := hstep u hle
      have hlen : 3 ≤ r.length := by simpa using congrArg List.length hword
      rw [readValue, hskip]
      dsimp only
      rw [if_neg hquote, if_neg hopen, if_neg hbrace, if_pos ht,
        if_pos (by rwa [List.take_append_of_le_length hlen]), List.drop_append_of_le_length hlen]
    · obtain ⟨rfl, rfl⟩ := Prod.mk.inj (Option.some.inj h)
      refine ⟨(List.drop_suffix 4 r).trans hr, by simp, fun _ m u hle => ?_⟩
      obtain ⟨m, rfl, -, hskip⟩ := hstep u hle
      have hlen : 4 ≤ r.length := by simpa using congrArg List.length hword
      rw [readValue, hskip]
      dsimp only
      rw [if_neg hquote, if_neg hopen, if_neg hbrace, if_neg ht, if_pos hf,
        if_pos (by rwa [List.take_append_of_le_length hlen]), List.drop_append_of_le_length hlen]
    · obtain ⟨⟨k, q⟩, hnum, heq⟩ := Option.map_eq_some_iff.mp h
      obtain ⟨rfl, rfl⟩ := Prod.mk.inj heq
      refine ⟨(readNumber_suffix hnum).trans (hs ▸ skip_suffix), by simp, fun hclosed m u hle => ?_⟩
      obtain ⟨m, rfl, -, hskip⟩ := hstep u hle
      have hrest : q ≠ [] := hclosed.resolve_left fun hall => hall k rfl
      rw [readValue, hskip]
      dsimp only
      rw [if_neg hquote, if_neg hopen, if_neg hbrace, if_neg ht, if_neg hf, ← List.cons_append,
        readNumber_append hnum hrest]
      rfl

theorem elementsAppend_succ (hv : ValueAppend n) (he : ElementsAppend n) : ElementsAppend (n + 1) := by
  intro s vs rest h
  simp only [readElements, Option.bind_eq_bind, Option.bind_eq_some_iff] at h
  obtain ⟨⟨v, r⟩, hval, h⟩ := h
  dsimp only at h
  obtain ⟨hr, -, hread⟩ := hv hval
  cases hs : skip r with
  | nil => simp [hs] at h
  | cons c q =>
    have hq : q <:+ s := ((List.suffix_cons c q).trans (hs ▸ skip_suffix)).trans hr
    have hstep : ∀ {m} u, n ≤ m → readValue m (s ++ u) = some (v, r ++ u) := fun u hle =>
      hread (closed_of_skip hs) u hle
    rw [hs] at h
    dsimp only at h
    split_ifs at h with hcomma hend
    · obtain ⟨⟨ws, p⟩, hel, heq⟩ := Option.map_eq_some_iff.mp h
      obtain ⟨rfl, rfl⟩ := Prod.mk.inj heq
      obtain ⟨hsuffix, happend⟩ := he hel
      refine ⟨hsuffix.trans hq, fun {m} u hle => ?_⟩
      obtain ⟨m, rfl⟩ := Nat.exists_eq_succ_of_ne_zero (show m ≠ 0 by omega)
      simp [readElements, hstep u (Nat.le_of_succ_le_succ hle), skip_append hs, hcomma,
        happend u (Nat.le_of_succ_le_succ hle)]
    · obtain ⟨rfl, rfl⟩ := Prod.mk.inj (Option.some.inj h)
      refine ⟨hq, fun {m} u hle => ?_⟩
      obtain ⟨m, rfl⟩ := Nat.exists_eq_succ_of_ne_zero (show m ≠ 0 by omega)
      simp [readElements, hstep u (Nat.le_of_succ_le_succ hle), skip_append hs, hend]

theorem membersAppend_succ (hv : ValueAppend n) (hm : MembersAppend n) : MembersAppend (n + 1) := by
  intro s ms rest h
  rw [readMembers] at h
  split_ifs at h with hquote
  simp only [Option.bind_eq_bind, Option.bind_eq_some_iff] at h
  obtain ⟨⟨k, p⟩, hkey, h⟩ := h
  dsimp only at h
  split_ifs at h with hcolon
  simp only [Option.bind_eq_some_iff] at h
  obtain ⟨⟨v, r⟩, hval, h⟩ := h
  dsimp only at h
  obtain ⟨t, ht⟩ := skip_of_head? hquote
  obtain ⟨w, hw⟩ := skip_of_head? hcolon
  rw [ht, List.tail_cons] at hkey
  rw [hw, List.tail_cons] at hval
  obtain ⟨hr, -, hread⟩ := hv hval
  cases hs : skip r with
  | nil => simp [hs] at h
  | cons c q =>
    have hts : t <:+ s := (List.suffix_cons _ t).trans (ht ▸ skip_suffix)
    have hws : w <:+ s := ((List.suffix_cons _ w).trans (hw ▸ skip_suffix)).trans
      ((@readBody_append t k [] p n n hkey (Nat.le_refl n)).1.trans hts)
    have hq : (c :: q) <:+ s := ((hs ▸ skip_suffix).trans hr).trans hws
    have hstep : ∀ {m} u, n ≤ m → readMembers (m + 1) (s ++ u) =
        if c = ',' then (readMembers m (q ++ u)).map fun r => ((k, v) :: r.1, r.2)
        else if c = '\x7d' then some ([(k, v)], q ++ u)
        else none := by
      intro m u hle
      have hbody := (@readBody_append t k u p n m hkey hle).2
      have hvalue := hread (closed_of_skip hs) u hle
      simp [readMembers, skip_append ht, skip_append hw, skip_append hs, hbody, hvalue]
    rw [hs] at h
    dsimp only at h
    split_ifs at h with hcomma hend
    · obtain ⟨⟨ws, o⟩, hmem, heq⟩ := Option.map_eq_some_iff.mp h
      obtain ⟨rfl, rfl⟩ := Prod.mk.inj heq
      obtain ⟨hsuffix, happend⟩ := hm hmem
      refine ⟨hsuffix.trans ((List.suffix_cons c q).trans hq), fun {m} u hle => ?_⟩
      obtain ⟨m, rfl⟩ := Nat.exists_eq_succ_of_ne_zero (show m ≠ 0 by omega)
      rw [hstep u (Nat.le_of_succ_le_succ hle), if_pos hcomma,
        happend u (Nat.le_of_succ_le_succ hle)]
      rfl
    · obtain ⟨rfl, rfl⟩ := Prod.mk.inj (Option.some.inj h)
      refine ⟨hend ▸ hq, fun {m} u hle => ?_⟩
      obtain ⟨m, rfl⟩ := Nat.exists_eq_succ_of_ne_zero (show m ≠ 0 by omega)
      rw [hstep u (Nat.le_of_succ_le_succ hle), if_neg hcomma, if_pos hend]

theorem read_append (n : ℕ) : ValueAppend n ∧ ElementsAppend n ∧ MembersAppend n := by
  induction n with
  | zero =>
    refine ⟨?_, ?_, ?_⟩
    all_goals
      intro s a rest h
      cases h
  | succ n ih =>
    obtain ⟨hv, he, hm⟩ := ih
    exact ⟨valueAppend_succ he hm, elementsAppend_succ hv he, membersAppend_succ hv hm⟩

/-! ### Objects -/

/-- The text of an object is its start, a brace and blanks. -/
theorem parse_obj {ms : List (Str × Node)} (h : parse s = some (.obj ms)) :
    ∃ rest, ('\x7d' :: rest) <:+ s ∧ skip rest = [] ∧
      ∀ u, readValue (s ++ u).length (s ++ u) = some (.obj ms, rest ++ u) := by
  simp only [parse, Option.bind_eq_bind, Option.bind_eq_some_iff] at h
  obtain ⟨⟨v, rest⟩, hread, h⟩ := h
  dsimp only at h
  split_ifs at h with hskip
  obtain rfl := Option.some.inj h
  obtain ⟨-, hbrace, happend⟩ := (read_append s.length).1 hread
  exact ⟨rest, hbrace ms rfl, hskip, fun u => happend (Or.inl (by simp)) u (by simp)⟩

/-- **Starts of objects.** A text from which an object is read is not the start of a longer text of the
grammar. -/
theorem eq_of_start {v : Node} {ms : List (Str × Node)} (h : parse s = some (.obj ms)) (hst : s <+: t)
    (hv : Value v t) : s = t := by
  obtain ⟨u, rfl⟩ := hst
  obtain ⟨rest, -, -, hread⟩ := parse_obj h
  obtain ⟨c, w, hcw, -, -⟩ := Value.head hv
  have hlen : (s ++ u).length = (s ++ u).length - 1 + 1 := by rw [hcw]; rfl
  have hwhole := @readValue_of_value v (s ++ u) [] ((s ++ u).length - 1) hv (fun _ h => by cases h)
    (by omega)
  rw [List.append_nil, ← hlen, hread u, Option.some.injEq, Prod.mk.injEq] at hwhole
  rw [List.append_eq_nil_iff.mp hwhole.2 |>.2, List.append_nil]

/-- **Cut bytes.** The cut may be inside a character. -/
theorem eq_of_parse_runes {v : Node} {ms : List (Str × Node)} {l : List UInt8}
    (h : parse (runes l) = some (.obj ms)) (hl : l <+: utf8 t) (hv : Value v t) : l = utf8 t := by
  obtain ⟨rest, ⟨w, hw⟩, hblank, -⟩ := parse_obj h
  -- the text ends with its brace or with a blank
  obtain ⟨c, hlast, hascii⟩ : ∃ c, (runes l).getLast? = some c ∧ AsciiChar c := by
    have hend : ∀ {c}, ('\x7d' :: rest).getLast? = some c → (runes l).getLast? = some c := by
      intro c hc
      rw [← hw, List.getLast?_append, hc, Option.some_or]
    cases hr : rest.getLast? with
    | none =>
      refine ⟨'\x7d', hend ?_, by decide⟩
      rw [List.getLast?_eq_none_iff.mp hr]
      rfl
    | some c =>
      have hc := List.dropWhile_eq_nil_iff.mp hblank c (List.mem_of_getLast? hr)
      refine ⟨c, hend (by rw [List.getLast?_cons, hr, Option.getD_some]), ?_⟩
      simp only [isBlank, decide_eq_true_eq] at hc
      rcases hc with rfl | rfl | rfl | rfl <;> decide
  obtain ⟨b, hbyte, hb⟩ := getLast?_runes hlast hascii
  obtain ⟨q, hq, rfl⟩ := prefix_utf8 hb hbyte hl
  rw [runes_utf8] at h
  rw [eq_of_start h hq hv]

end

end Pacsni.Lib.JsonRead
