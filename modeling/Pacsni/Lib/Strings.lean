import Pacsni.Lib.Text

/-! # String functions

The functions of the Go package `strings` that work on prefixes, parts and words, over lists of
characters. -/

namespace Pacsni.Lib.Strings

open Pacsni.Lib.Text

/-- `strings.HasPrefix` -/
def hasPrefix (s p : Str) : Bool := p.isPrefixOf s

/-- `strings.TrimPrefix` -/
def trimPrefix (s p : Str) : Str := if hasPrefix s p then s.drop p.length else s

/-- `strings.Contains` -/
def contains (s sub : Str) : Bool := s.tails.any fun t => hasPrefix t sub

/-- `strings.Split` at one character. -/
def split (s : Str) (sep : Char) : List Str := s.splitOn sep

/-- `unicode.IsSpace` -/
def isSpace (c : Char) : Bool :=
  let n := c.toNat
  (9 ≤ n && n ≤ 13) || n == 0x20 || n == 0x85 || n == 0xA0 || n == 0x1680 ||
    (0x2000 ≤ n && n ≤ 0x200a) || n == 0x2028 || n == 0x2029 || n == 0x202f || n == 0x205f ||
    n == 0x3000

/-- `strings.Fields`: the maximal runs of characters that are no space. -/
def fields (s : Str) : List Str := (s.splitOnP isSpace).filter (· ≠ [])

/-! ### Characters of parts and words -/

variable {s t : Str} {c sep : Char}

theorem hasPrefix_cons_of_ne {d : Char} (h : d ≠ c) : hasPrefix (c :: s) (d :: t) = false := by
  simp [hasPrefix, List.isPrefixOf, h]

theorem mem_of_contains (h : contains s t = true) (hc : c ∈ t) : c ∈ s := by
  unfold contains hasPrefix at h
  rw [List.any_eq_true] at h
  obtain ⟨u, hu, hpre⟩ := h
  have hsub : t <+: u := List.isPrefixOf_iff_prefix.mp hpre
  have hsuf : u <:+ s := (List.mem_tails u s).mp hu
  exact hsuf.subset (hsub.subset hc)

/-- A text with a character that is not there does not occur. -/
theorem contains_eq_false (hc : c ∈ t) (hs : c ∉ s) : contains s t = false := by
  by_contra h
  exact hs (mem_of_contains (by simpa using h) hc)

theorem contains_cons : contains (c :: s) t = (hasPrefix (c :: s) t || contains s t) := by
  simp [contains, List.tails]

theorem contains_singleton : contains s [c] = true ↔ c ∈ s := by
  constructor
  · exact fun h => mem_of_contains h List.mem_cons_self
  · intro h
    induction s with
    | nil => cases h
    | cons d s ih =>
      rw [contains_cons, Bool.or_eq_true]
      rcases List.mem_cons.mp h with rfl | h
      · exact Or.inl (by simp [hasPrefix, List.isPrefixOf])
      · exact Or.inr (ih h)

/-- A text without blanks is one word. -/
theorem fields_eq_singleton (hs : ∀ c ∈ s, isSpace c = false) (hne : s ≠ []) : fields s = [s] := by
  unfold fields
  rw [List.splitOnP_eq_singleton hs]
  simp [hne]

theorem length_split : (split s sep).length = s.count sep + 1 := by
  induction s with
  | nil => rfl
  | cons d s ih =>
    unfold split at ih ⊢
    rw [List.splitOn_cons_eq_if_modifyHead, List.count_cons]
    split_ifs with hd
    · rw [List.length_cons, ih]
    · rw [List.length_modifyHead, ih]

end Pacsni.Lib.Strings
