import Pacsni.Lib.Json

/-! # Reading JSON

A reader of JSON texts by recursive descent. It skips blanks between the tokens and takes every escape of
the grammar, surrogate pairs included; numbers other than natural ones, and `null`, are refused, so that it
serves for texts that have none. The first argument of the recursive functions is fuel, and the length of
the text is enough of it: the reader returns the value of every text of the grammar (`parse_of_value`). -/

namespace Pacsni.Lib.JsonRead

open Pacsni.Lib.Text Pacsni.Lib.Json

/-! ### Strings -/

/-- The letter behind a backslash, `u` excepted. -/
def shortValue (e : Char) : Option Char := (shortEscapes.find? fun p => p.2 = e).map Prod.fst

/-- Four hexadecimal digits. -/
def hex4 : Str → Option (ℕ × Str)
  | a :: b :: c :: d :: rest => do
    let i ← hexValue a
    let j ← hexValue b
    let k ← hexValue c
    let l ← hexValue d
    some (((i * 16 + j) * 16 + k) * 16 + l, rest)
  | _ => none

/-- The second half of a surrogate pair. -/
def lowSurrogate : Str → Option (ℕ × Str)
  | '\\' :: 'u' :: s => (hex4 s).filter fun r => 0xDC00 ≤ r.1 ∧ r.1 ≤ 0xDFFF
  | _ => none

/-- What stands behind `\u`. A surrogate without its other half is read as U+FFFD. -/
def unicodeEscape (s : Str) : Option (Char × Str) := do
  let (n, rest) ← hex4 s
  if 0xD800 ≤ n ∧ n ≤ 0xDFFF then
    match if n ≤ 0xDBFF then lowSurrogate rest else none with
    | some (m, rest) => some (Char.ofNat (0x10000 + (n - 0xD800) * 0x400 + (m - 0xDC00)), rest)
    | none => some (Char.ofNat 0xFFFD, rest)
  else some (Char.ofNat n, rest)

/-- What stands behind a backslash. -/
def readEscape : Str → Option (Char × Str)
  | [] => none
  | e :: rest => if e = 'u' then unicodeEscape rest else (shortValue e).map (·, rest)

/-- A character of a string, escaped or not. -/
def readChar : Str → Option (Char × Str)
  | [] => none
  | c :: rest =>
    if c = '\\' then readEscape rest
    else if c.toNat < 0x20 then none
    else some (c, rest)

/-- The rest of a string whose opening quote has been read. -/
def readBody : ℕ → Str → Option (Str × Str)
  | 0, _ => none
  | n + 1, s =>
    if s.head? = some '"' then some ([], s.tail)
    else do
      let (c, rest) ← readChar s
      let (cs, rest) ← readBody n rest
      some (c :: cs, rest)

/-! ### Values -/

/-- A blank. -/
def isBlank (c : Char) : Bool := c = ' ' ∨ c = '\t' ∨ c = '\n' ∨ c = '\r'

/-- The text behind the blanks in front. -/
def skip (s : Str) : Str := s.dropWhile isBlank

/-- A natural number. -/
def readNumber (s : Str) : Option (ℕ × Str) :=
  let ds := s.takeWhile Char.isDigit
  if ds = [] ∨ ds.head? = some '0' ∧ ds ≠ ['0'] then none
  else some (Nat.ofDigitChars 10 ds 0, s.dropWhile Char.isDigit)

mutual

/-- A value. -/
def readValue : ℕ → Str → Option (Node × Str)
  | 0, _ => none
  | n + 1, s =>
    match skip s with
    | [] => none
    | c :: rest =>
      if c = '"' then (readBody n rest).map fun r => (.str r.1, r.2)
      else if c = '[' then
        if (skip rest).head? = some ']' then some (.arr [], (skip rest).tail)
        else (readElements n rest).map fun r => (.arr r.1, r.2)
      else if c = '\x7b' then
        if (skip rest).head? = some '\x7d' then some (.obj [], (skip rest).tail)
        else (readMembers n rest).map fun r => (.obj r.1, r.2)
      else if c = 't' then if rest.take 3 = ['r', 'u', 'e'] then some (.bool true, rest.drop 3) else none
      else if c = 'f' then
        if rest.take 4 = ['a', 'l', 's', 'e'] then some (.bool false, rest.drop 4) else none
      else (readNumber (c :: rest)).map fun r => (.num r.1, r.2)

/-- The elements of an array, to its end. -/
def readElements : ℕ → Str → Option (List Node × Str)
  | 0, _ => none
  | n + 1, s => do
    let (v, rest) ← readValue n s
    match skip rest with
    | [] => none
    | c :: rest =>
      if c = ',' then (readElements n rest).map fun r => (v :: r.1, r.2)
      else if c = ']' then some ([v], rest)
      else none

/-- The members of an object, to its end. -/
def readMembers : ℕ → Str → Option (List (Str × Node) × Str)
  | 0, _ => none
  | n + 1, s =>
    if (skip s).head? = some '"' then do
      let (k, rest) ← readBody n (skip s).tail
      if (skip rest).head? = some ':' then do
        let (v, rest) ← readValue n (skip rest).tail
        match skip rest with
        | [] => none
        | c :: rest =>
          if c = ',' then (readMembers n rest).map fun r => ((k, v) :: r.1, r.2)
          else if c = '\x7d' then some ([(k, v)], rest)
          else none
      else none
    else none

end

/-- The value of a whole text. -/
def parse (s : Str) : Option Node := do
  let (v, rest) ← readValue s.length s
  if skip rest = [] then some v else none

/-! ### Texts of the grammar are read -/

section

variable {c : Char} {s t rest : Str} {n : ℕ}

theorem shortValue_of_mem {e : Char} (h : (c, e) ∈ shortEscapes) : shortValue e = some c := by
  have hall : ∀ p ∈ shortEscapes, shortValue p.2 = some p.1 := by decide
  exact hall (c, e) h

theorem unicodeEscape_of_digits {d₁ d₂ d₃ d₄ : Char} {i j k l : ℕ} (h₁ : hexValue d₁ = some i)
    (h₂ : hexValue d₂ = some j) (h₃ : hexValue d₃ = some k) (h₄ : hexValue d₄ = some l)
    (hc : c.toNat = ((i * 16 + j) * 16 + k) * 16 + l) :
    unicodeEscape (d₁ :: d₂ :: d₃ :: d₄ :: rest) = some (c, rest) := by
  have hvalid : c.toNat < 0xD800 ∨ 0xDFFF < c.toNat ∧ c.toNat < 0x110000 := c.valid
  have hnot : ¬ (0xD800 ≤ c.toNat ∧ c.toNat ≤ 0xDFFF) := by omega
  have hdigits : hex4 (d₁ :: d₂ :: d₃ :: d₄ :: rest) = some (c.toNat, rest) := by
    simp [hex4, h₁, h₂, h₃, h₄, hc]
  simp only [unicodeEscape, hdigits, Option.bind_eq_bind, Option.bind_some, if_neg hnot,
    Char.ofNat_toNat]

/-- The text of a character does not start with a quote, and it is read as the character. -/
theorem readChar_of_encodes (h : Encodes c t) :
    (t ++ rest).head? ≠ some '"' ∧ readChar (t ++ rest) = some (c, rest) := by
  cases h with
  | plain hc hq hb =>
    refine ⟨by simpa using hq, ?_⟩
    show readChar (c :: rest) = _
    rw [readChar, if_neg hb, if_neg (by omega)]
  | @short e he =>
    have hu : ∀ p ∈ shortEscapes, p.2 ≠ 'u' := by decide
    refine ⟨by simp, ?_⟩
    show readChar ('\\' :: e :: rest) = _
    rw [readChar, if_pos rfl, readEscape, if_neg (hu (c, e) he), shortValue_of_mem he]
    rfl
  | @unicode d₁ d₂ d₃ d₄ i j k l h₁ h₂ h₃ h₄ hc =>
    refine ⟨by simp, ?_⟩
    show readChar ('\\' :: 'u' :: d₁ :: d₂ :: d₃ :: d₄ :: rest) = _
    rw [readChar, if_pos rfl, readEscape, if_pos rfl]
    exact unicodeEscape_of_digits h₁ h₂ h₃ h₄ hc

theorem Encodes.length_pos (h : Encodes c t) : 0 < t.length := by
  cases h <;> simp

theorem readBody_of_body (h : StringBody s t) (hn : t.length < n) :
    readBody n (t ++ '"' :: rest) = some (s, rest) := by
  induction h generalizing n with
  | nil =>
    obtain ⟨n, rfl⟩ := Nat.exists_eq_succ_of_ne_zero (show n ≠ 0 by omega)
    rfl
  | @cons c s t u hc _ ih =>
    obtain ⟨n, rfl⟩ := Nat.exists_eq_succ_of_ne_zero (show n ≠ 0 by omega)
    obtain ⟨hhead, hread⟩ := @readChar_of_encodes c t (u ++ '"' :: rest) hc
    have hpos := Encodes.length_pos hc
    rw [List.length_append] at hn
    rw [List.append_assoc, readBody, if_neg hhead, hread]
    simp only [Option.bind_eq_bind, Option.bind_some, ih (show u.length < n by omega)]

/-- The text does not go on with a digit. -/
def Follows (rest : Str) : Prop := ∀ c ∈ rest.head?, c.isDigit = false

theorem readNumber_of_number {k : ℕ} (h : Number k t) (hrest : Follows rest) :
    readNumber (t ++ rest) = some (k, rest) := by
  have hstop : rest.takeWhile Char.isDigit = [] ∧ rest.dropWhile Char.isDigit = rest := by
    cases rest with
    | nil => exact ⟨rfl, rfl⟩
    | cons c rest =>
      have hc : c.isDigit = false := hrest c rfl
      exact ⟨List.takeWhile_cons_of_neg (by simp [hc]), List.dropWhile_cons_of_neg (by simp [hc])⟩
  have htake : (t ++ rest).takeWhile Char.isDigit = t := by
    rw [List.takeWhile_append_of_pos h.digits, hstop.1, List.append_nil]
  have hdrop : (t ++ rest).dropWhile Char.isDigit = rest := by
    rw [List.dropWhile_append_of_pos h.digits, hstop.2]
  have hlead : ¬ (t = [] ∨ t.head? = some '0' ∧ t ≠ ['0']) := by
    rintro (hnil | ⟨hzero, hne⟩)
    · exact h.nonempty hnil
    · exact hne (h.lead hzero)
  simp only [readNumber, htake, hdrop, if_neg hlead, h.value]

theorem skip_of_not_blank (h : isBlank c = false) : skip (c :: s) = c :: s :=
  List.dropWhile_cons_of_neg (by simp [h])

theorem isBlank_of_isDigit (h : c.isDigit = true) : isBlank c = false := by
  have hd := toNat_of_isDigit h
  have hne : ∀ b : Char, b.toNat < 0x30 → c ≠ b := by
    rintro b hb rfl
    omega
  simp [isBlank, hne ' ' (by decide), hne '\t' (by decide), hne '\n' (by decide), hne '\r' (by decide)]

/-- A digit starts a number. -/
theorem readValue_of_number {k : ℕ} (h : Number k t) (hrest : Follows rest) :
    readValue (n + 1) (t ++ rest) = some (.num k, rest) := by
  have hnum := readNumber_of_number h hrest
  cases t with
  | nil => exact absurd rfl h.nonempty
  | cons c t =>
    have hc := h.digits c List.mem_cons_self
    have hd := toNat_of_isDigit hc
    have hne : ∀ b : Char, b.toNat < 0x30 ∨ 0x39 < b.toNat → c ≠ b := by
      rintro b hb rfl
      omega
    rw [List.cons_append] at hnum ⊢
    rw [readValue, skip_of_not_blank (isBlank_of_isDigit hc)]
    dsimp only
    rw [if_neg (hne _ (by decide)), if_neg (hne _ (by decide)), if_neg (hne _ (by decide)),
      if_neg (hne _ (by decide)), if_neg (hne _ (by decide)), hnum]
    rfl

theorem readValue_of_string (h : StringText s t) (hn : t.length ≤ n + 1) :
    readValue (n + 1) (t ++ rest) = some (.str s, rest) := by
  obtain ⟨h⟩ := h
  rename_i t
  have hlen : t.length < n := by simp at hn; omega
  have hshape : ('"' :: t ++ ['"']) ++ rest = '"' :: (t ++ '"' :: rest) := by simp
  rw [hshape, readValue, skip_of_not_blank (by decide)]
  dsimp only
  rw [if_pos rfl, readBody_of_body h hlen]
  rfl

/-- A value starts with a character that is neither a blank nor the end of a list. -/
theorem Value.head {v : Node} (h : Value v t) :
    ∃ c u, t = c :: u ∧ isBlank c = false ∧ c ≠ ']' := by
  cases h with
  | num h =>
    cases t with
    | nil => exact absurd rfl h.nonempty
    | cons c t =>
      have hc := h.digits c List.mem_cons_self
      refine ⟨c, t, rfl, isBlank_of_isDigit hc, ?_⟩
      rintro rfl
      cases hc
  | true => exact ⟨_, _, rfl, by decide, by decide⟩
  | false => exact ⟨_, _, rfl, by decide, by decide⟩
  | str h => obtain ⟨h⟩ := h; exact ⟨_, _, rfl, by decide, by decide⟩
  | arr h => exact ⟨_, _, rfl, by decide, by decide⟩
  | obj h => exact ⟨_, _, rfl, by decide, by decide⟩

theorem joinWith_head {c : Char} {u : Str} (ts : List Str) :
    ∃ w, joinWith ',' ((c :: u) :: ts) = c :: w := by
  cases ts with
  | nil => exact ⟨u, rfl⟩
  | cons t ts => exact ⟨_, rfl⟩

/-- An array is empty, or what stands behind its bracket is the start of a value. -/
theorem Elements.head {vs : List Node} {ts : List Str} (h : Elements vs ts) :
    vs = [] ∧ ts = [] ∨
      vs ≠ [] ∧ ∃ c w, joinWith ',' ts = c :: w ∧ isBlank c = false ∧ c ≠ ']' := by
  cases h with
  | nil => exact Or.inl ⟨rfl, rfl⟩
  | @cons _ _ _ ts hv _ =>
    obtain ⟨c, u, rfl, hblank, hend⟩ := Value.head hv
    obtain ⟨w, hw⟩ := @joinWith_head c u ts
    exact Or.inr ⟨by simp, c, w, hw, hblank, hend⟩

/-- An object is empty, or what stands behind its brace is the quote of a key. -/
theorem Members.head {ms : List (Str × Node)} {ts : List Str} (h : Members ms ts) :
    ms = [] ∧ ts = [] ∨ ms ≠ [] ∧ ∃ w, joinWith ',' ts = '"' :: w := by
  cases h with
  | nil => exact Or.inl ⟨rfl, rfl⟩
  | @cons _ _ _ _ _ ts hk _ _ =>
    obtain ⟨hk⟩ := hk
    exact Or.inr ⟨by simp, joinWith_head ts⟩

theorem follows_cons (h : c.isDigit = false) : Follows (c :: rest) := by
  intro d hd
  obtain rfl : c = d := by simpa using hd
  exact h

mutual

/-- **Reading.** The text of a value is read as this value, whatever follows it. -/
theorem readValue_of_value {v : Node} {t rest : Str} {n : ℕ} :
    Value v t → Follows rest → t.length ≤ n + 1 → readValue (n + 1) (t ++ rest) = some (v, rest)
  | .num h, hrest, _ => readValue_of_number h hrest
  | .true, _, _ => by simp [readValue, skip, isBlank]
  | .false, _, _ => by simp [readValue, skip, isBlank]
  | .str h, _, hn => readValue_of_string h hn
  | @Value.arr _ ts h, _, hn => by
    have hshape : ('[' :: joinWith ',' ts ++ [']']) ++ rest =
        '[' :: (joinWith ',' ts ++ ']' :: rest) := by simp
    have hlen : (joinWith ',' ts).length < n := by simp at hn; omega
    rw [hshape, readValue, skip_of_not_blank (by decide)]
    dsimp only
    rw [if_neg (by decide), if_pos rfl]
    rcases Elements.head h with ⟨rfl, rfl⟩ | ⟨hne, c, w, hw, hblank, hend⟩
    · rfl
    · have hfirst : (skip (joinWith ',' ts ++ ']' :: rest)).head? ≠ some ']' := by
        rw [hw, List.cons_append, skip_of_not_blank hblank]
        simpa using hend
      rw [if_neg hfirst, readElements_of_elements h hne hlen]
      rfl
  | @Value.obj _ ts h, _, hn => by
    have hshape : ('\x7b' :: joinWith ',' ts ++ ['\x7d']) ++ rest =
        '\x7b' :: (joinWith ',' ts ++ '\x7d' :: rest) := by simp
    have hlen : (joinWith ',' ts).length < n := by simp at hn; omega
    rw [hshape, readValue, skip_of_not_blank (by decide)]
    dsimp only
    rw [if_neg (by decide), if_neg (by decide), if_pos rfl]
    rcases Members.head h with ⟨rfl, rfl⟩ | ⟨hne, w, hw⟩
    · rfl
    · have hfirst : (skip (joinWith ',' ts ++ '\x7d' :: rest)).head? ≠ some '\x7d' := by
        rw [hw, List.cons_append, skip_of_not_blank (by decide)]
        simp
      rw [if_neg hfirst, readMembers_of_members h hne hlen]
      rfl

theorem readElements_of_elements {vs : List Node} {rest : Str} {ts : List Str} {n : ℕ} :
    Elements vs ts → vs ≠ [] → (joinWith ',' ts).length < n →
      readElements n (joinWith ',' ts ++ ']' :: rest) = some (vs, rest)
  | .nil, hne, _ => absurd rfl hne
  | @Elements.cons _ vs t ts hv hvs, _, hn => by
    have hpos : 0 < t.length := by
      obtain ⟨c, u, rfl, -, -⟩ := Value.head hv
      exact Nat.succ_pos _
    have hle : t.length ≤ (joinWith ',' (t :: ts)).length := by
      cases ts with
      | nil => exact Nat.le_refl _
      | cons u ts => rw [joinWith, List.length_append]; exact Nat.le_add_right _ _
    obtain ⟨n, rfl⟩ := Nat.exists_eq_add_of_le' (show 2 ≤ n by omega)
    rcases Elements.head hvs with ⟨rfl, rfl⟩ | ⟨hne, c, w, hw, -, -⟩
    · have hread := @readValue_of_value _ t (']' :: rest) n hv (follows_cons (by decide)) (by omega)
      rw [joinWith, readElements, hread]
      simp [skip_of_not_blank (show isBlank ']' = false by decide)]
    · cases ts with
      | nil => cases hw
      | cons u ts =>
        have hread := @readValue_of_value _ t (',' :: (joinWith ',' (u :: ts) ++ ']' :: rest)) n hv
          (follows_cons (by decide)) (by omega)
        rw [joinWith, List.length_append, List.length_cons] at hn
        have hrest := @readElements_of_elements vs rest (u :: ts) (n + 1) hvs hne (by omega)
        rw [joinWith, List.append_assoc, List.cons_append, readElements, hread]
        simp [skip_of_not_blank (show isBlank ',' = false by decide), hrest]

theorem readMembers_of_members {ms : List (Str × Node)} {rest : Str} {ts : List Str} {n : ℕ} :
    Members ms ts → ms ≠ [] → (joinWith ',' ts).length < n →
      readMembers n (joinWith ',' ts ++ '\x7d' :: rest) = some (ms, rest)
  | .nil, hne, _ => absurd rfl hne
  | @Members.cons k _ ms s t ts hk hv hms, _, hn => by
    obtain ⟨hk⟩ := hk
    rename_i b
    have hlen : b.length + t.length + 3 ≤ (joinWith ',' (('"' :: b ++ ['"'] ++ ':' :: t) :: ts)).length := by
      cases ts with
      | nil => simp [joinWith]; omega
      | cons u ts => simp [joinWith]; omega
    obtain ⟨n, rfl⟩ := Nat.exists_eq_add_of_le' (show 2 ≤ n by omega)
    have hkey : ∀ tail, readBody (n + 1) (b ++ '"' :: tail) = some (k, tail) := fun tail =>
      readBody_of_body hk (by omega)
    rcases Members.head hms with ⟨rfl, rfl⟩ | ⟨hne, w, hw⟩
    · have hread := @readValue_of_value _ t ('\x7d' :: rest) n hv (follows_cons (by decide)) (by omega)
      have hshape : joinWith ',' ['"' :: b ++ ['"'] ++ ':' :: t] ++ '\x7d' :: rest =
          '"' :: (b ++ '"' :: ':' :: (t ++ '\x7d' :: rest)) := by simp [joinWith]
      rw [hshape, readMembers, skip_of_not_blank (by decide), List.head?_cons, if_pos rfl,
        List.tail_cons, hkey]
      simp [skip_of_not_blank (show isBlank ':' = false by decide),
        skip_of_not_blank (show isBlank '\x7d' = false by decide), hread]
    · cases ts with
      | nil => cases hw
      | cons u ts =>
        have hread := @readValue_of_value _ t (',' :: (joinWith ',' (u :: ts) ++ '\x7d' :: rest)) n hv
          (follows_cons (by decide)) (by omega)
        have hsum : (joinWith ',' (('"' :: b ++ ['"'] ++ ':' :: t) :: u :: ts)).length =
            b.length + t.length + 4 + (joinWith ',' (u :: ts)).length := by simp [joinWith]; omega
        have hrest := @readMembers_of_members ms rest (u :: ts) (n + 1) hms hne (by omega)
        have hshape : joinWith ',' (('"' :: b ++ ['"'] ++ ':' :: t) :: u :: ts) ++ '\x7d' :: rest =
            '"' :: (b ++ '"' :: ':' :: (t ++ ',' :: (joinWith ',' (u :: ts) ++ '\x7d' :: rest))) := by
          simp [joinWith]
        rw [hshape, readMembers, skip_of_not_blank (by decide), List.head?_cons, if_pos rfl,
          List.tail_cons, hkey]
        simp [skip_of_not_blank (show isBlank ':' = false by decide),
          skip_of_not_blank (show isBlank ',' = false by decide), hread, hrest]

end

end

/-- **Whole texts.** The reader returns the value of every text of the grammar. -/
theorem parse_of_value {v : Node} {t : Str} (h : Value v t) : parse t = some v := by
  obtain ⟨c, u, rfl, -, -⟩ := Value.head h
  have hread := @readValue_of_value v (c :: u) [] u.length h (fun _ h => by cases h) (Nat.le_refl _)
  rw [List.append_nil] at hread
  rw [parse, List.length_cons, hread]
  rfl

end Pacsni.Lib.JsonRead
