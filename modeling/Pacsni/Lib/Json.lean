import Pacsni.Lib.Text

/-! # JSON texts

The grammar of JSON without blanks between the tokens, as a relation between a value and its text
(`Value`), and a writer (`write`) whose escapes are a parameter. If the escapes are those of JSON,
what is written is a text of the value (`value_write`); no text of a value holds a control character
(`Value.printable`), so that texts can be told apart in a stream by newlines (`splitOn_lines`). The
last part bounds the length of what is written, in bytes of UTF-8. -/

namespace Pacsni.Lib.Json

open Pacsni.Lib.Text

/-- A JSON value; its numbers are natural numbers. -/
inductive Node
  | num (n : ℕ)
  | bool (b : Bool)
  | str (s : Str)
  | arr (vs : List Node)
  | obj (ms : List (Str × Node))

/-! ### The grammar -/

/-- The characters that have a short escape, with its letter. -/
def shortEscapes : List (Char × Char) :=
  [('"', '"'), ('\\', '\\'), ('/', '/'), ('\x08', 'b'), ('\x0c', 'f'), ('\n', 'n'), ('\r', 'r'),
    ('\t', 't')]

/-- The value of a hexadecimal digit of either case. -/
def hexValue (c : Char) : Option ℕ :=
  if '0' ≤ c ∧ c ≤ '9' then some (c.toNat - 0x30)
  else if 'a' ≤ c ∧ c ≤ 'f' then some (c.toNat - 0x57)
  else if 'A' ≤ c ∧ c ≤ 'F' then some (c.toNat - 0x37)
  else none

/-- The text stands for the character `c` inside a string. -/
inductive Encodes (c : Char) : Str → Prop
  | plain (hc : 0x20 ≤ c.toNat) (hq : c ≠ '"') (hb : c ≠ '\\') : Encodes c [c]
  | short {e : Char} (he : (c, e) ∈ shortEscapes) : Encodes c ['\\', e]
  | unicode {d₁ d₂ d₃ d₄ : Char} {i j k l : ℕ} (h₁ : hexValue d₁ = some i)
      (h₂ : hexValue d₂ = some j) (h₃ : hexValue d₃ = some k) (h₄ : hexValue d₄ = some l)
      (hc : c.toNat = ((i * 16 + j) * 16 + k) * 16 + l) : Encodes c ['\\', 'u', d₁, d₂, d₃, d₄]

/-- The text of a string, between its quotes. -/
inductive StringBody : Str → Str → Prop
  | nil : StringBody [] []
  | cons {c : Char} {s t u : Str} (hc : Encodes c t) (hs : StringBody s u) :
      StringBody (c :: s) (t ++ u)

/-- The text of a string. -/
inductive StringText : Str → Str → Prop
  | mk {s t : Str} (h : StringBody s t) : StringText s ('"' :: t ++ ['"'])

/-- The text of a number: decimal digits, without a zero in front of others. -/
structure Number (n : ℕ) (t : Str) : Prop where
  value : Nat.ofDigitChars 10 t 0 = n
  digits : ∀ c ∈ t, c.isDigit = true
  nonempty : t ≠ []
  lead : t.head? = some '0' → t = ['0']

mutual

/-- **The grammar of JSON.** The text stands for the value, without blanks between tokens. -/
inductive Value : Node → Str → Prop
  | num {n : ℕ} {t : Str} (h : Number n t) : Value (.num n) t
  | true : Value (.bool true) ['t', 'r', 'u', 'e']
  | false : Value (.bool false) ['f', 'a', 'l', 's', 'e']
  | str {s t : Str} (h : StringText s t) : Value (.str s) t
  | arr {vs : List Node} {ts : List Str} (h : Elements vs ts) :
      Value (.arr vs) ('[' :: joinWith ',' ts ++ [']'])
  | obj {ms : List (Str × Node)} {ts : List Str} (h : Members ms ts) :
      Value (.obj ms) ('\x7b' :: joinWith ',' ts ++ ['\x7d'])

/-- The texts of the elements of an array. -/
inductive Elements : List Node → List Str → Prop
  | nil : Elements [] []
  | cons {v : Node} {vs : List Node} {t : Str} {ts : List Str} (hv : Value v t)
      (hvs : Elements vs ts) : Elements (v :: vs) (t :: ts)

/-- The texts of the members of an object. -/
inductive Members : List (Str × Node) → List Str → Prop
  | nil : Members [] []
  | cons {k : Str} {v : Node} {ms : List (Str × Node)} {s t : Str} {ts : List Str}
      (hk : StringText k s) (hv : Value v t) (hms : Members ms ts) :
      Members ((k, v) :: ms) ((s ++ ':' :: t) :: ts)

end

/-! ### The writer -/

section

variable (escape : Char → Str)

/-- A string between its quotes. -/
def quote (s : Str) : Str := '"' :: s.flatMap escape ++ ['"']

mutual

/-- The text of a value. -/
def write : Node → Str
  | .num n => dec n
  | .bool b => if b then ['t', 'r', 'u', 'e'] else ['f', 'a', 'l', 's', 'e']
  | .str s => quote escape s
  | .arr vs => '[' :: joinWith ',' (writeElements vs) ++ [']']
  | .obj ms => '\x7b' :: joinWith ',' (writeMembers ms) ++ ['\x7d']

/-- The texts of values. -/
def writeElements : List Node → List Str
  | [] => []
  | v :: vs => write v :: writeElements vs

/-- The texts of members. -/
def writeMembers : List (Str × Node) → List Str
  | [] => []
  | (k, v) :: ms => (quote escape k ++ ':' :: write v) :: writeMembers ms

end

/-- **Escapes of JSON.** Every character is written as a text that stands for it. -/
def Escapes : Prop := ∀ c : Char, Encodes c (escape c)

variable {escape}

theorem stringBody_flatMap (h : Escapes escape) (s : Str) : StringBody s (s.flatMap escape) := by
  induction s with
  | nil => exact .nil
  | cons c s ih =>
    rw [List.flatMap_cons]
    exact .cons (h c) ih

theorem stringText_quote (h : Escapes escape) (s : Str) : StringText s (quote escape s) :=
  .mk (stringBody_flatMap h s)

/-- A decimal number has no zero in front of other digits. -/
theorem head_dec (n : ℕ) (h : (dec n).head? = some '0') : n = 0 := by
  unfold dec at h
  induction n using Nat.strong_induction_on with
  | _ n ih =>
    rcases Nat.lt_or_ge n 10 with hn | hn
    · rw [Nat.toDigits_of_lt_base hn, List.head?_cons, Option.some.injEq] at h
      have hval := Nat.toNat_digitChar_sub_48_of_lt_ten hn
      rw [h] at hval
      have hzero : '0'.toNat - 48 = 0 := rfl
      omega
    · rw [Nat.toDigits_of_base_le (by omega) hn,
        List.head?_append_of_ne_nil _ Nat.toDigits_ne_nil] at h
      have hdiv := ih (n / 10) (by omega) h
      omega

theorem number_dec (n : ℕ) : Number n (dec n) where
  value := Nat.ofDigitChars_ten_toDigits
  digits _ hc := Nat.isDigit_of_mem_toDigits (by omega) (by omega) hc
  nonempty := Nat.toDigits_ne_nil
  lead h := by
    rw [head_dec n h]
    rfl

mutual

/-- **The writer follows the grammar.** -/
theorem value_write (h : Escapes escape) : ∀ v : Node, Value v (write escape v)
  | .num n => by
    rw [write]
    exact .num (number_dec n)
  | .bool true => by
    rw [write, if_pos rfl]
    exact .true
  | .bool false => by
    rw [write, if_neg (by decide)]
    exact .false
  | .str s => by
    rw [write]
    exact .str (stringText_quote h s)
  | .arr vs => by
    rw [write]
    exact .arr (elements_write h vs)
  | .obj ms => by
    rw [write]
    exact .obj (members_write h ms)

theorem elements_write (h : Escapes escape) : ∀ vs : List Node, Elements vs (writeElements escape vs)
  | [] => .nil
  | v :: vs => by
    rw [writeElements]
    exact .cons (value_write h v) (elements_write h vs)

theorem members_write (h : Escapes escape) :
    ∀ ms : List (Str × Node), Members ms (writeMembers escape ms)
  | [] => .nil
  | (k, v) :: ms => by
    rw [writeMembers]
    exact .cons (stringText_quote h k) (value_write h v) (members_write h ms)

end

end

/-! ### Printable texts -/

/-- No character of the text is a control character. -/
def Printable (t : Str) : Prop := ∀ c ∈ t, 0x20 ≤ c.toNat

theorem Printable.append {t u : Str} (ht : Printable t) (hu : Printable u) : Printable (t ++ u) := by
  intro c hc
  rcases List.mem_append.mp hc with hc | hc
  · exact ht c hc
  · exact hu c hc

theorem Printable.cons {c : Char} {t : Str} (hc : 0x20 ≤ c.toNat) (ht : Printable t) :
    Printable (c :: t) := List.forall_mem_cons.mpr ⟨hc, ht⟩

theorem printable_nil : Printable [] := fun _ hc => absurd hc List.not_mem_nil

theorem Printable.wrap {a b : Char} {t : Str} (ha : 0x20 ≤ a.toNat) (hb : 0x20 ≤ b.toNat)
    (ht : Printable t) : Printable (a :: t ++ [b]) :=
  (ht.cons ha).append (printable_nil.cons hb)

theorem printable_joinWith {sep : Char} (hsep : 0x20 ≤ sep.toNat) : ∀ ts : List Str,
    (∀ t ∈ ts, Printable t) → Printable (joinWith sep ts)
  | [], _ => printable_nil
  | [t], h => h t (by simp)
  | t :: u :: ts, h => by
    rw [joinWith]
    have hrest := printable_joinWith hsep (u :: ts) fun t' ht' => h t' (by simp [ht'])
    exact (h t (by simp)).append (hrest.cons hsep)

theorem toNat_of_hexValue {d : Char} {i : ℕ} (h : hexValue d = some i) :
    0x30 ≤ d.toNat ∧ d.toNat < 0x80 := by
  unfold hexValue at h
  have hle : ∀ {a b : Char}, a ≤ b → a.toNat ≤ b.toNat := fun hab => hab
  split_ifs at h with h1 h2 h3
  · have hlo := hle h1.1
    have hhi := hle h1.2
    simp only [Char.reduceToNat] at hlo hhi
    omega
  · have hlo := hle h2.1
    have hhi := hle h2.2
    simp only [Char.reduceToNat] at hlo hhi
    omega
  · have hlo := hle h3.1
    have hhi := hle h3.2
    simp only [Char.reduceToNat] at hlo hhi
    omega

/-- The letters of short escapes are printable ASCII. -/
theorem toNat_of_short {c e : Char} (h : (c, e) ∈ shortEscapes) :
    0x20 ≤ e.toNat ∧ e.toNat < 0x80 := by
  have hall : ∀ p ∈ shortEscapes, 0x20 ≤ p.2.toNat ∧ p.2.toNat < 0x80 := by decide
  exact hall (c, e) h

theorem Encodes.printable {c : Char} {t : Str} (h : Encodes c t) : Printable t := by
  cases h with
  | plain hc hq hb => exact printable_nil.cons hc
  | short he => exact (printable_nil.cons (toNat_of_short he).1).cons (by decide)
  | unicode h₁ h₂ h₃ h₄ hc =>
    have hd : ∀ {d : Char} {i : ℕ}, hexValue d = some i → 0x20 ≤ d.toNat := fun hd =>
      Nat.le_trans (by omega) (toNat_of_hexValue hd).1
    have hdigits := (((printable_nil.cons (hd h₄)).cons (hd h₃)).cons (hd h₂)).cons (hd h₁)
    exact (hdigits.cons (by decide)).cons (by decide)

theorem StringText.printable {s t : Str} (h : StringText s t) : Printable t := by
  obtain ⟨h⟩ := h
  refine .wrap (by decide) (by decide) ?_
  induction h with
  | nil => exact printable_nil
  | cons hc _ ih => exact hc.printable.append ih

theorem toNat_of_isDigit {c : Char} (h : c.isDigit = true) : 0x30 ≤ c.toNat ∧ c.toNat ≤ 0x39 := by
  unfold Char.isDigit at h
  simp only [ge_iff_le, Bool.and_eq_true, decide_eq_true_eq] at h
  exact h

theorem Number.printable {n : ℕ} {t : Str} (h : Number n t) : Printable t := by
  intro c hc
  have hd := toNat_of_isDigit (h.digits c hc)
  omega

mutual

/-- A text of a value holds no control character. -/
theorem Value.printable {v : Node} {t : Str} : Value v t → Printable t
  | .num h => h.printable
  | .true => by simp [Printable]
  | .false => by simp [Printable]
  | .str h => h.printable
  | .arr h => .wrap (by decide) (by decide) (printable_joinWith (by decide) _ h.printable)
  | .obj h => .wrap (by decide) (by decide) (printable_joinWith (by decide) _ h.printable)

theorem Elements.printable {vs : List Node} {ts : List Str} :
    Elements vs ts → ∀ t ∈ ts, Printable t
  | .nil => by simp
  | .cons hv hvs => List.forall_mem_cons.mpr ⟨hv.printable, hvs.printable⟩

theorem Members.printable {ms : List (Str × Node)} {ts : List Str} :
    Members ms ts → ∀ t ∈ ts, Printable t
  | .nil => by simp
  | .cons hk hv hms => List.forall_mem_cons.mpr
    ⟨hk.printable.append (hv.printable.cons (by decide)), hms.printable⟩

end

/-! ### Lines of bytes -/

/-- The bytes of a text. -/
def utf8 (t : Str) : List UInt8 := t.flatMap String.utf8EncodeChar

theorem utf8_append (t u : Str) : utf8 (t ++ u) = utf8 t ++ utf8 u := List.flatMap_append

/-- The byte of a newline stands for a newline only. -/
theorem eq_newline_of_mem_utf8EncodeChar {c : Char} (h : (10 : UInt8) ∈ String.utf8EncodeChar c) :
    c = '\n' := by
  have hten : ∀ n : ℕ, 10 = UInt8.ofNat n → n < 256 → n = 10 := by
    intro n hn hlt
    have hnat := congrArg UInt8.toNat hn
    rw [UInt8.toNat_ofNat_of_lt' hlt] at hnat
    exact hnat.symm
  have hval : c.val.toNat = 10 := by
    unfold String.utf8EncodeChar at h
    dsimp only at h
    split_ifs at h with h1 h2 h3
    · exact hten _ (List.mem_singleton.mp h) (by omega)
    · simp only [List.mem_cons, List.not_mem_nil, or_false] at h
      rcases h with h | h <;> have := hten _ h (by omega) <;> omega
    · simp only [List.mem_cons, List.not_mem_nil, or_false] at h
      rcases h with h | h | h <;> have := hten _ h (by omega) <;> omega
    · simp only [List.mem_cons, List.not_mem_nil, or_false] at h
      rcases h with h | h | h | h <;> have := hten _ h (by omega) <;> omega
  exact Char.ext (UInt32.toNat_inj.mp hval)

theorem newline_notMem_utf8 {t : Str} (h : Printable t) : (10 : UInt8) ∉ utf8 t := by
  intro hmem
  obtain ⟨c, hc, hb⟩ := List.mem_flatMap.mp hmem
  have hge := h c hc
  rw [eq_newline_of_mem_utf8EncodeChar hb] at hge
  exact absurd hge (by decide)

/-- Lines that end with the separator are told apart by it; `rest` is what follows the last one. -/
theorem splitOn_lines {sep : UInt8} {rest : List UInt8} (hrest : sep ∉ rest) (ls : List (List UInt8))
    (h : ∀ l ∈ ls, sep ∉ l) : (ls.flatMap (· ++ [sep]) ++ rest).splitOn sep = ls ++ [rest] := by
  induction ls with
  | nil =>
    exact List.splitOn_eq_singleton hrest
  | cons l ls ih =>
    have hl : sep ∉ l := h l (by simp)
    have hls := ih fun l' hl' => h l' (by simp [hl'])
    rw [List.flatMap_cons, List.append_assoc, List.append_assoc, List.singleton_append,
      List.splitOn_append_cons_self_of_not_mem hl, hls]
    rfl

/-! ### The length of what is written -/

theorem length_utf8_append (t u : Str) :
    (utf8 (t ++ u)).length = (utf8 t).length + (utf8 u).length := by
  rw [utf8_append, List.length_append]

theorem length_utf8_cons (c : Char) (t : Str) :
    (utf8 (c :: t)).length = c.utf8Size + (utf8 t).length := by
  unfold utf8
  rw [List.flatMap_cons, List.length_append, String.length_utf8EncodeChar]

theorem utf8Size_of_ascii {c : Char} (h : c.toNat < 0x80) : c.utf8Size = 1 := by
  have hval : c.val ≤ 0x7f := by
    rw [UInt32.le_iff_toNat_le]
    exact Nat.le_of_lt_succ h
  exact Char.utf8Size_eq_one_iff.mpr hval

/-- A text of ASCII characters has one byte for each. -/
theorem length_utf8_ascii {t : Str} (h : ∀ c ∈ t, c.toNat < 0x80) :
    (utf8 t).length = t.length := by
  induction t with
  | nil => rfl
  | cons c t ih =>
    have hc := utf8Size_of_ascii (h c (by simp))
    have ht := ih fun c' hc' => h c' (by simp [hc'])
    rw [length_utf8_cons, List.length_cons]
    omega

/-- A character takes at most six bytes in a string. -/
theorem Encodes.length_utf8_le {c : Char} {t : Str} (h : Encodes c t) : (utf8 t).length ≤ 6 := by
  cases h with
  | plain hc hq hb =>
    have hsize := c.utf8Size_le_four
    have hlen := length_utf8_cons c []
    have hnil : (utf8 []).length = 0 := rfl
    omega
  | @short e he =>
    rw [length_utf8_ascii]
    · exact Nat.le_of_ble_eq_true rfl
    · simp [(toNat_of_short he).2]
  | unicode h₁ h₂ h₃ h₄ hc =>
    rw [length_utf8_ascii]
    · exact Nat.le_of_ble_eq_true rfl
    · simp [(toNat_of_hexValue h₁).2, (toNat_of_hexValue h₂).2,
        (toNat_of_hexValue h₃).2, (toNat_of_hexValue h₄).2]

theorem length_utf8_joinWith_le {B : ℕ} {sep : Char} (hsep : sep.toNat < 0x80) : ∀ ts : List Str,
    (∀ t ∈ ts, (utf8 t).length ≤ B) → (utf8 (joinWith sep ts)).length ≤ ts.length * (B + 1)
  | [], _ => Nat.zero_le _
  | [t], h => by
    have ht := h t (by simp)
    rw [joinWith, List.length_singleton]
    omega
  | t :: u :: ts, h => by
    have ht := h t (by simp)
    have hrest := length_utf8_joinWith_le hsep (u :: ts) fun t' ht' => h t' (by simp [ht'])
    have hone := utf8Size_of_ascii hsep
    rw [joinWith, length_utf8_append, length_utf8_cons, List.length_cons, Nat.succ_mul]
    omega

theorem length_utf8_wrap {a b : Char} (ha : a.toNat < 0x80) (hb : b.toNat < 0x80) (t : Str) :
    (utf8 (a :: t ++ [b])).length = (utf8 t).length + 2 := by
  have hlast := length_utf8_cons b []
  have hnil : (utf8 []).length = 0 := rfl
  rw [length_utf8_append, length_utf8_cons, utf8Size_of_ascii ha]
  rw [utf8Size_of_ascii hb] at hlast
  omega

section

variable {escape : Char → Str} {B : ℕ}

theorem length_utf8_quote_le (h : Escapes escape) (s : Str) :
    (utf8 (quote escape s)).length ≤ 6 * s.length + 2 := by
  unfold quote
  rw [length_utf8_wrap (by decide) (by decide)]
  induction s with
  | nil => exact Nat.le_refl _
  | cons c s ih =>
    have hc := (h c).length_utf8_le
    rw [List.flatMap_cons, length_utf8_append, List.length_cons]
    omega

theorem length_utf8_dec_le {n k : ℕ} (hk : 0 < k) (h : n < 10 ^ k) : (utf8 (dec n)).length ≤ k := by
  have hascii : ∀ c ∈ dec n, c.toNat < 0x80 := by
    intro c hc
    have hd := toNat_of_isDigit ((number_dec n).digits c hc)
    omega
  rw [length_utf8_ascii hascii]
  exact (Nat.length_toDigits_le_iff (by omega) hk).mpr h

theorem length_utf8_arr_le {vs : List Node}
    (h : ∀ v ∈ vs, (utf8 (write escape v)).length ≤ B) :
    (utf8 (write escape (.arr vs))).length ≤ vs.length * (B + 1) + 2 := by
  have htexts : ∀ vs : List Node, writeElements escape vs = vs.map (write escape) := by
    intro vs
    induction vs with
    | nil => rfl
    | cons v vs ih => rw [writeElements, ih, List.map_cons]
  have hjoin := @length_utf8_joinWith_le B ',' (by decide) (writeElements escape vs) (by
    rw [htexts]
    simpa using h)
  rw [write, length_utf8_wrap (by decide) (by decide)]
  rw [htexts, List.length_map] at hjoin
  rw [htexts]
  omega

theorem length_utf8_obj_le {ms : List (Str × Node)}
    (h : ∀ m ∈ ms, (utf8 (quote escape m.1)).length + (utf8 (write escape m.2)).length ≤ B) :
    (utf8 (write escape (.obj ms))).length ≤ ms.length * (B + 2) + 2 := by
  have htexts : ∀ ms : List (Str × Node),
      writeMembers escape ms = ms.map fun m => quote escape m.1 ++ ':' :: write escape m.2 := by
    intro ms
    induction ms with
    | nil => rfl
    | cons m ms ih => rw [writeMembers, ih, List.map_cons]
  have hjoin := @length_utf8_joinWith_le (B + 1) ',' (by decide) (writeMembers escape ms) (by
    rw [htexts]
    intro t ht
    obtain ⟨m, hm, rfl⟩ := List.mem_map.mp ht
    have hone := @utf8Size_of_ascii ':' (by decide)
    have hB := h m hm
    rw [length_utf8_append, length_utf8_cons]
    omega)
  rw [write, length_utf8_wrap (by decide) (by decide)]
  rw [htexts, List.length_map] at hjoin
  rw [htexts]
  exact Nat.add_le_add_right hjoin 2

end

end Pacsni.Lib.Json
