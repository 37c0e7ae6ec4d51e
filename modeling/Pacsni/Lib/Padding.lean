import Pacsni.Lib.Text
import Pacsni.Lib.CBuffer

/-! # Texts in buffers of fixed length

A C program ends a text with a NUL and never looks behind it. A reader of the whole buffer that trims
the NULs at its two ends sees the same text if and only if the buffer is *padded*: behind a NUL there
are NULs only (`trimNul_fromUtf8Lossy_iff`).

The second half says when a buffer is padded after texts have been written to it: a text and its NUL
cover the front of the buffer, and what was there behind them stays. -/

namespace Pacsni.Lib.Padding

open Pacsni.Lib.Trace Pacsni.Lib.CBuffer Pacsni.Lib.Text

/-- Behind a NUL there are NULs only. -/
def Padded (bs : List UInt8) : Prop := bs.Pairwise fun a b => a = 0 → b = 0

instance (bs : List UInt8) : Decidable (Padded bs) :=
  inferInstanceAs (Decidable (bs.Pairwise fun a b => a = 0 → b = 0))

theorem padded_of_notMem {bs : List UInt8} (h : 0 ∉ bs) : Padded bs :=
  List.pairwise_of_forall_mem_list fun _ ha _ _ h0 => absurd (h0 ▸ ha) h

theorem padded_of_forall {bs : List UInt8} (h : ∀ b ∈ bs, b = 0) : Padded bs :=
  List.pairwise_of_forall_mem_list fun _ _ b hb _ => h b hb

/-- A NUL splits a padded list: behind it there is nothing. -/
theorem padded_append_nul {bs rest : List UInt8} :
    Padded (bs ++ 0 :: rest) ↔ Padded bs ∧ ∀ b ∈ rest, b = 0 := by
  unfold Padded
  rw [List.pairwise_append, List.pairwise_cons]
  constructor
  · rintro ⟨hbs, ⟨hrest, -⟩, -⟩
    exact ⟨hbs, fun b hb => hrest b hb rfl⟩
  · rintro ⟨hbs, hrest⟩
    refine ⟨hbs, ⟨fun b hb _ => hrest b hb, padded_of_forall hrest⟩, fun a _ b hb _ => ?_⟩
    rcases List.mem_cons.mp hb with rfl | hb
    · rfl
    · exact hrest b hb

theorem Padded.of_prefix {bs cs : List UInt8} (h : Padded cs) (hpre : bs <+: cs) : Padded bs :=
  List.Pairwise.sublist hpre.sublist h

theorem padded_slice {mem : ℕ → UInt8} {p k : ℕ} :
    Padded (slice mem p k) ↔ ∀ c d, c < d → d < k → mem (p + c) = 0 → mem (p + d) = 0 := by
  unfold Padded
  rw [List.pairwise_iff_getElem]
  constructor
  · intro h c d hcd hd h0
    have hpair := h c d (by simp; omega) (by simpa using hd) hcd
    rw [getElem_slice, getElem_slice] at hpair
    exact hpair h0
  · intro h c d hc hd hcd
    rw [getElem_slice, getElem_slice]
    exact h c d hcd (by simpa using hd)

/-! ### Two readers of a buffer -/

/-- An ASCII byte ends a character: the decoder does not look behind it. -/
theorem nextChar_append {a : UInt8} (ha : IsAscii a) (b : UInt8) (s t : List UInt8) :
    nextChar b (s ++ a :: t) = ((nextChar b s).1, (nextChar b s).2 ++ a :: t) := by
  have hcont : ¬ IsCont a := fun h => h.not_ascii ha
  have h3 : ¬ Second3 b a := fun h => hcont h.1
  have h4 : ¬ Second4 b a := fun h => hcont h.1
  unfold nextChar
  split_ifs
  · match s with
    | [] => simp [hcont]
    | c :: s =>
      simp only [List.cons_append]
      split_ifs <;> rfl
  · match s with
    | [] =>
      cases t with
      | nil => simp [h3]
      | cons d t => simp [h3]
    | [c] =>
      simp only [List.cons_append, List.nil_append, hcont, ↓reduceIte]
      split_ifs <;> rfl
    | c :: d :: s =>
      simp only [List.cons_append]
      split_ifs <;> rfl
  · match s with
    | [] =>
      match t with
      | [] => simp [h4]
      | [d] => simp [h4]
      | d :: e :: t => simp [h4]
    | [c] =>
      match t with
      | [] =>
        simp only [List.cons_append, List.nil_append, hcont, ↓reduceIte]
        split_ifs <;> rfl
      | d :: t =>
        simp only [List.cons_append, List.nil_append, hcont, ↓reduceIte]
        split_ifs <;> rfl
    | [c, d] =>
      simp only [List.cons_append, List.nil_append, hcont, ↓reduceIte]
      split_ifs <;> rfl
    | c :: d :: e :: s =>
      simp only [List.cons_append]
      split_ifs <;> rfl
  · rfl

theorem fromUtf8Lossy_append {a : UInt8} (ha : IsAscii a) (s t : List UInt8) :
    fromUtf8Lossy (s ++ a :: t) = fromUtf8Lossy s ++ fromUtf8Lossy (a :: t) := by
  fun_induction fromUtf8Lossy s with
  | case1 => rfl
  | case2 b rest hb ih => rw [List.cons_append, fromUtf8Lossy, if_pos hb, ih, List.cons_append]
  | case3 b rest hb ih =>
    rw [List.cons_append, fromUtf8Lossy, if_neg hb, nextChar_append ha, ih, List.cons_append]

/-- Trimming takes NULs only. -/
theorem filter_trimNul (t : Str) : (trimNul t).filter (· ≠ '\x00') = t.filter (· ≠ '\x00') := by
  have hdrop : ∀ l : Str, (l.dropWhile (· = '\x00')).filter (· ≠ '\x00') = l.filter (· ≠ '\x00') := by
    intro l
    induction l with
    | nil => rfl
    | cons c l ih =>
      by_cases hc : c = '\x00'
      · rw [List.dropWhile_cons_of_pos (by simpa using hc), ih,
          List.filter_cons_of_neg (by simpa using hc)]
      · rw [List.dropWhile_cons_of_neg (by simpa using hc)]
  unfold trimNul
  rw [List.filter_reverse, hdrop, List.filter_reverse, List.reverse_reverse, hdrop]

theorem nul_notMem_fromUtf8Lossy {bs : List UInt8} (h : 0 ∉ bs) : '\x00' ∉ fromUtf8Lossy bs := by
  intro hmem
  obtain ⟨b, hb, hascii, hnul⟩ := (mem_fromUtf8Lossy (by decide) bs).mp hmem
  have hz : b.toNat = (0 : UInt8).toNat := by
    rw [← toNat_charOf hascii, hnul]
    rfl
  exact h (UInt8.toNat_inj.mp hz ▸ hb)

/-- **C strings and trimmed buffers.** What is left of the decoded buffer without the NULs at its ends
is the decoding of the bytes before the first NUL if and only if the buffer is padded. -/
theorem trimNul_fromUtf8Lossy_iff (bs : List UInt8) :
    trimNul (fromUtf8Lossy bs) = fromUtf8Lossy (bs.takeWhile (· ≠ 0)) ↔ Padded bs := by
  by_cases h0 : (0 : UInt8) ∈ bs
  swap
  · have hall : bs.takeWhile (· ≠ 0) = bs := by
      rw [List.takeWhile_eq_self_iff]
      intro b hb
      simpa using fun hb0 : b = 0 => h0 (hb0 ▸ hb)
    have htrim := trimNul_append_replicate (fromUtf8Lossy bs) 0 (nul_notMem_fromUtf8Lossy h0)
    rw [List.replicate_zero, List.append_nil] at htrim
    rw [hall]
    exact ⟨fun _ => padded_of_notMem h0, fun _ => htrim⟩
  obtain ⟨s, t, rfl, hs⟩ := List.eq_append_cons_of_mem h0
  have hfront : (s ++ 0 :: t).takeWhile (· ≠ 0) = s := by
    rw [List.takeWhile_append_of_pos, List.takeWhile_cons_of_neg (by decide), List.append_nil]
    intro b hb
    simpa using fun hb0 : b = 0 => hs (hb0 ▸ hb)
  have hzero : IsAscii 0 := by decide
  have hnul : fromUtf8Lossy (0 :: t) = '\x00' :: fromUtf8Lossy t := by
    rw [fromUtf8Lossy, if_pos hzero]
    rfl
  have hclean := nul_notMem_fromUtf8Lossy hs
  rw [hfront, padded_append_nul, and_iff_right (padded_of_notMem hs), fromUtf8Lossy_append hzero, hnul]
  constructor
  · intro heq
    -- both sides have the same characters that are no NULs
    refine eq_zero_of_fromUtf8Lossy t fun c hc => ?_
    by_contra hne
    have hfilter := congrArg (List.filter (· ≠ '\x00')) heq
    rw [filter_trimNul, List.filter_append, List.filter_cons_of_neg (by decide)] at hfilter
    have hlen := congrArg List.length hfilter
    rw [List.length_append] at hlen
    have hpos : 0 < ((fromUtf8Lossy t).filter (· ≠ '\x00')).length :=
      List.length_pos_of_mem (List.mem_filter.mpr ⟨hc, by simpa using hne⟩)
    omega
  · intro hrest
    have hzeros : fromUtf8Lossy t = List.replicate t.length '\x00' := by
      have hascii : ∀ b ∈ t, IsAscii b := fun b hb => hrest b hb ▸ hzero
      rw [fromUtf8Lossy_ascii t hascii, List.eq_replicate_of_mem hrest, List.map_replicate,
        List.length_replicate]
      rfl
    rw [hzeros, ← List.replicate_succ]
    exact trimNul_append_replicate _ _ hclean

/-! ### Writing texts -/

section

variable {n : ℕ} {v : Vector UInt8 n} {bs : List UInt8}

theorem toList_writeAt {i : ℕ} (h : i + bs.length ≤ n) :
    (writeAt v i bs).toList = v.toList.take i ++ bs ++ v.toList.drop (i + bs.length) := by
  have hlen : v.toList.length = n := Vector.length_toList
  apply List.ext_getElem
  · rw [Vector.length_toList, List.length_append, List.length_append, List.length_take,
      List.length_drop]
    omega
  · intro k h1 h2
    have hk : k < n := by simpa using h1
    rw [Vector.getElem_toList, getElem_writeAt]
    rcases Nat.lt_or_ge k i with hlt | hge
    · rw [if_neg (by omega), List.getElem_append_left (by simp; omega),
        List.getElem_append_left (by simp; omega), List.getElem_take, Vector.getElem_toList]
    rcases Nat.lt_or_ge k (i + bs.length) with hin | hout
    · have htake : (v.toList.take i).length = i := by rw [List.length_take]; omega
      rw [if_pos ⟨hge, hin⟩, List.getElem_append_left (by rw [List.length_append]; omega),
        List.getElem_append_right (by omega), List.getD_eq_getElem _ _ (by omega)]
      simp only [htake]
    · have htake : (v.toList.take i ++ bs).length = i + bs.length := by
        rw [List.length_append, List.length_take]
        omega
      rw [if_neg (by omega), List.getElem_append_right (by omega), List.getElem_drop,
        Vector.getElem_toList]
      simp only [htake, Nat.add_sub_cancel' hout]

/-- A text and its NUL at the front of a buffer. -/
theorem padded_writeText (h : bs.length < n) : Padded (writeAt v 0 (bs ++ [0])).toList ↔
    Padded bs ∧ ∀ b ∈ v.toList.drop (bs.length + 1), b = 0 := by
  have hfit : 0 + (bs ++ [0]).length ≤ n := by
    rw [List.length_append, List.length_singleton]
    omega
  rw [toList_writeAt hfit, List.take_zero, List.nil_append, List.append_assoc, List.singleton_append,
    padded_append_nul, List.length_append, List.length_singleton, Nat.zero_add]

/-- A text without NULs and its NUL, behind a front without NULs. -/
theorem padded_appendText {i : ℕ} (h : i + bs.length < n) (hfront : 0 ∉ v.toList.take i)
    (hbs : 0 ∉ bs) : Padded (writeAt v i (bs ++ [0])).toList ↔
      ∀ b ∈ v.toList.drop (i + bs.length + 1), b = 0 := by
  have hfit : i + (bs ++ [0]).length ≤ n := by
    rw [List.length_append, List.length_singleton]
    omega
  have hnul : 0 ∉ v.toList.take i ++ bs := by
    rw [List.mem_append]
    exact fun hmem => hmem.elim hfront hbs
  rw [toList_writeAt hfit, ← List.append_assoc, List.append_assoc, List.singleton_append,
    padded_append_nul, and_iff_right (padded_of_notMem hnul), List.length_append,
    List.length_singleton, Nat.add_assoc]

theorem notMem_take {m : ℕ} (h : 0 ∉ bs) : (0 : UInt8) ∉ bs.take m :=
  fun hmem => h (List.mem_of_mem_take hmem)

/-- `snprintf` to an empty buffer. -/
theorem padded_snprintf {σ : Type} (s : σ) (hv : ∀ b ∈ v.toList, b = 0) {m : ℕ} (hm : m ≤ n)
    {text : List UInt8} (ht : 0 ∉ text) : Padded (snprintf s v 0 m text).val.toList := by
  unfold snprintf
  split_ifs with h0
  · exact padded_of_forall hv
  · rw [val_bind, val_pure, padded_writeText (by rw [List.length_take]; omega)]
    exact ⟨padded_of_notMem (notMem_take ht), fun b hb => hv b (List.mem_of_mem_drop hb)⟩

/-! ### Several texts -/

/-- The byte at place `k` when the texts are written to the front of an empty buffer one after the
other: that of the last text that reaches the place, or the NUL behind it. -/
def byteAt (ts : List (List UInt8)) (k : ℕ) : UInt8 :=
  ((ts.reverse.find? fun t => k ≤ t.length).getD []).getD k 0

/-- The buffer after the texts have been written to its front, each with its NUL. -/
def writeTexts (v : Vector UInt8 n) (ts : List (List UInt8)) : Vector UInt8 n :=
  ts.foldl (fun v t => writeAt v 0 (t ++ [0])) v

@[simp] theorem writeTexts_nil : writeTexts v [] = v := rfl

@[simp] theorem writeTexts_cons (t : List UInt8) (ts : List (List UInt8)) :
    writeTexts v (t :: ts) = writeTexts (writeAt v 0 (t ++ [0])) ts := rfl

theorem byteAt_concat (ts : List (List UInt8)) (t : List UInt8) (k : ℕ) :
    byteAt (ts ++ [t]) k = if k ≤ t.length then t.getD k 0 else byteAt ts k := by
  unfold byteAt
  rw [List.reverse_append, List.reverse_singleton, List.singleton_append, List.find?_cons]
  by_cases hk : k ≤ t.length
  · simp [hk]
  · simp [hk]

theorem getElem_writeTexts (hv : ∀ b ∈ v.toList, b = 0) (ts : List (List UInt8)) {k : ℕ} (hk : k < n) :
    (writeTexts v ts)[k] = byteAt ts k := by
  unfold writeTexts
  induction ts using List.reverseRecOn with
  | nil =>
    have hmem : v[k] ∈ v.toList := by simp
    exact hv _ hmem
  | append_singleton ts t ih =>
    rw [getElem_congr_coll (List.foldl_concat _ _ _ _), getElem_writeAt, byteAt_concat, ih,
      Nat.sub_zero, List.length_append, List.length_singleton]
    by_cases hle : k ≤ t.length
    · rw [if_pos ⟨Nat.zero_le k, by omega⟩, if_pos hle]
      rcases Nat.lt_or_eq_of_le hle with hlt | rfl
      · rw [List.getD_append _ _ _ _ hlt]
      · rw [List.getD_append_right _ _ _ _ (Nat.le_refl _), Nat.sub_self,
          List.getD_eq_default _ _ (Nat.le_refl _)]
        rfl
    · rw [if_neg (by omega), if_neg hle]

/-- A buffer to which texts were written is padded if no byte that stays follows a NUL that stays. -/
theorem padded_writeTexts (hv : ∀ b ∈ v.toList, b = 0) {ts : List (List UInt8)}
    (hts : ∀ t ∈ ts, t.length < n) : Padded (writeTexts v ts).toList ↔
      ∀ i j, i < j → byteAt ts i = 0 → byteAt ts j = 0 := by
  have hout : ∀ j, n ≤ j → byteAt ts j = 0 := by
    intro j hj
    unfold byteAt
    cases hfind : ts.reverse.find? fun t => j ≤ t.length with
    | none => rfl
    | some t =>
      have hlt := hts t (List.mem_reverse.mp (List.mem_of_find?_eq_some hfind))
      have hle : j ≤ t.length := by simpa using List.find?_some hfind
      omega
  unfold Padded
  rw [List.pairwise_iff_getElem]
  constructor
  · intro h i j hij h0
    rcases Nat.lt_or_ge j n with hj | hj
    · have hpair := h i j (by simp; omega) (by simpa using hj) hij
      rw [Vector.getElem_toList, Vector.getElem_toList, getElem_writeTexts hv ts (by omega),
        getElem_writeTexts hv ts hj] at hpair
      exact hpair h0
    · exact hout j hj
  · intro h i j hi hj hij
    rw [Vector.length_toList] at hi hj
    rw [Vector.getElem_toList, Vector.getElem_toList, getElem_writeTexts hv ts hi,
      getElem_writeTexts hv ts hj]
    exact h i j hij

end

end Pacsni.Lib.Padding
