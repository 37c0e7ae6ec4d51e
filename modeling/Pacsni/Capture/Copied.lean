import Pacsni.Lib.Text
import Pacsni.Capture.Dissectors

/-! # What the dissectors copy from the frame

Three dissectors copy bytes of the frame to a text: `dissect_http` the request line and the value of
the `Host` header, `dissect_app_common` the banner of an SSH server, `dissect_dns` the labels of the
first name. Everything else they write is fixed. For each of them: the indices of the bytes that stay
in the text (`HttpCopies`, `BannerCopies`, `DnsCopies`), and that the text has no markup byte if and
only if none of these is one. -/

namespace Pacsni.Capture.Copied

open Pacsni.Lib.Trace Pacsni.Lib.CBuffer Pacsni.Lib.Text
open Pacsni.Capture.Types Pacsni.Capture.Dissectors

variable {n : ℕ} {packet : ℕ → UInt8}

/-! ### Bytes without markup -/

/-- The bytes of `<`, `>` and `&`. -/
def Markup (b : UInt8) : Prop := b = 60 ∨ b = 62 ∨ b = 38

instance (b : UInt8) : Decidable (Markup b) := inferInstanceAs (Decidable (_ ∨ _))

/-- No byte of the list is markup. -/
def Clean (bs : List UInt8) : Prop := ∀ b ∈ bs, ¬ Markup b

instance (bs : List UInt8) : Decidable (Clean bs) := List.decidableBAll _ bs

@[simp] theorem clean_nil : Clean [] := by simp [Clean]

@[simp] theorem clean_append {bs cs : List UInt8} : Clean (bs ++ cs) ↔ Clean bs ∧ Clean cs := by
  simp only [Clean, List.mem_append]
  constructor
  · exact fun h => ⟨fun b hb => h b (Or.inl hb), fun b hb => h b (Or.inr hb)⟩
  · rintro ⟨h1, h2⟩ b (hb | hb)
    · exact h1 b hb
    · exact h2 b hb

theorem Clean.take {bs : List UInt8} (h : Clean bs) (k : ℕ) : Clean (bs.take k) :=
  fun b hb => h b (List.mem_of_mem_take hb)

theorem clean_slice {p k : ℕ} : Clean (slice packet p k) ↔ ∀ j < k, ¬ Markup (packet (p + j)) := by
  simp only [Clean, mem_slice]
  constructor
  · exact fun h j hj => h _ ⟨j, hj, rfl⟩
  · rintro h b ⟨j, hj, rfl⟩
    exact h j hj

theorem clean_zeros : Clean (zeros n).toList := by
  intro b hb
  rw [zeros, Vector.toList_replicate, List.mem_replicate] at hb
  rw [hb.2]
  decide

theorem not_markup_of_mem_digits {c : Char} (hc : c ∈ digits) : ¬ Markup (UInt8.ofNat c.toNat) := by
  have hall : Clean (digits.map fun c => UInt8.ofNat c.toNat) := by decide
  exact hall _ (List.mem_map_of_mem hc)

theorem clean_decimal (k : ℕ) : Clean (decimal k) := by
  intro b hb
  obtain ⟨c, hc, rfl⟩ := List.mem_map.mp hb
  exact not_markup_of_mem_digits (mem_digits_of_mem_toDigits (by decide) k hc)

theorem clean_hex4 (x : UInt16) : Clean (hex4 x) := by
  intro b hb
  obtain ⟨c, hc, rfl⟩ := List.mem_map.mp hb
  rcases List.mem_append.mp hc with hc | hc
  · rw [(List.mem_replicate.mp hc).2]
    decide
  · exact not_markup_of_mem_digits (mem_digits_of_mem_toDigits (by decide) _ hc)

/-! ### Buffers -/

theorem clean_toList {v : Vector UInt8 n} :
    Clean v.toList ↔ ∀ k (hk : k < n), ¬ Markup v[k] := by
  constructor
  · exact fun h k hk => h _ (by simp)
  · intro h b hb
    obtain ⟨k, hk, rfl⟩ := List.getElem_of_mem hb
    rw [Vector.getElem_toList]
    exact h k (by simpa using hk)

/-- Which bytes of a buffer and of what is written to it the result has. -/
theorem clean_writeAt_iff {v : Vector UInt8 n} {i : ℕ} {src : List UInt8} (hfit : i + src.length ≤ n) :
    Clean (writeAt v i src).toList ↔
      Clean src ∧ ∀ k (hk : k < n), k < i ∨ i + src.length ≤ k → ¬ Markup v[k] := by
  rw [clean_toList]
  constructor
  · intro h
    refine ⟨fun b hb => ?_, fun k hk hout => ?_⟩
    · obtain ⟨j, hj, rfl⟩ := List.getElem_of_mem hb
      have hb := h (i + j) (by omega)
      rwa [getElem_writeAt, if_pos ⟨by omega, by omega⟩, Nat.add_sub_cancel_left,
        List.getD_eq_getElem _ _ hj] at hb
    · have hb := h k hk
      rwa [getElem_writeAt, if_neg (by omega)] at hb
  · rintro ⟨hsrc, hv⟩ k hk
    rw [getElem_writeAt]
    split_ifs with hin
    · rw [List.getD_eq_getElem _ _ (by omega)]
      exact hsrc _ (List.getElem_mem _)
    · exact hv k hk (by omega)

theorem clean_writeAt {v : Vector UInt8 n} (hv : Clean v.toList) (i : ℕ) {src : List UInt8}
    (hsrc : Clean src) : Clean (writeAt v i src).toList := by
  rw [clean_toList] at hv ⊢
  intro k hk
  rw [getElem_writeAt]
  split_ifs with hin
  · rw [List.getD_eq_getElem _ _ (by omega)]
    exact hsrc _ (List.getElem_mem _)
  · exact hv k hk

/-- A text at the start of a buffer without markup. -/
theorem clean_writeAt_start {v : Vector UInt8 n} (hv : Clean v.toList) {src : List UInt8}
    (hfit : src.length ≤ n) : Clean (writeAt v 0 src).toList ↔ Clean src := by
  rw [clean_writeAt_iff (by omega)]
  exact and_iff_left fun k hk _ => clean_toList.mp hv k hk

theorem clean_snprintf {σ : Type} (s : σ) {v : Vector UInt8 n} (hv : Clean v.toList) (i m : ℕ)
    {text : List UInt8} (ht : Clean text) :
    Ensures (fun r => Clean r.toList) (snprintf s v i m text) := by
  unfold snprintf
  refine .ite (.pure hv) (.step fun _ => .pure (clean_writeAt hv i ?_))
  exact clean_append.mpr ⟨ht.take _, by decide⟩

theorem clean_say (f : Fn) {o : Vector UInt8 n} (ho : Clean o.toList) (m : ℕ) :
    ∀ t : Option (List UInt8), (∀ text, t = some text → Clean text) →
      Ensures (fun r => Clean r.toList) (say f o m t)
  | none, _ => .pure ho
  | some text, ht => clean_snprintf _ ho 0 m (ht text rfl)

/-- A fixed text. -/
theorem clean_say_ascii (f : Fn) {o : Vector UInt8 n} (ho : Clean o.toList) (m : ℕ) {t : String}
    (ht : Clean (ascii t)) : Ensures (fun r => Clean r.toList) (say f o m (some (ascii t))) :=
  clean_say f ho m _ fun _ h => Option.some.inj h ▸ ht

/-! ### HTTP -/

/-- The data start with a request that `dissect_http` recognises. -/
def IsRequest (packet : ℕ → UInt8) (p l : ℕ) : Prop :=
  10 ≤ l ∧ ∃ ml ∈ httpMethods, slice packet p ml.length = ml

/-- The length of the request line, as far as it is copied. -/
def lineLen (packet : ℕ → UInt8) (p l : ℕ) : ℕ := stretch isBreak packet p (min l 127)

/-- The length of the request line as a C string. -/
def textLen (packet : ℕ → UInt8) (p l : ℕ) : ℕ := stretch isNul packet p (lineLen packet p l)

/-- The `Host` header that is shown is `x` bytes behind the start of the data. -/
def HostAt (packet : ℕ → UInt8) (p l x : ℕ) : Prop :=
  FirstAt packet p l (ascii "\r\nHost: ") 0 x

/-- The length of the value at `q`, as far as it is printed: `%.32s` stops at a NUL only. -/
def hostLen (packet : ℕ → UInt8) (q : ℕ) : ℕ := stretch isNul packet q 32

/-- The indices of the bytes that `dissect_http` leaves in the text. The text of the `Host` header
starts at the first NUL and overwrites what it meets of the request line. -/
inductive HttpCopies (packet : ℕ → UInt8) (p l : ℕ) : ℕ → Prop
  | start {c : ℕ} (hc : c < textLen packet p l) : HttpCopies packet p l (p + c)
  | line {c : ℕ} (hc : c < lineLen packet p l) (noHost : ∀ x, ¬ HostAt packet p l x) :
      HttpCopies packet p l (p + c)
  | rest {c x : ℕ} (hx : HostAt packet p l x) (hc : c < lineLen packet p l)
      (behind : textLen packet p l +
        min (127 - textLen packet p l) (9 + hostLen packet (p + x + 8)) < c) :
      HttpCopies packet p l (p + c)
  | host {x j : ℕ} (hx : HostAt packet p l x) (hj : j < hostLen packet (p + x + 8))
      (fits : textLen packet p l + 8 + j < 127) : HttpCopies packet p l (p + x + 8 + j)

theorem lineLen_le (p l : ℕ) : lineLen packet p l ≤ 127 :=
  (stretch_le _ _ _).trans (Nat.min_le_right _ _)

theorem textLen_le (p l : ℕ) : textLen packet p l ≤ lineLen packet p l := stretch_le _ _ _

/-- What the copy loop takes of a line. -/
theorem val_copyLine_start (f : Fn) (p l : ℕ) :
    (copyLine packet (Site.read f) (Site.write f .out) p l 128 0).val =
      slice packet p (lineLen packet p l) := val_copyLine _ p l 128 0

theorem findMethod_isSome (p : ℕ) (l : ℤ) : ∀ ms : List (List UInt8),
    (findMethod packet p l ms).val.isSome ↔
      ∃ ml ∈ ms, (ml.length : ℤ) < l ∧ slice packet p ml.length = ml
  | [] => by simp [findMethod]
  | ml :: rest => by
    have ih := findMethod_isSome p l rest
    unfold findMethod
    by_cases hl : (ml.length : ℤ) < l
    · rw [if_pos hl, val_bind, val_loadBytes_eq_slice]
      by_cases hw : slice packet p ml.length = ml
      · simp [hw, hl]
      · rw [if_neg hw, ih]
        simp [hw]
    · rw [if_neg hl, ih]
      simp [hl]

theorem isRequest_iff {p : ℕ} {l : ℤ} (hl : 10 ≤ l) :
    IsRequest packet p l.toNat ↔ (findMethod packet p l httpMethods).val.isSome := by
  have hshort : ∀ ml ∈ httpMethods, ml.length < 10 := by decide
  rw [findMethod_isSome]
  constructor
  · rintro ⟨-, ml, hml, hw⟩
    have := hshort ml hml
    exact ⟨ml, hml, by omega, hw⟩
  · rintro ⟨ml, hml, -, hw⟩
    exact ⟨by omega, ml, hml, hw⟩

/-- The buffer behind the copy loop has the markup of the line. -/
theorem markup_writeLine {o : Vector UInt8 128} (ho : Clean o.toList) (p : ℕ) {k : ℕ} (hk : k ≤ 127)
    (i : ℕ) (hi : i < 128) :
    Markup (writeAt o 0 (slice packet p k ++ [0]))[i] ↔ i < k ∧ Markup (packet (p + i)) := by
  rw [getElem_writeAt, Nat.sub_zero, List.length_append, length_slice, List.length_singleton]
  rcases lt_trichotomy i k with hlt | rfl | hgt
  · have hin : i < (slice packet p k ++ [0]).length := by simp; omega
    rw [if_pos (by omega), List.getD_eq_getElem _ _ hin, List.getElem_append_left (by simpa using hlt),
      getElem_slice]
    exact (and_iff_right hlt).symm
  · have hin : i < (slice packet p i ++ [0]).length := by simp
    rw [if_pos (by omega), List.getD_eq_getElem _ _ hin, List.getElem_append_right (by simp)]
    simp [Markup]
  · rw [if_neg (by omega)]
    have := clean_toList.mp ho i hi
    constructor
    · exact fun h => absurd h this
    · intro h; omega

/-- The text for the `Host` header, cut after `i` bytes. -/
theorem clean_hostText {q h i : ℕ} :
    Clean ((ascii " [Host: " ++ slice packet q h ++ ascii "]").take i) ↔
      ∀ j < h, 8 + j < i → ¬ Markup (packet (q + j)) := by
  have hstart : Clean (ascii " [Host: ") := by decide
  have hend : Clean (ascii "]") := by decide
  have hlen : (ascii " [Host: ").length = 8 := by decide
  rw [List.take_append, List.take_append, clean_append, clean_append, hlen, take_slice, clean_slice]
  constructor
  · rintro ⟨⟨-, hmid⟩, -⟩ j hj hi
    exact hmid j (by omega)
  · intro hall
    exact ⟨⟨hstart.take i, fun j hj => hall j (by omega) (by omega)⟩, hend.take _⟩

theorem clean_requestLine {o : Vector UInt8 128} (ho : Clean o.toList) (p l : ℕ) :
    Clean (writeAt o 0 (slice packet p (lineLen packet p l) ++ [0])).toList ↔
      ∀ c < lineLen packet p l, ¬ Markup (packet (p + c)) := by
  have hk := @lineLen_le packet p l
  rw [clean_writeAt_start ho (by simp; omega), clean_append, clean_slice]
  exact and_iff_left (by decide)

/-- The request line with the text of the `Host` header at `x` printed behind its first NUL. -/
theorem clean_hostLine {o : Vector UInt8 128} (ho : Clean o.toList) {p l x : ℕ}
    (hx : HostAt packet p l x) :
    Clean (writeAt (writeAt o 0 (slice packet p (lineLen packet p l) ++ [0])) (textLen packet p l)
        ((ascii " [Host: " ++ slice packet (p + x + 8) (hostLen packet (p + x + 8)) ++
          ascii "]").take (127 - textLen packet p l) ++ [0])).toList ↔
      ∀ i, HttpCopies packet p l i → ¬ Markup (packet i) := by
  have hk := @lineLen_le packet p l
  have hz := @textLen_le packet p l
  have h8 : (ascii " [Host: ").length = 8 := by decide
  have h1 : (ascii "]").length = 1 := by decide
  have hlen : ((ascii " [Host: " ++ slice packet (p + x + 8) (hostLen packet (p + x + 8)) ++
      ascii "]").take (127 - textLen packet p l) ++ [0]).length =
      min (127 - textLen packet p l) (9 + hostLen packet (p + x + 8)) + 1 := by
    rw [List.length_append, List.length_take, List.length_append, List.length_append, length_slice,
      h8, h1, List.length_singleton]
    omega
  rw [clean_writeAt_iff (by omega), clean_append, clean_hostText, hlen]
  constructor
  · rintro ⟨⟨hhost, -⟩, hline⟩ i hi
    cases hi with
    | start hc =>
      intro hm
      exact hline _ (by omega) (Or.inl hc) ((markup_writeLine ho p hk _ (by omega)).mpr ⟨by omega, hm⟩)
    | line hc noHost => exact absurd hx (noHost x)
    | rest hx' hc behind =>
      obtain rfl := hx.unique hx'
      intro hm
      exact hline _ (by omega) (Or.inr (by omega))
        ((markup_writeLine ho p hk _ (by omega)).mpr ⟨hc, hm⟩)
    | host hx' hj fits =>
      obtain rfl := hx.unique hx'
      exact hhost _ hj (by omega)
  · intro hall
    refine ⟨⟨fun j hj hfit => hall _ (.host hx hj (by omega)), by decide⟩, fun i hi hout hm => ?_⟩
    obtain ⟨hik, hm⟩ := (markup_writeLine ho p hk i hi).mp hm
    rcases hout with hlt | hge
    · exact hall _ (.start hlt) hm
    · exact hall _ (.rest hx hik (by omega)) hm

/-- **HTTP.** The text has no markup byte if and only if none of the copied bytes is one. -/
theorem dissectHttp_clean_iff {o : Vector UInt8 128} (ho : Clean o.toList) (p : ℕ) (l : ℤ) :
    Clean (dissectHttp packet p l o 128).val.toList ↔
      (IsRequest packet p l.toNat → ∀ i, HttpCopies packet p l.toNat i → ¬ Markup (packet i)) := by
  unfold dissectHttp
  by_cases hl : l < 10
  · have hno : ¬ IsRequest packet p l.toNat := fun h => by have := h.1; omega
    rw [if_pos hl]
    exact ⟨fun _ h => absurd h hno, fun _ => ho⟩
  rw [if_neg hl, isRequest_iff (by omega), val_bind]
  cases hm : (findMethod packet p l httpMethods).val with
  | none => exact ⟨fun _ h => absurd h (by decide), fun _ => ho⟩
  | some ml =>
    have hz := @textLen_le packet p l.toNat
    have hk := @lineLen_le packet p l.toNat
    have htext : (cString (writeAt o 0 (slice packet p (lineLen packet p l.toNat) ++ [0]))).length =
        textLen packet p l.toNat := length_cString_slice o (by omega)
    simp only [val_bind, val_copyLine_start, Option.isSome_some, true_implies]
    unfold memmem
    rcases memmemLoop_spec (s := Site.read .dissectHttp) p l.toNat (ascii "\r\nHost: ") 0 with
      ⟨x, hval, hx⟩ | ⟨hval, hno⟩
    · rw [hval]
      simp only [val_bind, val_loadStr, htext]
      unfold snprintf
      rw [if_neg (by omega), val_bind, val_pure,
        show 128 - textLen packet p l.toNat - 1 = 127 - textLen packet p l.toNat by omega]
      exact clean_hostLine ho hx
    · rw [hval, val_pure, clean_requestLine ho]
      constructor
      · intro h i hi
        cases hi with
        | start hc => exact h _ (by omega)
        | line hc _ => exact h _ hc
        | rest hx _ _ => exact absurd hx (hno _)
        | host hx _ _ => exact absurd hx (hno _)
      · exact fun h c hc => h _ (.line hc hno)

/-! ### SSH -/

/-- The data start with a banner that `dissect_app_common` recognises. -/
def IsBanner (packet : ℕ → UInt8) (p l : ℕ) : Prop := 7 < l ∧ slice packet p 4 = ascii "SSH-"

/-- The indices of the bytes that `dissect_app_common` copies. -/
def BannerCopies (packet : ℕ → UInt8) (p l i : ℕ) : Prop := ∃ c < lineLen packet p l, i = p + c

/-- **SSH.** The text has no markup byte if and only if none of the copied bytes is one. -/
theorem dissectAppCommon_clean_iff {o : Vector UInt8 128} (ho : Clean o.toList) (p : ℕ) (l : ℤ) :
    Clean (dissectAppCommon packet p l o 128).val.toList ↔
      (IsBanner packet p l.toNat → ∀ i, BannerCopies packet p l.toNat i → ¬ Markup (packet i)) := by
  unfold dissectAppCommon
  by_cases hl : l < 4
  · have hno : ¬ IsBanner packet p l.toNat := fun h => by have := h.1; omega
    rw [if_pos hl]
    exact ⟨fun _ h => absurd h hno, fun _ => ho⟩
  rw [if_neg hl, val_bind]
  generalize hhead : (if 4 < l then loadBytes packet (Site.read .dissectAppCommon) p 4
    else pure []).val = head
  by_cases hb : 7 < l ∧ head = ascii "SSH-"
  · have hbanner : IsBanner packet p l.toNat := by
      refine ⟨by omega, ?_⟩
      rw [if_pos (by omega), val_loadBytes_eq_slice] at hhead
      exact hhead.trans hb.2
    rw [if_pos hb, val_bind, val_bind, val_copyLine_start, val_pure, clean_requestLine ho]
    constructor
    · rintro h - i ⟨c, hc, rfl⟩
      exact h c hc
    · exact fun h c hc => h hbanner _ ⟨c, hc, rfl⟩
  · have hno : ¬ IsBanner packet p l.toNat := by
      rintro ⟨hlen, hw⟩
      rw [if_pos (by omega), val_loadBytes_eq_slice] at hhead
      exact hb ⟨by omega, hhead.symm.trans hw⟩
    rw [if_neg hb]
    refine ⟨fun _ h => absurd h hno, fun _ => ?_⟩
    have hsay : ∀ {t : String}, Clean (ascii t) →
        Ensures (fun r => Clean r.toList) (say .dissectAppCommon o 128 (some (ascii t))) :=
      fun ht => clean_say_ascii _ ho 128 ht
    exact Ensures.ite (Q := fun r : Vector UInt8 128 => Clean r.toList) (hsay (by decide))
      (.ite (hsay (by decide)) (.step fun b0 => .step fun b1 =>
        .ite (hsay (by decide)) (.ite (hsay (by decide)) (.pure ho))))

/-! ### DNS -/

/-- The loop of `dissect_dns` takes a label at `pos` of the `len` bytes behind the header at `p`, with
`out` bytes of the text written. -/
def IsLabel (packet : ℕ → UInt8) (p len pos out : ℕ) : Prop :=
  pos < len ∧ out < 63 ∧ ¬ (packet (p + 12 + pos) = 0 ∨ 63 < packet (p + 12 + pos))

/-- The number of bytes that are copied of that label. -/
def labelLen (packet : ℕ → UInt8) (p len pos out : ℕ) : ℕ :=
  min (packet (p + 12 + pos)).toNat (min (len - (pos + 1)) (63 - out))

/-- The indices of the bytes that `dissect_dns` copies from `pos` on, with `out` bytes of the text
written. -/
inductive DnsCopies (packet : ℕ → UInt8) (p len : ℕ) : ℕ → ℕ → ℕ → Prop
  | here {pos out j : ℕ} (h : IsLabel packet p len pos out) (hj : j < labelLen packet p len pos out) :
      DnsCopies packet p len pos out (p + 12 + (pos + 1) + j)
  | later {pos out i : ℕ} (h : IsLabel packet p len pos out)
      (hi : DnsCopies packet p len (pos + 1 + labelLen packet p len pos out)
        (min 63 (out + labelLen packet p len pos out + 1)) i) : DnsCopies packet p len pos out i

theorem val_dnsLabel (p len m : ℕ) : ∀ (k pos : ℕ) (text : List UInt8),
    (dnsLabel packet p len m k pos text).val =
      (pos + min k (min (len - pos) (m - 1 - text.length)),
        text ++ slice packet (p + 12 + pos) (min k (min (len - pos) (m - 1 - text.length))))
  | 0, pos, text => by simp [dnsLabel, slice]
  | k + 1, pos, text => by
    unfold dnsLabel
    by_cases hc : pos < len ∧ text.length < m - 1
    · have hn : min (k + 1) (min (len - pos) (m - 1 - text.length)) =
          min k (min (len - (pos + 1)) (m - 1 - (text.length + 1))) + 1 := by omega
      rw [if_pos hc, val_bind, val_bind, val_load8, val_dnsLabel p len m k (pos + 1), hn, slice_succ,
        List.length_append, List.length_singleton, List.append_assoc, List.singleton_append]
      refine Prod.ext ?_ ?_ <;> dsimp only
      · omega
      · rw [show p + 12 + (pos + 1) = p + 12 + pos + 1 by omega]
    · have hn : min (k + 1) (min (len - pos) (m - 1 - text.length)) = 0 := by omega
      rw [if_neg hc, hn]
      simp [slice]

theorem dnsCopies_iff {p len pos out i : ℕ} (h : IsLabel packet p len pos out) :
    DnsCopies packet p len pos out i ↔
      (∃ j < labelLen packet p len pos out, i = p + 12 + (pos + 1) + j) ∨
        DnsCopies packet p len (pos + 1 + labelLen packet p len pos out)
          (min 63 (out + labelLen packet p len pos out + 1)) i := by
  constructor
  · intro hi
    cases hi with
    | here _ hj => exact Or.inl ⟨_, hj, rfl⟩
    | later _ hi => exact Or.inr hi
  · rintro (⟨j, hj, rfl⟩ | hi)
    · exact .here h hj
    · exact .later h hi

/-- The outer loop stops where there is no label. -/
theorem val_dnsLoop_end {p len pos : ℕ} {text : List UInt8}
    (h : ¬ IsLabel packet p len pos text.length) : (dnsLoop packet p len 64 pos text).val = text := by
  unfold dnsLoop
  by_cases hc : pos < len ∧ text.length < 64 - 1
  · have hb : packet (p + 12 + pos) = 0 ∨ 63 < packet (p + 12 + pos) := by
      by_contra hb
      exact h ⟨hc.1, hc.2, hb⟩
    rw [dif_pos hc, val_bind, val_load8, if_pos hb]
    rfl
  · rw [dif_neg hc]
    rfl

/-- The text with the label at `pos` added: its bytes, and a dot if there is room for one. -/
def addLabel (packet : ℕ → UInt8) (p len pos : ℕ) (text : List UInt8) : List UInt8 :=
  let s := slice packet (p + 12 + (pos + 1)) (labelLen packet p len pos text.length)
  if text.length + labelLen packet p len pos text.length < 63 then text ++ s ++ ascii "."
  else text ++ s

/-- The step of the outer loop over a label. -/
theorem val_dnsLoop_label {p len pos : ℕ} {text : List UInt8}
    (h : IsLabel packet p len pos text.length) : (dnsLoop packet p len 64 pos text).val =
      (dnsLoop packet p len 64 (pos + 1 + labelLen packet p len pos text.length)
        (addLabel packet p len pos text)).val := by
  have hr := @val_dnsLabel packet p len 64 (packet (p + 12 + pos)).toNat (pos + 1) text
  change _ = (pos + 1 + labelLen packet p len pos text.length,
    text ++ slice packet (p + 12 + (pos + 1)) (labelLen packet p len pos text.length)) at hr
  conv_lhs => unfold dnsLoop
  rw [dif_pos ⟨h.1, h.2.1⟩, val_bind, val_load8, if_neg h.2.2, val_bind, val_attach]
  dsimp only
  rw [hr]
  dsimp only
  unfold addLabel
  rw [List.length_append, length_slice]
  split_ifs <;> rfl

theorem length_addLabel {p len pos : ℕ} {text : List UInt8} (ht : text.length ≤ 63) :
    (addLabel packet p len pos text).length =
      min 63 (text.length + labelLen packet p len pos text.length + 1) := by
  have hcnt : labelLen packet p len pos text.length ≤ 63 - text.length :=
    (Nat.min_le_right _ _).trans (Nat.min_le_right _ _)
  have hlen1 : (ascii ".").length = 1 := by decide
  unfold addLabel
  split_ifs with hroom
  · rw [List.length_append, List.length_append, length_slice, hlen1]
    omega
  · rw [List.length_append, length_slice]
    omega

theorem clean_addLabel {p len pos : ℕ} {text : List UInt8} :
    Clean (addLabel packet p len pos text) ↔ Clean text ∧
      Clean (slice packet (p + 12 + (pos + 1)) (labelLen packet p len pos text.length)) := by
  have hdot : Clean (ascii ".") := by decide
  unfold addLabel
  split_ifs
  · rw [clean_append, and_iff_left hdot, clean_append]
  · rw [clean_append]

/-- The outer loop: it stays inside the buffer, and adds the copied bytes and dots. -/
theorem dnsLoop_clean_iff (p len pos : ℕ) (text : List UInt8) (ht : text.length ≤ 63) :
    (dnsLoop packet p len 64 pos text).val.length ≤ 63 ∧
      (Clean (dnsLoop packet p len 64 pos text).val ↔
        Clean text ∧ ∀ i, DnsCopies packet p len pos text.length i → ¬ Markup (packet i)) := by
  by_cases hlabel : IsLabel packet p len pos text.length
  swap
  · rw [val_dnsLoop_end hlabel]
    refine ⟨ht, (and_iff_left fun i hi => ?_).symm⟩
    cases hi with
    | here h _ => exact absurd h hlabel
    | later h _ => exact absurd h hlabel
  have hlt : pos < len := hlabel.1
  have hout := @length_addLabel packet p len pos text ht
  have hcopied : (∀ i, DnsCopies packet p len pos text.length i → ¬ Markup (packet i)) ↔
      Clean (slice packet (p + 12 + (pos + 1)) (labelLen packet p len pos text.length)) ∧ ∀ i,
        DnsCopies packet p len (pos + 1 + labelLen packet p len pos text.length)
          (min 63 (text.length + labelLen packet p len pos text.length + 1)) i →
          ¬ Markup (packet i) := by
    simp only [dnsCopies_iff hlabel, clean_slice]
    constructor
    · exact fun h => ⟨fun j hj => h _ (Or.inl ⟨j, hj, rfl⟩), fun i hi => h i (Or.inr hi)⟩
    · rintro ⟨h1, h2⟩ i (⟨j, hj, rfl⟩ | hi)
      · exact h1 j hj
      · exact h2 i hi
  have ih := dnsLoop_clean_iff p len (pos + 1 + labelLen packet p len pos text.length)
    (addLabel packet p len pos text) (by omega)
  rw [hout, clean_addLabel, and_assoc, ← hcopied] at ih
  rw [val_dnsLoop_label hlabel]
  exact ih
termination_by len - pos

/-- **DNS.** The text has no markup byte if and only if none of the copied bytes is one. -/
theorem dissectDns_clean_iff {out : Vector UInt8 64} (hout : Clean out.toList) (p : ℕ) (len : ℤ) :
    Clean (dissectDns packet p len out 64).val.toList ↔
      ∀ i, DnsCopies packet p (len - 12).toNat 0 0 i → ¬ Markup (packet i) := by
  unfold dissectDns
  by_cases hlen : len < 12
  · rw [if_pos hlen]
    refine ⟨fun _ i hi => ?_, fun _ => hout⟩
    cases hi with
    | here h _ => have := h.1; omega
    | later h _ => have := h.1; omega
  obtain ⟨hfit, hclean⟩ := @dnsLoop_clean_iff packet p (len - 12).toNat 0 [] (by simp)
  rw [if_neg hlen, val_bind]
  generalize (dnsLoop packet p (len - 12).toNat 64 0 []).val = text at hfit hclean ⊢
  rw [and_iff_right clean_nil, List.length_nil] at hclean
  rw [← hclean, ← clean_writeAt_start hout (show text.length ≤ 64 by omega)]
  by_cases htext : 0 < text.length
  swap
  · rw [if_neg htext, val_pure]
  rw [if_pos htext, val_bind, val_pure]
  -- the NUL goes behind the text, or in the place of a dot
  have hnul : ∀ h : text.length - (if text.getLast? = some 46 then 1 else 0) < 64,
      ¬ Markup (writeAt out 0 text)[text.length - if text.getLast? = some 46 then 1 else 0] := by
    intro h
    rw [getElem_writeAt]
    split_ifs with hdot hin hin
    · have hne : text ≠ [] := List.ne_nil_of_length_pos htext
      have hlast : text.getD (text.length - 1 - 0) 0 = 46 := by
        rw [List.getLast?_eq_some_getLast hne, Option.some.injEq] at hdot
        rw [Nat.sub_zero, List.getD_eq_getElem _ _ (by omega), ← hdot, List.getLast_eq_getElem]
      rw [hlast]
      decide
    · omega
    · omega
    · exact clean_toList.mp hout (text.length - 0) (by omega)
  rw [clean_writeAt_iff (by simp only [List.length_singleton]; split_ifs <;> omega),
    and_iff_right (by decide), clean_toList]
  constructor
  · intro h k hk
    by_cases hki : k = text.length - if text.getLast? = some 46 then 1 else 0
    · subst hki
      exact hnul hk
    · exact h k hk (by simp only [List.length_singleton]; omega)
  · exact fun h k hk _ => h k hk

end Pacsni.Capture.Copied
