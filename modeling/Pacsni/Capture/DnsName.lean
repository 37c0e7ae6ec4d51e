import Pacsni.Capture.Copied
import Pacsni.Capture.Memory
import Pacsni.Lib.Region

/-! # The name of a DNS question

`dissect_dns` copies the labels of the first question with a dot behind each as far as there is room,
and overwrites a dot at the end with the NUL. A `QueryName` is a name as it is encoded; what is
written for it are its labels with dots between them (`dissectDns_name`). -/

namespace Pacsni.Capture.DnsName

open Pacsni.Lib.Bytes Pacsni.Lib.Trace Pacsni.Lib.CBuffer Pacsni.Lib.Region
open Pacsni.Capture.Types Pacsni.Capture.Dissectors Pacsni.Capture.Memory Pacsni.Capture.Copied

variable {n p : ℕ} {packet : ℕ → UInt8}

/-! ### The bytes that are touched -/

theorem confined_dnsLabel (len m : ℕ) : ∀ (k pos : ℕ) (text : List UInt8),
    Confined p (12 + len) (fun _ => m) (dnsLabel packet p len m k pos text).log
  | 0, _, _ => .pure
  | k + 1, pos, text => by
    unfold dnsLabel
    refine .ite (fun h => ?_) fun _ => .pure
    refine .bind (confined_load8 (by omega) (by omega)) ?_
    refine .bind (confined_touch (by omega)) ?_
    exact confined_dnsLabel len m k (pos + 1) _

theorem confined_dnsLoop (len m pos : ℕ) (text : List UInt8) :
    Confined p (12 + len) (fun _ => m) (dnsLoop packet p len m pos text).log := by
  unfold dnsLoop
  split_ifs with h
  · refine .bind (confined_load8 (by omega) (by omega)) ?_
    refine .ite (fun _ => .pure) fun _ => ?_
    refine .bind (confined_dnsLabel len m _ _ _) ?_
    have hle := le_dnsLabel packet p len m (packet (p + 12 + pos)).toNat (pos + 1) text
    refine .ite (fun hroom => ?_) fun _ => ?_
    · exact .bind (confined_touch (by omega)) (confined_dnsLoop len m _ _)
    · exact confined_dnsLoop len m _ _
  · exact .pure
termination_by len - pos

/-- The text of the loop leaves room for the NUL. -/
theorem length_dnsLoop (len m pos : ℕ) (text : List UInt8) (ht : text.length ≤ m - 1) :
    (dnsLoop packet p len m pos text).val.length ≤ m - 1 := by
  unfold dnsLoop
  split_ifs with h
  · rw [val_bind, val_load8]
    split_ifs
    · exact ht
    · have hr := @val_dnsLabel packet p len m (packet (p + 12 + pos)).toNat (pos + 1) text
      have hle := le_dnsLabel packet p len m (packet (p + 12 + pos)).toNat (pos + 1) text
      have hlen : (dnsLabel packet p len m (packet (p + 12 + pos)).toNat (pos + 1) text).val.2.length ≤
          m - 1 := by
        rw [hr, List.length_append, length_slice]
        omega
      rw [val_bind, val_attach]
      dsimp only
      split_ifs with hroom
      · refine length_dnsLoop len m _ _ ?_
        rw [List.length_append]
        exact hroom
      · exact length_dnsLoop len m _ _ hlen
  · exact ht
termination_by len - pos

theorem dissectDns_confined (len : ℤ) (out : Vector UInt8 n) (outMax : ℕ) :
    Confined p len.toNat (fun _ => outMax) (dissectDns packet p len out outMax).log := by
  unfold dissectDns
  refine .ite (fun _ => .pure) fun hlen => ?_
  have hloop := @confined_dnsLoop p packet (len - 12).toNat outMax 0 []
  have htext := @length_dnsLoop p packet (len - 12).toNat outMax 0 [] (Nat.zero_le _)
  rw [show 12 + (len - 12).toNat = len.toNat by omega] at hloop
  refine .bind hloop (.ite (fun hpos => ?_) fun _ => .pure)
  exact .bind (confined_touch (by omega)) .pure

/-! ### Names -/

/-- A label of a domain name. -/
structure Label where
  bytes : List UInt8
  nonempty : 1 ≤ bytes.length
  short : bytes.length ≤ 63
  undotted : 46 ∉ bytes

/-- The label with its length before it. -/
def Label.wire (l : Label) : List UInt8 := UInt8.ofNat l.bytes.length :: l.bytes

/-- The name of a question. -/
structure QueryName where
  labels : List Label
  nonempty : labels ≠ []

namespace QueryName

variable (q : QueryName)

/-- The name in the message: the labels, and a zero byte. -/
def wire : List UInt8 := q.labels.flatMap Label.wire ++ [0]

/-- The labels with dots between them. -/
def joined : List UInt8 := List.intercalate [46] (q.labels.map Label.bytes)

end QueryName

/-- The text without a dot at its end. -/
def dropDot (text : List UInt8) : List UInt8 :=
  if text.getLast? = some 46 then text.dropLast else text

/-- What there is room for in `k` bytes of the labels with dots between them. -/
def QueryName.shown (q : QueryName) (k : ℕ) : List UInt8 :=
  if q.joined.length ≤ k then q.joined else dropDot (q.joined.take k)

/-- The labels with a dot behind each, as the loop copies them. -/
def dotted (ls : List Label) : List UInt8 := ls.flatMap fun l => l.bytes ++ [46]

theorem dotted_eq_joined : ∀ (l : Label) (ls : List Label),
    dotted (l :: ls) = List.intercalate [46] ((l :: ls).map Label.bytes) ++ [46]
  | l, [] => by simp [dotted, List.intercalate]
  | l, l' :: ls => by
    have ih := dotted_eq_joined l' ls
    unfold dotted at ih ⊢
    rw [List.flatMap_cons, ih]
    simp [List.intercalate]

theorem getLast_joined : ∀ (l : Label) (ls : List Label),
    ∃ b, (List.intercalate [46] ((l :: ls).map Label.bytes)).getLast? = some b ∧ b ≠ 46
  | l, [] => by
    have hne : l.bytes ≠ [] := List.ne_nil_of_length_pos l.nonempty
    refine ⟨l.bytes.getLast hne, ?_, fun h => l.undotted (h ▸ List.getLast_mem hne)⟩
    simp [List.intercalate, List.getLast?_eq_some_getLast hne]
  | l, l' :: ls => by
    obtain ⟨b, hb, hdot⟩ := getLast_joined l' ls
    refine ⟨b, ?_, hdot⟩
    have hsplit : List.intercalate [46] ((l :: l' :: ls).map Label.bytes) =
        l.bytes ++ [46] ++ List.intercalate [46] ((l' :: ls).map Label.bytes) := by
      simp [List.intercalate]
    rw [hsplit, List.getLast?_append, hb]
    rfl

/-- Cutting the dotted labels and dropping a dot at the end gives the name that is shown. -/
theorem dropDot_dotted (q : QueryName) (k : ℕ) : dropDot ((dotted q.labels).take k) = q.shown k := by
  obtain ⟨labels, hne⟩ := q
  obtain ⟨l, ls, rfl⟩ := List.exists_cons_of_ne_nil hne
  have hdotted := dotted_eq_joined l ls
  obtain ⟨b, hb, hdot⟩ := getLast_joined l ls
  unfold QueryName.shown QueryName.joined
  dsimp only
  rw [hdotted]
  generalize List.intercalate [46] ((l :: ls).map Label.bytes) = joined at hb
  split_ifs with hk
  · rcases hk.lt_or_eq with hlt | heq
    · -- there is room for the last dot, and it is dropped
      rw [List.take_of_length_le (by rw [List.length_append, List.length_singleton]; omega)]
      simp [dropDot]
    · rw [← heq, List.take_left]
      unfold dropDot
      rw [hb, if_neg fun h => hdot (Option.some_injective _ h)]
  · rw [List.take_append_of_le_length (by omega)]

/-! ### The loop over a name -/

theorem val_dnsLoop_full {len m pos : ℕ} {text : List UInt8} (h : m - 1 ≤ text.length) :
    (dnsLoop packet p len m pos text).val = text := by
  unfold dnsLoop
  rw [dif_neg (by omega)]
  rfl

/-- One label: it is copied with its dot, or the text is full. -/
theorem val_dnsLoop_wire {len m pos : ℕ} {text : List UInt8} {l : Label}
    (hb : Holds packet (p + 12 + pos) l.wire) (hlen : pos + l.wire.length ≤ len)
    (hroom : text.length < m - 1) :
    (dnsLoop packet p len m pos text).val =
      if text.length + l.bytes.length < m - 1 then
        (dnsLoop packet p len m (pos + l.wire.length) (text ++ l.bytes ++ [46])).val
      else (text ++ l.bytes).take (m - 1) := by
  obtain ⟨hbyte, hdata⟩ := holds_cons.mp hb
  have hshort := l.short
  have hpos := l.nonempty
  have hwire : l.wire.length = l.bytes.length + 1 := rfl
  have hnat : (packet (p + 12 + pos)).toNat = l.bytes.length := by
    rw [hbyte, UInt8.toNat_ofNat']
    omega
  have hlabel : ¬ (packet (p + 12 + pos) = 0 ∨ 63 < packet (p + 12 + pos)) := by
    rw [← UInt8.toNat_inj, UInt8.lt_iff_toNat_lt, hnat]
    change ¬ (l.bytes.length = 0 ∨ 63 < l.bytes.length)
    omega
  have hr := @val_dnsLabel packet p len m l.bytes.length (pos + 1) text
  have hcount : min l.bytes.length (min (len - (pos + 1)) (m - 1 - text.length)) =
      min (m - 1 - text.length) l.bytes.length := by omega
  have hcopy : slice packet (p + 12 + (pos + 1)) l.bytes.length = l.bytes := hdata.map_range
  rw [hcount, ← take_slice, hcopy] at hr
  conv_lhs => unfold dnsLoop
  rw [dif_pos ⟨by omega, hroom⟩, val_bind, val_load8, if_neg hlabel, val_bind, val_attach]
  dsimp only
  rw [hnat, hr]
  dsimp only
  rw [List.length_append, List.length_take]
  by_cases hfits : text.length + l.bytes.length < m - 1
  · rw [if_pos hfits, if_pos (by omega), val_bind, List.take_of_length_le (by omega),
      min_eq_right (by omega), hwire, Nat.add_assoc pos 1, Nat.add_comm 1]
    rfl
  · rw [if_neg hfits, if_neg (by omega), val_dnsLoop_full ?_, List.take_append]
    · rw [List.take_of_length_le hroom.le]
    · rw [List.length_append, List.length_take]
      omega

/-- The loop over the labels of a name copies them with dots, as far as there is room. -/
theorem val_dnsLoop_labels {len m : ℕ} : ∀ (ls : List Label) (pos : ℕ) (text : List UInt8),
    Holds packet (p + 12 + pos) (ls.flatMap Label.wire ++ [0]) →
    pos + (ls.flatMap Label.wire).length < len → text.length ≤ m - 1 →
    (dnsLoop packet p len m pos text).val = (text ++ dotted ls).take (m - 1)
  | ls, pos, text, hb, hlen, htext => by
    by_cases hfull : m - 1 ≤ text.length
    · rw [val_dnsLoop_full hfull, List.take_append_of_le_length (by omega),
        List.take_of_length_le htext]
    cases ls with
    | nil =>
      have hzero : packet (p + 12 + pos) = 0 := (holds_cons.mp hb).1
      rw [dotted, List.flatMap_nil, List.append_nil, List.take_of_length_le htext]
      unfold dnsLoop
      rw [dif_pos ⟨by omega, by omega⟩, val_bind, val_load8, if_pos (Or.inl hzero)]
      rfl
    | cons l ls =>
      rw [List.flatMap_cons, List.append_assoc] at hb
      rw [List.flatMap_cons, List.length_append] at hlen
      obtain ⟨hl, hls⟩ := holds_append.mp hb
      have hdotted : text ++ dotted (l :: ls) = text ++ l.bytes ++ [46] ++ dotted ls := by
        simp [dotted]
      rw [val_dnsLoop_wire hl (by omega) (by omega), hdotted]
      split_ifs with hfits
      · rw [Nat.add_assoc] at hls
        refine val_dnsLoop_labels ls _ _ hls (by omega) ?_
        rw [List.length_append, List.length_append]
        exact hfits
      · rw [List.append_assoc (text ++ l.bytes)]
        refine (List.take_append_of_le_length ?_).symm
        rw [List.length_append]
        omega

/-! ### The text of a question -/

/-- The NUL goes over a dot at the end of the text, or behind it. -/
theorem writeAt_dropDot (out : Vector UInt8 n) (text : List UInt8) :
    writeAt (writeAt out 0 text) (text.length - if text.getLast? = some 46 then 1 else 0) [0] =
      writeAt out 0 (dropDot text ++ [0]) := by
  unfold dropDot
  split_ifs with hdot
  · obtain ⟨xs, rfl⟩ : ∃ xs, text = xs ++ [46] := by
      rw [List.getLast?_eq_some_iff] at hdot
      exact hdot
    have hlen : (xs ++ [(46 : UInt8)]).length - 1 = xs.length := by simp
    rw [hlen, List.dropLast_concat]
    exact writeAt_writeAt out le_rfl
  · have h := @writeAt_writeAt n out text [] [0] (Nat.zero_le 1)
    rwa [List.append_nil] at h

/-- **The name of a question.** `dissect_dns` reads inside its payload and writes inside its buffer.
For a name that is encoded behind the header it writes the labels with dots between them, or as much
of that as there is room for without a dot at the end, and a NUL. -/
theorem dissectDns_name (packet : ℕ → UInt8) (p : ℕ) (len : ℤ) (out : Vector UInt8 n) {outMax : ℕ}
    (hmax : 2 ≤ outMax) :
    Confined p len.toNat (fun _ => outMax) (dissectDns packet p len out outMax).log ∧
    ∀ q : QueryName, Holds packet (p + 12) q.wire → 12 + q.wire.length ≤ len →
      (dissectDns packet p len out outMax).val =
        writeAt out 0 (q.shown (outMax - 1) ++ [0]) := by
  refine ⟨dissectDns_confined len out outMax, fun q hb hlen => ?_⟩
  have hwire : q.wire.length = (q.labels.flatMap Label.wire).length + 1 := by
    rw [QueryName.wire, List.length_append, List.length_singleton]
  have htext := @val_dnsLoop_labels p packet (len - 12).toNat outMax q.labels 0 [] hb (by omega)
    (Nat.zero_le _)
  rw [List.nil_append] at htext
  have hpos : 0 < ((dotted q.labels).take (outMax - 1)).length := by
    obtain ⟨l, ls, hl⟩ := List.exists_cons_of_ne_nil q.nonempty
    rw [hl, dotted_eq_joined, List.length_take, List.length_append, List.length_singleton]
    omega
  unfold dissectDns
  rw [if_neg (by omega), val_bind, htext, if_pos hpos, val_bind, val_pure, writeAt_dropDot,
    dropDot_dotted]

/-- The name `a.bc`. -/
def shortName : QueryName where
  labels := [⟨[97], by decide, by decide, by decide⟩, ⟨[98, 99], by decide, by decide, by decide⟩]
  nonempty := by decide

/-- A query for that name, without the type and class. -/
def shortQuery (i : ℕ) : UInt8 := (List.replicate 12 0 ++ shortName.wire).getD i 0

/-- With a buffer of three bytes the dot at the end is dropped. -/
theorem shortQuery_name : Holds shortQuery (0 + 12) shortName.wire ∧
    (dissectDns shortQuery 0 18 (zeros 64) 64).val = writeAt (zeros 64) 0 (ascii "a.bc" ++ [0]) ∧
    (dissectDns shortQuery 0 18 (zeros 3) 3).val = writeAt (zeros 3) 0 (ascii "a" ++ [0]) := by
  have hb : Holds shortQuery (0 + 12) shortName.wire := by
    intro j hj
    have hj : j < 6 := hj
    interval_cases j <;> rfl
  refine ⟨hb, ?_, ?_⟩
  · exact (dissectDns_name shortQuery 0 18 (zeros 64) (by decide)).2 shortName hb (by decide)
  · exact (dissectDns_name shortQuery 0 18 (zeros 3) (by decide)).2 shortName hb (by decide)

end Pacsni.Capture.DnsName
