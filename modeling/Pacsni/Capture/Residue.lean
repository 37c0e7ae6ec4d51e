import Pacsni.Lib.Padding
import Pacsni.Capture.Copied

/-! # What the dissectors leave behind their texts

A text field of the record is a C string, and the bytes behind its NUL are nobody's concern in the
capture process. They are not always NULs: a text can be written over a longer one, and bytes that are
copied from the frame can be NULs themselves. For each dissector that writes a text: whether the field
is padded behind it, in terms of the bytes of the frame.

`extra_info` is empty before an application dissector runs, or holds the words of
`check_tcp_anomalies` (`opening`); every other field is empty. -/

namespace Pacsni.Capture.Residue

open Pacsni.Lib.Bytes Pacsni.Lib.Trace Pacsni.Lib.CBuffer Pacsni.Lib.Text Pacsni.Lib.Padding
open Pacsni.Capture.Types Pacsni.Capture.Dissectors Pacsni.Capture.Copied

variable {n : ℕ} {packet : ℕ → UInt8}

/-! ### Fixed texts -/

theorem eq_zero_of_mem_zeros : ∀ b ∈ (zeros n).toList, b = 0 := by
  intro b hb
  rw [zeros, Vector.toList_replicate, List.mem_replicate] at hb
  exact hb.2

theorem padded_zeros : Padded (zeros n).toList := padded_of_forall eq_zero_of_mem_zeros

theorem ne_zero_of_mem_digits {c : Char} (hc : c ∈ digits) : UInt8.ofNat c.toNat ≠ 0 := by
  have hall : 0 ∉ digits.map fun c => UInt8.ofNat c.toNat := by decide
  exact fun h0 => hall (h0 ▸ List.mem_map_of_mem hc)

theorem nul_notMem_decimal (k : ℕ) : 0 ∉ decimal k := by
  intro hmem
  obtain ⟨c, hc, h0⟩ := List.mem_map.mp hmem
  exact ne_zero_of_mem_digits (mem_digits_of_mem_toDigits (by decide) k hc) h0

theorem nul_notMem_hex4 (x : UInt16) : 0 ∉ hex4 x := by
  intro hmem
  obtain ⟨c, hc, h0⟩ := List.mem_map.mp hmem
  rcases List.mem_append.mp hc with hc | hc
  · rw [(List.mem_replicate.mp hc).2] at h0
    exact absurd h0 (by decide)
  · exact ne_zero_of_mem_digits (mem_digits_of_mem_toDigits (by decide) _ hc) h0

theorem nul_notMem_append {bs cs : List UInt8} (hbs : 0 ∉ bs) (hcs : 0 ∉ cs) :
    (0 : UInt8) ∉ bs ++ cs := fun hmem => (List.mem_append.mp hmem).elim hbs hcs

/-- A text without NULs that is said to an empty buffer. -/
theorem padded_say (f : Fn) : ∀ t : Option (List UInt8), (∀ text, t = some text → 0 ∉ text) →
    Ensures (fun r => Padded r.toList) (say f (zeros 128) 128 t)
  | none, _ => .pure padded_zeros
  | some text, ht => padded_snprintf _ eq_zero_of_mem_zeros (Nat.le_refl _) (ht text rfl)

theorem padded_say_ascii (f : Fn) {t : String} (ht : 0 ∉ ascii t) :
    Ensures (fun r => Padded r.toList) (say f (zeros 128) 128 (some (ascii t))) :=
  padded_say f _ fun _ h => Option.some.inj h ▸ ht

theorem padded_dissectOspf (p : ℕ) (l : ℤ) :
    Ensures (fun r => Padded r.toList) (dissectOspf packet p l (zeros 128) 128) := by
  unfold dissectOspf
  refine .ite (.pure padded_zeros) (.step fun type => ?_)
  by_cases htype : 0 < type ∧ type < 6
  · rw [if_pos htype]
    refine .step fun v => padded_say _ _ fun text htext => ?_
    obtain rfl := Option.some.inj htext
    have h6 : type.toNat < 6 := htype.2
    have hall : ∀ k < 6, 0 ∉ ascii (" " ++
        ["?", "Hello", "DbDesc", "LSReq", "LSUpdate", "LSAck"].getD k "") := by decide
    exact nul_notMem_append (nul_notMem_append (by decide) (nul_notMem_decimal _)) (hall _ h6)
  · rw [if_neg htype]
    exact .pure padded_zeros

theorem padded_dissectGre (p : ℕ) (l : ℤ) :
    Ensures (fun r => Padded r.toList) (dissectGre packet p l (zeros 128) 128) := by
  unfold dissectGre
  refine .ite (.pure padded_zeros) (.step fun inner => padded_say _ _ fun text htext => ?_)
  obtain rfl := Option.some.inj htext
  exact nul_notMem_append (nul_notMem_append (by decide) (nul_notMem_hex4 _)) (by decide)

theorem padded_dissectStp (p : ℕ) (l : ℤ) :
    Ensures (fun r => Padded r.toList) (dissectStp packet p l (zeros 128) 128) := by
  unfold dissectStp
  refine .ite (.pure padded_zeros) (.step fun type => padded_say_ascii _ ?_)
  split_ifs <;> decide

theorem padded_dissectIgmp (p : ℕ) (l : ℤ) {info : PacketInfo} (h : info.extraInfo = zeros 128) :
    Ensures (fun r => Padded r.extraInfo.toList) (dissectIgmp packet p l info) := by
  have htext : ∀ type, 0 ∉ ascii ("IGMP " ++ igmpText type ++ " Group ") := by
    intro type
    unfold igmpText
    split_ifs <;> decide
  have hdot : 0 ∉ ascii "." := by decide
  unfold dissectIgmp
  rw [h]
  refine .ite (.pure (by rw [h]; exact padded_zeros)) (.step fun type => .step fun group => ?_)
  refine .bind (P := fun e : Vector UInt8 128 => Padded e.toList)
    (padded_snprintf _ eq_zero_of_mem_zeros (Nat.le_refl _) ?_) fun e he => .pure he
  refine nul_notMem_append (nul_notMem_append (nul_notMem_append (nul_notMem_append
    (nul_notMem_append (nul_notMem_append (nul_notMem_append (htext type) ?_) hdot) ?_) hdot) ?_)
    hdot) ?_
  all_goals exact nul_notMem_decimal _

theorem padded_dhcpLoop (p len i : ℕ) :
    Ensures (fun r => Padded r.toList) (dhcpLoop packet p len i (zeros 128) 128) := by
  unfold dhcpLoop
  dsimp only
  by_cases hi : i < len
  swap
  · rw [if_neg hi]
    exact .pure padded_zeros
  rw [if_pos hi]
  refine .step fun c => .ite (.pure padded_zeros) (.ite (padded_dhcpLoop p len (i + 1)) ?_)
  refine .ite (.pure padded_zeros) (.step fun optLen => .ite (.pure padded_zeros) ?_)
  refine .ite (.step fun t => padded_say _ _ fun text htext => ?_) (padded_dhcpLoop p len _)
  split_ifs at htext with ht
  obtain rfl := Option.some.inj htext
  have h9 : t.toNat < 9 := ht.2
  have hall : ∀ k < 9, 0 ∉ ascii ("DHCP " ++ ["?", "DISCOVER", "OFFER", "REQUEST", "DECLINE",
      "ACK", "NAK", "RELEASE", "INFORM"].getD k "") := by decide
  exact hall t.toNat h9
termination_by len - i

theorem padded_dissectDhcp (p : ℕ) (l : ℤ) :
    Ensures (fun r => Padded r.toList) (dissectDhcp packet p l (zeros 128) 128) := by
  unfold dissectDhcp
  exact .ite (.pure padded_zeros) (.step fun _ => .ite (.pure padded_zeros) (padded_dhcpLoop p _ 0))

theorem padded_dissectVxlan (p : ℕ) (l : ℤ) {info : PacketInfo} (h : info.appLayerInfo = zeros 128) :
    Ensures (fun r => Padded r.appLayerInfo.toList) (dissectVxlan packet p l info) := by
  unfold dissectVxlan
  rw [h]
  refine .ite (.pure (by rw [h]; exact padded_zeros)) (.step fun b4 => .step fun b5 => ?_)
  refine .step fun b6 => .bind (P := fun e : Vector UInt8 128 => Padded e.toList)
    (padded_snprintf _ eq_zero_of_mem_zeros (Nat.le_refl _) ?_) fun e he => .pure he
  exact nul_notMem_append (by decide) (nul_notMem_decimal _)

/-! ### A text over another one -/

theorem forall_mem_drop {v : Vector UInt8 n} {m : ℕ} :
    (∀ b ∈ v.toList.drop m, b = 0) ↔ ∀ i (hi : i < n), m ≤ i → v[i] = 0 := by
  constructor
  · intro h i hi hmi
    have hlen : i - m < (v.toList.drop m).length := by
      rw [List.length_drop, Vector.length_toList]
      omega
    have hb := h _ (List.getElem_mem hlen)
    rw [List.getElem_drop, Vector.getElem_toList] at hb
    simpa only [Nat.add_sub_cancel' hmi] using hb
  · intro h b hb
    obtain ⟨i, hi, rfl⟩ := List.getElem_of_mem hb
    rw [List.length_drop, Vector.length_toList] at hi
    rw [List.getElem_drop, Vector.getElem_toList]
    exact h (m + i) (by omega) (Nat.le_add_right m i)

/-- A fixed text at the front of an empty buffer, and nothing behind it. -/
theorem getElem_behind {text : List UInt8} {i : ℕ} (hi : i < n) (hle : text.length ≤ i) :
    (writeAt (zeros n) 0 (text ++ [0]))[i] = 0 := by
  have hz : (zeros n)[i] = 0 := by simp [zeros]
  rw [getElem_writeAt, Nat.sub_zero, List.length_append, List.length_singleton]
  split_ifs with hin
  · have heq : i = text.length := by omega
    subst heq
    rw [List.getD_append_right _ _ _ _ (Nat.le_refl _), Nat.sub_self]
    rfl
  · exact hz

/-- Over another fixed text, a text is padded if it is not shorter. -/
theorem padded_over {text text' : List UInt8} (h0 : 0 ∉ text') (hle : text.length ≤ text'.length)
    (hfit : text'.length < n) :
    Padded (writeAt (writeAt (zeros n) 0 (text ++ [0])) 0 (text' ++ [0])).toList := by
  rw [padded_writeText hfit, forall_mem_drop]
  exact ⟨padded_of_notMem h0, fun i hi hmi => getElem_behind hi (by omega)⟩

theorem icmpText_props (t c : UInt8) :
    0 ∉ ascii (icmpText t c) ∧ (ascii (icmpText t c)).length ≤ 22 := by
  unfold icmpText
  split_ifs <;> decide

/-- The reason of `check_icmp_unreachable` is never shorter than the text it is written over. -/
theorem length_icmpText_le {t c : UInt8} (ht : t = 3) (hc : c < 8) :
    (ascii (icmpText t c)).length ≤ (ascii ("ICMP Unreachable: " ++
      ["Net", "Host", "Proto", "Port", "Frag", "SrcRoute", "DestNet", "DestHost"].getD c.toNat
        "")).length := by
  have h8 : c.toNat < 8 := hc
  have hall : ∀ k < 8, (ascii (icmpText 3 (UInt8.ofNat k))).length ≤ (ascii ("ICMP Unreachable: " ++
      ["Net", "Host", "Proto", "Port", "Frag", "SrcRoute", "DestNet", "DestHost"].getD k
        "")).length := by decide
  have hk := hall c.toNat h8
  rw [UInt8.ofNat_toNat] at hk
  rw [ht]
  exact hk

/-- The two ICMP texts, one over the other. -/
theorem padded_icmp (t c : UInt8) :
    Padded (checkIcmpUnreachable t c (dissectIcmpDetails t c (zeros 128) 128).val 128).val.toList := by
  obtain ⟨h0, hlen⟩ := icmpText_props t c
  have hfirst : (dissectIcmpDetails t c (zeros 128) 128).val =
      writeAt (zeros 128) 0 (ascii (icmpText t c) ++ [0]) := by
    have htake : (ascii (icmpText t c)).take 127 = ascii (icmpText t c) :=
      List.take_of_length_le (by omega)
    show writeAt (zeros 128) 0 ((ascii (icmpText t c)).take 127 ++ [0]) = _
    rw [htake]
  rw [hfirst]
  unfold checkIcmpUnreachable
  dsimp only
  by_cases hu : t = 3 ∧ c < 8
  · have h8 : c.toNat < 8 := hu.2
    have hall : ∀ k < 8, 0 ∉ ascii ("ICMP Unreachable: " ++
        ["Net", "Host", "Proto", "Port", "Frag", "SrcRoute", "DestNet", "DestHost"].getD k "") ∧
        (ascii ("ICMP Unreachable: " ++
        ["Net", "Host", "Proto", "Port", "Frag", "SrcRoute", "DestNet", "DestHost"].getD k
          "")).length ≤ 127 := by decide
    obtain ⟨h0', hlen'⟩ := hall c.toNat h8
    have hle := length_icmpText_le hu.1 hu.2
    rw [if_pos hu]
    generalize ascii ("ICMP Unreachable: " ++
        ["Net", "Host", "Proto", "Port", "Frag", "SrcRoute", "DestNet", "DestHost"].getD c.toNat
          "") = text at *
    have htake : text.take 127 = text := List.take_of_length_le hlen'
    show Padded (writeAt _ 0 (text.take 127 ++ [0])).toList
    rw [htake]
    exact padded_over h0' hle (by omega)
  · rw [if_neg hu]
    show Padded (writeAt (zeros 128) 0 (ascii (icmpText t c) ++ [0])).toList
    rw [padded_writeText (by omega)]
    exact ⟨padded_of_notMem h0, fun b hb => eq_zero_of_mem_zeros b (List.mem_of_mem_drop hb)⟩

theorem padded_icmp6 (t : UInt8) :
    Ensures (fun r => Padded r.toList) (dissectIcmp6Details t (zeros 128) 128) := by
  refine padded_say_ascii _ ?_
  unfold icmp6Text
  split_ifs <;> decide

/-- A fixed text that is printed behind another one. -/
theorem padded_behind {σ : Type} (s : σ) {text text' : List UInt8} (h0 : 0 ∉ text)
    (hlen : text.length < n) (h0' : 0 ∉ text') :
    Padded (snprintf s (writeAt (zeros n) 0 (text ++ [0])) text.length (n - text.length)
      text').val.toList := by
  have hfit : 0 + (text ++ [0]).length ≤ n := by
    rw [List.length_append, List.length_singleton]
    omega
  have hfront : (writeAt (zeros n) 0 (text ++ [0])).toList.take text.length = text := by
    rw [toList_writeAt hfit, List.take_zero, List.nil_append, List.append_assoc, List.take_left]
  unfold snprintf
  rw [if_neg (by omega), val_bind, val_pure, padded_appendText, forall_mem_drop]
  · exact fun i hi hmi => getElem_behind hi (by omega)
  · rw [List.length_take]
    omega
  · rw [hfront]
    exact h0
  · exact notMem_take h0'

theorem padded_dissectNtp (p : ℕ) (l : ℤ) {info : PacketInfo} (h : info.appLayerInfo = zeros 128) :
    Ensures (fun r => Padded r.appLayerInfo.toList)
      (dissectNtp packet p l info >>= dissectNtpCore packet p l) := by
  have hmode : ∀ k < 8, 0 ∉ ascii ("NTP " ++ ntpModes.getD k "" ++ " (Stratum ") ∧
      0 ∉ ascii (" [Mode: " ++ ntpModes.getD k "" ++ ", Stratum: ") := by decide
  by_cases hl : l < 48
  · refine .bind (P := fun r => r = info) ?_ fun r hr => ?_
    · rw [dissectNtp, if_pos hl]
      exact .pure rfl
    · rw [hr, dissectNtpCore, if_pos hl]
      refine .pure ?_
      rw [h]
      exact padded_zeros
  · refine .bind (P := fun r => ∃ text, 0 ∉ text ∧ text.length < 128 ∧
      r.appLayerInfo = writeAt (zeros 128) 0 (text ++ [0])) ?_ fun r hr => ?_
    · rw [dissectNtp, if_neg hl, h]
      refine .step fun b0 => .step fun b1 => .bind (P := fun e => e = _) rfl fun e he => .pure ?_
      refine ⟨_, notMem_take (nul_notMem_append (nul_notMem_append
        (hmode ((b0 &&& 0x07).toNat % 8) (by omega)).1 (nul_notMem_decimal _)) (by decide)), ?_, he⟩
      rw [List.length_take]
      omega
    · obtain ⟨text, h0, hlen, happ⟩ := hr
      have hstr : (cString (writeAt (zeros 128) 0 (text ++ [0]))).length = text.length := by
        rw [cString_writeAt _ _ hlen, List.takeWhile_eq_self_iff.mpr]
        intro b hb
        simpa using fun hb0 : b = 0 => h0 (hb0 ▸ hb)
      rw [dissectNtpCore, if_neg hl, happ, hstr]
      refine .step fun b0 => .step fun b1 => .bind (P := fun e : Vector UInt8 128 => Padded e.toList)
        (padded_behind _ h0 hlen ?_) fun e he => .pure he
      exact nul_notMem_append (nul_notMem_append
        (hmode ((b0 &&& 0x07).toNat % 8) (by omega)).2 (nul_notMem_decimal _)) (by decide)

/-! ### Lines of the frame -/

/-- `extra_info` before an application dissector of TCP: empty, or with the words for a window of
zero. -/
def opening (z : Prop) [Decidable z] : Vector UInt8 128 :=
  if z then writeAt (zeros 128) 0 (ascii "TCP ZeroWindow" ++ [0]) else zeros 128

theorem getElem_zeroWindow :
    (writeAt (zeros 128) 0 (ascii "TCP ZeroWindow" ++ [0]))[13] = 119 := by
  rw [getElem_writeAt, if_pos (by decide)]
  rfl

section

variable (z : Prop) [Decidable z]

theorem getElem_opening {i : ℕ} (hi : i < 128) (h14 : 14 ≤ i) : (opening z)[i] = 0 := by
  unfold opening
  split_ifs with hz
  · exact getElem_behind hi h14
  · simp [zeros]

/-- The words reach to place 13. -/
theorem opening_behind_iff {k : ℕ} :
    (∀ i (hi : i < 128), k + 1 ≤ i → (opening z)[i] = 0) ↔ ¬ (z ∧ k ≤ 12) := by
  constructor
  · rintro h ⟨hz, hk⟩
    have hlast : (opening z)[13] = 0 := h 13 (by decide) (by omega)
    unfold opening at hlast
    rw [getElem_congr_coll (if_pos hz), getElem_zeroWindow] at hlast
    exact absurd hlast (by decide)
  · intro h i hi hki
    by_cases hz : z
    · exact getElem_opening z hi (by have := not_and.mp h hz; omega)
    · unfold opening
      rw [getElem_congr_coll (if_neg hz)]
      simp [zeros]

theorem padded_opening : Padded (opening z).toList := by
  unfold opening
  split_ifs with hz
  · rw [padded_writeText (by decide)]
    refine ⟨padded_of_notMem (by decide), ?_⟩
    exact fun b hb => eq_zero_of_mem_zeros b (List.mem_of_mem_drop hb)
  · exact padded_zeros

/-- Of the `k` bytes at `p`, one is a NUL and a later one is not. -/
def Gap (packet : ℕ → UInt8) (p k : ℕ) : Prop :=
  ∃ c d, c < d ∧ d < k ∧ packet (p + c) = 0 ∧ packet (p + d) ≠ 0

theorem padded_slice_iff {p k : ℕ} : Padded (slice packet p k) ↔ ¬ Gap packet p k := by
  rw [padded_slice]
  constructor
  · rintro h ⟨c, d, hcd, hd, h0, hne⟩
    exact hne (h c d hcd hd h0)
  · intro h c d hcd hd h0
    by_contra hne
    exact h ⟨c, d, hcd, hd, h0, hne⟩

/-- A line is copied whose bytes have a gap, or which is shorter than the words under it. -/
def LineTail (packet : ℕ → UInt8) (p l : ℕ) (z : Prop) : Prop :=
  Gap packet p (lineLen packet p l) ∨ (z ∧ lineLen packet p l ≤ 12)

theorem padded_line_iff (p l : ℕ) :
    Padded (writeAt (opening z) 0 (slice packet p (lineLen packet p l) ++ [0])).toList ↔
      ¬ LineTail packet p l z := by
  have hk := @lineLen_le packet p l
  unfold LineTail
  rw [padded_writeText (by rw [length_slice]; omega), length_slice, forall_mem_drop,
    opening_behind_iff, padded_slice_iff, not_or]

/-! ### HTTP -/

/-- What `dissect_http` leaves behind its text. The text for the `Host` header reaches behind the words
for a window of zero, but not always behind the line. -/
inductive RequestTail (packet : ℕ → UInt8) (p l : ℕ) (z : Prop) : Prop
  | line (noHost : ∀ x, ¬ HostAt packet p l x) (h : LineTail packet p l z)
  | host {x c : ℕ} (hx : HostAt packet p l x) (hc : c < lineLen packet p l)
      (behind : textLen packet p l +
        min (127 - textLen packet p l) (9 + hostLen packet (p + x + 8)) < c)
      (hne : packet (p + c) ≠ 0)

/-- The bytes of a request line before its first NUL are not NULs. -/
theorem nul_notMem_text (p k : ℕ) : 0 ∉ slice packet p (stretch isNul packet p k) := by
  rw [← takeWhile_slice isNul]
  intro hmem
  have := List.mem_takeWhile_imp hmem
  simp [isNul] at this

/-- A request line has at least four bytes before its first NUL. -/
theorem four_le_textLen {p l : ℕ} (h : IsRequest packet p l) : 4 ≤ textLen packet p l := by
  obtain ⟨h10, ml, hml, hw⟩ := h
  have hmethods : ∀ ml ∈ httpMethods, 4 ≤ ml.length ∧
      ∀ b ∈ ml, isBreak b = false ∧ isNul b = false := by decide +kernel
  obtain ⟨h4, hplain⟩ := hmethods ml hml
  have hbyte : ∀ j < 4, isBreak (packet (p + j)) = false ∧ isNul (packet (p + j)) = false := by
    intro j hj
    refine hplain _ ?_
    rw [← hw]
    exact mem_slice.mpr ⟨j, by omega, rfl⟩
  have hline : 4 ≤ lineLen packet p l := le_stretch (by omega) fun j hj => (hbyte j hj).1
  exact le_stretch hline fun j hj => (hbyte j hj).2

/-- The `Host` text over the line. -/
theorem padded_host_iff {p l x : ℕ} (hreq : IsRequest packet p l) (hx : HostAt packet p l x) :
    Padded (writeAt (writeAt (opening z) 0 (slice packet p (lineLen packet p l) ++ [0]))
        (textLen packet p l) ((ascii " [Host: " ++
          slice packet (p + x + 8) (hostLen packet (p + x + 8)) ++
          ascii "]").take (127 - textLen packet p l) ++ [0])).toList ↔
      ¬ RequestTail packet p l z := by
  have hk := @lineLen_le packet p l
  have ht := @textLen_le packet p l
  have h4 := four_le_textLen hreq
  have h8 : (ascii " [Host: ").length = 8 := by decide
  have h1 : (ascii "]").length = 1 := by decide
  have hlen : ((ascii " [Host: " ++ slice packet (p + x + 8) (hostLen packet (p + x + 8)) ++
      ascii "]").take (127 - textLen packet p l)).length =
      min (127 - textLen packet p l) (9 + hostLen packet (p + x + 8)) := by
    rw [List.length_take, List.length_append, List.length_append, length_slice, h8, h1]
    omega
  have hfit : 0 + (slice packet p (lineLen packet p l) ++ [0]).length ≤ 128 := by
    rw [List.length_append, length_slice, List.length_singleton]
    omega
  have hfront : (writeAt (opening z) 0 (slice packet p (lineLen packet p l) ++ [0])).toList.take
      (textLen packet p l) = slice packet p (textLen packet p l) := by
    rw [toList_writeAt hfit, List.take_zero, List.nil_append, List.append_assoc,
      List.take_append_of_le_length (by rw [length_slice]; omega), take_slice, Nat.min_eq_left ht]
  have hhost : 0 ∉ ascii " [Host: " ++ slice packet (p + x + 8) (hostLen packet (p + x + 8)) ++
      ascii "]" :=
    nul_notMem_append (nul_notMem_append (by decide) (nul_notMem_text _ _)) (by decide)
  rw [padded_appendText (by omega) (by rw [hfront]; exact nul_notMem_text _ _) (notMem_take hhost),
    forall_mem_drop, hlen]
  constructor
  · rintro h (⟨noHost, -⟩ | ⟨hx', hc, behind, hne⟩)
    · exact noHost x hx
    · obtain rfl := hx.unique hx'
      rename_i c
      have hzero := h c (by omega) (by omega)
      rw [getElem_writeAt, if_pos (by rw [List.length_append, length_slice]; omega), Nat.sub_zero,
        List.getD_append _ _ _ _ (by rw [length_slice]; exact hc),
        List.getD_eq_getElem _ _ (by rw [length_slice]; exact hc), getElem_slice] at hzero
      exact hne hzero
  · intro h i hi hmi
    rw [getElem_writeAt, Nat.sub_zero, List.length_append, length_slice, List.length_singleton]
    split_ifs with hin
    · rcases Nat.lt_or_ge i (lineLen packet p l) with hlt | hge
      · rw [List.getD_append _ _ _ _ (by rw [length_slice]; exact hlt),
          List.getD_eq_getElem _ _ (by rw [length_slice]; exact hlt), getElem_slice]
        by_contra hne
        exact h (.host hx hlt (by omega) hne)
      · rw [List.getD_append_right _ _ _ _ (by rw [length_slice]; exact hge), length_slice,
          show i - lineLen packet p l = 0 by omega]
        rfl
    · exact getElem_opening z hi (by omega)

/-- **HTTP.** Behind `dissect_http` the field is padded unless a request leaves something. -/
theorem dissectHttp_padded_iff (p : ℕ) (l : ℤ) :
    Padded (dissectHttp packet p l (opening z) 128).val.toList ↔
      ¬ (IsRequest packet p l.toNat ∧ RequestTail packet p l.toNat z) := by
  unfold dissectHttp
  by_cases hl : l < 10
  · have hno : ¬ IsRequest packet p l.toNat := fun h => by have := h.1; omega
    rw [if_pos hl]
    exact ⟨fun _ h => hno h.1, fun _ => padded_opening z⟩
  rw [if_neg hl, val_bind]
  have hreq := @isRequest_iff packet p l (by omega)
  cases hm : (findMethod packet p l httpMethods).val with
  | none =>
    have hno : ¬ IsRequest packet p l.toNat := by
      rw [hreq, hm]
      decide
    exact ⟨fun _ h => hno h.1, fun _ => padded_opening z⟩
  | some ml =>
    have hrequest : IsRequest packet p l.toNat := by
      rw [hreq, hm]
      rfl
    have hz := @textLen_le packet p l.toNat
    have hk := @lineLen_le packet p l.toNat
    have htext : (cString (writeAt (opening z) 0
        (slice packet p (lineLen packet p l.toNat) ++ [0]))).length = textLen packet p l.toNat :=
      length_cString_slice _ (by omega)
    rw [and_iff_right hrequest]
    simp only [val_bind, val_copyLine_start]
    unfold memmem
    rcases memmemLoop_spec (s := Site.read .dissectHttp) p l.toNat (ascii "\r\nHost: ") 0 with
      ⟨x, hval, hx⟩ | ⟨hval, hno⟩
    · rw [hval]
      simp only [val_bind, val_loadStr, htext]
      unfold snprintf
      rw [if_neg (by omega), val_bind, val_pure,
        show 128 - textLen packet p l.toNat - 1 = 127 - textLen packet p l.toNat by omega]
      exact padded_host_iff z hrequest hx
    · rw [hval, val_pure, padded_line_iff]
      constructor
      · rintro h (⟨-, htail⟩ | ⟨hx, -, -, -⟩)
        · exact h htail
        · exact hno _ hx
      · exact fun h htail => h (.line hno htail)

/-! ### Banners and control channels -/

/-- The data start with a word of the control channels that `dissect_app_common` names. -/
def IsControl (packet : ℕ → UInt8) (p l : ℕ) : Prop :=
  4 < l ∧ slice packet p 4 ∈ [ascii "220 ", ascii "HELO", ascii "EHLO", ascii "USER", ascii "PASS"]

/-- A fixed text over the words for a window of zero. -/
theorem padded_say_opening {f : Fn} {t : String} (ht : 0 ∉ ascii t) (hlen : (ascii t).length ≤ 127) :
    Padded (say f (opening z) 128 (some (ascii t))).val.toList ↔ ¬ (z ∧ (ascii t).length ≤ 12) := by
  have htake : (ascii t).take 127 = ascii t := List.take_of_length_le hlen
  show Padded (writeAt (opening z) 0 ((ascii t).take 127 ++ [0])).toList ↔ _
  rw [htake, padded_writeText (by omega), forall_mem_drop, opening_behind_iff,
    and_iff_right (padded_of_notMem ht)]

/-- **SSH and control channels.** Behind `dissect_app_common` the field is padded unless a banner
leaves something, or a name is written that is shorter than the words under it. -/
theorem dissectAppCommon_padded_iff (p : ℕ) (l : ℤ) :
    Padded (dissectAppCommon packet p l (opening z) 128).val.toList ↔
      ¬ ((IsBanner packet p l.toNat ∧ LineTail packet p l.toNat z) ∨
        (IsControl packet p l.toNat ∧ z)) := by
  unfold dissectAppCommon
  by_cases hl : l < 4
  · have hno : ¬ IsBanner packet p l.toNat := fun h => by have := h.1; omega
    have hno' : ¬ IsControl packet p l.toNat := fun h => by have := h.1; omega
    rw [if_pos hl]
    exact ⟨fun _ h => h.elim (fun h => hno h.1) fun h => hno' h.1, fun _ => padded_opening z⟩
  rw [if_neg hl, val_bind]
  generalize hhead : (if 4 < l then loadBytes packet (Site.read .dissectAppCommon) p 4
    else pure []).val = head
  have hslice : 4 < l → slice packet p 4 = head := by
    intro h4
    rw [if_pos h4, val_loadBytes_eq_slice] at hhead
    exact hhead
  have hcontrol : ∀ w ∈ [ascii "220 ", ascii "HELO", ascii "EHLO", ascii "USER", ascii "PASS"],
      4 < l → head = w → IsControl packet p l.toNat := by
    intro w hw h4 hh
    refine ⟨by omega, ?_⟩
    rw [hslice h4, hh]
    exact hw
  by_cases hb : 7 < l ∧ head = ascii "SSH-"
  · have hbanner : IsBanner packet p l.toNat := ⟨by omega, (hslice (by omega)).trans hb.2⟩
    have hno : ¬ IsControl packet p l.toNat := by
      rintro ⟨-, hmem⟩
      rw [hbanner.2] at hmem
      exact absurd hmem (by decide)
    rw [if_pos hb, val_bind, val_bind, val_copyLine_start, val_pure, padded_line_iff]
    exact not_congr ⟨fun h => Or.inl ⟨hbanner, h⟩, fun h => h.elim And.right fun h => absurd h.1 hno⟩
  have hnob : ¬ IsBanner packet p l.toNat := fun h =>
    hb ⟨by have := h.1; omega, (hslice (by have := h.1; omega)).symm.trans h.2⟩
  have honly : (IsBanner packet p l.toNat ∧ LineTail packet p l.toNat z) ∨
      (IsControl packet p l.toNat ∧ z) ↔ IsControl packet p l.toNat ∧ z :=
    or_iff_right fun h => hnob h.1
  rw [if_neg hb, honly]
  by_cases h1 : 4 < l ∧ (head = ascii "220 " ∨ head = ascii "HELO" ∨ head = ascii "EHLO")
  · have hc : IsControl packet p l.toNat := by
      rcases h1.2 with hh | hh | hh
      · exact hcontrol _ (by decide) h1.1 hh
      · exact hcontrol _ (by decide) h1.1 hh
      · exact hcontrol _ (by decide) h1.1 hh
    rw [if_pos h1, padded_say_opening z (by decide) (by decide)]
    exact not_congr ⟨fun h => ⟨hc, h.1⟩, fun h => ⟨h.2, by decide⟩⟩
  rw [if_neg h1]
  by_cases h2 : 4 < l ∧ (head = ascii "USER" ∨ head = ascii "PASS" ∨ head = ascii "220 ")
  · have hc : IsControl packet p l.toNat := by
      rcases h2.2 with hh | hh | hh
      · exact hcontrol _ (by decide) h2.1 hh
      · exact hcontrol _ (by decide) h2.1 hh
      · exact hcontrol _ (by decide) h2.1 hh
    rw [if_pos h2, padded_say_opening z (by decide) (by decide)]
    exact not_congr ⟨fun h => ⟨hc, h.1⟩, fun h => ⟨h.2, by decide⟩⟩
  have hno : ¬ IsControl packet p l.toNat := by
    rintro ⟨h4, hmem⟩
    have h4' : 4 < l := by omega
    rw [hslice h4'] at hmem
    simp only [List.mem_cons, List.not_mem_nil, or_false] at hmem
    rcases hmem with hh | hh | hh | hh | hh
    · exact h1 ⟨h4', Or.inl hh⟩
    · exact h1 ⟨h4', Or.inr (Or.inl hh)⟩
    · exact h1 ⟨h4', Or.inr (Or.inr hh)⟩
    · exact h2 ⟨h4', Or.inl hh⟩
    · exact h2 ⟨h4', Or.inr (Or.inl hh)⟩
  -- the two names that are left are longer than the words under them
  have hlong : ∀ {t : String}, 0 ∉ ascii t → (ascii t).length ≤ 127 → 12 < (ascii t).length →
      Ensures (fun r => Padded r.toList) (say .dissectAppCommon (opening z) 128 (some (ascii t))) :=
    fun ht hle hlt => (padded_say_opening z ht hle).mpr fun h => by have := h.2; omega
  rw [if_neg h2]
  refine ⟨fun _ h => hno h.1, fun _ => ?_⟩
  exact Ensures.step (Q := fun r : Vector UInt8 128 => Padded r.toList) fun b0 => .step fun b1 =>
    .ite (hlong (by decide) (by decide) (by decide))
      (.ite (hlong (by decide) (by decide) (by decide)) (.pure (padded_opening z)))

end

/-! ### DNS -/

/-- What `dissect_dns` leaves behind the first NUL of its text, from `pos` on with `out` bytes of the
text written. A NUL of a label is followed by a byte of the same label, or by the dot behind it if
there is another label: the last dot makes room for the NUL at the end, as does a full stop that is the
last byte of a full buffer. -/
inductive DnsTail (packet : ℕ → UInt8) (p len : ℕ) : ℕ → ℕ → Prop
  | byte {pos out c d : ℕ} (h : IsLabel packet p len pos out) (hcd : c < d)
      (hd : d < labelLen packet p len pos out) (nul : packet (p + 12 + (pos + 1) + c) = 0)
      (hne : packet (p + 12 + (pos + 1) + d) ≠ 0)
      (stays : ¬ (out + d = 62 ∧ packet (p + 12 + (pos + 1) + d) = 46)) : DnsTail packet p len pos out
  | dot {pos out c : ℕ} (h : IsLabel packet p len pos out) (hc : c < labelLen packet p len pos out)
      (nul : packet (p + 12 + (pos + 1) + c) = 0)
      (next : IsLabel packet p len (pos + 1 + labelLen packet p len pos out)
        (min 63 (out + labelLen packet p len pos out + 1))) : DnsTail packet p len pos out
  | later {pos out : ℕ} (h : IsLabel packet p len pos out)
      (ht : DnsTail packet p len (pos + 1 + labelLen packet p len pos out)
        (min 63 (out + labelLen packet p len pos out + 1))) : DnsTail packet p len pos out

theorem DnsTail.isLabel {p len pos out : ℕ} (h : DnsTail packet p len pos out) :
    IsLabel packet p len pos out := by
  cases h with
  | byte h _ _ _ _ _ => exact h
  | dot h _ _ _ => exact h
  | later h _ => exact h

/-- The length of the text without a dot at its end. -/
def dnsEnd (text : List UInt8) : ℕ := text.length - if text.getLast? = some 46 then 1 else 0

theorem length_le_dnsEnd {text : List UInt8} : text.length - 1 ≤ dnsEnd text := by
  unfold dnsEnd
  split_ifs <;> omega

/-- The text grows at its end. -/
theorem prefix_dnsLoop (p len pos : ℕ) (text : List UInt8) :
    text <+: (dnsLoop packet p len 64 pos text).val := by
  by_cases hlabel : IsLabel packet p len pos text.length
  · have hlt : pos < len := hlabel.1
    have hadd : text <+: addLabel packet p len pos text := by
      unfold addLabel
      split_ifs
      · rw [List.append_assoc]
        exact List.prefix_append _ _
      · exact List.prefix_append _ _
    rw [val_dnsLoop_label hlabel]
    exact hadd.trans (prefix_dnsLoop p len _ _)
  · rw [val_dnsLoop_end hlabel]
termination_by len - pos

/-- With a label ahead nothing of the text is lost at its end. -/
theorem prefix_take_dnsEnd {p len pos : ℕ} {text : List UInt8}
    (h : IsLabel packet p len pos text.length) :
    text <+: (dnsLoop packet p len 64 pos text).val.take
      (dnsEnd (dnsLoop packet p len 64 pos text).val) := by
  have hlen := @length_addLabel packet p len pos text (Nat.le_of_lt h.2.1)
  have hout : text.length < 63 := h.2.1
  have hgrow := (@prefix_dnsLoop packet p len (pos + 1 + labelLen packet p len pos text.length)
    (addLabel packet p len pos text)).length_le
  rw [← val_dnsLoop_label h] at hgrow
  have hend := @length_le_dnsEnd (dnsLoop packet p len 64 pos text).val
  exact List.prefix_take_iff.mpr ⟨prefix_dnsLoop p len pos text, by omega⟩

/-- A dot at the end of a text does not count. -/
theorem take_dnsEnd_dot (body : List UInt8) :
    (body ++ ascii ".").take (dnsEnd (body ++ ascii ".")) = body := by
  have hdot : ascii "." = [46] := by decide
  have hend : dnsEnd (body ++ ascii ".") = body.length := by
    unfold dnsEnd
    rw [hdot, List.getLast?_concat, if_pos rfl, List.length_append, List.length_singleton]
    omega
  rw [hend, List.take_left]

/-- The bytes of a label behind a text without NULs. -/
theorem padded_append_slice {text : List UInt8} (h0 : 0 ∉ text) (q k : ℕ) :
    Padded (text ++ slice packet q k) ↔ ¬ Gap packet q k := by
  rw [← padded_slice_iff]
  unfold Padded
  rw [List.pairwise_append]
  constructor
  · exact fun h => h.2.1
  · exact fun h => ⟨padded_of_notMem h0, h, fun a ha b _ ha0 => absurd (ha0 ▸ ha) h0⟩

/-- The labels of a full buffer, without a full stop as the last byte. -/
theorem padded_full_iff {text : List UInt8} (h0 : 0 ∉ text) {q k : ℕ} (hk : 0 < k)
    (hfull : text.length + k = 63) :
    Padded ((text ++ slice packet q k).take (dnsEnd (text ++ slice packet q k))) ↔
      ¬ ∃ c d, c < d ∧ d < k ∧ packet (q + c) = 0 ∧ packet (q + d) ≠ 0 ∧
        ¬ (text.length + d = 62 ∧ packet (q + d) = 46) := by
  have hlen : (text ++ slice packet q k).length = 63 := by
    rw [List.length_append, length_slice, hfull]
  have hlast : (text ++ slice packet q k).getLast? = some (packet (q + (k - 1))) := by
    rw [List.getLast?_eq_getElem?, List.getElem?_append_right (by omega), hlen,
      show 63 - 1 - text.length = k - 1 by omega,
      List.getElem?_eq_getElem (by rw [length_slice]; omega), getElem_slice]
  by_cases hstop : packet (q + (k - 1)) = 46
  · have hend : dnsEnd (text ++ slice packet q k) = text.length + (k - 1) := by
      unfold dnsEnd
      rw [hlast, hstop, if_pos rfl, hlen]
      omega
    rw [hend, List.take_append, Nat.add_sub_cancel_left, List.take_of_length_le (by omega), take_slice,
      Nat.min_eq_left (by omega), padded_append_slice h0]
    refine not_congr ⟨?_, ?_⟩
    · rintro ⟨c, d, hcd, hd, hnul, hne⟩
      exact ⟨c, d, hcd, by omega, hnul, hne, fun h => by have := h.1; omega⟩
    · rintro ⟨c, d, hcd, hd, hnul, hne, hstays⟩
      have hd' : d ≠ k - 1 := by
        rintro rfl
        exact hstays ⟨by omega, hstop⟩
      exact ⟨c, d, hcd, by omega, hnul, hne⟩
  · have hend : dnsEnd (text ++ slice packet q k) = (text ++ slice packet q k).length := by
      unfold dnsEnd
      rw [hlast, if_neg (fun h => hstop (Option.some.inj h)), Nat.sub_zero]
    rw [hend, List.take_length, padded_append_slice h0]
    refine not_congr ⟨?_, ?_⟩
    · rintro ⟨c, d, hcd, hd, hnul, hne⟩
      refine ⟨c, d, hcd, hd, hnul, hne, fun h => ?_⟩
      have hd' : d = k - 1 := by omega
      exact hstop (hd' ▸ h.2)
    · rintro ⟨c, d, hcd, hd, hnul, hne, -⟩
      exact ⟨c, d, hcd, hd, hnul, hne⟩

/-- What a label can leave, by cases on what follows it. -/
theorem dnsTail_iff {p len pos out : ℕ} (h : IsLabel packet p len pos out) :
    DnsTail packet p len pos out ↔
      (∃ c d, c < d ∧ d < labelLen packet p len pos out ∧ packet (p + 12 + (pos + 1) + c) = 0 ∧
        packet (p + 12 + (pos + 1) + d) ≠ 0 ∧
        ¬ (out + d = 62 ∧ packet (p + 12 + (pos + 1) + d) = 46)) ∨
      ((∃ c < labelLen packet p len pos out, packet (p + 12 + (pos + 1) + c) = 0) ∧
        IsLabel packet p len (pos + 1 + labelLen packet p len pos out)
          (min 63 (out + labelLen packet p len pos out + 1))) ∨
      DnsTail packet p len (pos + 1 + labelLen packet p len pos out)
        (min 63 (out + labelLen packet p len pos out + 1)) := by
  constructor
  · intro ht
    cases ht with
    | byte _ hcd hd nul hne stays => exact Or.inl ⟨_, _, hcd, hd, nul, hne, stays⟩
    | dot _ hc nul next => exact Or.inr (Or.inl ⟨⟨_, hc, nul⟩, next⟩)
    | later _ ht => exact Or.inr (Or.inr ht)
  · rintro (⟨c, d, hcd, hd, nul, hne, stays⟩ | ⟨⟨c, hc, nul⟩, next⟩ | ht)
    · exact .byte h hcd hd nul hne stays
    · exact .dot h hc nul next
    · exact .later h ht

/-- The outer loop, from a text without NULs. -/
theorem dnsLoop_padded_iff (p len pos : ℕ) (text : List UInt8) (ht : text.length ≤ 63) (h0 : 0 ∉ text) :
    Padded ((dnsLoop packet p len 64 pos text).val.take
        (dnsEnd (dnsLoop packet p len 64 pos text).val)) ↔
      ¬ DnsTail packet p len pos text.length := by
  by_cases hlabel : IsLabel packet p len pos text.length
  swap
  · rw [val_dnsLoop_end hlabel]
    exact ⟨fun _ h => hlabel h.isLabel, fun _ => padded_of_notMem (notMem_take h0)⟩
  have hlt : pos < len := hlabel.1
  have hout : text.length < 63 := hlabel.2.1
  have hlen := @length_addLabel packet p len pos text ht
  have hcnt : labelLen packet p len pos text.length ≤ 63 - text.length :=
    (Nat.min_le_right _ _).trans (Nat.min_le_right _ _)
  rw [val_dnsLoop_label hlabel, dnsTail_iff hlabel, ← hlen]
  by_cases hroom : text.length + labelLen packet p len pos text.length < 63
  swap
  · -- the buffer is full
    have hadd : addLabel packet p len pos text = text ++
        slice packet (p + 12 + (pos + 1)) (labelLen packet p len pos text.length) := if_neg hroom
    have hend : ¬ IsLabel packet p len (pos + 1 + labelLen packet p len pos text.length)
        (addLabel packet p len pos text).length := by
      rintro ⟨-, h63, -⟩
      omega
    rw [val_dnsLoop_end hend, or_iff_left, hadd]
    · exact padded_full_iff h0 (by omega) (by omega)
    · rintro (h | h)
      · exact hend h.2
      · exact hend h.isLabel
  have hadd : addLabel packet p len pos text = text ++
      slice packet (p + 12 + (pos + 1)) (labelLen packet p len pos text.length) ++ ascii "." :=
    if_pos hroom
  by_cases hnul : 0 ∈ slice packet (p + 12 + (pos + 1)) (labelLen packet p len pos text.length)
  swap
  · -- no NUL yet
    have hno : ∀ c < labelLen packet p len pos text.length, packet (p + 12 + (pos + 1) + c) ≠ 0 :=
      fun c hc hc0 => hnul (mem_slice.mpr ⟨c, hc, hc0⟩)
    have h0' : 0 ∉ addLabel packet p len pos text := by
      rw [hadd]
      exact nul_notMem_append (nul_notMem_append h0 hnul) (by decide)
    rw [dnsLoop_padded_iff p len _ _ (by omega) h0', or_iff_right, or_iff_right]
    · rintro ⟨⟨c, hc, hc0⟩, -⟩
      exact hno c hc hc0
    · rintro ⟨c, d, hcd, hd, hc0, -⟩
      exact hno c (by omega) hc0
  by_cases hnext : IsLabel packet p len (pos + 1 + labelLen packet p len pos text.length)
      (addLabel packet p len pos text).length
  · -- the dot behind the NUL stays
    have htail : ¬ Padded (addLabel packet p len pos text) := by
      intro hpad
      unfold Padded at hpad
      rw [hadd, List.pairwise_append] at hpad
      have hdot := hpad.2.2 0 (List.mem_append_right _ hnul) 46 (by decide) rfl
      exact absurd hdot (by decide)
    obtain ⟨c, hc, hc0⟩ := mem_slice.mp hnul
    refine ⟨fun hpad => absurd (hpad.of_prefix (prefix_take_dnsEnd hnext)) htail, fun h => ?_⟩
    exact absurd (Or.inr (Or.inl ⟨⟨c, hc, hc0⟩, hnext⟩)) h
  · -- the last label
    rw [val_dnsLoop_end hnext, or_iff_left, hadd, take_dnsEnd_dot, padded_append_slice h0]
    · refine not_congr ⟨?_, ?_⟩
      · rintro ⟨c, d, hcd, hd, hc0, hne⟩
        exact ⟨c, d, hcd, hd, hc0, hne, fun h => by have := h.1; omega⟩
      · rintro ⟨c, d, hcd, hd, hc0, hne, -⟩
        exact ⟨c, d, hcd, hd, hc0, hne⟩
    · rintro (h | h)
      · exact hnext h.2
      · exact hnext h.isLabel
termination_by len - pos

/-- **DNS.** Behind `dissect_dns` the field is padded unless a label has left something behind a NUL. -/
theorem dissectDns_padded_iff (p : ℕ) (len : ℤ) :
    Padded (dissectDns packet p len (zeros 64) 64).val.toList ↔
      ¬ DnsTail packet p (len - 12).toNat 0 0 := by
  unfold dissectDns
  by_cases hlen : len < 12
  · rw [if_pos hlen]
    refine ⟨fun _ h => ?_, fun _ => padded_zeros⟩
    have := h.isLabel.1
    omega
  obtain ⟨hfit, -⟩ := @dnsLoop_clean_iff packet p (len - 12).toNat 0 [] (by simp)
  have hloop := @dnsLoop_padded_iff packet p (len - 12).toNat 0 [] (by simp) (by simp)
  rw [List.length_nil] at hloop
  rw [if_neg hlen, val_bind, ← hloop]
  generalize (dnsLoop packet p (len - 12).toNat 64 0 []).val = text at hfit ⊢
  by_cases htext : 0 < text.length
  swap
  · have hnil : text = [] := List.length_eq_zero_iff.mp (by omega)
    subst hnil
    rw [if_neg htext, val_pure]
    refine iff_of_true ?_ List.Pairwise.nil
    rw [toList_writeAt (by simp)]
    exact padded_zeros
  rw [if_pos htext, val_bind, val_pure]
  show Padded (writeAt (writeAt (zeros 64) 0 text) (dnsEnd text) [0]).toList ↔ _
  have hend : dnsEnd text ≤ text.length := Nat.sub_le _ _
  have hback : text.length - 1 ≤ dnsEnd text := length_le_dnsEnd
  rw [toList_writeAt (by rw [List.length_singleton]; omega), List.append_assoc, List.singleton_append,
    padded_append_nul, toList_writeAt (by omega), List.take_zero, List.nil_append,
    List.take_append_of_le_length hend]
  refine and_iff_left fun b hb => ?_
  rw [List.drop_append, List.drop_eq_nil_of_le (by rw [List.length_singleton]; omega),
    List.nil_append] at hb
  exact eq_zero_of_mem_zeros b (List.mem_of_mem_drop (List.mem_of_mem_drop hb))

/-! ### LLDP -/

/-- The names that `dissect_lldp` copies from the TLVs of one type, in order, from offset `o` of the `l`
bytes at `p` on. -/
def tlvNames (packet : ℕ → UInt8) (p l : ℕ) (type : UInt16) (o : ℕ) : List (List UInt8) :=
  if o + 2 ≤ l then
    let tlv := be16 (packet (p + o)) (packet (p + o + 1))
    let len := (tlv &&& 0x01FF).toNat
    if l < o + 2 + len then []
    else if tlv >>> 9 = type then
      slice packet (p + o + 2 + 1) (min (len - 1) 31) :: tlvNames packet p l type (o + 2 + len)
    else if tlv >>> 9 = 0 then []
    else tlvNames packet p l type (o + 2 + len)
  else []
termination_by l - o

/-- What the TLVs of one type leave behind their last name: of the bytes that stay, one is a NUL and a
later one is not. -/
def NameTail (packet : ℕ → UInt8) (p l : ℕ) (type : UInt16) : Prop :=
  ∃ i j, i < j ∧ byteAt (tlvNames packet p l type 0) i = 0 ∧ byteAt (tlvNames packet p l type 0) j ≠ 0

theorem length_tlvNames (p l : ℕ) (type : UInt16) (o : ℕ) :
    ∀ t ∈ tlvNames packet p l type o, t.length < 32 := by
  fun_induction tlvNames packet p l type o with
  | case1 o hfit tlv len hcut => simp
  | case2 o hfit tlv len hcut htype ih =>
    refine List.forall_mem_cons.mpr ⟨?_, ih⟩
    rw [length_slice]
    omega
  | case3 o hfit tlv len hcut htype h0 => simp
  | case4 o hfit tlv len hcut htype h0 ih => exact ih
  | case5 o hfit => simp

theorem padded_names_iff (p l : ℕ) (type : UInt16) :
    Padded (writeTexts (zeros 32) (tlvNames packet p l type 0)).toList ↔
      ¬ NameTail packet p l type := by
  rw [padded_writeTexts eq_zero_of_mem_zeros (length_tlvNames p l type 0)]
  constructor
  · rintro h ⟨i, j, hij, hi, hj⟩
    exact hj (h i j hij hi)
  · intro h i j hij hi
    by_contra hj
    exact h ⟨i, j, hij, hi, hj⟩

/-- A name is written with its NUL, if the copy is defined. -/
theorem val_lldpName (b : Buf) (p len : ℕ) (name : Vector UInt8 32) :
    Ensures (fun r => ∀ c, r = some c →
      c = writeAt name 0 (slice packet (p + 1) (min (len - 1) 31) ++ [0]))
      (lldpName packet b p len name) := by
  unfold lldpName
  refine .ite (.step fun _ => .step fun _ => .pure fun c hc => by cases hc) ?_
  exact .bind (P := fun bs => bs = _) rfl fun bs hbs => .step fun _ =>
    .pure fun c hc => by rw [← Option.some.inj hc, hbs]; rfl

/-- The names that the TLV loop leaves in a record. -/
structure Named (packet : ℕ → UInt8) (p l o : ℕ) (i r : PacketInfo) : Prop where
  chassis : r.lldpChassis = writeTexts i.lldpChassis (tlvNames packet p l 1 o)
  port : r.lldpPort = writeTexts i.lldpPort (tlvNames packet p l 2 o)
  extraInfo : r.extraInfo = i.extraInfo
  appLayerInfo : r.appLayerInfo = i.appLayerInfo
  dnsQuery : r.dnsQuery = i.dnsQuery
  tlsSni : r.tlsSni = i.tlsSni

/-- Without names nothing is left. -/
theorem Named.refl {p l o : ℕ} (h1 : tlvNames packet p l 1 o = [])
    (h2 : tlvNames packet p l 2 o = []) (i : PacketInfo) : Named packet p l o i i :=
  ⟨by rw [h1, writeTexts_nil], by rw [h2, writeTexts_nil], rfl, rfl, rfl, rfl⟩

/-- A TLV at `o` whose names come before those from `o'` on. -/
theorem Named.step {p l o o' : ℕ} {i j r : PacketInfo} (h : Named packet p l o' j r)
    (hc : writeTexts j.lldpChassis (tlvNames packet p l 1 o') =
      writeTexts i.lldpChassis (tlvNames packet p l 1 o))
    (hp : writeTexts j.lldpPort (tlvNames packet p l 2 o') =
      writeTexts i.lldpPort (tlvNames packet p l 2 o))
    (hsame : j.extraInfo = i.extraInfo ∧ j.appLayerInfo = i.appLayerInfo ∧
      j.dnsQuery = i.dnsQuery ∧ j.tlsSni = i.tlsSni) : Named packet p l o i r where
  chassis := h.chassis.trans hc
  port := h.port.trans hp
  extraInfo := h.extraInfo.trans hsame.1
  appLayerInfo := h.appLayerInfo.trans hsame.2.1
  dnsQuery := h.dnsQuery.trans hsame.2.2.1
  tlsSni := h.tlsSni.trans hsame.2.2.2

/-- The length field of a TLV. -/
def tlvLen (tlv : UInt16) : ℕ := (tlv &&& 0x01FF).toNat

section

variable {p l o : ℕ} {tlv type : UInt16} (hfit : o + 2 ≤ l)
  (htlv : tlv = be16 (packet (p + o)) (packet (p + o + 1)))

include hfit htlv

theorem tlvNames_cut (hcut : l < o + 2 + tlvLen tlv) : tlvNames packet p l type o = [] := by
  unfold tlvNames tlvLen at *
  subst htlv
  rw [if_pos hfit]
  exact if_pos hcut

theorem tlvNames_name (hcut : ¬ l < o + 2 + tlvLen tlv) (htype : tlv >>> 9 = type) :
    tlvNames packet p l type o = slice packet (p + o + 2 + 1) (min (tlvLen tlv - 1) 31) ::
      tlvNames packet p l type (o + 2 + tlvLen tlv) := by
  unfold tlvLen at *
  subst htlv
  rw [tlvNames, if_pos hfit]
  exact (if_neg hcut).trans (if_pos htype)

theorem tlvNames_end (htype : tlv >>> 9 ≠ type) (h0 : tlv >>> 9 = 0) :
    tlvNames packet p l type o = [] := by
  subst htlv
  rw [tlvNames, if_pos hfit]
  dsimp only
  rw [if_neg htype, if_pos h0, ite_self]

theorem tlvNames_skip (hcut : ¬ l < o + 2 + tlvLen tlv) (htype : tlv >>> 9 ≠ type)
    (h0 : tlv >>> 9 ≠ 0) :
    tlvNames packet p l type o = tlvNames packet p l type (o + 2 + tlvLen tlv) := by
  unfold tlvLen at *
  subst htlv
  rw [tlvNames, if_pos hfit]
  exact (if_neg hcut).trans ((if_neg htype).trans (if_neg h0))

end

theorem named_lldpLoop (p l o : ℕ) (i : PacketInfo) :
    Ensures (fun r => ∀ j, r = some j → Named packet p l o i j) (lldpLoop packet p l o i) := by
  unfold lldpLoop
  by_cases hfit : o + 2 ≤ l
  swap
  · have hno : ∀ type, tlvNames packet p l type o = [] := by
      intro type
      rw [tlvNames, if_neg hfit]
    rw [if_neg hfit]
    exact .pure fun j hj => Option.some.inj hj ▸ .refl (hno 1) (hno 2) i
  rw [if_pos hfit]
  refine .bind (P := fun t => t = be16 (packet (p + o)) (packet (p + o + 1))) rfl fun tlv htlv => ?_
  dsimp only
  rw [← tlvLen]
  by_cases hcut : l < o + 2 + tlvLen tlv
  · rw [if_pos hcut]
    exact .pure fun j hj => Option.some.inj hj ▸
      .refl (tlvNames_cut hfit htlv hcut) (tlvNames_cut hfit htlv hcut) i
  rw [if_neg hcut]
  by_cases h1 : tlv >>> 9 = 1
  · rw [if_pos h1]
    refine .bind (val_lldpName _ _ _ _) fun r hr => ?_
    cases r with
    | none => exact .pure fun j hj => by cases hj
    | some c =>
      refine (named_lldpLoop p l (o + 2 + tlvLen tlv) _).mono fun r hn j hj =>
        (hn j hj).step ?_ ?_ ⟨rfl, rfl, rfl, rfl⟩
      · rw [tlvNames_name hfit htlv hcut h1, writeTexts_cons, hr c rfl]
      · rw [tlvNames_skip hfit htlv hcut (by rw [h1]; decide) (by rw [h1]; decide)]
  rw [if_neg h1]
  by_cases h2 : tlv >>> 9 = 2
  · rw [if_pos h2]
    refine .bind (val_lldpName _ _ _ _) fun r hr => ?_
    cases r with
    | none => exact .pure fun j hj => by cases hj
    | some c =>
      refine (named_lldpLoop p l (o + 2 + tlvLen tlv) _).mono fun r hn j hj =>
        (hn j hj).step ?_ ?_ ⟨rfl, rfl, rfl, rfl⟩
      · rw [tlvNames_skip hfit htlv hcut (by rw [h2]; decide) (by rw [h2]; decide)]
      · rw [tlvNames_name hfit htlv hcut h2, writeTexts_cons, hr c rfl]
  rw [if_neg h2]
  by_cases h0 : tlv >>> 9 = 0
  · rw [if_pos h0]
    exact .pure fun j hj => Option.some.inj hj ▸
      .refl (tlvNames_end hfit htlv h1 h0) (tlvNames_end hfit htlv h2 h0) i
  · rw [if_neg h0]
    refine (named_lldpLoop p l (o + 2 + tlvLen tlv) _).mono fun r hn j hj =>
      (hn j hj).step ?_ ?_ ⟨rfl, rfl, rfl, rfl⟩
    · rw [tlvNames_skip hfit htlv hcut h1 h0]
    · rw [tlvNames_skip hfit htlv hcut h2 h0]
termination_by l - o

theorem nul_notMem_cString (v : Vector UInt8 n) : 0 ∉ cString v := by
  intro hmem
  have := List.mem_takeWhile_imp hmem
  simp at this

end Pacsni.Capture.Residue
