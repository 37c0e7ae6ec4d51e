import Pacsni.Capture.Dissectors

/-! # The most frequent byte

`calculate_byte_stats` counts the bytes of the capture and keeps, while it counts, the byte whose count
was the first to rise to the maximum so far. At the end this is the mode of the bytes, and of several
modes the one that reached its count first (`Mode`). -/

namespace Pacsni.Capture.ByteStats

open Pacsni.Lib.Trace
open Pacsni.Capture.Types Pacsni.Capture.Dissectors

/-- `top` occurs at least as often as any other byte; another one that occurs as often has not reached
this count in some prefix in which `top` has. -/
structure Mode (bs : List UInt8) (top : UInt8) : Prop where
  most : ∀ v, bs.count v ≤ bs.count top
  first : ∀ v, v ≠ top → bs.count v = bs.count top →
    ∃ pre, pre <+: bs ∧ pre.count top = bs.count top ∧ pre.count v < bs.count v

variable {bs : List UInt8} {st : ByteStats} {b top : UInt8}

/-- The state of the loop behind the bytes `bs`. -/
structure Counted (bs : List UInt8) (st : ByteStats) : Prop where
  counts : ∀ v, st.counts v = bs.count v
  maxF : ∀ v, bs.count v ≤ st.maxF
  empty : bs = [] → st.maxF = 0
  topByte : bs ≠ [] → bs.count st.topByte = st.maxF ∧ Mode bs st.topByte

theorem count_append_self (bs : List UInt8) (b : UInt8) : (bs ++ [b]).count b = bs.count b + 1 := by
  simp

theorem count_append_of_ne {v : UInt8} (bs : List UInt8) (h : v ≠ b) :
    (bs ++ [b]).count v = bs.count v := by
  simp [List.count_append, Ne.symm h]

/-- A byte whose count rises above all others is the only mode. -/
theorem mode_append_of_lt (h : ∀ v, bs.count v < bs.count b + 1) : Mode (bs ++ [b]) b where
  most v := by
    rw [count_append_self]
    by_cases hv : v = b
    · rw [hv, count_append_self]
    · rw [count_append_of_ne bs hv]
      exact (h v).le
  first v hv heq := by
    rw [count_append_self, count_append_of_ne bs hv] at heq
    have := h v
    omega

/-- A byte with a lower count leaves the count of the mode as it is. -/
theorem count_mode_append (h : bs.count b + 1 ≤ bs.count top) :
    (bs ++ [b]).count top = bs.count top := by
  refine count_append_of_ne bs ?_
  rintro rfl
  omega

/-- A byte whose count rises to the maximum at most leaves the mode as it is. -/
theorem Mode.append (hm : Mode bs top) (h : bs.count b + 1 ≤ bs.count top) :
    Mode (bs ++ [b]) top := by
  have htop := count_mode_append h
  constructor
  · intro v
    rw [htop]
    by_cases hv : v = b
    · rw [hv, count_append_self]
      exact h
    · rw [count_append_of_ne bs hv]
      exact hm.most v
  · intro v hv heq
    rw [htop] at heq ⊢
    by_cases hvb : v = b
    · subst hvb
      refine ⟨bs, List.prefix_append _ _, rfl, ?_⟩
      rw [count_append_self]
      exact Nat.lt_succ_self _
    · rw [count_append_of_ne bs hvb] at heq ⊢
      obtain ⟨pre, hpre, hcount, hlt⟩ := hm.first v hv heq
      exact ⟨pre, hpre.trans (List.prefix_append _ _), hcount, hlt⟩

/-- One iteration of the loop. -/
theorem Counted.step (h : Counted bs st) (b : UInt8) : Counted (bs ++ [b]) (byteStep st b) := by
  have hcounts : ∀ v, (if v = b then st.counts v + 1 else st.counts v) = (bs ++ [b]).count v := by
    intro v
    split_ifs with hv
    · rw [hv, count_append_self, h.counts]
    · rw [count_append_of_ne bs hv, h.counts]
  have hb := h.counts b
  unfold byteStep
  simp only [↓reduceIte]
  split_ifs with hmax
  · rw [hb] at hmax ⊢
    have hlt : ∀ v, bs.count v < bs.count b + 1 := fun v => lt_of_le_of_lt (h.maxF v) hmax
    have hmode := mode_append_of_lt hlt
    refine ⟨hcounts, fun v => ?_, fun he => ?_, fun _ => ⟨count_append_self bs b, hmode⟩⟩
    · exact (hmode.most v).trans (count_append_self bs b).le
    · exact absurd he (List.concat_ne_nil _ _)
  · rw [hb, not_lt] at hmax
    have hne : bs ≠ [] := fun he => by
      have := h.empty he
      omega
    obtain ⟨htop, hmode⟩ := h.topByte hne
    have hle : bs.count b + 1 ≤ bs.count st.topByte := hmax.trans htop.ge
    have hmode' := hmode.append hle
    have htop' := (count_mode_append hle).trans htop
    refine ⟨hcounts, fun v => ?_, fun he => ?_, fun _ => ⟨htop', hmode'⟩⟩
    · exact (hmode'.most v).trans htop'.le
    · exact absurd he (List.concat_ne_nil _ _)

/-- The loop. -/
theorem counted_foldl (bs : List UInt8) (top : UInt8) :
    Counted bs (bs.foldl byteStep ⟨fun _ => 0, 0, top⟩) := by
  induction bs using List.reverseRecOn with
  | nil => exact ⟨fun _ => rfl, fun _ => Nat.zero_le _, fun _ => rfl, fun h => absurd rfl h⟩
  | append_singleton bs b ih =>
    rw [List.foldl_append]
    exact ih.step b

/-- The bytes that are counted. -/
def bytesAt (packet : ℕ → UInt8) (d l : ℕ) : List UInt8 := (List.range l).map fun k => packet (d + k)

/-- **The mode of the bytes.** `top_byte` is the mode of the bytes, of several modes the first to reach
its count, and `top_byte_freq` is its share in percent, rounded down, which fits its byte. -/
theorem calculateByteStats_mode (packet : ℕ → UInt8) (d l : ℕ) (hl : 1 ≤ l) (hmax : l ≤ 256)
    (i : PacketInfo) :
    Mode (bytesAt packet d l) (calculateByteStats packet d l i).val.topByte ∧
    (calculateByteStats packet d l i).val.topByteFreq.toNat =
      100 * (bytesAt packet d l).count (calculateByteStats packet d l i).val.topByte / l ∧
    (calculateByteStats packet d l i).val.topByteFreq.toNat ≤ 100 := by
  have hcounted := counted_foldl (bytesAt packet d l) i.topByte
  have hlen : (bytesAt packet d l).length = l := by simp [bytesAt]
  have hne : bytesAt packet d l ≠ [] := List.ne_nil_of_length_pos (by omega)
  obtain ⟨htop, hmode⟩ := hcounted.topByte hne
  have hval : (calculateByteStats packet d l i).val =
      let st := (bytesAt packet d l).foldl byteStep ⟨fun _ => 0, 0, i.topByte⟩
      { i with topByte := st.topByte, topByteFreq := UInt8.ofNat (st.maxF * 100 / l) } := by
    rw [calculateByteStats, if_neg (by omega)]
    rfl
  rw [hval]
  dsimp only
  rw [← htop]
  generalize ((bytesAt packet d l).foldl byteStep ⟨fun _ => 0, 0, i.topByte⟩).topByte = top at hmode ⊢
  have hle : (bytesAt packet d l).count top ≤ l := (List.count_le_length).trans hlen.le
  have hshare : (bytesAt packet d l).count top * 100 / l ≤ 100 :=
    Nat.div_le_of_le_mul (Nat.mul_le_mul_right 100 hle)
  have hbyte : (UInt8.ofNat ((bytesAt packet d l).count top * 100 / l)).toNat =
      (bytesAt packet d l).count top * 100 / l := by
    rw [UInt8.toNat_ofNat']
    exact Nat.mod_eq_of_lt (by omega)
  refine ⟨hmode, ?_, hbyte.trans_le hshare⟩
  rw [hbyte, Nat.mul_comm]

/-- Two bytes that occur twice each: the one whose second occurrence comes first. -/
def tied (i : ℕ) : UInt8 := ([1, 2, 2, 1] : List UInt8).getD i 0

theorem tied_mode :
    Mode (bytesAt tied 0 4) (calculateByteStats tied 0 4 PacketInfo.zero).val.topByte ∧
    (calculateByteStats tied 0 4 PacketInfo.zero).val.topByteFreq.toNat =
      100 * (bytesAt tied 0 4).count (calculateByteStats tied 0 4 PacketInfo.zero).val.topByte / 4 ∧
    (calculateByteStats tied 0 4 PacketInfo.zero).val.topByteFreq.toNat ≤ 100 :=
  calculateByteStats_mode tied 0 4 (by decide) (by decide) PacketInfo.zero

end Pacsni.Capture.ByteStats
