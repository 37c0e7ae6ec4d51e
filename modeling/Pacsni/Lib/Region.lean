import Pacsni.Lib.Bytes

/-! # Memory that holds given bytes

`Holds mem off bs` says that the bytes `bs` lie in memory from `off` on. It splits along appends, so
a serialised record is taken apart piece by piece, and a number that was written in network order is
read back by the loads of its bytes. -/

namespace Pacsni.Lib.Region

open Pacsni.Lib.Bytes

variable {mem : ℕ → UInt8} {off : ℕ}

/-- The bytes `bs` lie in memory from `off` on. -/
def Holds (mem : ℕ → UInt8) (off : ℕ) (bs : List UInt8) : Prop :=
  ∀ j (h : j < bs.length), mem (off + j) = bs[j]

theorem holds_append {xs ys : List UInt8} :
    Holds mem off (xs ++ ys) ↔ Holds mem off xs ∧ Holds mem (off + xs.length) ys := by
  constructor
  · intro h
    refine ⟨fun j hj => ?_, fun j hj => ?_⟩
    · rw [h j (by rw [List.length_append]; omega), List.getElem_append_left hj]
    · rw [Nat.add_assoc, h (xs.length + j) (by rw [List.length_append]; omega)]
      simp
  · rintro ⟨hx, hy⟩ j hj
    by_cases hlt : j < xs.length
    · rw [List.getElem_append_left hlt, hx j hlt]
    · rw [List.length_append] at hj
      rw [List.getElem_append_right (by omega), ← hy (j - xs.length) (by omega)]
      congr 1
      omega

theorem holds_cons {b : UInt8} {bs : List UInt8} :
    Holds mem off (b :: bs) ↔ mem off = b ∧ Holds mem (off + 1) bs := by
  rw [← List.singleton_append, holds_append]
  refine and_congr_left fun _ => ⟨fun h => h 0 (by simp), fun h j hj => ?_⟩
  obtain rfl : j = 0 := by simpa using hj
  exact h

theorem Holds.be16 {x : UInt16} (h : Holds mem off (beBytes16 x)) :
    Bytes.be16 (mem off) (mem (off + 1)) = x := by
  obtain ⟨h0, h1, -⟩ := holds_cons.mp h |>.imp_right holds_cons.mp
  rw [h0, h1, be16_beBytes]

theorem Holds.be32 {x : UInt32} (h : Holds mem off (beBytes32 x)) :
    Bytes.be32 (mem off) (mem (off + 1)) (mem (off + 2)) (mem (off + 3)) = x := by
  have h0 := h 0 (by simp)
  have h1 := h 1 (by simp)
  have h2 := h 2 (by simp)
  have h3 := h 3 (by simp)
  rw [Nat.add_zero] at h0
  rw [h0, h1, h2, h3]
  exact be32_beBytes x

theorem Holds.map_range {bs : List UInt8} (h : Holds mem off bs) :
    (List.range bs.length).map (fun k => mem (off + k)) = bs := by
  apply List.ext_getElem
  · simp
  · intro i h1 h2
    rw [List.getElem_map, List.getElem_range, h i h2]

end Pacsni.Lib.Region
