import Pacsni.Lib.Bytes

/-! # Reading a byte buffer from its front

`Reader α` reads a value from the front of a buffer and leaves the rest. A read that asks for more
bytes than there are fails (`none`; the reader of the buffer panics). Every reader of this module has
a rule for a buffer that starts with the bytes it is made for (`bind_…`), and consumes a fixed number
of bytes: it looks at nothing behind them (`Consumes`). -/

namespace Pacsni.Lib.Cursor

open Pacsni.Lib.Bytes

/-- A reader of values of type `α`. -/
structure Reader (α : Type) where
  run : List UInt8 → Option (α × List UInt8)

variable {α β : Type}

instance : Monad Reader where
  pure a := ⟨fun bs => some (a, bs)⟩
  bind x f := ⟨fun bs => (x.run bs).bind fun r => (f r.1).run r.2⟩

theorem run_pure (a : α) (bs : List UInt8) : (pure a : Reader α).run bs = some (a, bs) := rfl

theorem run_bind_of {x : Reader α} {f : α → Reader β} {bs rest : List UInt8} {a : α}
    (h : x.run bs = some (a, rest)) : (x >>= f).run bs = (f a).run rest := by
  show (x.run bs).bind (fun r => (f r.1).run r.2) = (f a).run rest
  rw [h, Option.bind_some]

/-! ### Readers -/

/-- The `n` bytes at the front. -/
def copyToSlice (n : ℕ) : Reader (Vector UInt8 n) where
  run bs := if n ≤ bs.length then some (Vector.ofFn fun i => bs.getD i 0, bs.drop n) else none

/-- The little-endian number of `n` bytes at the front. -/
def getLe (n : ℕ) : Reader ℕ where
  run bs := if n ≤ bs.length then some (leNat (bs.take n), bs.drop n) else none

/-- `get_u8` -/
def getU8 : Reader UInt8 := do return UInt8.ofNat (← getLe 1)

/-- `get_u16_le` -/
def getU16Le : Reader UInt16 := do return UInt16.ofNat (← getLe 2)

/-- `get_u32_le` -/
def getU32Le : Reader UInt32 := do return UInt32.ofNat (← getLe 4)

/-- `get_u64_le` -/
def getU64Le : Reader UInt64 := do return UInt64.ofNat (← getLe 8)

/-- `advance` -/
def advance (n : ℕ) : Reader Unit where
  run bs := if n ≤ bs.length then some ((), bs.drop n) else none

/-- `k` values of one reader, in order. -/
def repeatRead (x : Reader α) : ℕ → Reader (List α)
  | 0 => pure []
  | k + 1 => do
    let a ← x
    let as ← repeatRead x k
    return a :: as

section

variable {n : ℕ} {bs : List UInt8} (h : n ≤ bs.length)

include h

theorem run_copyToSlice :
    (copyToSlice n).run bs = some (Vector.ofFn fun i => bs.getD i 0, bs.drop n) := if_pos h

theorem run_getLe : (getLe n).run bs = some (leNat (bs.take n), bs.drop n) := if_pos h

theorem run_advance : (advance n).run bs = some ((), bs.drop n) := if_pos h

end

/-! ### Reading what was written -/

section

variable (f : α → Reader β) (rest : List UInt8)

theorem copyToSlice_append {n : ℕ} (v : Vector UInt8 n) :
    (copyToSlice n).run (v.toList ++ rest) = some (v, rest) := by
  have hlen : v.toList.length = n := by simp
  rw [run_copyToSlice (by rw [List.length_append]; omega)]
  congr 2
  · apply Vector.ext
    intro i hi
    rw [Vector.getElem_ofFn]
    simp [List.getD_eq_getElem?_getD, List.getElem?_append, hi]
  · rw [List.drop_append, hlen]
    simp

theorem bind_copyToSlice {n : ℕ} (g : Vector UInt8 n → Reader β) (v : Vector UInt8 n) :
    (copyToSlice n >>= g).run (v.toList ++ rest) = (g v).run rest := run_bind_of (copyToSlice_append rest v)

theorem getLe_append {n m : ℕ} (h : m < 256 ^ n) :
    (getLe n).run (leBytes n m ++ rest) = some (m, rest) := by
  have hlen : (leBytes n m).length = n := length_leBytes n m
  rw [run_getLe (by rw [List.length_append]; omega), List.take_left' hlen, List.drop_left' hlen,
    leNat_leBytes n m h]

theorem bind_getU8 (g : UInt8 → Reader β) (b : UInt8) : (getU8 >>= g).run ([b] ++ rest) = (g b).run rest := by
  refine run_bind_of ?_
  have h := getLe_append (n := 1) (m := b.toNat) rest (by have := b.toNat_lt; omega)
  rw [show leBytes 1 b.toNat = [b] by simp [leBytes]] at h
  rw [getU8, run_bind_of h, run_pure]
  simp

theorem bind_getU16Le (g : UInt16 → Reader β) (x : UInt16) :
    (getU16Le >>= g).run (leBytes 2 x.toNat ++ rest) = (g x).run rest := by
  refine run_bind_of ?_
  rw [getU16Le, run_bind_of (getLe_append rest (by have := x.toNat_lt; omega)), run_pure]
  simp

theorem bind_getU32Le (g : UInt32 → Reader β) (x : UInt32) :
    (getU32Le >>= g).run (leBytes 4 x.toNat ++ rest) = (g x).run rest := by
  refine run_bind_of ?_
  rw [getU32Le, run_bind_of (getLe_append rest (by have := x.toNat_lt; omega)), run_pure]
  simp

theorem bind_getU64Le (g : UInt64 → Reader β) (x : UInt64) :
    (getU64Le >>= g).run (leBytes 8 x.toNat ++ rest) = (g x).run rest := by
  refine run_bind_of ?_
  rw [getU64Le, run_bind_of (getLe_append rest (by have := x.toNat_lt; omega)), run_pure]
  simp

theorem bind_advance {n : ℕ} (g : Unit → Reader β) (v : Vector UInt8 n) :
    (advance n >>= g).run (v.toList ++ rest) = (g ()).run rest := by
  refine run_bind_of ?_
  have hlen : v.toList.length = n := by simp
  rw [run_advance (by rw [List.length_append]; omega), List.drop_left' hlen]

theorem repeatRead_getU32Le : ∀ ws : List UInt32,
    (repeatRead getU32Le ws.length).run (leWords ws ++ rest) = some (ws, rest)
  | [] => rfl
  | w :: ws => by
    rw [leWords, List.flatMap_cons, List.append_assoc, List.length_cons, repeatRead, bind_getU32Le]
    exact run_bind_of (repeatRead_getU32Le ws)

theorem bind_repeatRead {n : ℕ} (g : List UInt32 → Reader β) (v : Vector UInt32 n) :
    (repeatRead getU32Le n >>= g).run (leWords v.toList ++ rest) = (g v.toList).run rest := by
  have h := repeatRead_getU32Le rest v.toList
  rw [Vector.length_toList] at h
  exact run_bind_of h

end

/-! ### Readers of fixed width -/

/-- The reader takes exactly `n` bytes, and its value depends on these only. -/
def Consumes (n : ℕ) (x : Reader α) : Prop :=
  ∀ bs : List UInt8, n ≤ bs.length → ∃ a,
    x.run (bs.take n) = some (a, []) ∧ x.run bs = some (a, bs.drop n)

theorem Consumes.pure (a : α) : Consumes 0 (Pure.pure a : Reader α) :=
  fun bs _ => ⟨a, by simp [run_pure], by simp [run_pure]⟩

theorem Consumes.bind {n m : ℕ} {x : Reader α} {f : α → Reader β} (hx : Consumes n x)
    (hf : ∀ a, Consumes m (f a)) : Consumes (n + m) (x >>= f) := by
  intro bs hlen
  obtain ⟨a, h1, h2⟩ := hx bs (by omega)
  obtain ⟨a', h1', h2'⟩ := hx (bs.take (n + m)) (by rw [List.length_take]; omega)
  rw [List.take_take, Nat.min_eq_left (Nat.le_add_right n m), h1, Option.some.injEq,
    Prod.mk.injEq] at h1'
  obtain ⟨rfl, -⟩ := h1'
  obtain ⟨b, h3, h4⟩ := hf a (bs.drop n) (by rw [List.length_drop]; omega)
  refine ⟨b, ?_, ?_⟩
  · rw [run_bind_of h2', List.drop_take, Nat.add_sub_cancel_left, h3]
  · rw [run_bind_of h2, h4, List.drop_drop]

/-- A read of `n` of the `m` bytes that are to be consumed. -/
theorem Consumes.step {n m : ℕ} {x : Reader α} {f : α → Reader β} (hx : Consumes n x)
    (hf : ∀ a, Consumes (m - n) (f a)) (h : n ≤ m := by decide) : Consumes m (x >>= f) := by
  have := hx.bind hf
  rwa [Nat.add_sub_cancel' h] at this

theorem consumes_copyToSlice (n : ℕ) : Consumes n (copyToSlice n) := by
  intro bs hlen
  refine ⟨Vector.ofFn fun i => bs.getD i 0, ?_, ?_⟩
  · have hl : (bs.take n).length = n := by rw [List.length_take]; omega
    rw [run_copyToSlice (by omega)]
    congr 2
    · apply Vector.ext
      intro i hi
      simp [List.getD_eq_getElem?_getD]
    · simp
  · rw [run_copyToSlice hlen]

theorem consumes_getLe (n : ℕ) : Consumes n (getLe n) := by
  intro bs hlen
  refine ⟨leNat (bs.take n), ?_, ?_⟩
  · have hl : (bs.take n).length = n := by rw [List.length_take]; omega
    rw [run_getLe (by omega), List.take_take, Nat.min_self]
    simp
  · rw [run_getLe hlen]

theorem consumes_getU8 : Consumes 1 getU8 := (consumes_getLe 1).bind fun _ => .pure _
theorem consumes_getU16Le : Consumes 2 getU16Le := (consumes_getLe 2).bind fun _ => .pure _
theorem consumes_getU32Le : Consumes 4 getU32Le := (consumes_getLe 4).bind fun _ => .pure _
theorem consumes_getU64Le : Consumes 8 getU64Le := (consumes_getLe 8).bind fun _ => .pure _

theorem consumes_advance (n : ℕ) : Consumes n (advance n) := by
  intro bs hlen
  have hl : (bs.take n).length = n := by rw [List.length_take]; omega
  refine ⟨(), ?_, ?_⟩
  · rw [run_advance (by omega)]
    simp
  · rw [run_advance hlen]

theorem consumes_repeatRead {n : ℕ} {x : Reader α} (hx : Consumes n x) :
    ∀ k : ℕ, Consumes (k * n) (repeatRead x k)
  | 0 => by rw [Nat.zero_mul]; exact .pure _
  | k + 1 => by
    have h := hx.bind fun a => (consumes_repeatRead hx k).bind fun as => Consumes.pure (a :: as)
    rwa [Nat.add_zero, Nat.add_comm, ← Nat.succ_mul] at h

/-! ### What is read -/

/-- Every value that the reader gives satisfies `P`, whatever the buffer holds. -/
def Gives (P : α → Prop) (x : Reader α) : Prop :=
  ∀ bs a rest, x.run bs = some (a, rest) → P a

theorem Gives.pure {P : α → Prop} {a : α} (h : P a) : Gives P (Pure.pure a : Reader α) := by
  intro bs b rest hrun
  rw [run_pure, Option.some.injEq, Prod.mk.injEq] at hrun
  rw [← hrun.1]
  exact h

theorem Gives.bind {Q : α → Prop} {P : β → Prop} {x : Reader α} {f : α → Reader β} (hx : Gives Q x)
    (hf : ∀ a, Q a → Gives P (f a)) : Gives P (x >>= f) := by
  intro bs b rest hrun
  obtain ⟨⟨a, mid⟩, ha, hb⟩ := Option.bind_eq_some_iff.mp hrun
  exact hf a (hx bs a mid ha) mid b rest hb

theorem Gives.skip {P : β → Prop} {x : Reader α} {f : α → Reader β} (hf : ∀ a, Gives P (f a)) :
    Gives P (x >>= f) :=
  Gives.bind (Q := fun _ => True) (fun _ _ _ _ => trivial) fun a _ => hf a

theorem gives_repeatRead (x : Reader α) : ∀ k : ℕ, Gives (fun as => as.length = k) (repeatRead x k)
  | 0 => .pure rfl
  | k + 1 => .skip fun a => (gives_repeatRead x k).bind fun as has => .pure (by
      rw [List.length_cons, has])

end Pacsni.Lib.Cursor
