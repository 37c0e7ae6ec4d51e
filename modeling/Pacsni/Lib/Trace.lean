import Pacsni.Lib.Bytes

/-! # Computations that record the memory they touch

`Traced σ α` is a value together with the list of memory blocks that were touched to compute it, in
program order. A block names the program site that touched it (a type `σ` of the client's choice),
its first index and its length, so a copy of `n` bytes is one entry. Memory itself is a total
function `ℕ → UInt8`: a load out of bounds returns whatever lies there, and it is the trace that
shows it. `val` and `log` of a bind are computed by `simp`. -/

namespace Pacsni.Lib.Trace

open Pacsni.Lib.Bytes

/-- A block of `len` consecutive bytes from index `start` on, touched at `site`. -/
structure Access (σ : Type) where
  site : σ
  start : ℕ
  len : ℕ
deriving DecidableEq, Repr

namespace Access

variable {σ : Type}

/-- The access touches index `i`. -/
def Touches (a : Access σ) (i : ℕ) : Prop := a.start ≤ i ∧ i < a.start + a.len

/-- Every index the access touches is below `n`. -/
def Below (a : Access σ) (n : ℕ) : Prop := ∀ i, a.Touches i → i < n

theorem below_iff {a : Access σ} {n : ℕ} : a.Below n ↔ a.len = 0 ∨ a.start + a.len ≤ n := by
  constructor
  · intro h
    rcases Nat.eq_zero_or_pos a.len with h0 | hpos
    · exact Or.inl h0
    · have := h (a.start + a.len - 1) ⟨by omega, by omega⟩
      right; omega
  · rintro (h | h) i ⟨h1, h2⟩ <;> omega

end Access

/-- A value and the blocks touched to compute it, in program order. -/
@[ext] structure Traced (σ α : Type) where
  val : α
  log : List (Access σ)

variable {σ α β : Type}

instance : Monad (Traced σ) where
  pure a := ⟨a, []⟩
  bind x f := ⟨(f x.val).val, x.log ++ (f x.val).log⟩

@[simp] theorem val_pure (a : α) : (pure a : Traced σ α).val = a := rfl
@[simp] theorem log_pure (a : α) : (pure a : Traced σ α).log = [] := rfl
@[simp] theorem val_bind (x : Traced σ α) (f : α → Traced σ β) :
    (x >>= f).val = (f x.val).val := rfl
@[simp] theorem log_bind (x : Traced σ α) (f : α → Traced σ β) :
    (x >>= f).log = x.log ++ (f x.val).log := rfl

/-- The computation, its value together with the fact that it is the value: what a loop needs to
show that its cursor moves. -/
def Traced.attach (x : Traced σ α) : Traced σ {a : α // a = x.val} := ⟨⟨x.val, rfl⟩, x.log⟩

@[simp] theorem val_attach (x : Traced σ α) : x.attach.val = ⟨x.val, rfl⟩ := rfl
@[simp] theorem log_attach (x : Traced σ α) : x.attach.log = x.log := rfl

/-! ### Traces that stay below a bound -/

/-- Every access of the trace at a site of `S` stays below `n`. -/
def StaysBelow (S : σ → Prop) (n : ℕ) (l : List (Access σ)) : Prop :=
  ∀ a ∈ l, S a.site → a.Below n

@[simp] theorem staysBelow_nil (S : σ → Prop) (n : ℕ) : StaysBelow S n [] := by simp [StaysBelow]

@[simp] theorem staysBelow_append {S : σ → Prop} {n : ℕ} {l m : List (Access σ)} :
    StaysBelow S n (l ++ m) ↔ StaysBelow S n l ∧ StaysBelow S n m := by
  simp only [StaysBelow, List.mem_append]
  constructor
  · exact fun h => ⟨fun a ha => h a (Or.inl ha), fun a ha => h a (Or.inr ha)⟩
  · rintro ⟨h1, h2⟩ a (ha | ha)
    · exact h1 a ha
    · exact h2 a ha

@[simp] theorem staysBelow_cons {S : σ → Prop} {n i k : ℕ} {s : σ} {l : List (Access σ)} :
    StaysBelow S n (⟨s, i, k⟩ :: l) ↔ (S s → k = 0 ∨ i + k ≤ n) ∧ StaysBelow S n l := by
  simp [StaysBelow, Access.below_iff]

theorem StaysBelow.bind {S : σ → Prop} {n : ℕ} {x : Traced σ α} {f : α → Traced σ β}
    (hx : StaysBelow S n x.log) (hf : ∀ a, StaysBelow S n (f a).log) :
    StaysBelow S n (x >>= f).log := by
  rw [log_bind, staysBelow_append]
  exact ⟨hx, hf x.val⟩

theorem StaysBelow.bind_val {S : σ → Prop} {n : ℕ} {x : Traced σ α} {f : α → Traced σ β}
    (hx : StaysBelow S n x.log) (hf : ∀ a, x.val = a → StaysBelow S n (f a).log) :
    StaysBelow S n (x >>= f).log := by
  rw [log_bind, staysBelow_append]
  exact ⟨hx, hf x.val rfl⟩

/-- Every access of the trace is at a site of `P`. -/
def SitesIn (P : σ → Prop) (l : List (Access σ)) : Prop := ∀ a ∈ l, P a.site

@[simp] theorem sitesIn_nil (P : σ → Prop) : SitesIn P [] := by simp [SitesIn]

@[simp] theorem sitesIn_append {P : σ → Prop} {l m : List (Access σ)} :
    SitesIn P (l ++ m) ↔ SitesIn P l ∧ SitesIn P m := by
  simp only [SitesIn, List.mem_append]
  constructor
  · exact fun h => ⟨fun a ha => h a (Or.inl ha), fun a ha => h a (Or.inr ha)⟩
  · rintro ⟨h1, h2⟩ a (ha | ha)
    · exact h1 a ha
    · exact h2 a ha

@[simp] theorem sitesIn_cons {P : σ → Prop} {a : Access σ} {l : List (Access σ)} :
    SitesIn P (a :: l) ↔ P a.site ∧ SitesIn P l := by simp [SitesIn]

theorem SitesIn.mono {P Q : σ → Prop} {l : List (Access σ)} (h : SitesIn P l)
    (hPQ : ∀ s, P s → Q s) : SitesIn Q l := fun a ha => hPQ _ (h a ha)

section

variable {P : σ → Prop}

theorem SitesIn.pure {a : α} : SitesIn P (Pure.pure a : Traced σ α).log := sitesIn_nil P

theorem SitesIn.bind {x : Traced σ α} {f : α → Traced σ β} (hx : SitesIn P x.log)
    (hf : ∀ a, SitesIn P (f a).log) : SitesIn P (x >>= f).log := by
  rw [log_bind, sitesIn_append]
  exact ⟨hx, hf x.val⟩

theorem SitesIn.ite {c : Prop} [Decidable c] {x y : Traced σ α} (hx : SitesIn P x.log)
    (hy : SitesIn P y.log) : SitesIn P (if c then x else y).log := by
  split_ifs
  · exact hx
  · exact hy

end

/-- A trace whose sites are all outside `S` stays below everything. -/
theorem SitesIn.staysBelow {P S : σ → Prop} {n : ℕ} {l : List (Access σ)} (h : SitesIn P l)
    (hPS : ∀ s, P s → ¬ S s) : StaysBelow S n l := fun a ha hs => absurd hs (hPS _ (h a ha))

/-! ### Postconditions -/

/-- The value of the computation satisfies `Q`. -/
def Ensures (Q : α → Prop) (x : Traced σ α) : Prop := Q x.val

section

variable {P : α → Prop} {Q : β → Prop}

theorem Ensures.pure {b : β} (h : Q b) : Ensures Q (Pure.pure b : Traced σ β) := h

theorem Ensures.bind {x : Traced σ α} {f : α → Traced σ β} (hx : Ensures P x)
    (hf : ∀ a, P a → Ensures Q (f a)) : Ensures Q (x >>= f) := hf x.val hx

theorem Ensures.mono {Q' : β → Prop} {x : Traced σ β} (hx : Ensures Q x) (h : ∀ b, Q b → Q' b) :
    Ensures Q' x := h x.val hx

/-- A bind whose first part may return anything. -/
theorem Ensures.step {x : Traced σ α} {f : α → Traced σ β} (hf : ∀ a, Ensures Q (f a)) :
    Ensures Q (x >>= f) := hf x.val

theorem Ensures.ite {c : Prop} [Decidable c] {x y : Traced σ β} (hx : Ensures Q x)
    (hy : Ensures Q y) : Ensures Q (if c then x else y) := by
  split_ifs
  · exact hx
  · exact hy

end

/-! ### Loads and stores -/

/-- The byte at index `i`. -/
def load8 (mem : ℕ → UInt8) (s : σ) (i : ℕ) : Traced σ UInt8 := ⟨mem i, [⟨s, i, 1⟩]⟩

/-- The 16-bit number at index `i`, in network order. -/
def load16 (mem : ℕ → UInt8) (s : σ) (i : ℕ) : Traced σ UInt16 :=
  ⟨be16 (mem i) (mem (i + 1)), [⟨s, i, 2⟩]⟩

/-- The 32-bit number at index `i`, in network order. -/
def load32 (mem : ℕ → UInt8) (s : σ) (i : ℕ) : Traced σ UInt32 :=
  ⟨be32 (mem i) (mem (i + 1)) (mem (i + 2)) (mem (i + 3)), [⟨s, i, 4⟩]⟩

/-- The `n` bytes from index `i` on. -/
def loadBytes (mem : ℕ → UInt8) (s : σ) (i n : ℕ) : Traced σ (List UInt8) :=
  ⟨(List.range n).map fun k => mem (i + k), [⟨s, i, n⟩]⟩

/-- The entry left by a store of `n` bytes from index `i` on. -/
def touch (s : σ) (i n : ℕ) : Traced σ Unit := ⟨(), [⟨s, i, n⟩]⟩

variable (mem : ℕ → UInt8) (s : σ) (i n : ℕ)

@[simp] theorem val_load8 : (load8 mem s i).val = mem i := rfl
@[simp] theorem log_load8 : (load8 mem s i).log = [⟨s, i, 1⟩] := rfl
@[simp] theorem val_load16 : (load16 mem s i).val = be16 (mem i) (mem (i + 1)) := rfl
@[simp] theorem log_load16 : (load16 mem s i).log = [⟨s, i, 2⟩] := rfl
@[simp] theorem val_load32 : (load32 mem s i).val =
    be32 (mem i) (mem (i + 1)) (mem (i + 2)) (mem (i + 3)) := rfl
@[simp] theorem log_load32 : (load32 mem s i).log = [⟨s, i, 4⟩] := rfl
@[simp] theorem val_loadBytes : (loadBytes mem s i n).val =
    (List.range n).map fun k => mem (i + k) := rfl
@[simp] theorem log_loadBytes : (loadBytes mem s i n).log = [⟨s, i, n⟩] := rfl
@[simp] theorem log_touch : (touch s i n).log = [⟨s, i, n⟩] := rfl

end Pacsni.Lib.Trace
