import Pacsni.Capture.Dissectors

/-! # Dissectors that keep to their buffers

A dissector gets `l` bytes of the frame at `p` and text buffers of known sizes. Its trace is
*confined* if every byte it reads is one of the `l` bytes and every byte it writes is inside its
buffer. The rules follow the definitions of the dissectors: a bind, a branch, one load or store. -/

namespace Pacsni.Capture.Memory

open Pacsni.Lib.Bytes Pacsni.Lib.Trace Pacsni.Lib.CBuffer
open Pacsni.Capture.Types Pacsni.Capture.Dissectors

/-- Every read of the trace is of the `l` bytes at `p`, every write inside the buffer it goes to. -/
structure Confined (p l : ℕ) (size : Buf → ℕ) (log : List (Access Site)) : Prop where
  reads : ∀ a ∈ log, ∀ f, a.site = .read f → ∀ i, a.Touches i → p ≤ i ∧ i < p + l
  writes : ∀ a ∈ log, ∀ f b, a.site = .write f b → ∀ i, a.Touches i → i < size b

variable {n p l : ℕ} {size : Buf → ℕ} {packet : ℕ → UInt8}

@[simp] theorem confined_nil : Confined p l size [] := by
  constructor <;> simp

@[simp] theorem confined_append {l₁ l₂ : List (Access Site)} :
    Confined p l size (l₁ ++ l₂) ↔ Confined p l size l₁ ∧ Confined p l size l₂ := by
  constructor
  · intro h
    refine ⟨⟨fun a ha => h.reads a ?_, fun a ha => h.writes a ?_⟩,
      fun a ha => h.reads a ?_, fun a ha => h.writes a ?_⟩ <;> simp [ha]
  · rintro ⟨h₁, h₂⟩
    refine ⟨fun a ha => ?_, fun a ha => ?_⟩
    · rcases List.mem_append.mp ha with ha | ha
      · exact h₁.reads a ha
      · exact h₂.reads a ha
    · rcases List.mem_append.mp ha with ha | ha
      · exact h₁.writes a ha
      · exact h₂.writes a ha

/-- A block of `k` bytes from `i` on that is read. -/
theorem confined_read {f : Fn} {i k : ℕ} :
    Confined p l size [⟨.read f, i, k⟩] ↔ k = 0 ∨ (p ≤ i ∧ i + k ≤ p + l) := by
  constructor
  · intro h
    by_cases hk : k = 0
    · exact Or.inl hk
    · have hfirst := h.reads _ (List.mem_singleton_self _) f rfl i ⟨le_rfl, by dsimp only; omega⟩
      have hlast := h.reads _ (List.mem_singleton_self _) f rfl (i + k - 1)
        ⟨by dsimp only; omega, by dsimp only; omega⟩
      exact Or.inr ⟨by omega, by omega⟩
  · intro h
    refine ⟨fun a ha g _ j hj => ?_, fun a ha g b hsite => ?_⟩
    · rw [List.mem_singleton.mp ha] at hj
      have h1 : i ≤ j := hj.1
      have h2 : j < i + k := hj.2
      omega
    · rw [List.mem_singleton.mp ha] at hsite
      cases hsite

/-- A block of `k` bytes from `i` on that is written. -/
theorem confined_write {f : Fn} {b : Buf} {i k : ℕ} :
    Confined p l size [⟨.write f b, i, k⟩] ↔ k = 0 ∨ i + k ≤ size b := by
  constructor
  · intro h
    by_cases hk : k = 0
    · exact Or.inl hk
    · have hlast := h.writes _ (List.mem_singleton_self _) f b rfl (i + k - 1)
        ⟨by dsimp only; omega, by dsimp only; omega⟩
      exact Or.inr (by omega)
  · intro h
    refine ⟨fun a ha g hsite => ?_, fun a ha g c hsite j hj => ?_⟩
    · rw [List.mem_singleton.mp ha] at hsite
      cases hsite
    · rw [List.mem_singleton.mp ha] at hsite hj
      have h1 : i ≤ j := hj.1
      have h2 : j < i + k := hj.2
      cases hsite
      omega

/-! ### Rules -/

section

variable {α β : Type}

theorem Confined.pure {a : α} : Confined p l size (Pure.pure a : C α).log := confined_nil

theorem confined_bind_iff {x : C α} {f : α → C β} (hx : Confined p l size x.log) :
    Confined p l size (x >>= f).log ↔ Confined p l size (f x.val).log := by
  rw [log_bind, confined_append, and_iff_right hx]

theorem Confined.bind {x : C α} {f : α → C β} (hx : Confined p l size x.log)
    (hf : Confined p l size (f x.val).log) : Confined p l size (x >>= f).log :=
  (confined_bind_iff hx).mpr hf

theorem Confined.ite {c : Prop} [Decidable c] {x y : C α} (hx : c → Confined p l size x.log)
    (hy : ¬ c → Confined p l size y.log) : Confined p l size (if c then x else y).log := by
  split_ifs with h
  · exact hx h
  · exact hy h

end

theorem confined_load8 {f : Fn} {i : ℕ} (hi : p ≤ i) (h : i + 1 ≤ p + l) :
    Confined p l size (load8 packet (.read f) i).log := confined_read.mpr (Or.inr ⟨hi, h⟩)

theorem confined_load16 {f : Fn} {i : ℕ} (hi : p ≤ i) (h : i + 2 ≤ p + l) :
    Confined p l size (load16 packet (.read f) i).log := confined_read.mpr (Or.inr ⟨hi, h⟩)

theorem confined_load32 {f : Fn} {i : ℕ} (hi : p ≤ i) (h : i + 4 ≤ p + l) :
    Confined p l size (load32 packet (.read f) i).log := confined_read.mpr (Or.inr ⟨hi, h⟩)

theorem confined_loadBytes {f : Fn} {i k : ℕ} (hi : p ≤ i) (h : i + k ≤ p + l) :
    Confined p l size (loadBytes packet (.read f) i k).log := confined_read.mpr (Or.inr ⟨hi, h⟩)

theorem confined_touch {f : Fn} {b : Buf} {i k : ℕ} (h : i + k ≤ size b) :
    Confined p l size (touch (Site.write f b) i k).log := confined_write.mpr (Or.inr h)

/-- `snprintf` keeps to the `m` bytes it is told. -/
theorem confined_snprintf {f : Fn} {b : Buf} {i m : ℕ} (h : i + m ≤ size b) (v : Vector UInt8 n)
    (text : List UInt8) : Confined p l size (snprintf (.write f b) v i m text).log := by
  unfold snprintf
  refine .ite (fun _ => .pure) fun hm => .bind (confined_touch ?_) .pure
  rw [List.length_append, List.length_take, List.length_singleton]
  omega

theorem confined_say {f : Fn} {m : ℕ} (h : m ≤ size .out) (o : Vector UInt8 n) :
    ∀ t : Option (List UInt8), Confined p l size (say f o m t).log
  | none => .pure
  | some text => confined_snprintf (by omega) o text

/-! ### Computations that read and then go on -/

/-- No access of the trace is a write. -/
def Silent (log : List (Access Site)) : Prop := ∀ a ∈ log, ∀ f b, a.site ≠ .write f b

theorem silent_nil : Silent [] := by simp [Silent]

theorem Silent.append {l₁ l₂ : List (Access Site)} (h₁ : Silent l₁) (h₂ : Silent l₂) :
    Silent (l₁ ++ l₂) := by
  intro a ha
  rcases List.mem_append.mp ha with ha | ha
  · exact h₁ a ha
  · exact h₂ a ha

theorem silent_read {f : Fn} {i k : ℕ} : Silent [⟨.read f, i, k⟩] := by
  intro a ha g b hsite
  rw [List.mem_singleton.mp ha] at hsite
  cases hsite

/-- The computation `x` reads, and then does what `y` does. -/
def ReadsThen {α : Type} (x y : C α) : Prop :=
  ∃ reads, Silent reads ∧ x.val = y.val ∧ x.log = reads ++ y.log

section

variable {α β : Type} {y : C β}

theorem ReadsThen.refl : ReadsThen y y := ⟨[], silent_nil, rfl, rfl⟩

theorem ReadsThen.bind {x : C α} {f : α → C β} (hx : Silent x.log) (hf : ReadsThen (f x.val) y) :
    ReadsThen (x >>= f) y := by
  obtain ⟨reads, hreads, hval, hlog⟩ := hf
  refine ⟨x.log ++ reads, hx.append hreads, hval, ?_⟩
  rw [log_bind, hlog, List.append_assoc]

theorem ReadsThen.load8 {g : Fn} {i : ℕ} {f : UInt8 → C β} (hf : ReadsThen (f (packet i)) y) :
    ReadsThen (Lib.Trace.load8 packet (.read g) i >>= f) y := .bind silent_read hf

theorem ReadsThen.load16 {g : Fn} {i : ℕ} {f : UInt16 → C β}
    (hf : ReadsThen (f (be16 (packet i) (packet (i + 1)))) y) :
    ReadsThen (Lib.Trace.load16 packet (.read g) i >>= f) y := .bind silent_read hf

theorem ReadsThen.loadBytes {g : Fn} {i k : ℕ} {f : List UInt8 → C β}
    (hf : ReadsThen (f (slice packet i k)) y) :
    ReadsThen (Lib.Trace.loadBytes packet (.read g) i k >>= f) y := .bind silent_read hf

end

end Pacsni.Capture.Memory
