import Pacsni.Lib.Runs

/-! # Atomic objects

The calls of threads on an object: a call is entered, takes effect at one moment, and returns what it
got at this moment. An object is described by what the effect of a call may be; the runs of its threads
are the runs of the atomic object (`Follows`). A machine whose every run can be told as such a run with
the same calls and returns is linearizable: its calls have the effects of the atomic object one after the
other, each between its call and its return (`follows_of_simulation`). -/

namespace Pacsni.Lib.Linear

open Pacsni.Lib.Runs

variable {ι op res σ : Type*}

/-- Where a thread is with a call. -/
inductive Phase (op res : Type*)
  | idle
  | called (o : op)
  | done (o : op) (r : res)

/-- What is seen of a run from outside. -/
inductive Visible (ι op res : Type*)
  | call (t : ι) (o : op)
  | ret (t : ι) (r : res)

/-- The object and its threads. -/
structure Atomic (ι op res σ : Type*) where
  object : σ
  phase : ι → Phase op res

variable [DecidableEq ι]

/-- A step of the thread `t`; `effect x t o r y` says that a call of `o` may take effect in `x`, with the
result `r` and with the object `y` behind it. -/
inductive Step (effect : Atomic ι op res σ → ι → op → res → σ → Prop) :
    Atomic ι op res σ → List (Visible ι op res) → Atomic ι op res σ → Prop
  | call {x : Atomic ι op res σ} (t : ι) (o : op) (h : x.phase t = .idle) :
      Step effect x [.call t o] { x with phase := Function.update x.phase t (.called o) }
  | effect {x : Atomic ι op res σ} (t : ι) {o : op} {r : res} {y : σ} (h : x.phase t = .called o)
      (he : effect x t o r y) :
      Step effect x [] ⟨y, Function.update x.phase t (.done o r)⟩
  | ret {x : Atomic ι op res σ} (t : ι) {o : op} {r : res} (h : x.phase t = .done o r) :
      Step effect x [.ret t r] { x with phase := Function.update x.phase t .idle }

/-- The runs of the atomic object with what is seen of them. -/
inductive Follows (effect : Atomic ι op res σ → ι → op → res → σ → Prop) (x : Atomic ι op res σ) :
    List (Visible ι op res) → Atomic ι op res σ → Prop
  | nil : Follows effect x [] x
  | step {l m y z} (h : Follows effect x l y) (hs : Step effect y m z) : Follows effect x (l ++ m) z

variable {effect : Atomic ι op res σ → ι → op → res → σ → Prop}

/-- A step, or none. -/
def Moves (effect : Atomic ι op res σ → ι → op → res → σ → Prop) (x : Atomic ι op res σ)
    (l : List (Visible ι op res)) (y : Atomic ι op res σ) : Prop :=
  Step effect x l y ∨ l = [] ∧ y = x

theorem Follows.moves {x y z : Atomic ι op res σ} {l m : List (Visible ι op res)}
    (h : Follows effect x l y) (hm : Moves effect y m z) : Follows effect x (l ++ m) z := by
  rcases hm with hs | ⟨rfl, rfl⟩
  · exact h.step hs
  · rwa [List.append_nil]

/-- **Simulation.** A machine whose steps are steps of the atomic object under the abstraction `f`, as
long as `P` holds, follows it to every state where `P` holds. -/
theorem follows_of_simulation {τ α : Type*} {M : Machine τ α} {note : τ → α → List (Visible ι op res)}
    {f : τ → Atomic ι op res σ} {P : τ → Prop} {x₀ : Atomic ι op res σ}
    (hinit : ∀ s, M.init s → f s = x₀)
    (hback : ∀ s a s', M.step s a = some s' → P s' → P s)
    (hstep : ∀ s a s', M.Reach s → M.step s a = some s' → P s' →
      Moves effect (f s) (note s a) (f s'))
    {s : τ} {l : List (Visible ι op res)} (h : (M.recorded note).Reach (s, l)) (hs : P s) :
    Follows effect x₀ l (f s) := by
  suffices hall : ∀ p : τ × List (Visible ι op res), (M.recorded note).Reach p →
      M.Reach p.1 ∧ (P p.1 → Follows effect x₀ p.2 (f p.1)) from (hall _ h).2 hs
  intro p hp
  refine Machine.Reach.invariant
    (I := fun p => M.Reach p.1 ∧ (P p.1 → Follows effect x₀ p.2 (f p.1))) hp
    (fun p ⟨h₀, hnil⟩ => ?_) fun p a p' ih ha => ?_
  · refine ⟨.of_init h₀, fun _ => ?_⟩
    rw [hnil, hinit _ h₀]
    exact .nil
  · obtain ⟨ha, hl⟩ := Machine.recorded_step.mp ha
    refine ⟨ih.1.next trivial ha, fun hok => ?_⟩
    rw [hl]
    exact (ih.2 (hback _ _ _ ha hok)).moves (hstep _ _ _ ih.1 ha hok)

end Pacsni.Lib.Linear
