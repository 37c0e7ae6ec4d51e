import Pacsni.Lib.Runs

/-! # Runs that end

If every step that meets `ok` lowers a measure, the length of a run of such steps is bounded by the measure
of its first state; if besides such a step can be taken wherever the work is not done, then it gets done,
whatever the order of the steps. -/

namespace Pacsni.Lib.Runs

namespace Machine

variable {σ α : Type*} {M : Machine σ α} {ok : σ → α → Prop} {I : σ → Prop} {μ : σ → ℕ} {s s' : σ}

/-- The steps from states with `I` that meet `ok` keep `I` and lower `μ`. -/
def Lowers (M : Machine σ α) (ok : σ → α → Prop) (I : σ → Prop) (μ : σ → ℕ) : Prop :=
  ∀ s a s', I s → ok s a → M.step s a = some s' → I s' ∧ μ s' < μ s

/-- **Bounded runs.** -/
theorem Lowers.length_le (h : M.Lowers ok I μ) : ∀ (as : List α) {s s' : σ}, I s → M.Along ok s as →
    M.exec s as = some s' → I s' ∧ as.length + μ s' ≤ μ s
  | [], s, s', hs, _, he => by
    obtain rfl : s = s' := Option.some.inj he
    exact ⟨hs, by simp⟩
  | a :: as, s, s', hs, hal, he => by
    obtain ⟨s₁, ha, he⟩ := Option.bind_eq_some_iff.mp he
    obtain ⟨hok, hal⟩ := hal
    rw [ha] at hal
    obtain ⟨h₁, hlt⟩ := h s a s₁ hs hok ha
    obtain ⟨hs', hle⟩ := Lowers.length_le h as h₁ hal he
    refine ⟨hs', ?_⟩
    rw [List.length_cons]
    omega

/-- **Runs that end.** From every state there is a run to one where the work is done. -/
theorem Lowers.exists_done (h : M.Lowers ok I μ) {Done : σ → Prop}
    (hprogress : ∀ s, I s → ¬ Done s → ∃ a s', ok s a ∧ M.step s a = some s') (hs : I s) :
    ∃ as s', M.Along ok s as ∧ M.exec s as = some s' ∧ Done s' := by
  induction hn : μ s using Nat.strong_induction_on generalizing s with
  | _ n ih =>
    by_cases hdone : Done s
    · exact ⟨[], s, trivial, rfl, hdone⟩
    · obtain ⟨a, s₁, hok, ha⟩ := hprogress s hs hdone
      obtain ⟨h₁, hlt⟩ := h s a s₁ hs hok ha
      obtain ⟨as, s', hal, he, hd⟩ := ih (μ s₁) (hn ▸ hlt) h₁ rfl
      exact ⟨a :: as, s', ⟨hok, by rw [ha]; exact hal⟩, by rw [exec, ha]; exact he, hd⟩

end Machine

end Pacsni.Lib.Runs
