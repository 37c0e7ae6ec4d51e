import Mathlib

/-! # Machines and their runs

A machine has initial states and actions; an action that is not enabled in a state yields `none`.
`ReachVia ok s` says that `s` is reached by a run whose steps all meet `ok`, and `invariant` is the
induction over such runs. `Leads s s'` is a run from one state to a later one, and `recorded` adds a
log to a machine that its steps write and do not read. -/

namespace Pacsni.Lib.Runs

/-- Initial states, and what an action does to a state. -/
structure Machine (σ α : Type*) where
  init : σ → Prop
  step : σ → α → Option σ

namespace Machine

variable {σ α : Type*} (M : Machine σ α)

/-- `s'` follows `s` by an action that meets `ok`. -/
def Next (ok : σ → α → Prop) (s s' : σ) : Prop := ∃ a, ok s a ∧ M.step s a = some s'

/-- A run whose steps all meet `ok` ends in `s`. -/
def ReachVia (ok : σ → α → Prop) (s : σ) : Prop :=
  ∃ s₀, M.init s₀ ∧ Relation.ReflTransGen (M.Next ok) s₀ s

/-- A run ends in `s`. -/
def Reach (s : σ) : Prop := M.ReachVia (fun _ _ => True) s

variable {M} {ok : σ → α → Prop} {s s' : σ} {a : α}

/-- **Invariants.** What holds initially and is kept by the steps that meet `ok` holds in every state
that such steps reach. -/
theorem ReachVia.invariant {I : σ → Prop} (h : M.ReachVia ok s) (hinit : ∀ s, M.init s → I s)
    (hstep : ∀ s a s', I s → ok s a → M.step s a = some s' → I s') : I s := by
  obtain ⟨s₀, h₀, hrun⟩ := h
  induction hrun with
  | refl => exact hinit s₀ h₀
  | tail _ hnext ih =>
    obtain ⟨a, hok, ha⟩ := hnext
    exact hstep _ a _ ih hok ha

theorem Reach.invariant {I : σ → Prop} (h : M.Reach s) (hinit : ∀ s, M.init s → I s)
    (hstep : ∀ s a s', I s → M.step s a = some s' → I s') : I s :=
  ReachVia.invariant h hinit fun s a s' hs _ ha => hstep s a s' hs ha

theorem ReachVia.mono {ok' : σ → α → Prop} (h : M.ReachVia ok s) (hok : ∀ s a, ok s a → ok' s a) :
    M.ReachVia ok' s := by
  obtain ⟨s₀, h₀, hrun⟩ := h
  have hnext : M.Next ok ≤ M.Next ok' := by
    rintro s s' ⟨a, ha, hs'⟩
    exact ⟨a, hok s a ha, hs'⟩
  exact ⟨s₀, h₀, Relation.ReflTransGen.mono hnext s₀ s hrun⟩

theorem ReachVia.of_init (h : M.init s) : M.ReachVia ok s := ⟨s, h, .refl⟩

theorem ReachVia.next (h : M.ReachVia ok s) (hok : ok s a) (ha : M.step s a = some s') :
    M.ReachVia ok s' := by
  obtain ⟨s₀, h₀, hrun⟩ := h
  exact ⟨s₀, h₀, hrun.tail ⟨a, hok, ha⟩⟩

/-- What the steps from the states of such runs keep. -/
theorem ReachVia.invariant_of_reach {I : σ → Prop} (h : M.ReachVia ok s) (hinit : ∀ s, M.init s → I s)
    (hstep : ∀ s a s', M.ReachVia ok s → I s → ok s a → M.step s a = some s' → I s') : I s := by
  have hboth : M.ReachVia ok s ∧ I s := by
    refine invariant (I := fun s => M.ReachVia ok s ∧ I s) h (fun s hs => ⟨.of_init hs, hinit s hs⟩) ?_
    rintro s a s' ⟨hs, hi⟩ hok ha
    exact ⟨hs.next hok ha, hstep s a s' hs hi hok ha⟩
  exact hboth.2

/-- The state after a list of actions. -/
def exec (M : Machine σ α) : σ → List α → Option σ
  | s, [] => some s
  | s, a :: as => (M.step s a).bind fun s' => M.exec s' as

/-- Every step of the list of actions meets `ok`. -/
def Along (M : Machine σ α) (ok : σ → α → Prop) : σ → List α → Prop
  | _, [] => True
  | s, a :: as => ok s a ∧ (M.step s a).elim True fun s' => M.Along ok s' as

/-- A list of actions is a run. -/
theorem ReachVia.exec : ∀ {s s' : σ} (as : List α), M.ReachVia ok s → M.Along ok s as →
    M.exec s as = some s' → M.ReachVia ok s'
  | s, s', [], h, _, he => by
    obtain rfl : s = s' := Option.some.inj he
    exact h
  | s, s', a :: as, h, hal, he => by
    obtain ⟨s₁, ha, he⟩ := Option.bind_eq_some_iff.mp he
    obtain ⟨hok, hal⟩ := hal
    rw [ha] at hal
    exact ReachVia.exec as (h.next hok ha) hal he

/-- A condition that does not depend on the states. -/
theorem along_of_forall : ∀ (s : σ) (as : List α), (∀ a ∈ as, ∀ s, ok s a) → M.Along ok s as
  | _, [], _ => trivial
  | s, a :: as, h => by
    refine ⟨h a List.mem_cons_self s, ?_⟩
    cases M.step s a with
    | none => trivial
    | some s' => exact along_of_forall s' as fun a' ha' => h a' (List.mem_cons_of_mem _ ha')

theorem along_true (s : σ) (as : List α) : M.Along (fun _ _ => True) s as :=
  along_of_forall s as fun _ _ _ => trivial

theorem Reach.exec (as : List α) (h : M.Reach s) (he : M.exec s as = some s') : M.Reach s' :=
  ReachVia.exec as h (along_true s as) he

/-! ### From one state to a later one -/

/-- A run from `s` ends in `s'`. -/
def Leads (M : Machine σ α) (s s' : σ) : Prop :=
  Relation.ReflTransGen (M.Next fun _ _ => True) s s'

theorem Reach.leads (h : M.Reach s) (hrun : M.Leads s s') : M.Reach s' := by
  obtain ⟨s₀, h₀, hrun₀⟩ := h
  exact ⟨s₀, h₀, hrun₀.trans hrun⟩

/-- What holds in a reachable state and is kept by the steps from reachable states holds in every later
state. -/
theorem Leads.invariant {I : σ → Prop} (hrun : M.Leads s s') (h : M.Reach s) (hs : I s)
    (hstep : ∀ t a t', M.Reach t → I t → M.step t a = some t' → I t') : I s' := by
  have hboth : M.Reach s' ∧ I s' := by
    induction hrun with
    | refl => exact ⟨h, hs⟩
    | tail _ hnext ih =>
      obtain ⟨a, hok, ha⟩ := hnext
      exact ⟨ih.1.next hok ha, hstep _ a _ ih.1 ih.2 ha⟩
  exact hboth.2

theorem Leads.exec : ∀ {s s' : σ} (as : List α), M.exec s as = some s' → M.Leads s s'
  | s, s', [], he => by
    obtain rfl : s = s' := Option.some.inj he
    exact .refl
  | s, s', a :: as, he => by
    obtain ⟨s₁, ha, he⟩ := Option.bind_eq_some_iff.mp he
    exact .head ⟨a, trivial, ha⟩ (Leads.exec as he)

/-! ### Logs -/

variable {ε : Type*} {note : σ → α → List ε}

/-- The machine with a log, to which the step `a` from `s` adds `note s a`. -/
def recorded (M : Machine σ α) (note : σ → α → List ε) : Machine (σ × List ε) α where
  init x := M.init x.1 ∧ x.2 = []
  step x a := (M.step x.1 a).map fun s' => (s', x.2 ++ note x.1 a)

theorem recorded_step {x x' : σ × List ε} :
    (M.recorded note).step x a = some x' ↔
      M.step x.1 a = some x'.1 ∧ x'.2 = x.2 ++ note x.1 a := by
  show (M.step x.1 a).map _ = some x' ↔ _
  rw [Option.map_eq_some_iff]
  constructor
  · rintro ⟨s', hs', rfl⟩
    exact ⟨hs', rfl⟩
  · rintro ⟨hs', hlog⟩
    exact ⟨x'.1, hs', Prod.ext rfl hlog.symm⟩

/-- Every run has a log. -/
theorem Reach.exists_recorded (h : M.Reach s) : ∃ l, (M.recorded note).Reach (s, l) := by
  refine Reach.invariant (I := fun s => ∃ l, (M.recorded note).Reach (s, l)) h ?_ ?_
  · intro s hs
    exact ⟨[], .of_init ⟨hs, rfl⟩⟩
  · rintro s a s' ⟨l, hl⟩ ha
    exact ⟨l ++ note s a, hl.next trivial (recorded_step.mpr ⟨ha, rfl⟩)⟩

end Machine

end Pacsni.Lib.Runs
