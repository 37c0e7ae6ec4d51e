import Pacsni.Dashboard.Mutex

/-! # Status messages

A toggle request flips `isScanning` under `mu`, but reads it again and tells it to the clients behind
the section, so the messages of two requests can be enqueued in the other order than their flips. The
last status message is right, once all requests have finished, in every run in which a toggle request
never tells an old value as the last one of those that are under way. -/

namespace Pacsni.Dashboard.Status

open Pacsni.Lib.Runs
open Pacsni.Dashboard.Ring Pacsni.Dashboard.Lru Pacsni.Dashboard.Server Pacsni.Dashboard.Steps
open Pacsni.Dashboard.Mutex
open Pacsni.Dashboard.Geo (atlas started init_started SavedOK)

/-- The flag in the last status message of a sequence of messages. -/
def lastStatus (ms : List Message) : Option Bool :=
  ms.foldl (fun last => fun
    | .status b _ => some b
    | _ => last) none

/-- A toggle request that has flipped `isScanning` and not yet told it. -/
def Pending (x : Request) : Prop := x = .toggled ∨ ∃ b, x = .toggleRead b

variable {ι : Type*} {env : Env} {s s' : State ι}

/-- A toggle request tells the value that `isScanning` has, or another one will tell it later. -/
def Fresh (s : State ι) (a : Server.Action ι) : Prop :=
  ∀ r b, a = .request r → s.requests r = .toggleRead b →
    b = s.isScanning ∨ ∃ r', r' ≠ r ∧ Pending (s.requests r')

/-! ### The last status message -/

section

variable {ms : List Message}

theorem lastStatus_status (b : Bool) (f : Option Lib.Text.Str) :
    lastStatus (ms ++ [.status b f]) = some b := by
  simp [lastStatus]

theorem lastStatus_other {m : Message} (hm : ∀ b f, m ≠ .status b f) :
    lastStatus (ms ++ [m]) = lastStatus ms := by
  unfold lastStatus
  rw [List.foldl_append]
  cases m with
  | status b f => exact absurd rfl (hm b f)
  | _ => rfl

/-- A client that was connected later has the same last status message, if it has one. -/
theorem lastStatus_of_drop {k : ℕ} {b : Bool} (h : lastStatus (ms.drop k) = some b) :
    lastStatus ms = some b := by
  induction ms using List.reverseRecOn with
  | nil =>
    rw [List.drop_nil] at h
    exact h
  | append_singleton ms m ih =>
    rcases Nat.lt_or_ge ms.length k with hk | hk
    · rw [List.drop_eq_nil_of_le (by rw [List.length_append, List.length_singleton]; omega)] at h
      cases h
    · rw [List.drop_append_of_le_length hk] at h
      by_cases hm : ∃ b f, m = .status b f
      · obtain ⟨b', f, rfl⟩ := hm
        rw [lastStatus_status] at h ⊢
        exact h
      · have hother : ∀ b f, m ≠ .status b f := fun b f he => hm ⟨b, f, he⟩
        rw [lastStatus_other hother] at h ⊢
        exact ih h

end

/-! ### The invariant -/

/-- If no toggle request is under way, the last status message is right; and a filter request tells the
value that the flag has. -/
structure Inv (s : State ι) : Prop where
  locks : Locks s
  told : (∀ r, ¬ Pending (s.requests r)) → ∀ b, lastStatus s.broadcasts = some b → b = s.isScanning
  filterSet : ∀ r b f, s.requests r = .filterSet b f → b = s.isScanning

/-- A step that leaves requests, flag and status messages alone. -/
theorem Inv.same (hs : Inv s) (hlocks : Locks s') (hreq : s'.requests = s.requests)
    (hscan : s'.isScanning = s.isScanning)
    (hlast : lastStatus s'.broadcasts = lastStatus s.broadcasts) : Inv s' where
  locks := hlocks
  told := by
    rw [hreq, hscan, hlast]
    exact hs.told
  filterSet := by
    rw [hreq, hscan]
    exact hs.filterSet

variable [DecidableEq ι]

theorem not_pending_of_update {r : ι} {x : Request} (hr : ¬ Pending (s.requests r))
    (h : ∀ r', ¬ Pending (Function.update s.requests r x r')) (r' : ι) : ¬ Pending (s.requests r') := by
  by_cases hrr : r' = r
  · subst hrr
    exact hr
  · have := h r'
    rwa [Function.update_of_ne hrr] at this

theorem filterSet_update {r : ι} {x : Request} (hs : Inv s)
    (hx : ∀ b f, x = .filterSet b f → b = s.isScanning) (r' : ι) (b : Bool) (f : Lib.Text.Str)
    (h : Function.update s.requests r x r' = .filterSet b f) : b = s.isScanning := by
  by_cases hrr : r' = r
  · subst hrr
    rw [Function.update_self] at h
    exact hx b f h
  · rw [Function.update_of_ne hrr] at h
    exact hs.filterSet r' b f h

/-- A request that is no toggle under way before and behind its step, and tells no status. -/
theorem Inv.goto {r : ι} {x : Request} (hs : Inv s) (hlocks : Locks s')
    (hreq : s'.requests = Function.update s.requests r x) (hr : ¬ Pending (s.requests r))
    (hx : ∀ b f, x = .filterSet b f → b = s.isScanning) (hscan : s'.isScanning = s.isScanning)
    (hlast : lastStatus s'.broadcasts = lastStatus s.broadcasts) : Inv s' where
  locks := hlocks
  told := by
    rw [hreq, hscan, hlast]
    exact fun hno => hs.told (not_pending_of_update hr hno)
  filterSet := by
    rw [hreq, hscan]
    exact filterSet_update hs hx

omit [DecidableEq ι] in
theorem not_pending {x : Request} (ht : x ≠ .toggled) (hr : ∀ b, x ≠ .toggleRead b) : ¬ Pending x := by
  rintro (h | ⟨b, h⟩)
  · exact ht h
  · exact hr b h

/-- A step of a run in which toggle requests tell fresh values. -/
theorem inv_step {a : Server.Action ι} (hs : Inv s) (hfresh : Fresh s a) (h : Step env s a s') :
    Inv s' := by
  have hlocks := locks_step hs.locks h
  cases h with
  | tell => exact hs.same hlocks rfl rfl (lastStatus_other nofun)
  | tellGeo => exact hs.same hlocks rfl rfl (lastStatus_other nofun)
  | opened hr => exact hs.goto hlocks rfl (by rw [hr]; exact not_pending nofun nofun) nofun rfl rfl
  | @plain r f hr =>
    refine hs.goto hlocks rfl (by rw [hr]; exact not_pending nofun nofun) ?_ rfl rfl
    cases f <;> nofun
  | clear hr => exact hs.goto hlocks rfl (by rw [hr]; exact not_pending nofun nofun) nofun rfl rfl
  | @tellClear r f hr =>
    refine hs.goto hlocks rfl (by rw [hr]; exact not_pending nofun nofun) ?_ rfl
      (lastStatus_other nofun)
    cases f <;> nofun
  | @toggle r f hr hmu =>
    refine ⟨hlocks, fun hno => ?_, fun r' b f' hr' => ?_⟩
    · exact absurd (Or.inl (Function.update_self _ _ _)) (hno r)
    · -- nobody else is in a section under `mu`
      have hsec := hlocks.request r' (Or.inr ⟨b, f', hr'⟩)
      rw [show s.mu = none from hmu] at hsec
      cases hsec
  | @readToggle r hr =>
    refine ⟨hlocks, fun hno => ?_, filterSet_update hs nofun⟩
    exact absurd (Or.inr ⟨_, Function.update_self _ _ _⟩) (hno r)
  | @tellToggle r b hr =>
    refine ⟨hlocks, fun hno b' hb' => ?_, filterSet_update hs nofun⟩
    rw [lastStatus_status] at hb'
    obtain rfl := Option.some.inj hb'
    rcases hfresh r b rfl hr with hb | ⟨r', hne, hpend⟩
    · exact hb
    · have hno' : ¬ Pending (Function.update s.requests r .done r') := hno r'
      rw [Function.update_of_ne hne] at hno'
      exact absurd hpend hno'
  | sameFilter hr =>
    exact hs.goto hlocks rfl (by rw [hr]; exact not_pending nofun nofun) nofun rfl rfl
  | setFilter hr =>
    refine hs.goto hlocks rfl (by rw [hr]; exact not_pending nofun nofun) ?_ rfl rfl
    rintro b f ⟨⟩
    rfl
  | @tellFilter r b f hr =>
    refine ⟨hlocks, fun _ b' hb' => ?_, filterSet_update hs nofun⟩
    rw [lastStatus_status] at hb'
    exact (Option.some.inj hb').symm.trans (hs.filterSet r b f hr)
  | _ => exact hs.same hlocks rfl rfl rfl

/-- **The last status message.** In every run in which toggle requests tell fresh values, once all
requests have finished the last status message that was enqueued to a client, whenever it was
connected, has the current value of `isScanning`. -/
theorem last_status_current (env : Env) (savedOK : LruCache → Prop) (s : State ι)
    (hs : (machine ι env savedOK).ReachVia Fresh s) (hdone : ∀ r, s.requests r = .done)
    (k : ℕ) (b : Bool) (hb : lastStatus (s.broadcasts.drop k) = some b) : b = s.isScanning := by
  have hinv : Inv s := by
    refine Machine.ReachVia.invariant (I := Inv) hs ?_ fun s a s' hs hfresh ha =>
      inv_step hs hfresh (step_of_machine ha)
    intro s hinit
    have hreach : (machine ι env savedOK).Reach s := .of_init hinit
    obtain ⟨-, -, -, -, -, -, -, -, -, hreq, hbc⟩ := hinit
    refine ⟨locks_of_reach hreach, ?_, fun r b f hr => ?_⟩
    · rw [hbc]
      nofun
    · rw [hreq r] at hr
      cases hr
  refine hinv.told (fun r => ?_) b (lastStatus_of_drop hb)
  rw [hdone r]
  exact not_pending nofun nofun

/-- A step that is not fresh leaves the clients with a wrong flag and no toggle request that would
correct it. -/
theorem stale_of_not_fresh {savedOK : LruCache → Prop} {a : Server.Action ι} (hno : ¬ Fresh s a)
    (h : (machine ι env savedOK).step s a = some s') :
    (∀ r, ¬ Pending (s'.requests r)) ∧ lastStatus s'.broadcasts = some (!s'.isScanning) := by
  unfold Fresh at hno
  push Not at hno
  obtain ⟨r, b, rfl, hr, hb, hothers⟩ := hno
  cases step_of_machine h with
  | @tellToggle _ b' hr' =>
    obtain rfl : b = b' := by
      rw [hr] at hr'
      exact Request.toggleRead.inj hr'
    refine ⟨fun r' => ?_, ?_⟩
    · show ¬ Pending (Function.update s.requests r .done r')
      by_cases hrr : r' = r
      · rw [hrr, Function.update_self]
        exact not_pending nofun nofun
      · rw [Function.update_of_ne hrr]
        exact hothers r' hrr
    · rw [lastStatus_status, Bool.eq_not_of_ne hb]
  | _ => simp_all

/-! ### Two runs -/

/-- The server behind its start, with two requests to come. -/
def startedTwo : State Bool := { started with mu := none, requests := fun _ => .done }

theorem init_startedTwo : Init SavedOK startedTwo := by
  obtain ⟨h1, h2, h3, h4, h5, h6, -, h8, h9, -, h11⟩ := init_started
  exact ⟨h1, h2, h3, h4, h5, h6, rfl, h8, h9, fun _ => rfl, h11⟩

/-- Two toggle requests, one behind the other. -/
def oneByOne : List (Server.Action Bool) :=
  [.open true (some .toggle) none, .open false (some .toggle) none,
    .request true, .request true, .request true, .request false, .request false, .request false]

/-- The second toggle request overtakes the first one between its read and its message. -/
def overtaken : List (Server.Action Bool) :=
  [.open true (some .toggle) none, .open false (some .toggle) none,
    .request true, .request true, .request false, .request false, .request false, .request true]

theorem fresh_of_current {s : State Bool} {a : Server.Action Bool}
    (h : ∀ r b, s.requests r = .toggleRead b → b = s.isScanning) : Fresh s a :=
  fun r b _ hr => Or.inl (h r b hr)

theorem oneByOne_fresh :
    (machine Bool atlas SavedOK).Along Fresh startedTwo oneByOne := by
  refine ⟨?_, ?_, ?_, ?_, ?_, ?_, ?_, ?_, trivial⟩ <;> refine fresh_of_current ?_
  all_goals rintro (_ | _) b ⟨⟩
  all_goals rfl

theorem oneByOne_current : ∃ s : State Bool,
    (machine Bool atlas SavedOK).ReachVia Fresh s ∧ (∀ r, s.requests r = .done) ∧
    lastStatus (s.broadcasts.drop 1) = some true ∧ true = s.isScanning :=
  have hrun : (machine Bool atlas SavedOK).ReachVia Fresh
      (((machine Bool atlas SavedOK).exec startedTwo oneByOne).get (by decide)) :=
    Machine.ReachVia.exec (s := startedTwo) oneByOne (Machine.ReachVia.of_init init_startedTwo)
      oneByOne_fresh (by simp)
  ⟨_, hrun, fun r => by cases r <;> rfl, rfl,
    last_status_current atlas SavedOK _ hrun (fun r => by cases r <;> rfl) 1 true rfl⟩

/-- With two toggle requests, the last status message can be wrong when both have finished. -/
theorem overtaken_stale : ¬ ∀ s : State Bool, (machine Bool atlas SavedOK).Reach s →
    (∀ r, s.requests r = .done) → ∀ k b, lastStatus (s.broadcasts.drop k) = some b →
      b = s.isScanning := by
  intro h
  have hrun : (machine Bool atlas SavedOK).Reach
      (((machine Bool atlas SavedOK).exec startedTwo overtaken).get (by decide)) :=
    Machine.Reach.exec (s := startedTwo) overtaken (Machine.ReachVia.of_init init_startedTwo)
      (by simp)
  exact absurd (h _ hrun (fun r => by cases r <;> rfl) 0 false rfl) (by decide)

end Pacsni.Dashboard.Status
