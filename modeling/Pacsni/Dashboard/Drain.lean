import Pacsni.Lib.Measure
import Pacsni.Dashboard.Mutex

/-! # The server comes to rest

The goroutines of the server wait for each other at `mu` and at `geoReqChan` only, and none of them waits
for anything while it holds `mu`. So they never block each other for good: once no packet and no request
arrives any more, every order of their steps comes to an end, with all packets decided, all requests
answered and `mu` free. -/

namespace Pacsni.Dashboard.Drain

open Pacsni.Lib.Runs
open Pacsni.Dashboard.Packet Pacsni.Dashboard.Lru Pacsni.Dashboard.Server Pacsni.Dashboard.Steps
open Pacsni.Dashboard.Geo (Holds InSection not_inSection_of not_inSection_behindAction)

/-! ### Work -/

/-- Nothing arrives. -/
def Internal {ι : Type*} : Server.Action ι → Prop
  | .arrive _ => False
  | .open _ _ _ => False
  | _ => True

/-- The steps that the packet goroutine has to do; a request to `geoWorker` counts for five. -/
def packetWork : PacketLoop → ℕ
  | .idle => 0
  | .received _ => 10
  | .lookup _ _ => 9
  | .request _ _ => 8
  | .decide _ => 2
  | .stored _ => 1

/-- The steps of `geoWorker` with its item. -/
def geoWork : GeoLoop → ℕ
  | .idle => 0
  | .received _ => 4
  | .resolved _ _ => 3
  | .cached _ _ => 2
  | .updated _ _ => 1

/-- The steps of a request. -/
def requestWork : Request → ℕ
  | .done => 0
  | .start _ _ => 4
  | .cleared _ => 3
  | .toggled => 2
  | .toggleRead _ => 1
  | .filter _ => 2
  | .filterSet _ _ => 1

variable {ι : Type*} {env : Env} {savedOK : LruCache → Prop} {s s' : State ι} {a : Server.Action ι}

section

variable [Fintype ι]

/-- A bound of the steps to the end. -/
def work (s : State ι) : ℕ :=
  packetWork s.packetLoop + 5 * s.geoReqChan.length + geoWork s.geoLoop +
    ∑ r, requestWork (s.requests r)

variable [DecidableEq ι]

/-- One request goes on. -/
theorem sum_update_lt {f : ι → Request} {r : ι} {x : Request} (h : requestWork x < requestWork (f r)) :
    ∑ r', requestWork (Function.update f r x r') < ∑ r', requestWork (f r') := by
  refine Finset.sum_lt_sum (fun r' _ => ?_) ⟨r, Finset.mem_univ r, by rwa [Function.update_self]⟩
  by_cases hr : r' = r
  · subst hr
    rw [Function.update_self]
    exact h.le
  · rw [Function.update_of_ne hr]

theorem requestWork_behindAction (f : Option Lib.Text.Str) : requestWork (behindAction f) ≤ 2 := by
  cases f with
  | none => exact Nat.zero_le _
  | some f => exact le_rfl

/-- A step of a request that leaves the rest of the work as it is. -/
theorem work_request {r : ι} {x : Request} (h : requestWork x < requestWork (s.requests r))
    (hpacket : s'.packetLoop = s.packetLoop) (hchan : s'.geoReqChan = s.geoReqChan)
    (hgeo : s'.geoLoop = s.geoLoop) (hreq : s'.requests = Function.update s.requests r x) :
    work s' < work s := by
  unfold work
  rw [hpacket, hchan, hgeo, hreq]
  exact Nat.add_lt_add_left (sum_update_lt h) _

/-- **One step** lowers the work. -/
theorem work_step (h : Step env s a s') (ha : Internal a) : work s' < work s := by
  cases h with
  | arrive | «opened» => exact ha.elim
  | skip hp | start hp | startLocal hp | lookupPrivate hp | hit hp | miss hp | ask hp | drop hp
  | keep hp | reject hp | tell hp =>
    simp only [work, hp, packetWork, List.length_append, List.length_singleton]
    omega
  | take hg hq =>
    simp only [work, hg, hq, geoWork, List.length_cons]
    omega
  | noDB hg | unknown hg | resolve hg | cache hg | update hg | tellGeo hg =>
    simp only [work, hg, geoWork]
    omega
  | @plain r f hr =>
    refine work_request (r := r) (x := behindAction f) ?_ rfl rfl rfl rfl
    rw [hr]
    exact Nat.lt_of_le_of_lt (requestWork_behindAction f) (show 2 < 4 by omega)
  | @tellClear r f hr =>
    refine work_request (r := r) (x := behindAction f) ?_ rfl rfl rfl rfl
    rw [hr]
    exact Nat.lt_of_le_of_lt (requestWork_behindAction f) (show 2 < 3 by omega)
  | @clear r f hr | @toggle r f hr | @readToggle r hr | @tellToggle r b hr | @sameFilter r b hr
  | @tellFilter r b f hr | @setFilter r f hr =>
    refine work_request (r := r) ?_ rfl rfl rfl rfl
    rw [hr]
    simp only [requestWork]
    omega

end

/-! ### Nobody is stuck -/

/-- Who holds `mu` is in a section under it, and the channel has no more than it has room for. -/
structure Owned (s : State ι) : Prop where
  packet : s.mu = some .packetLoop → Holds s.packetLoop
  request : ∀ r, s.mu = some (.request r) → InSection (s.requests r)
  queue : s.geoReqChan.length ≤ geoReqCapacity

theorem Owned.free (hs : s.mu = none) (hqueue : s.geoReqChan.length ≤ geoReqCapacity) : Owned s where
  packet h := by rw [hs] at h; cases h
  request r h := by rw [hs] at h; cases h
  queue := hqueue

/-- The packet goroutine goes on with its packet. -/
theorem Owned.onward (hs : Owned s) (hmu : s'.mu = s.mu) (hreq : s'.requests = s.requests)
    (hh : Holds s'.packetLoop) (hqueue : s'.geoReqChan.length ≤ geoReqCapacity) : Owned s' where
  packet _ := hh
  request r h := by rw [hreq]; exact hs.request r (hmu.symm.trans h)
  queue := hqueue

/-- A request outside of the sections goes on. -/
theorem Owned.goto [DecidableEq ι] (hs : Owned s) {r : ι} {x : Request} (hr : ¬ InSection (s.requests r))
    (hmu : s'.mu = s.mu) (hpacket : s'.packetLoop = s.packetLoop)
    (hreq : s'.requests = Function.update s.requests r x) (hqueue : s'.geoReqChan = s.geoReqChan) :
    Owned s' where
  packet h := by rw [hpacket]; exact hs.packet (hmu.symm.trans h)
  request r' h := by
    have hin := hs.request r' (hmu.symm.trans h)
    have hne : r' ≠ r := by rintro rfl; exact hr hin
    rwa [hreq, Function.update_of_ne hne]
  queue := by rw [hqueue]; exact hs.queue

variable [DecidableEq ι]

theorem owned_step (hs : Owned s) (h : Step env s a s') : Owned s' := by
  have hq := hs.queue
  cases h with
  | arrive hp =>
    exact ⟨fun hmu => absurd (hs.packet hmu) (by rw [hp]; exact id), hs.request, hq⟩
  | skip hp hmu => exact .free hmu hq
  | start hp | startLocal hp => exact ⟨fun _ => trivial, nofun, hq⟩
  | lookupPrivate | hit | miss | drop | keep => exact hs.onward rfl rfl trivial hq
  | ask hp hroom =>
    refine hs.onward rfl rfl trivial ?_
    rw [List.length_append, List.length_singleton]
    exact hroom
  | reject | tell | tellClear | tellFilter => exact .free rfl hq
  | take hg hqueue =>
    refine ⟨hs.packet, hs.request, ?_⟩
    rw [hqueue] at hq
    exact Nat.le_of_succ_le hq
  | noDB | unknown | resolve | cache | update | tellGeo => exact ⟨hs.packet, hs.request, hq⟩
  | opened hr | plain hr | readToggle hr | tellToggle hr =>
    exact hs.goto (by rw [hr]; exact not_inSection_of nofun nofun) rfl rfl rfl rfl
  | toggle hr hmu | sameFilter hr hmu => exact .free hmu hq
  | @clear r f hr =>
    refine ⟨nofun, fun r' hr' => ?_, hq⟩
    obtain rfl := Owner.request.inj (Option.some.inj hr')
    exact Or.inl ⟨f, Function.update_self ..⟩
  | @setFilter r f hr =>
    refine ⟨nofun, fun r' hr' => ?_, hq⟩
    obtain rfl := Owner.request.inj (Option.some.inj hr')
    exact Or.inr ⟨_, f, Function.update_self ..⟩

omit [DecidableEq ι] in
/-- The packet goroutine can go on, if it has `mu` or `mu` is free. -/
theorem stepPacket_isSome (hp : s.packetLoop ≠ .idle) (hmu : s.mu = none ∨ Holds s.packetLoop) :
    (stepPacket env s).isSome = true := by
  unfold stepPacket
  cases hloop : s.packetLoop with
  | idle => exact absurd hloop hp
  | received pkt =>
    rcases hmu with hmu | hh
    · rw [hmu]
      rfl
    · rw [hloop] at hh
      exact hh.elim
  | lookup pkt ip =>
    dsimp only
    split_ifs
    · rfl
    · split <;> rfl
  | request pkt ip => rfl
  | decide pkt =>
    dsimp only
    split_ifs <;> rfl
  | stored pkt => rfl

omit [DecidableEq ι] in
/-- `geoWorker` can go on whenever it has work. -/
theorem stepGeo_isSome (h : s.geoLoop ≠ .idle ∨ s.geoReqChan ≠ []) : (stepGeo env s).isSome = true := by
  unfold stepGeo
  cases hloop : s.geoLoop with
  | idle =>
    cases hq : s.geoReqChan with
    | nil => exact absurd hq (h.resolve_left (not_not_intro hloop))
    | cons ip rest => rfl
  | received ip =>
    dsimp only
    split
    · rfl
    · split <;> rfl
  | resolved ip g => rfl
  | cached ip g => rfl
  | updated ip g => rfl

/-- A request can go on, if it has `mu` or `mu` is free. -/
theorem stepRequest_isSome {r : ι} (hr : s.requests r ≠ .done)
    (hmu : s.mu = none ∨ InSection (s.requests r)) : (stepRequest env s r).isSome = true := by
  have hfree : (∀ f, s.requests r ≠ .cleared f) → (∀ b f, s.requests r ≠ .filterSet b f) → s.mu = none :=
    fun hc hf => hmu.resolve_right (not_inSection_of hc hf)
  unfold stepRequest
  dsimp only
  cases hx : s.requests r with
  | done => exact absurd hx hr
  | start action f =>
    rw [hfree (by rw [hx]; nofun) (by rw [hx]; nofun)]
    cases action with
    | none => rfl
    | some action => cases action <;> rfl
  | cleared f => rfl
  | toggled => rfl
  | toggleRead b => rfl
  | filter f =>
    rw [hfree (by rw [hx]; nofun) (by rw [hx]; nofun)]
    dsimp only
    split_ifs <;> rfl
  | filterSet b f => rfl

/-- Nothing is left to do. -/
structure AtRest (s : State ι) : Prop where
  packet : s.packetLoop = .idle
  geo : s.geoLoop = .idle
  queue : s.geoReqChan = []
  requests : ∀ r, s.requests r = .done

omit [DecidableEq ι] in
theorem AtRest.mu (h : AtRest s) (hs : Owned s) : s.mu = none := by
  cases hmu : s.mu with
  | none => rfl
  | some owner =>
    cases owner with
    | packetLoop =>
      have hh := hs.packet hmu
      rw [h.packet] at hh
      exact hh.elim
    | request r =>
      have hin := hs.request r hmu
      rw [h.requests r] at hin
      exact absurd hin (not_inSection_of nofun nofun)

/-- **No deadlock.** Somebody can go on until nothing is left to do. -/
theorem exists_step (hs : Owned s) (hrest : ¬ AtRest s) :
    ∃ a, Internal a ∧ ((machine ι env savedOK).step s a).isSome = true := by
  have hpacket : ∀ _ : s.packetLoop ≠ .idle, ∀ _ : s.mu = none ∨ Holds s.packetLoop, _ := fun hp hmu =>
    (⟨.packetLoop, trivial, stepPacket_isSome hp hmu⟩ :
      ∃ a, Internal a ∧ ((machine ι env savedOK).step s a).isSome = true)
  cases hmu : s.mu with
  | some owner =>
    cases owner with
    | packetLoop =>
      have hh := hs.packet hmu
      exact hpacket (fun hp => by rw [hp] at hh; exact hh) (Or.inr hh)
    | request r =>
      have hin := hs.request r hmu
      refine ⟨.request r, trivial, stepRequest_isSome (fun hr => ?_) (Or.inr hin)⟩
      exact not_inSection_of (x := .done) nofun nofun (hr ▸ hin)
  | none =>
    by_cases hp : s.packetLoop = .idle
    · by_cases hg : s.geoLoop ≠ .idle ∨ s.geoReqChan ≠ []
      · exact ⟨.geoLoop, trivial, stepGeo_isSome hg⟩
      · rw [not_or, not_not, not_not] at hg
        have hreq : ∃ r, s.requests r ≠ .done := by
          by_contra hall
          exact hrest ⟨hp, hg.1, hg.2, fun r => not_not.mp fun hr => hall ⟨r, hr⟩⟩
        obtain ⟨r, hr⟩ := hreq
        exact ⟨.request r, trivial, stepRequest_isSome hr (Or.inl hmu)⟩
    · exact hpacket hp (Or.inl hmu)

/-! ### Runs -/

theorem owned_of_reach (h : (machine ι env savedOK).Reach s) : Owned s := by
  refine h.invariant (I := Owned) ?_ fun s a s' hs ha => owned_step hs (step_of_machine ha)
  rintro s ⟨-, -, -, -, -, hqueue, hmu, -⟩
  exact .free hmu (by rw [hqueue]; exact Nat.zero_le _)

omit [DecidableEq ι] in
theorem work_le [Fintype ι] (hs : Owned s) : work s ≤ 5014 + 4 * Fintype.card ι := by
  have hp : packetWork s.packetLoop ≤ 10 := by
    unfold packetWork
    split <;> omega
  have hg : geoWork s.geoLoop ≤ 4 := by
    unfold geoWork
    split <;> omega
  have hr : ∑ r, requestWork (s.requests r) ≤ ∑ _r : ι, 4 :=
    Finset.sum_le_sum fun r _ => by unfold requestWork; split <;> omega
  rw [Finset.sum_const, Finset.card_univ, smul_eq_mul] at hr
  have hq : s.geoReqChan.length ≤ 1000 := hs.queue
  unfold work
  omega

theorem lowers_work [Fintype ι] :
    (machine ι env savedOK).Lowers (fun _ a => Internal a) Owned work := fun _ _ _ hs ha hstep =>
  ⟨owned_step hs (step_of_machine hstep), work_step (step_of_machine hstep) ha⟩

/-- **The server comes to rest.** From every reachable state, with any number of requests under way: a run
in which nothing arrives has at most so many steps, whatever their order. As long as something is left to
do, some goroutine can take its step; when nothing is left, `mu` is free. -/
theorem comes_to_rest [Fintype ι] (env : Env) (savedOK : LruCache → Prop) (s : State ι)
    (h : (machine ι env savedOK).Reach s) (as : List (Server.Action ι)) (s' : State ι)
    (hal : (machine ι env savedOK).Along (fun _ a => Internal a) s as)
    (he : (machine ι env savedOK).exec s as = some s') :
    as.length ≤ 5014 + 4 * Fintype.card ι ∧
      (AtRest s' → s'.mu = none) ∧
      (¬ AtRest s' → ∃ a, Internal a ∧ ((machine ι env savedOK).step s' a).isSome = true) ∧
      ∃ as' s'', (machine ι env savedOK).Along (fun _ a => Internal a) s' as' ∧
        (machine ι env savedOK).exec s' as' = some s'' ∧ AtRest s'' := by
  have hs := owned_of_reach h
  obtain ⟨hs', hlen⟩ := lowers_work.length_le as hs hal he
  have hle := work_le hs
  refine ⟨by omega, fun hrest => hrest.mu hs', exists_step hs', ?_⟩
  refine lowers_work.exists_done (fun t ht hrest => ?_) hs'
  obtain ⟨a, ha, hstep⟩ := exists_step ht hrest
  obtain ⟨t', ht'⟩ := Option.isSome_iff_exists.mp hstep
  exact ⟨a, t', ha, ht'⟩

/-- A packet is asked for at `geoWorker`, while a request is about to clear the history. -/
def underWay : List (Server.Action Unit) :=
  [.open () (some .clear) none, .arrive Geo.fromPublic, .packetLoop, .packetLoop, .packetLoop]

/-- `geoWorker` first, then the packet, then the request. -/
def remaining : List (Server.Action Unit) :=
  [.geoLoop, .geoLoop, .geoLoop, .packetLoop, .packetLoop, .geoLoop, .geoLoop, .request (), .request ()]

theorem comes_to_rest_underWay : ∃ s s' : State Unit,
    (machine Unit Geo.atlas Geo.SavedOK).exec s remaining = some s' ∧ AtRest s' ∧ s'.mu = none := by
  have hrun : (machine Unit Geo.atlas Geo.SavedOK).Reach
      (((machine Unit Geo.atlas Geo.SavedOK).exec Geo.started underWay).get (by decide)) :=
    Machine.Reach.exec underWay (Machine.ReachVia.of_init Geo.init_started) (by simp)
  have he : (machine Unit Geo.atlas Geo.SavedOK).exec
      (((machine Unit Geo.atlas Geo.SavedOK).exec Geo.started underWay).get (by decide)) remaining =
      some (((machine Unit Geo.atlas Geo.SavedOK).exec Geo.started (underWay ++ remaining)).get
        (by decide)) := rfl
  have hrest : AtRest (((machine Unit Geo.atlas Geo.SavedOK).exec Geo.started
      (underWay ++ remaining)).get (by decide)) := ⟨rfl, rfl, rfl, fun _ => rfl⟩
  exact ⟨_, _, he, hrest, (comes_to_rest Geo.atlas Geo.SavedOK _ hrun remaining _
    ⟨trivial, trivial, trivial, trivial, trivial, trivial, trivial, trivial, trivial, trivial⟩
    he).2.1 hrest⟩

end Pacsni.Dashboard.Drain
