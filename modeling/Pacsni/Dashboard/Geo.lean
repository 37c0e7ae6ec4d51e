import Pacsni.Dashboard.Steps

/-! # Placeholders and geo results

A packet whose country is not in the cache is stored with a placeholder, and `geoWorker` replaces the
placeholder in the history once it has looked up the address. Every placeholder in the history has a
request that is still under way, unless `geoWorker` runs its update between the request for a packet
and the insertion of that packet into the history. -/

namespace Pacsni.Dashboard.Geo

open Pacsni.Lib.Text Pacsni.Lib.Strings Pacsni.Lib.Runs
open Pacsni.Dashboard.Packet Pacsni.Dashboard.Ring Pacsni.Dashboard.Lru Pacsni.Dashboard.Matching
open Pacsni.Dashboard.Server Pacsni.Dashboard.Steps

/-- The country that a cached text stands for. -/
def cachedCountry (value : Str) : Str := (split value '|').headD []

/-- A cache that an earlier run has saved: no value stands for the placeholder. -/
def SavedOK (c : LruCache) : Prop := c.AllValues fun value => cachedCountry value ≠ searching

/-- What is assumed of the database: it is there, it knows every public address, and it names no
country like the placeholder or with a `|` in it. -/
structure Resolves (env : Env) : Prop where
  known : ∃ city, env.geoDB = some city ∧ ∀ ip, isPrivateIP ip = false → (city ip).isSome
  named : ∀ city ip record, env.geoDB = some city → city ip = some record →
    (GeoResult.ofRecord env record).country ≠ searching ∧
      '|' ∉ (GeoResult.ofRecord env record).country

variable {ι : Type*} {env : Env} {s s' : State ι} {ip : Str} {pkt : DashboardPacket}

/-- `geoReqChan` is not full when a request is sent. -/
def NeverFull (s : State ι) (a : Action ι) : Prop :=
  a = .packetLoop → ∀ pkt ip, s.packetLoop = .request pkt ip → s.geoReqChan.length < geoReqCapacity

/-- `geoWorker` does not run the update for an address while the packet goroutine holds a packet that
it has given the placeholder for this address and is going to store, unless a further request for the
address is queued. -/
def Careful (env : Env) (s : State ι) (a : Action ι) : Prop :=
  a = .geoLoop → ∀ ip g pkt, s.geoLoop = .cached ip g → s.packetLoop = .decide pkt →
    pkt.country = searching → geoAddress pkt = some ip → accepts env.lib s.filter pkt = true →
    ip ∈ s.geoReqChan

/-- No request is queued, and neither goroutine is in the middle of an item. -/
def Quiescent (s : State ι) : Prop :=
  s.geoReqChan = [] ∧ s.packetLoop = .idle ∧ s.geoLoop = .idle

/-! ### The texts -/

theorem cachedCountry_text {g : GeoResult} (h : '|' ∉ g.country) : cachedCountry g.text = g.country := by
  unfold cachedCountry GeoResult.text split
  rw [List.splitOn_append_cons_self_of_not_mem h]
  rfl

theorem country_setCountry (pkt : DashboardPacket) (res : Str) :
    (setCountry pkt res).country = cachedCountry res := by
  unfold setCountry cachedCountry
  dsimp only
  split <;> rfl

theorem geoAddress_congr {p q : DashboardPacket} (hs : p.srcIp = q.srcIp) (hd : p.dstIp = q.dstIp) :
    geoAddress p = geoAddress q := by
  unfold geoAddress
  rw [hs, hd]

theorem geoAddress_setCountry (pkt : DashboardPacket) (res : Str) :
    geoAddress (setCountry pkt res) = geoAddress pkt := by
  apply geoAddress_congr
  · unfold setCountry
    dsimp only
    split <;> rfl
  · unfold setCountry
    dsimp only
    split <;> rfl

/-- The address is public, and it is one of the two addresses of the packet. -/
theorem geoAddress_spec (h : geoAddress pkt = some ip) :
    isPrivateIP ip = false ∧ (pkt.srcIp = ip ∨ pkt.dstIp = ip) := by
  unfold geoAddress at h
  split_ifs at h with hs hd
  · obtain rfl := Option.some.inj h
    exact ⟨by simpa using hs, Or.inl rfl⟩
  · obtain rfl := Option.some.inj h
    exact ⟨by simpa using hd, Or.inr rfl⟩

theorem local_ne_searching : "local".toList ≠ searching := by decide

/-! ### The invariant -/

/-- A request for the address is queued, or `geoWorker` is on its way to the update for it. -/
def Requested (s : State ι) (ip : Str) : Prop :=
  ip ∈ s.geoReqChan ∨ s.geoLoop = .received ip ∨ ∃ g, s.geoLoop = .resolved ip g ∨ s.geoLoop = .cached ip g

/-- The packet has no placeholder, or a request for it is under way. -/
def Covered (s : State ι) (pkt : DashboardPacket) : Prop :=
  pkt.country = searching → ∃ ip, geoAddress pkt = some ip ∧ Requested s ip

/-- What `geoWorker` knows where it is. -/
def GeoOK : GeoLoop → Prop
  | .received ip => isPrivateIP ip = false
  | .resolved _ g => g.country ≠ searching ∧ '|' ∉ g.country
  | .cached _ g => g.country ≠ searching
  | _ => True

/-- The packet goroutine holds `mu`. -/
def Holds : PacketLoop → Prop
  | .idle => False
  | .received _ => False
  | _ => True

/-- The request is in a section under `mu`. -/
def InSection (x : Request) : Prop := (∃ f, x = .cleared f) ∨ ∃ b f, x = .filterSet b f

/-- The invariant of the server. -/
structure Inv (env : Env) (s : State ι) : Prop where
  cache : SavedOK s.geoCache
  queued : ∀ ip ∈ s.geoReqChan, isPrivateIP ip = false
  geo : GeoOK s.geoLoop
  history : ∀ p ∈ s.historyBuffer.getAll false, Covered s p
  lookup : ∀ pkt ip, s.packetLoop = .lookup pkt ip → geoAddress pkt = some ip
  request : ∀ pkt ip, s.packetLoop = .request pkt ip → geoAddress pkt = some ip
  decide : ∀ pkt, s.packetLoop = .decide pkt → accepts env.lib s.filter pkt = true → Covered s pkt
  locked : Holds s.packetLoop → s.mu = some .packetLoop
  owner : ∀ r, InSection (s.requests r) → s.mu = some (.request r)

theorem Covered.mono {s s' : State ι} (h : Covered s pkt)
    (hreq : ∀ ip, Requested s ip → Requested s' ip) : Covered s' pkt := by
  intro hc
  obtain ⟨ip, ha, hr⟩ := h hc
  exact ⟨ip, ha, hreq ip hr⟩

/-! ### Sections under the mutex -/

/-- While somebody else holds `mu`, a request is in no section under it. -/
theorem Inv.not_inSection_of_ne (hs : Inv env s) {r r' : ι} (hmu : s.mu = some (.request r))
    (hne : r' ≠ r) : ¬ InSection (s.requests r') := by
  intro hr
  have h := hs.owner r' hr
  rw [hmu] at h
  cases h
  exact hne rfl

theorem Inv.not_inSection (hs : Inv env s) (hmu : s.mu = none) (r : ι) :
    ¬ InSection (s.requests r) := by
  intro hr
  have h := hs.owner r hr
  rw [hmu] at h
  cases h

theorem Inv.not_holds (hs : Inv env s) (hmu : s.mu ≠ some .packetLoop) : ¬ Holds s.packetLoop :=
  fun hh => hmu (hs.locked hh)

/-- While the packet goroutine holds `mu`, a request is in no section under it. -/
theorem Inv.not_inSection_of_holds (hs : Inv env s) (hh : Holds s.packetLoop) (r : ι) :
    ¬ InSection (s.requests r) := by
  intro hr
  have h := hs.owner r hr
  rw [hs.locked hh] at h
  cases h

theorem not_inSection_of {x : Request} (hc : ∀ f, x ≠ .cleared f) (hf : ∀ b f, x ≠ .filterSet b f) :
    ¬ InSection x := by
  rintro (⟨f, h⟩ | ⟨b, f, h⟩)
  · exact hc f h
  · exact hf b f h

theorem not_inSection_behindAction : ∀ f, ¬ InSection (behindAction f)
  | none => not_inSection_of nofun nofun
  | some _ => not_inSection_of nofun nofun

variable [DecidableEq ι]

/-- Who holds `mu` behind a step of the request `r`. -/
theorem owner_update {r : ι} {x : Request} {mu : Option (Owner ι)}
    (hold : ∀ r', r' ≠ r → InSection (s.requests r') → mu = some (.request r'))
    (hx : InSection x → mu = some (.request r)) (r' : ι)
    (hr' : InSection (Function.update s.requests r x r')) : mu = some (.request r') := by
  by_cases hrr : r' = r
  · subst hrr
    rw [Function.update_self] at hr'
    exact hx hr'
  · rw [Function.update_of_ne hrr] at hr'
    exact hold r' hrr hr'

/-- A request that is in no section behind its step, and does not take `mu`. -/
theorem Inv.owner_goto (hs : Inv env s) {r : ι} {x : Request} (hx : ¬ InSection x) (r' : ι)
    (hr' : InSection (Function.update s.requests r x r')) : s.mu = some (.request r') :=
  owner_update (fun r' _ => hs.owner r') (fun h => absurd h hx) r' hr'

/-! ### Steps -/

/-- What a step does to a request that is under way: it stays under way, or `geoWorker` updates the
history for it. -/
theorem requested_step {a : Action ι}
    (hdb : ∀ ip, s.geoLoop = .received ip → (env.geoDB.bind fun city => city ip).isSome = true)
    (h : Step env s a s') (hr : Requested s ip) :
    Requested s' ip ∨ (a = .geoLoop ∧ ∃ g, s.geoLoop = .cached ip g) := by
  cases h with
  | ask hp hroom => exact Or.inl (hr.imp_left (List.mem_append_left _))
  | take hg hq =>
    rcases hr with hr | hr | ⟨g, hr | hr⟩
    · rw [hq] at hr
      rcases List.mem_cons.mp hr with rfl | hr
      · exact Or.inl (Or.inr (Or.inl rfl))
      · exact Or.inl (Or.inl hr)
    all_goals rw [hg] at hr; cases hr
  | noDB hg hnone =>
    have := hdb _ hg
    simp [hnone] at this
  | unknown hg hsome hnone =>
    have := hdb _ hg
    simp [hsome, hnone] at this
  | resolve hg hsome hcity =>
    rcases hr with hr | hr | ⟨g, hr | hr⟩
    · exact Or.inl (Or.inl hr)
    · rw [hg] at hr
      cases hr
      exact Or.inl (Or.inr (Or.inr ⟨_, Or.inl rfl⟩))
    all_goals rw [hg] at hr; cases hr
  | cache hg =>
    rcases hr with hr | hr | ⟨g, hr | hr⟩
    · exact Or.inl (Or.inl hr)
    all_goals rw [hg] at hr; cases hr
    exact Or.inl (Or.inr (Or.inr ⟨_, Or.inr rfl⟩))
  | update hg =>
    rcases hr with hr | hr | ⟨g, hr | hr⟩
    · exact Or.inl (Or.inl hr)
    all_goals rw [hg] at hr; cases hr
    exact Or.inr ⟨rfl, _, hg⟩
  | tellGeo hg =>
    rcases hr with hr | hr | ⟨g, hr | hr⟩
    · exact Or.inl (Or.inl hr)
    all_goals rw [hg] at hr; cases hr
  | _ => exact Or.inl hr

omit [DecidableEq ι] in
/-- The address that `geoWorker` has received is known. -/
theorem Inv.known (henv : Resolves env) (hs : Inv env s) (ip : Str) (hg : s.geoLoop = .received ip) :
    (env.geoDB.bind fun city => city ip).isSome = true := by
  obtain ⟨city, hcity, hknown⟩ := henv.known
  have hgeo := hs.geo
  rw [hg] at hgeo
  rw [hcity]
  exact hknown ip hgeo

omit [DecidableEq ι] in
/-- The packet goroutine handles no packet. -/
theorem Inv.toNone (hs : Inv env s) (hcache : s'.geoCache = s.geoCache)
    (hchan : s'.geoReqChan = s.geoReqChan) (hgeo : s'.geoLoop = s.geoLoop)
    (hhist : s'.historyBuffer = s.historyBuffer) (hp : ¬ Holds s'.packetLoop)
    (howner : ∀ r, InSection (s'.requests r) → s'.mu = some (.request r)) : Inv env s' where
  cache := hcache ▸ hs.cache
  queued := by rw [hchan]; exact hs.queued
  geo := by rw [hgeo]; exact hs.geo
  history := by
    rw [hhist]
    refine fun p hmem => (hs.history p hmem).mono fun ip hr => ?_
    unfold Requested
    rw [hchan, hgeo]
    exact hr
  lookup := fun _ _ h => absurd (by rw [h]; trivial) hp
  request := fun _ _ h => absurd (by rw [h]; trivial) hp
  decide := fun _ h => absurd (by rw [h]; trivial) hp
  locked := fun h => absurd h hp
  owner := howner

/-- A step of the packet goroutine. -/
theorem inv_packetLoop (hs : Inv env s) (hfull : NeverFull s .packetLoop)
    (h : Step env s .packetLoop s') : Inv env s' := by
  cases h with
  | skip hp hmu hscan => exact hs.toNone rfl rfl rfl rfl nofun hs.owner
  | start hp hmu hscan hip => exact { hs with
      lookup := by rintro _ _ ⟨⟩; exact hip
      request := by rintro _ _ ⟨⟩
      decide := by rintro _ ⟨⟩
      locked := fun _ => rfl
      owner := fun r hr => absurd hr (hs.not_inSection hmu r) }
  | startLocal hp hmu hscan hip => exact { hs with
      lookup := by rintro _ _ ⟨⟩
      request := by rintro _ _ ⟨⟩
      decide := by rintro _ ⟨⟩ - hc; exact absurd hc local_ne_searching
      locked := fun _ => rfl
      owner := fun r hr => absurd hr (hs.not_inSection hmu r) }
  | lookupPrivate hp hip =>
    have hpublic := (geoAddress_spec (hs.lookup _ _ hp)).1
    rw [hip] at hpublic
    cases hpublic
  | @hit _ ip _ _ hp hip hget =>
    have hcache := hs.cache.get ip
    have hvalue := hs.cache.get_value (congrArg Prod.snd hget)
    rw [hget] at hcache
    exact { hs with
      cache := hcache
      lookup := by rintro _ _ ⟨⟩
      request := by rintro _ _ ⟨⟩
      decide := by
        rintro _ ⟨⟩ - hsearch
        rw [country_setCountry] at hsearch
        exact absurd hsearch hvalue
      locked := fun _ => hs.locked (by rw [hp]; trivial) }
  | @miss _ ip _ hp hip hget =>
    have hcache := hs.cache.get ip
    rw [hget] at hcache
    exact { hs with
      cache := hcache
      lookup := by rintro _ _ ⟨⟩
      request := by rintro _ _ ⟨⟩; exact hs.lookup _ _ hp
      decide := by rintro _ ⟨⟩
      locked := fun _ => hs.locked (by rw [hp]; trivial) }
  | @ask pkt ip hp hroom =>
    have haddr := hs.request _ _ hp
    exact { hs with
      queued := by
        intro ip' hip'
        rcases List.mem_append.mp hip' with hold | hnew
        · exact hs.queued ip' hold
        · rw [List.mem_singleton.mp hnew]
          exact (geoAddress_spec haddr).1
      history := by
        intro p hmem
        exact (hs.history p hmem).mono fun _ hr => hr.imp_left (List.mem_append_left _)
      lookup := by rintro _ _ ⟨⟩
      request := by rintro _ _ ⟨⟩
      decide := by
        rintro _ ⟨⟩ - -
        exact ⟨ip, by rw [geoAddress_setCountry]; exact haddr, Or.inl (by simp)⟩
      locked := fun _ => hs.locked (by rw [hp]; trivial) }
  | drop hp hno => exact absurd (hfull rfl _ _ hp) hno
  | keep hp hacc => exact { hs with
      history := by
        intro p hmem
        rcases RingBuffer.mem_getAll_add hmem with rfl | hold
        · exact hs.decide p hp hacc
        · exact hs.history p hold
      lookup := by rintro _ _ ⟨⟩
      request := by rintro _ _ ⟨⟩
      decide := by rintro _ ⟨⟩
      locked := fun _ => hs.locked (by rw [hp]; trivial) }
  | reject hp hacc =>
    have hout := hs.not_inSection_of_holds (by rw [hp]; trivial)
    exact hs.toNone rfl rfl rfl rfl nofun fun r hr => absurd hr (hout r)
  | tell hp =>
    have hout := hs.not_inSection_of_holds (by rw [hp]; trivial)
    exact hs.toNone rfl rfl rfl rfl nofun fun r hr => absurd hr (hout r)

/-- A step of `geoWorker`. -/
theorem inv_geoLoop (henv : Resolves env) (hs : Inv env s) (hcareful : Careful env s .geoLoop)
    (h : Step env s .geoLoop s') : Inv env s' := by
  have hgeo := hs.geo
  -- what a step other than the update keeps under way
  have hcov : (∀ ip g, s.geoLoop ≠ .cached ip g) → ∀ p, Covered s p → Covered s' p := by
    intro hno p hp
    refine hp.mono fun ip hr => (requested_step (hs.known henv) h hr).resolve_right ?_
    rintro ⟨-, g, hg⟩
    exact hno ip g hg
  cases h with
  | take hg hq =>
    have hcov := hcov (by rw [hg]; nofun)
    exact { hs with
      queued := fun ip' hip' => hs.queued ip' (by rw [hq]; exact List.mem_cons_of_mem _ hip')
      geo := hs.queued _ (by rw [hq]; exact List.mem_cons_self)
      history := fun p hmem => hcov p (hs.history p hmem)
      decide := fun p hp hacc => hcov p (hs.decide p hp hacc) }
  | noDB hg hnone =>
    have := hs.known henv _ hg
    simp [hnone] at this
  | unknown hg hsome hnone =>
    have := hs.known henv _ hg
    simp [hsome, hnone] at this
  | resolve hg hsome hcity =>
    have hcov := hcov (by rw [hg]; nofun)
    exact { hs with
      geo := henv.named _ _ _ hsome hcity
      history := fun p hmem => hcov p (hs.history p hmem)
      decide := fun p hp hacc => hcov p (hs.decide p hp hacc) }
  | cache hg =>
    have hcov := hcov (by rw [hg]; nofun)
    rw [hg] at hgeo
    exact { hs with
      cache := hs.cache.add (by rw [cachedCountry_text hgeo.2]; exact hgeo.1)
      geo := hgeo.1
      history := fun p hmem => hcov p (hs.history p hmem)
      decide := fun p hp hacc => hcov p (hs.decide p hp hacc) }
  | @update ip g hg =>
    rw [hg] at hgeo
    -- the update ends the work on `ip`; only queued requests are left
    have hleft : ∀ ip', Requested s ip' → ip' ∈ s.geoReqChan ∨ ip' = ip := by
      rintro ip' (hr | hr | ⟨g', hr | hr⟩)
      · exact Or.inl hr
      all_goals rw [hg] at hr; cases hr
      exact Or.inr rfl
    exact { hs with
      geo := trivial
      history := by
        intro p hmem hc
        obtain ⟨q, hq, rfl⟩ := RingBuffer.mem_getAll_update hmem
        unfold applyGeo at hc ⊢
        split_ifs at hc ⊢ with hip
        · exact absurd hc hgeo
        · obtain ⟨ip', ha, hr⟩ := hs.history q hq hc
          rcases hleft ip' hr with hr | rfl
          · exact ⟨ip', ha, Or.inl hr⟩
          · exact absurd (geoAddress_spec ha).2 hip
      decide := by
        intro p hp hacc hc
        obtain ⟨ip', ha, hr⟩ := hs.decide p hp hacc hc
        refine ⟨ip', ha, Or.inl ?_⟩
        rcases hleft ip' hr with hr | rfl
        · exact hr
        · exact hcareful rfl ip' g p hg hp hc ha hacc }
  | tellGeo hg =>
    have hcov := hcov (by rw [hg]; nofun)
    exact { hs with
      geo := trivial
      history := fun p hmem => hcov p (hs.history p hmem)
      decide := fun p hp hacc => hcov p (hs.decide p hp hacc) }

/-- A step of a request. -/
theorem inv_request {r : ι} (hs : Inv env s) (h : Step env s (.request r) s') : Inv env s' := by
  cases h with
  | plain hr => exact { hs with owner := hs.owner_goto (not_inSection_behindAction _) }
  | clear hr hmu => exact { hs with
      history := by intro p hmem; rw [RingBuffer.getAll_clear] at hmem; cases hmem
      locked := fun hh => absurd hh (hs.not_holds (by rw [hmu]; nofun))
      owner := owner_update (fun r' _ hr' => absurd hr' (hs.not_inSection hmu r')) fun _ => rfl }
  | tellClear hr =>
    have hmu := hs.owner _ (Or.inl ⟨_, hr⟩)
    exact { hs with
      locked := fun hh => absurd hh (hs.not_holds (by rw [hmu]; nofun))
      owner := owner_update (fun r' hne hr' => absurd hr' (hs.not_inSection_of_ne hmu hne))
        fun hx => absurd hx (not_inSection_behindAction _) }
  | toggle hr hmu => exact { hs with owner := hs.owner_goto (not_inSection_of nofun nofun) }
  | readToggle hr => exact { hs with owner := hs.owner_goto (not_inSection_of nofun nofun) }
  | tellToggle hr => exact { hs with owner := hs.owner_goto (not_inSection_of nofun nofun) }
  | sameFilter hr hmu hf => exact { hs with owner := hs.owner_goto (not_inSection_of nofun nofun) }
  | setFilter hr hmu hf =>
    have hno := hs.not_holds (by rw [hmu]; nofun)
    exact { hs with
      decide := fun pkt hp => absurd (by rw [show s.packetLoop = _ from hp]; trivial) hno
      locked := fun hh => absurd hh hno
      owner := owner_update (fun r' _ hr' => absurd hr' (hs.not_inSection hmu r')) fun _ => rfl }
  | tellFilter hr =>
    have hmu := hs.owner _ (Or.inr ⟨_, _, hr⟩)
    exact { hs with
      locked := fun hh => absurd hh (hs.not_holds (by rw [hmu]; nofun))
      owner := owner_update (fun r' hne hr' => absurd hr' (hs.not_inSection_of_ne hmu hne))
        fun hx => absurd hx (not_inSection_of nofun nofun) }

/-- A step of a run in which the channel is not full and `geoWorker` is careful. -/
theorem inv_step (henv : Resolves env) {a : Action ι} (hs : Inv env s)
    (hok : NeverFull s a ∧ Careful env s a) (h : Step env s a s') : Inv env s' := by
  cases a with
  | arrive pkt =>
    cases h
    exact hs.toNone rfl rfl rfl rfl nofun hs.owner
  | packetLoop => exact inv_packetLoop hs hok.1 h
  | geoLoop => exact inv_geoLoop henv hs hok.2 h
  | «open» r action f =>
    cases h
    exact { hs with owner := hs.owner_goto (not_inSection_of nofun nofun) }
  | request r => exact inv_request hs h

/-! ### Runs -/

omit [DecidableEq ι] in
theorem init_inv (h : Init SavedOK s) : Inv env s := by
  obtain ⟨hcount, -, -, -, hcache, hchan, -, hp, hg, hreq, -⟩ := h
  exact {
    cache := hcache
    queued := by rw [hchan]; nofun
    geo := by rw [hg]; trivial
    history := by
      intro p hmem
      obtain ⟨i, hi, -⟩ := RingBuffer.mem_getAll.mp hmem
      omega
    lookup := by rw [hp]; rintro _ _ ⟨⟩
    request := by rw [hp]; rintro _ _ ⟨⟩
    decide := by rw [hp]; rintro _ ⟨⟩
    locked := by rw [hp]; rintro ⟨⟩
    owner := by
      intro r hr
      rw [hreq r] at hr
      rcases hr with ⟨_, ⟨⟩⟩ | ⟨_, _, ⟨⟩⟩ }

/-- **No geo result is lost.** In every run in which `geoReqChan` never fills and `geoWorker` never
updates between the request for a packet and its insertion, no quiescent state has a placeholder in the
history. -/
theorem no_placeholder_of_quiescent (henv : Resolves env) (s : State ι)
    (hs : (machine ι env SavedOK).ReachVia (fun s a => NeverFull s a ∧ Careful env s a) s)
    (hq : Quiescent s) : ∀ p ∈ s.historyBuffer.getAll false, p.country ≠ searching := by
  intro p hp hc
  have hinv : Inv env s := hs.invariant (I := Inv env) (fun s h => init_inv h)
    fun s a s' ih hok ha => inv_step henv ih hok (step_of_machine ha)
  obtain ⟨hchan, -, hgeo⟩ := hq
  obtain ⟨ip, -, hr | hr | ⟨g, hr | hr⟩⟩ := hinv.history p hp hc
  · rw [hchan] at hr
    cases hr
  all_goals rw [hgeo] at hr; cases hr

/-! ### Two runs -/

/-- A database that knows one country. -/
def atlas : Env where
  lib := ⟨id, fun _ => none, fun _ => none⟩
  geoDB := some fun _ => some ⟨"norway".toList, "no".toList, []⟩

theorem resolves_atlas : Resolves atlas where
  known := ⟨_, rfl, fun _ _ => rfl⟩
  named := by
    rintro _ ip record ⟨⟩ ⟨⟩
    exact ⟨by decide, by decide⟩

/-- A packet from a public address. -/
def fromPublic : Service.Model.DashboardPacket where
  timestamp := 0
  srcIp := "8.8.8.8".toList
  dstIp := "10.0.0.1".toList
  srcPort := 53
  dstPort := 40000
  protocol := "UDP".toList
  hasTcpAo := false
  tcpFlags := 0
  l3Offset := 14
  l4Offset := 34
  tcpSeq := 0
  tcpAck := 0
  icmpType := 0
  icmpCode := 0
  deltaTime := 0
  vlanId := 0
  ipTtl := 64
  ipTos := 0
  tcpWin := 0
  ipId := 0
  isIpv6 := false
  isFragment := false
  tcpMss := 0
  tcpWs := 0
  ipv6ExtCount := 0
  ipv6Flow := 0
  wireLen := 42
  tcpTsVal := 0
  tcpTsEcr := 0
  tcpSack := false
  tcpRtt := 0
  vxlanVni := 0
  entropyScaled := 0
  ntpStratum := 0
  ntpMode := 0
  igmpGroup := "0.0.0.0".toList
  igmpType := 0
  lldpChassis := []
  lldpPort := []
  tcpSackEdges := []
  topByteInfo := []
  dnsQuery := []
  tlsSni := []
  extraInfo := []
  appLayerInfo := []
  payload := []
  srcMac := "00:00:0c:00:00:01".toList
  dstMac := "00:00:0c:00:00:02".toList

/-- The server behind its start, with an empty cache. -/
def started : State Unit where
  historyBuffer := RingBuffer.new (received fromPublic) (by decide)
  isScanning := true
  filter := Filter.empty
  packetCounter := 0
  geoCache := LruCache.new 10000
  geoReqChan := []
  mu := none
  packetLoop := .idle
  geoLoop := .idle
  requests _ := .done
  broadcasts := []

theorem init_started : Init SavedOK started := by
  refine ⟨rfl, rfl, rfl, rfl, fun _ => ?_, rfl, rfl, rfl, rfl, fun _ => rfl, rfl⟩
  show cachedCountry [] ≠ searching
  decide

/-- The packet is stored before `geoWorker` gets to its request. -/
def storedFirst : List (Action Unit) :=
  [.arrive fromPublic, .packetLoop, .packetLoop, .packetLoop, .packetLoop, .packetLoop,
    .geoLoop, .geoLoop, .geoLoop, .geoLoop, .geoLoop]

/-- `geoWorker` has updated the history before the packet is stored. -/
def updatedFirst : List (Action Unit) :=
  [.arrive fromPublic, .packetLoop, .packetLoop, .packetLoop,
    .geoLoop, .geoLoop, .geoLoop, .geoLoop, .geoLoop, .packetLoop, .packetLoop]

omit [DecidableEq ι] in
theorem neverFull_of_length {a : Action ι} (h : s.geoReqChan.length < geoReqCapacity) :
    NeverFull s a := fun _ _ _ _ => h

omit [DecidableEq ι] in
theorem careful_of_idle {a : Action ι} (h : s.packetLoop = .idle) : Careful env s a := by
  rintro - ip g pkt - hp
  rw [h] at hp
  cases hp

omit [DecidableEq ι] in
theorem careful_of_ne {a : Action ι} (h : a ≠ .geoLoop) : Careful env s a := fun ha => absurd ha h

theorem storedFirst_careful : (machine Unit atlas SavedOK).Along
    (fun s a => NeverFull s a ∧ Careful atlas s a) started storedFirst :=
  ⟨⟨neverFull_of_length (by decide), careful_of_ne nofun⟩,
    ⟨neverFull_of_length (by decide), careful_of_ne nofun⟩,
    ⟨neverFull_of_length (by decide), careful_of_ne nofun⟩,
    ⟨neverFull_of_length (by decide), careful_of_ne nofun⟩,
    ⟨neverFull_of_length (by decide), careful_of_ne nofun⟩,
    ⟨neverFull_of_length (by decide), careful_of_ne nofun⟩,
    ⟨neverFull_of_length (by decide), careful_of_idle rfl⟩,
    ⟨neverFull_of_length (by decide), careful_of_idle rfl⟩,
    ⟨neverFull_of_length (by decide), careful_of_idle rfl⟩,
    ⟨neverFull_of_length (by decide), careful_of_idle rfl⟩,
    ⟨neverFull_of_length (by decide), careful_of_idle rfl⟩, trivial⟩

theorem storedFirst_resolved : ∃ s : State Unit,
    (machine Unit atlas SavedOK).ReachVia (fun s a => NeverFull s a ∧ Careful atlas s a) s ∧
    Quiescent s ∧ s.historyBuffer.count = 1 ∧
    ∀ p ∈ s.historyBuffer.getAll false, p.country ≠ searching :=
  have hrun : (machine Unit atlas SavedOK).ReachVia (fun s a => NeverFull s a ∧ Careful atlas s a)
      (((machine Unit atlas SavedOK).exec started storedFirst).get (by decide)) :=
    Machine.ReachVia.exec (s := started) storedFirst (Machine.ReachVia.of_init init_started)
      storedFirst_careful (by simp)
  ⟨_, hrun, ⟨rfl, rfl, rfl⟩, rfl, no_placeholder_of_quiescent resolves_atlas _ hrun ⟨rfl, rfl, rfl⟩⟩

theorem updatedFirst_neverFull :
    (machine Unit atlas SavedOK).Along NeverFull started updatedFirst :=
  ⟨neverFull_of_length (by decide), neverFull_of_length (by decide), neverFull_of_length (by decide),
    neverFull_of_length (by decide), neverFull_of_length (by decide), neverFull_of_length (by decide),
    neverFull_of_length (by decide), neverFull_of_length (by decide), neverFull_of_length (by decide),
    neverFull_of_length (by decide), neverFull_of_length (by decide), trivial⟩

/-- A geo result can be lost, with a database that resolves every address and room in the channel. -/
theorem updatedFirst_loses : Resolves atlas ∧
    ¬ ∀ s : State Unit, (machine Unit atlas SavedOK).ReachVia NeverFull s → Quiescent s →
      ∀ p ∈ s.historyBuffer.getAll false, p.country ≠ searching := by
  refine ⟨resolves_atlas, fun h => ?_⟩
  have hrun : (machine Unit atlas SavedOK).ReachVia NeverFull
      (((machine Unit atlas SavedOK).exec started updatedFirst).get (by decide)) :=
    Machine.ReachVia.exec (s := started) updatedFirst (Machine.ReachVia.of_init init_started)
      updatedFirst_neverFull (by simp)
  exact h _ hrun ⟨rfl, rfl, rfl⟩ _ (RingBuffer.mem_getAll.mpr ⟨⟨0, by decide⟩, by decide, rfl⟩)
    (by decide)

end Pacsni.Dashboard.Geo
