import Pacsni.Dashboard.Mutex

/-! # The country of a stored packet

The packet goroutine asks for the country of the source address, if it is public, and otherwise for
that of the destination. `geoWorker` gives its result to every stored packet that has the address at
either end. So a packet between two public hosts loses the country of its source as soon as somebody
else asks for its destination.

Runs are considered in which the two goroutines do not mix: `geoWorker` waits while a packet is
processed, and the packet goroutine while `geoWorker` has a request. In such a run every stored packet
has the right country once no request is left, if no update overwrites the country of another address
and no request that matters is dropped. -/

namespace Pacsni.Dashboard.Attribution

open Pacsni.Lib.Text Pacsni.Lib.Strings Pacsni.Lib.Runs
open Pacsni.Dashboard.Packet Pacsni.Dashboard.Ring Pacsni.Dashboard.Lru Pacsni.Dashboard.Matching
open Pacsni.Dashboard.Server Pacsni.Dashboard.Steps Pacsni.Dashboard.Mutex
open Pacsni.Dashboard.Geo (Holds Requested requested_step geoAddress_setCountry geoAddress_congr
  geoAddress_spec atlas fromPublic started init_started storedFirst)

/-- What `geoWorker` finds for an address. -/
def lookup (env : Env) (ip : Str) : Option GeoResult :=
  (env.geoDB.bind fun city => city ip).map (GeoResult.ofRecord env)

/-- What is assumed of the database: every public address resolves, and no country and no code has a
`|` in it. -/
structure Resolves (env : Env) : Prop where
  known : ∀ ip, isPrivateIP ip = false → (lookup env ip).isSome = true
  plain : ∀ ip g, lookup env ip = some g → '|' ∉ g.country ∧ '|' ∉ g.code

/-- A cache that an earlier run has saved: it has the results of the database. -/
def SavedResults (env : Env) (c : LruCache) : Prop :=
  c.Maps fun ip value => ∃ g, lookup env ip = some g ∧ value = g.text

/-- The packet has the country and the code of the address that decides. -/
def Attributed (env : Env) (p : DashboardPacket) : Prop :=
  match geoAddress p with
  | some ip => ∃ g, lookup env ip = some g ∧ p.country = g.country ∧ p.countryCode = g.code
  | none => p.country = "local".toList

variable {ι : Type*} {env : Env} {s s' : State ι} {ip : Str} {g : GeoResult} {p : DashboardPacket}

/-- A packet and a request are each processed without steps of the other goroutine in between. -/
def Atomic (s : State ι) (a : Server.Action ι) : Prop :=
  (a = .geoLoop → ¬ Holds s.packetLoop) ∧ (a = .packetLoop → s.geoLoop = .idle)

/-- The update for an address leaves every stored packet to it from another public address with the
country and the code of that one, or that one is still to be looked up. -/
def Respects (env : Env) (s : State ι) (a : Server.Action ι) : Prop :=
  a = .geoLoop → ∀ ip g, s.geoLoop = .cached ip g →
    ∀ p ∈ s.historyBuffer.getAll false, p.dstIp = ip → isPrivateIP p.srcIp = false →
      (∃ g', lookup env p.srcIp = some g' ∧ g.country = g'.country ∧ g.code = g'.code) ∨
        p.srcIp ∈ s.geoReqChan

/-- The request for a packet that is going to be stored is not dropped, or one for the same address is
queued. -/
def Heard (env : Env) (s : State ι) (a : Server.Action ι) : Prop :=
  a = .packetLoop → ∀ pkt ip, s.packetLoop = .request pkt ip →
    accepts env.lib s.filter (setCountry pkt searching) = true →
      s.geoReqChan.length < geoReqCapacity ∨ ip ∈ s.geoReqChan

/-! ### What the two goroutines give to a packet -/

theorem split_text (hc : '|' ∉ g.country) (hcode : '|' ∉ g.code) :
    ∃ rest, split g.text '|' = g.country :: g.code :: rest := by
  refine ⟨split (g.city ++ '|' :: g.isp) '|', ?_⟩
  unfold GeoResult.text split
  rw [List.splitOn_append_cons_self_of_not_mem hc, List.splitOn_append_cons_self_of_not_mem hcode]

/-- The country and the code survive the way through the cache. -/
theorem setCountry_text (pkt : DashboardPacket) (hc : '|' ∉ g.country) (hcode : '|' ∉ g.code) :
    setCountry pkt g.text = { pkt with country := g.country, countryCode := g.code } := by
  obtain ⟨rest, hsplit⟩ := split_text hc hcode
  unfold setCountry
  rw [hsplit]
  rfl

theorem attributed_of_some (ha : geoAddress p = some ip) (hg : lookup env ip = some g)
    (hcountry : p.country = g.country) (hcode : p.countryCode = g.code) : Attributed env p := by
  unfold Attributed
  rw [ha]
  exact ⟨g, hg, hcountry, hcode⟩

theorem attributed_of_none (ha : geoAddress p = none) (hlocal : p.country = "local".toList) :
    Attributed env p := by
  unfold Attributed
  rw [ha]
  exact hlocal

theorem attributed_of_cached (henv : Resolves env) (ha : geoAddress p = some ip)
    (hg : lookup env ip = some g) : Attributed env (setCountry p g.text) := by
  obtain ⟨hc, hcode⟩ := henv.plain ip g hg
  refine attributed_of_some (by rw [geoAddress_setCountry]; exact ha) hg ?_ ?_
  · rw [setCountry_text p hc hcode]
  · rw [setCountry_text p hc hcode]

theorem geoAddress_applyGeo : geoAddress (applyGeo ip g p) = geoAddress p := by
  unfold applyGeo
  split_ifs
  · exact geoAddress_congr rfl rfl
  · rfl

/-- The address that decides is the source, if it is public. -/
theorem geoAddress_of_src (h : isPrivateIP p.srcIp = false) : geoAddress p = some p.srcIp := by
  simp [geoAddress, h]

theorem geoAddress_of_dst (hs : isPrivateIP p.srcIp = true) (hd : isPrivateIP p.dstIp = false) :
    geoAddress p = some p.dstIp := by
  simp [geoAddress, hs, hd]

/-! ### The invariant -/

/-- The address that decides is still to be looked up. -/
def Awaits (s : State ι) (p : DashboardPacket) : Prop := ∃ ip, geoAddress p = some ip ∧ Requested s ip

/-- `geoWorker` has a public address, and what the database says about it. -/
def Knows (env : Env) : GeoLoop → Prop
  | .idle => True
  | .received ip => isPrivateIP ip = false
  | .resolved ip g => isPrivateIP ip = false ∧ lookup env ip = some g
  | .cached ip g => isPrivateIP ip = false ∧ lookup env ip = some g
  | .updated _ _ => True

/-- The invariant of the runs considered. -/
structure Inv (env : Env) (s : State ι) : Prop where
  locks : Locks s
  cache : SavedResults env s.geoCache
  queued : ∀ ip ∈ s.geoReqChan, isPrivateIP ip = false
  knows : Knows env s.geoLoop
  history : ∀ p ∈ s.historyBuffer.getAll false, Attributed env p ∨ Awaits s p
  lookup : ∀ pkt ip, s.packetLoop = .lookup pkt ip → geoAddress pkt = some ip
  request : ∀ pkt ip, s.packetLoop = .request pkt ip → geoAddress pkt = some ip
  decide : ∀ pkt, s.packetLoop = .decide pkt → accepts env.lib s.filter pkt = true →
    Attributed env pkt ∨ Awaits s pkt

theorem Awaits.mono (h : Awaits s p) (hreq : ∀ ip, Requested s ip → Requested s' ip) : Awaits s' p := by
  obtain ⟨ip, ha, hr⟩ := h
  exact ⟨ip, ha, hreq ip hr⟩

/-- **The update.** What it leaves behind. -/
theorem update_keeps {q : DashboardPacket} (hg : s.geoLoop = .cached ip g)
    (hknown : isPrivateIP ip = false ∧ lookup env ip = some g)
    (hq : Attributed env q ∨ Awaits s q)
    (hresp : q.dstIp = ip → isPrivateIP q.srcIp = false →
      (∃ g', lookup env q.srcIp = some g' ∧ g.country = g'.country ∧ g.code = g'.code) ∨
        q.srcIp ∈ s.geoReqChan) :
    Attributed env (applyGeo ip g q) ∨
      ∃ ip', geoAddress (applyGeo ip g q) = some ip' ∧ ip' ∈ s.geoReqChan := by
  obtain ⟨hpublic, hlookup⟩ := hknown
  rw [geoAddress_applyGeo]
  by_cases htouch : q.srcIp = ip ∨ q.dstIp = ip
  · have hcountry : (applyGeo ip g q).country = g.country := by simp [applyGeo, htouch]
    have hcode : (applyGeo ip g q).countryCode = g.code := by simp [applyGeo, htouch]
    by_cases hsrc : isPrivateIP q.srcIp = false
    · have haddr := geoAddress_of_src hsrc
      rcases htouch with rfl | hdst
      · exact Or.inl (attributed_of_some (by rw [geoAddress_applyGeo]; exact haddr) hlookup
          hcountry hcode)
      · rcases hresp hdst hsrc with ⟨g', hg', hc, hco⟩ | hqueued
        · exact Or.inl (attributed_of_some (by rw [geoAddress_applyGeo]; exact haddr) hg'
            (hcountry.trans hc) (hcode.trans hco))
        · exact Or.inr ⟨_, haddr, hqueued⟩
    · -- the source is private, so the update was for the destination
      have hdst : q.dstIp = ip := htouch.resolve_left fun he => hsrc (he ▸ hpublic)
      have haddr := geoAddress_of_dst (by simpa using hsrc) (hdst ▸ hpublic)
      rw [hdst] at haddr
      exact Or.inl (attributed_of_some (by rw [geoAddress_applyGeo]; exact haddr) hlookup
        hcountry hcode)
  · have hsame : applyGeo ip g q = q := by simp only [applyGeo, htouch, ↓reduceIte]
    rw [hsame]
    refine hq.imp_right fun haw => ?_
    obtain ⟨ip', ha, hr | hr | ⟨g', hr | hr⟩⟩ := haw
    · exact ⟨ip', ha, hr⟩
    all_goals rw [hg] at hr; cases hr
    exact absurd (geoAddress_spec ha).2 htouch

/-- The address that `geoWorker` has received is known. -/
theorem Inv.known (henv : Resolves env) (hs : Inv env s) (ip : Str) (hg : s.geoLoop = .received ip) :
    (env.geoDB.bind fun city => city ip).isSome = true := by
  have hknows := hs.knows
  rw [hg] at hknows
  have hsome := henv.known ip hknows
  rwa [Attribution.lookup, Option.isSome_map] at hsome

/-! ### Steps -/

/-- The packet goroutine goes on with a packet whose country is settled. -/
theorem Inv.toDecide (hs : Inv env s) (hlocks : Locks s') (hcache : SavedResults env s'.geoCache)
    (hchan : s'.geoReqChan = s.geoReqChan) (hgeo : s'.geoLoop = s.geoLoop)
    (hhist : s'.historyBuffer = s.historyBuffer) (hp : s'.packetLoop = .decide p)
    (hsettled : accepts env.lib s'.filter p = true → Attributed env p ∨ Awaits s p) :
    Inv env s' := by
  have hreq : ∀ ip, Requested s ip → Requested s' ip := by
    intro ip hr
    unfold Requested
    rw [hchan, hgeo]
    exact hr
  exact {
    locks := hlocks
    cache := hcache
    queued := by rw [hchan]; exact hs.queued
    knows := by rw [hgeo]; exact hs.knows
    history := by
      rw [hhist]
      exact fun q hq => (hs.history q hq).imp_right fun h => h.mono hreq
    lookup := by rw [hp]; rintro _ _ ⟨⟩
    request := by rw [hp]; rintro _ _ ⟨⟩
    decide := by
      rw [hp]
      rintro _ ⟨⟩ hacc
      exact (hsettled hacc).imp_right fun h => h.mono hreq }

/-- The packet goroutine handles no packet. -/
theorem Inv.toNone (hs : Inv env s) (hlocks : Locks s') (hcache : s'.geoCache = s.geoCache)
    (hchan : s'.geoReqChan = s.geoReqChan) (hgeo : s'.geoLoop = s.geoLoop)
    (hhist : s'.historyBuffer = s.historyBuffer) (hp : ¬ Holds s'.packetLoop) : Inv env s' where
  locks := hlocks
  cache := hcache ▸ hs.cache
  queued := by rw [hchan]; exact hs.queued
  knows := by rw [hgeo]; exact hs.knows
  history := by
    rw [hhist]
    refine fun q hq => (hs.history q hq).imp_right fun h => h.mono fun ip hr => ?_
    unfold Requested
    rw [hchan, hgeo]
    exact hr
  lookup := fun _ _ h => absurd (by rw [h]; trivial) hp
  request := fun _ _ h => absurd (by rw [h]; trivial) hp
  decide := fun _ h => absurd (by rw [h]; trivial) hp

variable [DecidableEq ι]

/-- A step of the packet goroutine. -/
theorem inv_packetLoop (henv : Resolves env) (hs : Inv env s) (hheard : Heard env s .packetLoop)
    (h : Step env s .packetLoop s') : Inv env s' := by
  have hlocks := locks_step hs.locks h
  cases h with
  | skip hp hmu hscan => exact hs.toNone hlocks rfl rfl rfl rfl nofun
  | start hp hmu hscan hip => exact { hs with
      locks := hlocks
      lookup := by rintro _ _ ⟨⟩; exact hip
      request := by rintro _ _ ⟨⟩
      decide := by rintro _ ⟨⟩ }
  | startLocal hp hmu hscan hip =>
    exact hs.toDecide hlocks hs.cache rfl rfl rfl rfl fun _ =>
      Or.inl (attributed_of_none (geoAddress_congr rfl rfl ▸ hip) rfl)
  | lookupPrivate hp hip =>
    have hpublic := (geoAddress_spec (hs.lookup _ _ hp)).1
    rw [hip] at hpublic
    cases hpublic
  | @hit pkt ip cache c hp hip hget =>
    have hcache := hs.cache.get ip
    obtain ⟨g, hg, rfl⟩ := hs.cache.get_value (congrArg Prod.snd hget)
    rw [hget] at hcache
    exact hs.toDecide hlocks hcache rfl rfl rfl rfl fun _ =>
      Or.inl (attributed_of_cached henv (hs.lookup _ _ hp) hg)
  | @miss pkt ip cache hp hip hget =>
    have hcache := hs.cache.get ip
    rw [hget] at hcache
    exact { hs with
      locks := hlocks
      cache := hcache
      lookup := by rintro _ _ ⟨⟩
      request := by rintro _ _ ⟨⟩; exact hs.lookup _ _ hp
      decide := by rintro _ ⟨⟩ }
  | @ask pkt ip hp hroom =>
    have haddr := hs.request _ _ hp
    exact { hs with
      locks := hlocks
      queued := by
        intro ip' hip'
        rcases List.mem_append.mp hip' with hold | hnew
        · exact hs.queued ip' hold
        · rw [List.mem_singleton.mp hnew]
          exact (geoAddress_spec haddr).1
      history := fun q hq => (hs.history q hq).imp_right fun h =>
        h.mono fun _ hr => hr.imp_left (List.mem_append_left _)
      lookup := by rintro _ _ ⟨⟩
      request := by rintro _ _ ⟨⟩
      decide := by
        rintro _ ⟨⟩ -
        exact Or.inr ⟨ip, by rw [geoAddress_setCountry]; exact haddr, Or.inl (by simp)⟩ }
  | @drop pkt ip hp hfull =>
    refine hs.toDecide hlocks hs.cache rfl rfl rfl rfl fun hacc => Or.inr ?_
    have hqueued := (hheard rfl pkt ip hp hacc).resolve_left hfull
    exact ⟨ip, by rw [geoAddress_setCountry]; exact hs.request _ _ hp, Or.inl hqueued⟩
  | keep hp hacc => exact { hs with
      locks := hlocks
      history := by
        intro q hmem
        rcases RingBuffer.mem_getAll_add hmem with rfl | hold
        · exact hs.decide q hp hacc
        · exact hs.history q hold
      lookup := by rintro _ _ ⟨⟩
      request := by rintro _ _ ⟨⟩
      decide := by rintro _ ⟨⟩ }
  | reject hp hacc => exact hs.toNone hlocks rfl rfl rfl rfl nofun
  | tell hp => exact hs.toNone hlocks rfl rfl rfl rfl nofun

/-- A step of `geoWorker`, while no packet is processed. -/
theorem inv_geoLoop (henv : Resolves env) (hs : Inv env s) (hatomic : ¬ Holds s.packetLoop)
    (hresp : Respects env s .geoLoop) (h : Step env s .geoLoop s') : Inv env s' := by
  have hlocks := locks_step hs.locks h
  have hknows := hs.knows
  -- what a step other than the update keeps under way
  have hkeep : (∀ ip g, s.geoLoop ≠ .cached ip g) → ∀ q, Attributed env q ∨ Awaits s q →
      Attributed env q ∨ Awaits s' q := by
    intro hno q hq
    refine hq.imp_right fun haw => haw.mono fun ip hr =>
      (requested_step (hs.known henv) h hr).resolve_right ?_
    rintro ⟨-, g, hg⟩
    exact hno ip g hg
  cases h with
  | take hg hq =>
    have hkeep := hkeep (by rw [hg]; nofun)
    exact { hs with
      locks := hlocks
      queued := fun ip' hip' => hs.queued ip' (by rw [hq]; exact List.mem_cons_of_mem _ hip')
      knows := hs.queued _ (by rw [hq]; exact List.mem_cons_self)
      history := fun q hmem => hkeep q (hs.history q hmem)
      decide := fun pkt hp => absurd (by rw [show s.packetLoop = _ from hp]; trivial) hatomic }
  | noDB hg hnone =>
    have := hs.known henv _ hg
    simp [hnone] at this
  | unknown hg hsome hnone =>
    have := hs.known henv _ hg
    simp [hsome, hnone] at this
  | resolve hg hsome hcity =>
    have hkeep := hkeep (by rw [hg]; nofun)
    rw [hg] at hknows
    exact { hs with
      locks := hlocks
      knows := ⟨hknows, by simp [Attribution.lookup, hsome, hcity]⟩
      history := fun q hmem => hkeep q (hs.history q hmem)
      decide := fun pkt hp => absurd (by rw [show s.packetLoop = _ from hp]; trivial) hatomic }
  | cache hg =>
    have hkeep := hkeep (by rw [hg]; nofun)
    rw [hg] at hknows
    exact { hs with
      locks := hlocks
      cache := hs.cache.add ⟨_, hknows.2, rfl⟩
      knows := hknows
      history := fun q hmem => hkeep q (hs.history q hmem)
      decide := fun pkt hp => absurd (by rw [show s.packetLoop = _ from hp]; trivial) hatomic }
  | @update ip g hg =>
    rw [hg] at hknows
    exact { hs with
      locks := hlocks
      knows := trivial
      history := by
        intro q hmem
        obtain ⟨q, hq, rfl⟩ := RingBuffer.mem_getAll_update hmem
        refine (update_keeps hg hknows (hs.history q hq) (hresp rfl ip g hg q hq)).imp_right ?_
        rintro ⟨ip', ha, hqueued⟩
        exact ⟨ip', ha, Or.inl hqueued⟩
      decide := fun pkt hp => absurd (by rw [show s.packetLoop = _ from hp]; trivial) hatomic }
  | tellGeo hg =>
    have hkeep := hkeep (by rw [hg]; nofun)
    exact { hs with
      locks := hlocks
      knows := trivial
      history := fun q hmem => hkeep q (hs.history q hmem)
      decide := fun pkt hp => absurd (by rw [show s.packetLoop = _ from hp]; trivial) hatomic }

/-- A step of a request. -/
theorem inv_request {r : ι} (hs : Inv env s) (h : Step env s (.request r) s') : Inv env s' := by
  have hlocks := locks_step hs.locks h
  cases h with
  | clear hr hmu => exact { hs with
      locks := hlocks
      history := by intro q hmem; rw [RingBuffer.getAll_clear] at hmem; cases hmem }
  | setFilter hr hmu hf => exact { hs with
      locks := hlocks
      decide := fun pkt hp => absurd (by rw [show s.packetLoop = _ from hp]; trivial)
        (hs.locks.not_holds (by rw [hmu]; nofun)) }
  | _ => exact { hs with locks := hlocks }

theorem inv_step (henv : Resolves env) {a : Server.Action ι} (hs : Inv env s)
    (hok : Atomic s a ∧ Respects env s a ∧ Heard env s a) (h : Step env s a s') : Inv env s' := by
  obtain ⟨hatomic, hresp, hheard⟩ := hok
  have hlocks := locks_step hs.locks h
  cases a with
  | arrive pkt =>
    cases h
    exact hs.toNone hlocks rfl rfl rfl rfl nofun
  | packetLoop => exact inv_packetLoop henv hs hheard h
  | geoLoop => exact inv_geoLoop henv hs (hatomic.1 rfl) hresp h
  | «open» r action f =>
    cases h
    exact { hs with locks := hlocks }
  | request r => exact inv_request hs h

/-! ### Runs -/

/-- **The country of a stored packet.** In every run in which the goroutines do not mix, no update
overwrites the country of another address and no request that matters is dropped, every stored packet
has the country and the code of its source, if that is public, and otherwise of its destination, once
no request is left. -/
theorem attributed_of_no_request (env : Env) (henv : Resolves env) (s : State ι)
    (hs : (machine ι env (SavedResults env)).ReachVia
      (fun s a => Atomic s a ∧ Respects env s a ∧ Heard env s a) s)
    (hchan : s.geoReqChan = []) (hgeo : s.geoLoop = .idle) :
    ∀ p ∈ s.historyBuffer.getAll false, Attributed env p := by
  have hinv : Inv env s := by
    refine Machine.ReachVia.invariant (I := Inv env) hs ?_ fun s a s' ih hok ha =>
      inv_step henv ih hok (step_of_machine ha)
    intro s hinit
    have hreach : (machine ι env (SavedResults env)).Reach s := .of_init hinit
    obtain ⟨hcount, -, -, -, hcache, hchan, -, hp, hg, -, -⟩ := hinit
    exact {
      locks := locks_of_reach hreach
      cache := hcache
      queued := by rw [hchan]; nofun
      knows := by rw [hg]; trivial
      history := by
        intro p hmem
        obtain ⟨i, hi, -⟩ := RingBuffer.mem_getAll.mp hmem
        omega
      lookup := by rw [hp]; rintro _ _ ⟨⟩
      request := by rw [hp]; rintro _ _ ⟨⟩
      decide := by rw [hp]; rintro _ ⟨⟩ }
  intro p hp
  refine (hinv.history p hp).resolve_right ?_
  rintro ⟨ip, -, hr | hr | ⟨g, hr | hr⟩⟩
  · rw [hchan] at hr
    cases hr
  all_goals rw [hgeo] at hr; cases hr

/-- An update that does not respect a packet leaves it with the country of another address, and nobody
is going to look up its own. -/
theorem overwritten_of_not_respects {a : Server.Action ι} (hno : ¬ Respects env s a)
    (h : Step env s a s') :
    ∃ p ∈ s'.historyBuffer.getAll false, ¬ Attributed env p ∧ ¬ Awaits s' p := by
  unfold Respects at hno
  push Not at hno
  obtain ⟨rfl, ip, g, hg, p, hp, hdst, hsrc, hother, hqueued⟩ := hno
  have haddr : geoAddress (applyGeo ip g p) = some p.srcIp := by
    rw [geoAddress_applyGeo]
    exact geoAddress_of_src hsrc
  cases h with
  | @update ip' g' hg' =>
    rw [hg] at hg'
    cases hg'
    refine ⟨applyGeo ip g p, ?_, ?_, ?_⟩
    · show _ ∈ (s.historyBuffer.update (applyGeo ip g)).getAll false
      rw [RingBuffer.getAll_update]
      exact List.mem_map_of_mem hp
    · intro hattr
      unfold Attributed at hattr
      rw [haddr] at hattr
      obtain ⟨g', hg', hcountry, hcode⟩ := hattr
      rw [applyGeo, if_pos (Or.inr hdst)] at hcountry hcode
      exact hother g' hg' hcountry hcode
    · rintro ⟨ip', ha, hr⟩
      rw [haddr] at ha
      cases ha
      rcases hr with hr | hr | ⟨g', hr | hr⟩
      · exact hqueued hr
      all_goals cases hr
  | take hg' => rw [hg] at hg'; cases hg'
  | noDB hg' => rw [hg] at hg'; cases hg'
  | unknown hg' => rw [hg] at hg'; cases hg'
  | resolve hg' => rw [hg] at hg'; cases hg'
  | cache hg' => rw [hg] at hg'; cases hg'
  | tellGeo hg' => rw [hg] at hg'; cases hg'

/-! ### Two runs -/

theorem init_startedEmpty (env : Env) : Init (SavedResults env) started := by
  obtain ⟨h1, h2, h3, h4, -, h6, h7, h8, h9, h10, h11⟩ := init_started
  exact ⟨h1, h2, h3, h4, LruCache.Maps.new _ _, h6, h7, h8, h9, h10, h11⟩

omit [DecidableEq ι] in
theorem atomic_packet (h : s.geoLoop = .idle) : Atomic s .packetLoop := ⟨nofun, fun _ => h⟩

omit [DecidableEq ι] in
theorem atomic_geo (h : s.packetLoop = .idle) : Atomic s .geoLoop := by
  refine ⟨fun _ => ?_, nofun⟩
  rw [h]
  exact not_false

theorem resolves_atlas : Resolves atlas where
  known _ _ := rfl
  plain := by
    rintro ip g ⟨⟩
    exact ⟨by decide, by decide⟩

theorem storedFirst_ok : (machine Unit atlas (SavedResults atlas)).Along
    (fun s a => Atomic s a ∧ Respects atlas s a ∧ Heard atlas s a) started storedFirst := by
  refine ⟨⟨⟨nofun, nofun⟩, nofun, nofun⟩, ⟨atomic_packet rfl, nofun, ?_⟩,
    ⟨atomic_packet rfl, nofun, ?_⟩, ⟨atomic_packet rfl, nofun, ?_⟩, ⟨atomic_packet rfl, nofun, ?_⟩,
    ⟨atomic_packet rfl, nofun, ?_⟩, ⟨atomic_geo rfl, ?_, nofun⟩, ⟨atomic_geo rfl, ?_, nofun⟩,
    ⟨atomic_geo rfl, ?_, nofun⟩, ⟨atomic_geo rfl, ?_, nofun⟩, ⟨atomic_geo rfl, ?_, nofun⟩, trivial⟩
  iterate 5 exact fun _ _ _ _ _ => Or.inl (by decide)
  all_goals rintro - _ _ ⟨⟩
  rintro p - - -
  exact Or.inl ⟨_, rfl, rfl, rfl⟩

theorem storedFirst_attributed : ∃ s : State Unit, s.historyBuffer.count = 1 ∧
    ∀ p ∈ s.historyBuffer.getAll false, Attributed atlas p :=
  have hrun : (machine Unit atlas (SavedResults atlas)).ReachVia
      (fun s a => Atomic s a ∧ Respects atlas s a ∧ Heard atlas s a)
      (((machine Unit atlas (SavedResults atlas)).exec started storedFirst).get (by decide)) :=
    Machine.ReachVia.exec (s := started) storedFirst (.of_init (init_startedEmpty atlas))
      storedFirst_ok (by simp)
  ⟨_, rfl, attributed_of_no_request atlas resolves_atlas _ hrun rfl rfl⟩

/-- A database that knows two countries. -/
def twoCountries : Env where
  lib := atlas.lib
  geoDB := some fun ip =>
    if ip = "1.1.1.1".toList then some ⟨"australia".toList, "au".toList, []⟩
    else some ⟨"norway".toList, "no".toList, []⟩

theorem lookup_twoCountries (ip : Str) :
    lookup twoCountries ip = some ⟨"australia".toList, "au".toList, [], []⟩ ∨
      lookup twoCountries ip = some ⟨"norway".toList, "no".toList, [], []⟩ := by
  show (if ip = "1.1.1.1".toList then _ else _ : Option CityRecord).map _ = _ ∨
    (if ip = "1.1.1.1".toList then _ else _ : Option CityRecord).map _ = _
  split_ifs
  · exact Or.inl rfl
  · exact Or.inr rfl

theorem resolves_twoCountries : Resolves twoCountries where
  known ip _ := by
    rcases lookup_twoCountries ip with h | h
    · rw [h]
      rfl
    · rw [h]
      rfl
  plain ip g hg := by
    rcases lookup_twoCountries ip with h | h
    · obtain rfl := Option.some.inj (h.symm.trans hg)
      exact ⟨by decide, by decide⟩
    · obtain rfl := Option.some.inj (h.symm.trans hg)
      exact ⟨by decide, by decide⟩

/-- A packet, and the request for it, each processed to its end. -/
def processed (pkt : Service.Model.DashboardPacket) : List (Server.Action Unit) :=
  [.arrive pkt, .packetLoop, .packetLoop, .packetLoop, .packetLoop, .packetLoop,
    .geoLoop, .geoLoop, .geoLoop, .geoLoop, .geoLoop]

/-- A packet between two public addresses, and then one from the second address. -/
def overwriting : List (Server.Action Unit) :=
  processed { fromPublic with dstIp := "1.1.1.1".toList } ++
    processed { fromPublic with srcIp := "1.1.1.1".toList }

theorem overwriting_atomic :
    (machine Unit twoCountries (SavedResults twoCountries)).Along Atomic started overwriting :=
  ⟨⟨nofun, nofun⟩, atomic_packet rfl, atomic_packet rfl, atomic_packet rfl, atomic_packet rfl,
    atomic_packet rfl, atomic_geo rfl, atomic_geo rfl, atomic_geo rfl, atomic_geo rfl,
    atomic_geo rfl, ⟨nofun, nofun⟩, atomic_packet rfl, atomic_packet rfl, atomic_packet rfl,
    atomic_packet rfl, atomic_packet rfl, atomic_geo rfl, atomic_geo rfl, atomic_geo rfl,
    atomic_geo rfl, atomic_geo rfl, trivial⟩

/-- The country of a packet between two public hosts depends on who asked last. -/
theorem overwriting_misattributes : Resolves twoCountries ∧
    ¬ ∀ s : State Unit, (machine Unit twoCountries (SavedResults twoCountries)).ReachVia Atomic s →
      s.geoReqChan = [] → s.geoLoop = .idle →
        ∀ p ∈ s.historyBuffer.getAll false, Attributed twoCountries p := by
  refine ⟨resolves_twoCountries, fun h => ?_⟩
  have hrun : (machine Unit twoCountries (SavedResults twoCountries)).ReachVia Atomic
      (((machine Unit twoCountries (SavedResults twoCountries)).exec started overwriting).get
        (by decide)) :=
    Machine.ReachVia.exec (s := started) overwriting (.of_init (init_startedEmpty twoCountries))
      overwriting_atomic (by simp)
  have hfirst := h _ hrun rfl rfl _ (RingBuffer.mem_getAll.mpr ⟨⟨0, by decide⟩, by decide, rfl⟩)
  obtain ⟨g, hg, hcountry, -⟩ := hfirst
  cases hg
  exact absurd hcountry (by decide)

end Pacsni.Dashboard.Attribution
