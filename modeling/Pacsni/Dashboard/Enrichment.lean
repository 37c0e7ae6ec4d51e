import Pacsni.Dashboard.History
import Pacsni.Dashboard.Attribution
import Pacsni.Dashboard.Flow

/-! # The two ways to a geo result

A packet whose address is in the cache gets its country and code from the cached text. A packet whose
address is not there is stored with a placeholder, and `geoWorker` gives it country, code, city and ISP
once it has looked up the address. City and ISP are in the cached text too, but the packet goroutine
does not read them, so the two ways agree if and only if both are empty. -/

namespace Pacsni.Dashboard.Enrichment

open Pacsni.Lib.Text Pacsni.Lib.Runs
open Pacsni.Dashboard.Packet Pacsni.Dashboard.Ring Pacsni.Dashboard.Lru
open Pacsni.Dashboard.Server Pacsni.Dashboard.Steps Pacsni.Dashboard.History Pacsni.Dashboard.Flow
open Pacsni.Dashboard.Attribution (lookup setCountry_text Knows)
open Pacsni.Dashboard.Geo (atlas fromPublic started init_started SavedOK storedFirst)

variable {ι : Type*} {env : Env} {savedOK : LruCache → Prop} {s s' : State ι} {ip : Str}
  {g : GeoResult} {pkt p : DashboardPacket} {n : ℕ}

/-- The address is public, and the other one of the packet is not. -/
def OnePublic (p : DashboardPacket) (ip : Str) : Prop :=
  (p.srcIp = ip ∧ isPrivateIP p.srcIp = false ∧ isPrivateIP p.dstIp = true) ∨
    (p.dstIp = ip ∧ isPrivateIP p.dstIp = false ∧ isPrivateIP p.srcIp = true)

/-- The two packets agree in what the database says. -/
def SameGeo (p q : DashboardPacket) : Prop :=
  p.country = q.country ∧ p.countryCode = q.countryCode ∧ p.city = q.city ∧ p.isp = q.isp

/-- No geo field is set. -/
def Blank (p : DashboardPacket) : Prop := p.countryCode = [] ∧ p.city = [] ∧ p.isp = []

/-! ### Packets on their way -/

/-- The packet before its country is set. -/
def fresh : PacketLoop → Option DashboardPacket
  | .received pkt => some pkt
  | .lookup pkt _ => some pkt
  | .request pkt _ => some pkt
  | _ => none

variable [DecidableEq ι]

/-- The packet goroutine sets no geo field before the country. -/
theorem passes_blank (env : Env) : Passes env Blank Blank (fun _ => True) (fun _ => True) where
  label _ _ hp := hp
  noGeo _ _ := trivial
  setCountry _ _ _ := trivial
  store _ _ := trivial
  update _ _ _ _ := trivial

theorem blank_of_reach (hs : (machine ι env savedOK).Reach s) (p : DashboardPacket)
    (hp : fresh s.packetLoop = some p) : Blank p := by
  have hstaged := staged_of_reachVia (passes_blank env) (fun _ _ _ => ⟨rfl, rfl, rfl⟩) hs
  cases hl : s.packetLoop with
  | received pkt =>
    rw [hl] at hp
    obtain rfl := Option.some.inj hp
    exact hstaged.received pkt hl
  | lookup pkt ip =>
    rw [hl] at hp
    obtain rfl := Option.some.inj hp
    exact hstaged.lookup pkt ip hl
  | request pkt ip =>
    rw [hl] at hp
    obtain rfl := Option.some.inj hp
    exact hstaged.request pkt ip hl
  | _ =>
    rw [hl] at hp
    cases hp

/-- The life of the packet with the index `n`: it meets `Q` before its country is set, `R` from then on
until it is decided on, `S` while it is stored and not told, and `P` in the history. -/
structure Life (Q R S P : DashboardPacket → Prop) (n : ℕ) (s : State ι) : Prop where
  counted : n ≤ s.packetCounter
  lookup : ∀ pkt ip, s.packetLoop = .lookup pkt ip → pkt.index = n → Q pkt
  request : ∀ pkt ip, s.packetLoop = .request pkt ip → pkt.index = n → Q pkt
  decide : ∀ pkt, s.packetLoop = .decide pkt → pkt.index = n → R pkt
  stored : ∀ pkt, s.packetLoop = .stored pkt → pkt.index = n → S pkt
  history : ∀ pkt ∈ s.historyBuffer.getAll false, pkt.index = n → P pkt

section

variable {Q R S P : DashboardPacket → Prop}

omit [DecidableEq ι] in
/-- The packet goroutine sets a country. -/
theorem Life.toDecide (hs : Life Q R S P n s) (hcount : s'.packetCounter = s.packetCounter)
    (hhist : s'.historyBuffer = s.historyBuffer) (hp : s'.packetLoop = .decide p)
    (hset : p.index = n → R p) : Life Q R S P n s' where
  counted := hcount ▸ hs.counted
  lookup := by rw [hp]; rintro _ _ ⟨⟩
  request := by rw [hp]; rintro _ _ ⟨⟩
  decide := by rw [hp]; rintro _ ⟨⟩; exact hset
  stored := by rw [hp]; rintro _ ⟨⟩
  history := by rw [hhist]; exact hs.history

omit [DecidableEq ι] in
/-- The packet goroutine handles no packet. -/
theorem Life.toNone (hs : Life Q R S P n s) (hcount : s'.packetCounter = s.packetCounter)
    (hhist : s'.historyBuffer = s.historyBuffer) (hp : handled s'.packetLoop = none)
    (htold : ∀ pkt, s'.packetLoop ≠ .stored pkt) : Life Q R S P n s' where
  counted := hcount ▸ hs.counted
  lookup := by intro _ _ h; rw [h] at hp; cases hp
  request := by intro _ _ h; rw [h] at hp; cases hp
  decide := by intro _ h; rw [h] at hp; cases hp
  stored := fun _ h => absurd h (htold _)
  history := by rw [hhist]; exact hs.history

/-- A step in the life of a packet. -/
theorem life_step {a : Server.Action ι} (hset : ∀ pkt res, Q pkt → R (setCountry pkt res))
    (hkeep : ∀ pkt, R pkt → S pkt ∧ P pkt)
    (hupdate : ∀ ip g pkt, s.geoLoop = .cached ip g → P pkt → P (applyGeo ip g pkt))
    (hs : Life Q R S P n s) (h : Step env s a s') : Life Q R S P n s' := by
  cases h with
  | arrive hp => exact hs.toNone rfl rfl rfl nofun
  | skip hp hmu hscan => exact hs.toNone rfl rfl rfl nofun
  | @start pkt ip hp hmu hscan hip =>
    have hcounted := hs.counted
    exact { hs with
      counted := Nat.le_succ_of_le hcounted
      lookup := by
        rintro _ _ ⟨⟩ (hindex : s.packetCounter + 1 = n)
        omega
      request := by rintro _ _ ⟨⟩
      decide := by rintro _ ⟨⟩
      stored := by rintro _ ⟨⟩ }
  | @startLocal pkt hp hmu hscan hip =>
    have hcounted := hs.counted
    exact { hs with
      counted := Nat.le_succ_of_le hcounted
      lookup := by rintro _ _ ⟨⟩
      request := by rintro _ _ ⟨⟩
      decide := by
        rintro _ ⟨⟩ (hindex : s.packetCounter + 1 = n)
        omega
      stored := by rintro _ ⟨⟩ }
  | lookupPrivate hp hip =>
    refine hs.toDecide rfl rfl rfl fun hindex => hset _ _ (hs.lookup _ _ hp ?_)
    rwa [index_setCountry] at hindex
  | hit hp hip hget =>
    refine hs.toDecide rfl rfl rfl fun hindex => hset _ _ (hs.lookup _ _ hp ?_)
    rwa [index_setCountry] at hindex
  | miss hp hip hget => exact { hs with
      lookup := by rintro _ _ ⟨⟩
      request := by rintro _ _ ⟨⟩; exact hs.lookup _ _ hp
      decide := by rintro _ ⟨⟩
      stored := by rintro _ ⟨⟩ }
  | ask hp hroom =>
    refine hs.toDecide rfl rfl rfl fun hindex => hset _ _ (hs.request _ _ hp ?_)
    rwa [index_setCountry] at hindex
  | drop hp hfull =>
    refine hs.toDecide rfl rfl rfl fun hindex => hset _ _ (hs.request _ _ hp ?_)
    rwa [index_setCountry] at hindex
  | keep hp hacc => exact { hs with
      lookup := by rintro _ _ ⟨⟩
      request := by rintro _ _ ⟨⟩
      decide := by rintro _ ⟨⟩
      stored := by rintro _ ⟨⟩ hindex; exact (hkeep _ (hs.decide _ hp hindex)).1
      history := by
        intro q hmem hindex
        rcases RingBuffer.mem_getAll_add hmem with rfl | hold
        · exact (hkeep q (hs.decide q hp hindex)).2
        · exact hs.history q hold hindex }
  | reject hp hacc => exact hs.toNone rfl rfl rfl nofun
  | tell hp => exact hs.toNone rfl rfl rfl nofun
  | update hg => exact { hs with
      history := by
        intro q hmem hindex
        obtain ⟨q, hq, rfl⟩ := RingBuffer.mem_getAll_update hmem
        rw [index_applyGeo] at hindex
        exact hupdate _ _ q hg (hs.history q hq hindex) }
  | clear hr hmu => exact { hs with
      history := by
        intro q hmem
        rw [RingBuffer.getAll_clear] at hmem
        cases hmem }
  | _ => exact { hs with }

/-- The life of a packet in a run. -/
theorem life_of_leads (hset : ∀ pkt res, Q pkt → R (setCountry pkt res))
    (hkeep : ∀ pkt, R pkt → S pkt ∧ P pkt)
    (hupdate : ∀ t : State ι, (machine ι env savedOK).Reach t → ∀ ip g pkt,
      t.geoLoop = .cached ip g → P pkt → P (applyGeo ip g pkt))
    (hreach : (machine ι env savedOK).Reach s) (hs : Life Q R S P n s)
    (hrun : (machine ι env savedOK).Leads s s') : Life Q R S P n s' :=
  hrun.invariant (I := Life Q R S P n) hreach hs fun t _ _ ht hlife ha =>
    life_step hset hkeep (hupdate t ht) hlife (step_of_machine ha)

end

/-- The packet that is handled has an index of its own. -/
theorem handled_fresh (hs : (machine ι env savedOK).Reach s) (hp : handled s.packetLoop = some p) :
    p.index = s.packetCounter ∧ ∀ q ∈ s.historyBuffer.getAll false, q.index < p.index := by
  obtain ⟨l, hl⟩ : ∃ l, ((machine ι env savedOK).recorded (note env)).Reach (s, l) :=
    hs.exists_recorded
  have hinv := inv_of_recorded hl
  obtain ⟨hindex, hlt⟩ := hinv.current p hp
  refine ⟨hindex, fun q hq => ?_⟩
  have hmem : q.index ∈ indexes s := List.mem_map_of_mem hq
  rw [hinv.history] at hmem
  rw [hindex]
  exact hlt _ ((sinceClear_suffix l).subset ((List.drop_suffix _ _).subset hmem))

/-! ### The geo worker -/

/-- `geoWorker` is asked for public addresses only, and has what the database says about them. -/
structure Sound (env : Env) (s : State ι) : Prop where
  request : ∀ pkt ip, s.packetLoop = .request pkt ip → isPrivateIP ip = false
  queued : ∀ ip ∈ s.geoReqChan, isPrivateIP ip = false
  knows : Knows env s.geoLoop

theorem sound_step {a : Server.Action ι} (hs : Sound env s) (h : Step env s a s') : Sound env s' := by
  have hknows := hs.knows
  cases h with
  | arrive => exact { hs with request := by rintro _ _ ⟨⟩ }
  | skip => exact { hs with request := by rintro _ _ ⟨⟩ }
  | start => exact { hs with request := by rintro _ _ ⟨⟩ }
  | startLocal => exact { hs with request := by rintro _ _ ⟨⟩ }
  | lookupPrivate => exact { hs with request := by rintro _ _ ⟨⟩ }
  | hit => exact { hs with request := by rintro _ _ ⟨⟩ }
  | miss hp hip hget => exact { hs with request := by rintro _ _ ⟨⟩; exact hip }
  | ask hp hroom => exact { hs with
      request := by rintro _ _ ⟨⟩
      queued := by
        intro ip' hip'
        rcases List.mem_append.mp hip' with hold | hnew
        · exact hs.queued ip' hold
        · rw [List.mem_singleton.mp hnew]
          exact hs.request _ _ hp }
  | drop => exact { hs with request := by rintro _ _ ⟨⟩ }
  | keep => exact { hs with request := by rintro _ _ ⟨⟩ }
  | reject => exact { hs with request := by rintro _ _ ⟨⟩ }
  | tell => exact { hs with request := by rintro _ _ ⟨⟩ }
  | take hg hq => exact { hs with
      queued := fun ip' hip' => hs.queued ip' (by rw [hq]; exact List.mem_cons_of_mem _ hip')
      knows := hs.queued _ (by rw [hq]; exact List.mem_cons_self) }
  | noDB => exact { hs with knows := trivial }
  | unknown => exact { hs with knows := trivial }
  | resolve hg hsome hcity =>
    rw [hg] at hknows
    exact { hs with knows := ⟨hknows, by simp [lookup, hsome, hcity]⟩ }
  | cache hg =>
    rw [hg] at hknows
    exact { hs with knows := hknows }
  | update => exact { hs with knows := trivial }
  | tellGeo => exact { hs with knows := trivial }
  | _ => exact { hs with }

theorem sound_of_reach (hs : (machine ι env savedOK).Reach s) : Sound env s := by
  refine Machine.Reach.invariant (I := Sound env) hs ?_ fun s a s' ih ha =>
    sound_step ih (step_of_machine ha)
  intro s hinit
  obtain ⟨-, -, -, -, -, hchan, -, hp, hg, -⟩ := hinit
  exact ⟨by rw [hp]; rintro _ _ ⟨⟩, by rw [hchan]; nofun, by rw [hg]; trivial⟩

/-! ### The two ways -/

/-- The packet `p` is looked up while the text of `g` is cached for its address, and stored as `x`. It stays
`x` unless another request for the address is still queued, which updates it like any stored packet. -/
def ViaCache (M : Machine (State ι) (Server.Action ι)) (ip : Str) (g : GeoResult)
    (p x : DashboardPacket) : Prop :=
  ∃ s s₁ s₂, M.Reach s ∧ s.packetLoop = .lookup p ip ∧ (s.geoCache.get ip).2 = some g.text ∧
    M.step s .packetLoop = some s₁ ∧ M.Leads s₁ s₂ ∧ s₂.packetLoop = .stored x ∧ x.index = p.index

/-- The packet `p` is looked up while nothing is cached for its address; it is stored; `geoWorker`
updates the history with `g` for the address; and some time later the packet is `z`. -/
def ViaWorker (M : Machine (State ι) (Server.Action ι)) (ip : Str) (g : GeoResult)
    (p z : DashboardPacket) : Prop :=
  ∃ s s₁ s₂ s₃ s₄, M.Reach s ∧ s.packetLoop = .lookup p ip ∧ (s.geoCache.get ip).2 = none ∧
    M.step s .packetLoop = some s₁ ∧ M.Leads s₁ s₂ ∧
    (∃ y ∈ s₂.historyBuffer.getAll false, y.index = p.index) ∧ s₂.geoLoop = .cached ip g ∧
    M.step s₂ .geoLoop = some s₃ ∧ M.Leads s₃ s₄ ∧
    z ∈ s₄.historyBuffer.getAll false ∧ z.index = p.index

omit [DecidableEq ι] in
/-- The lookup of an address that is cached. -/
theorem stepPacket_hit {value : Str} (hp : s.packetLoop = .lookup p ip) (hip : isPrivateIP ip = false)
    (hget : (s.geoCache.get ip).2 = some value) (h : stepPacket env s = some s') :
    s'.packetLoop = .decide (setCountry p value) ∧ s'.packetCounter = s.packetCounter := by
  cases hc : s.geoCache.get ip with
  | mk cache found =>
    rw [hc] at hget
    obtain rfl : found = some value := hget
    simp only [stepPacket, hp, hip, hc, Bool.false_eq_true, ↓reduceIte, Option.some.injEq] at h
    subst h
    exact ⟨rfl, rfl⟩

omit [DecidableEq ι] in
/-- The lookup of an address that is not cached. -/
theorem stepPacket_miss (hp : s.packetLoop = .lookup p ip) (hip : isPrivateIP ip = false)
    (hget : (s.geoCache.get ip).2 = none) (h : stepPacket env s = some s') :
    s'.packetLoop = .request p ip ∧ s'.packetCounter = s.packetCounter ∧
      s'.historyBuffer = s.historyBuffer := by
  cases hc : s.geoCache.get ip with
  | mk cache found =>
    rw [hc] at hget
    obtain rfl : found = none := hget
    simp only [stepPacket, hp, hip, hc, Bool.false_eq_true, ↓reduceIte, Option.some.injEq] at h
    subst h
    exact ⟨rfl, rfl, rfl⟩

/-- **Via the cache.** The packet has what the packet goroutine reads from the cached text. -/
theorem ViaCache.stored_eq {x : DashboardPacket} (hip : isPrivateIP ip = false)
    (h : ViaCache (machine ι env savedOK) ip g p x) : x = setCountry p g.text ∧ Blank p := by
  obtain ⟨s, s₁, s₂, hs, hp, hget, h₁, h₂, hx, hindex⟩ := h
  obtain ⟨hdecide, hcount⟩ := stepPacket_hit hp hip hget h₁
  have hown := handled_fresh hs (p := p) (by rw [hp]; rfl)
  have hstart : Life (fun _ => False) (· = setCountry p g.text) (· = setCountry p g.text)
      (fun _ => True) p.index s₁ := {
    counted := by rw [hcount]; exact le_of_eq hown.1
    lookup := by rw [hdecide]; rintro _ _ ⟨⟩
    request := by rw [hdecide]; rintro _ _ ⟨⟩
    decide := by
      rw [hdecide]
      intro q hq _
      exact (PacketLoop.decide.inj hq).symm
    stored := by rw [hdecide]; rintro _ ⟨⟩
    history := fun _ _ _ => trivial }
  have hlife := life_of_leads (fun _ _ hq => hq.elim) (fun _ hq => ⟨hq, trivial⟩)
    (fun _ _ _ _ _ _ _ => trivial) (hs.next trivial h₁) hstart h₂
  exact ⟨hlife.stored x hx hindex, blank_of_reach hs p (by rw [hp]; rfl)⟩

/-- The addresses of a packet. -/
def SameAddresses (p q : DashboardPacket) : Prop := q.srcIp = p.srcIp ∧ q.dstIp = p.dstIp

omit [DecidableEq ι] in
theorem sameAddresses_setCountry {q : DashboardPacket} (h : SameAddresses p q) (res : Str) :
    SameAddresses p (setCountry q res) := by
  unfold setCountry
  dsimp only
  split <;> exact h

omit [DecidableEq ι] in
theorem sameAddresses_applyGeo {q : DashboardPacket} (h : SameAddresses p q) :
    SameAddresses p (applyGeo ip g q) := by
  unfold applyGeo
  split_ifs <;> exact h

/-- The packet has the result. -/
def HasGeo (g : GeoResult) (p : DashboardPacket) : Prop :=
  p.country = g.country ∧ p.countryCode = g.code ∧ p.city = g.city ∧ p.isp = g.isp

omit [DecidableEq ι] in
/-- An update touches a packet with one public address if and only if it is for that address. -/
theorem touches_iff {q : DashboardPacket} {ip' : Str} (hone : OnePublic p ip) (h : SameAddresses p q)
    (hip' : isPrivateIP ip' = false) : (q.srcIp = ip' ∨ q.dstIp = ip') ↔ ip' = ip := by
  rw [h.1, h.2]
  rcases hone with ⟨rfl, hpub, hpriv⟩ | ⟨rfl, hpub, hpriv⟩
  · constructor
    · rintro (rfl | rfl)
      · rfl
      · rw [hpriv] at hip'
        cases hip'
    · rintro rfl
      exact Or.inl rfl
  · constructor
    · rintro (rfl | rfl)
      · rw [hpriv] at hip'
        cases hip'
      · rfl
    · rintro rfl
      exact Or.inr rfl

omit [DecidableEq ι] in
theorem OnePublic.public (h : OnePublic p ip) : isPrivateIP ip = false := by
  rcases h with ⟨rfl, hpub, -⟩ | ⟨rfl, hpub, -⟩ <;> exact hpub

omit [DecidableEq ι] in
/-- Once a packet with one public address has the result, it keeps it. -/
theorem hasGeo_applyGeo {q : DashboardPacket} {ip' : Str} {g' : GeoResult} (hone : OnePublic p ip)
    (hlookup : lookup env ip = some g) (hs : Sound env s) (hg' : s.geoLoop = .cached ip' g')
    (h : SameAddresses p q) (hq : ip' = ip ∨ HasGeo g q) : HasGeo g (applyGeo ip' g' q) := by
  have hknows := hs.knows
  rw [hg'] at hknows
  obtain ⟨hpub, hlookup'⟩ := hknows
  by_cases hip : ip' = ip
  · subst hip
    obtain rfl : g' = g := Option.some.inj (hlookup'.symm.trans hlookup)
    rw [applyGeo, if_pos ((touches_iff hone h hpub).mpr rfl)]
    exact ⟨rfl, rfl, rfl, rfl⟩
  · rw [applyGeo, if_neg fun htouch => hip ((touches_iff hone h hpub).mp htouch)]
    exact hq.resolve_left hip

/-- **Via the worker.** The packet has what `geoWorker` found. -/
theorem ViaWorker.hasGeo {z : DashboardPacket} (hone : OnePublic p ip)
    (h : ViaWorker (machine ι env savedOK) ip g p z) : HasGeo g z := by
  obtain ⟨s, s₁, s₂, s₃, s₄, hs, hp, hget, h₁, h₂, ⟨y, hy, hyi⟩, hup, h₃, h₄, hz, hzi⟩ := h
  obtain ⟨hrequest, hcount, hhist⟩ := stepPacket_miss hp hone.public hget h₁
  obtain ⟨hown, hlt⟩ := handled_fresh hs (p := p) (by rw [hp]; rfl)
  have hs₁ : (machine ι env savedOK).Reach s₁ := hs.next trivial h₁
  have hs₂ := hs₁.leads h₂
  have hs₃ : (machine ι env savedOK).Reach s₃ := hs₂.next trivial h₃
  -- until the update, only the addresses of the packet matter
  have hstart : Life (SameAddresses p) (SameAddresses p) (fun _ => True) (SameAddresses p)
      p.index s₁ := {
    counted := by rw [hcount]; exact le_of_eq hown
    lookup := by rw [hrequest]; rintro _ _ ⟨⟩
    request := by rw [hrequest]; rintro _ _ ⟨⟩ -; exact ⟨rfl, rfl⟩
    decide := by rw [hrequest]; rintro _ ⟨⟩
    stored := by rw [hrequest]; rintro _ ⟨⟩
    history := by
      rw [hhist]
      intro q hq hindex
      have := hlt q hq
      omega }
  have hbefore := life_of_leads (fun _ res hq => sameAddresses_setCountry hq res)
    (fun _ hq => ⟨trivial, hq⟩) (fun _ _ _ _ _ _ hq => sameAddresses_applyGeo hq) hs₁ hstart h₂
  have hsound := sound_of_reach hs₂
  have hlookup : lookup env ip = some g := by
    have hknows := hsound.knows
    rw [hup] at hknows
    exact hknows.2
  obtain rfl : { s₂ with
      historyBuffer := s₂.historyBuffer.update (applyGeo ip g)
      geoLoop := .updated ip g } = s₃ := by
    have hstep : stepGeo env s₂ = some s₃ := h₃
    simpa only [stepGeo, hup, Option.some.injEq] using hstep
  -- from the update on, it has the result
  have hnot : ∀ q, handled s₂.packetLoop = some q → q.index ≠ p.index := by
    intro q hq hindex
    have := (handled_fresh hs₂ hq).2 y hy
    omega
  have hupdated : Life (fun _ => False) (fun _ => False) (fun _ => True)
      (fun q => SameAddresses p q ∧ HasGeo g q) p.index { s₂ with
        historyBuffer := s₂.historyBuffer.update (applyGeo ip g)
        geoLoop := .updated ip g } := {
    counted := hbefore.counted
    lookup := fun q _ hq => hnot q (by rw [show s₂.packetLoop = _ from hq]; rfl)
    request := fun q _ hq => hnot q (by rw [show s₂.packetLoop = _ from hq]; rfl)
    decide := fun q hq => hnot q (by rw [show s₂.packetLoop = _ from hq]; rfl)
    stored := fun _ _ _ => trivial
    history := by
      intro q hmem hindex
      obtain ⟨q, hq, rfl⟩ := RingBuffer.mem_getAll_update hmem
      rw [index_applyGeo] at hindex
      have haddr := hbefore.history q hq hindex
      exact ⟨sameAddresses_applyGeo haddr,
        hasGeo_applyGeo hone hlookup hsound hup haddr (Or.inl rfl)⟩ }
  have hafter := life_of_leads (fun _ _ hq => hq.elim) (fun _ hq => hq.elim)
    (fun t ht ip' g' q hg' hq => ⟨sameAddresses_applyGeo hq.1,
      hasGeo_applyGeo hone hlookup (sound_of_reach ht) hg' hq.1 (Or.inr hq.2)⟩) hs₃ hupdated h₄
  exact (hafter.history z hz hzi).2

/-- **The two ways.** A packet with one public address gets the same country, code, city and ISP from
the cache and from `geoWorker` if and only if city and ISP are empty. -/
theorem cached_and_resolved_agree_iff (env : Env) (savedOK : LruCache → Prop) (ip : Str)
    (g : GeoResult) (hcountry : '|' ∉ g.country) (hcode : '|' ∉ g.code) (p q x z : DashboardPacket)
    (hone : OnePublic q ip) (hx : ViaCache (machine ι env savedOK) ip g p x)
    (hz : ViaWorker (machine ι env savedOK) ip g q z) :
    SameGeo x z ↔ g.city = [] ∧ g.isp = [] := by
  obtain ⟨rfl, -, hcity, hisp⟩ := hx.stored_eq hone.public
  obtain ⟨hzc, hzcode, hzcity, hzisp⟩ := hz.hasGeo hone
  rw [setCountry_text p hcountry hcode]
  unfold SameGeo
  rw [hzc, hzcode, hzcity, hzisp]
  show g.country = g.country ∧ g.code = g.code ∧ p.city = g.city ∧ p.isp = g.isp ↔ _
  rw [hcity, hisp]
  constructor
  · rintro ⟨-, -, h, h'⟩
    exact ⟨h.symm, h'.symm⟩
  · rintro ⟨h, h'⟩
    exact ⟨rfl, rfl, h.symm, h'.symm⟩

/-! ### A city -/

/-- A database that knows one city. -/
def cityAtlas : Env where
  lib := atlas.lib
  geoDB := some fun _ => some ⟨"norway".toList, "no".toList, "oslo".toList⟩

/-- What it says about every address. -/
def oslo : GeoResult := ⟨"norway".toList, "no".toList, "oslo".toList, []⟩

/-- The packet with the index `n`, before its country is set. -/
def labelled (n : ℕ) : DashboardPacket := label cityAtlas.lib n (received fromPublic)

/-- A packet arrives, and its address is going to be looked up. -/
def arrived : List (Server.Action Unit) := [.arrive fromPublic, .packetLoop]

/-- The rest of the work on a packet up to the update of the history. -/
def untilUpdate : List (Server.Action Unit) :=
  [.packetLoop, .packetLoop, .packetLoop, .geoLoop, .geoLoop, .geoLoop]

theorem onePublic_labelled (n : ℕ) : OnePublic (labelled n) "8.8.8.8".toList :=
  Or.inl ⟨rfl, rfl, rfl⟩

theorem viaWorker_first : ViaWorker (machine Unit cityAtlas SavedOK) "8.8.8.8".toList oslo
    (labelled 1) (applyGeo "8.8.8.8".toList oslo (setCountry (labelled 1) searching)) := by
  refine ⟨((machine Unit cityAtlas SavedOK).exec started arrived).get (by decide), _,
    ((machine Unit cityAtlas SavedOK).exec started (arrived ++ .packetLoop :: untilUpdate)).get
      (by decide), _, _, ?_, rfl, rfl, rfl, ?_, ?_, rfl, rfl, .refl, ?_, rfl⟩
  · exact Machine.Reach.exec (s := started) arrived (.of_init init_started) (by simp)
  · exact Machine.Leads.exec untilUpdate rfl
  · exact ⟨_, RingBuffer.mem_getAll.mpr ⟨⟨0, by decide⟩, by decide, rfl⟩, rfl⟩
  · exact RingBuffer.mem_getAll.mpr ⟨⟨0, by decide⟩, by decide, rfl⟩

theorem viaCache_second : ViaCache (machine Unit cityAtlas SavedOK) "8.8.8.8".toList oslo
    (labelled 2) (setCountry (labelled 2) oslo.text) := by
  refine ⟨((machine Unit cityAtlas SavedOK).exec started (storedFirst ++ arrived)).get (by decide), _,
    ((machine Unit cityAtlas SavedOK).exec started
      (storedFirst ++ arrived ++ [.packetLoop, .packetLoop])).get (by decide),
    ?_, rfl, rfl, rfl, ?_, rfl, rfl⟩
  · exact Machine.Reach.exec (s := started) (storedFirst ++ arrived) (.of_init init_started) (by simp)
  · exact Machine.Leads.exec [.packetLoop] rfl

theorem second_agrees_iff :
    SameGeo (setCountry (labelled 2) oslo.text)
        (applyGeo "8.8.8.8".toList oslo (setCountry (labelled 1) searching)) ↔
      oslo.city = [] ∧ oslo.isp = [] :=
  cached_and_resolved_agree_iff cityAtlas SavedOK "8.8.8.8".toList oslo (by decide) (by decide)
    (labelled 2) (labelled 1) _ _ (onePublic_labelled 1) viaCache_second viaWorker_first

/-- The second packet of an address has no city. -/
theorem second_has_no_city : ¬ ∀ (ip : Str) (g : GeoResult) (p q x z : DashboardPacket),
    '|' ∉ g.country → '|' ∉ g.code → '|' ∉ g.city → '|' ∉ g.isp →
    p.toDashboardPacket = q.toDashboardPacket → OnePublic p ip → OnePublic q ip →
    ViaCache (machine Unit cityAtlas SavedOK) ip g p x →
    ViaWorker (machine Unit cityAtlas SavedOK) ip g q z → SameGeo x z := by
  intro h
  obtain ⟨-, -, hcity, -⟩ := h _ oslo (labelled 2) (labelled 1) _ _ (by decide) (by decide)
    (by decide) (by decide) rfl (onePublic_labelled 2) (onePublic_labelled 1) viaCache_second
    viaWorker_first
  exact absurd hcity (by decide)

end Pacsni.Dashboard.Enrichment
