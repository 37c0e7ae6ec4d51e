import Pacsni.Service.Hosts
import Pacsni.Dashboard.Export

/-! # Tests on addresses are tests on hosts

The server compares addresses as texts: a stream filter with the ends of a packet, and `geoWorker` the
address it has looked up with the packets in the history. Every text that it gets to compare was
rendered by the service, in a packet or out of a packet into the request channel (`Asked`), and a
rendered text names one host. So a stream filter selects the packets of one connection, and a geo update
changes the packets of one host (`rendered_addresses_identify`). -/

namespace Pacsni.Dashboard.Hosts

open Pacsni.Lib.Text Pacsni.Lib.Strings Pacsni.Lib.Runs
open Pacsni.Service.Model (ipAddrToString)
open Pacsni.Service.Hosts
open Pacsni.Dashboard.Packet Pacsni.Dashboard.Ring Pacsni.Dashboard.Lru Pacsni.Dashboard.Matching
open Pacsni.Dashboard.Server Pacsni.Dashboard.Steps Pacsni.Dashboard.Flow
open Pacsni.Dashboard.Export (passes_sent)
open Pacsni.Dashboard.Geo (geoAddress_spec atlas fromPublic started init_started storedFirst SavedOK)

/-- The packet goes from one host to another. -/
structure Between (p : Service.Model.DashboardPacket) (x y : Host) : Prop where
  src : p.srcIp = x.text
  dst : p.dstIp = y.text

/-- The service has rendered the addresses of the packet. -/
def Rendered (d : Service.Model.DashboardPacket) : Prop :=
  ∃ src dst isV6, d.srcIp = ipAddrToString src isV6 ∧ d.dstIp = ipAddrToString dst isV6

theorem Rendered.between {d : Service.Model.DashboardPacket} (h : Rendered d) :
    ∃ x y, Between d x y := by
  obtain ⟨src, dst, isV6, hsrc, hdst⟩ := h
  exact ⟨hostOf src isV6, hostOf dst isV6, hsrc.trans (text_hostOf src isV6).symm,
    hdst.trans (text_hostOf dst isV6).symm⟩

/-! ### Stream filters -/

/-- An end of a connection: a host and a port. -/
abbrev End := Host × UInt16

/-- The two ends of a packet between two hosts, the source first. -/
def ends (p : Service.Model.DashboardPacket) (x y : Host) : End × End := ((x, p.srcPort), (y, p.dstPort))

/-- The texts of an end that the server compares. -/
def endText (e : End) : Str × Str := (e.1.text, dec e.2.toNat)

theorem endText_injective : Function.Injective endText := by
  intro e e' h
  obtain ⟨hhost, hport⟩ := Prod.mk.inj h
  exact Prod.ext (text_injective hhost) (UInt16.toNat_inj.mp (dec_injective hport))

/-- A stream filter is a test on the ends of a packet. -/
structure StreamByHosts (f : Str) : Prop where
  /-- A filter that names two ends selects the packets between them. -/
  named : ∀ (name : Str) (e e' : End),
    split f ':' = [name, e.1.text, dec e.2.toNat, e'.1.text, dec e'.2.toNat] →
    ∀ (pkt : DashboardPacket) (x y : Host), Between pkt.toDashboardPacket x y →
      (matchStream f pkt = true ↔ pkt.protocol = "TCP".toList ∧
        (ends pkt.toDashboardPacket x y = (e, e') ∨ ends pkt.toDashboardPacket x y = (e', e)))
  /-- Any filter selects packets of one connection only. -/
  same : ∀ (pkt pkt' : DashboardPacket) (x y x' y' : Host), Between pkt.toDashboardPacket x y →
    Between pkt'.toDashboardPacket x' y' → matchStream f pkt = true → matchStream f pkt' = true →
    ends pkt.toDashboardPacket x y = ends pkt'.toDashboardPacket x' y' ∨
      ends pkt.toDashboardPacket x y = (ends pkt'.toDashboardPacket x' y').swap

section

variable {pkt pkt' : DashboardPacket} {x y x' y' : Host} {f a p b q : Str}

theorem endpoints_iff (h : Between pkt.toDashboardPacket x y) : endpoints pkt a p b q = true ↔
    endText (x, pkt.srcPort) = (a, p) ∧ endText (y, pkt.dstPort) = (b, q) := by
  simp only [endpoints, endText, h.src, h.dst, Bool.and_eq_true, beq_iff_eq, Prod.mk.injEq, and_assoc]

theorem split_of_matchStream (h : matchStream f pkt = true) :
    ∃ name a p b q, split f ':' = [name, a, p, b, q] := by
  unfold matchStream at h
  split at h
  · exact ⟨_, _, _, _, _, ‹_›⟩
  · cases h

theorem streamByHosts (f : Str) : StreamByHosts f where
  named := by
    intro name e e' hsplit pkt x y hpkt
    have hend : ∀ (d : End) (t : End), endText d = (t.1.text, dec t.2.toNat) ↔ d = t := fun d t =>
      endText_injective.eq_iff (b := t)
    rw [matchStream_of_split hsplit, endpoints_iff hpkt, endpoints_iff hpkt, hend, hend, hend, hend]
    simp only [ends, Prod.mk.injEq]
  same := by
    intro pkt pkt' x y x' y' hpkt hpkt' h h'
    obtain ⟨name, a, p, b, q, hsplit⟩ := split_of_matchStream h
    obtain ⟨-, hends⟩ := (matchStream_of_split hsplit).mp h
    obtain ⟨-, hends'⟩ := (matchStream_of_split hsplit).mp h'
    rw [endpoints_iff hpkt, endpoints_iff hpkt] at hends
    rw [endpoints_iff hpkt', endpoints_iff hpkt'] at hends'
    have hend : ∀ {d d' : End} {t : Str × Str}, endText d = t → endText d' = t → d = d' :=
      fun hd hd' => endText_injective (hd.trans hd'.symm)
    rcases hends with ⟨h₁, h₂⟩ | ⟨h₁, h₂⟩ <;> rcases hends' with ⟨h₁', h₂'⟩ | ⟨h₁', h₂'⟩
    · exact Or.inl (Prod.ext (hend h₁ h₁') (hend h₂ h₂'))
    · exact Or.inr (Prod.ext (hend h₁ h₂') (hend h₂ h₁'))
    · exact Or.inr (Prod.ext (hend h₁ h₂') (hend h₂ h₁'))
    · exact Or.inl (Prod.ext (hend h₁ h₁') (hend h₂ h₂'))

end

/-! ### Addresses that are asked for -/

/-- The address that the packet goroutine looks up. -/
def lookedUp : PacketLoop → Option Str
  | .lookup _ ip => some ip
  | .request _ ip => some ip
  | _ => none

/-- The address that `geoWorker` is with. -/
def inWork : GeoLoop → Option Str
  | .idle => none
  | .received ip => some ip
  | .resolved ip _ => some ip
  | .cached ip _ => some ip
  | .updated ip _ => some ip

variable {ι : Type*} {env : Env} {savedOK : LruCache → Prop} {s s' : State ι} {T : Str → Prop}

/-- Every address on its way from a packet to the update meets `T`. -/
structure Asked (T : Str → Prop) (s : State ι) : Prop where
  lookup : ∀ ip, lookedUp s.packetLoop = some ip → T ip
  queued : ∀ ip ∈ s.geoReqChan, T ip
  work : ∀ ip, inWork s.geoLoop = some ip → T ip

/-- The packet goroutine looks nothing up. -/
theorem Asked.noLookup (hs : Asked T s) (hchan : ∀ ip ∈ s'.geoReqChan, T ip)
    (hgeo : s'.geoLoop = s.geoLoop) (hp : lookedUp s'.packetLoop = none) : Asked T s' where
  lookup := by rw [hp]; rintro _ ⟨⟩
  queued := hchan
  work := by rw [hgeo]; exact hs.work

/-- `geoWorker` goes on with the address it has, or is done with it. -/
theorem Asked.onward (hs : Asked T s) (hp : s'.packetLoop = s.packetLoop)
    (hchan : s'.geoReqChan = s.geoReqChan)
    (hgeo : ∀ ip, inWork s'.geoLoop = some ip → inWork s.geoLoop = some ip) : Asked T s' where
  lookup := by rw [hp]; exact hs.lookup
  queued := by rw [hchan]; exact hs.queued
  work := fun ip h => hs.work ip (hgeo ip h)

variable [DecidableEq ι]

/-- A step of the server: an address that is asked for is one of a packet. -/
theorem asked_step {a : Server.Action ι}
    (hpkt : ∀ pkt, s.packetLoop = .received pkt → T pkt.srcIp ∧ T pkt.dstIp) (hs : Asked T s)
    (h : Step env s a s') : Asked T s' := by
  cases h with
  | arrive hp => exact hs.noLookup hs.queued rfl rfl
  | skip hp hmu hscan => exact hs.noLookup hs.queued rfl rfl
  | start hp hmu hscan hip =>
    obtain ⟨hsrc, hdst⟩ := hpkt _ hp
    exact { hs with
      lookup := by
        rintro _ ⟨⟩
        rcases (geoAddress_spec hip).2 with rfl | rfl
        · exact hsrc
        · exact hdst }
  | startLocal hp hmu hscan hip => exact hs.noLookup hs.queued rfl rfl
  | lookupPrivate hp hip => exact hs.noLookup hs.queued rfl rfl
  | hit hp hip hget => exact hs.noLookup hs.queued rfl rfl
  | miss hp hip hget =>
    have hlookup := hs.lookup
    rw [hp] at hlookup
    exact { hs with lookup := hlookup }
  | ask hp hroom =>
    have hlookup := hs.lookup
    rw [hp] at hlookup
    refine hs.noLookup (fun ip hmem => ?_) rfl rfl
    rcases List.mem_append.mp hmem with hold | hnew
    · exact hs.queued ip hold
    · rw [List.mem_singleton.mp hnew]
      exact hlookup _ rfl
  | drop hp hfull => exact hs.noLookup hs.queued rfl rfl
  | keep hp hacc => exact hs.noLookup hs.queued rfl rfl
  | reject hp hacc => exact hs.noLookup hs.queued rfl rfl
  | tell hp => exact hs.noLookup hs.queued rfl rfl
  | take hg hq => exact { hs with
      queued := fun ip hmem => hs.queued ip (by rw [hq]; exact List.mem_cons_of_mem _ hmem)
      work := by rintro _ ⟨⟩; exact hs.queued _ (by rw [hq]; exact List.mem_cons_self) }
  | noDB hg hdb => exact hs.onward rfl rfl nofun
  | unknown hg hdb hcity => exact hs.onward rfl rfl nofun
  | resolve hg hdb hcity => exact hs.onward rfl rfl fun ip h => by rw [hg]; exact h
  | cache hg => exact hs.onward rfl rfl fun ip h => by rw [hg]; exact h
  | update hg => exact hs.onward rfl rfl fun ip h => by rw [hg]; exact h
  | tellGeo hg => exact hs.onward rfl rfl nofun
  | _ => exact { hs with }

/-! ### Runs -/

/-- If the addresses of every packet that arrives meet `T`, every address that is asked for does. -/
theorem asked_of_reachVia {ok : State ι → Server.Action ι → Prop}
    (hok : ∀ s d, ok s (.arrive d) → T d.srcIp ∧ T d.dstIp)
    (hs : (machine ι env savedOK).ReachVia ok s) : Asked T s := by
  refine hs.invariant_of_reach (I := Asked T) ?_ fun s a s' hreach ih _ hstep =>
    asked_step ?_ ih (step_of_machine hstep)
  · intro s hinit
    obtain ⟨-, -, -, -, -, hchan, -, hp, hg, -, -⟩ := hinit
    exact ⟨by rw [hp]; nofun, by rw [hchan]; nofun, by rw [hg]; nofun⟩
  · exact (staged_of_reachVia (passes_sent env fun d => T d.srcIp ∧ T d.dstIp) hok hreach).received

/-- The packets that arrive have rendered addresses. -/
def Arrives (_ : State ι) (a : Server.Action ι) : Prop := ∀ d, a = .arrive d → Rendered d

/-- The server tells the packets of a host by their addresses. -/
structure ByHosts (s : State ι) : Prop where
  /-- A packet that a filter is tested on goes from one host to another. -/
  decided : ∀ pkt, s.packetLoop = .decide pkt → ∃ x y, Between pkt.toDashboardPacket x y
  /-- And so does every packet in the history. -/
  stored : ∀ pkt ∈ s.historyBuffer.getAll false, ∃ x y, Between pkt.toDashboardPacket x y
  /-- A geo update is for one host, and changes the packets of this host only. -/
  update : ∀ ip g, s.geoLoop = .cached ip g → ∃ h : Host, ip = h.text ∧
    ∀ pkt ∈ s.historyBuffer.getAll false, ∀ x y, Between pkt.toDashboardPacket x y →
      applyGeo ip g pkt = if x = h ∨ y = h then
        { pkt with country := g.country, countryCode := g.code, city := g.city, isp := g.isp }
      else pkt

theorem applyGeo_text {pkt : DashboardPacket} {x y : Host} (hpkt : Between pkt.toDashboardPacket x y)
    (h : Host) (g : GeoResult) : applyGeo h.text g pkt = if x = h ∨ y = h then
      { pkt with country := g.country, countryCode := g.code, city := g.city, isp := g.isp }
    else pkt := by
  simp only [applyGeo, hpkt.src, hpkt.dst, text_injective.eq_iff]

theorem byHosts_of_reach (hs : (machine ι env savedOK).ReachVia Arrives s) : ByHosts s := by
  have hstaged := staged_of_reachVia (passes_sent env Rendered) (fun _ d ha => ha d rfl) hs
  have hasked : Asked (fun t => ∃ h : Host, t = h.text) s := by
    refine asked_of_reachVia (fun _ d ha => ?_) hs
    obtain ⟨x, y, hsrc, hdst⟩ := (ha d rfl).between
    exact ⟨⟨x, hsrc⟩, ⟨y, hdst⟩⟩
  refine ⟨fun pkt hp => (hstaged.decide pkt hp).between, fun pkt hp => (hstaged.history pkt hp).between,
    fun ip g hg => ?_⟩
  obtain ⟨h, rfl⟩ := hasked.work ip (by rw [hg]; rfl)
  exact ⟨h, rfl, fun pkt _ x y hpkt => applyGeo_text hpkt h g⟩

/-- **Rendered addresses identify hosts.** Two rendered addresses are equal if and only if they are of one
family and agree in the bytes of this family. So a stream filter is a test on the ends of a connection,
and in every run of the server on rendered packets a geo update changes the packets of one host. -/
theorem rendered_addresses_identify (env : Env) (savedOK : LruCache → Prop) :
    (∀ (a b : Vector UInt8 16) (v w : Bool),
      ipAddrToString a v = ipAddrToString b w ↔ SameHost a v b w) ∧
    (∀ f, StreamByHosts f) ∧
    ∀ s : State ι, (machine ι env savedOK).ReachVia Arrives s → ByHosts s :=
  ⟨ipAddrToString_eq_iff, streamByHosts, fun _ hs => byHosts_of_reach hs⟩

theorem rendered_fromPublic : Rendered fromPublic :=
  ⟨#v[0, 0, 0, 0, 0, 0, 0, 0, 0, 0, 0, 0, 8, 8, 8, 8], #v[0, 0, 0, 0, 0, 0, 0, 0, 0, 0, 0, 0, 10, 0, 0, 1],
    false, rfl, rfl⟩

/-- A packet from `8.8.8.8` is stored, and the update for this address is due. -/
theorem rendered_addresses_update : ∃ s : State Unit, s.historyBuffer.count = 1 ∧
    (∃ g, s.geoLoop = .cached "8.8.8.8".toList g) ∧ ByHosts s := by
  have halong : (machine Unit atlas SavedOK).Along Arrives started (storedFirst.take 9) := by
    refine Machine.along_of_forall _ _ fun a ha s d hd => ?_
    have hmem : .arrive d ∈ storedFirst := List.mem_of_mem_take (hd ▸ ha)
    obtain rfl : d = fromPublic := by simpa [storedFirst] using hmem
    exact rendered_fromPublic
  have hrun : (machine Unit atlas SavedOK).ReachVia Arrives
      (((machine Unit atlas SavedOK).exec started (storedFirst.take 9)).get (by decide)) :=
    Machine.ReachVia.exec (s := started) _ (.of_init init_started) halong (by simp)
  exact ⟨_, rfl, ⟨_, rfl⟩, (rendered_addresses_identify atlas SavedOK).2.2 _ hrun⟩

end Pacsni.Dashboard.Hosts
