import Pacsni.Lib.Runs
import Pacsni.Dashboard.Matching
import Pacsni.Dashboard.Lru
import Pacsni.Dashboard.Ring

/-! # The server

The goroutines of the dashboard: the packet goroutine, `geoWorker`, and any number of requests to the
root handler. The mutex `mu` belongs to the packet goroutine from the test of `isScanning` to the end
of an item, and to a request while it clears or sets the filter; `geoWorker` never takes it. Every
operation on `geoCache`, on `historyBuffer` and on a channel is one step, and so is a section under `mu`
that touches none of them. -/

namespace Pacsni.Dashboard.Server

open Pacsni.Lib.Text Pacsni.Lib.Strings Pacsni.Lib.Runs
open Pacsni.Dashboard.Packet Pacsni.Dashboard.Ring Pacsni.Dashboard.Lru Pacsni.Dashboard.Matching

/-- What the GeoIP database knows about an address: the English names, and the ISO code. -/
structure CityRecord where
  country : Str
  isoCode : Str
  city : Str

/-- The environment: library functions, and `geoDB`, which is `nil` if the database was not found.
`City` fails on some addresses. -/
structure Env where
  lib : Library
  geoDB : Option (Str → Option CityRecord)

/-- A message to the clients. -/
inductive Message
  | packet (pkt : DashboardPacket)
  | clear
  | status (isScanning : Bool) (filter : Option Str)
  | geoUpdate (ip country city isp code : Str)

/-- What `geoWorker` stores for an address. -/
structure GeoResult where
  country : Str
  code : Str
  city : Str
  isp : Str

/-- The texts for a record. -/
def GeoResult.ofRecord (env : Env) (r : CityRecord) : GeoResult where
  country :=
    let country := env.lib.toLower r.country
    if country = [] then "unknown".toList else country
  code := env.lib.toLower r.isoCode
  city := env.lib.toLower r.city
  isp := []

/-- `fmt.Sprintf("%s|%s|%s|%s", country, code, city, isp)` -/
def GeoResult.text (g : GeoResult) : Str :=
  g.country ++ '|' :: (g.code ++ '|' :: (g.city ++ '|' :: g.isp))

/-- The placeholder of `getCountry`. -/
def searching : Str := "searching...".toList

/-- The capacity of `geoReqChan`. -/
def geoReqCapacity : ℕ := 1000

/-- The size of `historyBuffer`. -/
def historySize : ℕ := 5000

/-- Where the packet goroutine is with an item. -/
inductive PacketLoop
  | idle
  /-- Received, not yet locked. -/
  | received (pkt : DashboardPacket)
  /-- In `getCountry(ip)`, before `geoCache.Get`. -/
  | lookup (pkt : DashboardPacket) (ip : Str)
  /-- In `getCountry(ip)`, before the send on `geoReqChan`. -/
  | request (pkt : DashboardPacket) (ip : Str)
  /-- Country set, before the decision and `historyBuffer.Add`. -/
  | decide (pkt : DashboardPacket)
  /-- Stored, before the broadcast. -/
  | stored (pkt : DashboardPacket)

/-- Where `geoWorker` is with an item. -/
inductive GeoLoop
  | idle
  | received (ip : Str)
  /-- Before `geoCache.Add`. -/
  | resolved (ip : Str) (g : GeoResult)
  /-- Before `historyBuffer.Update`. -/
  | cached (ip : Str) (g : GeoResult)
  /-- Before the broadcast. -/
  | updated (ip : Str) (g : GeoResult)

/-- The action of a request. -/
inductive RequestAction
  | clear
  | toggle

/-- Where a request to the root handler is. -/
inductive Request
  | done
  | start (action : Option RequestAction) (filter : Option Str)
  /-- History cleared, before the broadcast. -/
  | cleared (filter : Option Str)
  /-- Flipped and unlocked, before `isScanning` is read. -/
  | toggled
  /-- Before the broadcast of the value read. -/
  | toggleRead (isScanning : Bool)
  /-- Before the lock for the filter. -/
  | filter (f : Str)
  /-- Filter set, before the broadcast. -/
  | filterSet (isScanning : Bool) (f : Str)

/-- Who holds `mu`. -/
inductive Owner (ι : Type*)
  | packetLoop
  | request (r : ι)

/-- The state of the server. `broadcasts` are the messages in the order in which they were put into the
channels of the clients. -/
structure State (ι : Type*) where
  historyBuffer : RingBuffer DashboardPacket historySize
  isScanning : Bool
  filter : Filter
  packetCounter : ℕ
  geoCache : LruCache
  geoReqChan : List Str
  mu : Option (Owner ι)
  packetLoop : PacketLoop
  geoLoop : GeoLoop
  requests : ι → Request
  broadcasts : List Message

/-! ### The packet goroutine -/

/-- The fields set before the geo lookup. `Info` is made before the vendors are known. -/
def label (lib : Library) (index : ℕ) (pkt : DashboardPacket) : DashboardPacket :=
  let pkt := { pkt with index := index }
  let pkt := { pkt with info := getPacketInfo lib.toLower pkt }
  { pkt with srcMacVendor := getMacVendor pkt.srcMac, dstMacVendor := getMacVendor pkt.dstMac }

/-- The address that decides the country of a packet: the public one, the source first. -/
def geoAddress (pkt : DashboardPacket) : Option Str :=
  if !isPrivateIP pkt.srcIp then some pkt.srcIp
  else if !isPrivateIP pkt.dstIp then some pkt.dstIp
  else none

/-- The country fields from a result of `getCountry`. -/
def setCountry (pkt : DashboardPacket) (res : Str) : DashboardPacket :=
  let parts := split res '|'
  let pkt := { pkt with country := parts.headD [] }
  match parts with
  | _ :: code :: _ => { pkt with countryCode := code }
  | _ => pkt

variable {ι : Type*}

/-- Lock, and everything up to the geo lookup. -/
def startItem (env : Env) (s : State ι) (pkt : DashboardPacket) : State ι :=
  if s.isScanning then
    let pkt := label env.lib (s.packetCounter + 1) pkt
    { s with
      packetCounter := s.packetCounter + 1
      mu := some .packetLoop
      packetLoop := match geoAddress pkt with
        | some ip => .lookup pkt ip
        | none => .decide { pkt with country := "local".toList } }
  else { s with packetLoop := .idle }

/-- A step of the packet goroutine with the item it has. -/
def stepPacket (env : Env) (s : State ι) : Option (State ι) :=
  match s.packetLoop with
  | .idle => none
  | .received pkt => match s.mu with
    | none => some (startItem env s pkt)
    | some _ => none
  | .lookup pkt ip =>
    if isPrivateIP ip then some { s with packetLoop := .decide (setCountry pkt "local".toList) }
    else match s.geoCache.get ip with
      | (cache, some c) => some { s with
          geoCache := cache
          packetLoop := .decide (setCountry pkt c) }
      | (cache, none) => some { s with geoCache := cache, packetLoop := .request pkt ip }
  | .request pkt ip => some { s with
      geoReqChan := if s.geoReqChan.length < geoReqCapacity then s.geoReqChan ++ [ip] else s.geoReqChan
      packetLoop := .decide (setCountry pkt searching) }
  | .decide pkt =>
    if accepts env.lib s.filter pkt then some { s with
      historyBuffer := s.historyBuffer.add pkt
      packetLoop := .stored pkt }
    else some { s with mu := none, packetLoop := .idle }
  | .stored pkt => some { s with
      broadcasts := s.broadcasts ++ [.packet pkt]
      mu := none
      packetLoop := .idle }

/-! ### The geo worker -/

/-- What `geoWorker` does to a stored packet. -/
def applyGeo (ip : Str) (g : GeoResult) (p : DashboardPacket) : DashboardPacket :=
  if p.srcIp = ip ∨ p.dstIp = ip then
    { p with country := g.country, countryCode := g.code, city := g.city, isp := g.isp }
  else p

/-- A step of `geoWorker`. The cache file that it writes behind `geoCache.Add` is not modelled. -/
def stepGeo (env : Env) (s : State ι) : Option (State ι) :=
  match s.geoLoop with
  | .idle => match s.geoReqChan with
    | [] => none
    | ip :: rest => some { s with geoReqChan := rest, geoLoop := .received ip }
  | .received ip => match env.geoDB with
    | none => some { s with geoLoop := .idle }
    | some city => match city ip with
      | none => some { s with geoCache := s.geoCache.remove ip, geoLoop := .idle }
      | some record => some { s with geoLoop := .resolved ip (GeoResult.ofRecord env record) }
  | .resolved ip g => some { s with
      geoCache := s.geoCache.add ip g.text
      geoLoop := .cached ip g }
  | .cached ip g => some { s with
      historyBuffer := s.historyBuffer.update (applyGeo ip g)
      geoLoop := .updated ip g }
  | .updated ip g => some { s with
      broadcasts := s.broadcasts ++ [.geoUpdate ip g.country g.city g.isp g.code]
      geoLoop := .idle }

/-! ### Requests -/

variable [DecidableEq ι]

/-- The part of the root handler behind the action. -/
def behindAction : Option Str → Request
  | some f => .filter f
  | none => .done

/-- A step of the request `r`. The page that it answers with is not modelled. -/
def stepRequest (env : Env) (s : State ι) (r : ι) : Option (State ι) :=
  let goto (x : Request) : ι → Request := Function.update s.requests r x
  match s.requests r with
  | .done => none
  | .start (some .clear) f => match s.mu with
    | none => some { s with
        historyBuffer := s.historyBuffer.clear
        mu := some (.request r)
        requests := goto (.cleared f) }
    | some _ => none
  | .start (some .toggle) _ => match s.mu with
    | none => some { s with isScanning := !s.isScanning, requests := goto .toggled }
    | some _ => none
  | .start none f => some { s with requests := goto (behindAction f) }
  | .cleared f => some { s with
      broadcasts := s.broadcasts ++ [.clear]
      mu := none
      requests := goto (behindAction f) }
  | .toggled => some { s with requests := goto (.toggleRead s.isScanning) }
  | .toggleRead b => some { s with
      broadcasts := s.broadcasts ++ [.status b none]
      requests := goto .done }
  | .filter f => match s.mu with
    | none =>
      if s.filter.str = f then some { s with requests := goto .done }
      else some { s with
        filter := Filter.ofText env.lib f
        mu := some (.request r)
        requests := goto (.filterSet s.isScanning f) }
    | some _ => none
  | .filterSet b f => some { s with
      broadcasts := s.broadcasts ++ [.status b (some f)]
      mu := none
      requests := goto .done }

/-! ### The machine -/

/-- A packet or a request arrives, or a goroutine takes a step. -/
inductive Action (ι : Type*)
  | arrive (pkt : Service.Model.DashboardPacket)
  | packetLoop
  | geoLoop
  | open (r : ι) (action : Option RequestAction) (filter : Option Str)
  | request (r : ι)

/-- The state in which the goroutines start. The cache is what an earlier run has saved. -/
def Init (savedOK : LruCache → Prop) (s : State ι) : Prop :=
  s.historyBuffer.count = 0 ∧ s.isScanning = true ∧ s.filter = Filter.empty ∧ s.packetCounter = 0 ∧
    savedOK s.geoCache ∧ s.geoReqChan = [] ∧ s.mu = none ∧ s.packetLoop = .idle ∧
    s.geoLoop = .idle ∧ (∀ r, s.requests r = .done) ∧ s.broadcasts = []

/-- The server. -/
def machine (ι : Type*) [DecidableEq ι] (env : Env) (savedOK : LruCache → Prop) :
    Machine (State ι) (Action ι) where
  init := Init savedOK
  step s
    | .arrive pkt => match s.packetLoop with
      | .idle => some { s with packetLoop := .received (Packet.received pkt) }
      | _ => none
    | .packetLoop => stepPacket env s
    | .geoLoop => stepGeo env s
    | .open r action filter => match s.requests r with
      | .done => some { s with
          requests := Function.update s.requests r (.start action filter) }
      | _ => none
    | .request r => stepRequest env s r

end Pacsni.Dashboard.Server
