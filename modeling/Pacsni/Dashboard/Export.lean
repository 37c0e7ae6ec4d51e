import Pacsni.Lib.Pcap
import Pacsni.Service.Lines
import Pacsni.Dashboard.Flow
import Pacsni.Dashboard.Geo

/-! # The capture file

`/api/export` writes the history as a capture file. Reading the file back gives one record for each
stored packet, oldest first, with its time stamp and its payload (`export_roundtrip`). The two 32-bit
fields for the time stamp hold every time stamp below `2 ^ 32` seconds. A length field would be too
small for a payload of four gigabytes, but a packet comes in a line of at most one megabyte, which is
the longest the scanner takes. -/

namespace Pacsni.Dashboard.Export

open Pacsni.Lib.Bytes Pacsni.Lib.Pcap Pacsni.Lib.Runs
open Pacsni.Dashboard.Packet Pacsni.Dashboard.Ring Pacsni.Dashboard.Lru Pacsni.Dashboard.Matching
open Pacsni.Dashboard.Server Pacsni.Dashboard.Steps Pacsni.Dashboard.Flow
open Pacsni.Dashboard.Geo (atlas fromPublic started init_started SavedOK geoAddress_spec)
open Pacsni.Lib.Json (utf8 write length_utf8_wrap)
open Pacsni.Service.Lines (scannerLimit toJson serdeEscape escapes_serdeEscape Sized length_toJson_lt)

/-! ### The handler -/

/-- The header that the handler writes. -/
def globalHeader : List UInt8 :=
  leBytes 4 0xa1b2c3d4 ++ leBytes 2 2 ++ leBytes 2 4 ++ leBytes 4 0 ++ leBytes 4 0 ++
    leBytes 4 65535 ++ leBytes 4 1

/-- What the loop writes for a packet. -/
def packetBytes (p : DashboardPacket) : List UInt8 :=
  let payload := p.payload
  let sec := (p.timestamp / 1000000).toUInt32
  let usec := (p.timestamp % 1000000).toUInt32
  leBytes 4 sec.toNat ++ leBytes 4 usec.toNat ++ leBytes 4 (UInt32.ofNat payload.length).toNat ++
    leBytes 4 (UInt32.ofNat payload.length).toNat ++ payload

/-- The body of the answer for a history. -/
def exportBytes (history : List DashboardPacket) : List UInt8 :=
  globalHeader ++ history.flatMap packetBytes

/-- The body of the answer to `/api/export`. -/
def apiExport {ι : Type*} (s : State ι) : List UInt8 := exportBytes (s.historyBuffer.getAll false)

/-! ### Records -/

/-- The record holds the time stamp and the payload of the packet. -/
structure Shows (p : DashboardPacket) (r : Record) : Prop where
  timestamp : r.tsSec.toNat * 10 ^ 6 + r.tsUsec.toNat = p.timestamp.toNat
  usec : r.tsUsec.toNat < 10 ^ 6
  data : r.data = p.payload

/-- The header of the file. -/
def fileHeader : Header := ⟨0xa1b2c3d4, 2, 4, 0, 0, 65535, 1⟩

/-- The record of a packet. -/
def recordOf (p : DashboardPacket) : Record where
  tsSec := (p.timestamp / 1000000).toUInt32
  tsUsec := (p.timestamp % 1000000).toUInt32
  inclLen := UInt32.ofNat p.payload.length
  origLen := UInt32.ofNat p.payload.length
  data := p.payload

theorem globalHeader_eq : globalHeader = fileHeader.bytes := rfl

theorem exportBytes_eq (history : List DashboardPacket) :
    exportBytes history = fileHeader.bytes ++ (history.map recordOf).flatMap Record.bytes := by
  rw [exportBytes, globalHeader_eq, List.flatMap_map]
  rfl

/-- The file of a history with payloads whose lengths fit their fields. -/
theorem parse_exportBytes {history : List DashboardPacket}
    (h : ∀ p ∈ history, p.payload.length < 2 ^ 32) :
    parse (exportBytes history) = some (fileHeader, history.map recordOf) := by
  rw [exportBytes_eq]
  refine parse_write fileHeader (by decide) _ fun r hr => ?_
  obtain ⟨p, hp, rfl⟩ := List.mem_map.mp hr
  show (UInt32.ofNat p.payload.length).toNat = p.payload.length
  rw [UInt32.toNat_ofNat']
  exact Nat.mod_eq_of_lt (h p hp)

/-- The two fields of a time stamp. -/
theorem shows_recordOf {p : DashboardPacket} (h : p.timestamp.toNat < 2 ^ 32 * 10 ^ 6) :
    Shows p (recordOf p) := by
  have hsec : (p.timestamp / 1000000).toUInt32.toNat = p.timestamp.toNat / 1000000 := by
    rw [UInt64.toNat_toUInt32, UInt64.toNat_div]
    exact Nat.mod_eq_of_lt (Nat.div_lt_of_lt_mul (by rw [Nat.mul_comm]; exact h))
  have husec : (p.timestamp % 1000000).toUInt32.toNat = p.timestamp.toNat % 1000000 := by
    have hlt := Nat.mod_lt p.timestamp.toNat (show 0 < 1000000 by decide)
    rw [UInt64.toNat_toUInt32, UInt64.toNat_mod]
    exact Nat.mod_eq_of_lt (Nat.lt_trans hlt (by decide))
  refine ⟨?_, ?_, rfl⟩
  · show (p.timestamp / 1000000).toUInt32.toNat * 10 ^ 6 + (p.timestamp % 1000000).toUInt32.toNat = _
    rw [hsec, husec]
    exact Nat.div_add_mod' _ _
  · show (p.timestamp % 1000000).toUInt32.toNat < _
    rw [husec]
    exact Nat.mod_lt _ (by decide)

/-! ### What the service has sent -/

/-- The server changes nothing that the service has sent. -/
theorem passes_sent (env : Env) (P : Service.Model.DashboardPacket → Prop) :
    Passes env (fun p => P p.toDashboardPacket) (fun p => P p.toDashboardPacket)
      (fun p => P p.toDashboardPacket) (fun p => P p.toDashboardPacket) where
  label _ _ hp := hp
  noGeo _ hp := hp
  setCountry p res hp := by
    unfold Server.setCountry
    dsimp only
    split <;> exact hp
  store _ hp := hp
  update ip g p hp := by
    unfold applyGeo
    split_ifs <;> exact hp

variable {ι : Type*} [DecidableEq ι] {env : Env} {savedOK : LruCache → Prop} {s : State ι}

/-- What every arriving packet meets, every packet in the history meets. -/
theorem history_of_arrivals {P : Service.Model.DashboardPacket → Prop}
    (hs : (machine ι env savedOK).ReachVia (fun _ a => ∀ d, a = .arrive d → P d) s) :
    ∀ p ∈ s.historyBuffer.getAll false, P p.toDashboardPacket :=
  (staged_of_reachVia (passes_sent env P) (fun _ d ha => ha d rfl) hs).history

/-! ### The file -/

section

-- `json.Unmarshal`, from a line to a packet
variable (unmarshal : List UInt8 → Option Service.Model.DashboardPacket)

/-- The packet was read from a line that the scanner takes. -/
def Scanned (d : Service.Model.DashboardPacket) : Prop :=
  ∃ line, line.length ≤ scannerLimit ∧ unmarshal line = some d

/-- **The exported file.** Its bytes are a capture file, taken apart without a rest, with one record for
each stored packet, oldest first, that holds the time stamp and the payload of the packet. An array or
a string of a line has at most as many elements as the line has bytes. -/
theorem export_roundtrip (env : Env) (savedOK : LruCache → Prop)
    (hshort : ∀ line d, unmarshal line = some d → d.payload.length ≤ line.length) (s : State ι)
    (hs : (machine ι env savedOK).ReachVia (fun _ a => ∀ d, a = .arrive d → Scanned unmarshal d) s)
    (htime : ∀ p ∈ s.historyBuffer.getAll false, p.timestamp.toNat < 2 ^ 32 * 10 ^ 6) :
    ∃ h rs, parse (apiExport s) = some (h, rs) ∧
      List.Forall₂ Shows (s.historyBuffer.getAll false) rs := by
  have hlen : ∀ p ∈ s.historyBuffer.getAll false, p.payload.length < 2 ^ 32 := by
    intro p hp
    obtain ⟨line, hline, hd⟩ := history_of_arrivals hs p hp
    have := hshort line _ hd
    unfold scannerLimit at hline
    omega
  refine ⟨_, _, parse_exportBytes hlen, ?_⟩
  rw [List.forall₂_map_right_iff, List.forall₂_same]
  exact fun p hp => shows_recordOf (htime p hp)

end

/-! ### One packet -/

/-- The only packet that arrives is `d`. -/
def Only {ι : Type*} (d : Service.Model.DashboardPacket) (_ : State ι) (a : Server.Action ι) : Prop :=
  ∀ d', a = .arrive d' → d' = d

/-- A packet that is decided on is stored if there is no filter. -/
theorem stored_of_decide {d : Service.Model.DashboardPacket} {pkt : DashboardPacket}
    (hs : (machine ι env savedOK).ReachVia (Only d) s) (hp : s.packetLoop = .decide pkt)
    (hfilter : s.filter = Filter.empty) (hcount : s.historyBuffer.count = 0) :
    ∃ s' : State ι, (machine ι env savedOK).ReachVia (Only d) s' ∧ s'.historyBuffer.count = 1 := by
  have hacc : accepts env.lib s.filter pkt = true := by
    rw [hfilter]
    rfl
  have hstep : stepPacket env s = some { s with
      historyBuffer := s.historyBuffer.add pkt
      packetLoop := .stored pkt } := by
    rw [stepPacket, hp]
    exact if_pos hacc
  refine ⟨_, hs.next (a := .packetLoop) nofun hstep, ?_⟩
  show (if s.historyBuffer.count < historySize then _ else _) = 1
  rw [hcount]
  rfl

/-- Any packet that arrives at a server that has just started is stored. -/
theorem exists_stored (env : Env) (d : Service.Model.DashboardPacket) :
    ∃ s : State Unit, (machine Unit env SavedOK).ReachVia (Only d) s ∧ s.historyBuffer.count = 1 := by
  have hpacket : ∀ {s s' : State Unit}, (machine Unit env SavedOK).ReachVia (Only d) s →
      stepPacket env s = some s' → (machine Unit env SavedOK).ReachVia (Only d) s' :=
    fun h hstep => h.next (a := .packetLoop) nofun hstep
  have harrive : (machine Unit env SavedOK).ReachVia (Only d)
      { started with packetLoop := .received (received d) } :=
    (Machine.ReachVia.of_init init_started).next (a := .arrive d) (by rintro _ ⟨⟩; rfl) rfl
  have hstart := hpacket harrive rfl
  cases haddr : geoAddress (label env.lib 1 (received d)) with
  | none => exact stored_of_decide hstart (by simp [startItem, started, haddr]; rfl) rfl rfl
  | some ip =>
    -- a public address: it is not in the cache, and its request finds room
    have hlookup : (startItem env { started with packetLoop := .received (received d) }
        (received d)).packetLoop = .lookup (label env.lib 1 (received d)) ip := by
      simp [startItem, started, haddr]
    have hmiss : (machine Unit env SavedOK).ReachVia (Only d) { started with
        packetCounter := 1
        mu := some .packetLoop
        packetLoop := .request (label env.lib 1 (received d)) ip } := by
      refine hpacket hstart ?_
      rw [stepPacket, hlookup]
      simp only [(geoAddress_spec haddr).1, Bool.false_eq_true, ↓reduceIte]
      rfl
    exact stored_of_decide (hpacket hmiss rfl) rfl rfl rfl

/-- A packet with a time stamp and a payload. -/
def stamped : Service.Model.DashboardPacket :=
  { fromPublic with timestamp := 1700000000000001, payload := [1, 2] }

/-- A later one. -/
def stampedLater : Service.Model.DashboardPacket :=
  { fromPublic with timestamp := 1700000003000000, payload := [3] }

/-- They are read from their lines. -/
def unmarshalStamped (line : List UInt8) : Option Service.Model.DashboardPacket :=
  [stamped, stampedLater].find? fun d => line = utf8 (toJson serdeEscape d)

theorem sized_stamped : ∀ d ∈ [stamped, stampedLater], Sized d := by
  intro d hd
  fin_cases hd <;> exact ⟨by decide, by decide, by decide⟩

theorem scanned_stamped : ∀ d ∈ [stamped, stampedLater], Scanned unmarshalStamped d := by
  intro d hd
  refine ⟨_, (length_toJson_lt escapes_serdeEscape (sized_stamped d hd)).le, ?_⟩
  have hne : utf8 (toJson serdeEscape stampedLater) ≠ utf8 (toJson serdeEscape stamped) := by
    decide +kernel
  fin_cases hd
  · simp [unmarshalStamped]
  · simp [unmarshalStamped, hne]

theorem length_payload_stamped : ∀ line d, unmarshalStamped line = some d →
    d.payload.length ≤ line.length := by
  intro line d h
  have hline : line = utf8 (toJson serdeEscape d) := by simpa using List.find?_some h
  have hshort : d.payload.length ≤ 2 := by
    have hd := List.mem_of_find?_eq_some h
    fin_cases hd <;> decide
  -- the two braces
  rw [hline, toJson, write, length_utf8_wrap (by decide) (by decide)]
  omega

/-- Both arrive and are stored. -/
def storeStamped : List (Server.Action Unit) :=
  [.arrive stamped, .packetLoop, .packetLoop, .packetLoop, .packetLoop, .packetLoop,
    .arrive stampedLater, .packetLoop, .packetLoop, .packetLoop, .packetLoop, .packetLoop]

/-- The file has the two packets in the order in which they came. -/
theorem export_stamped : ∃ s : State Unit,
    (s.historyBuffer.getAll false).map (·.timestamp) = [1700000000000001, 1700000003000000] ∧
    ∃ h rs, parse (apiExport s) = some (h, rs) ∧
      List.Forall₂ Shows (s.historyBuffer.getAll false) rs := by
  have hrun : (machine Unit atlas SavedOK).ReachVia
      (fun _ a => ∀ d, a = .arrive d → d ∈ [stamped, stampedLater])
      (((machine Unit atlas SavedOK).exec started storeStamped).get (by decide)) :=
    Machine.ReachVia.exec storeStamped (.of_init init_started) (Machine.along_of_forall _ _ (by
      simp [storeStamped])) (by simp)
  refine ⟨((machine Unit atlas SavedOK).exec started storeStamped).get (by decide), rfl,
    export_roundtrip unmarshalStamped atlas SavedOK length_payload_stamped _ ?_ ?_⟩
  · exact hrun.mono fun _ _ ha d hd => scanned_stamped d (ha d hd)
  · intro p hp
    have hstamped := history_of_arrivals hrun p hp
    have htime : ∀ d ∈ [stamped, stampedLater], d.timestamp.toNat < 2 ^ 32 * 10 ^ 6 := by decide
    exact htime _ hstamped

end Pacsni.Dashboard.Export
