import Pacsni.Lib.Region
import Pacsni.Capture.Stages

/-! # IPv4 frames on the wire

A `WireFrame` is an Ethernet frame with any number of VLAN tags, an IPv4 header with options, a TCP
header with options or a UDP header, and a payload. `bytes` serialises it in network order, with
consistent length fields. The dissection of a frame that is captured in full recovers it
(`dissectRawPacket_recovers`). -/

namespace Pacsni.Capture.Wire4

open Pacsni.Lib.Bytes Pacsni.Lib.Trace Pacsni.Lib.CBuffer Pacsni.Lib.Region
open Pacsni.Capture.Types Pacsni.Capture.Layers Pacsni.Capture.Dissectors Pacsni.Capture.Raw
open Pacsni.Capture.LayerSpec Pacsni.Capture.Stages

/-! ### Frames -/

/-- A VLAN tag, of 802.1ad or 802.1Q. -/
structure WireTag where
  ad : Bool
  pcp : Fin 8
  dei : Bool
  vid : Fin 4096

/-- The ethertype that announces the tag. -/
def WireTag.tpid (t : WireTag) : UInt16 := if t.ad then 0x88a8 else 0x8100

/-- The tag control information. -/
def WireTag.tci (t : WireTag) : UInt16 :=
  UInt16.ofNat (t.pcp * 8192 + (if t.dei then 4096 else 0) + t.vid)

def WireTag.bytes (t : WireTag) : List UInt8 := beBytes16 t.tpid ++ beBytes16 t.tci

/-- Header options: up to ten words. -/
structure Options where
  bytes : List UInt8
  words : Fin 11
  length_eq : bytes.length = 4 * words

/-- A header without options. -/
def Options.none : Options := ⟨[], 0, rfl⟩

/-- An IPv4 header; version, header length, total length and protocol follow from the frame. -/
structure WireIpv4 where
  tos : UInt8
  id : UInt16
  reserved : Bool
  df : Bool
  mf : Bool
  fragOffset : Fin 8192
  ttl : UInt8
  checksum : UInt16
  src : Vector UInt8 4
  dst : Vector UInt8 4
  options : Options

/-- The header length in words. -/
def WireIpv4.ihl (h : WireIpv4) : ℕ := 5 + h.options.words

/-- The flags and the fragment offset. -/
def WireIpv4.flagsOff (h : WireIpv4) : UInt16 :=
  UInt16.ofNat ((if h.reserved then 32768 else 0) + (if h.df then 16384 else 0) +
    (if h.mf then 8192 else 0) + h.fragOffset)

/-- The header for `n` bytes of the protocol `q` behind it. -/
def WireIpv4.bytes (h : WireIpv4) (q : UInt8) (n : ℕ) : List UInt8 :=
  [UInt8.ofNat (64 + h.ihl), h.tos] ++ (beBytes16 (UInt16.ofNat (4 * h.ihl + n)) ++ (beBytes16 h.id ++
    (beBytes16 h.flagsOff ++ ([h.ttl, q] ++ (beBytes16 h.checksum ++ (h.src.toList ++
      (h.dst.toList ++ h.options.bytes)))))))

/-- A TCP header; the data offset follows from the options. -/
structure WireTcp where
  srcPort : UInt16
  dstPort : UInt16
  seq : UInt32
  ack : UInt32
  reserved : Fin 16
  flags : UInt8
  window : UInt16
  checksum : UInt16
  urgent : UInt16
  options : Options

/-- The data offset in words. -/
def WireTcp.dataOffset (h : WireTcp) : ℕ := 5 + h.options.words

def WireTcp.bytes (h : WireTcp) : List UInt8 :=
  beBytes16 h.srcPort ++ (beBytes16 h.dstPort ++ (beBytes32 h.seq ++ (beBytes32 h.ack ++
    ([UInt8.ofNat (16 * h.dataOffset + h.reserved), h.flags] ++ (beBytes16 h.window ++
      (beBytes16 h.checksum ++ (beBytes16 h.urgent ++ h.options.bytes)))))))

/-- A UDP header; the length follows from the payload. -/
structure WireUdp where
  srcPort : UInt16
  dstPort : UInt16
  checksum : UInt16

/-- The header for a payload of `n` bytes. -/
def WireUdp.bytes (h : WireUdp) (n : ℕ) : List UInt8 :=
  beBytes16 h.srcPort ++ (beBytes16 h.dstPort ++ (beBytes16 (UInt16.ofNat (8 + n)) ++
    beBytes16 h.checksum))

/-- A transport header. -/
inductive WireL4
  | tcp (h : WireTcp)
  | udp (h : WireUdp)

def WireL4.protocol : WireL4 → UInt8
  | .tcp _ => 6
  | .udp _ => 17

def WireL4.bytes : WireL4 → ℕ → List UInt8
  | .tcp h, _ => h.bytes
  | .udp h, n => h.bytes n

/-- A frame. -/
structure WireFrame where
  dstMac : Vector UInt8 6
  srcMac : Vector UInt8 6
  tags : List WireTag
  ip : WireIpv4
  l4 : WireL4
  payload : List UInt8

/-- The transport header and the payload. -/
def WireFrame.segment (f : WireFrame) : List UInt8 := f.l4.bytes f.payload.length ++ f.payload

/-- The frame in network order. -/
def WireFrame.bytes (f : WireFrame) : List UInt8 :=
  f.dstMac.toList ++ (f.srcMac.toList ++ (f.tags.flatMap WireTag.bytes ++ (beBytes16 0x0800 ++
    (f.ip.bytes f.l4.protocol f.segment.length ++ f.segment))))

/-- The header of a capture of the whole frame. -/
def WireFrame.pkthdr (f : WireFrame) (ts : Timeval) : PcapPkthdr :=
  ⟨ts, UInt32.ofNat f.bytes.length, UInt32.ofNat f.bytes.length⟩

/-! ### Lengths -/

@[simp] theorem length_tagBytes (t : WireTag) : t.bytes.length = 4 := rfl

@[simp] theorem length_tags (ts : List WireTag) :
    (ts.flatMap WireTag.bytes).length = 4 * ts.length := by
  induction ts with
  | nil => rfl
  | cons t ts ih =>
    rw [List.flatMap_cons, List.length_append, ih, length_tagBytes, List.length_cons]
    omega

@[simp] theorem length_ipBytes (h : WireIpv4) (q : UInt8) (n : ℕ) :
    (h.bytes q n).length = 4 * h.ihl := by
  have := h.options.length_eq
  simp [WireIpv4.bytes, WireIpv4.ihl, this]
  omega

@[simp] theorem length_tcpBytes (h : WireTcp) : h.bytes.length = 4 * h.dataOffset := by
  have := h.options.length_eq
  simp [WireTcp.bytes, WireTcp.dataOffset, this]
  omega

@[simp] theorem length_udpBytes (h : WireUdp) (n : ℕ) : (h.bytes n).length = 8 := rfl

theorem WireFrame.length_bytes (f : WireFrame) :
    f.bytes.length = 14 + 4 * f.tags.length + 4 * f.ip.ihl + f.segment.length := by
  simp [WireFrame.bytes]
  omega

/-! ### Sub-byte fields -/

theorem version_ihl (n : ℕ) (h : n < 16) :
    (UInt8.ofNat (64 + n) >>> 4) &&& 0x0f = 4 ∧ (UInt8.ofNat (64 + n) &&& 0x0f).toNat = n := by
  have : ∀ i : Fin 16, (UInt8.ofNat (64 + i) >>> 4) &&& 0x0f = 4 ∧
      (UInt8.ofNat (64 + i) &&& 0x0f).toNat = i := by decide
  exact this ⟨n, h⟩

theorem dataOffset_nibble (n : ℕ) (h : n < 16) (r : Fin 16) :
    ((UInt8.ofNat (16 * n + r) >>> 4) &&& 0x0f).toNat = n := by
  have : ∀ i r : Fin 16, ((UInt8.ofNat (16 * i + r) >>> 4) &&& 0x0f).toNat = i := by decide
  exact this ⟨n, h⟩ r

theorem tci_vid (t : WireTag) : (t.tci &&& 0x0FFF).toNat = t.vid := by
  have h1 := t.pcp.isLt
  have h2 := t.vid.isLt
  rw [UInt16.toNat_and, show (0x0FFF : UInt16).toNat = 2 ^ 12 - 1 by rfl, Nat.and_two_pow_sub_one_eq_mod,
    WireTag.tci, UInt16.toNat_ofNat']
  split_ifs <;> omega

theorem flagsOff_fragment (h : WireIpv4) :
    h.flagsOff &&& (0x2000 ||| 0x1fff) ≠ 0 ↔ h.mf = true ∨ h.fragOffset.val ≠ 0 := by
  have hlt := h.fragOffset.isLt
  have hmask : (h.flagsOff &&& (0x2000 ||| 0x1fff)).toNat = h.flagsOff.toNat % 2 ^ 14 := by
    rw [UInt16.toNat_and, show (0x2000 ||| 0x1fff : UInt16).toNat = 2 ^ 14 - 1 by rfl,
      Nat.and_two_pow_sub_one_eq_mod]
  have hval : h.flagsOff.toNat % 2 ^ 14 = (if h.mf then 8192 else 0) + h.fragOffset := by
    rw [WireIpv4.flagsOff, UInt16.toNat_ofNat']
    split_ifs <;> omega
  rw [ne_eq, ← UInt16.toNat_inj, hmask, hval]
  cases h.mf <;> simp

/-! ### The layers in memory -/

variable {data : ℕ → UInt8} {caplen : ℕ}

/-- The tags in memory, from tag `j` on. -/
theorem tags_at {et : UInt16} {rest : List UInt8} : ∀ (ts : List WireTag) (j : ℕ),
    Holds data (12 + 4 * j) (ts.flatMap WireTag.bytes ++ (beBytes16 et ++ rest)) →
    (∀ i (h : i < ts.length), etypeAt data (j + i) = ts[i].tpid ∧
      (vidAt data (j + i)).toNat = ts[i].vid) ∧
    etypeAt data (j + ts.length) = et ∧ Holds data (14 + 4 * (j + ts.length)) rest
  | [], j, hb => by
    rw [List.flatMap_nil, List.nil_append] at hb
    obtain ⟨het, hrest⟩ := holds_append.mp hb
    have h1 : 13 + 4 * j = 12 + 4 * j + 1 := by omega
    have h2 : 14 + 4 * (j + 0) = 12 + 4 * j + (beBytes16 et).length := by
      rw [length_beBytes16]; omega
    refine ⟨fun i h => absurd h (Nat.not_lt_zero i), ?_, ?_⟩
    · unfold etypeAt
      rw [List.length_nil, Nat.add_zero, h1]
      exact het.be16
    · rw [List.length_nil, h2]
      exact hrest
  | t :: ts, j, hb => by
    rw [List.flatMap_cons, List.append_assoc, WireTag.bytes, List.append_assoc] at hb
    obtain ⟨htpid, hb⟩ := holds_append.mp hb
    obtain ⟨htci, hb⟩ := holds_append.mp hb
    have hoff : 12 + 4 * j + (beBytes16 t.tpid).length + (beBytes16 t.tci).length =
        12 + 4 * (j + 1) := by rw [length_beBytes16, length_beBytes16]; omega
    rw [hoff] at hb
    obtain ⟨htags, het, hrest⟩ := tags_at ts (j + 1) hb
    have hj : j + (t :: ts).length = j + 1 + ts.length := by rw [List.length_cons]; omega
    refine ⟨fun i h => ?_, by rw [hj]; exact het, by rw [hj]; exact hrest⟩
    cases i with
    | zero =>
      have h13 : 13 + 4 * j = 12 + 4 * j + 1 := by omega
      have h14 : 14 + 4 * j = 12 + 4 * j + (beBytes16 t.tpid).length := by
        rw [length_beBytes16]; omega
      have h15 : 15 + 4 * j = 12 + 4 * j + (beBytes16 t.tpid).length + 1 := by
        rw [length_beBytes16]; omega
      refine ⟨?_, ?_⟩
      · unfold etypeAt
        rw [Nat.add_zero, h13]
        exact htpid.be16
      · unfold vidAt
        rw [Nat.add_zero, h14, h15, htci.be16]
        exact tci_vid t
    | succ i =>
      have := htags i (by simpa using h)
      rw [Nat.add_assoc, Nat.add_comm 1 i] at this
      exact this

/-- What `parse_ip_layer` returns for the header. -/
def WireIpv4.info (ip : WireIpv4) (h : ℕ) (q : UInt8) : IpInfo where
  header := h
  headerLen := 4 * ip.ihl
  srcIp := writeAt (zeros 16) 12 ip.src.toList
  dstIp := writeAt (zeros 16) 12 ip.dst.toList
  protocol := q
  ttl := ip.ttl
  tos := ip.tos
  id := ip.id
  isIpv6 := false
  isFragment := decide (ip.mf = true ∨ ip.fragOffset.val ≠ 0)

theorem ihl_lt (ip : WireIpv4) : ip.ihl < 16 := by
  have := ip.options.words.isLt
  unfold WireIpv4.ihl
  omega

theorem parseIpLayer_wire {ip : WireIpv4} {q : UInt8} {h n : ℕ} (hb : Holds data h (ip.bytes q n))
    (hfit : h + 4 * ip.ihl ≤ caplen) :
    (parseIpLayer data caplen h).val = some (ip.info h q) := by
  obtain ⟨hvt, hb⟩ := holds_append.mp hb
  obtain ⟨hlen, hb⟩ := holds_append.mp hb
  obtain ⟨hid, hb⟩ := holds_append.mp hb
  obtain ⟨hoff, hb⟩ := holds_append.mp hb
  obtain ⟨htp, hb⟩ := holds_append.mp hb
  obtain ⟨hck, hb⟩ := holds_append.mp hb
  obtain ⟨hsrc, hb⟩ := holds_append.mp hb
  obtain ⟨hdst, -⟩ := holds_append.mp hb
  have h0 : data h = UInt8.ofNat (64 + ip.ihl) := hvt 0 (by simp)
  have h1 : data (h + 1) = ip.tos := hvt 1 (by simp)
  have h4 : be16 (data (h + 4)) (data (h + 4 + 1)) = ip.id := hid.be16
  have h6 : be16 (data (h + 6)) (data (h + 6 + 1)) = ip.flagsOff := hoff.be16
  have h8 : data (h + 8) = ip.ttl := htp 0 (by simp)
  have h9 : data (h + 9) = q := htp 1 (by simp)
  rw [Vector.length_toList] at hdst
  have h12 : (List.range 4).map (fun k => data (h + 12 + k)) = ip.src.toList := by
    have := hsrc.map_range
    rwa [Vector.length_toList] at this
  have h16 : (List.range 4).map (fun k => data (h + 16 + k)) = ip.dst.toList := by
    have := hdst.map_range
    rwa [Vector.length_toList] at this
  obtain ⟨hv, hihl⟩ := version_ihl ip.ihl (ihl_lt ip)
  rw [← h0] at hv hihl
  have h20 : 20 ≤ 4 * ip.ihl := by unfold WireIpv4.ihl; omega
  have hat : Ipv4At data caplen h (4 * ip.ihl) := ⟨hv, by rw [hihl]; omega, h20, hfit⟩
  rcases @parseIpLayer_spec data caplen 0 (fun _ => True) trivial h with
    ⟨hl, hat', hval, -⟩ | ⟨h6', -, -⟩ | ⟨hno, -, -, -⟩
  · obtain rfl : hl = 4 * ip.ihl := by rw [hat'.2.1, hihl]; omega
    rw [hval]
    simp only [ipv4Info, WireIpv4.info, h1, h4, h6, h8, h9, h12, h16, flagsOff_fragment]
  · exact absurd hat.isV4 h6'.not_isV4
  · exact absurd hat (hno _)

/-- The transport header `t` carries the ports of `l4`, and the fields of a TCP header. -/
def Carries (l4 : WireL4) (t : TransportInfo) : Prop :=
  match l4 with
  | .tcp h => t.srcPort = h.srcPort ∧ t.dstPort = h.dstPort ∧ t.seq = h.seq ∧ t.ack = h.ack ∧
      t.window = h.window ∧ t.flags = h.flags
  | .udp h => t.srcPort = h.srcPort ∧ t.dstPort = h.dstPort

theorem parseTcp_wire {h : WireTcp} {off : ℕ} (hb : Holds data off h.bytes)
    (hfit : off + 4 * h.dataOffset ≤ caplen) (ip : IpInfo) :
    ∃ t, (parseTcp data caplen off ip).val = some t ∧ Carries (.tcp h) t := by
  obtain ⟨hsrc, hb⟩ := holds_append.mp hb
  obtain ⟨hdst, hb⟩ := holds_append.mp hb
  obtain ⟨hseq, hb⟩ := holds_append.mp hb
  obtain ⟨hack, hb⟩ := holds_append.mp hb
  obtain ⟨hdf, hb⟩ := holds_append.mp hb
  obtain ⟨hwin, -⟩ := holds_append.mp hb
  have h12 : data (off + 12) = UInt8.ofNat (16 * h.dataOffset + h.reserved) := hdf 0 (by simp)
  have h13 : data (off + 13) = h.flags := hdf 1 (by simp)
  have hlt : h.dataOffset < 16 := by
    have := h.options.words.isLt
    unfold WireTcp.dataOffset
    omega
  have h20 : 20 ≤ 4 * h.dataOffset := by unfold WireTcp.dataOffset; omega
  have hnib := dataOffset_nibble h.dataOffset hlt h.reserved
  rw [← h12] at hnib
  have hat : TcpAt data caplen off (4 * h.dataOffset) := ⟨by rw [hnib]; omega, h20, hfit⟩
  rcases @parseTcp_spec data caplen 0 (fun _ => True) trivial off ip with
    ⟨hl, -, hval, -⟩ | ⟨hno, -, -⟩
  · refine ⟨_, hval, ?_⟩
    exact ⟨hsrc.be16, hdst.be16, hseq.be32, hack.be32, hwin.be16, h13⟩
  · exact absurd hat (hno _)

theorem parseUdp_wire {h : WireUdp} {off n : ℕ} (hb : Holds data off (h.bytes n))
    (hfit : off + 8 ≤ caplen) :
    ∃ t, (parseUdp data caplen off).val = some t ∧ Carries (.udp h) t := by
  obtain ⟨hsrc, hb⟩ := holds_append.mp hb
  obtain ⟨hdst, -⟩ := holds_append.mp hb
  rcases @parseUdp_spec data caplen 0 (fun _ => True) trivial off with ⟨-, hval, -⟩ | ⟨hcut, -, -⟩
  · exact ⟨_, hval, hsrc.be16, hdst.be16⟩
  · omega

theorem parseTransportLayer_wire {l4 : WireL4} {ip : IpInfo} {ethHlen n : ℕ}
    (hb : Holds data (ethHlen + ip.headerLen) (l4.bytes n)) (hq : ip.protocol = l4.protocol)
    (hfit : ethHlen + ip.headerLen + (l4.bytes n).length ≤ caplen) :
    ∃ t, (parseTransportLayer data caplen ethHlen ip).val = some t ∧ Carries l4 t := by
  unfold parseTransportLayer
  cases l4 with
  | tcp h =>
    rw [show ip.protocol = 6 from hq, if_pos rfl]
    exact parseTcp_wire hb (by simpa [WireL4.bytes] using hfit) ip
  | udp h =>
    rw [show ip.protocol = 17 from hq, if_neg (by decide), if_pos rfl]
    exact parseUdp_wire hb (by simpa [WireL4.bytes] using hfit)

/-! ### The record of a frame -/

/-- The record `r` holds the values of the transport header. -/
def TransportRecovered (l4 : WireL4) (r : PacketInfo) : Prop :=
  match l4 with
  | .tcp h => r.srcPort = h.srcPort ∧ r.dstPort = h.dstPort ∧ r.tcpSeq = h.seq ∧ r.tcpAck = h.ack ∧
      r.tcpWin = h.window ∧ r.tcpFlags = h.flags
  | .udp h => r.srcPort = h.srcPort ∧ r.dstPort = h.dstPort

/-- The record `r` holds the values of the frame `f`. -/
structure Recovers (f : WireFrame) (r : PacketInfo) : Prop where
  srcMac : r.srcMac = f.srcMac
  dstMac : r.dstMac = f.dstMac
  vlanId : r.vlanId.toNat = (f.tags.getLast?.map fun t => t.vid.val).getD 0
  srcIp : ∀ i (h : i < 4), r.srcIp[12 + i] = f.ip.src[i]
  dstIp : ∀ i (h : i < 4), r.dstIp[12 + i] = f.ip.dst[i]
  protocol : r.protocol = f.l4.protocol
  ip : r.ipTtl = f.ip.ttl ∧ r.ipTos = f.ip.tos ∧ r.ipId = f.ip.id
  isIpv6 : r.isIpv6 = 0
  isFragment : r.isFragment = if f.ip.mf = true ∨ f.ip.fragOffset.val ≠ 0 then 1 else 0
  transport : TransportRecovered f.l4 r
  payloadLen : r.payloadLen.toNat = f.bytes.length
  payload : r.payload.toList.take f.bytes.length = f.bytes
  l3Offset : r.l3Offset.toNat = 14 + 4 * f.tags.length
  l4Offset : r.l4Offset.toNat = 14 + 4 * f.tags.length + 4 * f.ip.ihl

theorem getElem_writeAt_addr (v : Vector UInt8 4) (i : ℕ) (h : i < 4) :
    (writeAt (zeros 16) 12 v.toList)[12 + i] = v[i] := by
  rw [getElem_writeAt, if_pos ⟨by omega, by rw [Vector.length_toList]; omega⟩]
  simp [List.getD_eq_getElem?_getD, h]

theorem writeAt_mac (v : Vector UInt8 6) : writeAt (zeros 6) 0 v.toList = v := by
  apply Vector.ext
  intro i hi
  rw [getElem_writeAt, if_pos ⟨by omega, by rw [Vector.length_toList]; omega⟩]
  simp [List.getD_eq_getElem?_getD, hi]

/-- The bytes of a frame that is captured in full, in the raw packet. -/
theorem holds_packetHandler {bs : List UInt8} (hlen : bs.length ≤ 256) {pkthdr : PcapPkthdr}
    (hpk : pkthdr.caplen = UInt32.ofNat bs.length) (lastTs : Timeval) (mem : ℕ → UInt8) :
    Holds (packetHandler pkthdr (fun i => bs.getD i 0) mem lastTs).data 0 bs ∧
      pkthdr.caplen.toNat = bs.length := by
  have hcap : pkthdr.caplen.toNat = bs.length := by
    rw [hpk, UInt32.toNat_ofNat']
    omega
  refine ⟨fun j hj => ?_, hcap⟩
  have hcopied : j < copiedLen pkthdr := by
    unfold copiedLen maxPayloadSize
    omega
  simp [packetHandler, hcopied, List.getD_eq_getElem?_getD, hj]

theorem isTag_tpid (t : WireTag) : IsTag t.tpid := by
  unfold WireTag.tpid IsTag
  split_ifs
  · exact Or.inr rfl
  · exact Or.inl rfl

/-- What the three layer parsers see of a frame that lies in memory. -/
structure LayersOK (f : WireFrame) (data : ℕ → UInt8) (caplen : ℕ) : Prop where
  dstMac : (List.range 6).map (fun k => data (0 + k)) = f.dstMac.toList
  srcMac : (List.range 6).map (fun k => data (6 + k)) = f.srcMac.toList
  depth : TagDepth data caplen f.tags.length
  etype : etypeAt data f.tags.length = 0x0800
  vlan : (if f.tags.length = 0 then 0 else vidAt data (f.tags.length - 1)).toNat =
    (f.tags.getLast?.map fun t => t.vid.val).getD 0
  ip : (parseIpLayer data caplen (14 + 4 * f.tags.length)).val =
    some (f.ip.info (14 + 4 * f.tags.length) f.l4.protocol)
  transport : ∃ t, (parseTransportLayer data caplen (14 + 4 * f.tags.length)
    (f.ip.info (14 + 4 * f.tags.length) f.l4.protocol)).val = some t ∧ Carries f.l4 t

theorem layersOK_of_holds {f : WireFrame} (hb : Holds data 0 f.bytes)
    (hcap : caplen = f.bytes.length) : LayersOK f data caplen := by
  have hlen := f.length_bytes
  obtain ⟨hdst, hb⟩ := holds_append.mp hb
  obtain ⟨hsrc, hb⟩ := holds_append.mp hb
  have h6 : 0 + f.dstMac.toList.length = 6 := by simp
  have h12 : 6 + f.srcMac.toList.length = 12 + 4 * 0 := by simp
  rw [h6] at hsrc hb
  rw [h12] at hb
  obtain ⟨htags, het, hb⟩ := tags_at f.tags 0 hb
  rw [Nat.zero_add] at het hb
  obtain ⟨hip, hseg⟩ := holds_append.mp hb
  rw [length_ipBytes] at hseg
  obtain ⟨hl4, -⟩ := holds_append.mp hseg
  have hseglen : (f.l4.bytes f.payload.length).length ≤ f.segment.length := by
    unfold WireFrame.segment
    rw [List.length_append]
    omega
  refine ⟨?_, ?_, ⟨by omega, fun j hj => ?_, fun h => ?_⟩, het, ?_, ?_, ?_⟩
  · have := hdst.map_range
    rwa [Vector.length_toList] at this
  · have := hsrc.map_range
    rwa [Vector.length_toList] at this
  · have := (htags j hj).1
    rw [Nat.zero_add] at this
    rw [this]
    exact isTag_tpid _
  · rw [het] at h
    exact absurd h.1 (by decide)
  · by_cases h0 : f.tags.length = 0
    · rw [if_pos h0, List.length_eq_zero_iff.mp h0]
      rfl
    · have := (htags (f.tags.length - 1) (by omega)).2
      rw [Nat.zero_add] at this
      rw [if_neg h0, this, List.getLast?_eq_getElem?, List.getElem?_eq_getElem (by omega)]
      rfl
  · exact parseIpLayer_wire hip (by omega)
  · exact parseTransportLayer_wire hl4 rfl (by simp only [WireIpv4.info]; omega)

/-- The Ethernet layer of a frame with `k` tags. -/
def ethOf (data : ℕ → UInt8) (k : ℕ) : EthernetInfo :=
  ⟨0, 14 + 4 * k, etypeAt data k, if k = 0 then 0 else vidAt data (k - 1)⟩

theorem parseEthernetLayer_of_tagDepth {k : ℕ} (hk : TagDepth data caplen k) :
    (parseEthernetLayer data caplen).val = some (ethOf data k) := by
  have hcap : 14 ≤ caplen := by have := hk.fits; omega
  obtain ⟨k', hk', hval, -⟩ := @parseEthernetLayer_spec data caplen 0 (fun _ => True) trivial hcap
  rw [hk.unique hk']
  exact hval

/-- The header fields of the frame `f` with the transport header `t`. -/
def WireFrame.headers (f : WireFrame) (vlanId : UInt16) (t : TransportInfo) : Headers :=
  withTransport t {
    Stages.headers PacketInfo.zero with
    srcMac := f.srcMac
    dstMac := f.dstMac
    vlanId := vlanId
    srcIp := writeAt (zeros 16) 12 f.ip.src.toList
    dstIp := writeAt (zeros 16) 12 f.ip.dst.toList
    protocol := f.l4.protocol
    ipTtl := f.ip.ttl
    ipTos := f.ip.tos
    ipId := f.ip.id
    isIpv6 := 0
    isFragment := if f.ip.mf = true ∨ f.ip.fragOffset.val ≠ 0 then 1 else 0
    l3Offset := UInt8.ofNat (14 + 4 * f.tags.length)
    l4Offset := UInt8.ofNat (14 + 4 * f.tags.length + 4 * f.ip.ihl) }

theorem headers_initInfo {f : WireFrame} {raw : RawPacket} (hl : LayersOK f raw.data caplen) :
    Ensures (fun i => headers i = { headers PacketInfo.zero with
      srcMac := f.srcMac
      dstMac := f.dstMac
      vlanId := (ethOf raw.data f.tags.length).vlanId
      l3Offset := UInt8.ofNat (14 + 4 * f.tags.length) })
      (initInfo raw (ethOf raw.data f.tags.length)) := by
  unfold initInfo
  refine .bind (P := fun bs => bs = f.srcMac.toList) hl.srcMac fun sbs hs => ?_
  refine .bind (P := fun bs => bs = f.dstMac.toList) hl.dstMac fun dbs hd => .pure ?_
  rw [hs, hd, writeAt_mac, writeAt_mac]
  rfl

theorem headers_ipFields {f : WireFrame} {eth : EthernetInfo} {i : PacketInfo} {v : UInt16}
    (heth : eth.headerLen = 14 + 4 * f.tags.length)
    (hi : headers i = { headers PacketInfo.zero with
      srcMac := f.srcMac
      dstMac := f.dstMac
      vlanId := v
      l3Offset := UInt8.ofNat (14 + 4 * f.tags.length) }) (t : TransportInfo) :
    withTransport t (headers (ipFields eth (f.ip.info (14 + 4 * f.tags.length) f.l4.protocol) i)) =
      f.headers v t := by
  unfold WireFrame.headers
  congr 1
  have h := hi
  simp only [headers, Headers.mk.injEq] at h
  simp only [headers, ipFields, WireIpv4.info, heth, h, Headers.mk.injEq, true_and]
  simp

/-- The record `r` holds the captured bytes, `n` of them. -/
def Captured (data : ℕ → UInt8) (n : ℕ) (r : PacketInfo) : Prop :=
  r.payloadLen = UInt16.ofNat n ∧
    ∃ v : Vector UInt8 256, r.payload = writeAt v 0 ((List.range n).map fun k => data (0 + k))

/-- The dissection of a frame whose layers are all there: header fields and captured bytes. -/
theorem dissectRawPacket_wire {f : WireFrame} {raw : RawPacket}
    (hl : LayersOK f raw.data raw.pkthdr.caplen.toNat) {t : TransportInfo}
    (ht : (parseTransportLayer raw.data raw.pkthdr.caplen.toNat (14 + 4 * f.tags.length)
      (f.ip.info (14 + 4 * f.tags.length) f.l4.protocol)).val = some t) (prior : PacketInfo) :
    Ensures (fun o => ∃ r, o = some r ∧
      headers r = f.headers (ethOf raw.data f.tags.length).vlanId t ∧
      Captured raw.data (min raw.pkthdr.caplen.toNat maxPayloadSize) r)
      (dissectRawPacket raw prior) := by
  have heth := parseEthernetLayer_of_tagDepth hl.depth
  have hip : IsIp (ethOf raw.data f.tags.length).etherType := Or.inl hl.etype
  unfold dissectRawPacket
  refine .bind (P := fun o => o = some (ethOf raw.data f.tags.length)) heth fun o ho => ?_
  subst ho
  unfold dissectFrame
  refine .bind (headers_initInfo hl) fun i hi => ?_
  unfold dissectEtherType
  rw [if_pos hip]
  refine .bind (headers_dissectIp hl.ip rfl ht i) fun j hj => ?_
  rw [headers_ipFields rfl hi] at hj
  unfold finishAlive
  have hfin : Ensures (fun r => SameHeaders j r ∧
      Captured raw.data (min raw.pkthdr.caplen.toNat maxPayloadSize) r)
      (finish raw.data raw.pkthdr.caplen j) := ⟨headers_finish _ j, finish_payload _ j⟩
  refine .bind hfin fun r hr => .pure ⟨r, rfl, hr.1.trans hj, hr.2⟩

theorem withTransport_eq (t : TransportInfo) (h : Headers) : withTransport t h = { h with
    srcPort := t.srcPort
    dstPort := t.dstPort
    tcpFlags := if h.protocol = 6 then t.flags else h.tcpFlags
    tcpSeq := if h.protocol = 6 then t.seq else h.tcpSeq
    tcpAck := if h.protocol = 6 then t.ack else h.tcpAck
    tcpWin := if h.protocol = 6 then t.window else h.tcpWin } := by
  unfold withTransport withTcp
  split_ifs <;> rfl

theorem recovers_of_headers {f : WireFrame} {r : PacketInfo} {v : UInt16} {t : TransportInfo}
    (hlen : f.bytes.length ≤ 256) (hh : headers r = f.headers v t) (ht : Carries f.l4 t)
    (hv : v.toNat = (f.tags.getLast?.map fun t => t.vid.val).getD 0)
    (hplen : r.payloadLen.toNat = f.bytes.length)
    (hpay : r.payload.toList.take f.bytes.length = f.bytes) : Recovers f r := by
  have hl := f.length_bytes
  have h8 : 8 ≤ f.segment.length := by
    unfold WireFrame.segment
    rw [List.length_append]
    cases f.l4 with
    | tcp h => simp [WireL4.bytes, WireTcp.dataOffset]; omega
    | udp h => simp [WireL4.bytes]
  have hl3 : (UInt8.ofNat (14 + 4 * f.tags.length)).toNat = 14 + 4 * f.tags.length := by
    rw [UInt8.toNat_ofNat']; omega
  have hl4 : (UInt8.ofNat (14 + 4 * f.tags.length + 4 * f.ip.ihl)).toNat =
      14 + 4 * f.tags.length + 4 * f.ip.ihl := by
    rw [UInt8.toNat_ofNat']; omega
  rw [WireFrame.headers, withTransport_eq] at hh
  have hsip : r.srcIp = writeAt (zeros 16) 12 f.ip.src.toList := congrArg Headers.srcIp hh
  have hdip : r.dstIp = writeAt (zeros 16) 12 f.ip.dst.toList := congrArg Headers.dstIp hh
  have htr : TransportRecovered f.l4 r := by
    obtain ⟨dm, sm, tags, ip, l4, payload⟩ := f
    cases l4 with
    | tcp h =>
      obtain ⟨h1, h2, h3, h4, h5, h6⟩ := ht
      exact ⟨(congrArg Headers.srcPort hh).trans h1, (congrArg Headers.dstPort hh).trans h2,
        (congrArg Headers.tcpSeq hh).trans h3, (congrArg Headers.tcpAck hh).trans h4,
        (congrArg Headers.tcpWin hh).trans h5, (congrArg Headers.tcpFlags hh).trans h6⟩
    | udp h => exact ⟨(congrArg Headers.srcPort hh).trans ht.1, (congrArg Headers.dstPort hh).trans ht.2⟩
  exact {
    srcMac := congrArg Headers.srcMac hh
    dstMac := congrArg Headers.dstMac hh
    vlanId := (congrArg (fun i => i.vlanId.toNat) hh).trans hv
    srcIp := fun i h => by rw [getElem_congr_coll hsip]; exact getElem_writeAt_addr _ i h
    dstIp := fun i h => by rw [getElem_congr_coll hdip]; exact getElem_writeAt_addr _ i h
    protocol := congrArg Headers.protocol hh
    ip := ⟨congrArg Headers.ipTtl hh, congrArg Headers.ipTos hh, congrArg Headers.ipId hh⟩
    isIpv6 := congrArg Headers.isIpv6 hh
    isFragment := congrArg Headers.isFragment hh
    transport := htr
    payloadLen := hplen
    payload := hpay
    l3Offset := (congrArg (fun i => i.l3Offset.toNat) hh).trans hl3
    l4Offset := (congrArg (fun i => i.l4Offset.toNat) hh).trans hl4 }

/-- The capture of the whole frame: its bytes, and what the layer parsers see of them. -/
theorem layersOK_packetHandler {f : WireFrame} (hlen : f.bytes.length ≤ 256) {raw : RawPacket} {ts lastTs : Timeval}
    {mem : ℕ → UInt8}
    (hraw : raw = packetHandler (f.pkthdr ts) (fun i => f.bytes.getD i 0) mem lastTs) :
    Holds raw.data 0 f.bytes ∧ raw.pkthdr.caplen.toNat = f.bytes.length ∧
      LayersOK f raw.data raw.pkthdr.caplen.toNat := by
  obtain ⟨hb, hcap⟩ := holds_packetHandler hlen (show (f.pkthdr ts).caplen = _ from rfl) lastTs mem
  rw [← hraw] at hb
  have hcaplen : raw.pkthdr.caplen.toNat = f.bytes.length := by
    rw [hraw]
    exact hcap
  exact ⟨hb, hcaplen, layersOK_of_holds hb hcaplen⟩

/-- **What was on the wire.** For every IPv4 frame of at most 256 bytes that is captured in full, the
dissection returns a record with the values of the frame. -/
theorem dissectRawPacket_recovers (f : WireFrame) (hlen : f.bytes.length ≤ 256)
    (ts lastTs : Timeval) (mem : ℕ → UInt8) (prior : PacketInfo) :
    ∃ r, (dissectRawPacket (packetHandler (f.pkthdr ts) (fun i => f.bytes.getD i 0) mem lastTs)
      prior).val = some r ∧ Recovers f r := by
  generalize hraw : packetHandler (f.pkthdr ts) (fun i => f.bytes.getD i 0) mem lastTs = raw
  obtain ⟨hb, hcap, hl⟩ := layersOK_packetHandler hlen hraw.symm
  obtain ⟨t, ht, hcarries⟩ := hl.transport
  obtain ⟨r, hr, hh, hplen, v, hpay⟩ := dissectRawPacket_wire hl ht prior
  have hmin : min raw.pkthdr.caplen.toNat maxPayloadSize = f.bytes.length := by
    unfold maxPayloadSize
    omega
  refine ⟨r, hr, recovers_of_headers hlen hh hcarries hl.vlan ?_ ?_⟩
  · rw [hplen, hmin, UInt16.toNat_ofNat']
    omega
  · rw [hpay, hmin, hb.map_range]
    exact take_toList_writeAt v f.bytes hlen

/-- The tag of VLAN 12. -/
def vlanTwelve : WireTag := ⟨false, 0, false, 12⟩

/-- The header of a segment to port 443. -/
def httpsSegment (window : UInt16) : WireTcp := ⟨40000, 443, 1, 1, 0, 0x18, window, 0, 0, .none⟩

/-- A DNS query in a doubly tagged frame with IP options. -/
def taggedQuery : WireFrame where
  dstMac := #v[0x52, 0x54, 0, 0, 0, 1]
  srcMac := #v[0x52, 0x54, 0, 0, 0, 2]
  tags := [⟨true, 0, false, 7⟩, ⟨false, 5, true, 4095⟩]
  ip := {
    tos := 0, id := 0x1234, reserved := false, df := true, mf := false, fragOffset := 0, ttl := 64
    checksum := 0xbeef, src := #v[10, 0, 0, 1], dst := #v[10, 0, 0, 2]
    options := ⟨[1, 1, 1, 0], 1, rfl⟩ }
  l4 := .udp ⟨40000, 53, 0⟩
  payload := [0xab, 0xcd, 1, 0, 0, 1, 0, 0, 0, 0, 0, 0]

theorem taggedQuery_recovered :
    taggedQuery.bytes.length ≤ 256 ∧
    ∃ r, (dissectRawPacket (packetHandler (taggedQuery.pkthdr ⟨0, 0⟩)
      (fun i => taggedQuery.bytes.getD i 0) (fun _ => 0) ⟨0, 0⟩) PacketInfo.zero).val = some r ∧
      Recovers taggedQuery r :=
  have hlen : taggedQuery.bytes.length ≤ 256 := by decide
  ⟨hlen, dissectRawPacket_recovers taggedQuery hlen ⟨0, 0⟩ ⟨0, 0⟩ (fun _ => 0) PacketInfo.zero⟩

end Pacsni.Capture.Wire4
