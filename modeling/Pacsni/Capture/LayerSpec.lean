import Pacsni.Capture.Layers

/-! # What the layer parsers promise

For each layer parser: on which frames it accepts, the fields the next layer builds on, and up to
which byte its reads reach (`StaysBelow S n`, for any set `S` of sites that contains its own).

A frame has *tag depth* `k` if `k` is the number of 802.1Q/802.1ad tags the tag loop walks over: the
first `k` ethertypes announce a tag, and the next one does not or is cut off by the capture. -/

namespace Pacsni.Capture.LayerSpec

open Pacsni.Lib.Bytes Pacsni.Lib.Trace Pacsni.Lib.CBuffer
open Pacsni.Capture.Types Pacsni.Capture.Layers

variable {packet : ℕ → UInt8} {caplen n : ℕ} {S : Site → Prop}

/-! ### Ethernet -/

/-- The ethertype behind `k` tags. -/
def etypeAt (packet : ℕ → UInt8) (k : ℕ) : UInt16 := be16 (packet (12 + 4 * k)) (packet (13 + 4 * k))

/-- The VLAN identifier of tag `k`. -/
def vidAt (packet : ℕ → UInt8) (k : ℕ) : UInt16 :=
  be16 (packet (14 + 4 * k)) (packet (15 + 4 * k)) &&& 0x0FFF

/-- The tag loop walks over exactly `k` tags. -/
structure TagDepth (packet : ℕ → UInt8) (caplen k : ℕ) : Prop where
  fits : 14 + 4 * k ≤ caplen
  tags : ∀ j < k, IsTag (etypeAt packet j)
  stop : ¬ (IsTag (etypeAt packet k) ∧ 18 + 4 * k ≤ caplen)

theorem TagDepth.le {k k' : ℕ} (h : TagDepth packet caplen k) (h' : TagDepth packet caplen k') :
    k' ≤ k := by
  by_contra hlt
  have := h'.fits
  exact h.stop ⟨h'.tags k (by omega), by omega⟩

theorem TagDepth.unique {k k' : ℕ} (h : TagDepth packet caplen k)
    (h' : TagDepth packet caplen k') : k = k' := le_antisymm (h'.le h) (h.le h')

/-- The tag loop from tag `j` on: its result, and how far it reads. -/
theorem tagLoop_spec (hS : S (.read .parseEthernetLayer)) (j : ℕ) (v : UInt16)
    (hfit : 14 + 4 * j ≤ caplen) (htags : ∀ i < j, IsTag (etypeAt packet i)) :
    ∃ k, j ≤ k ∧ TagDepth packet caplen k ∧
      (tagLoop packet caplen (14 + 4 * j) (etypeAt packet j) v).val =
        ⟨0, 14 + 4 * k, etypeAt packet k, if k = j then v else vidAt packet (k - 1)⟩ ∧
      (StaysBelow S n (tagLoop packet caplen (14 + 4 * j) (etypeAt packet j) v).log ↔
        k = j ∨ 14 + 4 * k ≤ n) := by
  by_cases hc : IsTag (etypeAt packet j) ∧ 14 + 4 * j + 4 ≤ caplen
  · obtain ⟨k, hjk, hk, hval, hlog⟩ := tagLoop_spec hS (j + 1) (vidAt packet j) (by omega)
      (fun i hi => (Nat.lt_succ_iff_lt_or_eq.mp hi).elim (htags i) (fun h => h ▸ hc.1))
    have hnext : etypeAt packet (j + 1) =
        be16 (packet (14 + 4 * j + 2)) (packet (14 + 4 * j + 2 + 1)) := by
      unfold etypeAt; congr 2 <;> omega
    have hvid : vidAt packet j = be16 (packet (14 + 4 * j)) (packet (14 + 4 * j + 1)) &&& 0x0FFF := by
      unfold vidAt; congr 3; omega
    rw [hnext, hvid, show 14 + 4 * (j + 1) = 14 + 4 * j + 4 by omega] at hval hlog
    refine ⟨k, by omega, hk, ?_, ?_⟩
    · rw [tagLoop, if_pos hc]
      simp only [val_bind, val_load16]
      rw [hval, if_neg (show k ≠ j by omega)]
      split_ifs with h
      · rw [h, ← hvid]; rfl
      · rfl
    · rw [tagLoop, if_pos hc]
      simp only [log_bind, log_load16, val_load16, staysBelow_append, staysBelow_cons, hS,
        true_implies, staysBelow_nil, and_true, hlog]
      omega
  · refine ⟨j, le_rfl, ⟨hfit, htags, fun h => hc ⟨h.1, by omega⟩⟩, ?_, ?_⟩
    · rw [tagLoop, if_neg hc]; simp
    · rw [tagLoop, if_neg hc]; simp
termination_by caplen - 4 * j

theorem parseEthernetLayer_short (h : caplen < 14) : parseEthernetLayer packet caplen = pure none := by
  unfold parseEthernetLayer; rw [if_pos h]

/-- **Ethernet.** A frame of at least 14 bytes is accepted; its header ends behind its tags, and
the reads reach exactly to the end of the header. -/
theorem parseEthernetLayer_spec (hS : S (.read .parseEthernetLayer)) (hcap : 14 ≤ caplen) :
    ∃ k, TagDepth packet caplen k ∧
      (parseEthernetLayer packet caplen).val =
        some ⟨0, 14 + 4 * k, etypeAt packet k, if k = 0 then 0 else vidAt packet (k - 1)⟩ ∧
      (StaysBelow S n (parseEthernetLayer packet caplen).log ↔ 14 + 4 * k ≤ n) := by
  have htags : ∀ i < 0, IsTag (etypeAt packet i) := fun i hi => absurd hi (Nat.not_lt_zero i)
  obtain ⟨k, -, hk, hval, hlog⟩ := tagLoop_spec (n := n) hS 0 0 (show 14 + 4 * 0 ≤ caplen by omega) htags
  refine ⟨k, hk, ?_, ?_⟩
  · rw [parseEthernetLayer, if_neg (by omega)]
    simp only [val_bind, val_load16, val_pure]
    exact congrArg some hval
  · rw [parseEthernetLayer, if_neg (by omega)]
    simp only [log_bind, log_load16, val_load16, log_pure, staysBelow_append, staysBelow_cons, hS,
      true_implies, staysBelow_nil, and_true]
    have := hlog
    simp only [etypeAt, Nat.mul_zero, Nat.add_zero] at this
    rw [this]
    omega

/-! ### IP -/

/-- An IPv4 header of `hl` bytes at `h` that the parser accepts. -/
def Ipv4At (packet : ℕ → UInt8) (caplen h hl : ℕ) : Prop :=
  (packet h >>> 4) &&& 0x0f = 4 ∧ hl = (packet h &&& 0x0f).toNat * 4 ∧ 20 ≤ hl ∧ h + hl ≤ caplen

instance (packet : ℕ → UInt8) (caplen h hl : ℕ) : Decidable (Ipv4At packet caplen h hl) :=
  inferInstanceAs (Decidable (_ ∧ _))

/-- An IPv6 header at `h` that the parser accepts. -/
def Ipv6At (packet : ℕ → UInt8) (caplen h : ℕ) : Prop :=
  (packet h >>> 4) &&& 0x0f = 6 ∧ h + 40 ≤ caplen

/-- The value of an accepted IPv4 header. -/
def ipv4Info (packet : ℕ → UInt8) (h hl : ℕ) : IpInfo where
  header := h
  headerLen := hl
  srcIp := writeAt (zeros 16) 12 ((List.range 4).map fun k => packet (h + 12 + k))
  dstIp := writeAt (zeros 16) 12 ((List.range 4).map fun k => packet (h + 16 + k))
  protocol := packet (h + 9)
  ttl := packet (h + 8)
  tos := packet (h + 1)
  id := be16 (packet (h + 4)) (packet (h + 4 + 1))
  isIpv6 := false
  isFragment := be16 (packet (h + 6)) (packet (h + 6 + 1)) &&& (0x2000 ||| 0x1fff) ≠ 0

/-- **IP.** What `parse_ip_layer` accepts, and how far it reads: the fixed part of the header. -/
theorem parseIpLayer_spec (hS : S (.read .parseIpLayer)) (h : ℕ) :
    (∃ hl, Ipv4At packet caplen h hl ∧
      (parseIpLayer packet caplen h).val = some (ipv4Info packet h hl) ∧
      (StaysBelow S n (parseIpLayer packet caplen h).log ↔ h + 20 ≤ n)) ∨
    (Ipv6At packet caplen h ∧ (∃ ip, (parseIpLayer packet caplen h).val = some ip ∧ ip.header = h ∧
        ip.headerLen = 40 ∧ ip.protocol = packet (h + 6) ∧ ip.isIpv6 = true) ∧
      (StaysBelow S n (parseIpLayer packet caplen h).log ↔ h + 40 ≤ n)) ∨
    ((∀ hl, ¬ Ipv4At packet caplen h hl) ∧ ¬ Ipv6At packet caplen h ∧
      (parseIpLayer packet caplen h).val = none ∧
      ((h + 1 ≤ caplen → h + 1 ≤ n) → StaysBelow S n (parseIpLayer packet caplen h).log)) := by
  unfold parseIpLayer
  by_cases h0 : caplen < h + 1
  · right; right
    rw [if_pos h0]
    exact ⟨fun hl hh => by have := hh.2; omega, fun hh => by have := hh.2; omega, rfl, fun _ => by simp⟩
  rw [if_neg h0]
  simp only [val_bind, log_bind, val_load8, log_load8]
  by_cases h4 : (packet h >>> 4) &&& 0x0f = 4
  · have hn6 : ¬ Ipv6At packet caplen h := fun hh => by rw [hh.1] at h4; exact absurd h4 (by decide)
    simp only [h4, ↓reduceIte, parseIpv4]
    by_cases h20 : caplen < h + 20
    · right; right
      rw [if_pos h20]
      refine ⟨fun hl hh => by have := hh.2; omega, hn6, rfl, fun hn => ?_⟩
      simp [hS]; omega
    rw [if_neg h20]
    simp only [val_bind, log_bind, val_load8, log_load8]
    by_cases hbad : (packet h &&& 0x0f).toNat * 4 < 20 ∨ caplen < h + (packet h &&& 0x0f).toNat * 4
    · right; right
      simp only [hbad, ↓reduceIte]
      refine ⟨fun hl' hh => ?_, hn6, rfl, fun hn => ?_⟩
      · have := hh.2; omega
      · simp [hS]; omega
    · left
      refine ⟨_, ⟨h4, rfl, by omega, by omega⟩, ?_, ?_⟩
      · simp only [hbad, ↓reduceIte, val_bind, val_loadBytes, val_load8, val_load16, val_pure]
        rfl
      · simp only [hbad, ↓reduceIte, log_bind, log_loadBytes, log_load8, log_load16, log_pure, staysBelow_append,
          staysBelow_cons, hS, true_implies, staysBelow_nil, and_true]
        omega
  · have hn4 : ∀ hl, ¬ Ipv4At packet caplen h hl := fun hl hh => h4 hh.1
    simp only [h4, ↓reduceIte]
    by_cases h6 : (packet h >>> 4) &&& 0x0f = 6
    · simp only [h6, ↓reduceIte, parseIpv6]
      by_cases h40 : caplen < h + 40
      · right; right
        rw [if_pos h40]
        refine ⟨hn4, fun hh => by have := hh.2; omega, rfl, fun hn => ?_⟩
        simp [hS]; omega
      · right; left
        rw [if_neg h40]
        refine ⟨⟨h6, by omega⟩, ⟨_, rfl, rfl, rfl, rfl, rfl⟩, ?_⟩
        simp only [log_bind, log_loadBytes, log_load8, log_load32, log_pure, staysBelow_append,
          staysBelow_cons, hS, true_implies, staysBelow_nil, and_true]
        omega
    · right; right
      simp only [h6, ↓reduceIte]
      refine ⟨hn4, fun hh => h6 hh.1, rfl, fun hn => ?_⟩
      simp [hS]; omega

/-- The header at `h` is of version 4. -/
def IsV4 (packet : ℕ → UInt8) (h : ℕ) : Prop := (packet h >>> 4) &&& 0x0f = 4

instance (packet : ℕ → UInt8) (h : ℕ) : Decidable (IsV4 packet h) :=
  inferInstanceAs (Decidable (_ = _))

/-- An IP header at `h` that the parser accepts. -/
def IpAt (packet : ℕ → UInt8) (caplen h : ℕ) : Prop :=
  (∃ hl, Ipv4At packet caplen h hl) ∨ Ipv6At packet caplen h

/-- The length of the IP header at `h`. -/
def ipHeaderLen (packet : ℕ → UInt8) (h : ℕ) : ℕ :=
  if IsV4 packet h then (packet h &&& 0x0f).toNat * 4 else 40

/-- The length of the part of the IP header at `h` that is there without options. -/
def ipFixedLen (packet : ℕ → UInt8) (h : ℕ) : ℕ := if IsV4 packet h then 20 else 40

/-- The protocol that the IP header at `h` announces. -/
def ipProtocol (packet : ℕ → UInt8) (h : ℕ) : UInt8 :=
  if IsV4 packet h then packet (h + 9) else packet (h + 6)

/-- What the later layers use of the result of `parse_ip_layer`. -/
structure IpOK (packet : ℕ → UInt8) (h : ℕ) (ip : IpInfo) : Prop where
  header : ip.header = h
  headerLen : ip.headerLen = ipHeaderLen packet h
  protocol : ip.protocol = ipProtocol packet h
  isIpv6 : ip.isIpv6 = decide (¬ IsV4 packet h)

theorem Ipv4At.isV4 {h hl : ℕ} (h4 : Ipv4At packet caplen h hl) : IsV4 packet h := h4.1

theorem Ipv6At.not_isV4 {h : ℕ} (h6 : Ipv6At packet caplen h) : ¬ IsV4 packet h := by
  unfold IsV4
  rw [h6.1]
  decide

theorem IpAt.fits {h : ℕ} (hip : IpAt packet caplen h) : h + ipHeaderLen packet h ≤ caplen := by
  unfold ipHeaderLen
  rcases hip with ⟨hl, h4⟩ | h6
  · obtain ⟨-, hhl, -, hfit⟩ := id h4
    rw [if_pos h4.isV4]; omega
  · rw [if_neg h6.not_isV4]; exact h6.2

theorem IpAt.fixed_le {h : ℕ} (hip : IpAt packet caplen h) :
    ipFixedLen packet h ≤ ipHeaderLen packet h := by
  unfold ipFixedLen ipHeaderLen
  rcases hip with ⟨hl, h4⟩ | h6
  · obtain ⟨-, hhl, h20, -⟩ := id h4
    rw [if_pos h4.isV4, if_pos h4.isV4]; omega
  · rw [if_neg h6.not_isV4, if_neg h6.not_isV4]

/-- The two versions of `parseIpLayer_spec` in one statement. -/
theorem parseIpLayer_cases (hS : S (.read .parseIpLayer)) (h : ℕ) :
    (∃ ip, IpAt packet caplen h ∧ IpOK packet h ip ∧ (parseIpLayer packet caplen h).val = some ip ∧
      (StaysBelow S n (parseIpLayer packet caplen h).log ↔ h + ipFixedLen packet h ≤ n)) ∨
    (¬ IpAt packet caplen h ∧ (parseIpLayer packet caplen h).val = none ∧
      ((h + 1 ≤ caplen → h + 1 ≤ n) → StaysBelow S n (parseIpLayer packet caplen h).log)) := by
  rcases @parseIpLayer_spec packet caplen n S hS h with
    ⟨hl, h4, hval, hlog⟩ | ⟨h6, ⟨ip, hval, h1, h2, h3, h5⟩, hlog⟩ | ⟨hn4, hn6, hval, hlog⟩
  · have hv := h4.isV4
    refine Or.inl ⟨_, Or.inl ⟨hl, h4⟩, ⟨rfl, ?_, ?_, ?_⟩, hval, ?_⟩
    · rw [ipHeaderLen, if_pos hv]; exact h4.2.1
    · rw [ipProtocol, if_pos hv]; rfl
    · simp [ipv4Info, hv]
    · rw [ipFixedLen, if_pos hv]; exact hlog
  · have hv := h6.not_isV4
    refine Or.inl ⟨ip, Or.inr h6, ⟨h1, ?_, ?_, ?_⟩, hval, ?_⟩
    · rw [ipHeaderLen, if_neg hv]; exact h2
    · rw [ipProtocol, if_neg hv]; exact h3
    · rw [h5]; simp [hv]
    · rw [ipFixedLen, if_neg hv]; exact hlog
  · refine Or.inr ⟨?_, hval, hlog⟩
    rintro (⟨hl, h4⟩ | h6)
    · exact hn4 hl h4
    · exact hn6 h6

/-- An accepted IP header. -/
theorem ipOK_of_parse {h : ℕ} {ip : IpInfo} (hip : (parseIpLayer packet caplen h).val = some ip) :
    IpAt packet caplen h ∧ IpOK packet h ip := by
  rcases @parseIpLayer_cases packet caplen 0 (fun _ => True) trivial h with
    ⟨ip', hat, hok, hval, -⟩ | ⟨-, hval, -⟩
  · rw [hval] at hip
    exact ⟨hat, Option.some.inj hip ▸ hok⟩
  · rw [hval] at hip
    cases hip

/-! ### Transport -/

/-- A TCP header of `hl` bytes at `off` that the parser accepts. -/
def TcpAt (packet : ℕ → UInt8) (caplen off hl : ℕ) : Prop :=
  hl = ((packet (off + 12) >>> 4) &&& 0x0f).toNat * 4 ∧ 20 ≤ hl ∧ off + hl ≤ caplen

/-- The value of an accepted TCP header of `hl` bytes at `off`. -/
def tcpInfo (packet : ℕ → UInt8) (off hl : ℕ) (ip : IpInfo) : TransportInfo :=
  { TransportInfo.zero with
    srcPort := be16 (packet off) (packet (off + 1))
    dstPort := be16 (packet (off + 2)) (packet (off + 2 + 1))
    seq := be32 (packet (off + 4)) (packet (off + 4 + 1)) (packet (off + 4 + 2)) (packet (off + 4 + 3))
    ack := be32 (packet (off + 8)) (packet (off + 8 + 1)) (packet (off + 8 + 2)) (packet (off + 8 + 3))
    window := be16 (packet (off + 14)) (packet (off + 14 + 1))
    flags := packet (off + 13)
    payloadPtr := some (off + hl)
    payloadLen := ((be16 (packet (ip.header + 2)) (packet (ip.header + 2 + 1))).toNat : ℤ) -
      ip.headerLen - hl }

/-- The value of an accepted UDP header at `off`. -/
def udpInfo (packet : ℕ → UInt8) (off : ℕ) : TransportInfo :=
  { TransportInfo.zero with
    srcPort := be16 (packet off) (packet (off + 1))
    dstPort := be16 (packet (off + 2)) (packet (off + 2 + 1))
    payloadPtr := some (off + 8)
    payloadLen := ((be16 (packet (off + 4)) (packet (off + 4 + 1))).toNat : ℤ) - 8 }

/-- **TCP.** What the TCP branch accepts, and how far it reads. -/
theorem parseTcp_spec (hS : S (.read .parseTransportLayer)) (off : ℕ) (ip : IpInfo) :
    (∃ hl, TcpAt packet caplen off hl ∧
      (parseTcp packet caplen off ip).val = some (tcpInfo packet off hl ip) ∧
      (StaysBelow S n (parseTcp packet caplen off ip).log ↔ off + 16 ≤ n ∧ ip.header + 4 ≤ n)) ∨
    ((∀ hl, ¬ TcpAt packet caplen off hl) ∧ (parseTcp packet caplen off ip).val = none ∧
      (StaysBelow S n (parseTcp packet caplen off ip).log ↔ caplen < off + 20 ∨ off + 13 ≤ n)) := by
  unfold parseTcp
  by_cases h20 : caplen < off + 20
  · right
    rw [if_pos h20]
    exact ⟨fun hl hh => by have := hh.2; omega, rfl, by simp [h20]⟩
  rw [if_neg h20]
  simp only [val_bind, log_bind, val_load8, log_load8]
  by_cases hbad : ((packet (off + 12) >>> 4) &&& 0x0f).toNat * 4 < 20 ∨
      caplen < off + ((packet (off + 12) >>> 4) &&& 0x0f).toNat * 4
  · right
    simp only [hbad, ↓reduceIte]
    refine ⟨fun hl' hh => ?_, rfl, ?_⟩
    · have h1 := hh.1; have h2 := hh.2; omega
    · simp only [staysBelow_append, staysBelow_cons, hS, true_implies, staysBelow_nil, and_true, log_pure]
      omega
  · left
    refine ⟨_, ⟨rfl, by omega, by omega⟩, ?_, ?_⟩
    · simp only [hbad, ↓reduceIte, val_bind, val_load8, val_load16, val_load32, val_pure]
      rfl
    · simp only [hbad, ↓reduceIte, log_bind, log_load8, log_load16, log_load32, log_pure, staysBelow_append,
        staysBelow_cons, hS, true_implies, staysBelow_nil, and_true]
      omega

/-- **UDP.** What the UDP branch accepts, and how far it reads. -/
theorem parseUdp_spec (hS : S (.read .parseTransportLayer)) (off : ℕ) :
    (off + 8 ≤ caplen ∧ (parseUdp packet caplen off).val = some (udpInfo packet off) ∧
      (StaysBelow S n (parseUdp packet caplen off).log ↔ off + 6 ≤ n)) ∨
    (caplen < off + 8 ∧ (parseUdp packet caplen off).val = none ∧
      StaysBelow S n (parseUdp packet caplen off).log) := by
  unfold parseUdp
  by_cases h8 : caplen < off + 8
  · right
    rw [if_pos h8]
    exact ⟨h8, rfl, by simp⟩
  · left
    rw [if_neg h8]
    refine ⟨by omega, rfl, ?_⟩
    simp only [log_bind, log_load16, log_pure, staysBelow_append, staysBelow_cons, hS, true_implies,
      staysBelow_nil, and_true]
    omega

end Pacsni.Capture.LayerSpec
