import Pacsni.Capture.Wire4

/-! # IPv6 in the layer parsers

Two places where the code treats the two IP versions alike although their headers differ, or two
kinds of extension headers differently although they are read alike.

* `parse_transport_layer` takes the TCP payload length from the 16 bits at offset 2 of the IP header.
  In IPv4 this is the total length; in IPv6 it is the low half of the flow label.
* The extension header loop of `dissect_raw_packet` checks the capture length before it reads an
  options or routing header, but not before it reads a fragment header. -/

namespace Pacsni.Capture.Ipv6

open Pacsni.Lib.Bytes Pacsni.Lib.Trace
open Pacsni.Capture.Types Pacsni.Capture.Layers Pacsni.Capture.Raw Pacsni.Capture.LayerSpec
open Pacsni.Capture.Stages Pacsni.Capture.Wire4

variable {packet : ℕ → UInt8}

/-! ### The TCP payload length -/

/-- The 16-bit field at offset `i` of the header at `h`. -/
def field16 (packet : ℕ → UInt8) (h i : ℕ) : ℕ := (be16 (packet (h + i)) (packet (h + i + 1))).toNat

/-- The length of the TCP header at `off`, from its data offset. -/
def dataOffset (packet : ℕ → UInt8) (off : ℕ) : ℕ := ((packet (off + 12) >>> 4) &&& 0x0f).toNat * 4

/-- The TCP payload size that the IP header at `h` declares, for TCP right behind it: the total length
less both headers in IPv4, the payload length less the TCP header in IPv6. -/
def declaredPayload (packet : ℕ → UInt8) (h : ℕ) : ℤ :=
  if IsV4 packet h then
    (field16 packet h 2 : ℤ) - ((packet h &&& 0x0f).toNat * 4 : ℕ) -
      dataOffset packet (h + ipHeaderLen packet h)
  else (field16 packet h 4 : ℤ) - dataOffset packet (h + ipHeaderLen packet h)

theorem payloadLen_of_tcp {caplen h : ℕ} {ip : IpInfo} {t : TransportInfo}
    (hip : IpOK packet h ip) (htcp : ip.protocol = 6)
    (ht : (parseTransportLayer packet caplen h ip).val = some t) :
    t.payloadLen = (field16 packet h 2 : ℤ) - ipHeaderLen packet h -
      dataOffset packet (h + ipHeaderLen packet h) := by
  unfold parseTransportLayer at ht
  rw [if_pos htcp, hip.headerLen] at ht
  rcases @parseTcp_spec packet caplen 0 (fun _ => True) trivial (h + ipHeaderLen packet h) ip with
    ⟨hl, hat, hval, -⟩ | ⟨-, hval, -⟩
  · rw [hval] at ht
    obtain rfl := Option.some.inj ht
    simp only [tcpInfo, hip.header, hip.headerLen, field16, dataOffset, hat.1]
  · rw [hval] at ht
    exact absurd ht (by simp)

/-- **TCP payload length.** The payload length of an accepted TCP segment is the one that the IP header
declares exactly for IPv4, and for the IPv6 headers whose low flow label bits happen to be the payload
length plus 40. -/
theorem payloadLen_eq_declared_iff {caplen h : ℕ} {ip : IpInfo} {t : TransportInfo}
    (hip : (parseIpLayer packet caplen h).val = some ip) (htcp : ip.protocol = 6)
    (ht : (parseTransportLayer packet caplen h ip).val = some t) :
    t.payloadLen = declaredPayload packet h ↔
      IsV4 packet h ∨ field16 packet h 2 = field16 packet h 4 + 40 := by
  have hok := (ipOK_of_parse hip).2
  rw [payloadLen_of_tcp hok htcp ht]
  unfold declaredPayload
  by_cases h4 : IsV4 packet h
  · have hlen : ipHeaderLen packet h = (packet h &&& 0x0f).toNat * 4 := by
      rw [ipHeaderLen, if_pos h4]
    rw [if_pos h4, ← hlen]
    exact ⟨fun _ => Or.inl h4, fun _ => rfl⟩
  · have hlen : ipHeaderLen packet h = 40 := by rw [ipHeaderLen, if_neg h4]
    rw [if_neg h4, hlen]
    simp only [h4, false_or]
    omega

/-- An IPv6 header with flow label 0 and payload length 120, and a TCP header of 20 bytes behind it. -/
def tcpFrame6 : List UInt8 :=
  List.replicate 12 0 ++ [0x86, 0xdd] ++ [0x60, 0, 0, 0, 0, 120, 6, 64] ++ List.replicate 32 1 ++
    [0x9c, 0x40, 1, 0xbb, 0, 0, 0, 1, 0, 0, 0, 1, 0x50, 0x18, 1, 0, 0, 0, 0, 0]

/-- The segment carries 100 bytes; the code says -60. -/
theorem tcpFrame6_payloadLen_wrong : ∃ ip t,
    (parseIpLayer (tcpFrame6.getD · 0) 74 14).val = some ip ∧ ip.protocol = 6 ∧
    (parseTransportLayer (tcpFrame6.getD · 0) 74 14 ip).val = some t ∧
    declaredPayload (tcpFrame6.getD · 0) 14 = 100 ∧ t.payloadLen = -60 :=
  ⟨_, _, rfl, rfl, rfl, by decide, by decide⟩

/-- An IPv4 header of total length 45 and a TCP header of 20 bytes behind it. -/
def tcpFrame4 : List UInt8 :=
  List.replicate 12 0 ++ [8, 0] ++ [0x45, 0, 0, 45, 0, 1, 0, 0, 64, 6, 0, 0] ++ List.replicate 8 1 ++
    [0x9c, 0x40, 1, 0xbb, 0, 0, 0, 1, 0, 0, 0, 1, 0x50, 0x18, 1, 0, 0, 0, 0, 0]

theorem tcpFrame4_payloadLen : ∃ ip t,
    (parseIpLayer (tcpFrame4.getD · 0) 54 14).val = some ip ∧ ip.protocol = 6 ∧
    (parseTransportLayer (tcpFrame4.getD · 0) 54 14 ip).val = some t ∧
    t.payloadLen = declaredPayload (tcpFrame4.getD · 0) 14 :=
  have hip : (parseIpLayer (tcpFrame4.getD · 0) 54 14).val = some _ := rfl
  ⟨_, _, rfl, rfl, rfl, (payloadLen_eq_declared_iff hip rfl rfl).mpr (Or.inl (by decide))⟩

/-! ### The extension header loop -/

/-- An options or routing header. -/
def IsOptions (nxt : UInt8) : Prop := nxt = 0 ∨ nxt = 43 ∨ nxt = 60

instance (nxt : UInt8) : Decidable (IsOptions nxt) := inferInstanceAs (Decidable (_ ∨ _))

/-- The chain of headers behind the IPv6 header at `h`: header number `k` behind it is of type `nxt` and
starts at `off`. An options or routing header is followed if it begins with 8 captured bytes, a fragment
header if its first byte is captured. -/
inductive ChainAt (packet : ℕ → UInt8) (caplen h : ℕ) : ℕ → UInt8 → ℕ → Prop
  | first : ChainAt packet caplen h 0 (packet (h + 6)) (h + 40)
  | options {k off : ℕ} {nxt : UInt8} (hc : ChainAt packet caplen h k nxt off) (ho : IsOptions nxt)
      (hfit : off + 8 ≤ caplen) :
      ChainAt packet caplen h (k + 1) (packet off) (off + ((packet (off + 1)).toNat + 1) * 8)
  | fragment {k off : ℕ} (hc : ChainAt packet caplen h k 44 off) (hfit : off < caplen) :
      ChainAt packet caplen h (k + 1) (packet off) (off + 8)

theorem not_isOptions_fragment : ¬ IsOptions 44 := by decide

theorem ChainAt.unique {caplen h k off off' : ℕ} {nxt nxt' : UInt8}
    (hc : ChainAt packet caplen h k nxt off) (hc' : ChainAt packet caplen h k nxt' off') :
    nxt = nxt' ∧ off = off' := by
  induction hc generalizing nxt' off' with
  | first =>
    cases hc'
    exact ⟨rfl, rfl⟩
  | options hc ho hfit ih =>
    cases hc' with
    | options hc' ho' hfit' =>
      obtain ⟨-, rfl⟩ := ih hc'
      exact ⟨rfl, rfl⟩
    | fragment hc' hfit' =>
      obtain ⟨rfl, -⟩ := ih hc'
      exact absurd ho not_isOptions_fragment
  | fragment hc hfit ih =>
    cases hc' with
    | options hc' ho' hfit' =>
      obtain ⟨rfl, -⟩ := ih hc'
      exact absurd ho' not_isOptions_fragment
    | fragment hc' hfit' =>
      obtain ⟨-, rfl⟩ := ih hc'
      exact ⟨rfl, rfl⟩

/-- A header further down the chain was reached over the header in between. -/
theorem ChainAt.succ_of_lt {caplen h k k' off off' : ℕ} {nxt nxt' : UInt8}
    (hc : ChainAt packet caplen h k nxt off) (hc' : ChainAt packet caplen h k' nxt' off')
    (hlt : k < k') : (IsOptions nxt ∧ off + 8 ≤ caplen) ∨ (nxt = 44 ∧ off < caplen) := by
  induction hc' with
  | first => exact absurd hlt (Nat.not_lt_zero k)
  | @options j o n hc' ho hfit ih =>
    rcases Nat.lt_succ_iff_lt_or_eq.mp hlt with hlt | rfl
    · exact ih hlt
    · obtain ⟨rfl, rfl⟩ := hc.unique hc'
      exact Or.inl ⟨ho, hfit⟩
  | @fragment j o hc' hfit ih =>
    rcases Nat.lt_succ_iff_lt_or_eq.mp hlt with hlt | rfl
    · exact ih hlt
    · obtain ⟨rfl, rfl⟩ := hc.unique hc'
      exact Or.inr ⟨rfl, hfit⟩

/-- One of the headers from number `j` to number 9 is a fragment header that starts behind the
captured bytes. -/
def CutFragment (packet : ℕ → UInt8) (caplen h j : ℕ) : Prop :=
  ∃ k off, j ≤ k ∧ k < 10 ∧ ChainAt packet caplen h k 44 off ∧ caplen ≤ off

/-- A cut fragment header lies behind a header that is followed. -/
theorem cutFragment_succ {caplen h k off : ℕ} {nxt : UInt8} (hc : ChainAt packet caplen h k nxt off)
    (hfit : nxt = 44 → off < caplen) :
    CutFragment packet caplen h k ↔ CutFragment packet caplen h (k + 1) := by
  constructor
  · rintro ⟨k', off', hle, hlt, hc', hcut⟩
    rcases eq_or_lt_of_le hle with rfl | hlt'
    · obtain ⟨rfl, rfl⟩ := hc.unique hc'
      exact absurd (hfit rfl) (by omega)
    · exact ⟨k', off', hlt', hlt, hc', hcut⟩
  · rintro ⟨k', off', hle, hlt, hc', hcut⟩
    exact ⟨k', off', by omega, hlt, hc', hcut⟩

/-- Nothing is cut behind a header that ends the chain. -/
theorem not_cutFragment_of_stop {caplen h k off : ℕ} {nxt : UInt8}
    (hc : ChainAt packet caplen h k nxt off) (h44 : nxt ≠ 44)
    (hstop : ¬ (IsOptions nxt ∧ off + 8 ≤ caplen)) : ¬ CutFragment packet caplen h k := by
  rintro ⟨k', off', hle, -, hc', -⟩
  rcases eq_or_lt_of_le hle with rfl | hlt
  · exact h44 (hc.unique hc').1
  · rcases hc.succ_of_lt hc' hlt with h | h
    · exact hstop h
    · exact h44 h.1

/-- The reads of the loop from header number `10 - k` on. -/
theorem staysBelow_extLoop {caplen : UInt32} {h : ℕ} (hcap : caplen.toNat < 2 ^ 31) :
    ∀ {k j : ℕ} {nxt : UInt8} {off : ℕ} (info : PacketInfo), j + k = 10 →
      ChainAt packet caplen.toNat h j nxt off →
      (StaysBelow (fun _ => True) caplen.toNat (extLoop packet caplen k nxt off info).log ↔
        ¬ CutFragment packet caplen.toNat h j)
  | 0, j, nxt, off, info, hj, hc => by
    refine ⟨fun _ => ?_, fun _ => staysBelow_nil _ _⟩
    rintro ⟨k, off', hle, hlt, -⟩
    omega
  | k + 1, j, nxt, off, info, hj, hc => by
    have hint := asInt_of_lt hcap
    unfold extLoop
    dsimp only
    by_cases hopt : IsOptions nxt
    · have h44 : nxt ≠ 44 := fun h => not_isOptions_fragment (h ▸ hopt)
      rw [if_pos (show nxt = 0 ∨ nxt = 43 ∨ nxt = 60 from hopt)]
      by_cases hfit : asInt caplen < off + 8
      · rw [if_pos hfit]
        refine ⟨fun _ => not_cutFragment_of_stop hc h44 fun h => ?_, fun _ => staysBelow_nil _ _⟩
        omega
      · rw [if_neg hfit]
        have hfit' : off + 8 ≤ caplen.toNat := by omega
        have ih := staysBelow_extLoop hcap { info with ipv6ExtCount := info.ipv6ExtCount + 1 }
          (show j + 1 + k = 10 by omega) (hc.options hopt hfit')
        rw [cutFragment_succ hc fun h => absurd h h44, ← ih]
        simp only [log_bind, log_load8, val_load8, staysBelow_append, staysBelow_cons,
          staysBelow_nil, true_implies, and_true]
        refine ⟨fun h => h.2.2, fun h => ⟨by omega, by omega, h⟩⟩
    · rw [if_neg (show ¬ (nxt = 0 ∨ nxt = 43 ∨ nxt = 60) from hopt)]
      by_cases h44 : nxt = 44
      · rw [if_pos h44]
        subst h44
        simp only [log_bind, log_load8, val_load8, staysBelow_append, staysBelow_cons,
          staysBelow_nil, true_implies, and_true]
        by_cases hfit : off < caplen.toNat
        · have ih := staysBelow_extLoop hcap
            { info with isFragment := 1, ipv6ExtCount := info.ipv6ExtCount + 1 }
            (show j + 1 + k = 10 by omega) (hc.fragment hfit)
          rw [cutFragment_succ hc fun _ => hfit, ← ih]
          exact ⟨fun h => h.2, fun h => ⟨by omega, h⟩⟩
        · -- the one read that no check guards
          refine ⟨fun h => absurd h.1 (by omega), fun h => absurd ?_ h⟩
          exact ⟨j, off, le_rfl, by omega, hc, by omega⟩
      · rw [if_neg h44]
        exact ⟨fun _ => not_cutFragment_of_stop hc h44 fun h => hopt h.1, fun _ => staysBelow_nil _ _⟩

/-- **The extension walk.** On a frame of at most 256 bytes with an accepted IPv6 header, every byte that
the extension header loop reads is captured, exactly if the chain has no fragment header that starts
behind the captured bytes. -/
theorem extLoop_inBounds_iff {raw : RawPacket} {eth : EthernetInfo} {ip : IpInfo}
    (hcap : raw.pkthdr.caplen.toNat ≤ 256)
    (hip : (parseIpLayer raw.data raw.pkthdr.caplen.toNat eth.headerLen).val = some ip)
    (h6 : ip.isIpv6 = true) (info : PacketInfo) :
    StaysBelow (fun _ => True) raw.pkthdr.caplen.toNat
      (extLoop raw.data raw.pkthdr.caplen 10 (raw.data (ip.header + 6))
        ((ipFields eth ip (initInfo raw eth).val).l3Offset.toNat + 40) info).log ↔
      ¬ CutFragment raw.data raw.pkthdr.caplen.toNat eth.headerLen 0 := by
  rcases @parseIpLayer_spec raw.data raw.pkthdr.caplen.toNat 0 (fun _ => True) trivial
      eth.headerLen with ⟨hl, -, hval, -⟩ | ⟨hat, ⟨ip', hval, hh, -, -, -⟩, -⟩ | ⟨-, -, hval, -⟩
  · rw [hval] at hip
    rw [← Option.some.inj hip] at h6
    exact absurd h6 (by simp [ipv4Info])
  · rw [hval] at hip
    obtain rfl := Option.some.inj hip
    have hfit := hat.2
    have hoff : (ipFields eth ip' (initInfo raw eth).val).l3Offset.toNat = eth.headerLen := by
      show (UInt8.ofNat eth.headerLen).toNat = _
      rw [UInt8.toNat_ofNat']
      omega
    rw [hoff, hh]
    exact staysBelow_extLoop (by omega) info (Nat.zero_add 10) .first
  · rw [hval] at hip
    exact absurd hip (by simp)

/-- A capture of 54 bytes: an IPv6 header that announces a fragment header, and nothing behind it. -/
def fragmentFrame : List UInt8 :=
  List.replicate 12 0 ++ [0x86, 0xdd] ++ [0x60, 0, 0, 0, 0, 8, 44, 64] ++ List.replicate 32 1

/-- The raw packet of the capture. -/
def fragmentRaw : RawPacket := ⟨⟨⟨0, 0⟩, 54, 62⟩, (fragmentFrame.getD · 0), 0⟩

/-- The loop reads byte 54 of a capture of 54 bytes. -/
theorem fragmentRaw_reads_behind_capture : ∃ eth ip,
    (parseEthernetLayer fragmentRaw.data fragmentRaw.pkthdr.caplen.toNat).val = some eth ∧
    (parseIpLayer fragmentRaw.data fragmentRaw.pkthdr.caplen.toNat eth.headerLen).val = some ip ∧
    ip.isIpv6 = true ∧
    ∃ a ∈ (extLoop fragmentRaw.data fragmentRaw.pkthdr.caplen 10 (fragmentRaw.data (ip.header + 6))
        ((ipFields eth ip (initInfo fragmentRaw eth).val).l3Offset.toNat + 40) PacketInfo.zero).log,
      a.start = 54 := by
  have hdepth : TagDepth fragmentRaw.data 54 0 :=
    ⟨by decide, fun j hj => absurd hj (Nat.not_lt_zero j), by decide⟩
  refine ⟨_, _, parseEthernetLayer_of_tagDepth hdepth, rfl, rfl, ?_⟩
  exact ⟨⟨.read .dissectRawPacket, 54, 1⟩, List.mem_cons_self, rfl⟩

/-- An IPv6 header with a destination options header in front of TCP. -/
def optionsFrame : List UInt8 :=
  List.replicate 12 0 ++ [0x86, 0xdd] ++ [0x60, 0, 0, 0, 0, 28, 60, 64] ++ List.replicate 32 1 ++
    [6, 0, 1, 4, 0, 0, 0, 0] ++ List.replicate 20 0

def optionsRaw : RawPacket := ⟨⟨⟨0, 0⟩, 82, 82⟩, (optionsFrame.getD · 0), 0⟩

theorem optionsRaw_reads_inside : ∃ eth ip,
    optionsRaw.pkthdr.caplen.toNat ≤ 256 ∧
    (parseIpLayer optionsRaw.data optionsRaw.pkthdr.caplen.toNat eth.headerLen).val = some ip ∧
    ip.isIpv6 = true ∧
    StaysBelow (fun _ => True) optionsRaw.pkthdr.caplen.toNat
      (extLoop optionsRaw.data optionsRaw.pkthdr.caplen 10 (optionsRaw.data (ip.header + 6))
        ((ipFields eth ip (initInfo optionsRaw eth).val).l3Offset.toNat + 40) PacketInfo.zero).log := by
  have hcap : optionsRaw.pkthdr.caplen.toNat ≤ 256 := by decide
  have hip : (parseIpLayer optionsRaw.data optionsRaw.pkthdr.caplen.toNat
      (ethOf optionsRaw.data 0).headerLen).val = some _ := rfl
  have hfirst : ChainAt optionsRaw.data 82 14 0 60 54 := .first
  have hnext : ChainAt optionsRaw.data 82 14 1 6 62 := hfirst.options (by decide) (by decide)
  have hcut : ¬ CutFragment optionsRaw.data 82 14 0 := by
    rw [cutFragment_succ hfirst (by decide)]
    exact not_cutFragment_of_stop hnext (by decide) (by decide)
  exact ⟨_, _, hcap, hip, rfl, (extLoop_inBounds_iff hcap hip rfl PacketInfo.zero).mpr hcut⟩

end Pacsni.Capture.Ipv6
