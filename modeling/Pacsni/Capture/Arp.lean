import Pacsni.Capture.Offsets
import Pacsni.Lib.Padding

/-! # The addresses of an ARP frame

The body of an ARP frame is eight bytes, then hardware and protocol address of the sender, then those
of the target; a hardware address has `hln` bytes. `dissect_raw_packet` takes the protocol addresses
from behind *two* and *three* hardware addresses, and checks only that there are 28 bytes, the size of
the body for Ethernet. So the addresses are right, and no byte behind the capture is read, only if by
chance the same bytes stand there (`arp_addresses_iff`). -/

namespace Pacsni.Capture.Arp

open Pacsni.Lib.Bytes Pacsni.Lib.Trace Pacsni.Lib.CBuffer Pacsni.Lib.Padding
open Pacsni.Capture.Types Pacsni.Capture.Layers Pacsni.Capture.Dissectors Pacsni.Capture.Raw
open Pacsni.Capture.LayerSpec Pacsni.Capture.Stages Pacsni.Capture.Wire4 Pacsni.Capture.Offsets

variable {raw : RawPacket} {k : ℕ}

/-! ### ARP frames -/

/-- Where the body of an ARP frame with `k` tags starts. -/
def bodyAt (k : ℕ) : ℕ := 14 + 4 * k

/-- The length of its hardware addresses. -/
def hln (raw : RawPacket) (k : ℕ) : ℕ := (raw.data (bodyAt k + 4)).toNat

/-- The capture, of at most 256 bytes, of an ARP frame with `k` tags for IPv4 addresses: the protocol
and the length of the addresses are known if they are captured. -/
structure ArpFrame (raw : RawPacket) (k : ℕ) : Prop where
  short : raw.pkthdr.caplen.toNat ≤ 256
  depth : TagDepth raw.data raw.pkthdr.caplen.toNat k
  etype : etypeAt raw.data k = 0x0806
  protocol : bodyAt k + 8 ≤ raw.pkthdr.caplen.toNat →
    be16 (raw.data (bodyAt k + 2)) (raw.data (bodyAt k + 3)) = 0x0800 ∧ raw.data (bodyAt k + 5) = 4

/-- The protocol address of the sender. -/
def senderAddress (raw : RawPacket) (k : ℕ) : List UInt8 :=
  slice raw.data (bodyAt k + 8 + hln raw k) 4

/-- The protocol address of the target. -/
def targetAddress (raw : RawPacket) (k : ℕ) : List UInt8 :=
  slice raw.data (bodyAt k + 8 + 2 * hln raw k + 4) 4

/-- The frame is dissected without a read behind the capture, and if its body is captured, both
addresses are in the record. -/
def AddressesRight (raw : RawPacket) (prior : PacketInfo) (k : ℕ) : Prop :=
  AllBelow raw.pkthdr.caplen.toNat (dissectRawPacket raw prior).log ∧
  (bodyAt k + (8 + 2 * hln raw k + 8) ≤ raw.pkthdr.caplen.toNat →
    ∃ r, (dissectRawPacket raw prior).val = some r ∧
      r.srcIp.toList.drop 12 = senderAddress raw k ∧ r.dstIp.toList.drop 12 = targetAddress raw k)

/-! ### The branch -/

theorem drop_writeAt_addr {bs : List UInt8} (h : bs.length = 4) :
    (writeAt (zeros 16) 12 bs).toList.drop 12 = bs := by
  rw [toList_writeAt (by omega), List.append_assoc, List.drop_append_of_le_length (by simp), h]
  simp [zeros]

/-- What is taken for the address of the sender. -/
def wrongSender (raw : RawPacket) (k : ℕ) : List UInt8 :=
  slice raw.data (bodyAt k + 8 + 2 * hln raw k) 4

/-- What is taken for the address of the target. -/
def wrongTarget (raw : RawPacket) (k : ℕ) : List UInt8 :=
  slice raw.data (bodyAt k + 8 + 2 * hln raw k + 4 + hln raw k) 4

/-- The record before the branch. -/
def blank (raw : RawPacket) (k : ℕ) : PacketInfo := (initInfo raw (ethOf raw.data k)).val

/-- The ARP branch as it runs on the frame. -/
def branch (raw : RawPacket) (k : ℕ) : C PacketInfo :=
  dissectArp raw.data raw.pkthdr.caplen (ethOf raw.data k) (blank raw k)

theorem dissectEtherType_arp (hf : ArpFrame raw k) :
    dissectEtherType raw.data raw.pkthdr.caplen (ethOf raw.data k) (blank raw k) = (do
      let info ← branch raw k
      finishAlive raw.data raw.pkthdr.caplen (some info)) := by
  have hetype : (ethOf raw.data k).etherType = 0x0806 := hf.etype
  unfold dissectEtherType
  rw [if_neg (by rw [hetype]; decide), if_pos hetype]
  rfl

theorem val_arp (hf : ArpFrame raw k) (prior : PacketInfo) : (dissectRawPacket raw prior).val =
    some (finish raw.data raw.pkthdr.caplen (branch raw k).val).val := by
  unfold dissectRawPacket
  rw [val_bind, parseEthernetLayer_of_tagDepth hf.depth]
  change (dissectEtherType raw.data raw.pkthdr.caplen (ethOf raw.data k) (blank raw k)).val = _
  rw [dissectEtherType_arp hf]
  rfl

theorem allBelow_finish (packet : ℕ → UInt8) (caplen : UInt32) (info : PacketInfo) :
    AllBelow caplen.toNat (finish packet caplen info).log := by
  have hmin : 0 + min caplen.toNat maxPayloadSize ≤ caplen.toNat := by omega
  unfold finish
  refine allBelow_append.mpr ⟨?_, allBelow_append.mpr ⟨?_, allBelow_block hmin⟩⟩
  · unfold calculateEntropyScaled
    split_ifs
    · exact staysBelow_nil _ _
    · exact allBelow_block hmin
  · unfold calculateByteStats
    split_ifs
    · exact staysBelow_nil _ _
    · exact allBelow_block hmin

/-- Only the branch can read behind the capture. -/
theorem allBelow_arp (hf : ArpFrame raw k) (prior : PacketInfo) :
    AllBelow raw.pkthdr.caplen.toNat (dissectRawPacket raw prior).log ↔
      AllBelow raw.pkthdr.caplen.toNat (branch raw k).log := by
  have hfits := hf.depth.fits
  have hinit : AllBelow raw.pkthdr.caplen.toNat (initInfo raw (ethOf raw.data k)).log :=
    allBelow_append.mpr ⟨allBelow_block (by omega), allBelow_block (by omega)⟩
  unfold dissectRawPacket
  rw [log_bind, allBelow_append, parseEthernetLayer_of_tagDepth hf.depth,
    and_iff_right (ethernet_below raw.data raw.pkthdr.caplen.toNat).1]
  change AllBelow raw.pkthdr.caplen.toNat ((initInfo raw (ethOf raw.data k)).log ++
    (dissectEtherType raw.data raw.pkthdr.caplen (ethOf raw.data k) (blank raw k)).log) ↔ _
  rw [dissectEtherType_arp hf, log_bind, allBelow_append, allBelow_append, and_iff_right hinit,
    and_iff_left]
  exact allBelow_append.mpr ⟨allBelow_finish _ _ _, staysBelow_nil _ _⟩

/-- What the branch returns and how far it reads, for a capture with 28 bytes of the body. -/
theorem branch_long (hf : ArpFrame raw k) (h28 : bodyAt k + 28 ≤ raw.pkthdr.caplen.toNat) :
    (branch raw k).val.srcIp.toList.drop 12 = wrongSender raw k ∧
    (branch raw k).val.dstIp.toList.drop 12 = wrongTarget raw k ∧
    (AllBelow raw.pkthdr.caplen.toNat (branch raw k).log ↔
      bodyAt k + 8 + 3 * hln raw k + 8 ≤ raw.pkthdr.caplen.toNat) := by
  have hproto := hf.protocol (by omega)
  have hdef : branch raw k = _ :=
    if_pos (show (ethOf raw.data k).headerLen + 28 ≤ raw.pkthdr.caplen.toNat from h28)
  have hval : (branch raw k).val = { blank raw k with
      protocol := 200
      srcIp := writeAt (zeros 16) 12 (wrongSender raw k)
      dstIp := writeAt (zeros 16) 12 (wrongTarget raw k) } := by
    rw [hdef, val_bind, val_bind, val_bind]
    exact congrArg Traced.val (if_pos hproto)
  refine ⟨?_, ?_, ?_⟩
  · rw [hval]
    exact drop_writeAt_addr (length_slice _ _)
  · rw [hval]
    exact drop_writeAt_addr (length_slice _ _)
  · have hlog : (branch raw k).log = [⟨.read .dissectRawPacket, bodyAt k + 2, 2⟩,
        ⟨.read .dissectRawPacket, bodyAt k + 4, 1⟩, ⟨.read .dissectRawPacket, bodyAt k + 5, 1⟩,
        ⟨.read .dissectRawPacket, bodyAt k + 8 + 2 * hln raw k, 4⟩,
        ⟨.read .dissectRawPacket, bodyAt k + 8 + 2 * hln raw k + 4 + hln raw k, 4⟩] := by
      rw [hdef, log_bind, log_bind, log_bind]
      exact congrArg (fun x => _ ++ (_ ++ (_ ++ Traced.log x))) (if_pos hproto)
    rw [hlog]
    simp only [AllBelow, staysBelow_cons, staysBelow_nil, true_implies, and_true]
    omega

/-- A shorter capture is left alone. -/
theorem branch_short (h28 : ¬ bodyAt k + 28 ≤ raw.pkthdr.caplen.toNat) :
    (branch raw k).val.srcIp.toList.drop 12 = [0, 0, 0, 0] ∧
    (branch raw k).val.dstIp.toList.drop 12 = [0, 0, 0, 0] ∧
    AllBelow raw.pkthdr.caplen.toNat (branch raw k).log := by
  have hdef : branch raw k = pure { blank raw k with protocol := 200 } := if_neg h28
  rw [hdef]
  exact ⟨rfl, rfl, staysBelow_nil _ _⟩

/-! ### When the addresses are right -/

/-- With 28 bytes of the body, the bytes that are taken are captured and are those of the addresses;
with less of it, the body is incomplete or both addresses are zero. -/
def Coincide (raw : RawPacket) (k : ℕ) : Prop :=
  (bodyAt k + 28 ≤ raw.pkthdr.caplen.toNat →
    bodyAt k + 8 + 3 * hln raw k + 8 ≤ raw.pkthdr.caplen.toNat ∧
      wrongSender raw k = senderAddress raw k ∧ wrongTarget raw k = targetAddress raw k) ∧
  (¬ bodyAt k + 28 ≤ raw.pkthdr.caplen.toNat →
    bodyAt k + (8 + 2 * hln raw k + 8) ≤ raw.pkthdr.caplen.toNat →
      senderAddress raw k = [0, 0, 0, 0] ∧ targetAddress raw k = [0, 0, 0, 0])

/-- The addresses in the record are those that the branch has set. -/
theorem addresses_arp (hf : ArpFrame raw k) (prior : PacketInfo) {src dst : List UInt8} :
    (∃ r, (dissectRawPacket raw prior).val = some r ∧
      r.srcIp.toList.drop 12 = src ∧ r.dstIp.toList.drop 12 = dst) ↔
      (branch raw k).val.srcIp.toList.drop 12 = src ∧ (branch raw k).val.dstIp.toList.drop 12 = dst := by
  have hsame := @headers_finish raw.data raw.pkthdr.caplen (branch raw k).val
  rw [val_arp hf]
  unfold Ensures at hsame
  generalize (finish raw.data raw.pkthdr.caplen (branch raw k).val).val = out at hsame ⊢
  have hsrc : out.srcIp = (branch raw k).val.srcIp := congrArg Headers.srcIp hsame
  have hdst : out.dstIp = (branch raw k).val.dstIp := congrArg Headers.dstIp hsame
  rw [← hsrc, ← hdst]
  constructor
  · rintro ⟨r, hr, haddr⟩
    obtain rfl := Option.some_injective _ hr
    exact haddr
  · exact fun haddr => ⟨out, rfl, haddr⟩

/-- **The addresses of ARP frames.** No byte behind the capture is read, and the addresses of a
captured body are in the record, if and only if the places that are looked at happen to be captured and
to hold the addresses. -/
theorem arp_addresses_iff (hf : ArpFrame raw k) (prior : PacketInfo) :
    AddressesRight raw prior k ↔ Coincide raw k := by
  unfold AddressesRight Coincide
  rw [allBelow_arp hf, addresses_arp hf]
  by_cases h28 : bodyAt k + 28 ≤ raw.pkthdr.caplen.toNat
  · obtain ⟨hsrc, hdst, hlog⟩ := branch_long hf h28
    rw [hlog, hsrc, hdst]
    constructor
    · rintro ⟨hend, haddr⟩
      exact ⟨fun _ => ⟨hend, haddr (by omega)⟩, fun h => absurd h28 h⟩
    · intro h
      exact ⟨(h.1 h28).1, fun _ => (h.1 h28).2⟩
  · obtain ⟨hsrc, hdst, hlog⟩ := branch_short h28
    rw [hsrc, hdst, and_iff_right hlog]
    constructor
    · exact fun h => ⟨fun h' => absurd h' h28, fun _ hbody => ⟨(h hbody).1.symm, (h hbody).2.symm⟩⟩
    · exact fun h hbody => ⟨(h.2 h28 hbody).1.symm, (h.2 h28 hbody).2.symm⟩

/-- An ARP request for `10.0.0.2` from `10.0.0.1`, with hardware addresses of `a` bytes. -/
def request (a : ℕ) : List UInt8 :=
  List.replicate 12 0xff ++ [0x08, 0x06, 0, 1, 0x08, 0, UInt8.ofNat a, 4, 0, 1] ++
    List.replicate a 0x52 ++ [10, 0, 0, 1] ++ List.replicate a 0 ++ [10, 0, 0, 2]

/-- The request with Ethernet addresses and `n` bytes of padding. -/
def paddedRequest (n : ℕ) : RawPacket := Window.rawOf (request 6 ++ List.replicate n 0)

theorem arpFrame_request : ArpFrame (paddedRequest 0) 0 :=
  ⟨by decide, ⟨by decide, by decide, by decide⟩, by decide, fun _ => by decide⟩

theorem arpFrame_paddedRequest : ArpFrame (paddedRequest 18) 0 :=
  ⟨by decide, ⟨by decide, by decide, by decide⟩, by decide, fun _ => by decide⟩

/-- The address of the target is looked for behind the end of the 42 bytes; with a padding to 60 bytes
it is captured, but the addresses are those of the padding. -/
theorem request_addresses_wrong : ¬ AddressesRight (paddedRequest 0) PacketInfo.zero 0 ∧
    ¬ AddressesRight (paddedRequest 18) PacketInfo.zero 0 := by
  constructor
  · rintro ⟨hbelow, -⟩
    rw [allBelow_arp arpFrame_request] at hbelow
    have hend := (branch_long arpFrame_request (by decide)).2.2.mp hbelow
    exact absurd hend (by decide)
  · rintro ⟨-, haddr⟩
    obtain ⟨hsrc, -⟩ := (addresses_arp arpFrame_paddedRequest _).mp (haddr (by decide))
    rw [(branch_long arpFrame_paddedRequest (by decide)).1] at hsrc
    exact absurd hsrc (by decide)

/-- Without hardware addresses, and with a padding of twelve bytes, both addresses are found. -/
theorem bareRequest_addresses_right :
    ArpFrame (Window.rawOf (request 0 ++ List.replicate 12 0)) 0 ∧
      AddressesRight (Window.rawOf (request 0 ++ List.replicate 12 0)) PacketInfo.zero 0 := by
  have hf : ArpFrame (Window.rawOf (request 0 ++ List.replicate 12 0)) 0 :=
    ⟨by decide, ⟨by decide, by decide, by decide⟩, by decide, fun _ => by decide⟩
  refine ⟨hf, (arp_addresses_iff hf PacketInfo.zero).mpr ⟨fun _ => ?_, fun h => absurd ?_ h⟩⟩
  · decide
  · decide

end Pacsni.Capture.Arp
