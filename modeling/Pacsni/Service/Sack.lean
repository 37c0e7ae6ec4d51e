import Pacsni.Capture.Wire4
import Pacsni.Service.Decode

/-! # The edges of selective acknowledgements

`parse_tcp_options_extended` copies the blocks of a SACK option byte by byte to an array of 32-bit
words, without `ntohl`; the other options with numbers are converted. The words are sent and read
lowest byte first, so an edge reaches the dashboard with its bytes in reverse order.

The option walk is a relation: `Walk packet opts len k q` says that the loop gets from offset `k` to
offset `q` of the `len` option bytes at `opts`. -/

namespace Pacsni.Service.Sack

open Pacsni.Lib.Bytes Pacsni.Lib.Trace Pacsni.Lib.CBuffer Pacsni.Lib.Cursor
open Pacsni.Capture.Types Pacsni.Capture.Layers Pacsni.Capture.Dissectors Pacsni.Capture.Raw
open Pacsni.Capture.LayerSpec Pacsni.Capture.Stages Pacsni.Capture.Wire4 Pacsni.Capture.Layout
open Pacsni.Service.Decode

variable {packet : ℕ → UInt8} {opts len : ℕ}

/-! ### Options -/

/-- The length byte of the option at offset `k`. -/
def optLen (packet : ℕ → UInt8) (opts k : ℕ) : ℕ := (packet (opts + k + 1)).toNat

/-- A complete option with a length byte at offset `k`. -/
structure OptionAt (packet : ℕ → UInt8) (opts len k : ℕ) : Prop where
  kind : packet (opts + k) ≠ 0 ∧ packet (opts + k) ≠ 1
  two_le : 2 ≤ optLen packet opts k
  fits : k + optLen packet opts k ≤ len

/-- The option walk from offset `k` reaches offset `q`. -/
inductive Walk (packet : ℕ → UInt8) (opts len : ℕ) : ℕ → ℕ → Prop
  | here (k : ℕ) : Walk packet opts len k k
  | pad {k q : ℕ} (hk : k < len) (h1 : packet (opts + k) = 1) (hw : Walk packet opts len (k + 1) q) :
      Walk packet opts len k q
  | option {k q : ℕ} (ho : OptionAt packet opts len k)
      (hw : Walk packet opts len (k + optLen packet opts k) q) : Walk packet opts len k q

theorem Walk.le {k q : ℕ} (h : Walk packet opts len k q) : k ≤ q := by
  induction h with
  | here k => exact le_rfl
  | pad hk h1 hw ih => omega
  | option ho hw ih => omega

theorem Walk.trans {j k q : ℕ} (h : Walk packet opts len j k) (hq : Walk packet opts len k q) :
    Walk packet opts len j q := by
  induction h with
  | here k => exact hq
  | pad hk h1 hw ih => exact .pad hk h1 (ih hq)
  | option ho hw ih => exact .option ho (ih hq)

/-- The options have a SACK option at offset `k`. -/
def SackAt (packet : ℕ → UInt8) (opts len k : ℕ) : Prop :=
  Walk packet opts len 0 k ∧ OptionAt packet opts len k ∧ packet (opts + k) = 5

/-- The options have exactly one SACK option, well formed and with `n` blocks, at offset `q`. -/
structure OnlySack (packet : ℕ → UInt8) (opts len q n : ℕ) : Prop where
  sack : SackAt packet opts len q
  length_eq : optLen packet opts q = 2 + 8 * n
  blocks : 1 ≤ n ∧ n ≤ 4
  only : ∀ k, SackAt packet opts len k → k = q

/-! ### The option loop -/

/-- The two records have the same edges. -/
abbrev SameEdges (i r : PacketInfo) : Prop := r.tcpSackEdges = i.tcpSackEdges

theorem edges_tcpOption {q : ℕ} {kind l : UInt8} (hkind : kind ≠ 5) (i : PacketInfo) :
    Ensures (SameEdges i) (tcpOption packet q kind l i) := by
  unfold tcpOption
  dsimp only
  rw [if_neg (show ¬ (kind = 5 ∧ 10 ≤ l) from fun h => hkind h.1)]
  split_ifs <;> rfl

theorem edges_tcpOption_sack {q n : ℕ} {l : UInt8} (hl : l.toNat = 2 + 8 * n) (hn : 1 ≤ n ∧ n ≤ 4)
    (i : PacketInfo) : (tcpOption packet q 5 l i).val.tcpSackEdges =
      copyEdges i.tcpSackEdges (slice packet (q + 2) (n * 8)) := by
  have h10 : (10 : UInt8) ≤ l := by
    show 10 ≤ l.toNat
    omega
  have hblocks : min ((l.toNat - 2) / 8) 4 = n := by omega
  unfold tcpOption
  dsimp only
  rw [if_neg (by simp), if_neg (by simp), if_neg (by simp), if_pos ⟨rfl, h10⟩, hblocks]
  rfl

/-- The step of the loop over a padding byte. -/
theorem val_tcpOptionsLoop_pad {k : ℕ} (hk : k < len) (h1 : packet (opts + k) = 1) (i : PacketInfo) :
    (tcpOptionsLoop packet opts len k i).val = (tcpOptionsLoop packet opts len (k + 1) i).val := by
  rw [tcpOptionsLoop, if_pos hk, val_bind, val_load8, h1, if_neg (by decide), if_pos rfl]

/-- The step of the loop over an option. -/
theorem val_tcpOptionsLoop_option {k : ℕ} (ho : OptionAt packet opts len k) (i : PacketInfo) :
    (tcpOptionsLoop packet opts len k i).val =
      (tcpOptionsLoop packet opts len (k + optLen packet opts k)
        (tcpOption packet (opts + k) (packet (opts + k)) (packet (opts + k + 1)) i).val).val := by
  have h2 := ho.two_le
  have hfit := ho.fits
  have hl : ¬ (packet (opts + k + 1) < 2 ∨ len < k + (packet (opts + k + 1)).toNat) := by
    rintro (h | h)
    · have : (packet (opts + k + 1)).toNat < 2 := h
      unfold optLen at h2
      omega
    · unfold optLen at hfit
      omega
  rw [tcpOptionsLoop, if_pos (by omega), val_bind, val_load8, if_neg ho.kind.1, if_neg ho.kind.2,
    if_neg (by omega), val_bind, val_load8, dif_neg hl]
  rfl

/-- Without a SACK option ahead the loop leaves the edges alone. -/
theorem edges_tcpOptionsLoop (k : ℕ) (i : PacketInfo)
    (hno : ∀ q, Walk packet opts len k q → OptionAt packet opts len q → packet (opts + q) ≠ 5) :
    Ensures (SameEdges i) (tcpOptionsLoop packet opts len k i) := by
  fun_induction tcpOptionsLoop packet opts len k i with
  | case1 k i rd hk ih1 ih2 =>
    refine .bind (P := fun b => b = packet (opts + k)) rfl fun kind hkind => ?_
    by_cases h0 : kind = 0
    · rw [if_pos h0]
      exact .pure rfl
    rw [if_neg h0]
    by_cases h1 : kind = 1
    · rw [if_pos h1]
      exact ih1 fun q hq => hno q (.pad hk (hkind ▸ h1) hq)
    rw [if_neg h1]
    by_cases hlen : len ≤ k + 1
    · rw [if_pos hlen]
      exact .pure rfl
    rw [if_neg hlen]
    refine .bind (P := fun b => b = packet (opts + k + 1)) rfl fun l hl => ?_
    by_cases hcut : l < 2 ∨ len < k + l.toNat
    · rw [dif_pos hcut]
      exact .pure rfl
    rw [dif_neg hcut]
    have h2 : 2 ≤ l.toNat := Nat.not_lt.mp (not_or.mp hcut).1
    have ho : OptionAt packet opts len k := by
      subst hkind hl
      exact ⟨⟨h0, h1⟩, h2, by unfold optLen; omega⟩
    have h5 : kind ≠ 5 := hkind ▸ hno k (.here k) ho
    refine .bind (edges_tcpOption h5 i) fun j hj => ?_
    refine (ih2 hlen l hcut j fun q hq => hno q (.option ho ?_)).trans hj
    unfold optLen
    rwa [← hl]
  | case2 => exact .pure rfl

/-- The loop takes over the blocks of the one SACK option. -/
theorem edges_of_onlySack {q n : ℕ} (hs : OnlySack packet opts len q n) {k : ℕ}
    (hw : Walk packet opts len k q) (hk : Walk packet opts len 0 k) (i : PacketInfo) :
    (tcpOptionsLoop packet opts len k i).val.tcpSackEdges =
      copyEdges i.tcpSackEdges (slice packet (opts + q + 2) (n * 8)) := by
  have hlen := hs.length_eq
  have hn := hs.blocks
  induction hw generalizing i with
  | here q =>
    obtain ⟨-, ho, h5⟩ := hs.sack
    -- behind the option there is no other one
    have hrest := @edges_tcpOptionsLoop packet opts len (q + optLen packet opts q)
      (tcpOption packet (opts + q) (packet (opts + q)) (packet (opts + q + 1)) i).val
      fun k' hk' ho' h5' => by
        have heq := hs.only k' ⟨hk.trans (.option ho hk'), ho', h5'⟩
        have hle := hk'.le
        omega
    rw [val_tcpOptionsLoop_option ho]
    rw [h5] at hrest ⊢
    exact hrest.trans (edges_tcpOption_sack hlen hn i)
  | pad hlt h1 hw ih =>
    rw [val_tcpOptionsLoop_pad hlt h1]
    exact ih hs (hk.trans (.pad hlt h1 (.here _))) i hlen
  | @option k q ho hw ih =>
    have hne : packet (opts + k) ≠ 5 := fun h5 => by
      have heq := hs.only k ⟨hk, ho, h5⟩
      have hle := hw.le
      have h2 := ho.two_le
      omega
    have hkeep := @edges_tcpOption packet (opts + k) (packet (opts + k)) (packet (opts + k + 1)) hne i
    rw [val_tcpOptionsLoop_option ho, ih hs (hk.trans (.option ho (.here _))) _ hlen]
    exact congrArg (copyEdges · _) hkeep

/-- The edges of `n` blocks copied to a cleared array, lowest byte first. -/
theorem getElem_copyEdges_zero {e n j : ℕ} (hj : j < 8) :
    (copyEdges (Vector.replicate 8 0) (slice packet e (n * 8)))[j] =
      if j < 2 * n then be32 (packet (e + 4 * j + 3)) (packet (e + 4 * j + 2))
        (packet (e + 4 * j + 1)) (packet (e + 4 * j)) else 0 := by
  unfold copyEdges
  rw [Vector.getElem_ofFn, length_slice]
  by_cases hlt : j < 2 * n
  · have hword : ((slice packet e (n * 8)).drop (4 * j)).take 4 = [packet (e + 4 * j),
        packet (e + 4 * j + 1), packet (e + 4 * j + 2), packet (e + 4 * j + 3)] := by
      apply List.ext_getElem
      · simp
        omega
      · intro i h1 h2
        rw [List.getElem_take, List.getElem_drop, getElem_slice]
        simp only [List.length_cons, List.length_nil] at h2
        match i, h2 with
        | 0, _ | 1, _ | 2, _ | 3, _ => simp [Nat.add_assoc]
    rw [if_pos (by dsimp only; omega), if_pos hlt]
    dsimp only
    rw [hword, ofNat_leNat_four]
  · rw [if_neg (by dsimp only; omega), if_neg hlt]
    simp

/-! ### The record of a segment -/

/-- The capture `raw` is a TCP segment that the layer parsers accept: its TCP header of `hl` bytes starts
at `off`. The Ethernet header is shorter than 256 bytes, as it is in every segment that lies inside
`raw.data`. -/
structure Segment (raw : RawPacket) (off hl : ℕ) : Prop where
  accepted : ∃ eth ip t, (parseEthernetLayer raw.data raw.pkthdr.caplen.toNat).val = some eth ∧
    IsIp eth.etherType ∧ eth.headerLen < 256 ∧
    (parseIpLayer raw.data raw.pkthdr.caplen.toNat eth.headerLen).val = some ip ∧
    ip.protocol = 6 ∧ off = eth.headerLen + ip.headerLen ∧
    (parseTransportLayer raw.data raw.pkthdr.caplen.toNat eth.headerLen ip).val = some t ∧
    t.payloadPtr = some (off + hl)

theorem edges_tcpFields {ip : IpInfo} {t : TransportInfo} {info : PacketInfo} {off hl q n : ℕ}
    (h6 : info.protocol = 6) (hoff : info.l3Offset.toNat + ip.headerLen = off)
    (hptr : t.payloadPtr = some (off + hl)) (hs : OnlySack packet (off + 20) (hl - 20) q n) :
    Ensures (fun r => r.tcpSackEdges =
      copyEdges info.tcpSackEdges (slice packet (off + 20 + q + 2) (n * 8)))
      (tcpFields packet ip t info) := by
  have hfit := hs.sack.2.1.fits
  have h2 := hs.sack.2.1.two_le
  unfold tcpFields
  rw [if_pos h6, hptr]
  dsimp only
  rw [hoff, Nat.add_sub_cancel_left]
  unfold parseTcpOptionsExtended
  rw [if_neg (by omega)]
  refine .bind (P := fun r => r.tcpSackEdges =
    copyEdges info.tcpSackEdges (slice packet (off + 20 + q + 2) (n * 8))) ?_ fun i hi => ?_
  · exact edges_of_onlySack hs hs.sack.1 (.here 0) _
  · exact (checkTcpAnomalies_keeps (fun _ _ => rfl) i t).trans hi

/-- The edges in the record of a segment. -/
theorem edges_dissectRawPacket {raw : RawPacket} {off hl q n : ℕ} (hseg : Segment raw off hl)
    (hs : OnlySack raw.data (off + 20) (hl - 20) q n) (prior : PacketInfo) :
    Ensures (fun o => ∃ r, o = some r ∧ r.tcpSackEdges =
      copyEdges (Vector.replicate 8 0) (slice raw.data (off + 20 + q + 2) (n * 8)))
      (dissectRawPacket raw prior) := by
  obtain ⟨eth, ip, t, heth, hetype, hlt, hip, h6, hoff, ht, hptr⟩ := hseg.accepted
  have hok := (ipOK_of_parse hip).2
  have hupper : upperProtocol raw.data raw.pkthdr.caplen eth.headerLen = 6 := by
    rw [upperProtocol_eq (by rw [← hok.protocol]; exact Or.inl h6), ← hok.protocol, h6]
  unfold dissectRawPacket
  refine .bind (P := fun o => o = some eth) heth fun o ho => ?_
  subst ho
  unfold dissectFrame
  refine .bind (P := fun i : PacketInfo => i.tcpSackEdges = Vector.replicate 8 0 ∧
    i.l3Offset.toNat = eth.headerLen % 256) ⟨rfl, UInt8.toNat_ofNat'⟩ fun i hi => ?_
  obtain ⟨hedges, hl3⟩ := hi
  unfold dissectEtherType dissectIp
  rw [if_pos hetype]
  refine .bind (.bind (P := fun o => o = some ip) hip fun o ho => ?_) fun r hr =>
    .bind (P := SameEdges r) (finish_keeps (fun _ _ _ _ _ _ => rfl) _ r)
      fun r' hr' => .pure ⟨r', rfl, hr'.trans hr⟩
  subst ho
  refine .bind (P := fun j => SameEdges i j ∧ j.protocol = 6 ∧ j.l3Offset = i.l3Offset) ?_
    fun j hj => ?_
  · obtain ⟨f, hf⟩ := @ipv6Fields_spec raw.data raw.pkthdr.caplen _ ip eth i hok hl3
    exact ⟨ipv6Fields_keeps (fun _ _ _ _ _ => rfl) _ ip _, (congrArg Headers.protocol hf).trans hupper,
      congrArg Headers.l3Offset hf⟩
  obtain ⟨hj1, hj2, hj3⟩ := hj
  refine .bind (P := fun m => SameEdges j m ∧ SameHeaders j m)
    ⟨icmpFields_keeps (fun _ _ _ _ => rfl) _ j, headers_icmpFields _ j⟩ fun m hm => ?_
  obtain ⟨hm1, hm2⟩ := hm
  have hmp : m.protocol = 6 := (congrArg Headers.protocol hm2).trans hj2
  have hml : m.l3Offset.toNat + ip.headerLen = off := by
    have : m.l3Offset = i.l3Offset := (congrArg Headers.l3Offset hm2).trans hj3
    rw [this, hl3, hoff, Nat.mod_eq_of_lt hlt]
  have hme : m.tcpSackEdges = Vector.replicate 8 0 := hm1.trans (hj1.trans hedges)
  unfold dissectTransport
  refine .bind (P := fun o => o = some t) ht fun o ho => ?_
  subst ho
  unfold transportFields
  rw [← hme]
  refine .bind (edges_tcpFields hmp hml hptr hs) fun x hx => ?_
  refine .bind (P := SameEdges x) (dispatchApp_keeps (fun _ _ _ _ _ _ _ _ => rfl) t x) fun y hy => ?_
  exact (l4Protocols_keeps (fun _ _ _ _ => rfl) _ y).trans (hy.trans hx)

/-! ### The edges on the dashboard -/

/-- The 32-bit number on the wire at `e`. -/
def wireWord (packet : ℕ → UInt8) (e : ℕ) : UInt32 :=
  be32 (packet e) (packet (e + 1)) (packet (e + 2)) (packet (e + 3))

/-- The list has the `2 * n` edges at `e` with their values on the wire, and zeros behind them. -/
def EdgesShown (packet : ℕ → UInt8) (e n : ℕ) (edges : List UInt32) : Prop :=
  edges.length = 8 ∧ ∀ j (h : j < edges.length),
    edges[j] = if j < 2 * n then wireWord packet (e + 4 * j) else 0

/-- The four bytes at `e` are the same in both directions. -/
def Symmetric (packet : ℕ → UInt8) (e : ℕ) : Prop :=
  packet e = packet (e + 3) ∧ packet (e + 1) = packet (e + 2)

/-- The dashboard gets the segment's edges with their bytes in reverse order. -/
theorem decoded_edges (hmac : List UInt8 → Vector UInt8 64) {raw : RawPacket} {off hl q n : ℕ}
    (hseg : Segment raw off hl) (hs : OnlySack raw.data (off + 20) (hl - 20) q n)
    (prior : PacketInfo) (rest : List UInt8) :
    ∃ r d, (dissectRawPacket raw prior).val = some r ∧
      decode.run (sendPacketInfo hmac r ++ rest) = some (d, rest) ∧ d.tcpSackEdges.length = 8 ∧
      ∀ j (h : j < d.tcpSackEdges.length), d.tcpSackEdges[j] =
        if j < 2 * n then be32 (raw.data (off + 20 + q + 2 + 4 * j + 3))
          (raw.data (off + 20 + q + 2 + 4 * j + 2)) (raw.data (off + 20 + q + 2 + 4 * j + 1))
          (raw.data (off + 20 + q + 2 + 4 * j)) else 0 := by
  obtain ⟨r, hr, hedges⟩ := edges_dissectRawPacket hseg hs prior
  have hwords : ∀ j (h : j < r.tcpSackEdges.toList.length), r.tcpSackEdges.toList[j] =
      if j < 2 * n then be32 (raw.data (off + 20 + q + 2 + 4 * j + 3))
        (raw.data (off + 20 + q + 2 + 4 * j + 2)) (raw.data (off + 20 + q + 2 + 4 * j + 1))
        (raw.data (off + 20 + q + 2 + 4 * j)) else 0 := by
    intro j h
    have hj : j < 8 := by simpa using h
    rw [Vector.getElem_toList, getElem_congr_coll hedges]
    exact getElem_copyEdges_zero hj
  exact ⟨r, shown r, hr, run_decode_send hmac r rest, by simp [shown], hwords⟩

/-- The decoded record of the segment shows the edges at `e`. -/
def ShowsEdges (hmac : List UInt8 → Vector UInt8 64) (raw : RawPacket) (prior : PacketInfo)
    (rest : List UInt8) (e n : ℕ) : Prop :=
  ∃ r d, (dissectRawPacket raw prior).val = some r ∧
    decode.run (sendPacketInfo hmac r ++ rest) = some (d, rest) ∧
    EdgesShown raw.data e n d.tcpSackEdges

theorem symmetric_of_showsEdges {hmac : List UInt8 → Vector UInt8 64} {raw : RawPacket}
    {off hl q n : ℕ} (hseg : Segment raw off hl) (hs : OnlySack raw.data (off + 20) (hl - 20) q n)
    {prior : PacketInfo} {rest : List UInt8}
    (h : ShowsEdges hmac raw prior rest (off + 20 + q + 2) n) :
    ∀ j < 2 * n, Symmetric raw.data (off + 20 + q + 2 + 4 * j) := by
  obtain ⟨r, d, hr, hd, hlen, hval⟩ := decoded_edges hmac hseg hs prior rest
  obtain ⟨r', d', hr', hd', -, hwire⟩ := h
  obtain rfl := Option.some.inj (hr.symm.trans hr')
  obtain rfl : d = d' := congrArg Prod.fst (Option.some.inj (hd.symm.trans hd'))
  have hn := hs.blocks
  intro j hj
  have hrev := (hval j (by omega)).symm.trans (hwire j (by omega))
  rw [if_pos hj, if_pos hj] at hrev
  obtain ⟨h3, h2, -, -⟩ := be32_inj.mp hrev
  exact ⟨h3.symm, h2.symm⟩

/-- **SACK edges.** The edges of the one SACK option of an accepted TCP segment are shown with their
values on the wire exactly if the bytes of every edge read the same in both directions. -/
theorem sackEdges_shown_iff (hmac : List UInt8 → Vector UInt8 64) {raw : RawPacket} {off hl q n : ℕ}
    (hseg : Segment raw off hl) (hs : OnlySack raw.data (off + 20) (hl - 20) q n)
    (prior : PacketInfo) (rest : List UInt8) :
    ShowsEdges hmac raw prior rest (off + 20 + q + 2) n ↔
      ∀ j < 2 * n, Symmetric raw.data (off + 20 + q + 2 + 4 * j) := by
  refine ⟨symmetric_of_showsEdges hseg hs, fun hsym => ?_⟩
  obtain ⟨r, d, hr, hd, hlen, hval⟩ := decoded_edges hmac hseg hs prior rest
  refine ⟨r, d, hr, hd, hlen, fun j h => (hval j h).trans ?_⟩
  split_ifs with hj
  · obtain ⟨h3, h2⟩ := hsym j hj
    exact be32_inj.mpr ⟨h3.symm, h2.symm, h2, h3⟩
  · rfl

/-- A SACK option is where the byte 5 is. -/
theorem onlySack_of_bytes {q n : ℕ} (hw : Walk packet opts len 0 q) (ho : OptionAt packet opts len q)
    (h5 : packet (opts + q) = 5) (hlen : optLen packet opts q = 2 + 8 * n) (hn : 1 ≤ n ∧ n ≤ 4)
    (honly : ∀ k < len, packet (opts + k) = 5 → k = q) : OnlySack packet opts len q n := by
  refine ⟨⟨hw, ho, h5⟩, hlen, hn, ?_⟩
  rintro k ⟨-, hk, hk5⟩
  have h2 := hk.two_le
  have hfit := hk.fits
  exact honly k (by omega) hk5

/-- A segment of 66 bytes with two padding bytes and a SACK option for one block. -/
def sackFrame (edges : List UInt8) : List UInt8 :=
  List.replicate 12 0 ++ [8, 0] ++ [0x45, 0, 0, 52, 0, 1, 0, 0, 64, 6, 0, 0] ++ List.replicate 8 1 ++
    [0x9c, 0x40, 1, 0xbb, 0, 0, 0, 1, 0, 0, 0, 1, 0x80, 0x10, 1, 0, 0, 0, 0, 0] ++
    [1, 1, 5, 10] ++ edges

/-- The block from 1000 to 2000. -/
def sackRaw : RawPacket :=
  ⟨⟨⟨0, 0⟩, 66, 66⟩, ((sackFrame [0, 0, 3, 0xe8, 0, 0, 7, 0xd0]).getD · 0), 0⟩

theorem segment_sackRaw : Segment sackRaw 34 32 := by
  have hdepth : TagDepth sackRaw.data 66 0 :=
    ⟨by decide, fun j hj => absurd hj (Nat.not_lt_zero j), by decide⟩
  exact ⟨_, _, _, parseEthernetLayer_of_tagDepth hdepth, Or.inl rfl, (by decide : 14 < 256), rfl,
    rfl, rfl, rfl, rfl⟩

theorem onlySack_sackRaw : OnlySack sackRaw.data 54 12 2 1 :=
  onlySack_of_bytes (.pad (by decide) rfl (.pad (by decide) rfl (.here 2)))
    ⟨by decide, by decide, by decide⟩ rfl rfl (by decide) (by decide)

/-- The edges 1000 and 2000 are not shown: the left one becomes `0xe8030000`. -/
theorem sackRaw_edges_swapped :
    Segment sackRaw 34 32 ∧ OnlySack sackRaw.data (34 + 20) (32 - 20) 2 1 ∧
      ¬ ShowsEdges (fun _ => zeros 64) sackRaw PacketInfo.zero [] (34 + 20 + 2 + 2) 1 := by
  refine ⟨segment_sackRaw, onlySack_sackRaw, fun h => ?_⟩
  have hsym := (symmetric_of_showsEdges segment_sackRaw onlySack_sackRaw h 0 (by decide)).1
  exact absurd hsym (by decide)

/-- A block whose edges read the same in both directions. -/
def symmetricRaw : RawPacket :=
  ⟨⟨⟨0, 0⟩, 66, 66⟩, ((sackFrame [1, 2, 2, 1, 1, 3, 3, 1]).getD · 0), 0⟩

theorem symmetricRaw_edges_shown :
    Segment symmetricRaw 34 32 ∧ OnlySack symmetricRaw.data (34 + 20) (32 - 20) 2 1 ∧
      ShowsEdges (fun _ => zeros 64) symmetricRaw PacketInfo.zero [] (34 + 20 + 2 + 2) 1 := by
  have hdepth : TagDepth symmetricRaw.data 66 0 :=
    ⟨by decide, fun j hj => absurd hj (Nat.not_lt_zero j), by decide⟩
  have hseg : Segment symmetricRaw 34 32 :=
    ⟨_, _, _, parseEthernetLayer_of_tagDepth hdepth, Or.inl rfl, (by decide : 14 < 256), rfl,
      rfl, rfl, rfl, rfl⟩
  have hs : OnlySack symmetricRaw.data (34 + 20) (32 - 20) 2 1 :=
    onlySack_of_bytes (.pad (by decide) rfl (.pad (by decide) rfl (.here 2)))
      ⟨by decide, by decide, by decide⟩ rfl rfl (by decide) (by decide)
  have hsym : ∀ j < 2 * 1, Symmetric symmetricRaw.data (34 + 20 + 2 + 2 + 4 * j) := by
    intro j hj
    interval_cases j <;> exact ⟨by decide, by decide⟩
  exact ⟨hseg, hs, (sackEdges_shown_iff (fun _ => zeros 64) hseg hs PacketInfo.zero []).mpr hsym⟩

end Pacsni.Service.Sack
