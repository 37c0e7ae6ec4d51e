import Pacsni.Capture.Memory

/-! # The walk over an LLDP payload

An LLDP payload is a list of TLVs: a type of 7 bits, a length of 9 bits, and as many bytes. The first
byte of a chassis or port identifier is a subtype, so `dissect_lldp` copies one byte less than the
length; with a length of zero that is `-1`, and the copy is undefined. The walk keeps to its payload and its
fields if and only if no identifier is empty (`dissectLldp_safe_iff`). -/

namespace Pacsni.Capture.Lldp

open Pacsni.Lib.Bytes Pacsni.Lib.Trace Pacsni.Lib.CBuffer
open Pacsni.Capture.Types Pacsni.Capture.Dissectors Pacsni.Capture.Memory

variable {packet : ℕ → UInt8} {p : ℕ}

/-! ### TLVs -/

/-- The head of a TLV. -/
structure Tlv where
  type : UInt16
  len : ℕ

/-- The head of the TLV at `q`. -/
def tlvAt (packet : ℕ → UInt8) (q : ℕ) : Tlv :=
  let tlv := be16 (packet q) (packet (q + 1))
  ⟨tlv >>> 9, (tlv &&& 0x01FF).toNat⟩

/-- The TLV is a chassis or a port identifier. -/
def Tlv.IsName (t : Tlv) : Prop := t.type = 1 ∨ t.type = 2

/-- The TLVs from offset `o` of the `l` bytes at `p` on, up to the end of the list or the first one
that does not fit. -/
def tlvs (packet : ℕ → UInt8) (p l o : ℕ) : List Tlv :=
  let t := tlvAt packet (p + o)
  if o + 2 + t.len ≤ l ∧ t.type ≠ 0 then t :: tlvs packet p l (o + 2 + t.len) else []
termination_by l - o

theorem tlvs_cons {l o : ℕ} (hfit : o + 2 + (tlvAt packet (p + o)).len ≤ l)
    (htype : (tlvAt packet (p + o)).type ≠ 0) : tlvs packet p l o =
      tlvAt packet (p + o) :: tlvs packet p l (o + 2 + (tlvAt packet (p + o)).len) := by
  rw [tlvs]
  exact if_pos ⟨hfit, htype⟩

theorem tlvs_nil {l o : ℕ} (h : o + 2 + (tlvAt packet (p + o)).len ≤ l →
    (tlvAt packet (p + o)).type = 0) : tlvs packet p l o = [] := by
  rw [tlvs]
  exact if_neg fun hfit => hfit.2 (h hfit.1)

/-- No chassis or port identifier is empty. -/
def NamesNonempty (ts : List Tlv) : Prop := ∀ t ∈ ts, t.IsName → t.len ≠ 0

/-! ### One identifier -/

/-- The sizes of the fields that are written. -/
def size : Buf → ℕ
  | .lldpChassis | .lldpPort => 32
  | .appLayerInfo => 128
  | _ => 0

/-- The string in the field has an end. -/
def Terminated {n : ℕ} (v : Vector UInt8 n) : Prop := 0 ∈ v.toList

theorem lldpName_safe {l q len : ℕ} {b : Buf} (hb : size b = 32) (hp : p ≤ q) (hq : q + len ≤ p + l)
    (hlen : len ≠ 0) (name : Vector UInt8 32) :
    Confined p l size (lldpName packet b q len name).log ∧
      ∃ c, (lldpName packet b q len name).val = some c ∧ Terminated c := by
  unfold lldpName
  rw [if_neg hlen]
  constructor
  · refine .bind (confined_loadBytes (by omega) (by omega)) (.bind (confined_touch ?_) .pure)
    rw [hb, val_loadBytes_eq_slice, length_slice]
    omega
  · refine ⟨_, rfl, ?_⟩
    have hfit : (slice packet (q + 1) (min (len - 1) 31) ++ [0]).length ≤ 32 := by
      rw [List.length_append, length_slice, List.length_singleton]
      omega
    have hmem : (0 : UInt8) ∈ slice packet (q + 1) (min (len - 1) 31) ++ [0] := by simp
    rw [← take_toList_writeAt name _ hfit] at hmem
    exact List.mem_of_mem_take hmem

/-! ### The whole list -/

/-- The run keeps to the `l` bytes at `p` and to the fields, and returns with both names ended. -/
def SafeRun (p l : ℕ) (x : C (Option PacketInfo)) : Prop :=
  Confined p l size x.log ∧
    ∃ r, x.val = some r ∧ Terminated r.lldpChassis ∧ Terminated r.lldpPort

section

variable {l : ℕ} {P : Prop}

theorem safeRun_pure {i : PacketInfo} (hi : Terminated i.lldpChassis ∧ Terminated i.lldpPort) :
    SafeRun p l (pure (some i)) := ⟨.pure, i, rfl, hi⟩

theorem safeRun_bind {α : Type} {x : C α} {f : α → C (Option PacketInfo)}
    (hx : Confined p l size x.log) : SafeRun p l (x >>= f) ↔ SafeRun p l (f x.val) := by
  unfold SafeRun
  rw [confined_bind_iff hx, val_bind]

/-- A step that copies an identifier and goes on: the identifier must not be empty. -/
theorem safeRun_name {q len : ℕ} {b : Buf} (hb : size b = 32) (hp : p ≤ q) (hq : q + len ≤ p + l)
    (name : Vector UInt8 32) {f : Vector UInt8 32 → C (Option PacketInfo)}
    (hf : ∀ c, Terminated c → (SafeRun p l (f c) ↔ P)) :
    SafeRun p l (do
      match ← lldpName packet b q len name with
      | none => pure none
      | some c => f c) ↔ len ≠ 0 ∧ P := by
  by_cases hlen : len = 0
  · subst hlen
    refine iff_of_false ?_ fun h => h.1 rfl
    rintro ⟨-, r, hr, -⟩
    cases hr
  · obtain ⟨hconf, c, hval, hc⟩ := lldpName_safe hb hp hq hlen name
    rw [safeRun_bind hconf, hval, hf c hc, and_iff_right hlen]

end

theorem namesNonempty_cons {t : Tlv} {ts : List Tlv} :
    NamesNonempty (t :: ts) ↔ (t.IsName → t.len ≠ 0) ∧ NamesNonempty ts := List.forall_mem_cons

/-- The loop from any offset on. -/
theorem lldpLoop_safe_iff (l o : ℕ) {i : PacketInfo}
    (hi : Terminated i.lldpChassis ∧ Terminated i.lldpPort) :
    SafeRun p l (lldpLoop packet p l o i) ↔ NamesNonempty (tlvs packet p l o) := by
  have hnil : NamesNonempty [] := List.forall_mem_nil _
  unfold lldpLoop
  dsimp only
  by_cases h2 : o + 2 ≤ l
  swap
  · rw [if_neg h2, tlvs_nil fun h => by omega]
    exact iff_of_true (safeRun_pure hi) hnil
  rw [if_pos h2, safeRun_bind (confined_load16 (by omega) (by omega))]
  change SafeRun p l (if l < o + 2 + (tlvAt packet (p + o)).len then pure (some i) else
    if (tlvAt packet (p + o)).type = 1 then _ else if (tlvAt packet (p + o)).type = 2 then _ else
    if (tlvAt packet (p + o)).type = 0 then pure (some i) else
      lldpLoop packet p l (o + 2 + (tlvAt packet (p + o)).len) i) ↔ _
  by_cases hfit : l < o + 2 + (tlvAt packet (p + o)).len
  · rw [if_pos hfit, tlvs_nil fun h => by omega]
    exact iff_of_true (safeRun_pure hi) hnil
  by_cases h0 : (tlvAt packet (p + o)).type = 0
  · rw [if_neg hfit, if_neg (by rw [h0]; decide), if_neg (by rw [h0]; decide), if_pos h0,
      tlvs_nil fun _ => h0]
    exact iff_of_true (safeRun_pure hi) hnil
  -- the TLV is taken, and what follows is a list again
  have hend : p + o + 2 + (tlvAt packet (p + o)).len ≤ p + l := by omega
  rw [if_neg hfit, tlvs_cons (by omega) h0, namesNonempty_cons]
  by_cases h1 : (tlvAt packet (p + o)).type = 1
  · have hname : (tlvAt packet (p + o)).IsName := Or.inl h1
    rw [if_pos h1, forall_prop_of_true hname]
    exact safeRun_name rfl (by omega) hend i.lldpChassis fun c hc =>
      lldpLoop_safe_iff l _ ⟨hc, hi.2⟩
  by_cases h2' : (tlvAt packet (p + o)).type = 2
  · have hname : (tlvAt packet (p + o)).IsName := Or.inr h2'
    rw [if_neg h1, if_pos h2', forall_prop_of_true hname]
    exact safeRun_name rfl (by omega) hend i.lldpPort fun c hc =>
      lldpLoop_safe_iff l _ ⟨hi.1, hc⟩
  · have hother : (tlvAt packet (p + o)).IsName → (tlvAt packet (p + o)).len ≠ 0 :=
      fun h => absurd h (not_or.mpr ⟨h1, h2'⟩)
    rw [if_neg h1, if_neg h2', if_neg h0, and_iff_right hother]
    exact lldpLoop_safe_iff l _ hi
termination_by l - o

/-- The text that is printed at the end fits, and leaves the names as they are. -/
theorem safeRun_dissectLldp (l : ℤ) (i : PacketInfo) :
    SafeRun p l.toNat (dissectLldp packet p l i) ↔
      SafeRun p l.toNat (lldpLoop packet p l.toNat 0 i) := by
  unfold dissectLldp
  constructor
  · rintro ⟨hconf, r, hr, hterm⟩
    rw [log_bind, confined_append] at hconf
    rw [val_bind] at hr
    refine ⟨hconf.1, ?_⟩
    cases hval : (lldpLoop packet p l.toNat 0 i).val with
    | none =>
      rw [hval] at hr
      cases hr
    | some j =>
      rw [hval] at hr
      obtain rfl := Option.some_injective _ hr
      exact ⟨j, rfl, hterm⟩
  · rintro ⟨hconf, r, hr, hterm⟩
    rw [safeRun_bind hconf, hr]
    exact ⟨.bind (confined_snprintf le_rfl _ _) .pure, _, rfl, hterm⟩

/-- **LLDP.** From a record whose names are ended, `dissect_lldp` keeps to the `l` bytes of its payload
and to the three fields it writes, and returns with both names ended by a NUL, if and only if no
chassis or port identifier of the payload is empty. -/
theorem dissectLldp_safe_iff (packet : ℕ → UInt8) (p : ℕ) (l : ℤ) {i : PacketInfo}
    (hi : Terminated i.lldpChassis ∧ Terminated i.lldpPort) :
    SafeRun p l.toNat (dissectLldp packet p l i) ↔ NamesNonempty (tlvs packet p l.toNat 0) := by
  rw [safeRun_dissectLldp, lldpLoop_safe_iff l.toNat 0 hi]

theorem terminated_zero :
    Terminated PacketInfo.zero.lldpChassis ∧ Terminated PacketInfo.zero.lldpPort := by
  refine ⟨?_, ?_⟩ <;> simp [Terminated, PacketInfo.zero, zeros]

/-- Two TLVs: a chassis identifier of subtype 4 without more bytes, and the end of the list. -/
def shortChassis (i : ℕ) : UInt8 := ([0x02, 0x01, 0x04, 0x00, 0x00] : List UInt8).getD i 0

theorem tlvs_shortChassis : tlvs shortChassis 0 5 0 = [⟨1, 1⟩] := by
  have hnil : tlvs shortChassis 0 5 3 = [] := tlvs_nil fun _ => by decide
  rw [tlvs_cons (by decide) (by decide)]
  exact congrArg _ hnil

theorem shortChassis_safe : SafeRun 0 (5 : ℤ).toNat (dissectLldp shortChassis 0 5 PacketInfo.zero) := by
  refine (dissectLldp_safe_iff shortChassis 0 5 terminated_zero).mpr ?_
  rw [show (5 : ℤ).toNat = 5 from rfl, tlvs_shortChassis]
  intro t ht _
  rw [List.mem_singleton.mp ht]
  decide

/-- A payload of one empty chassis identifier. -/
def emptyChassis (i : ℕ) : UInt8 := ([0x02, 0x00] : List UInt8).getD i 0

/-- The copy of its name is not safe. -/
theorem emptyChassis_unsafe :
    ¬ SafeRun 0 (2 : ℤ).toNat (dissectLldp emptyChassis 0 2 PacketInfo.zero) := by
  rw [safeRun_dissectLldp, lldpLoop_safe_iff _ 0 terminated_zero]
  intro h
  have hmem : tlvAt emptyChassis (0 + 0) ∈ tlvs emptyChassis 0 (2 : ℤ).toNat 0 := by
    rw [tlvs_cons (by decide) (by decide)]
    exact List.mem_cons_self
  exact h _ hmem (Or.inl (by decide)) (by decide)

end Pacsni.Capture.Lldp
