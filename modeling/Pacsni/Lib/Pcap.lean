import Pacsni.Lib.Cursor

/-! # Capture files

The little-endian `pcap` format, version 2.4: a header of 24 bytes, and behind it records, each a header
of 16 bytes and as many bytes of data as it says. `parse` takes a whole file apart and fails if bytes
are left over. A file that is written from records whose lengths are right is read back
(`parse_write`). -/

namespace Pacsni.Lib.Pcap

open Pacsni.Lib.Bytes Pacsni.Lib.Cursor

/-- The header of a file. -/
structure Header where
  magic : UInt32
  versionMajor : UInt16
  versionMinor : UInt16
  thiszone : UInt32
  sigfigs : UInt32
  snaplen : UInt32
  network : UInt32
deriving DecidableEq

/-- A record with its data. -/
structure Record where
  tsSec : UInt32
  tsUsec : UInt32
  inclLen : UInt32
  origLen : UInt32
  data : List UInt8
deriving DecidableEq

/-! ### Writing -/

/-- The bytes of a header. -/
def Header.bytes (h : Header) : List UInt8 :=
  leBytes 4 h.magic.toNat ++ leBytes 2 h.versionMajor.toNat ++ leBytes 2 h.versionMinor.toNat ++
    leBytes 4 h.thiszone.toNat ++ leBytes 4 h.sigfigs.toNat ++ leBytes 4 h.snaplen.toNat ++
    leBytes 4 h.network.toNat

/-- The bytes of a record. -/
def Record.bytes (r : Record) : List UInt8 :=
  leBytes 4 r.tsSec.toNat ++ leBytes 4 r.tsUsec.toNat ++ leBytes 4 r.inclLen.toNat ++
    leBytes 4 r.origLen.toNat ++ r.data

/-! ### Reading -/

/-- The `n` bytes at the front, as a list. -/
def getBytes (n : ℕ) : Reader (List UInt8) where
  run bs := if n ≤ bs.length then some (bs.take n, bs.drop n) else none

def header : Reader Header := do
  let magic ← getU32Le
  let versionMajor ← getU16Le
  let versionMinor ← getU16Le
  let thiszone ← getU32Le
  let sigfigs ← getU32Le
  let snaplen ← getU32Le
  let network ← getU32Le
  return ⟨magic, versionMajor, versionMinor, thiszone, sigfigs, snaplen, network⟩

def record : Reader Record := do
  let tsSec ← getU32Le
  let tsUsec ← getU32Le
  let inclLen ← getU32Le
  let origLen ← getU32Le
  let data ← getBytes inclLen.toNat
  return ⟨tsSec, tsUsec, inclLen, origLen, data⟩

/-- Records up to the end of the bytes, at most `fuel` of them. -/
def records : ℕ → List UInt8 → Option (List Record)
  | _, [] => some []
  | 0, _ :: _ => none
  | fuel + 1, b :: bs => do
    let (r, rest) ← record.run (b :: bs)
    let rs ← records fuel rest
    return r :: rs

/-- The header says that the file is little-endian with microseconds, version 2.4. -/
def Header.Supported (h : Header) : Prop :=
  h.magic = 0xa1b2c3d4 ∧ h.versionMajor = 2 ∧ h.versionMinor = 4

instance (h : Header) : Decidable h.Supported := inferInstanceAs (Decidable (_ ∧ _ ∧ _))

/-- A whole file. A record has at least one byte, so the fuel does not run out. -/
def parse (bs : List UInt8) : Option (Header × List Record) := do
  let (h, rest) ← header.run bs
  if h.Supported then
    let rs ← records rest.length rest
    return (h, rs)
  else none

/-! ### Reading what was written -/

variable {rest : List UInt8}

theorem getBytes_append (data : List UInt8) : (getBytes data.length).run (data ++ rest) =
    some (data, rest) := by
  have hle : data.length ≤ (data ++ rest).length := by simp
  show (if data.length ≤ (data ++ rest).length then _ else _) = _
  rw [if_pos hle, List.take_left, List.drop_left]

theorem run_header (h : Header) : header.run (h.bytes ++ rest) = some (h, rest) := by
  unfold header Header.bytes
  simp only [List.append_assoc, bind_getU32Le, bind_getU16Le, run_pure]

theorem run_record (r : Record) (hr : r.inclLen.toNat = r.data.length) :
    record.run (r.bytes ++ rest) = some (r, rest) := by
  unfold record Record.bytes
  simp only [List.append_assoc, bind_getU32Le]
  rw [hr, run_bind_of (getBytes_append r.data), run_pure]

theorem length_bytes (r : Record) : r.bytes.length = 16 + r.data.length := by
  simp [Record.bytes]
  omega

theorem records_write (rs : List Record) (hrs : ∀ r ∈ rs, r.inclLen.toNat = r.data.length)
    (fuel : ℕ) (hfuel : rs.length ≤ fuel) : records fuel (rs.flatMap Record.bytes) = some rs := by
  induction rs generalizing fuel with
  | nil => cases fuel <;> rfl
  | cons r rs ih =>
    obtain ⟨fuel, rfl⟩ : ∃ k, fuel = k + 1 := ⟨fuel - 1, by simp at hfuel; omega⟩
    have hrun : record.run (r.bytes ++ rs.flatMap Record.bytes) = some (r, rs.flatMap Record.bytes) :=
      run_record r (hrs r List.mem_cons_self)
    have hrest := ih (fun r' hr' => hrs r' (List.mem_cons_of_mem _ hr')) fuel (by simpa using hfuel)
    have hlen := length_bytes r
    rw [List.flatMap_cons]
    cases hbs : r.bytes ++ rs.flatMap Record.bytes with
    | nil =>
      have := congrArg List.length hbs
      rw [List.length_append, List.length_nil] at this
      omega
    | cons b bs =>
      rw [records, ← hbs, hrun]
      show (records fuel (rs.flatMap Record.bytes)).bind _ = _
      rw [hrest]
      rfl

/-- **A file that is written is read back.** -/
theorem parse_write (h : Header) (hh : h.Supported) (rs : List Record)
    (hrs : ∀ r ∈ rs, r.inclLen.toNat = r.data.length) :
    parse (h.bytes ++ rs.flatMap Record.bytes) = some (h, rs) := by
  have hcount : rs.length ≤ (rs.flatMap Record.bytes).length := by
    rw [List.length_flatMap]
    have hone : ∀ r ∈ rs, 1 ≤ r.bytes.length := fun r _ => by
      rw [length_bytes]
      omega
    simpa using List.card_nsmul_le_sum (rs.map fun r => r.bytes.length) 1 (by simpa using hone)
  unfold parse
  rw [run_header]
  show (if h.Supported then _ else none) = _
  rw [if_pos hh, records_write rs hrs _ hcount]
  rfl

end Pacsni.Lib.Pcap
