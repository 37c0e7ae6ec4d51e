import Pacsni.Capture.Memory
import Pacsni.Capture.Exposure
import Pacsni.Capture.Wire4

/-! # The server name of a TLS client hello

`dissect_tls_sni` walks over a client hello: past the session identifier, the cipher suites and the
compression methods to the extensions, and through these to the first one of type 0, whose host name
it copies. A `ClientHello` is such a message field by field; on its bytes the walk ends at the host
name (`dissectTlsSni_writes`). On arbitrary bytes it keeps to the payload but for one length: at 43
bytes the length of the session identifier is already behind the end (`dissectTlsSni_confined`). The
dispatch of `dissect_raw_packet` never gets to it (`dissectRawPacket_sniKept_iff`). -/

namespace Pacsni.Capture.TlsHello

open Pacsni.Lib.Bytes Pacsni.Lib.Trace Pacsni.Lib.CBuffer Pacsni.Lib.Region
open Pacsni.Capture.Types Pacsni.Capture.Dissectors Pacsni.Capture.Raw Pacsni.Capture.Memory
open Pacsni.Capture.Wire4 Pacsni.Capture.Exposure

variable {n p : ℕ} {packet : ℕ → UInt8}

/-! ### The bytes that are touched -/

theorem confined_sniLoop (l extEnd pos : ℕ) (out : Vector UInt8 n) {outMax : ℕ} (hout : 1 ≤ outMax)
    (hend : extEnd ≤ l) :
    Confined p l (fun _ => outMax) (sniLoop packet p extEnd pos out outMax).log := by
  unfold sniLoop
  refine .ite (fun h4 => ?_) fun _ => .pure
  refine .bind (confined_load16 (by omega) (by omega)) ?_
  refine .bind (confined_load16 (by omega) (by omega)) ?_
  -- every other branch goes on behind the extension
  have hrest := confined_sniLoop l extEnd (pos + 4 + (load16 packet (Site.read Fn.dissectTlsSni)
    (p + pos + 2)).val.toNat) out hout hend
  refine .ite (fun h9 => ?_) fun _ => hrest
  refine .bind (confined_load16 (by omega) (by omega)) ?_
  refine .ite (fun hname => ?_) fun _ => hrest
  refine .bind (confined_loadBytes (by omega) (by omega)) ?_
  refine .bind (confined_touch ?_) .pure
  rw [val_loadBytes_eq_slice, length_slice]
  omega
termination_by extEnd - pos

/-- The payload gets past the first tests of `dissect_tls_sni`. -/
def IsHandshake (packet : ℕ → UInt8) (p : ℕ) : Prop := packet p = 0x16 ∧ packet (p + 5) = 0x01

/-- What `dissect_tls_sni` does from the length of the session identifier on. -/
theorem confined_hello {len : ℤ} (hlen : 44 ≤ len) (out : Vector UInt8 n) {outMax : ℕ}
    (hout : 1 ≤ outMax) :
    Confined p len.toNat (fun _ => outMax) (dissectTlsSni packet p len out outMax).log := by
  unfold dissectTlsSni
  refine .ite (fun _ => .pure) fun _ => ?_
  refine .bind (confined_load8 (by omega) (by omega)) ?_
  refine .bind (.ite (fun _ => confined_load8 (by omega) (by omega)) fun _ => .pure) ?_
  refine .ite (fun _ => .pure) fun _ => ?_
  refine .bind (confined_load8 (by omega) (by omega)) ?_
  refine .ite (fun _ => .pure) fun hsuites => ?_
  refine .bind (confined_load16 (by omega) (by omega)) ?_
  refine .ite (fun _ => .pure) fun hmethods => ?_
  refine .bind (confined_load8 (by omega) (by omega)) ?_
  refine .ite (fun _ => .pure) fun hexts => ?_
  refine .bind (confined_load16 (by omega) (by omega)) ?_
  exact confined_sniLoop _ _ _ out hout (min_le_right _ _)

/-- A handshake of 43 bytes: the length of the session identifier is read at index 43. -/
theorem not_confined_short (hs : IsHandshake packet p) (out : Vector UInt8 n) (outMax : ℕ)
    {size : Buf → ℕ} : ¬ Confined p 43 size (dissectTlsSni packet p 43 out outMax).log := by
  intro h
  have hmem : (⟨.read .dissectTlsSni, p + 43, 1⟩ : Access Site) ∈
      (dissectTlsSni packet p 43 out outMax).log := by
    unfold dissectTlsSni
    rw [if_neg (by decide)]
    simp [hs.1, hs.2]
  have hread := h.reads _ hmem _ rfl (p + 43) ⟨le_rfl, Nat.lt_succ_self _⟩
  omega

/-- **Bounds of the walk over a client hello.** Every byte that `dissect_tls_sni` reads is one of the
`len` bytes of the payload and every byte it writes one of the `outMax` bytes of the text, unless the
payload is a handshake of 43 bytes: then it reads a byte behind the payload. -/
theorem dissectTlsSni_confined (len : ℤ) (out : Vector UInt8 n) {outMax : ℕ} (hout : 1 ≤ outMax) :
    Confined p len.toNat (fun _ => outMax) (dissectTlsSni packet p len out outMax).log ↔
      ¬ (len = 43 ∧ IsHandshake packet p) := by
  by_cases hlt : len < 43
  · have hpure : dissectTlsSni packet p len out outMax = pure out := if_pos hlt
    rw [hpure]
    exact iff_of_true .pure (by omega)
  by_cases hgt : 44 ≤ len
  · exact iff_of_true (confined_hello hgt out hout) (by omega)
  obtain rfl : len = 43 := by omega
  by_cases hs : IsHandshake packet p
  · exact iff_of_false (not_confined_short hs out outMax) (not_not_intro ⟨rfl, hs⟩)
  · refine iff_of_true ?_ fun h => hs h.2
    unfold dissectTlsSni
    refine .ite (fun _ => .pure) fun _ => ?_
    refine .bind (confined_load8 (by omega) (by omega)) ?_
    refine .bind (.ite (fun _ => confined_load8 (by omega) (by omega)) fun _ => .pure) ?_
    refine .ite (fun _ => .pure) fun hhead => absurd ?_ hs
    rw [not_or, not_not, not_not, val_load8] at hhead
    obtain ⟨h0, h5⟩ := hhead
    rw [if_pos h0] at h5
    exact ⟨h0, h5⟩

/-- The first 43 bytes of a client hello, and zeros. -/
def shortHello (i : ℕ) : UInt8 := if i = 0 then 0x16 else if i = 5 then 0x01 else 0

/-- A byte behind the short hello is read. -/
theorem shortHello_reads_behind : ¬ Confined 0 (43 : ℤ).toNat (fun _ => 64)
    (dissectTlsSni shortHello 0 43 (zeros 64) 64).log :=
  not_confined_short ⟨rfl, rfl⟩ (zeros 64) 64

/-- With one byte more the walk keeps to the payload. -/
theorem shortHello_confined : Confined 0 (44 : ℤ).toNat (fun _ => 64)
    (dissectTlsSni shortHello 0 44 (zeros 64) 64).log :=
  (dissectTlsSni_confined 44 (zeros 64) (by decide)).mpr fun h => by simp at h

/-! ### The message -/

/-- A vector of bytes with a length of one byte. -/
def vector8 (bs : List UInt8) : List UInt8 := UInt8.ofNat bs.length :: bs

/-- A vector of bytes with a length of two bytes. -/
def vector16 (bs : List UInt8) : List UInt8 := beBytes16 (UInt16.ofNat bs.length) ++ bs

@[simp] theorem length_vector8 (bs : List UInt8) : (vector8 bs).length = bs.length + 1 := rfl

@[simp] theorem length_vector16 (bs : List UInt8) : (vector16 bs).length = bs.length + 2 := by
  simp [vector16, Nat.add_comm]

/-- An extension of a client hello. -/
structure Extension where
  type : UInt16
  data : List UInt8
  fits : data.length < 2 ^ 16

def Extension.bytes (e : Extension) : List UInt8 := beBytes16 e.type ++ vector16 e.data

theorem Extension.length_bytes (e : Extension) : e.bytes.length = 4 + e.data.length := by
  rw [bytes, List.length_append, length_vector16, length_beBytes16]
  omega

/-- A list of server names that starts with a host name; `more` are the entries behind it. -/
structure ServerName where
  name : List UInt8
  more : List UInt8
  fits : name.length + more.length + 5 < 2 ^ 16

/-- The list as data of an extension: the type of the first entry is 0. -/
def ServerName.data (s : ServerName) : List UInt8 := vector16 ([0] ++ (vector16 s.name ++ s.more))

theorem ServerName.length_data (s : ServerName) :
    s.data.length = s.name.length + s.more.length + 5 := by
  rw [ServerName.data, length_vector16, List.length_append, List.length_append, length_vector16,
    List.length_singleton]
  omega

/-- The `server_name` extension. -/
def ServerName.extension (s : ServerName) : Extension :=
  ⟨0, s.data, by rw [s.length_data]; exact s.fits⟩

/-- The fields of a client hello with a `server_name` extension, the first of its type. -/
structure HelloFields where
  recordVersion : UInt16
  version : UInt16
  random : Vector UInt8 32
  sessionId : List UInt8
  cipherSuites : List UInt16
  compressionMethods : List UInt8
  before : List Extension
  serverName : ServerName
  after : List Extension
  sessionIdFits : sessionId.length < 2 ^ 8
  compressionMethodsFit : compressionMethods.length < 2 ^ 8
  first : ∀ e ∈ before, e.type ≠ 0

namespace HelloFields

variable (h : HelloFields)

/-- The bytes of the cipher suites. -/
def suites : List UInt8 := h.cipherSuites.flatMap beBytes16

/-- The extensions behind each other. -/
def extensions : List UInt8 :=
  h.before.flatMap Extension.bytes ++ (h.serverName.extension.bytes ++ h.after.flatMap Extension.bytes)

/-- The body of the handshake message. -/
def body : List UInt8 :=
  beBytes16 h.version ++ (h.random.toList ++ (vector8 h.sessionId ++
    (vector16 h.suites ++ (vector8 h.compressionMethods ++ vector16 h.extensions))))

end HelloFields

/-- A client hello that fits in one record. -/
structure ClientHello extends HelloFields where
  fits : toHelloFields.body.length + 4 < 2 ^ 16

/-- The record: its type, version and length, then the handshake message with its type and its length
of three bytes, the highest of which is zero. -/
def ClientHello.bytes (h : ClientHello) : List UInt8 :=
  [0x16] ++ (beBytes16 h.recordVersion ++ vector16 ([0x01] ++ ([0] ++ vector16 h.body)))

/-! ### Reading it back -/

theorem holds_vector8 {mem : ℕ → UInt8} {off : ℕ} {bs : List UInt8} (hb : Holds mem off (vector8 bs))
    (hfits : bs.length < 2 ^ 8) : (mem off).toNat = bs.length ∧ Holds mem (off + 1) bs := by
  obtain ⟨hlen, hrest⟩ := holds_cons.mp hb
  refine ⟨?_, hrest⟩
  rw [hlen, UInt8.toNat_ofNat']
  exact Nat.mod_eq_of_lt hfits

theorem holds_vector16 {mem : ℕ → UInt8} {off : ℕ} {bs : List UInt8}
    (hb : Holds mem off (vector16 bs)) (hfits : bs.length < 2 ^ 16) :
    (be16 (mem off) (mem (off + 1))).toNat = bs.length ∧ Holds mem (off + 2) bs := by
  obtain ⟨hlen, hrest⟩ := holds_append.mp hb
  refine ⟨?_, hrest⟩
  rw [hlen.be16, UInt16.toNat_ofNat']
  exact Nat.mod_eq_of_lt hfits

section

variable {extEnd pos outMax : ℕ} {out : Vector UInt8 n} {y : C (Vector UInt8 n)}

/-- An extension of another type is skipped. -/
theorem sniLoop_skip {e : Extension} (hb : Holds packet (p + pos) e.bytes) (he : e.type ≠ 0)
    (hend : pos + e.bytes.length ≤ extEnd)
    (hy : ReadsThen (sniLoop packet p extEnd (pos + e.bytes.length) out outMax) y) :
    ReadsThen (sniLoop packet p extEnd pos out outMax) y := by
  obtain ⟨htype, hdata⟩ := holds_append.mp hb
  obtain ⟨hlen, -⟩ := holds_vector16 hdata e.fits
  have hbytes := e.length_bytes
  rw [hbytes, ← Nat.add_assoc, ← hlen] at hy
  unfold sniLoop
  rw [if_pos (by omega)]
  refine .load16 (.load16 ?_)
  rw [if_neg fun h => he (htype.be16.symm.trans h.1)]
  exact hy

/-- All extensions before the first of type 0 are skipped. -/
theorem sniLoop_before : ∀ (es : List Extension) (pos : ℕ),
    Holds packet (p + pos) (es.flatMap Extension.bytes) → (∀ e ∈ es, e.type ≠ 0) →
    pos + (es.flatMap Extension.bytes).length ≤ extEnd →
    ReadsThen (sniLoop packet p extEnd (pos + (es.flatMap Extension.bytes).length) out outMax) y →
    ReadsThen (sniLoop packet p extEnd pos out outMax) y
  | [], pos, _, _, _, hy => hy
  | e :: es, pos, hb, hne, hend, hy => by
    rw [List.flatMap_cons] at hb hend hy
    rw [List.length_append] at hend hy
    obtain ⟨he, hes⟩ := holds_append.mp hb
    rw [Nat.add_assoc] at hes
    refine sniLoop_skip he (hne e List.mem_cons_self) (by omega) ?_
    refine sniLoop_before es _ hes (fun e' he' => hne e' (List.mem_cons_of_mem _ he')) (by omega) ?_
    rwa [Nat.add_assoc]

/-- At the `server_name` extension the host name is copied. -/
theorem sniLoop_found {s : ServerName} (hb : Holds packet (p + pos) s.extension.bytes)
    (hend : pos + s.extension.bytes.length ≤ extEnd) :
    ReadsThen (sniLoop packet p extEnd pos out outMax) (do
      touch (.write .dissectTlsSni .out) 0 (min s.name.length (outMax - 1) + 1)
      pure (writeAt out 0 (s.name.take (outMax - 1) ++ [0]))) := by
  obtain ⟨htype, hdata⟩ := holds_append.mp hb
  obtain ⟨-, hdata⟩ := holds_vector16 hdata s.extension.fits
  obtain ⟨-, hlist⟩ := holds_append.mp hdata
  obtain ⟨-, hlist⟩ := holds_append.mp hlist
  obtain ⟨hname, -⟩ := holds_append.mp hlist
  have hfits := s.fits
  obtain ⟨hlen, hname⟩ := holds_vector16 hname (by omega)
  replace hlen : (be16 (packet (p + pos + 4 + 3)) (packet (p + pos + 4 + 3 + 1))).toNat =
    s.name.length := hlen
  replace hname : Holds packet (p + pos + 4 + 5) s.name := hname
  have hbytes : s.extension.bytes.length = 4 + s.data.length := s.extension.length_bytes
  rw [hbytes, s.length_data] at hend
  have hcopy : slice packet (p + pos + 4 + 5) (min s.name.length (outMax - 1)) =
      s.name.take (outMax - 1) := by
    have hslice : slice packet (p + pos + 4 + 5) s.name.length = s.name := hname.map_range
    rw [min_comm, ← take_slice, hslice]
  unfold sniLoop
  rw [if_pos (by omega)]
  refine .load16 (.load16 ?_)
  rw [if_pos ⟨htype.be16, by omega⟩]
  refine .load16 ?_
  rw [hlen, if_pos (by omega)]
  refine .loadBytes ?_
  rw [length_slice, hcopy]
  exact .refl

end

/-! ### The walk to the extensions -/

namespace HelloFields

variable (h : HelloFields)

/-- Where the cipher suites start, the payload counted from its first byte. -/
def suitesAt : ℕ := 43 + 1 + h.sessionId.length

/-- Where the compression methods start. -/
def methodsAt : ℕ := h.suitesAt + 2 + h.suites.length

/-- Where the extensions start. -/
def extensionsAt : ℕ := h.methodsAt + 1 + h.compressionMethods.length

end HelloFields

/-- The order of the places. -/
theorem HelloFields.places (h : HelloFields) :
    44 ≤ h.suitesAt ∧ h.suitesAt + 2 ≤ h.methodsAt ∧ h.methodsAt + 1 ≤ h.extensionsAt := by
  unfold extensionsAt methodsAt suitesAt
  omega

theorem HelloFields.length_extensions (h : HelloFields) :
    h.extensions.length = (h.before.flatMap Extension.bytes).length +
      (h.serverName.extension.bytes.length + (h.after.flatMap Extension.bytes).length) := by
  rw [extensions, List.length_append, List.length_append]

/-- What `dissect_tls_sni` finds at the places where it looks. -/
structure HelloAt (packet : ℕ → UInt8) (p : ℕ) (h : HelloFields) : Prop where
  handshake : IsHandshake packet p
  sessionId : (packet (p + 43)).toNat = h.sessionId.length
  suites : (be16 (packet (p + h.suitesAt)) (packet (p + h.suitesAt + 1))).toNat = h.suites.length
  methods : (packet (p + h.methodsAt)).toNat = h.compressionMethods.length
  total : (be16 (packet (p + h.extensionsAt)) (packet (p + h.extensionsAt + 1))).toNat =
    h.extensions.length
  extensions : Holds packet (p + (h.extensionsAt + 2)) h.extensions

theorem HelloFields.length_body (h : HelloFields) :
    h.body.length = h.extensionsAt + 2 + h.extensions.length - 9 := by
  simp only [body, extensionsAt, methodsAt, suitesAt, List.length_append, length_beBytes16,
    length_vector8, length_vector16, Vector.length_toList]
  omega

theorem ClientHello.length_bytes (h : ClientHello) :
    h.bytes.length = h.extensionsAt + 2 + h.extensions.length := by
  have hbody := h.length_body
  have hlow : 9 ≤ h.extensionsAt := by
    unfold HelloFields.extensionsAt HelloFields.methodsAt HelloFields.suitesAt
    omega
  simp only [bytes, List.length_append, length_beBytes16, length_vector16, List.length_singleton]
  omega

theorem helloAt_of_holds {h : ClientHello} (hb : Holds packet p h.bytes) :
    HelloAt packet p h.toHelloFields := by
  have hfits := h.fits
  have hbody := h.length_body
  have hsidFits := h.sessionIdFits
  unfold HelloFields.extensionsAt HelloFields.methodsAt HelloFields.suitesAt at hbody
  obtain ⟨htype, hb⟩ := holds_append.mp hb
  obtain ⟨-, hb⟩ := holds_append.mp hb
  obtain ⟨-, hb⟩ := holds_vector16 hb (by
    rw [List.length_append, List.length_append, length_vector16, List.length_singleton,
      List.length_singleton]
    omega)
  obtain ⟨hkind, hb⟩ := holds_append.mp hb
  obtain ⟨-, hb⟩ := holds_append.mp hb
  obtain ⟨-, hb⟩ := holds_vector16 hb (by omega)
  obtain ⟨-, hb⟩ := holds_append.mp hb
  obtain ⟨-, hb⟩ := holds_append.mp hb
  obtain ⟨hsid, hb⟩ := holds_append.mp hb
  obtain ⟨hsuites, hb⟩ := holds_append.mp hb
  obtain ⟨hmethods, hexts⟩ := holds_append.mp hb
  simp only [Vector.length_toList, length_beBytes16, List.length_singleton, length_vector8,
    length_vector16] at hsid hsuites hmethods hexts hkind
  -- the sums of the lengths so far are the places where the code looks
  replace hsid : Holds packet (p + 43) (vector8 h.sessionId) := hsid
  replace hsuites : Holds packet (p + h.suitesAt) (vector16 h.suites) := by
    convert hsuites using 1
    unfold HelloFields.suitesAt
    omega
  replace hmethods : Holds packet (p + h.methodsAt) (vector8 h.compressionMethods) := by
    convert hmethods using 1
    unfold HelloFields.methodsAt HelloFields.suitesAt
    omega
  replace hexts : Holds packet (p + h.extensionsAt) (vector16 h.extensions) := by
    convert hexts using 1
    unfold HelloFields.extensionsAt HelloFields.methodsAt HelloFields.suitesAt
    omega
  obtain ⟨hsidLen, -⟩ := holds_vector8 hsid h.sessionIdFits
  obtain ⟨hsuitesLen, -⟩ := holds_vector16 hsuites (by omega)
  obtain ⟨hmethodsLen, -⟩ := holds_vector8 hmethods h.compressionMethodsFit
  obtain ⟨htotal, hexts⟩ := holds_vector16 hexts (by omega)
  exact ⟨⟨(holds_cons.mp htype).1, (holds_cons.mp hkind).1⟩, hsidLen, hsuitesLen, hmethodsLen, htotal,
    hexts⟩

/-- The walk goes past the fields before the extensions and ends at the host name. -/
theorem dissectTlsSni_reads {h : ClientHello} (hb : Holds packet p h.bytes) {len : ℤ}
    (hlen : h.bytes.length ≤ len) (out : Vector UInt8 n) (outMax : ℕ) :
    ReadsThen (dissectTlsSni packet p len out outMax) (do
      touch (.write .dissectTlsSni .out) 0 (min h.serverName.name.length (outMax - 1) + 1)
      pure (writeAt out 0 (h.serverName.name.take (outMax - 1) ++ [0]))) := by
  have hat := helloAt_of_holds hb
  obtain ⟨hsuites, hmethods, hexts⟩ := h.places
  have hext : 4 ≤ h.serverName.extension.bytes.length := by
    rw [Extension.length_bytes]
    omega
  have htotal := h.length_extensions
  rw [h.length_bytes] at hlen
  unfold dissectTlsSni
  rw [if_neg (by omega)]
  refine .load8 ?_
  rw [if_pos hat.handshake.1]
  refine .load8 ?_
  rw [if_neg (by simp [hat.handshake.1, hat.handshake.2])]
  refine .load8 ?_
  rw [hat.sessionId, ← HelloFields.suitesAt, if_neg (by omega)]
  refine .load16 ?_
  rw [hat.suites, ← HelloFields.methodsAt, if_neg (by omega)]
  refine .load8 ?_
  rw [hat.methods, ← HelloFields.extensionsAt, if_neg (by omega)]
  refine .load16 ?_
  rw [hat.total]
  obtain ⟨hbefore, hrest⟩ := holds_append.mp hat.extensions
  obtain ⟨hname, -⟩ := holds_append.mp hrest
  rw [Nat.add_assoc p] at hname
  exact sniLoop_before h.before _ hbefore h.first (by omega) (sniLoop_found hname (by omega))

/-- **The server name of a client hello.** On the bytes of a client hello `dissect_tls_sni` writes as
much of the host name as fits before a NUL, and writes nothing else. -/
theorem dissectTlsSni_writes (h : ClientHello) (hb : Holds packet p h.bytes) {len : ℤ}
    (hlen : h.bytes.length ≤ len) (out : Vector UInt8 n) {outMax : ℕ} (_hout : 1 ≤ outMax) :
    let run := dissectTlsSni packet p len out outMax
    let name := h.serverName.name
    run.val = writeAt out 0 (name.take (outMax - 1) ++ [0]) ∧
    ∃ reads, Silent reads ∧
      run.log = reads ++ [⟨.write .dissectTlsSni .out, 0, min name.length (outMax - 1) + 1⟩] := by
  obtain ⟨reads, hsilent, hval, hlog⟩ := dissectTlsSni_reads hb hlen out outMax
  exact ⟨hval, reads, hsilent, hlog⟩

/-- A hello for `a.b` with one extension before the name. -/
def smallHello : ClientHello where
  recordVersion := 0x0301
  version := 0x0303
  random := Vector.replicate 32 7
  sessionId := [1, 2]
  cipherSuites := [0x1301, 0xc02f]
  compressionMethods := [0]
  before := [⟨0x0017, [], by decide⟩]
  serverName := ⟨ascii "a.b", [], by decide⟩
  after := [⟨0xff01, [0], by decide⟩]
  sessionIdFits := by decide
  compressionMethodsFit := by decide
  first := by decide
  fits := by decide

theorem smallHello_name : Holds (fun i => smallHello.bytes.getD i 0) 0 smallHello.bytes ∧
    (dissectTlsSni (fun i => smallHello.bytes.getD i 0) 0 smallHello.bytes.length (zeros 64) 64).val =
      writeAt (zeros 64) 0 (ascii "a.b" ++ [0]) := by
  have hb : Holds (fun i => smallHello.bytes.getD i 0) 0 smallHello.bytes := by
    intro j hj
    simp [List.getD_eq_getElem?_getD, hj]
  exact ⟨hb, (dissectTlsSni_writes smallHello hb le_rfl (zeros 64) (by decide)).1⟩

/-! ### Where the walk is called -/

/-- A captured IPv4 frame of at most 256 bytes with a client hello, on other ports than those of HTTP
and VXLAN. -/
structure HelloFrame extends WireFrame where
  tcp : WireTcp
  hello : ClientHello
  l4_eq : l4 = .tcp tcp
  payload_eq : payload = hello.bytes
  ports : ∀ port ∈ [tcp.srcPort, tcp.dstPort], port ≠ 80 ∧ port ≠ 4789
  short : toWireFrame.bytes.length ≤ 256

/-- The record has as much of the name as fits in `tls_sni`, and a NUL. -/
def SniKept (name : List UInt8) (r : PacketInfo) : Prop :=
  r.tlsSni.toList.take ((name.take 63).length + 1) = name.take 63 ++ [0]

/-- The dispatch calls `dissect_tls_sni` only when there is a name already, so none is ever set. -/
theorem dissectRawPacket_tlsSni_zero {f : WireFrame} (hlen : f.bytes.length ≤ 256)
    (ts lastTs : Timeval) (mem : ℕ → UInt8) (prior : PacketInfo) :
    ∃ r, (dissectRawPacket (packetHandler (f.pkthdr ts) (fun i => f.bytes.getD i 0) mem lastTs)
      prior).val = some r ∧ r.tlsSni = zeros 64 := by
  generalize hraw : packetHandler (f.pkthdr ts) (fun i => f.bytes.getD i 0) mem lastTs = raw
  obtain ⟨-, hcap, hl⟩ := layersOK_packetHandler hlen hraw.symm
  obtain ⟨t, ht, -⟩ := hl.transport
  have h14 : 14 ≤ raw.pkthdr.caplen.toNat := by
    rw [hcap, f.length_bytes]
    omega
  obtain ⟨r, hr, -⟩ := dissectRawPacket_wire hl ht prior
  have htold : Outcome raw.data raw.pkthdr.caplen (some r) := hr ▸ dissectRawPacket_told h14 prior
  exact ⟨r, hr, htold.tlsSni⟩

/-- An empty `tls_sni` is right for a name of NULs only. -/
theorem sniKept_zeros {name : List UInt8} {r : PacketInfo} (hr : r.tlsSni = zeros 64) :
    SniKept name r ↔ ∀ b ∈ name.take 63, b = 0 := by
  have h63 : (name.take 63).length ≤ 63 := List.length_take_le 63 name
  have hzero : r.tlsSni.toList.take ((name.take 63).length + 1) =
      List.replicate (name.take 63).length 0 ++ [0] := by
    rw [hr, zeros, Vector.toList_replicate, List.take_replicate, min_eq_left (by omega),
      List.replicate_succ']
  unfold SniKept
  rw [hzero, List.append_left_inj, eq_comm, List.eq_replicate_iff]
  exact and_iff_right rfl

/-- **The server name of a captured hello.** The record of a client hello has the server name if and
only if the first 63 bytes of the name are all NUL. -/
theorem dissectRawPacket_sniKept_iff (f : HelloFrame) (ts lastTs : Timeval) (mem : ℕ → UInt8)
    (prior : PacketInfo) :
    (∃ r, (dissectRawPacket (packetHandler (f.pkthdr ts) (fun i => f.bytes.getD i 0) mem lastTs)
      prior).val = some r ∧ SniKept f.hello.serverName.name r) ↔
      ∀ b ∈ f.hello.serverName.name.take 63, b = 0 := by
  obtain ⟨r, hr, hzero⟩ := dissectRawPacket_tlsSni_zero f.short ts lastTs mem prior
  rw [← sniKept_zeros hzero]
  constructor
  · rintro ⟨r', hr', hkept⟩
    obtain rfl := Option.some_injective _ (hr.symm.trans hr')
    exact hkept
  · exact fun hkept => ⟨r, hr, hkept⟩

/-- The small hello on its way to port 443. -/
def smallFrame : HelloFrame where
  dstMac := taggedQuery.dstMac
  srcMac := taggedQuery.srcMac
  tags := []
  ip := { taggedQuery.ip with options := .none }
  l4 := .tcp (httpsSegment 512)
  payload := smallHello.bytes
  tcp := httpsSegment 512
  hello := smallHello
  l4_eq := rfl
  payload_eq := rfl
  ports := by simp [httpsSegment]
  short := by decide +kernel

theorem smallFrame_sni_lost : ¬ ∃ r, (dissectRawPacket (packetHandler (smallFrame.pkthdr ⟨0, 0⟩)
    (fun i => smallFrame.bytes.getD i 0) (fun _ => 0) ⟨0, 0⟩) PacketInfo.zero).val = some r ∧
    SniKept (ascii "a.b") r := by
  rintro ⟨r, hr, hkept⟩
  obtain ⟨r', hr', hzero⟩ := dissectRawPacket_tlsSni_zero smallFrame.short ⟨0, 0⟩ ⟨0, 0⟩ (fun _ => 0)
    PacketInfo.zero
  obtain rfl := Option.some_injective _ (hr.symm.trans hr')
  have hall := (sniKept_zeros hzero).mp hkept
  exact absurd (hall 97 (by decide)) (by decide)

end Pacsni.Capture.TlsHello
