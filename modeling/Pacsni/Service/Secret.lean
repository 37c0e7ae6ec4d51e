import Pacsni.Service.Framing

/-! # The shared secret

The capture process takes the key of its MAC from the environment, with a default; the service has a
key of its own. HMAC-SHA512 is a parameter: a function of a key and a chunk. A message passes the check
of the service, whatever the keyed function is, if and only if the configured key is that of the
service. -/

namespace Pacsni.Service.Secret

open Pacsni.Capture.Types Pacsni.Capture.Layout
open Pacsni.Service.Model Pacsni.Service.Framing

/-- A C string, without the NUL at its end. -/
structure CString where
  bytes : List UInt8
  no_nul : 0 ∉ bytes

/-- `SHARED_SECRET` of the service. -/
def serviceSecret : List UInt8 := "pacsni_secure_shared_secret_123".toUTF8.toList

/-- `shared_secret` of the capture process; `env` is what `getenv("PACSNI_SHARED_SECRET")` returns. -/
def sharedSecret (env : Option CString) : List UInt8 :=
  match env with
  | some secret => secret.bytes
  | none => "pacsni_secure_shared_secret_123".toUTF8.toList

/-- HMAC-SHA512: the tag for a key and a chunk. -/
abbrev Hmac : Type := List UInt8 → List UInt8 → Vector UInt8 64

/-- The message that the capture process sends for a record. -/
def captureMessage (hmac : Hmac) (env : Option CString) (p : PacketInfo) : List UInt8 :=
  sendPacketInfo (hmac (sharedSecret env)) p

/-- `hmac::verify` with the key of the service. -/
def serviceVerify (hmac : Hmac) (chunk tag : List UInt8) : Bool :=
  (hmac serviceSecret chunk).toList == tag

/-- The message passes if and only if the two keys give the same tag for the record. -/
theorem verifies_captureMessage (hmac : Hmac) (env : Option CString) (p : PacketInfo) :
    verifies (serviceVerify hmac) (captureMessage hmac env p) = true ↔
      hmac serviceSecret (toBytes p) = hmac (sharedSecret env) (toBytes p) := by
  have hlen : (toBytes p).length = structSize := length_toBytes p
  have hchunk : (captureMessage hmac env p).take structSize = toBytes p := by
    rw [captureMessage, sendPacketInfo, ← hlen, List.take_left]
  have htag : ((captureMessage hmac env p).take totalMsgSize).drop structSize =
      (hmac (sharedSecret env) (toBytes p)).toList := by
    have hall : (captureMessage hmac env p).length = totalMsgSize := by
      simp [captureMessage, sendPacketInfo, hlen, totalMsgSize, hashSize]
    rw [← hall, List.take_length, captureMessage, sendPacketInfo, ← hlen, List.drop_left]
  unfold verifies serviceVerify
  rw [hchunk, htag, beq_iff_eq, Vector.toList_inj]

/-- A keyed function that tells one key from all others. -/
def marking (key : List UInt8) : Hmac := fun k _ =>
  if k = key then Vector.replicate 64 1 else Vector.replicate 64 0

theorem marking_ne {key k : List UInt8} (h : k ≠ key) (chunk : List UInt8) :
    marking key key chunk ≠ marking key k chunk := by
  unfold marking
  rw [if_pos rfl, if_neg h]
  decide

/-- **The two keys.** With a configured secret every message of the capture process passes the check of
the service, for every keyed function, if and only if the secret is the constant of the service. -/
theorem captureMessage_verifies_iff (secret : CString) :
    (∀ (hmac : Hmac) (p : PacketInfo),
      verifies (serviceVerify hmac) (captureMessage hmac (some secret) p) = true) ↔
      secret.bytes = serviceSecret := by
  constructor
  · intro h
    by_contra hne
    have hsame := (verifies_captureMessage _ _ _).mp (h (marking serviceSecret) PacketInfo.zero)
    exact marking_ne hne _ hsame
  · intro heq hmac p
    rw [verifies_captureMessage]
    show hmac serviceSecret _ = hmac secret.bytes _
    rw [heq]

/-- The secret `k`. -/
def otherSecret : CString := ⟨[0x6b], by decide⟩

/-- With another secret a message can fail the check. -/
theorem otherSecret_fails : otherSecret.bytes ≠ [] ∧
    ¬ ∀ (secret : CString), secret.bytes ≠ [] → ∀ (hmac : Hmac) (p : PacketInfo),
      verifies (serviceVerify hmac) (captureMessage hmac (some secret) p) = true := by
  refine ⟨by decide, fun h => ?_⟩
  have hne : otherSecret.bytes ≠ serviceSecret := by decide +kernel
  have hsame := (verifies_captureMessage _ _ _).mp
    (h otherSecret (by decide) (marking serviceSecret) PacketInfo.zero)
  exact marking_ne hne _ hsame

end Pacsni.Service.Secret
