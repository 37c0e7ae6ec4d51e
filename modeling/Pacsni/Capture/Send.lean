import Pacsni.Capture.Layout

/-! # The TLS writer

`sender_thread_main` pops records and calls `send_packet_info` for each; `send_packet_info` writes the
message of 1088 bytes with `SSL_write`, which may accept a part of what it is given, ask to be called
again, or fail. The session and its answers are the environment: `Session` keeps the bytes the session
has accepted so far, an `Outcome` is what it answers to one call, and a run is driven by a list of
outcomes. A run that has used up its outcomes is one that waits for the next answer, so a statement about
every list of outcomes is one about every moment of every run. -/

namespace Pacsni.Capture.Send

open Pacsni.Capture.Types Pacsni.Capture.Layout

/-! ### The session -/

/-- The answer of a working session to one call of `SSL_write`: it accepts `k + 1` bytes, or all it is
given if these are fewer; it asks for the call to be repeated; or it fails for good. -/
inductive Outcome
  | wrote (k : ℕ)
  | wantRetry
  | fatal
deriving DecidableEq

/-- A TLS session: the bytes it has accepted, and whether a call has failed for good. -/
structure Session where
  accepted : List UInt8
  broken : Bool

/-- What a call of `SSL_write` and `SSL_get_error` tell: a positive count, one of `SSL_ERROR_WANT_WRITE`
and `SSL_ERROR_WANT_READ`, or another error. -/
inductive WriteResult
  | count (n : ℕ)
  | want
  | error

/-- `SSL_write(ssl, buf, num)` for the `num` bytes `buf`. After a fatal error every call fails. -/
def sslWrite (s : Session) (buf : List UInt8) (o : Outcome) : WriteResult × Session :=
  if s.broken then (.error, s)
  else
    match o with
    | .wrote k =>
      let n := min (k + 1) buf.length
      (.count n, { s with accepted := s.accepted ++ buf.take n })
    | .wantRetry => (.want, s)
    | .fatal => (.error, { s with broken := true })

/-! ### The sender -/

/-- The sender after some answers: the session, the answers that were not asked for, and whether the
call has returned. -/
structure Progress where
  session : Session
  rest : List Outcome
  returned : Bool

/-- The loop of `send_packet_info`: `sent` bytes of the buffer have been accepted. -/
def sendLoop (combined : List UInt8) : ℕ → Session → List Outcome → Progress
  | sent, s, [] => ⟨s, [], decide (combined.length ≤ sent)⟩
  | sent, s, o :: os =>
    if sent < combined.length then
      match sslWrite s (combined.drop sent) o with
      | (.count n, s') => sendLoop combined (sent + n) s' os
      | (.want, s') => sendLoop combined sent s' os
      | (.error, s') => ⟨s', os, true⟩
    else ⟨s, o :: os, true⟩

variable (hmac : List UInt8 → Vector UInt8 64)

/-- `sender_thread_main` for the records it pops, in the order it pops them. -/
def senderThreadMain : List PacketInfo → Session → List Outcome → Progress
  | [], s, os => ⟨s, os, true⟩
  | info :: infos, s, os =>
    let p := sendLoop (sendPacketInfo hmac info) 0 s os
    if p.returned then senderThreadMain infos p.session p.rest else p

/-- The messages of the records, one behind the other. -/
def messages (infos : List PacketInfo) : List UInt8 := infos.flatMap (sendPacketInfo hmac)

theorem length_messages (infos : List PacketInfo) :
    (messages hmac infos).length = 1088 * infos.length := by
  induction infos with
  | nil => rfl
  | cons info infos ih =>
    have hlen : (sendPacketInfo hmac info).length = 1088 := by
      rw [sendPacketInfo, List.length_append, length_toBytes, Vector.length_toList]
    unfold messages at ih ⊢
    rw [List.flatMap_cons, List.length_append, ih, hlen, List.length_cons]
    omega

/-- A session that has accepted nothing. -/
def Session.fresh : Session := ⟨[], false⟩

/-! ### One call -/

variable {hmac} {combined : List UInt8}

theorem sslWrite_broken {s : Session} (h : s.broken = true) (buf : List UInt8) (o : Outcome) :
    sslWrite s buf o = (.error, s) := by
  unfold sslWrite
  rw [if_pos h]

/-- A broken session accepts nothing. -/
theorem sendLoop_broken {s : Session} (h : s.broken = true) (sent : ℕ) :
    ∀ os, (sendLoop combined sent s os).session = s
  | [] => rfl
  | o :: os => by
    unfold sendLoop
    rw [sslWrite_broken h]
    split_ifs <;> rfl

/-- **The offset.** The bytes that a working session has accepted of a message are its first `k`; `sent`
is `k` at every call, and `k` is the whole message if the loop ends without an error. -/
theorem sendLoop_spec {base : List UInt8} : ∀ (os : List Outcome) {sent : ℕ} {s : Session},
    s.broken = false → sent ≤ combined.length → s.accepted = base ++ combined.take sent →
    ∃ k ≤ combined.length, (sendLoop combined sent s os).session.accepted = base ++ combined.take k ∧
      ((sendLoop combined sent s os).session.broken = false →
        (sendLoop combined sent s os).returned = true → k = combined.length)
  | [], sent, s, hs, hle, hacc => by
    refine ⟨sent, hle, hacc, fun _ hret => ?_⟩
    have : combined.length ≤ sent := of_decide_eq_true hret
    omega
  | o :: os, sent, s, hs, hle, hacc => by
    unfold sendLoop
    by_cases hlt : sent < combined.length
    swap
    · rw [if_neg hlt]
      exact ⟨sent, hle, hacc, fun _ _ => by omega⟩
    rw [if_pos hlt]
    unfold sslWrite
    rw [if_neg (by rw [hs]; decide)]
    cases o with
    | wrote k =>
      dsimp only
      have hn : min (k + 1) (combined.drop sent).length ≤ combined.length - sent := by
        rw [List.length_drop]
        omega
      refine sendLoop_spec os hs (by omega) ?_
      rw [hacc, List.append_assoc, List.take_add]
    | wantRetry => exact sendLoop_spec os hs hle hacc
    | fatal => exact ⟨sent, hle, hacc, fun h => absurd h (by simp)⟩

/-- Only a fatal outcome breaks a session. -/
theorem sendLoop_working : ∀ (os : List Outcome) {sent : ℕ} {s : Session}, s.broken = false →
    .fatal ∉ os → (sendLoop combined sent s os).session.broken = false ∧
      .fatal ∉ (sendLoop combined sent s os).rest
  | [], sent, s, hs, hno => ⟨hs, hno⟩
  | o :: os, sent, s, hs, hno => by
    obtain ⟨ho, hos⟩ := not_or.mp (List.mem_cons.not.mp hno)
    unfold sendLoop
    by_cases hlt : sent < combined.length
    swap
    · rw [if_neg hlt]
      exact ⟨hs, hno⟩
    rw [if_pos hlt]
    unfold sslWrite
    rw [if_neg (by rw [hs]; decide)]
    cases o with
    | wrote k => exact sendLoop_working os hs hos
    | wantRetry => exact sendLoop_working os hs hos
    | fatal => exact absurd rfl ho

/-- The number of answers that accept something. -/
def writes (os : List Outcome) : ℕ := os.countP fun o => match o with
  | .wrote _ => true
  | _ => false

/-- Every answer that accepts something takes the loop one byte further: as many of them as there are
bytes left let it return. -/
theorem sendLoop_returns : ∀ (os : List Outcome) (sent : ℕ) (s : Session), s.broken = false →
    .fatal ∉ os → combined.length ≤ sent + writes os →
    (sendLoop combined sent s os).returned = true ∧
      sent + writes os ≤ max sent combined.length + writes (sendLoop combined sent s os).rest
  | [], sent, s, hs, hno, hw => by
    have hle : combined.length ≤ sent := hw
    exact ⟨decide_eq_true hle, by simp [sendLoop]⟩
  | o :: os, sent, s, hs, hno, hw => by
    obtain ⟨ho, hos⟩ := not_or.mp (List.mem_cons.not.mp hno)
    unfold sendLoop
    by_cases hlt : sent < combined.length
    swap
    · rw [if_neg hlt]
      exact ⟨rfl, Nat.add_le_add_right (le_max_left _ _) _⟩
    rw [if_pos hlt]
    unfold sslWrite
    rw [if_neg (by rw [hs]; decide)]
    cases o with
    | wrote k =>
      dsimp only
      have hn : 1 ≤ min (k + 1) (combined.drop sent).length ∧
          sent + min (k + 1) (combined.drop sent).length ≤ combined.length := by
        rw [List.length_drop]
        omega
      have hcount : writes (.wrote k :: os) = writes os + 1 := by simp [writes]
      obtain ⟨hret, hrest⟩ := sendLoop_returns os (sent + min (k + 1) (combined.drop sent).length)
        ⟨s.accepted ++ (combined.drop sent).take (min (k + 1) (combined.drop sent).length), s.broken⟩
        hs hos (by omega)
      exact ⟨hret, by omega⟩
    | wantRetry =>
      have hcount : writes (.wantRetry :: os) = writes os := by simp [writes]
      rw [hcount] at hw ⊢
      exact sendLoop_returns os sent s hs hos hw
    | fatal => exact absurd rfl ho

/-! ### All records -/

/-- A broken session accepts nothing of any record. -/
theorem senderThreadMain_broken {s : Session} (h : s.broken = true) : ∀ (infos : List PacketInfo)
    (os : List Outcome), (senderThreadMain hmac infos s os).session = s
  | [], _ => rfl
  | info :: infos, os => by
    have hs := @sendLoop_broken (sendPacketInfo hmac info) s h 0 os
    unfold senderThreadMain
    dsimp only
    split_ifs
    · rw [hs]
      exact senderThreadMain_broken h infos _
    · exact hs

/-- The bytes that a working session has accepted of the messages are their first `k`, and all of them
if the sender has returned and the session still works. -/
theorem senderThreadMain_spec : ∀ (infos : List PacketInfo) (os : List Outcome) {s : Session},
    s.broken = false → ∃ k ≤ (messages hmac infos).length,
      (senderThreadMain hmac infos s os).session.accepted =
        s.accepted ++ (messages hmac infos).take k ∧
      ((senderThreadMain hmac infos s os).session.broken = false →
        (senderThreadMain hmac infos s os).returned = true → k = (messages hmac infos).length)
  | [], os, s, hs => ⟨0, le_rfl, by simp [senderThreadMain], fun _ _ => rfl⟩
  | info :: infos, os, s, hs => by
    obtain ⟨k, hk, hacc, hall⟩ := @sendLoop_spec (sendPacketInfo hmac info) s.accepted os 0 s hs
      (Nat.zero_le _) (by simp)
    have hcons : messages hmac (info :: infos) = sendPacketInfo hmac info ++ messages hmac infos := rfl
    rw [hcons]
    unfold senderThreadMain
    dsimp only
    by_cases hret : (sendLoop (sendPacketInfo hmac info) 0 s os).returned = true
    swap
    -- the call waits for an answer
    · rw [if_neg hret]
      refine ⟨k, by rw [List.length_append]; omega, ?_, fun _ h => absurd h hret⟩
      rw [hacc, List.take_append_of_le_length hk]
    rw [if_pos hret]
    cases hb : (sendLoop (sendPacketInfo hmac info) 0 s os).session.broken with
    | true =>
      refine ⟨k, by rw [List.length_append]; omega, ?_, ?_⟩
      · rw [senderThreadMain_broken hb, hacc, List.take_append_of_le_length hk]
      · rw [senderThreadMain_broken hb, hb]
        exact fun h => absurd h (by decide)
    | false =>
      obtain rfl := hall hb hret
      rw [List.take_length] at hacc
      obtain ⟨j, hj, hacc', hall'⟩ := senderThreadMain_spec infos
        (sendLoop (sendPacketInfo hmac info) 0 s os).rest hb
      refine ⟨(sendPacketInfo hmac info).length + j, by rw [List.length_append]; omega, ?_,
        fun h h' => ?_⟩
      · rw [hacc', hacc, List.append_assoc, List.take_length_add_append]
      · rw [List.length_append, hall' h h']

theorem senderThreadMain_returns : ∀ (infos : List PacketInfo) (os : List Outcome) {s : Session},
    s.broken = false → .fatal ∉ os → (messages hmac infos).length ≤ writes os →
    (senderThreadMain hmac infos s os).returned = true
  | [], os, s, hs, hno, hw => rfl
  | info :: infos, os, s, hs, hno, hw => by
    have hcons : messages hmac (info :: infos) = sendPacketInfo hmac info ++ messages hmac infos := rfl
    rw [hcons, List.length_append] at hw
    obtain ⟨hret, hrest⟩ := @sendLoop_returns (sendPacketInfo hmac info) os 0 s hs hno (by omega)
    obtain ⟨hs', hno'⟩ := @sendLoop_working (sendPacketInfo hmac info) os 0 s hs hno
    unfold senderThreadMain
    dsimp only
    rw [if_pos hret]
    exact senderThreadMain_returns infos _ hs' hno' (by omega)

theorem senderThreadMain_working : ∀ (infos : List PacketInfo) (os : List Outcome) {s : Session},
    s.broken = false → .fatal ∉ os → (senderThreadMain hmac infos s os).session.broken = false
  | [], os, s, hs, hno => hs
  | info :: infos, os, s, hs, hno => by
    obtain ⟨hs', hno'⟩ := @sendLoop_working (sendPacketInfo hmac info) os 0 s hs hno
    unfold senderThreadMain
    dsimp only
    split_ifs
    · exact senderThreadMain_working infos _ hs' hno'
    · exact hs'

/-- **The stream of messages.** Whatever records are popped and whatever the session answers, the bytes
it has accepted are a beginning of the messages one behind the other, each the bytes of the record and
behind them their MAC. Without a fatal error the sender returns as soon as enough calls have accepted
something, and once it has returned all messages have been accepted. -/
theorem accepted_prefix_of_messages (hmac : List UInt8 → Vector UInt8 64) (infos : List PacketInfo)
    (os : List Outcome) :
    let stream := infos.flatMap fun p => toBytes p ++ (hmac (toBytes p)).toList
    (senderThreadMain hmac infos .fresh os).session.accepted <+: stream ∧
    (.fatal ∉ os → 1088 * infos.length ≤ writes os →
      (senderThreadMain hmac infos .fresh os).returned = true) ∧
    (.fatal ∉ os → (senderThreadMain hmac infos .fresh os).returned = true →
      (senderThreadMain hmac infos .fresh os).session.accepted = stream) := by
  obtain ⟨k, hk, hacc, hall⟩ := @senderThreadMain_spec hmac infos os .fresh rfl
  have hacc : (senderThreadMain hmac infos .fresh os).session.accepted =
      (messages hmac infos).take k := hacc
  have hstream : messages hmac infos =
      infos.flatMap fun p => toBytes p ++ (hmac (toBytes p)).toList := rfl
  dsimp only
  rw [← hstream]
  refine ⟨?_, fun hno hw => ?_, fun hno hret => ?_⟩
  · rw [hacc]
    exact List.take_prefix k _
  · exact senderThreadMain_returns infos os rfl hno (by rwa [length_messages])
  · rw [hacc, hall (senderThreadMain_working infos os rfl hno) hret, List.take_length]

/-- A session that asks for the first call to be repeated, and then takes one byte at a time. -/
def bytewise : List Outcome := .wantRetry :: List.replicate 2176 (.wrote 0)

/-- A session that breaks behind 700 bytes. -/
def breaking : List Outcome := [.wrote 699, .fatal]

/-- A record with a time stamp. -/
def late : PacketInfo := { PacketInfo.zero with timestamp := 1 }

/-- A MAC of zeros. -/
def zeroTag (_ : List UInt8) : Vector UInt8 64 := Vector.replicate 64 0

/-- Byte by byte both messages are accepted; the session that breaks has the start of the first one. -/
theorem accepted_bytewise :
    ((senderThreadMain zeroTag [.zero, late] .fresh bytewise).returned = true ∧
      (senderThreadMain zeroTag [.zero, late] .fresh bytewise).session.accepted =
        [.zero, late].flatMap fun p => toBytes p ++ (zeroTag (toBytes p)).toList) ∧
    (senderThreadMain zeroTag [.zero, late] .fresh breaking).session.accepted <+:
      [.zero, late].flatMap fun p => toBytes p ++ (zeroTag (toBytes p)).toList := by
  have hno : .fatal ∉ bytewise := by
    rintro (_ | ⟨_, h⟩)
    cases List.eq_of_mem_replicate h
  have hwrites : 1088 * [PacketInfo.zero, late].length ≤ writes bytewise := by
    unfold writes bytewise
    rw [List.countP_cons, List.countP_replicate]
    decide
  obtain ⟨-, hreturns, hall⟩ := accepted_prefix_of_messages zeroTag [.zero, late] bytewise
  have hret := hreturns hno hwrites
  exact ⟨⟨hret, hall hno hret⟩, (accepted_prefix_of_messages zeroTag [.zero, late] breaking).1⟩

end Pacsni.Capture.Send
