import Pacsni.Service.Decode

/-! # The receive loop

`handle_cpp_connection`: bytes are read into a buffer, and complete messages are taken from its front,
checked and sent on. The loop is a step function over the results of the reads; `verify` is the MAC
check of a chunk and its tag.

The specification cuts the whole stream into consecutive messages (`messages`), whatever the reads
were: `Framed` says which packets these messages give and whether one of them fails to verify. -/

namespace Pacsni.Service.Framing

open Pacsni.Lib.Cursor
open Pacsni.Service.Model Pacsni.Service.Decode

/-! ### The connection -/

/-- How the handler returns. -/
inductive Outcome
  | ok
  | invalidData
  | ioError
  | panicked
deriving DecidableEq, Repr

/-- The state of the handler; `result` is set when it has returned. -/
structure Conn where
  buffer : List UInt8
  sent : List DashboardPacket
  result : Option Outcome

/-- The handler before the first read. -/
def Conn.init : Conn := ⟨[], [], none⟩

/-- What `read_buf` returns: the bytes read (none at the end of the stream), or an error. -/
inductive Read
  | bytes (bs : List UInt8)
  | error

variable (verify : List UInt8 → List UInt8 → Bool)

/-- The MAC check of the message at the front of the buffer. -/
def verifies (buffer : List UInt8) : Bool :=
  verify (buffer.take structSize) ((buffer.take totalMsgSize).drop structSize)

/-- The inner loop, with the messages of the buffer taken one after the other. -/
def drain (buffer : List UInt8) (sent : List DashboardPacket) : Conn :=
  if _h : totalMsgSize ≤ buffer.length then
    if verifies verify buffer then
      match _hr : decode.run buffer with
      | none => ⟨buffer, sent, some .panicked⟩
      | some (packet, rest) => drain rest (sent ++ [packet])
    else ⟨buffer, sent, some .invalidData⟩
  else ⟨buffer, sent, none⟩
termination_by buffer.length
decreasing_by
  obtain ⟨a, -, hrun⟩ := consumes_decode buffer _h
  rw [_hr, Option.some.injEq, Prod.mk.injEq] at hrun
  rw [hrun.2, List.length_drop]
  have : 0 < totalMsgSize := by decide
  omega

/-- The limit above which the buffer is cleared. -/
def bufferLimit : ℕ := 2 * 1024 * 1024

/-- One round of the outer loop. -/
def step (s : Conn) (r : Read) : Conn :=
  if s.result.isSome then s
  else
    match r with
    | .error => { s with result := some .ioError }
    | .bytes bs =>
      if bs.length = 0 then { s with result := some .ok }
      else if bufferLimit < (s.buffer ++ bs).length then { s with buffer := [] }
      else drain verify (s.buffer ++ bs) s.sent

/-- `handle_cpp_connection` on a sequence of read results. -/
def handleCppConnection (reads : List Read) : Conn := reads.foldl (step verify) Conn.init

/-! ### The stream as messages -/

/-- The consecutive complete messages of a stream. -/
def messages (s : List UInt8) : List (List UInt8) :=
  if _h : totalMsgSize ≤ s.length then s.take totalMsgSize :: messages (s.drop totalMsgSize) else []
termination_by s.length
decreasing_by
  rw [List.length_drop]
  have : 0 < totalMsgSize := by decide
  omega

/-- What is left of a stream behind its complete messages. -/
def trailing (s : List UInt8) : List UInt8 :=
  if _h : totalMsgSize ≤ s.length then trailing (s.drop totalMsgSize) else s
termination_by s.length
decreasing_by
  rw [List.length_drop]
  have : 0 < totalMsgSize := by decide
  omega

theorem length_trailing_lt (s : List UInt8) : (trailing s).length < totalMsgSize := by
  fun_induction trailing s with
  | case1 s h ih => exact ih
  | case2 s h => omega

/-- The stream `s ++ t` is cut like `s`, and then like what was left of `s` followed by `t`. -/
theorem messages_append (s t : List UInt8) :
    messages (s ++ t) = messages s ++ messages (trailing s ++ t) := by
  fun_induction trailing s with
  | case1 s h ih =>
    have hlen : totalMsgSize ≤ (s ++ t).length := by rw [List.length_append]; omega
    rw [messages, dif_pos hlen, List.take_append_of_le_length h, List.drop_append_of_le_length h, ih]
    conv_rhs => rw [messages, dif_pos h]
    rfl
  | case2 s h =>
    conv_rhs => rw [messages, dif_neg h]
    rfl

theorem trailing_append (s t : List UInt8) : trailing (s ++ t) = trailing (trailing s ++ t) := by
  fun_induction trailing s with
  | case1 s h ih =>
    have hlen : totalMsgSize ≤ (s ++ t).length := by rw [List.length_append]; omega
    rw [← ih, trailing, dif_pos hlen, List.drop_append_of_le_length h]
  | case2 s h => rfl

theorem length_of_mem_messages {s m : List UInt8} (h : m ∈ messages s) : m.length = totalMsgSize := by
  fun_induction messages s with
  | case1 s hs ih =>
    rcases List.mem_cons.mp h with rfl | h
    · rw [List.length_take]; omega
    · exact ih h
  | case2 s hs => cases h

/-- The check of a message is one of its first 1024 bytes and the 64 bytes behind them. -/
theorem verifies_of_mem {s m : List UInt8} (h : m ∈ messages s) :
    verifies verify m = verify (m.take 1024) (m.drop 1024) := by
  unfold verifies
  rw [List.take_of_length_le (length_of_mem_messages h).le]
  rfl

/-! ### What the messages give -/

/-- The packets that a list of messages gives: those before the first one that does not verify, each
decoded; the flag says whether there is such a message. -/
inductive Framed : List (List UInt8) → List DashboardPacket → Bool → Prop
  | nil : Framed [] [] false
  | bad {m ms} (hv : verifies verify m = false) : Framed (m :: ms) [] true
  | good {m ms d ds b} (hv : verifies verify m = true) (hd : decode.run m = some (d, []))
      (hms : Framed ms ds b) : Framed (m :: ms) (d :: ds) b

section

variable {verify} {ms ms' : List (List UInt8)} {ds ds' : List DashboardPacket} {b : Bool}

theorem Framed.append {f : Bool} (h : Framed verify ms ds f) (hf : f = false)
    (h' : Framed verify ms' ds' b) : Framed verify (ms ++ ms') (ds ++ ds') b := by
  induction h with
  | nil => exact h'
  | bad hv => cases hf
  | good hv hd _ ih => exact .good hv hd (ih hf)

theorem Framed.append_of_bad (h : Framed verify ms ds b) (hb : b = true) :
    Framed verify (ms ++ ms') ds true := by
  induction h with
  | nil => cases hb
  | bad hv => exact .bad hv
  | good hv hd _ ih => exact .good hv hd (ih hb)

/-- Every message verifies and is decoded, in order. -/
theorem Framed.all (h : Framed verify ms ds b) (hb : b = false) :
    (∀ m ∈ ms, verifies verify m = true) ∧
      List.Forall₂ (fun m d => decode.run m = some (d, [])) ms ds := by
  induction h with
  | nil => exact ⟨by simp, .nil⟩
  | bad hv => cases hb
  | good hv hd _ ih =>
    obtain ⟨hall, hds⟩ := ih hb
    refine ⟨fun m hm => ?_, .cons hd hds⟩
    rcases List.mem_cons.mp hm with rfl | hm
    · exact hv
    · exact hall m hm

/-- The messages before the first bad one are decoded, in order. -/
theorem Framed.first_bad (h : Framed verify ms ds b) (hb : b = true) :
    ∃ k m, ms[k]? = some m ∧ (∀ m ∈ ms.take k, verifies verify m = true) ∧
      verifies verify m = false ∧
      List.Forall₂ (fun m d => decode.run m = some (d, [])) (ms.take k) ds := by
  induction h with
  | nil => cases hb
  | bad hv => exact ⟨0, _, rfl, by simp, hv, .nil⟩
  | good hv hd _ ih =>
    obtain ⟨k, m, hk, hall, hbad, hds⟩ := ih hb
    refine ⟨k + 1, m, hk, fun m' hm => ?_, hbad, .cons hd hds⟩
    rcases List.mem_cons.mp hm with rfl | hm
    · exact hv
    · exact hall m' hm

end

theorem verifies_take {buffer : List UInt8} :
    verifies verify (buffer.take totalMsgSize) = verifies verify buffer := by
  unfold verifies
  rw [List.take_take, List.take_take, Nat.min_self,
    Nat.min_eq_left (show structSize ≤ totalMsgSize by decide)]

/-- What the inner loop does with a buffer. -/
theorem drain_spec (buffer : List UInt8) (sent : List DashboardPacket) :
    ∃ ds b, Framed verify (messages buffer) ds b ∧ (drain verify buffer sent).sent = sent ++ ds ∧
      (drain verify buffer sent).result = (if b then some Outcome.invalidData else none) ∧
      (b = false → (drain verify buffer sent).buffer = trailing buffer) := by
  fun_induction drain verify buffer sent with
  | case1 buffer sent h hv hr =>
    obtain ⟨a, -, hrun⟩ := consumes_decode buffer h
    exact absurd (hr.symm.trans hrun) (by simp)
  | case2 buffer sent h hv packet rest hr ih =>
    obtain ⟨a, htake, hrun⟩ := consumes_decode buffer h
    rw [hr, Option.some.injEq, Prod.mk.injEq] at hrun
    obtain ⟨rfl, rfl⟩ := hrun
    obtain ⟨ds, b, hf, hsent, hres, hbuf⟩ := ih
    refine ⟨packet :: ds, b, ?_, ?_, hres, ?_⟩
    · rw [messages, dif_pos h]
      exact .good (by rw [verifies_take]; exact hv) htake hf
    · rw [hsent, List.append_assoc]
      rfl
    · rw [trailing, dif_pos h]
      exact hbuf
  | case3 buffer sent h hv =>
    refine ⟨[], true, ?_, by simp, rfl, by simp⟩
    rw [messages, dif_pos h]
    exact .bad (by rw [verifies_take]; simpa using hv)
  | case4 buffer sent h =>
    refine ⟨[], false, ?_, by simp, rfl, fun _ => ?_⟩
    · rw [messages, dif_neg h]
      exact .nil
    · rw [trailing, dif_neg h]

/-! ### The whole connection -/

/-- The state after the bytes `s` have been read, in any pieces. -/
structure ConnOK (s : List UInt8) (c : Conn) : Prop where
  framed : ∃ b, Framed verify (messages s) c.sent b ∧
    c.result = if b then some Outcome.invalidData else none
  buffer : c.result = none → c.buffer = trailing s

theorem connOK_init : ConnOK verify [] Conn.init where
  framed := ⟨false, by rw [messages, dif_neg (by decide)]; exact .nil, rfl⟩
  buffer _ := by rw [trailing, dif_neg (by decide)]; rfl

variable {verify}

/-- Before a read that fits, the buffer is short and does not grow over the limit. -/
theorem ConnOK.room {s c : List UInt8} {conn : Conn} (h : ConnOK verify s conn)
    (hr : conn.result = none) (hc : c.length ≤ bufferLimit - 1087) :
    conn.buffer.length < totalMsgSize ∧ ¬ bufferLimit < (conn.buffer ++ c).length := by
  have hlt := length_trailing_lt s
  rw [← h.buffer hr] at hlt
  refine ⟨hlt, ?_⟩
  rw [List.length_append]
  unfold bufferLimit totalMsgSize structSize hashSize at *
  omega

/-- One read keeps the invariant. -/
theorem ConnOK.step {s c : List UInt8} {conn : Conn} (h : ConnOK verify s conn) (hne : c ≠ [])
    (hc : c.length ≤ bufferLimit - 1087) :
    ConnOK verify (s ++ c) (step verify conn (.bytes c)) := by
  obtain ⟨b, hf, hres⟩ := h.framed
  unfold Framing.step
  cases b with
  | true =>
    rw [if_pos (by rw [hres]; rfl)]
    refine ⟨⟨true, ?_, hres⟩, fun hr => by rw [hres] at hr; cases hr⟩
    rw [messages_append]
    exact hf.append_of_bad rfl
  | false =>
    have hr : conn.result = none := hres
    have hlen : c.length ≠ 0 := fun h0 => hne (List.length_eq_zero_iff.mp h0)
    rw [if_neg (by rw [hr]; decide)]
    dsimp only
    rw [if_neg hlen, if_neg (h.room hr hc).2, h.buffer hr]
    obtain ⟨ds, b, hf', hsent, hres', hbuf⟩ := drain_spec verify (trailing s ++ c) conn.sent
    refine ⟨⟨b, ?_, hres'⟩, fun hnone => ?_⟩
    · rw [messages_append, hsent]
      exact hf.append rfl hf'
    · rw [trailing_append]
      refine hbuf ?_
      cases b with
      | false => rfl
      | true => rw [hres'] at hnone; cases hnone

/-- Any number of reads keeps the invariant. -/
theorem connOK_foldl {cs : List (List UInt8)} (hne : ∀ c ∈ cs, c ≠ [])
    (hc : ∀ c ∈ cs, c.length ≤ bufferLimit - 1087) {s : List UInt8} {conn : Conn}
    (h : ConnOK verify s conn) :
    ConnOK verify (s ++ cs.flatten) ((cs.map Read.bytes).foldl (Framing.step verify) conn) := by
  induction cs generalizing s conn with
  | nil => simpa using h
  | cons c cs ih =>
    have h' := h.step (hne c (by simp)) (hc c (by simp))
    have := ih (fun c' hc' => hne c' (by simp [hc'])) (fun c' hc' => hc c' (by simp [hc'])) h'
    rw [List.append_assoc] at this
    exact this

/-- Every packet is the decoding of some message. -/
theorem Framed.decoded {ms : List (List UInt8)} {ds : List DashboardPacket} {b : Bool}
    (h : Framed verify ms ds b) : ∀ d ∈ ds, ∃ m, decode.run m = some (d, []) := by
  induction h with
  | nil => simp
  | bad hv => simp
  | good hv hd _ ih => exact List.forall_mem_cons.mpr ⟨⟨_, hd⟩, ih⟩

/-- Whatever the reads are, what is sent has been decoded. -/
theorem sent_decoded (reads : List Read) :
    ∀ d ∈ (handleCppConnection verify reads).sent, ∃ m, decode.run m = some (d, []) := by
  induction reads using List.reverseRecOn with
  | nil =>
    intro d hd
    cases hd
  | append_singleton reads r ih =>
    have hstep : handleCppConnection verify (reads ++ [r]) =
        Framing.step verify (handleCppConnection verify reads) r := List.foldl_concat _ _ _ _
    rw [hstep]
    generalize handleCppConnection verify reads = conn at ih
    unfold Framing.step
    split_ifs
    · exact ih
    · cases r with
      | error => exact ih
      | bytes bs =>
        dsimp only
        split_ifs
        · exact ih
        · exact ih
        · obtain ⟨ds, b, hf, hsent, -, -⟩ := drain_spec verify (conn.buffer ++ bs) conn.sent
          rw [hsent]
          exact List.forall_mem_append.mpr ⟨ih, hf.decoded⟩

/-- There is one first message that does not verify. -/
theorem first_unique {ms : List (List UInt8)} {k k' : ℕ} {m m' : List UInt8} (hk : ms[k]? = some m)
    (hbad : verifies verify m = false) (hgood : ∀ m ∈ ms.take k, verifies verify m = true)
    (hk' : ms[k']? = some m') (hbad' : verifies verify m' = false)
    (hgood' : ∀ m ∈ ms.take k', verifies verify m = true) : k = k' := by
  have hmem : ∀ {i j : ℕ} {x : List UInt8}, ms[i]? = some x → i < j → x ∈ ms.take j := by
    intro i j x hx hij
    apply List.mem_of_getElem? (i := i)
    rw [List.getElem?_take_of_lt hij, hx]
  rcases Nat.lt_trichotomy k k' with h | h | h
  · rw [hgood' m (hmem hk h)] at hbad
    cases hbad
  · exact h
  · rw [hgood m' (hmem hk' h)] at hbad'
    cases hbad'

/-- **Stream framing.** However a stream is cut into reads, the handler sends the decodings of its
messages up to the first one that does not verify and ends with an error there; without such a
message it sends all of them and ends well at the end of the stream. Before every read the buffer
holds less than a message, and it is never cleared. -/
theorem handleCppConnection_framing (verify : List UInt8 → List UInt8 → Bool)
    (cs : List (List UInt8)) (hne : ∀ c ∈ cs, c ≠ [])
    (hc : ∀ c ∈ cs, c.length ≤ bufferLimit - 1087) :
    let final := handleCppConnection verify (cs.map .bytes ++ [.bytes []])
    ((∀ m ∈ messages cs.flatten, verify (m.take 1024) (m.drop 1024) = true) →
      List.Forall₂ (fun m d => decode.run m = some (d, [])) (messages cs.flatten) final.sent ∧
        final.result = some .ok) ∧
    (∀ k m, (messages cs.flatten)[k]? = some m → verify (m.take 1024) (m.drop 1024) = false →
      (∀ m' ∈ (messages cs.flatten).take k, verify (m'.take 1024) (m'.drop 1024) = true) →
      List.Forall₂ (fun m d => decode.run m = some (d, [])) ((messages cs.flatten).take k)
          final.sent ∧ final.result = some .invalidData) ∧
    (∀ pre c post, cs = pre ++ c :: post →
      (handleCppConnection verify (pre.map .bytes)).result = none →
      (handleCppConnection verify (pre.map .bytes)).buffer.length < totalMsgSize ∧
        ¬ bufferLimit < ((handleCppConnection verify (pre.map .bytes)).buffer ++ c).length) := by
  have hok := connOK_foldl hne hc (connOK_init verify)
  obtain ⟨b, hf, hres⟩ := hok.framed
  rw [List.nil_append] at hf
  have hfinal : handleCppConnection verify (cs.map .bytes ++ [.bytes []]) =
      Framing.step verify ((cs.map Read.bytes).foldl (Framing.step verify) Conn.init) (.bytes []) := by
    rw [handleCppConnection, List.foldl_append]
    rfl
  refine ⟨fun hall => ?_, fun k m hk hbad hgood => ?_, fun pre c post hcs hr => ?_⟩
  · -- a failed message would contradict the hypothesis, so the loop is still running at the end
    cases b with
    | true =>
      obtain ⟨k, m, hk, -, hbad, -⟩ := hf.first_bad rfl
      rw [verifies_of_mem verify (List.mem_of_getElem? hk), hall m (List.mem_of_getElem? hk)] at hbad
      cases hbad
    | false =>
      rw [hfinal, Framing.step, if_neg (by rw [hres]; decide)]
      exact ⟨(hf.all rfl).2, rfl⟩
  · have hbad : verifies verify m = false :=
      (verifies_of_mem verify (List.mem_of_getElem? hk)).trans hbad
    have hgood : ∀ m' ∈ (messages cs.flatten).take k, verifies verify m' = true := fun m' hm' =>
      (verifies_of_mem verify (List.mem_of_mem_take hm')).trans (hgood m' hm')
    cases b with
    | false =>
      rw [(hf.all rfl).1 m (List.mem_of_getElem? hk)] at hbad
      cases hbad
    | true =>
      obtain ⟨k', m', hk', hgood', hbad', hds⟩ := hf.first_bad rfl
      obtain rfl : k = k' := first_unique hk hbad hgood hk' hbad' hgood'
      rw [hfinal, Framing.step, if_pos (by rw [hres]; rfl)]
      exact ⟨hds, hres⟩
  · subst hcs
    have hpre := @connOK_foldl verify pre (fun c' h' => hne c' (by simp [h']))
      (fun c' h' => hc c' (by simp [h'])) [] Conn.init (connOK_init verify)
    exact hpre.room hr (hc c (by simp))

/-- A message of zeros, one of ones, and the start of a third one, in three reads. -/
def threeReads : List (List UInt8) :=
  [List.replicate 700 0, List.replicate 388 0 ++ List.replicate 512 1,
    List.replicate 576 1 ++ List.replicate 100 2]

/-- A check that a chunk of ones does not pass. -/
def refusesOnes (chunk _tag : List UInt8) : Bool := chunk.head? ≠ some 1

theorem messages_threeReads :
    messages threeReads.flatten = [List.replicate 1088 0, List.replicate 1088 1] := by
  have hcons : ∀ (b : UInt8) (t : List UInt8),
      messages (List.replicate 1088 b ++ t) = List.replicate 1088 b :: messages t := by
    intro b t
    have hm : (List.replicate 1088 b).length = totalMsgSize := List.length_replicate
    rw [messages, dif_pos (by rw [List.length_append]; omega), ← hm, List.take_left, List.drop_left]
  have hflatten : threeReads.flatten =
      List.replicate 1088 0 ++ (List.replicate 1088 1 ++ List.replicate 100 2) := by decide +kernel
  rw [hflatten, hcons, hcons, messages, dif_neg (by decide)]

/-- If all messages verify, both are sent; if the second one does not, the first one is, and the
connection ends with an error. -/
theorem threeReads_framed :
    (List.Forall₂ (fun m d => decode.run m = some (d, [])) (messages threeReads.flatten)
        (handleCppConnection (fun _ _ => true) (threeReads.map .bytes ++ [.bytes []])).sent ∧
      (handleCppConnection (fun _ _ => true) (threeReads.map .bytes ++ [.bytes []])).result =
        some .ok) ∧
    (List.Forall₂ (fun m d => decode.run m = some (d, [])) ((messages threeReads.flatten).take 1)
        (handleCppConnection refusesOnes (threeReads.map .bytes ++ [.bytes []])).sent ∧
      (handleCppConnection refusesOnes (threeReads.map .bytes ++ [.bytes []])).result =
        some .invalidData) := by
  have hne : ∀ c ∈ threeReads, c ≠ [] := by decide +kernel
  have hc : ∀ c ∈ threeReads, c.length ≤ bufferLimit - 1087 := by decide +kernel
  refine ⟨(handleCppConnection_framing (fun _ _ => true) threeReads hne hc).1 fun _ _ => rfl, ?_⟩
  refine (handleCppConnection_framing refusesOnes threeReads hne hc).2.1 1 (List.replicate 1088 1)
    (by rw [messages_threeReads]; rfl) (by decide +kernel) fun m hm => ?_
  rw [messages_threeReads, List.take_succ_cons, List.take_zero, List.mem_singleton] at hm
  subst hm
  decide +kernel

end Pacsni.Service.Framing
