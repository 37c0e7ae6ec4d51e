import Pacsni.Capture.Copied
import Pacsni.Capture.Memory

/-! # The request line and the host of an HTTP request

`dissect_http` copies the request line to its buffer, and prints the value of the `Host` header behind
it with `%.32s`. The precision is the only bound of that: the text goes on behind the end of the line,
and behind the end of the payload, up to 32 bytes or a NUL. So the text is right only if the value has
32 bytes or more, or if there is no room for what comes behind it (`dissectHttp_right_iff`). -/

namespace Pacsni.Capture.Http

open Pacsni.Lib.Trace Pacsni.Lib.CBuffer
open Pacsni.Capture.Types Pacsni.Capture.Dissectors Pacsni.Capture.Memory Pacsni.Capture.Copied

variable {n p l : ℕ} {packet : ℕ → UInt8} {size : Buf → ℕ}

/-! ### The bytes that are touched -/

theorem confined_findMethod : ∀ ms : List (List UInt8),
    Confined p l size (findMethod packet p l ms).log
  | [] => .pure
  | ml :: rest => by
    unfold findMethod
    refine .ite (fun hl => ?_) fun _ => confined_findMethod rest
    refine .bind (confined_loadBytes le_rfl (by omega)) ?_
    exact .ite (fun _ => .pure) fun _ => confined_findMethod rest

theorem confined_copyLine {f : Fn} (m c : ℕ) (hm : m ≤ size .out) :
    Confined p l size (copyLine packet (.read f) (.write f .out) p l m c).log := by
  unfold copyLine
  refine .ite (fun hc => ?_) fun _ => .pure
  refine .bind (confined_load8 (by omega) (by omega)) (.ite (fun _ => .pure) fun _ => ?_)
  exact .bind (confined_touch (by omega)) (.bind (confined_copyLine m (c + 1) hm) .pure)
termination_by l - c

theorem confined_memmemLoop {f : Fn} (needle : List UInt8) (i : ℕ) :
    Confined p l size (memmemLoop packet (.read f) p l needle i).log := by
  unfold memmemLoop
  refine .ite (fun hfit => ?_) fun _ => .pure
  refine .bind (confined_loadBytes (by omega) (by omega)) ?_
  exact .ite (fun _ => .pure) fun _ => confined_memmemLoop needle (i + 1)
termination_by l + 1 - i

/-- A string that is printed is read up to its NUL, or as far as the precision says. -/
theorem confined_loadStr_iff {f : Fn} : ∀ {k i : ℕ}, p ≤ i → i ≤ p + l →
    (Confined p l size (loadStr packet (.read f) k i).log ↔
      i + min (stretch isNul packet i k + 1) k ≤ p + l)
  | 0, i, _, hi => by
    rw [Nat.min_zero, Nat.add_zero]
    exact iff_of_true .pure hi
  | k + 1, i, hp, hi => by
    unfold loadStr stretch
    rw [log_bind, confined_append, log_load8, confined_read, val_load8]
    by_cases hb : packet i = 0
    · have hstop : isNul (packet i) = true := by simpa [isNul] using hb
      rw [if_pos hb, if_pos hstop, and_iff_left Confined.pure]
      omega
    · have hstop : ¬ isNul (packet i) = true := by simpa [isNul] using hb
      rw [if_neg hb, if_neg hstop, log_bind, confined_append, and_iff_left Confined.pure]
      by_cases hend : i + 1 ≤ p + l
      · rw [confined_loadStr_iff (by omega) hend]
        omega
      · exact iff_of_false (fun h => by omega) (by omega)

/-! ### The two stages -/

/-- The length of the request line, as far as it is copied to a buffer of `m` bytes. -/
def requestLen (packet : ℕ → UInt8) (p l m : ℕ) : ℕ := stretch isBreak packet p (min l (m - 1))

/-- The request line, as far as it is copied. -/
def requestLine (packet : ℕ → UInt8) (p l m : ℕ) : List UInt8 :=
  slice packet p (requestLen packet p l m)

/-- What is printed of the `Host` header. -/
def hostText (value : List UInt8) : List UInt8 := ascii " [Host: " ++ value ++ ascii "]"

theorem requestLen_le (packet : ℕ → UInt8) (p l m : ℕ) : requestLen packet p l m ≤ m - 1 :=
  (stretch_le _ _ _).trans (Nat.min_le_right _ _)

/-- The buffer behind the copy loop. -/
def afterLine (packet : ℕ → UInt8) (p l : ℕ) {m : ℕ} (o : Vector UInt8 m) : Vector UInt8 m :=
  writeAt o 0 (requestLine packet p l m ++ [0])

/-- The second stage, for a header at `hp`. -/
def hostStage (packet : ℕ → UInt8) (hp : ℕ) {m : ℕ} (o : Vector UInt8 m) : C (Vector UInt8 m) := do
  let host ← loadStr packet (.read .dissectHttp) 32 (hp + 8)
  let len := (cString o).length
  snprintf (.write .dissectHttp .out) o len (m - len) (hostText host)

section

variable {m : ℕ} {o : Vector UInt8 m}

/-- The search and what follows it. -/
def search (packet : ℕ → UInt8) (p l : ℕ) (o : Vector UInt8 m) : C (Vector UInt8 m) := do
  match ← memmem packet (Site.read .dissectHttp) p l (ascii "\r\nHost: ") with
  | none => pure o
  | some hp => hostStage packet hp o

/-- The method, the request line and its NUL are where they should be. -/
theorem dissectHttp_search (hreq : IsRequest packet p l) (hm : 1 ≤ m) :
    (dissectHttp packet p l o m).val = (search packet p l (afterLine packet p l o)).val ∧
    (Confined p l (fun _ => m) (dissectHttp packet p l o m).log ↔
      Confined p l (fun _ => m) (search packet p l (afterLine packet p l o)).log) := by
  have hl := hreq.1
  have hsome : (findMethod packet p l httpMethods).val.isSome := (isRequest_iff (by omega)).mp hreq
  obtain ⟨method, hmethod⟩ := Option.isSome_iff_exists.mp hsome
  have hline : (copyLine packet (Site.read .dissectHttp) (.write .dissectHttp .out) p l m 0).val =
      requestLine packet p l m := val_copyLine _ p l m 0
  have hnul : Confined p l (fun _ => m)
      (touch (Site.write .dissectHttp .out) (requestLine packet p l m).length 1).log := by
    refine confined_touch ?_
    have hlen := requestLen_le packet p l m
    rw [requestLine, length_slice]
    omega
  unfold dissectHttp
  rw [if_neg (by omega), Int.toNat_natCast]
  constructor
  · rw [val_bind, hmethod]
    dsimp only
    rw [val_bind, hline]
    rfl
  · rw [confined_bind_iff (confined_findMethod httpMethods), hmethod]
    dsimp only
    rw [confined_bind_iff (confined_copyLine m 0 le_rfl), hline, confined_bind_iff hnul]
    rfl

/-- A request is dissected in two stages, the second only if there is a `Host` header. -/
theorem dissectHttp_stages (hreq : IsRequest packet p l) (hm : 1 ≤ m) :
    (∃ x, HostAt packet p l x ∧
      (dissectHttp packet p l o m).val = (hostStage packet (p + x) (afterLine packet p l o)).val ∧
      (Confined p l (fun _ => m) (dissectHttp packet p l o m).log ↔
        Confined p l (fun _ => m) (hostStage packet (p + x) (afterLine packet p l o)).log)) ∨
    ((∀ x, ¬ HostAt packet p l x) ∧
      Confined p l (fun _ => m) (dissectHttp packet p l o m).log) := by
  obtain ⟨hval, hconf⟩ := @dissectHttp_search p l packet m o hreq hm
  rw [hval, hconf]
  unfold search memmem
  rw [val_bind, confined_bind_iff (confined_memmemLoop _ 0)]
  rcases @memmemLoop_spec packet _ (Site.read .dissectHttp) p l (ascii "\r\nHost: ") 0 with
    ⟨x, hx, hfirst⟩ | ⟨hnone, hno⟩
  · left
    refine ⟨x, hfirst, ?_⟩
    rw [hx]
    exact ⟨rfl, Iff.rfl⟩
  · right
    refine ⟨hno, ?_⟩
    rw [hnone]
    exact .pure

/-- Where the text of the host starts: at the first NUL of the request line, or behind it. -/
def hostStart (packet : ℕ → UInt8) (p l m : ℕ) : ℕ := stretch isNul packet p (requestLen packet p l m)

theorem length_cString_afterLine (hm : 1 ≤ m) :
    (cString (afterLine packet p l o)).length = hostStart packet p l m := by
  have hlen := requestLen_le packet p l m
  exact length_cString_slice o (by omega)

theorem confined_hostStage_iff (hm : 1 ≤ m) {x : ℕ} (hx : HostAt packet p l x) :
    Confined p l (fun _ => m) (hostStage packet (p + x) (afterLine packet p l o)).log ↔
      x + 8 + min (hostLen packet (p + x + 8) + 1) 32 ≤ l := by
  have hfits : x + 8 ≤ l := hx.fits
  have hstart : hostStart packet p l m ≤ m - 1 := (stretch_le _ _ _).trans (requestLen_le packet p l m)
  unfold hostStage
  rw [log_bind, confined_append, confined_loadStr_iff (by omega) (by omega), length_cString_afterLine hm,
    and_iff_left (confined_snprintf (by omega) _ _)]
  unfold hostLen
  omega

theorem val_hostStage (hm : 1 ≤ m) (x : ℕ) :
    (hostStage packet (p + x) (afterLine packet p l o)).val =
      writeAt (afterLine packet p l o) (hostStart packet p l m)
        ((hostText (slice packet (p + x + 8) (hostLen packet (p + x + 8)))).take
          (m - hostStart packet p l m - 1) ++ [0]) := by
  have hstart : hostStart packet p l m ≤ m - 1 := (stretch_le _ _ _).trans (requestLen_le packet p l m)
  unfold hostStage
  rw [val_bind, val_loadStr, length_cString_afterLine hm]
  unfold snprintf
  rw [if_neg (by omega)]
  rfl

end

/-! ### The text that is right -/

/-- The buffer shows the text, and a NUL behind it. -/
def Shows {n : ℕ} (v : Vector UInt8 n) (text : List UInt8) : Prop :=
  v.toList.take (text.length + 1) = text ++ [0]

/-- The first header line that starts with `Host: ` is behind the line break at `x`; its value has `k`
bytes before the line break that ends it. -/
structure HostLine (packet : ℕ → UInt8) (p l x k : ℕ) : Prop where
  hit : HostAt packet p l x
  header : ∀ j < x, slice packet (p + j) 4 ≠ ascii "\r\n\r\n"
  value : FirstAt packet (p + x + 8) (l - (x + 8)) (ascii "\r\n") 0 k

/-- The request line and the first 32 bytes of the host, as far as there is room. -/
def rightText (packet : ℕ → UInt8) (p l m x k : ℕ) : List UInt8 :=
  (requestLine packet p l m ++ hostText ((slice packet (p + x + 8) k).take 32)).take (m - 1)

/-- `dissect_http` keeps to its payload and its buffer, and shows the right text. -/
def Right (packet : ℕ → UInt8) (p l : ℕ) {m : ℕ} (o : Vector UInt8 m) : Prop :=
  Confined p l (fun _ => m) (dissectHttp packet p l o m).log ∧
  ∀ x k, HostLine packet p l x k →
    Shows (dissectHttp packet p l o m).val (rightText packet p l m x k)

/-- The value is printed as it should be, as far as there is room: there is no NUL in the request line,
and the value has 32 bytes without a NUL or there is no room for the byte at which the string that is
printed and the value part. -/
def Printed (packet : ℕ → UInt8) (p l m x k : ℕ) : Prop :=
  (∀ j < requestLen packet p l m, packet (p + j) ≠ 0) ∧
    ((32 ≤ k ∧ hostLen packet (p + x + 8) = 32) ∨
      m - 1 ≤ requestLen packet p l m + 8 + min (hostLen packet (p + x + 8)) k)

section

variable {v : Vector UInt8 n} {text : List UInt8}

theorem Shows.getElem? (h : Shows v text) {d : ℕ} (hd : d < text.length) :
    v.toList[d]? = text[d]? := by
  have h' : (v.toList.take (text.length + 1))[d]? = (text ++ [0])[d]? := congrArg (·[d]?) h
  rwa [List.getElem?_take_of_lt (by omega), List.getElem?_append_left hd] at h'

theorem shows_writeAt (h : text.length < n) : Shows (writeAt v 0 (text ++ [0])) text := by
  have hfit : (text ++ [(0 : UInt8)]).length ≤ n := by
    rw [List.length_append, List.length_singleton]
    omega
  have htake := take_toList_writeAt v (text ++ [0]) hfit
  rwa [List.length_append, List.length_singleton] at htake

end

theorem length_hostText (value : List UInt8) : (hostText value).length = 8 + value.length + 1 := by
  unfold hostText
  rw [List.length_append, List.length_append]
  rfl

/-- The text from the value on. -/
theorem getElem?_hostText (value : List UInt8) (j : ℕ) :
    (hostText value)[8 + j]? = (value ++ [93])[j]? := by
  have hlen : (ascii " [Host: ").length = 8 := by decide
  unfold hostText
  rw [List.append_assoc, List.getElem?_append_right (by omega), hlen, Nat.add_sub_cancel_left]
  rfl

/-- The text before the end of the value. -/
theorem take_hostText {q j i : ℕ} (h : i ≤ 8 + j) :
    (hostText (slice packet q j)).take i = (ascii " [Host: ").take i ++ slice packet q (i - 8) := by
  have hlen : (ascii " [Host: ").length = 8 := by decide
  unfold hostText
  rw [List.take_append_of_le_length (by rw [List.length_append, hlen, length_slice]; exact h),
    List.take_append, hlen, take_slice, min_eq_left (by omega)]

section

variable {m x k : ℕ} {o : Vector UInt8 m}

theorem HostLine.cr (hline : HostLine packet p l x k) : packet (p + x + 8 + k) = 13 := by
  have hbreak : slice packet (p + x + 8 + k) 2 = [13, 10] := hline.value.here
  exact List.head_eq_of_cons_eq hbreak

/-- A string that stops early stops at a NUL. -/
theorem nul_hostLen {q : ℕ} (h : hostLen packet q < 32) : packet (q + hostLen packet q) = 0 := by
  have hstop : isNul (packet (q + hostLen packet q)) = true := stop_stretch isNul q 32 h
  simpa [isNul] using hstop

/-- A line break ends the value but not the string, so the two have the same length only if both are cut
off. -/
theorem hostLen_eq_iff (hline : HostLine packet p l x k) :
    hostLen packet (p + x + 8) = min k 32 ↔ 32 ≤ k ∧ hostLen packet (p + x + 8) = 32 := by
  constructor
  · intro h
    by_cases hk : 32 ≤ k
    · exact ⟨hk, by omega⟩
    · have hlen : hostLen packet (p + x + 8) = k := by omega
      have hnul := @nul_hostLen packet (p + x + 8) (by omega)
      rw [hlen, hline.cr] at hnul
      exact absurd hnul (by decide)
  · rintro ⟨hk, h⟩
    omega

/-- If there is room for the byte at which they part, the printed text and the right one differ. -/
theorem not_room {i : ℕ} (hline : HostLine packet p l x k)
    (hne : hostLen packet (p + x + 8) ≠ min k 32)
    (hsame : ∀ d < i, d ≤ 8 + hostLen packet (p + x + 8) → d ≤ 8 + min k 32 →
      (hostText (slice packet (p + x + 8) (hostLen packet (p + x + 8))))[d]? =
        (hostText (slice packet (p + x + 8) (min k 32)))[d]?) :
    i ≤ 8 + min (hostLen packet (p + x + 8)) k := by
  have hle : hostLen packet (p + x + 8) ≤ 32 := stretch_le _ _ _
  by_contra hi
  have hpart := hsame (8 + min (hostLen packet (p + x + 8)) k) (by omega) (by omega) (by omega)
  rw [getElem?_hostText, getElem?_hostText] at hpart
  rcases Nat.lt_or_gt_of_ne hne with hlt | hgt
  · -- the string ends at a NUL of the value
    have hnul := @nul_hostLen packet (p + x + 8) (by omega)
    rw [min_eq_left (by omega), List.getElem?_append_right (by rw [length_slice]),
      List.getElem?_append_left (by rw [length_slice]; exact hlt), getElem?_slice hlt, hnul,
      length_slice, Nat.sub_self] at hpart
    exact absurd hpart (by decide)
  · -- the string goes on with the line break
    have hk : min k 32 = k := by omega
    rw [hk, min_eq_right (by omega), List.getElem?_append_left (by rw [length_slice]; omega),
      List.getElem?_append_right (by rw [length_slice]), getElem?_slice (by omega), hline.cr,
      length_slice, Nat.sub_self] at hpart
    exact absurd hpart (by decide)

/-- Without a NUL in the request line the text of the host stands behind it. -/
theorem hostStart_eq_iff : hostStart packet p l m = requestLen packet p l m ↔
    ∀ j < requestLen packet p l m, packet (p + j) ≠ 0 := by
  unfold hostStart
  constructor
  · intro h j hj hnul
    have hstop := @not_stop_of_lt_stretch packet isNul p (requestLen packet p l m) j (by omega)
    rw [hnul] at hstop
    exact absurd hstop (by decide)
  · intro h
    refine le_antisymm (stretch_le _ _ _) (le_stretch le_rfl fun j hj => ?_)
    have hne := h j hj
    simpa [isNul] using hne

/-- The right text is the request line with as much of the host as there is room for. -/
theorem rightText_eq : rightText packet p l m x k = requestLine packet p l m ++
    (hostText (slice packet (p + x + 8) (min k 32))).take (m - 1 - requestLen packet p l m) := by
  have hlen := requestLen_le packet p l m
  unfold rightText
  rw [List.take_append, take_slice, min_comm, requestLine, length_slice,
    List.take_of_length_le (by rw [length_slice]; exact hlen)]

/-- The buffer shows the request line and as much of the printed text as there is room for. -/
theorem shows_printed (hm : 1 ≤ m) (hstart : hostStart packet p l m = requestLen packet p l m) :
    Shows (hostStage packet (p + x) (afterLine packet p l o)).val (requestLine packet p l m ++
      (hostText (slice packet (p + x + 8) (hostLen packet (p + x + 8)))).take
        (m - 1 - requestLen packet p l m)) := by
  have hlen := requestLen_le packet p l m
  have hline : (requestLine packet p l m).length = requestLen packet p l m := length_slice _ _
  rw [val_hostStage hm, hstart, Nat.sub_right_comm]
  unfold afterLine
  rw [← hline, writeAt_writeAt o (by simp), ← List.append_assoc]
  refine shows_writeAt ?_
  rw [List.length_append, List.length_take]
  omega

/-- With the request line in front, the printed text is right if and only if it does not part from the
value as far as there is room. -/
theorem shows_behind_iff (hm : 1 ≤ m) (hline : HostLine packet p l x k)
    (hstart : hostStart packet p l m = requestLen packet p l m) :
    Shows (hostStage packet (p + x) (afterLine packet p l o)).val (rightText packet p l m x k) ↔
      (32 ≤ k ∧ hostLen packet (p + x + 8) = 32) ∨
        m - 1 ≤ requestLen packet p l m + 8 + min (hostLen packet (p + x + 8)) k := by
  have hlen := requestLen_le packet p l m
  have hlineLen : (requestLine packet p l m).length = requestLen packet p l m := length_slice _ _
  have hle : hostLen packet (p + x + 8) ≤ 32 := stretch_le _ _ _
  have hprinted := @shows_printed p l packet m x o hm hstart
  rw [rightText_eq, ← hostLen_eq_iff hline]
  constructor
  · intro hright
    by_cases hne : hostLen packet (p + x + 8) = min k 32
    · exact Or.inl hne
    right
    have hroom := not_room (i := m - 1 - requestLen packet p l m) hline hne fun d hd hd1 hd2 => ?_
    · omega
    have h1 := hprinted.getElem? (d := requestLen packet p l m + d) ?_
    have h2 := hright.getElem? (d := requestLen packet p l m + d) ?_
    · rw [h1, List.getElem?_append_right (by omega), List.getElem?_append_right (by omega), hlineLen,
        Nat.add_sub_cancel_left, List.getElem?_take_of_lt hd, List.getElem?_take_of_lt hd] at h2
      exact h2
    · rw [List.length_append, List.length_take, length_hostText, length_slice]
      omega
    · rw [List.length_append, List.length_take, length_hostText, length_slice]
      omega
  · rintro (heq | hroom)
    · rwa [← heq]
    · rw [take_hostText (by omega), ← take_hostText (j := hostLen packet (p + x + 8)) (by omega)]
      exact hprinted

/-- The text of the host goes over a request line with a NUL. -/
theorem not_shows_over (hm : 1 ≤ m) (hstart : hostStart packet p l m ≠ requestLen packet p l m) :
    ¬ Shows (hostStage packet (p + x) (afterLine packet p l o)).val (rightText packet p l m x k) := by
  intro hright
  have hlen := requestLen_le packet p l m
  have hlineLen : (requestLine packet p l m).length = requestLen packet p l m := length_slice _ _
  have hle : hostStart packet p l m ≤ requestLen packet p l m := stretch_le _ _ _
  have hstop : isNul (packet (p + hostStart packet p l m)) = true :=
    stop_stretch isNul p (requestLen packet p l m) (by unfold hostStart at hstart hle; omega)
  have hnul : packet (p + hostStart packet p l m) = 0 := by simpa [isNul] using hstop
  have h := hright.getElem? (d := hostStart packet p l m) ?_
  swap
  · rw [rightText_eq, List.length_append]
    omega
  -- the right text has the NUL there, the printed one a space
  obtain ⟨j, hj⟩ : ∃ j, m - hostStart packet p l m - 1 = j + 1 := ⟨m - hostStart packet p l m - 2, by omega⟩
  have hspace : (hostStage packet (p + x) (afterLine packet p l o)).val.toList[hostStart packet p l m]? =
      some 32 := by
    rw [List.getElem?_eq_getElem (by rw [Vector.length_toList]; omega), Vector.getElem_toList,
      getElem_congr_coll (val_hostStage hm x), getElem_writeAt, if_pos ⟨le_rfl, by simp⟩, Nat.sub_self, hj]
    rfl
  rw [hspace, rightText_eq, List.getElem?_append_left (by omega), requestLine, getElem?_slice (by omega),
    hnul] at h
  exact absurd h (by decide)

/-- The text is right if and only if the value is printed as it should be. -/
theorem shows_iff (hm : 1 ≤ m) (hline : HostLine packet p l x k) :
    Shows (hostStage packet (p + x) (afterLine packet p l o)).val (rightText packet p l m x k) ↔
      Printed packet p l m x k := by
  unfold Printed
  rw [← hostStart_eq_iff]
  by_cases hstart : hostStart packet p l m = requestLen packet p l m
  · rw [shows_behind_iff hm hline hstart, and_iff_right hstart]
  · exact iff_of_false (not_shows_over hm hstart) fun h => hstart h.1

/-- The bytes that are printed of a value lie in the payload. -/
def PrintedInside (packet : ℕ → UInt8) (p l x : ℕ) : Prop :=
  x + 8 + min (hostLen packet (p + x + 8) + 1) 32 ≤ l

/-- **HTTP.** On a request `dissect_http` keeps to its payload and its buffer and shows the request line
with the host, if and only if what is printed for the first `Host: ` lies in the payload and, where
that starts a header line, is the value as far as there is room. -/
theorem dissectHttp_right_iff (hreq : IsRequest packet p l) (hm : 1 ≤ m) (o : Vector UInt8 m) :
    Right packet p l o ↔ ∀ x, HostAt packet p l x →
      PrintedInside packet p l x ∧ ∀ k, HostLine packet p l x k → Printed packet p l m x k := by
  unfold Right
  rcases @dissectHttp_stages p l packet m o hreq hm with ⟨x, hx, hval, hconf⟩ | ⟨hno, hconf⟩
  · rw [hval, hconf, confined_hostStage_iff hm hx]
    constructor
    · rintro ⟨hinside, hshows⟩ y hy
      obtain rfl := hx.unique hy
      exact ⟨hinside, fun k hline => (shows_iff hm hline).mp (hshows x k hline)⟩
    · intro h
      refine ⟨(h x hx).1, fun y k hline => ?_⟩
      obtain rfl := hx.unique hline.hit
      exact (shows_iff hm hline).mpr ((h x hx).2 k hline)
  · exact iff_of_true ⟨hconf, fun x k hline => absurd hline.hit (hno x)⟩
      fun x hx => absurd hx (hno x)

end

/-- A request for a host with the given name; `NUL`s behind it. -/
def requestTo (host : List UInt8) (i : ℕ) : UInt8 :=
  (ascii "GET / HTTP/1.1\r\nHost: " ++ host ++ ascii "\r\n\r\n").getD i 0

/-- The name `a`: a NUL behind the 27 bytes of the payload is read. -/
theorem shortHost_wrong : ¬ Right (requestTo [97]) 0 27 (zeros 128) := by
  rintro ⟨hconf, -⟩
  have hreq : IsRequest (requestTo [97]) 0 27 := ⟨by decide, ascii "GET ", by decide, by decide⟩
  have hat : HostAt (requestTo [97]) 0 27 14 := by
    refine ⟨by decide, by decide, by decide, fun j _ hj => ?_⟩
    interval_cases j <;> decide
  rcases @dissectHttp_stages 0 27 (requestTo [97]) 128 (zeros 128) hreq (by decide) with
    ⟨x, hx, -, hiff⟩ | ⟨hno, -⟩
  · obtain rfl := hx.unique hat
    have hinside := (confined_hostStage_iff (by decide) hx).mp (hiff.mp hconf)
    exact absurd hinside (by decide)
  · exact hno 14 hat

/-- A name of 32 letters: what is printed is the name. -/
theorem longHost_right : IsRequest (requestTo (List.replicate 32 97)) 0 58 ∧
    Right (requestTo (List.replicate 32 97)) 0 58 (zeros 128) := by
  have hreq : IsRequest (requestTo (List.replicate 32 97)) 0 58 :=
    ⟨by decide, ascii "GET ", by decide, by decide⟩
  have hat : HostAt (requestTo (List.replicate 32 97)) 0 58 14 := by
    refine ⟨by decide, by decide, by decide, fun j _ hj => ?_⟩
    interval_cases j <;> decide
  have hlen : hostLen (requestTo (List.replicate 32 97)) (0 + 14 + 8) = 32 := by decide
  refine ⟨hreq, (dissectHttp_right_iff hreq (by decide) (zeros 128)).mpr fun x hx => ?_⟩
  obtain rfl := hx.unique hat
  have hinside : PrintedInside (requestTo (List.replicate 32 97)) 0 58 14 := by
    unfold PrintedInside
    omega
  refine ⟨hinside, fun k hline => ⟨by decide, Or.inl ⟨?_, hlen⟩⟩⟩
  by_contra hk
  have hcr := hline.cr
  have hk' : k < 32 := by omega
  interval_cases k <;> exact absurd hcr (by decide)

end Pacsni.Capture.Http
