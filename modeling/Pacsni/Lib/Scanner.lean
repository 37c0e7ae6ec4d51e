import Pacsni.Lib.Json

/-! # Scanning lines

`bufio.Scanner` of Go with its default split function. The scanner gives up when its buffer is full
without a newline in it. As long as no line fills the buffer, the tokens are the lines of the stream,
however it is cut into reads (`tokens_scan`). -/

namespace Pacsni.Lib.Scanner

open Pacsni.Lib.Json

/-! ### Lines -/

/-- The bytes are the lines, each with a newline behind it, and a rest without one. -/
structure Lines (ls : List (List UInt8)) (rest s : List UInt8) : Prop where
  eq : s = ls.flatMap (· ++ [10]) ++ rest
  full : ∀ l ∈ ls, 10 ∉ l
  rest : 10 ∉ rest

variable {ls ms : List (List UInt8)} {l m s t : List UInt8}

theorem Lines.splitOn (h : Lines ls l s) : s.splitOn 10 = ls ++ [l] := by
  rw [h.eq]
  exact splitOn_lines h.rest ls h.full

theorem exists_lines (s : List UInt8) : ∃ ls l, Lines ls l s := by
  induction s with
  | nil => exact ⟨[], [], rfl, by simp, by simp⟩
  | cons b s ih =>
    obtain ⟨ls, l, h⟩ := ih
    by_cases hb : b = 10
    · subst hb
      refine ⟨[] :: ls, l, ?_, ?_, h.rest⟩
      · rw [h.eq]
        rfl
      · exact List.forall_mem_cons.mpr ⟨by simp, h.full⟩
    · have hne : ∀ x : List UInt8, 10 ∉ x → 10 ∉ b :: x := fun x hx => by simp [hx, Ne.symm hb]
      cases ls with
      | nil => exact ⟨[], b :: l, by rw [h.eq]; rfl, by simp, hne l h.rest⟩
      | cons x ls =>
        have hfull := List.forall_mem_cons.mp h.full
        refine ⟨(b :: x) :: ls, l, by rw [h.eq]; rfl, ?_, h.rest⟩
        exact List.forall_mem_cons.mpr ⟨hne x hfull.1, hfull.2⟩

/-- What follows is cut together with the rest. -/
theorem Lines.append (h : Lines ls l s) (h' : Lines ms m (l ++ t)) :
    Lines (ls ++ ms) m (s ++ t) where
  eq := by
    rw [h.eq, List.append_assoc, h'.eq, List.flatMap_append, List.append_assoc]
  full := List.forall_mem_append.mpr ⟨h.full, h'.full⟩
  rest := h'.rest

/-- A part without a newline at the start is the start of the first line, or of the rest. -/
theorem Lines.length_le (h : Lines ms m (l ++ t)) (hl : 10 ∉ l) :
    l.length ≤ (ms.headD m).length := by
  have heq := h.eq
  cases ms with
  | nil =>
    have hlen := congrArg List.length heq
    simp only [List.length_append, List.flatMap_nil, List.nil_append] at hlen
    rw [List.headD_nil]
    omega
  | cons x ms =>
    by_contra hlt
    rw [List.headD_cons, Nat.not_le] at hlt
    have hx : l = x ++ [10] ++ l.drop (x.length + 1) := by
      have hpre : (x ++ [10]) <+: l := by
        have hstart : (x ++ [10]) <+: l ++ t := by
          rw [heq, List.flatMap_cons, List.append_assoc]
          exact List.prefix_append _ _
        refine List.prefix_of_prefix_length_le hstart (List.prefix_append l t) ?_
        rw [List.length_append, List.length_singleton]
        exact hlt
      obtain ⟨u, rfl⟩ := hpre
      simp
    exact hl (hx ▸ by simp)

/-! ### The scanner -/

/-- The line without a carriage return at its end. -/
def dropCR (l : List UInt8) : List UInt8 := if l.getLast? = some 13 then l.dropLast else l

/-- What is in the buffer, the tokens so far, and whether a line was too long. -/
structure State where
  buffer : List UInt8
  tokens : List (List UInt8)
  tooLong : Bool

variable (limit : ℕ)

/-- The scanner gets the bytes of a read. A buffer of `limit` bytes without a newline cannot grow. -/
def read (x : State) (chunk : List UInt8) : State :=
  if x.tooLong then x
  else if limit ≤ x.buffer.length then { x with tooLong := true }
  else
    let parts := (x.buffer ++ chunk).splitOn 10
    { x with buffer := parts.getLastD [], tokens := x.tokens ++ parts.dropLast.map dropCR }

/-- The end of the stream: what is left is the last token. -/
def finish (x : State) : State :=
  if x.tooLong then x
  else if limit ≤ x.buffer.length then { x with tooLong := true }
  else if x.buffer = [] then x
  else { x with buffer := [], tokens := x.tokens ++ [dropCR x.buffer] }

/-- The scanner on the reads of a stream. -/
def scan (reads : List (List UInt8)) : State := finish limit (reads.foldl (read limit) ⟨[], [], false⟩)

/-- The tokens that it has returned before the stream has ended. -/
def tokensSoFar (reads : List (List UInt8)) : List (List UInt8) :=
  (reads.foldl (read limit) ⟨[], [], false⟩).tokens

variable {limit} {x : State} {chunk : List UInt8}

theorem tokens_read (x : State) (chunk : List UInt8) : x.tokens <+: (read limit x chunk).tokens := by
  unfold read
  split_ifs
  · exact List.prefix_refl _
  · exact List.prefix_refl _
  · exact List.prefix_append _ _

theorem tokens_finish (x : State) : x.tokens <+: (finish limit x).tokens := by
  unfold finish
  split_ifs
  · exact List.prefix_refl _
  · exact List.prefix_refl _
  · exact List.prefix_refl _
  · exact List.prefix_append _ _

/-- No token is taken back. -/
theorem tokensSoFar_concat (reads : List (List UInt8)) (chunk : List UInt8) :
    tokensSoFar limit reads <+: tokensSoFar limit (reads ++ [chunk]) := by
  unfold tokensSoFar
  rw [List.foldl_concat]
  exact tokens_read _ _

theorem tokensSoFar_scan (reads : List (List UInt8)) :
    tokensSoFar limit reads <+: (scan limit reads).tokens := tokens_finish _

/-- The state behind the part `s` of the stream. -/
structure Scanned (s : List UInt8) (x : State) : Prop where
  running : x.tooLong = false
  lines : ∃ ls, Lines ls x.buffer s ∧ x.tokens = ls.map dropCR

/-- **Reads.** A read keeps the state in step with the stream, if its lines fit. -/
theorem Scanned.read (h : Scanned s x) (hlines : Lines ls l (s ++ chunk))
    (hfit : ∀ p ∈ ls ++ [l], p.length < limit) : Scanned (s ++ chunk) (read limit x chunk) := by
  obtain ⟨hrun, hs, hls, htokens⟩ := h
  obtain ⟨ms, m, hms⟩ := exists_lines (x.buffer ++ chunk)
  have happ := hls.append hms
  have hparts : hs ++ ms ++ [m] = ls ++ [l] := happ.splitOn.symm.trans hlines.splitOn
  have hfirst : ms.headD m ∈ ls ++ [l] := by
    rw [← hparts]
    cases ms <;> simp
  have hroom : x.buffer.length < limit :=
    Nat.lt_of_le_of_lt (hms.length_le hls.rest) (hfit _ hfirst)
  unfold Scanner.read
  rw [if_neg (by simp [hrun]), if_neg (by omega), hms.splitOn]
  refine ⟨hrun, hs ++ ms, ?_, ?_⟩
  · simpa using happ
  · simp [htokens]

theorem Scanned.finish (h : Scanned s x) (hlines : Lines ls l s) (hfit : l.length < limit) :
    (finish limit x).tooLong = false ∧
      (finish limit x).tokens = (ls ++ if l = [] then [] else [l]).map dropCR := by
  obtain ⟨hrun, hs, hls, htokens⟩ := h
  have hparts : hs ++ [x.buffer] = ls ++ [l] := hls.splitOn.symm.trans hlines.splitOn
  obtain ⟨rfl, hbuf⟩ := List.append_inj' hparts rfl
  have hbuf : x.buffer = l := List.singleton_inj.mp hbuf
  unfold Scanner.finish
  rw [if_neg (by simp [hrun]), if_neg (by rw [hbuf]; omega), hbuf]
  split_ifs with hl
  · exact ⟨hrun, by simp [htokens]⟩
  · exact ⟨hrun, by simp [htokens]⟩

/-- The start of a stream has lines that fit if the stream has. -/
theorem Lines.fit_prefix (h : Lines ls l (s ++ t)) (hfit : ∀ p ∈ ls ++ [l], p.length < limit)
    (h' : Lines ms m s) : ∀ p ∈ ms ++ [m], p.length < limit := by
  obtain ⟨ns, n, hns⟩ := exists_lines (m ++ t)
  have happ := h'.append hns
  have hparts : ms ++ ns ++ [n] = ls ++ [l] := happ.splitOn.symm.trans h.splitOn
  have hfirst : ns.headD n ∈ ls ++ [l] := by
    rw [← hparts]
    cases ns <;> simp
  intro p hp
  rcases List.mem_append.mp hp with hp | hp
  · exact hfit p (hparts ▸ by simp [hp])
  · rw [List.mem_singleton.mp hp]
    exact Nat.lt_of_le_of_lt (hns.length_le h'.rest) (hfit _ hfirst)

theorem scanned_foldl (reads : List (List UInt8)) (h : Scanned s x)
    (hlines : Lines ls l (s ++ reads.flatten)) (hfit : ∀ p ∈ ls ++ [l], p.length < limit) :
    Scanned (s ++ reads.flatten) (reads.foldl (Scanner.read limit) x) := by
  induction reads generalizing s x with
  | nil => simpa using h
  | cons chunk reads ih =>
    rw [List.flatten_cons, ← List.append_assoc] at hlines ⊢
    obtain ⟨ms, m, hms⟩ := exists_lines (s ++ chunk)
    exact ih (h.read hms (hlines.fit_prefix hfit hms)) hlines

/-- **Tokens.** If no line of a stream fills the buffer, the scanner returns the lines, and what is left
behind the last newline unless that is empty, for all reads that the stream is cut into. -/
theorem tokens_scan (reads : List (List UInt8)) (hlines : Lines ls l reads.flatten)
    (hfit : ∀ p ∈ ls ++ [l], p.length < limit) :
    (scan limit reads).tooLong = false ∧
      (scan limit reads).tokens = (ls ++ if l = [] then [] else [l]).map dropCR := by
  have hstart : Scanned [] ⟨[], [], false⟩ := ⟨rfl, [], ⟨rfl, by simp, by simp⟩, rfl⟩
  have hend := scanned_foldl reads hstart (by simpa using hlines) hfit
  rw [List.nil_append] at hend
  exact hend.finish hlines (hfit l (by simp))

end Pacsni.Lib.Scanner
