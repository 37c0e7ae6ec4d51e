import Pacsni.Lib.Scanner
import Pacsni.Lib.JsonCut
import Pacsni.Dashboard.Unmarshal

/-! # The connection to the service

One pass of the loop over the connection to the service: the scanner cuts the stream into lines, and
every line that `json.Unmarshal` accepts goes to `packetChan`. What the packet goroutine gets from a
connection is what the service has written to it, in order, however the stream is cut into reads. -/

namespace Pacsni.Dashboard.Intake

open Pacsni.Lib.Text Pacsni.Lib.Json Pacsni.Lib.Utf8 Pacsni.Lib.Scanner
open Pacsni.Service.Decode (shown)
open Pacsni.Service.Lines Pacsni.Dashboard.Packet Pacsni.Dashboard.Unmarshal

variable (foldRune : Char → Char)

/-- The packets that are sent on `packetChan` for the reads of one connection. -/
def intake (reads : List (List UInt8)) : List DashboardPacket :=
  (scan scannerLimit reads).tokens.filterMap (unmarshal foldRune)

section

variable {escape : Char → Str}

/-- No text of a value ends a line with a carriage return. -/
theorem dropCR_of_printable {t : Str} (h : Printable t) {l : List UInt8} (hl : l <+: utf8 t) :
    dropCR l = l := by
  unfold dropCR
  refine if_neg fun hlast => ?_
  obtain ⟨c, hc, hval⟩ := mem_of_mem_utf8 (by decide) (hl.mem (List.mem_of_getLast? hlast))
  have hge := h c hc
  rw [hval] at hge
  exact absurd hge (by decide)

theorem unfinished_prefix (hescape : Escapes escape) (rs : List Recv) :
    ∃ t, Printable t ∧ unfinished escape rs <+: utf8 t ∧
      ∀ n, (∀ d w, .packet d w ∈ rs → (utf8 (toJson escape d)).length < n) → 0 < n →
        (unfinished escape rs).length < n := by
  fun_induction unfinished escape rs with
  | case1 => exact ⟨[], printable_nil, List.nil_prefix, fun n _ hn => hn⟩
  | case2 d rs ih =>
    obtain ⟨t, ht, hpre, hlen⟩ := ih
    exact ⟨t, ht, hpre, fun n hall => hlen n fun d' w hmem => hall d' w (List.mem_cons_of_mem _ hmem)⟩
  | case3 d k rs =>
    refine ⟨toJson escape d, (value_toJson hescape d).printable, List.take_prefix _ _, fun n hall _ => ?_⟩
    rw [List.length_take]
    have hd := hall d (.failed k) List.mem_cons_self
    omega
  | case4 k rs ih =>
    obtain ⟨t, ht, hpre, hlen⟩ := ih
    exact ⟨t, ht, hpre, fun n hall => hlen n fun d' w hmem => hall d' w (List.mem_cons_of_mem _ hmem)⟩
  | case5 rs => exact ⟨[], printable_nil, List.nil_prefix, fun n _ hn => hn⟩

/-- **Cut lines.** Of a line that is cut there is no packet. -/
theorem eq_of_unmarshal {t : Str} {v : Node} {l : List UInt8} {p : DashboardPacket}
    (h : unmarshal foldRune l = some p) (hl : l <+: utf8 t) (ht : Value v t) : l = utf8 t := by
  unfold unmarshal at h
  split at h
  · rename_i ms hparse
    exact Lib.JsonRead.eq_of_parse_runes hparse hl ht
  · cases h

/-- The packet at which the socket failed, if nothing but the newline of its line was lost. -/
def whole (escape : Char → Str) : List Recv → List Service.Model.DashboardPacket
  | [] => []
  | .packet _ .ok :: rs => whole escape rs
  | .packet d (.failed k) :: _ => if (utf8 (toJson escape d)).length ≤ k then [d] else []
  | .lagged _ :: rs => whole escape rs
  | .closed :: _ => []

theorem unmarshal_nil : unmarshal foldRune [] = none := by
  simp [unmarshal, runes, Lib.JsonRead.parse, Lib.JsonRead.readValue]

theorem unmarshal_unfinished (hescape : Escapes escape) (rs : List Recv) :
    (unmarshal foldRune (unfinished escape rs)).toList =
      (whole escape rs).map fun d => received (forget d) := by
  fun_induction unfinished escape rs with
  | case1 => rw [unmarshal_nil]; rfl
  | case2 d rs ih => exact ih
  | case3 d k rs =>
    rw [whole]
    split_ifs with hk
    · rw [List.take_of_length_le hk, unmarshal_toJson foldRune hescape]
      rfl
    · cases h : unmarshal foldRune ((utf8 (toJson escape d)).take k) with
      | none => rfl
      | some p =>
        have heq := eq_of_unmarshal foldRune h (List.take_prefix _ _) (value_toJson hescape d)
        have hlen := congrArg List.length heq
        rw [List.length_take] at hlen
        omega
  | case4 k rs ih => exact ih
  | case5 rs => rw [unmarshal_nil]; rfl

/-- The stream as lines. -/
theorem lines_handleGoConnection (hescape : Escapes escape) (rs : List Recv) :
    Lines ((written rs).map fun d => utf8 (toJson escape d)) (unfinished escape rs)
      (handleGoConnection escape rs) where
  eq := handleGoConnection_eq rs
  full := by
    intro l hl
    obtain ⟨d, -, rfl⟩ := List.mem_map.mp hl
    exact newline_notMem_utf8 (value_toJson hescape d).printable
  rest := newline_notMem_unfinished hescape rs

end

/-- **Lost ends.** What arrives of a stream is what is written if the socket fails there. -/
theorem exists_cut (escape : Char → Str) (rs : List Recv) {l : List UInt8}
    (h : l <+: handleGoConnection escape rs) :
    ∃ cut, l = handleGoConnection escape cut ∧
      written cut ++ whole escape cut <+: written rs ++ whole escape rs ∧
      ∀ d w, .packet d w ∈ cut → ∃ w', .packet d w' ∈ rs := by
  fun_induction written rs generalizing l with
  | case1 => exact ⟨[], List.prefix_nil.mp h, List.prefix_refl _, by simp⟩
  | case2 d rs ih =>
    have hline : handleGoConnection escape (.packet d .ok :: rs) =
        utf8 (toJson escape d) ++ [10] ++ handleGoConnection escape rs := by
      rw [handleGoConnection, utf8_append]
      rfl
    rw [hline] at h
    by_cases hlen : l.length ≤ (utf8 (toJson escape d)).length
    · -- the line is cut
      have hpre : l <+: utf8 (toJson escape d) := by
        refine List.prefix_of_prefix_length_le h ?_ hlen
        rw [List.append_assoc]
        exact List.prefix_append _ _
      refine ⟨[.packet d (.failed l.length)], List.prefix_iff_eq_take.mp hpre, ?_, ?_⟩
      · show (if (utf8 (toJson escape d)).length ≤ l.length then [d] else []) <+:
          d :: (written rs ++ whole escape rs)
        split_ifs
        · exact ⟨written rs ++ whole escape rs, rfl⟩
        · exact List.nil_prefix
      · intro d' w hmem
        obtain ⟨rfl, -⟩ := Recv.packet.inj (List.mem_singleton.mp hmem)
        exact ⟨.ok, List.mem_cons_self⟩
    · obtain ⟨u, rfl⟩ : (utf8 (toJson escape d) ++ [10]) <+: l :=
        List.prefix_of_prefix_length_le (List.prefix_append _ _) h
          (by rw [List.length_append, List.length_singleton]; omega)
      obtain ⟨cut, rfl, hpre, hmem⟩ := ih ((List.prefix_append_right_inj _).mp h)
      refine ⟨.packet d .ok :: cut, ?_, List.cons_prefix_cons.mpr ⟨rfl, hpre⟩, ?_⟩
      · rw [handleGoConnection, utf8_append]
        rfl
      · rintro d' w (_ | ⟨_, hcut⟩)
        · exact ⟨.ok, List.mem_cons_self⟩
        · obtain ⟨w', hw'⟩ := hmem d' w hcut
          exact ⟨w', List.mem_cons_of_mem _ hw'⟩
  | case3 d k rs =>
    have hpre : l <+: utf8 (toJson escape d) := h.trans (List.take_prefix _ _)
    have hlen : l.length ≤ k := Nat.le_trans h.length_le (List.length_take_le _ _)
    refine ⟨[.packet d (.failed l.length)], List.prefix_iff_eq_take.mp hpre, ?_, ?_⟩
    · rw [written, whole, whole]
      split_ifs
      · exact List.prefix_refl _
      · omega
      · exact List.nil_prefix
      · exact List.prefix_refl _
    · intro d' w hmem
      obtain ⟨rfl, -⟩ := Recv.packet.inj (List.mem_singleton.mp hmem)
      exact ⟨.failed k, List.mem_cons_self⟩
  | case4 k rs ih =>
    obtain ⟨cut, hcut, hpre, hmem⟩ := ih h
    refine ⟨cut, hcut, hpre, fun d w hd => ?_⟩
    obtain ⟨w', hw'⟩ := hmem d w hd
    exact ⟨w', List.mem_cons_of_mem _ hw'⟩
  | case5 rs => exact ⟨[], List.prefix_nil.mp h, List.prefix_refl _, by simp⟩

/-- The packets of a stream that has arrived to its end. -/
theorem intake_of_flatten {escape : Char → Str} (hescape : Escapes escape)
    {verify : List UInt8 → List UInt8 → Bool} {rs : List Recv}
    (hrs : ∀ d w, .packet d w ∈ rs → Decoded verify d) {reads : List (List UInt8)}
    (hreads : reads.flatten = handleGoConnection escape rs) :
    (scan scannerLimit reads).tooLong = false ∧
      intake foldRune reads =
        (written rs ++ whole escape rs).map fun d => received (forget d) := by
  have hline : ∀ d w, .packet d w ∈ rs → (utf8 (toJson escape d)).length < scannerLimit :=
    fun d w hmem => length_toJson_lt hescape (hrs d w hmem).sized
  obtain ⟨t, hprint, hpre, hshort⟩ := unfinished_prefix hescape rs
  have hlines := lines_handleGoConnection hescape rs
  rw [← hreads] at hlines
  have hfit : ∀ l ∈ ((written rs).map fun d => utf8 (toJson escape d)) ++ [unfinished escape rs],
      l.length < scannerLimit := by
    refine List.forall_mem_append.mpr ⟨fun l hl => ?_, ?_⟩
    · obtain ⟨d, hd, rfl⟩ := List.mem_map.mp hl
      exact hline d .ok (recv_of_mem_written rs d hd)
    · simpa using hshort _ hline (by decide)
  obtain ⟨hrun, htokens⟩ := tokens_scan reads hlines hfit
  refine ⟨hrun, ?_⟩
  have hfull : ((written rs).map fun d => utf8 (toJson escape d)).map dropCR =
      (written rs).map fun d => utf8 (toJson escape d) := by
    rw [List.map_map]
    exact List.map_congr_left fun d _ =>
      dropCR_of_printable (value_toJson hescape d).printable (List.prefix_refl _)
  have hread : ((written rs).map fun d => utf8 (toJson escape d)).filterMap (unmarshal foldRune) =
      (written rs).map fun d => received (forget d) := by
    rw [List.filterMap_map, ← List.filterMap_eq_map]
    exact List.filterMap_congr fun d _ => unmarshal_toJson foldRune hescape d
  have hlast := unmarshal_unfinished foldRune hescape rs
  rw [intake, htokens, List.map_append, hfull, List.filterMap_append, hread, List.map_append, ← hlast]
  split_ifs with hnil
  · rw [hnil, unmarshal_nil]
    rfl
  · rw [List.map_singleton, dropCR_of_printable hprint hpre]
    cases h : unmarshal foldRune (unfinished escape rs) <;> simp [h]

/-- The packets of a stream of which the end may be lost. -/
theorem intake_of_prefix {escape : Char → Str} (hescape : Escapes escape)
    {verify : List UInt8 → List UInt8 → Bool} {rs : List Recv}
    (hrs : ∀ d w, .packet d w ∈ rs → Decoded verify d) {reads : List (List UInt8)}
    (hreads : reads.flatten <+: handleGoConnection escape rs) :
    (scan scannerLimit reads).tooLong = false ∧
      ∃ ds, ds <+: written rs ++ whole escape rs ∧
        intake foldRune reads = ds.map fun d => received (forget d) := by
  obtain ⟨cut, hcut, hpre, hmem⟩ := exists_cut escape rs hreads
  have hdecoded : ∀ d w, .packet d w ∈ cut → Decoded verify d := by
    intro d w hd
    obtain ⟨w', hw'⟩ := hmem d w hd
    exact hrs d w' hw'
  obtain ⟨hrun, hintake⟩ := intake_of_flatten foldRune hescape hdecoded hcut
  exact ⟨hrun, _, hpre, hintake⟩

/-- **From the service to the dashboard.** The packet goroutine gets the first of the packets whose line
was written, in order, each without the fields that the dashboard does not know; it gets all of them if
the stream arrives to its end, and then also the packet in whose line the socket has failed, if nothing
but the newline was lost. The scanner never gives up. -/
theorem intake_handleGoConnection {escape : Char → Str} (hescape : Escapes escape)
    (verify : List UInt8 → List UInt8 → Bool) (rs : List Recv)
    (hrs : ∀ d w, .packet d w ∈ rs → Decoded verify d) (reads : List (List UInt8))
    (hreads : reads.flatten <+: handleGoConnection escape rs) :
    (scan scannerLimit reads).tooLong = false ∧
      (∃ ds, ds <+: written rs ++ whole escape rs ∧
        intake foldRune reads = ds.map fun d => received (forget d)) ∧
      (reads.flatten = handleGoConnection escape rs →
        intake foldRune reads =
          (written rs ++ whole escape rs).map fun d => received (forget d)) := by
  obtain ⟨hrun, hpre⟩ := intake_of_prefix foldRune hescape hrs hreads
  exact ⟨hrun, hpre, fun heq => (intake_of_flatten foldRune hescape hrs heq).2⟩

/-- Two packets with a newline in a text, and a socket that fails in the line of a third one. -/
def cutRecvs : List Recv := newlineRecvs ++ [.packet (shown newlineRecord) (.failed 7)]

theorem intake_cutRecvs :
    (scan scannerLimit [handleGoConnection serdeEscape cutRecvs]).tooLong = false ∧
      (∃ ds, ds <+: written cutRecvs ++ whole serdeEscape cutRecvs ∧
        intake id [handleGoConnection serdeEscape cutRecvs] =
          ds.map fun d => received (forget d)) ∧
      ([handleGoConnection serdeEscape cutRecvs].flatten = handleGoConnection serdeEscape cutRecvs →
        intake id [handleGoConnection serdeEscape cutRecvs] =
          (written cutRecvs ++ whole serdeEscape cutRecvs).map fun d => received (forget d)) := by
  refine intake_handleGoConnection id escapes_serdeEscape (fun _ _ => true) cutRecvs
    (fun d w hmem => ?_) _ (by rw [List.flatten_singleton])
  have hd : d = shown newlineRecord := by
    simp only [cutRecvs, newlineRecvs, List.cons_append, List.nil_append, List.mem_cons,
      List.not_mem_nil, or_false, Recv.packet.injEq, reduceCtorEq, false_or] at hmem
    rcases hmem with h | h | h
    all_goals exact h.1
  rw [hd]
  exact decoded_shown newlineRecord (Vector.replicate 64 0)

end Pacsni.Dashboard.Intake
