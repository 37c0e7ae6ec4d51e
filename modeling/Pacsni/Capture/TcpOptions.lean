import Pacsni.Capture.Memory
import Pacsni.Lib.Options

/-! # The options of a TCP header

Behind its first 20 bytes a TCP header is a list of options: 1 pads, 0 ends the list, and the length of
an option counts its kind and its length byte too. `parse_tcp_options_extended` walks over the list and
changes the record option by option; its result is a fold over the parsed list
(`parseTcpOptionsExtended_fold`), from which the fields are read off. `parse_tcp_options`, the older
copy of the loop, knows fewer kinds and agrees on those it knows. -/

namespace Pacsni.Capture.TcpOptions

open Pacsni.Lib.Bytes Pacsni.Lib.Trace Pacsni.Lib.CBuffer Pacsni.Lib.Options
open Pacsni.Capture.Types Pacsni.Capture.Dissectors Pacsni.Capture.Memory

variable {packet : ℕ → UInt8}

/-- The format of TCP options. -/
def tcpFormat : Format := ⟨1, 0, 2⟩

/-- The options of a header of `h` bytes at `o`. -/
def optionsAt (packet : ℕ → UInt8) (o h : ℕ) : List Opt :=
  options tcpFormat (slice packet (o + 20) (h - 20))

/-! ### What an option says -/

section

variable (x : Opt)

/-- A maximum segment size. -/
def mssOf : Option UInt16 :=
  if x.code = 2 ∧ x.data.length = 2 then some (be16 (x.data.getD 0 0) (x.data.getD 1 0)) else none

/-- A window scale. -/
def wsOf : Option UInt8 := if x.code = 3 ∧ x.data.length = 1 then some (x.data.getD 0 0) else none

/-- A time stamp and its echo. -/
def timestampOf : Option (UInt32 × UInt32) :=
  if x.code = 8 ∧ x.data.length = 8 then
    some (be32 (x.data.getD 0 0) (x.data.getD 1 0) (x.data.getD 2 0) (x.data.getD 3 0),
      be32 (x.data.getD 4 0) (x.data.getD 5 0) (x.data.getD 6 0) (x.data.getD 7 0))
  else none

/-- Selective acknowledgements are permitted. -/
def SackPermitted : Prop := x.code = 4 ∧ x.data.length = 0

/-- The segment is authenticated. -/
def Authenticated : Prop := x.code = 29

instance : Decidable (SackPermitted x) := inferInstanceAs (Decidable (_ ∧ _))

instance : Decidable (Authenticated x) := inferInstanceAs (Decidable (_ = _))

/-- The edges of selective acknowledgements, as they are copied over those of the record. -/
def edgesOf (edges : Vector UInt32 8) : Vector UInt32 8 :=
  if x.code = 5 ∧ 8 ≤ x.data.length then
    copyEdges edges (x.data.take (min (x.data.length / 8) 4 * 8))
  else edges

end

/-- The record behind one option. -/
def applyOption (i : PacketInfo) (x : Opt) : PacketInfo :=
  { i with
    tcpMss := (mssOf x).getD i.tcpMss
    tcpWs := (wsOf x).getD i.tcpWs
    tcpTsVal := ((timestampOf x).map Prod.fst).getD i.tcpTsVal
    tcpTsEcr := ((timestampOf x).map Prod.snd).getD i.tcpTsEcr
    tcpSack := if SackPermitted x then 1 else i.tcpSack
    hasTcpAo := if Authenticated x then 1 else i.hasTcpAo
    tcpSackEdges := edgesOf x i.tcpSackEdges }

/-- The transport header behind one option. -/
def applyTransport (t : TransportInfo) (x : Opt) : TransportInfo :=
  { t with
    mss := (mssOf x).getD t.mss
    ws := (wsOf x).getD t.ws
    hasAo := if Authenticated x then true else t.hasAo }

/-! ### One option -/

section

variable {q : ℕ} {kind l : UInt8}

/-- The option with its length byte `l` at `q`. -/
def optAt (packet : ℕ → UInt8) (q : ℕ) (kind l : UInt8) : Opt :=
  ⟨kind, slice packet (q + 2) (l.toNat - 2)⟩

/-- An option of a given kind with `k` bytes of data. -/
theorem kind_iff (h2 : 2 ≤ l.toNat) {c : UInt8} {k : ℕ} (hk : k + 2 < 256) :
    ((optAt packet q kind l).code = c ∧ (optAt packet q kind l).data.length = k) ↔
      kind = c ∧ l = UInt8.ofNat (k + 2) := by
  have hlen : (optAt packet q kind l).data.length = l.toNat - 2 := length_slice _ _
  refine and_congr Iff.rfl ?_
  rw [hlen, ← UInt8.toNat_inj, UInt8.toNat_ofNat', Nat.mod_eq_of_lt hk]
  omega

theorem mssOf_optAt (h2 : 2 ≤ l.toNat) : mssOf (optAt packet q kind l) =
    if kind = 2 ∧ l = 4 then some (be16 (packet (q + 2)) (packet (q + 2 + 1))) else none := by
  unfold mssOf
  by_cases h : kind = 2 ∧ l = 4
  · obtain ⟨rfl, rfl⟩ := h
    rfl
  · rw [if_neg h]
    exact if_neg (mt (kind_iff h2 (by decide)).mp h)

theorem wsOf_optAt (h2 : 2 ≤ l.toNat) : wsOf (optAt packet q kind l) =
    if kind = 3 ∧ l = 3 then some (packet (q + 2)) else none := by
  unfold wsOf
  by_cases h : kind = 3 ∧ l = 3
  · obtain ⟨rfl, rfl⟩ := h
    rfl
  · rw [if_neg h]
    exact if_neg (mt (kind_iff h2 (by decide)).mp h)

theorem timestampOf_optAt (h2 : 2 ≤ l.toNat) : timestampOf (optAt packet q kind l) =
    if kind = 8 ∧ l = 10 then
      some (be32 (packet (q + 2)) (packet (q + 2 + 1)) (packet (q + 2 + 2)) (packet (q + 2 + 3)),
        be32 (packet (q + 6)) (packet (q + 6 + 1)) (packet (q + 6 + 2)) (packet (q + 6 + 3)))
    else none := by
  unfold timestampOf
  by_cases h : kind = 8 ∧ l = 10
  · obtain ⟨rfl, rfl⟩ := h
    rfl
  · rw [if_neg h]
    exact if_neg (mt (kind_iff h2 (by decide)).mp h)

theorem sackPermitted_optAt (h2 : 2 ≤ l.toNat) :
    SackPermitted (optAt packet q kind l) ↔ kind = 4 ∧ l = 2 := kind_iff h2 (by decide)

theorem edgesOf_optAt (h2 : 2 ≤ l.toNat) (edges : Vector UInt32 8) :
    edgesOf (optAt packet q kind l) edges = if kind = 5 ∧ 10 ≤ l then
      copyEdges edges (slice packet (q + 2) (min ((l.toNat - 2) / 8) 4 * 8)) else edges := by
  have hlen : (optAt packet q kind l).data.length = l.toNat - 2 := length_slice _ _
  have hle : 8 ≤ l.toNat - 2 ↔ 10 ≤ l := by
    rw [UInt8.le_iff_toNat_le]
    change _ ↔ 10 ≤ l.toNat
    omega
  have htake : (optAt packet q kind l).data.take (min ((l.toNat - 2) / 8) 4 * 8) =
      slice packet (q + 2) (min ((l.toNat - 2) / 8) 4 * 8) := by
    have hmin : min (min ((l.toNat - 2) / 8) 4 * 8) (l.toNat - 2) =
        min ((l.toNat - 2) / 8) 4 * 8 := by omega
    unfold optAt
    rw [take_slice, hmin]
  unfold edgesOf
  rw [hlen, htake]
  exact if_congr (and_congr Iff.rfl hle) rfl rfl

theorem val_tcpOption (h2 : 2 ≤ l.toNat) (i : PacketInfo) :
    (tcpOption packet q kind l i).val = applyOption i (optAt packet q kind l) := by
  have hao : Authenticated (optAt packet q kind l) ↔ kind = 29 := Iff.rfl
  unfold tcpOption applyOption
  simp only [mssOf_optAt h2, wsOf_optAt h2, timestampOf_optAt h2, sackPermitted_optAt h2,
    edgesOf_optAt h2, hao]
  by_cases h : kind = 2 ∧ l = 4
  · obtain ⟨rfl, rfl⟩ := h
    rfl
  rw [if_neg h, if_neg h]
  by_cases h : kind = 3 ∧ l = 3
  · obtain ⟨rfl, rfl⟩ := h
    rfl
  rw [if_neg h, if_neg h]
  by_cases h : kind = 4 ∧ l = 2
  · obtain ⟨rfl, rfl⟩ := h
    rfl
  rw [if_neg h, if_neg h]
  by_cases h : kind = 5 ∧ 10 ≤ l
  · rw [if_pos h, if_pos h]
    obtain ⟨rfl, hl⟩ := h
    rfl
  rw [if_neg h, if_neg h]
  by_cases h : kind = 8 ∧ l = 10
  · obtain ⟨rfl, rfl⟩ := h
    rfl
  rw [if_neg h, if_neg h]
  split_ifs <;> rfl

theorem val_transportOption (h2 : 2 ≤ l.toNat) (t : TransportInfo) :
    (transportOption packet q kind l t).val = applyTransport t (optAt packet q kind l) := by
  have hao : Authenticated (optAt packet q kind l) ↔ kind = 29 := Iff.rfl
  unfold transportOption applyTransport
  simp only [mssOf_optAt h2, wsOf_optAt h2, hao]
  by_cases h : kind = 2 ∧ l = 4
  · obtain ⟨rfl, rfl⟩ := h
    rfl
  rw [if_neg h, if_neg h]
  by_cases h : kind = 3 ∧ l = 3
  · obtain ⟨rfl, rfl⟩ := h
    rfl
  rw [if_neg h, if_neg h]
  split_ifs <;> rfl

end

/-! ### The option loops -/

section

variable {l : UInt8} {k len : ℕ}

/-- The condition under which both loops give an option up. -/
theorem given_up (hone : ¬ len ≤ k + 1)
    (h : len ≤ k + 1 ∨ l.toNat < tcpFormat.own ∨ len + tcpFormat.own < k + 2 + l.toNat) :
    l < 2 ∨ len < k + l.toNat := by
  rcases h with h | h | h
  · exact absurd h hone
  · exact Or.inl (UInt8.lt_iff_toNat_lt.mpr h)
  · have hown : tcpFormat.own = 2 := rfl
    exact Or.inr (by omega)

/-- The condition under which both loops take an option. -/
theorem not_given_up (hown : tcpFormat.own ≤ l.toNat) (hfit : k + 2 + l.toNat ≤ len + tcpFormat.own) :
    ¬ (l < 2 ∨ len < k + l.toNat) := by
  have h2 : tcpFormat.own = 2 := rfl
  rintro (h | h)
  · have : l.toNat < 2 := UInt8.lt_iff_toNat_lt.mp h
    omega
  · omega

/-- Where both loops go on. -/
theorem next_eq (hown : tcpFormat.own ≤ l.toNat) :
    k + 2 + (l.toNat - tcpFormat.own) = k + l.toNat := by
  have h2 : tcpFormat.own = 2 := rfl
  omega

end

theorem val_tcpOptionsLoop (opts len k : ℕ) (i : PacketInfo) :
    (tcpOptionsLoop packet opts len k i).val =
      (options tcpFormat (slice packet (opts + k) (len - k))).foldl applyOption i := by
  refine loop_eq_foldl (F := fun k i => (tcpOptionsLoop packet opts len k i).val) ?_ ?_ ?_ ?_ ?_ k i
  · intro k i hk
    rw [tcpOptionsLoop, if_neg (not_lt.mpr hk)]
    rfl
  · intro k i hk (hstop : packet (opts + k) = 0)
    rw [tcpOptionsLoop, if_pos hk, val_bind, val_load8, if_pos hstop]
    rfl
  · intro k i hk (hstop : packet (opts + k) ≠ 0) (hpad : packet (opts + k) = 1)
    rw [tcpOptionsLoop, if_pos hk, val_bind, val_load8, if_neg hstop, if_pos hpad]
  · intro k i hk (hstop : packet (opts + k) ≠ 0) (hpad : packet (opts + k) ≠ 1) hcut
    rw [tcpOptionsLoop, if_pos hk, val_bind, val_load8, if_neg hstop, if_neg hpad]
    by_cases hone : len ≤ k + 1
    · rw [if_pos hone]
      rfl
    · rw [if_neg hone, val_bind, val_load8, dif_pos (given_up hone hcut)]
      rfl
  · intro k i (hstop : packet (opts + k) ≠ 0) (hpad : packet (opts + k) ≠ 1) hone hown hfit
    rw [tcpOptionsLoop, if_pos (by omega), val_bind, val_load8, if_neg hstop, if_neg hpad,
      if_neg (by omega), val_bind, val_load8, dif_neg (not_given_up hown hfit), val_bind,
      val_tcpOption hown, next_eq hown]
    rfl

theorem val_transportOptionsLoop (opts len k : ℕ) (t : TransportInfo) :
    (transportOptionsLoop packet opts len k t).val =
      (options tcpFormat (slice packet (opts + k) (len - k))).foldl applyTransport t := by
  refine loop_eq_foldl (F := fun k t => (transportOptionsLoop packet opts len k t).val)
    ?_ ?_ ?_ ?_ ?_ k t
  · intro k t hk
    rw [transportOptionsLoop, if_neg (not_lt.mpr hk)]
    rfl
  · intro k t hk (hstop : packet (opts + k) = 0)
    rw [transportOptionsLoop, if_pos hk, val_bind, val_load8, if_pos hstop]
    rfl
  · intro k t hk (hstop : packet (opts + k) ≠ 0) (hpad : packet (opts + k) = 1)
    rw [transportOptionsLoop, if_pos hk, val_bind, val_load8, if_neg hstop, if_pos hpad]
  · intro k t hk (hstop : packet (opts + k) ≠ 0) (hpad : packet (opts + k) ≠ 1) hcut
    rw [transportOptionsLoop, if_pos hk, val_bind, val_load8, if_neg hstop, if_neg hpad]
    by_cases hone : len ≤ k + 1
    · rw [if_pos hone]
      rfl
    · rw [if_neg hone, val_bind, val_load8, dif_pos (given_up hone hcut)]
      rfl
  · intro k t (hstop : packet (opts + k) ≠ 0) (hpad : packet (opts + k) ≠ 1) hone hown hfit
    rw [transportOptionsLoop, if_pos (by omega), val_bind, val_load8, if_neg hstop, if_neg hpad,
      if_neg (by omega), val_bind, val_load8, dif_neg (not_given_up hown hfit), val_bind,
      val_transportOption hown, next_eq hown]
    rfl

/-- `parse_tcp_options_extended` is the fold over the options of the header. -/
theorem parseTcpOptionsExtended_fold (o h : ℕ) (i : PacketInfo) :
    (parseTcpOptionsExtended packet o h i).val = (optionsAt packet o h).foldl applyOption i := by
  unfold parseTcpOptionsExtended optionsAt
  by_cases hh : h ≤ 20
  · have hnil : slice packet (o + 20) (h - 20) = [] := by
      rw [Nat.sub_eq_zero_of_le hh]
      rfl
    rw [if_pos hh, hnil, options]
    rfl
  · rw [if_neg hh]
    exact val_tcpOptionsLoop (o + 20) (h - 20) 0 i

theorem parseTcpOptions_fold (o h : ℕ) (t : TransportInfo) :
    (parseTcpOptions packet o h t).val = (optionsAt packet o h).foldl applyTransport t := by
  unfold parseTcpOptions optionsAt
  by_cases hh : h ≤ 20
  · have hnil : slice packet (o + 20) (h - 20) = [] := by
      rw [Nat.sub_eq_zero_of_le hh]
      rfl
    rw [if_pos hh, hnil, options]
    rfl
  · rw [if_neg hh]
    exact val_transportOptionsLoop (o + 20) (h - 20) 0 t

/-! ### The reads -/

theorem tcpOption_confined {p len q : ℕ} {kind l : UInt8} (hq : p ≤ q) (hfit : q + l.toNat ≤ p + len)
    (i : PacketInfo) : Confined p len (fun _ => 0) (tcpOption packet q kind l i).log := by
  unfold tcpOption
  refine .ite (fun h => ?_) fun _ => .ite (fun h => ?_) fun _ => .ite (fun _ => .pure) fun _ =>
    .ite (fun h => ?_) fun _ => .ite (fun h => ?_) fun _ => .ite (fun _ => .pure) fun _ => .pure
  · have h4 : l.toNat = 4 := by rw [h.2]; rfl
    exact .bind (confined_load16 (by omega) (by omega)) .pure
  · have h3 : l.toNat = 3 := by rw [h.2]; rfl
    exact .bind (confined_load8 (by omega) (by omega)) .pure
  · have h10 : 10 ≤ l.toNat := UInt8.le_iff_toNat_le.mp h.2
    exact .bind (confined_loadBytes (by omega) (by omega)) .pure
  · have h10 : l.toNat = 10 := by rw [h.2]; rfl
    exact .bind (confined_load32 (by omega) (by omega))
      (.bind (confined_load32 (by omega) (by omega)) .pure)

theorem tcpOptionsLoop_confined (opts len k : ℕ) (i : PacketInfo) :
    Confined opts len (fun _ => 0) (tcpOptionsLoop packet opts len k i).log := by
  rw [tcpOptionsLoop]
  refine .ite (fun hk => ?_) fun _ => .pure
  refine .bind (confined_load8 (by omega) (by omega)) (.ite (fun _ => .pure) fun _ => ?_)
  refine .ite (fun _ => tcpOptionsLoop_confined opts len (k + 1) i) fun _ => ?_
  refine .ite (fun _ => .pure) fun hone => ?_
  refine .bind (confined_load8 (by omega) (by omega)) ?_
  rw [val_load8]
  by_cases hcut : packet (opts + k + 1) < 2 ∨ len < k + (packet (opts + k + 1)).toNat
  · rw [dif_pos hcut]
    exact .pure
  · obtain ⟨hmin, hfit⟩ := not_or.mp hcut
    have h2 : 2 ≤ (packet (opts + k + 1)).toNat := Nat.not_lt.mp hmin
    rw [dif_neg hcut]
    exact .bind (tcpOption_confined (by omega) (by omega) i) (tcpOptionsLoop_confined opts len _ _)
termination_by len - k

theorem parseTcpOptionsExtended_confined (o h : ℕ) (i : PacketInfo) :
    Confined (o + 20) (h - 20) (fun _ => 0) (parseTcpOptionsExtended packet o h i).log := by
  unfold parseTcpOptionsExtended
  exact .ite (fun _ => .pure) fun _ => tcpOptionsLoop_confined _ _ _ _

/-! ### The fields -/

/-- A flag that any of the options sets. -/
theorem flag_cons {α : Type} {P : Opt → Prop} [DecidablePred P] (x : Opt) (opts : List Opt) (a b : α) :
    (if ∃ y ∈ opts, P y then a else if P x then a else b) = if ∃ y ∈ x :: opts, P y then a else b := by
  have hiff : (∃ y ∈ x :: opts, P y) ↔ P x ∨ ∃ y ∈ opts, P y := List.exists_mem_cons_iff P x opts
  by_cases hrest : ∃ y ∈ opts, P y
  · rw [if_pos hrest, if_pos (hiff.mpr (Or.inr hrest))]
  · rw [if_neg hrest]
    exact if_congr (by rw [hiff]; exact (or_iff_left hrest).symm) rfl rfl

theorem foldl_applyOption : ∀ (opts : List Opt) (i : PacketInfo), opts.foldl applyOption i = { i with
    tcpMss := (lastOf mssOf opts).getD i.tcpMss
    tcpWs := (lastOf wsOf opts).getD i.tcpWs
    tcpTsVal := ((lastOf timestampOf opts).map Prod.fst).getD i.tcpTsVal
    tcpTsEcr := ((lastOf timestampOf opts).map Prod.snd).getD i.tcpTsEcr
    tcpSack := if ∃ x ∈ opts, SackPermitted x then 1 else i.tcpSack
    hasTcpAo := if ∃ x ∈ opts, Authenticated x then 1 else i.hasTcpAo
    tcpSackEdges := (opts.foldl applyOption i).tcpSackEdges }
  | [], i => by simp
  | x :: opts, i => by
    rw [List.foldl_cons, foldl_applyOption opts (applyOption i x)]
    simp only [lastOf_cons, Option.getD_or, Option.map_or, ← flag_cons]
    rfl

theorem foldl_applyTransport : ∀ (opts : List Opt) (t : TransportInfo),
    opts.foldl applyTransport t = { t with
      mss := (lastOf mssOf opts).getD t.mss
      ws := (lastOf wsOf opts).getD t.ws
      hasAo := if ∃ x ∈ opts, Authenticated x then true else t.hasAo }
  | [], t => by simp
  | x :: opts, t => by
    rw [List.foldl_cons, foldl_applyTransport opts (applyTransport t x)]
    simp only [lastOf_cons, Option.getD_or, ← flag_cons]
    rfl

/-- **TCP options.** `parse_tcp_options_extended` reads the options only, and its effect is the fold over
the parsed list: sizes, scale and time stamps are those of the last option of their kind and length,
the two flags say whether there is such an option, and apart from the edges nothing else changes. On
what it knows the older parser agrees. -/
theorem parseTcpOptionsExtended_fields (packet : ℕ → UInt8) (o h : ℕ) (i : PacketInfo) :
    Confined (o + 20) (h - 20) (fun _ => 0) (parseTcpOptionsExtended packet o h i).log ∧
    (parseTcpOptionsExtended packet o h i).val = (optionsAt packet o h).foldl applyOption i ∧
    (parseTcpOptionsExtended packet o h i).val = { i with
      tcpMss := (lastOf mssOf (optionsAt packet o h)).getD i.tcpMss
      tcpWs := (lastOf wsOf (optionsAt packet o h)).getD i.tcpWs
      tcpTsVal := ((lastOf timestampOf (optionsAt packet o h)).map Prod.fst).getD i.tcpTsVal
      tcpTsEcr := ((lastOf timestampOf (optionsAt packet o h)).map Prod.snd).getD i.tcpTsEcr
      tcpSack := if ∃ x ∈ optionsAt packet o h, SackPermitted x then 1 else i.tcpSack
      hasTcpAo := if ∃ x ∈ optionsAt packet o h, Authenticated x then 1 else i.hasTcpAo
      tcpSackEdges := (parseTcpOptionsExtended packet o h i).val.tcpSackEdges } ∧
    (i.tcpMss = 0 ∧ i.tcpWs = 0 ∧ i.hasTcpAo = 0 →
      (parseTcpOptions packet o h TransportInfo.zero).val.mss =
        (parseTcpOptionsExtended packet o h i).val.tcpMss ∧
      (parseTcpOptions packet o h TransportInfo.zero).val.ws =
        (parseTcpOptionsExtended packet o h i).val.tcpWs ∧
      ((parseTcpOptions packet o h TransportInfo.zero).val.hasAo = true ↔
        (parseTcpOptionsExtended packet o h i).val.hasTcpAo ≠ 0)) := by
  have hfold := @parseTcpOptionsExtended_fold packet o h i
  have hfields := foldl_applyOption (optionsAt packet o h) i
  refine ⟨parseTcpOptionsExtended_confined o h i, hfold, ?_, ?_⟩
  · rw [hfold]
    exact hfields
  · rintro ⟨hmss, hws, hao⟩
    rw [parseTcpOptions_fold, foldl_applyTransport, hfold, hfields]
    dsimp only
    rw [hmss, hws, hao]
    refine ⟨rfl, rfl, ?_⟩
    split_ifs with hex
    · simp
    · simp [TransportInfo.zero]

end Pacsni.Capture.TcpOptions
