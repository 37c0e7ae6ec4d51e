import Pacsni.Capture.Memory
import Pacsni.Lib.Options

/-! # The options of a DHCP message

Behind the magic cookie a DHCP message is a list of options: 0 pads, 255 ends the list, and the length
of an option counts its data only. `dissect_dhcp` walks over the list with three kinds of steps and
stops at the first message type option. Its result is that of a search in the parsed list
(`dissectDhcp_message`), whatever the bytes are. -/

namespace Pacsni.Capture.Dhcp

open Pacsni.Lib.Trace Pacsni.Lib.CBuffer Pacsni.Lib.Options
open Pacsni.Capture.Types Pacsni.Capture.Dissectors Pacsni.Capture.Memory

variable {n : ℕ} {packet : ℕ → UInt8}

/-- The format of DHCP options. -/
def dhcpFormat : Format := ⟨0, 255, 0⟩

/-- The value of the first option with code 53 and length 1. -/
def messageType (opts : List Opt) : Option UInt8 :=
  (opts.find? fun o => o.code = 53 ∧ o.data.length = 1).map fun o => o.data.headD 0

/-- The names of the message types, from 1 on. -/
def messageNames : List String :=
  ["DISCOVER", "OFFER", "REQUEST", "DECLINE", "ACK", "NAK", "RELEASE", "INFORM"]

/-- The text for a message type. -/
def messageText (t : UInt8) : List UInt8 := ascii ("DHCP " ++ messageNames.getD (t.toNat - 1) "")

/-- The message type has a name. -/
def Named (t : UInt8) : Prop := 1 ≤ t ∧ t ≤ 8

instance (t : UInt8) : Decidable (Named t) := inferInstanceAs (Decidable (_ ∧ _))

/-- The text for the message type, if there is one with a name. -/
def announcement (opts : List Opt) : Option (List UInt8) :=
  (messageType opts).bind fun t => if Named t then some (messageText t) else none

theorem messageType_cons_of_ne {o : Opt} (h : ¬ (o.code = 53 ∧ o.data.length = 1)) (opts : List Opt) :
    messageType (o :: opts) = messageType opts := by
  unfold messageType
  rw [List.find?_cons_of_neg (by simpa using h)]

theorem messageType_cons {t : UInt8} (opts : List Opt) :
    messageType (⟨53, [t]⟩ :: opts) = some t := by
  unfold messageType
  rw [List.find?_cons_of_pos (by simp)]
  rfl

/-- The text that the source looks up in its own table, which has an entry for 0. -/
theorem text_eq (t : UInt8) :
    (if 0 < t ∧ t < 9 then some (ascii ("DHCP " ++ (["?", "DISCOVER", "OFFER", "REQUEST", "DECLINE",
      "ACK", "NAK", "RELEASE", "INFORM"] : List String).getD t.toNat "")) else none) =
      if Named t then some (messageText t) else none := by
  have hiff : (0 < t ∧ t < 9) ↔ Named t := by
    unfold Named
    rw [UInt8.lt_iff_toNat_lt, UInt8.lt_iff_toNat_lt, UInt8.le_iff_toNat_le, UInt8.le_iff_toNat_le]
    simp only [UInt8.toNat_ofNat]
    omega
  by_cases h : Named t
  · rw [if_pos h, if_pos (hiff.mpr h)]
    have hpos : 1 ≤ t.toNat := UInt8.le_iff_toNat_le.mp h.1
    obtain ⟨j, hj⟩ := Nat.exists_eq_add_of_le' hpos
    unfold messageText messageNames
    rw [hj, Nat.add_sub_cancel, List.getD_cons_succ]
  · rw [if_neg h, if_neg (mt hiff.mp h)]

/-! ### The option loop -/

section

variable {p len m : ℕ} {o : Vector UInt8 n}

/-- The loop reads the options, and then writes what the list announces. -/
theorem dhcpLoop_announces (p len i : ℕ) (o : Vector UInt8 n) (m : ℕ) :
    ReadsThen (dhcpLoop packet p len i o m) (say .dissectDhcp o m
      (announcement (options dhcpFormat (slice packet (p + 240 + i) (len - i))))) := by
  unfold dhcpLoop
  dsimp only
  by_cases hi : i < len
  swap
  · rw [if_neg hi, options_of_le (not_lt.mp hi)]
    exact .refl
  rw [if_pos hi]
  refine .load8 ?_
  by_cases hstop : packet (p + 240 + i) = 255
  · rw [if_pos hstop, options_stop (g := dhcpFormat) hstop]
    exact .refl
  rw [if_neg hstop]
  by_cases hpad : packet (p + 240 + i) = 0
  · rw [if_pos hpad, options_pad (g := dhcpFormat) hstop hpad]
    exact dhcpLoop_announces p len (i + 1) o m
  rw [if_neg hpad]
  by_cases hone : len ≤ i + 1
  · rw [if_pos hone, options_cut (g := dhcpFormat) hpad (Or.inl hone)]
    exact .refl
  rw [if_neg hone]
  refine .load8 ?_
  have hlen : p + 240 + (i + 1) = p + 240 + i + 1 := rfl
  rw [hlen]
  by_cases hcut : len < i + 2 + (packet (p + 240 + i + 1)).toNat
  · rw [if_pos hcut, options_cut (g := dhcpFormat) hpad (Or.inr (Or.inr hcut))]
    exact .refl
  rw [if_neg hcut, options_cons (g := dhcpFormat) hstop hpad (not_le.mp hone) (Nat.zero_le _)
    (not_lt.mp hcut) rfl]
  by_cases htype : packet (p + 240 + i) = 53 ∧ packet (p + 240 + i + 1) = 1
  · obtain ⟨hcode, hlen1⟩ := htype
    have hdata : slice packet (p + 240 + i + 2)
        ((packet (p + 240 + i + 1)).toNat - dhcpFormat.own) = [packet (p + 240 + i + 2)] := by
      rw [hlen1]
      rfl
    rw [if_pos ⟨hcode, hlen1⟩, hdata, hcode]
    unfold announcement
    rw [messageType_cons, Option.bind_some]
    refine .load8 ?_
    rw [text_eq]
    exact .refl
  · have hne : ¬ (packet (p + 240 + i) = 53 ∧ (slice packet (p + 240 + i + 2)
        ((packet (p + 240 + i + 1)).toNat - dhcpFormat.own)).length = 1) := by
      rw [length_slice]
      rintro ⟨hcode, hlen1⟩
      exact htype ⟨hcode, UInt8.toNat_inj.mp hlen1⟩
    rw [if_neg htype]
    unfold announcement
    rw [messageType_cons_of_ne hne]
    exact dhcpLoop_announces p len _ o m
termination_by len - i

/-- The loop reads the bytes behind the cookie only, and writes at most `m` bytes. -/
theorem dhcpLoop_confined (p len i : ℕ) (o : Vector UInt8 n) (m : ℕ) :
    Confined p (240 + len) (fun _ => m) (dhcpLoop packet p len i o m).log := by
  unfold dhcpLoop
  refine .ite (fun hi => ?_) fun _ => .pure
  refine .bind (confined_load8 (by omega) (by omega)) (.ite (fun _ => .pure) fun _ => ?_)
  refine .ite (fun _ => dhcpLoop_confined p len (i + 1) o m) fun _ => ?_
  refine .ite (fun _ => .pure) fun hone => ?_
  refine .bind (confined_load8 (by omega) (by omega)) (.ite (fun _ => .pure) fun hcut => ?_)
  refine .ite (fun htype => ?_) fun _ => dhcpLoop_confined p len _ o m
  have hlen : (load8 packet (Site.read .dissectDhcp) (p + 240 + (i + 1))).val.toNat = 1 := by
    rw [htype.2]
    rfl
  exact .bind (confined_load8 (by omega) (by omega)) (confined_say le_rfl o _)
termination_by len - i

end

/-! ### The message -/

/-- The payload carries the magic cookie. -/
def Cookie (packet : ℕ → UInt8) (p l : ℕ) : Prop :=
  240 ≤ l ∧ slice packet (p + 236) 4 = [0x63, 0x82, 0x53, 0x63]

/-- The options of the payload. -/
def optionsAt (packet : ℕ → UInt8) (p l : ℕ) : List Opt :=
  options dhcpFormat (slice packet (p + 240) (l - 240))

theorem dissectDhcp_announces {p l : ℕ} (hc : Cookie packet p l) (o : Vector UInt8 n) (m : ℕ) :
    ReadsThen (dissectDhcp packet p l o m)
      (say .dissectDhcp o m (announcement (optionsAt packet p l))) := by
  obtain ⟨hl, hcookie⟩ := hc
  have hlen : ((l : ℤ) - 240).toNat = l - 240 := by omega
  unfold dissectDhcp
  rw [if_neg (by omega), hlen]
  refine .loadBytes ?_
  rw [if_neg (not_not.mpr hcookie)]
  have h := @dhcpLoop_announces n packet p (l - 240) 0 o m
  rwa [Nat.add_zero, Nat.sub_zero] at h

theorem dissectDhcp_confined (p l : ℕ) (o : Vector UInt8 n) (m : ℕ) :
    Confined p l (fun _ => m) (dissectDhcp packet p l o m).log := by
  unfold dissectDhcp
  refine .ite (fun _ => .pure) fun hl => ?_
  refine .bind (confined_loadBytes (by omega) (by omega)) (.ite (fun _ => .pure) fun _ => ?_)
  have hlen : l = 240 + ((l : ℤ) - 240).toNat := by omega
  have h := @dhcpLoop_confined n packet p ((l : ℤ) - 240).toNat 0 o m
  rwa [← hlen] at h

/-- Without the cookie nothing is written. -/
theorem dissectDhcp_other {p l : ℕ} (hc : ¬ Cookie packet p l) (o : Vector UInt8 n) (m : ℕ) :
    ReadsThen (dissectDhcp packet p l o m) (pure o) := by
  unfold dissectDhcp
  by_cases hl : (l : ℤ) < 240
  · rw [if_pos hl]
    exact .refl
  · rw [if_neg hl]
    refine .loadBytes ?_
    rw [if_pos fun hcookie => hc ⟨by omega, hcookie⟩]
    exact .refl

/-- **DHCP.** `dissect_dhcp` reads inside its payload and writes inside its buffer. Behind the magic
cookie it prints the name of the message if and only if the first option with code 53 and length 1 has
a value from 1 to 8; otherwise it writes nothing. -/
theorem dissectDhcp_message (packet : ℕ → UInt8) (p l : ℕ) (o : Vector UInt8 n) (m : ℕ) :
    Confined p l (fun _ => m) (dissectDhcp packet p l o m).log ∧
    (Cookie packet p l →
      (∀ t, messageType (optionsAt packet p l) = some t → Named t →
        (dissectDhcp packet p l o m).val =
          (snprintf (Site.write .dissectDhcp .out) o 0 m (messageText t)).val) ∧
      ((∀ t, messageType (optionsAt packet p l) = some t → ¬ Named t) →
        (dissectDhcp packet p l o m).val = o ∧ Silent (dissectDhcp packet p l o m).log)) ∧
    (¬ Cookie packet p l →
      (dissectDhcp packet p l o m).val = o ∧ Silent (dissectDhcp packet p l o m).log) := by
  refine ⟨dissectDhcp_confined p l o m, fun hc => ?_, fun hc => ?_⟩
  swap
  · obtain ⟨reads, hreads, hval, hlog⟩ := dissectDhcp_other hc o m
    refine ⟨hval, ?_⟩
    rw [hlog]
    exact hreads.append silent_nil
  obtain ⟨reads, hreads, hval, hlog⟩ := dissectDhcp_announces hc o m
  constructor
  · intro t ht hnamed
    have hannounce : announcement (optionsAt packet p l) = some (messageText t) := by
      unfold announcement
      rw [ht, Option.bind_some, if_pos hnamed]
    rw [hval, hannounce]
    rfl
  · intro hno
    have hannounce : announcement (optionsAt packet p l) = none := by
      unfold announcement
      cases ht : messageType (optionsAt packet p l) with
      | none => rfl
      | some t => rw [Option.bind_some, if_neg (hno t ht)]
    rw [hannounce] at hval hlog
    refine ⟨hval, ?_⟩
    rw [hlog]
    exact hreads.append silent_nil

/-- A message of 244 bytes with the options of a DHCPDISCOVER. -/
def discoverPayload (i : ℕ) : UInt8 :=
  if i < 236 then 0 else ([0x63, 0x82, 0x53, 0x63, 53, 1, 1, 255] : List UInt8).getD (i - 236) 0

theorem discoverPayload_message :
    Cookie discoverPayload 0 244 ∧ messageType (optionsAt discoverPayload 0 244) = some 1 ∧
      (dissectDhcp discoverPayload 0 244 (zeros 128) 128).val =
        (snprintf (Site.write .dissectDhcp .out) (zeros 128) 0 128 (ascii "DHCP DISCOVER")).val := by
  have hcookie : Cookie discoverPayload 0 244 := ⟨by decide, by decide⟩
  have hbytes : slice discoverPayload (0 + 240) (244 - 240) = [53, 1, 1, 255] := by decide
  have htype : messageType (optionsAt discoverPayload 0 244) = some 1 := by
    unfold optionsAt
    rw [hbytes]
    simp [options, dhcpFormat, messageType]
  exact ⟨hcookie, htype,
    ((dissectDhcp_message discoverPayload 0 244 (zeros 128) 128).2.1 hcookie).1 1 htype (by decide)⟩

end Pacsni.Capture.Dhcp
