import Pacsni.Dashboard.Flow
import Pacsni.Dashboard.Geo

/-! # The info of a stored packet

The packet goroutine makes the info text of a packet before it looks up the vendors of its MAC
addresses, and never makes it again. `getPacketInfo` reads the vendors in two of its branches, ARP and
spanning tree; in all others the info of the stored packet is what `getPacketInfo` says about it. -/

namespace Pacsni.Dashboard.InfoText

open Pacsni.Lib.Text Pacsni.Lib.Runs
open Pacsni.Dashboard.Packet Pacsni.Dashboard.Ring Pacsni.Dashboard.Lru
open Pacsni.Dashboard.Server Pacsni.Dashboard.Steps Pacsni.Dashboard.Flow
open Pacsni.Dashboard.Geo (atlas fromPublic started init_started SavedOK)

/-- The info of the packet is made from its protocol, and a vendor belongs to it: an ARP packet with a
known vendor at either end, or a spanning tree packet with a known vendor at its destination. -/
def NamesVendor (d : Service.Model.DashboardPacket) : Prop :=
  d.tlsSni = [] ∧ d.extraInfo = [] ∧ d.dnsQuery = [] ∧
    ((d.protocol = "ARP".toList ∧ (getMacVendor d.srcMac ≠ [] ∨ getMacVendor d.dstMac ≠ [])) ∨
      (d.protocol = "STP".toList ∧ getMacVendor d.dstMac ≠ []))

/-- What the packet goroutine has made of a packet before it decides on it. -/
structure Labelled (toLower : Str → Str) (p : DashboardPacket) : Prop where
  info : p.info = getPacketInfo toLower (received p.toDashboardPacket)
  srcMacVendor : p.srcMacVendor = getMacVendor p.srcMac
  dstMacVendor : p.dstMacVendor = getMacVendor p.dstMac
  city : p.city = []
  isp : p.isp = []

/-! ### The two texts -/

variable {toLower : Str → Str} {p : DashboardPacket}

theorem vendorText_eq_nil {v : Str} : vendorText v = [] ↔ v = [] := by
  unfold vendorText
  split_ifs with h
  · exact iff_of_false (by simp) h
  · exact iff_of_true rfl (not_not.mp h)

theorem protocolText_arp (h : p.protocol = "ARP".toList) : protocolText toLower p =
    "ARP Request/Reply ".toList ++ p.srcIp ++ vendorText p.srcMacVendor ++ " -> ".toList ++
      p.dstIp ++ vendorText p.dstMacVendor := by
  unfold protocolText
  rw [h]
  rfl

theorem protocolText_stp (h : p.protocol = "STP".toList) : protocolText toLower p =
    "Spanning Tree Protocol Message to ".toList ++ p.dstMac ++ vendorText p.dstMacVendor ++
      cityISP p := by
  unfold protocolText
  rw [h]
  rfl

/-- The other texts show nothing that the server has added. -/
theorem protocolText_other (harp : p.protocol ≠ "ARP".toList) (hstp : p.protocol ≠ "STP".toList) :
    protocolText toLower (received p.toDashboardPacket) = protocolText toLower p := by
  have harp' : (received p.toDashboardPacket).protocol ≠ "ARP".toList := harp
  have hstp' : (received p.toDashboardPacket).protocol ≠ "STP".toList := hstp
  unfold protocolText
  rw [if_neg harp, if_neg harp', if_neg hstp, if_neg hstp']
  rfl

/-- The texts for an ARP packet without and with vendors. -/
theorem arp_text_iff (h : p.protocol = "ARP".toList) :
    protocolText toLower (received p.toDashboardPacket) = protocolText toLower p ↔
      p.srcMacVendor = [] ∧ p.dstMacVendor = [] := by
  have hplain : protocolText toLower (received p.toDashboardPacket) =
      "ARP Request/Reply ".toList ++ p.srcIp ++ " -> ".toList ++ p.dstIp := by
    rw [protocolText_arp (show (received p.toDashboardPacket).protocol = _ from h)]
    simp [received, vendorText]
  rw [hplain, protocolText_arp h]
  constructor
  · intro heq
    have hlen := congrArg List.length heq
    simp only [List.length_append] at hlen
    rw [← vendorText_eq_nil, ← vendorText_eq_nil (v := p.dstMacVendor), ← List.length_eq_zero_iff,
      ← List.length_eq_zero_iff]
    omega
  · rintro ⟨hsrc, hdst⟩
    simp [hsrc, hdst, vendorText]

/-- The texts for a spanning tree packet without and with a vendor. -/
theorem stp_text_iff (h : p.protocol = "STP".toList) (hcity : p.city = []) (hisp : p.isp = []) :
    protocolText toLower (received p.toDashboardPacket) = protocolText toLower p ↔
      p.dstMacVendor = [] := by
  have hplain : protocolText toLower (received p.toDashboardPacket) =
      "Spanning Tree Protocol Message to ".toList ++ p.dstMac := by
    rw [protocolText_stp (show (received p.toDashboardPacket).protocol = _ from h)]
    simp [received, vendorText, cityISP]
  have hplace : cityISP p = [] := by simp [cityISP, hcity, hisp]
  rw [hplain, protocolText_stp h, hplace, List.append_nil]
  constructor
  · intro heq
    have hlen := congrArg List.length heq
    simp only [List.length_append] at hlen
    rw [← vendorText_eq_nil, ← List.length_eq_zero_iff]
    omega
  · intro hdst
    simp [hdst, vendorText]

/-- The texts for the protocol differ if a vendor belongs to them. -/
theorem Labelled.protocolText_iff (h : Labelled toLower p) :
    protocolText toLower (received p.toDashboardPacket) = protocolText toLower p ↔
      ¬ ((p.protocol = "ARP".toList ∧ (getMacVendor p.srcMac ≠ [] ∨ getMacVendor p.dstMac ≠ [])) ∨
        (p.protocol = "STP".toList ∧ getMacVendor p.dstMac ≠ [])) := by
  have hdiff : "ARP".toList ≠ "STP".toList := by decide
  by_cases harp : p.protocol = "ARP".toList
  · rw [arp_text_iff harp, h.srcMacVendor, h.dstMacVendor]
    simp only [harp, hdiff, true_and, false_and, or_false, not_or, not_not]
  · by_cases hstp : p.protocol = "STP".toList
    · rw [stp_text_iff hstp h.city h.isp, h.dstMacVendor]
      simp only [hstp, hdiff.symm, true_and, false_and, false_or, not_not]
    · refine iff_of_true (protocolText_other harp hstp) ?_
      rintro (⟨h, -⟩ | ⟨h, -⟩)
      · exact harp h
      · exact hstp h

/-- The info of a labelled packet is up to date if and only if no vendor belongs to it. -/
theorem Labelled.info_iff (h : Labelled toLower p) :
    p.info = getPacketInfo toLower p ↔ ¬ NamesVendor p.toDashboardPacket := by
  have hreceived : getPacketInfo toLower (received p.toDashboardPacket) =
      if p.tlsSni ≠ [] then "TLS SNI: ".toList ++ p.tlsSni ++ " (".toList ++ ports p ++ ")".toList
      else if p.extraInfo ≠ [] then p.extraInfo
      else if p.dnsQuery ≠ [] then "DNS Query: ".toList ++ p.dnsQuery
      else protocolText toLower (received p.toDashboardPacket) := rfl
  rw [h.info, hreceived, getPacketInfo, NamesVendor]
  by_cases hsni : p.tlsSni = []
  · by_cases hextra : p.extraInfo = []
    · by_cases hdns : p.dnsQuery = []
      · simp only [hsni, hextra, hdns, ne_eq, not_true_eq_false, ↓reduceIte, true_and]
        exact h.protocolText_iff
      · simp [hsni, hextra, hdns]
    · simp [hsni, hextra]
  · simp [hsni]

/-! ### Runs -/

variable {ι : Type*} {env : Env} {s s' : State ι} {pkt : DashboardPacket}

theorem labelled_label (env : Env) (n : ℕ) (d : Service.Model.DashboardPacket) :
    Labelled env.lib.toLower (label env.lib n (received d)) :=
  ⟨rfl, rfl, rfl, rfl, rfl⟩

theorem Labelled.setCountry (h : Labelled toLower p) (res : Str) :
    Labelled toLower (setCountry p res) := by
  unfold Server.setCountry
  dsimp only
  split <;> exact ⟨h.info, h.srcMacVendor, h.dstMacVendor, h.city, h.isp⟩

/-- The packet goroutine labels a packet once. -/
theorem passes_labelled (env : Env) : Passes env (fun p => ∃ d, p = received d)
    (Labelled env.lib.toLower) (Labelled env.lib.toLower) (fun _ => True) where
  label n p hp := by
    obtain ⟨d, rfl⟩ := hp
    exact labelled_label env n d
  noGeo p hp := ⟨hp.info, hp.srcMacVendor, hp.dstMacVendor, hp.city, hp.isp⟩
  setCountry p res hp := hp.setCountry res
  store _ _ := trivial
  update _ _ _ _ := trivial

variable [DecidableEq ι] {savedOK : LruCache → Prop}

/-- The step that stores a packet. -/
theorem stored_step (h : stepPacket env s = some s') (hp : s'.packetLoop = .stored pkt) :
    s.packetLoop = .decide pkt ∧ s'.historyBuffer = s.historyBuffer.add pkt := by
  have hstep := step_of_stepPacket h
  cases hstep with
  | keep hd hacc =>
    obtain rfl := PacketLoop.stored.inj hp
    exact ⟨hd, rfl⟩
  | _ => cases hp

/-- **The info of a stored packet.** Whenever the packet goroutine stores a packet, its info is what
`getPacketInfo` says about the packet as it is stored if and only if no vendor belongs to it. -/
theorem info_stored_iff (env : Env) (savedOK : LruCache → Prop) (s s' : State ι)
    (hs : (machine ι env savedOK).Reach s) (hstep : (machine ι env savedOK).step s .packetLoop = some s')
    (pkt : DashboardPacket) (hp : s'.packetLoop = .stored pkt) :
    s'.historyBuffer = s.historyBuffer.add pkt ∧
      (pkt.info = getPacketInfo env.lib.toLower pkt ↔ ¬ NamesVendor pkt.toDashboardPacket) := by
  obtain ⟨hdecide, hadd⟩ := stored_step hstep hp
  have hstaged := staged_of_reachVia (passes_labelled env) (fun _ d _ => ⟨d, rfl⟩) hs
  exact ⟨hadd, (hstaged.decide pkt hdecide).info_iff⟩

/-- An ARP packet from a device of a known vendor. -/
def fromXerox : Service.Model.DashboardPacket :=
  { fromPublic with
    srcIp := "10.0.0.2".toList, protocol := "ARP".toList, srcMac := "00:00:00:00:00:07".toList }

/-- It arrives and is labelled. -/
def beforeStore : List (Server.Action Unit) := [.arrive fromXerox, .packetLoop]

/-- The packet as it is stored. -/
def storedXerox : DashboardPacket :=
  { label atlas.lib 1 (received fromXerox) with country := "local".toList }

/-- The state in which it is decided on, and the state behind. -/
theorem storedXerox_run : ∃ s s', (machine Unit atlas SavedOK).Reach s ∧
    (machine Unit atlas SavedOK).step s .packetLoop = some s' ∧
      s'.packetLoop = .stored storedXerox := by
  refine ⟨((machine Unit atlas SavedOK).exec started beforeStore).get (by decide), _, ?_, rfl, rfl⟩
  exact Machine.Reach.exec (s := started) beforeStore (.of_init init_started) (by simp)

theorem info_xerox_iff : ∃ s s' : State Unit, s'.historyBuffer = s.historyBuffer.add storedXerox ∧
    (storedXerox.info = getPacketInfo atlas.lib.toLower storedXerox ↔
      ¬ NamesVendor storedXerox.toDashboardPacket) := by
  obtain ⟨s, s', hs, hstep, hp⟩ := storedXerox_run
  exact ⟨s, s', info_stored_iff atlas SavedOK s s' hs hstep storedXerox hp⟩

/-- The vendor is not in the info. -/
theorem info_xerox_stale : ¬ ∀ (s s' : State Unit) (pkt : DashboardPacket),
    (machine Unit atlas SavedOK).Reach s → (machine Unit atlas SavedOK).step s .packetLoop = some s' →
    s'.packetLoop = .stored pkt → pkt.info = getPacketInfo atlas.lib.toLower pkt := by
  intro h
  obtain ⟨s, s', hs, hstep, hp⟩ := storedXerox_run
  exact absurd (h s s' storedXerox hs hstep hp) (by decide)

end Pacsni.Dashboard.InfoText
