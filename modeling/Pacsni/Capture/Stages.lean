import Pacsni.Capture.Raw
import Pacsni.Capture.LayerSpec

/-! # What each stage of the dissection touches and keeps

Every dissector touches memory at its own sites only (`by_…`), and none of them changes the header
fields (`Headers`) that the layer parsers have set (`headers_…`). The proofs walk along the
definitions: `SitesIn` is closed under binds and case distinctions. -/

namespace Pacsni.Capture.Stages

open Pacsni.Lib.Trace Pacsni.Lib.CBuffer
open Pacsni.Capture.Types Pacsni.Capture.Layers Pacsni.Capture.Dissectors Pacsni.Capture.Raw
open Pacsni.Capture.LayerSpec

variable {n : ℕ} {packet : ℕ → UInt8}

/-- The function whose read or write a site is. -/
def fnOf : Site → Option Fn
  | .read f => some f
  | .write f _ => some f
  | .window _ => none

/-- The trace consists of reads and writes of the function `f`. -/
abbrev By (f : Fn) (l : List (Access Site)) : Prop := SitesIn (fun s => fnOf s = some f) l

section

variable (f : Fn)

theorem by_load8 (i : ℕ) : By f (load8 packet (.read f) i).log := by simp [fnOf]
theorem by_load16 (i : ℕ) : By f (load16 packet (.read f) i).log := by simp [fnOf]
theorem by_load32 (i : ℕ) : By f (load32 packet (.read f) i).log := by simp [fnOf]
theorem by_loadBytes (i k : ℕ) : By f (loadBytes packet (.read f) i k).log := by simp [fnOf]
theorem by_touch (b : Buf) (i k : ℕ) : By f (touch (Site.write f b) i k).log := by simp [fnOf]

theorem by_snprintf (b : Buf) (v : Vector UInt8 n) (i m : ℕ) (text : List UInt8) :
    By f (snprintf (.write f b) v i m text).log :=
  sitesIn_snprintf (P := fun s => fnOf s = some f) rfl v i m text

theorem by_say (o : Vector UInt8 n) (m : ℕ) : ∀ t : Option (List UInt8), By f (say f o m t).log
  | none => .pure
  | some text => by_snprintf f .out o 0 m text

theorem by_copyLine (p l m c : ℕ) :
    By f (copyLine packet (.read f) (.write f .out) p l m c).log :=
  sitesIn_copyLine (P := fun s => fnOf s = some f) packet _ rfl rfl p l m c

theorem by_memmem (p l : ℕ) (needle : List UInt8) : By f (memmem packet (.read f) p l needle).log :=
  sitesIn_memmemLoop (P := fun s => fnOf s = some f) packet _ rfl p l needle 0

theorem by_loadStr (k i : ℕ) : By f (loadStr packet (.read f) k i).log :=
  sitesIn_loadStr (P := fun s => fnOf s = some f) packet _ rfl k i

end

/-! ### Layer parsers and the dissectors behind them -/

theorem by_tagLoop (caplen hlen : ℕ) (etype vId : UInt16) :
    By .parseEthernetLayer (tagLoop packet caplen hlen etype vId).log := by
  unfold tagLoop
  by_cases hc : IsTag etype ∧ hlen + 4 ≤ caplen
  · rw [if_pos hc]
    exact .bind (by_load16 _ _) fun _ => .bind (by_load16 _ _) fun _ => by_tagLoop _ _ _ _
  · rw [if_neg hc]
    exact .pure
termination_by caplen - hlen

theorem by_parseEthernetLayer (caplen : ℕ) :
    By .parseEthernetLayer (parseEthernetLayer packet caplen).log := by
  unfold parseEthernetLayer
  exact .ite .pure (.bind (by_load16 _ _) fun _ => .bind (by_tagLoop _ _ _ _) fun _ => .pure)

theorem by_parseIpLayer (caplen ethHlen : ℕ) :
    By .parseIpLayer (parseIpLayer packet caplen ethHlen).log := by
  unfold parseIpLayer parseIpv4 parseIpv6
  refine .ite .pure (.bind (by_load8 _ _) fun _ => .ite ?_ (.ite ?_ .pure))
  · refine .ite .pure (.bind (by_load8 _ _) fun _ => .ite .pure (.bind (by_loadBytes _ _ _) fun _ => ?_))
    refine .bind (by_loadBytes _ _ _) fun _ => .bind (by_load8 _ _) fun _ => ?_
    refine .bind (by_load8 _ _) fun _ => .bind (by_load8 _ _) fun _ => ?_
    exact .bind (by_load16 _ _) fun _ => .bind (by_load16 _ _) fun _ => .pure
  · refine .ite .pure (.bind (by_loadBytes _ _ _) fun _ => .bind (by_loadBytes _ _ _) fun _ => ?_)
    exact .bind (by_load8 _ _) fun _ => .bind (by_load8 _ _) fun _ => .bind (by_load32 _ _) fun _ => .pure

theorem by_parseTransportLayer (caplen ethHlen : ℕ) (ip : IpInfo) :
    By .parseTransportLayer (parseTransportLayer packet caplen ethHlen ip).log := by
  unfold parseTransportLayer parseTcp parseUdp
  refine .ite (.ite .pure ?_) (.ite (.ite .pure ?_) .pure)
  · refine .bind (by_load8 _ _) fun _ => .ite .pure (.bind (by_load16 _ _) fun _ => ?_)
    refine .bind (by_load16 _ _) fun _ => .bind (by_load32 _ _) fun _ => ?_
    refine .bind (by_load32 _ _) fun _ => .bind (by_load16 _ _) fun _ => ?_
    exact .bind (by_load8 _ _) fun _ => .bind (by_load16 _ _) fun _ => .pure
  · exact .bind (by_load16 _ _) fun _ => .bind (by_load16 _ _) fun _ => .bind (by_load16 _ _) fun _ => .pure

theorem by_dissectOspf (p : ℕ) (l : ℤ) (o : Vector UInt8 n) (m : ℕ) :
    By .dissectOspf (dissectOspf packet p l o m).log := by
  unfold dissectOspf
  refine .ite .pure (.bind (by_load8 _ _) fun _ => .ite (.bind (by_load8 _ _) fun _ => ?_) .pure)
  exact by_say _ _ _ _

theorem by_dissectStp (p : ℕ) (l : ℤ) (o : Vector UInt8 n) (m : ℕ) :
    By .dissectStp (dissectStp packet p l o m).log := by
  unfold dissectStp
  exact .ite .pure (.bind (by_load8 _ _) fun _ => by_say _ _ _ _)

theorem by_dissectGre (p : ℕ) (l : ℤ) (o : Vector UInt8 n) (m : ℕ) :
    By .dissectGre (dissectGre packet p l o m).log := by
  unfold dissectGre
  exact .ite .pure (.bind (by_load16 _ _) fun _ => by_say _ _ _ _)

theorem by_dissectIgmp (p : ℕ) (l : ℤ) (i : PacketInfo) :
    By .dissectIgmp (dissectIgmp packet p l i).log := by
  unfold dissectIgmp
  exact .ite .pure (.bind (by_load8 _ _) fun _ => .bind (by_loadBytes _ _ _) fun _ =>
    .bind (by_snprintf _ _ _ _ _ _) fun _ => .pure)

/-! ### Application dissectors -/

theorem by_dissectAppCommon (p : ℕ) (l : ℤ) (o : Vector UInt8 n) (m : ℕ) :
    By .dissectAppCommon (dissectAppCommon packet p l o m).log := by
  unfold dissectAppCommon
  refine .ite .pure (.bind (.ite (by_loadBytes _ _ _) .pure) fun head => ?_)
  refine .ite (.bind (by_copyLine _ _ _ _ _) fun _ => .bind (by_touch _ _ _ _) fun _ => .pure) ?_
  refine .ite (by_say _ _ _ _) (.ite (by_say _ _ _ _) (.bind (by_load8 _ _) fun b0 => ?_))
  refine .bind (.ite (by_load8 _ _) .pure) fun b1 => ?_
  exact .ite (by_say _ _ _ _) (.ite (by_say _ _ _ _) .pure)

theorem by_findMethod (p : ℕ) (l : ℤ) : ∀ ms : List (List UInt8),
    By .dissectHttp (findMethod packet p l ms).log
  | [] => .pure
  | _ :: rest => .ite (.bind (by_loadBytes _ _ _) fun _ => .ite .pure (by_findMethod p l rest))
    (by_findMethod p l rest)

theorem by_dissectHttp (p : ℕ) (l : ℤ) (o : Vector UInt8 n) (m : ℕ) :
    By .dissectHttp (dissectHttp packet p l o m).log := by
  unfold dissectHttp
  refine .ite .pure (.bind (by_findMethod p l httpMethods) fun r => ?_)
  cases r with
  | none => exact .pure
  | some ml =>
    refine .bind (by_copyLine _ _ _ _ _) fun line => .bind (by_touch _ _ _ _) fun _ => ?_
    refine .bind (by_memmem _ _ _ _) fun r => ?_
    cases r with
    | none => exact .pure
    | some hp => exact .bind (by_loadStr _ _ _) fun _ => by_snprintf _ _ _ _ _ _

theorem by_dnsLabel (p len m : ℕ) : ∀ (k pos : ℕ) (text : List UInt8),
    By .dissectDns (dnsLabel packet p len m k pos text).log
  | 0, _, _ => .pure
  | k + 1, pos, _ => .ite (.bind (by_load8 _ _) fun _ => .bind (by_touch _ _ _ _) fun _ =>
    by_dnsLabel p len m k (pos + 1) _) .pure

theorem by_dnsLoop (p len m pos : ℕ) (text : List UInt8) :
    By .dissectDns (dnsLoop packet p len m pos text).log := by
  fun_induction dnsLoop packet p len m pos text with
  | case1 pos text hc ih1 ih2 =>
    refine .bind (by_load8 _ _) fun b => .ite .pure (.bind ?_ fun r => ?_)
    · exact by_dnsLabel p len m b.toNat (pos + 1) text
    · obtain ⟨r, hr⟩ := r
      exact .ite (.bind (by_touch _ _ _ _) fun _ => ih1 b r hr) (ih2 b r hr)
  | case2 => exact .pure

theorem by_dissectDns (p : ℕ) (len : ℤ) (out : Vector UInt8 n) (outMax : ℕ) :
    By .dissectDns (dissectDns packet p len out outMax).log := by
  unfold dissectDns
  exact .ite .pure (.bind (by_dnsLoop _ _ _ _ _) fun _ =>
    .ite (.bind (by_touch _ _ _ _) fun _ => .pure) .pure)

theorem by_sniLoop (p extEnd pos : ℕ) (out : Vector UInt8 n) (outMax : ℕ) :
    By .dissectTlsSni (sniLoop packet p extEnd pos out outMax).log := by
  unfold sniLoop
  dsimp only
  by_cases hpos : pos + 4 ≤ extEnd
  · rw [if_pos hpos]
    refine .bind (by_load16 _ _) fun _ => .bind (by_load16 _ _) fun extLen =>
      .ite ?_ (by_sniLoop p extEnd _ out outMax)
    refine .bind (by_load16 _ _) fun _ => .ite ?_ (by_sniLoop p extEnd _ out outMax)
    exact .bind (by_loadBytes _ _ _) fun _ => .bind (by_touch _ _ _ _) fun _ => .pure
  · rw [if_neg hpos]
    exact .pure
termination_by extEnd - pos

theorem by_dissectTlsSni (p : ℕ) (len : ℤ) (out : Vector UInt8 n) (outMax : ℕ) :
    By .dissectTlsSni (dissectTlsSni packet p len out outMax).log := by
  unfold dissectTlsSni
  refine .ite .pure (.bind (by_load8 _ _) fun _ => .bind (.ite (by_load8 _ _) .pure) fun _ => ?_)
  refine .ite .pure (.bind (by_load8 _ _) fun _ => .ite .pure (.bind (by_load16 _ _) fun _ => ?_))
  refine .ite .pure (.bind (by_load8 _ _) fun _ => .ite .pure (.bind (by_load16 _ _) fun _ => ?_))
  exact by_sniLoop _ _ _ _ _

theorem by_dhcpLoop (p len i : ℕ) (o : Vector UInt8 n) (m : ℕ) :
    By .dissectDhcp (dhcpLoop packet p len i o m).log := by
  unfold dhcpLoop
  dsimp only
  by_cases hi : i < len
  · rw [if_pos hi]
    refine .bind (by_load8 _ _) fun _ => .ite .pure (.ite (by_dhcpLoop p len (i + 1) o m) ?_)
    refine .ite .pure (.bind (by_load8 _ _) fun optLen => .ite .pure ?_)
    exact .ite (.bind (by_load8 _ _) fun _ => by_say _ _ _ _) (by_dhcpLoop p len _ o m)
  · rw [if_neg hi]
    exact .pure
termination_by len - i

theorem by_dissectDhcp (p : ℕ) (l : ℤ) (o : Vector UInt8 n) (m : ℕ) :
    By .dissectDhcp (dissectDhcp packet p l o m).log := by
  unfold dissectDhcp
  exact .ite .pure (.bind (by_loadBytes _ _ _) fun _ => .ite .pure (by_dhcpLoop _ _ _ _ _))

theorem by_dissectNtp (p : ℕ) (l : ℤ) (i : PacketInfo) :
    By .dissectNtp (dissectNtp packet p l i).log := by
  unfold dissectNtp
  exact .ite .pure (.bind (by_load8 _ _) fun _ => .bind (by_load8 _ _) fun _ =>
    .bind (by_snprintf _ _ _ _ _ _) fun _ => .pure)

theorem by_dissectNtpCore (p : ℕ) (l : ℤ) (i : PacketInfo) :
    By .dissectNtpCore (dissectNtpCore packet p l i).log := by
  unfold dissectNtpCore
  exact .ite .pure (.bind (by_load8 _ _) fun _ => .bind (by_load8 _ _) fun _ =>
    .bind (by_snprintf _ _ _ _ _ _) fun _ => .pure)

theorem by_dissectVxlan (p : ℕ) (l : ℤ) (i : PacketInfo) :
    By .dissectVxlan (dissectVxlan packet p l i).log := by
  unfold dissectVxlan
  exact .ite .pure (.bind (by_load8 _ _) fun _ => .bind (by_load8 _ _) fun _ =>
    .bind (by_load8 _ _) fun _ => .bind (by_snprintf _ _ _ _ _ _) fun _ => .pure)

theorem by_lldpName (b : Buf) (p len : ℕ) (name : Vector UInt8 32) :
    By .dissectLldp (lldpName packet b p len name).log := by
  unfold lldpName
  refine .ite (.bind (by simp [fnOf]) fun _ => .bind (by_touch _ _ _ _) fun _ => .pure) ?_
  exact .bind (by_loadBytes _ _ _) fun _ => .bind (by_touch _ _ _ _) fun _ => .pure

theorem by_lldpLoop (p l o : ℕ) (i : PacketInfo) :
    By .dissectLldp (lldpLoop packet p l o i).log := by
  fun_induction lldpLoop packet p l o i with
  | case1 o i hc ih1 ih2 ih3 =>
    refine .bind (by_load16 _ _) fun tlv => .ite .pure (.ite ?_ (.ite ?_ (.ite .pure (ih3 tlv))))
    · refine .bind (by_lldpName _ _ _ _) fun r => ?_
      cases r with
      | none => exact .pure
      | some c => exact ih1 tlv c
    · refine .bind (by_lldpName _ _ _ _) fun r => ?_
      cases r with
      | none => exact .pure
      | some c => exact ih2 tlv c
  | case2 => exact .pure

theorem by_dissectLldp (p : ℕ) (l : ℤ) (i : PacketInfo) :
    By .dissectLldp (dissectLldp packet p l i).log := by
  unfold dissectLldp
  refine .bind (by_lldpLoop _ _ _ _) fun r => ?_
  cases r with
  | none => exact .pure
  | some i => exact .bind (by_snprintf _ _ _ _ _ _) fun _ => .pure

/-! ### Options, ICMP, extension headers, ARP, statistics -/

theorem by_tcpOption (q : ℕ) (kind l : UInt8) (i : PacketInfo) :
    By .parseTcpOptionsExtended (tcpOption packet q kind l i).log := by
  unfold tcpOption
  refine .ite (.bind (by_load16 _ _) fun _ => .pure) (.ite (.bind (by_load8 _ _) fun _ => .pure) ?_)
  refine .ite .pure (.ite (.bind (by_loadBytes _ _ _) fun _ => .pure) (.ite ?_ (.ite .pure .pure)))
  exact .bind (by_load32 _ _) fun _ => .bind (by_load32 _ _) fun _ => .pure

theorem by_tcpOptionsLoop (opts len k : ℕ) (i : PacketInfo) :
    By .parseTcpOptionsExtended (tcpOptionsLoop packet opts len k i).log := by
  fun_induction tcpOptionsLoop packet opts len k i with
  | case1 k i rd hk ih1 ih2 =>
    refine .bind (by_load8 _ _) fun kind => .ite .pure (.ite ih1 ?_)
    by_cases hlen : len ≤ k + 1
    · rw [if_pos hlen]
      exact .pure
    rw [if_neg hlen]
    refine .bind (by_load8 _ _) fun l => ?_
    by_cases hl : l < 2 ∨ len < k + l.toNat
    · rw [dif_pos hl]
      exact .pure
    · rw [dif_neg hl]
      exact .bind (by_tcpOption _ _ _ _) fun i' => ih2 hlen l hl i'
  | case2 => exact .pure

theorem by_parseTcpOptionsExtended (o h : ℕ) (i : PacketInfo) :
    By .parseTcpOptionsExtended (parseTcpOptionsExtended packet o h i).log := by
  unfold parseTcpOptionsExtended
  exact .ite .pure (by_tcpOptionsLoop _ _ _ _)

theorem by_checkTcpAnomalies (info : PacketInfo) (t : TransportInfo) :
    By .checkTcpAnomalies (checkTcpAnomalies info t).log := by
  unfold checkTcpAnomalies
  exact .ite (.bind (by_say _ _ _ _) fun _ => .pure)
    (.ite (.bind (by_say _ _ _ _) fun _ => .pure) .pure)

theorem by_extLoop (caplen : UInt32) : ∀ (k : ℕ) (nxt : UInt8) (v6Off : ℕ) (info : PacketInfo),
    By .dissectRawPacket (extLoop packet caplen k nxt v6Off info).log
  | 0, _, _, _ => .pure
  | k + 1, nxt, v6Off, info => by
    unfold extLoop
    refine .ite (.ite .pure ?_) (.ite ?_ .pure)
    · exact .bind (by_load8 _ _) fun _ => .bind (by_load8 _ _) fun _ => by_extLoop caplen k _ _ _
    · exact .bind (by_load8 _ _) fun _ => by_extLoop caplen k _ _ _

theorem by_ipv6Fields (caplen : UInt32) (ip : IpInfo) (info : PacketInfo) :
    By .dissectRawPacket (ipv6Fields packet caplen ip info).log := by
  unfold ipv6Fields
  exact .ite (.bind (by_load32 _ _) fun _ => .bind (by_load8 _ _) fun _ =>
    .bind (by_extLoop _ _ _ _ _) fun _ => .pure) .pure

theorem by_dissectArp (caplen : UInt32) (eth : EthernetInfo) (info : PacketInfo) :
    By .dissectRawPacket (dissectArp packet caplen eth info).log := by
  unfold dissectArp
  refine .ite (.bind (by_load16 _ _) fun _ => .bind (by_load8 _ _) fun _ => ?_) .pure
  refine .bind (by_load8 _ _) fun _ => .ite (.bind (by_loadBytes _ _ _) fun _ => ?_) .pure
  exact .bind (by_loadBytes _ _ _) fun _ => .pure

theorem by_initInfo (raw : RawPacket) (eth : EthernetInfo) :
    By .dissectRawPacket (initInfo raw eth).log := by
  unfold initInfo
  exact .bind (by_loadBytes _ _ _) fun _ => .bind (by_loadBytes _ _ _) fun _ => .pure

theorem by_calculateEntropyScaled (d l : ℕ) :
    By .calculateEntropyScaled (calculateEntropyScaled packet d l).log := by
  unfold calculateEntropyScaled
  exact .ite .pure (.bind (by_loadBytes _ _ _) fun _ => .pure)

theorem by_calculateByteStats (d l : ℕ) (i : PacketInfo) :
    By .calculateByteStats (calculateByteStats packet d l i).log := by
  unfold calculateByteStats
  exact .ite .pure (.bind (by_loadBytes _ _ _) fun _ => .pure)

/-! ### What a stage leaves alone

`f` is anything that is read off a record. A stage changes a few fields; what does not depend on these
is the same behind it. -/

section Keeps

variable {α : Type} {f : PacketInfo → α}

theorem dissectVxlan_keeps
    (hf : ∀ i vni text, f { i with vxlanVni := vni, appLayerInfo := text } = f i) (p : ℕ) (l : ℤ)
    (i : PacketInfo) : Ensures (fun r => f r = f i) (dissectVxlan packet p l i) := by
  unfold dissectVxlan
  refine .ite (.pure rfl) (.step fun _ => .step fun _ => .step fun _ => .step fun text => .pure ?_)
  exact hf i _ text

theorem dissectNtp_keeps (hf : ∀ i mode stratum text,
      f { i with ntpMode := mode, ntpStratum := stratum, appLayerInfo := text } = f i) (p : ℕ) (l : ℤ)
    (i : PacketInfo) : Ensures (fun r => f r = f i) (dissectNtp packet p l i) := by
  unfold dissectNtp
  exact .ite (.pure rfl) (.step fun b0 => .step fun b1 => .step fun text => .pure (hf i _ b1 text))

theorem dissectNtpCore_keeps (hf : ∀ i text, f { i with appLayerInfo := text } = f i) (p : ℕ) (l : ℤ)
    (i : PacketInfo) : Ensures (fun r => f r = f i) (dissectNtpCore packet p l i) := by
  unfold dissectNtpCore
  exact .ite (.pure rfl) (.step fun _ => .step fun _ => .step fun text => .pure (hf i text))

theorem runApp_keeps (hf : ∀ i extra sni query vni mode stratum text,
      f { i with extraInfo := extra, tlsSni := sni, dnsQuery := query, vxlanVni := vni, ntpMode := mode,
                 ntpStratum := stratum, appLayerInfo := text } = f i) (c : AppCall)
    (info : PacketInfo) : Ensures (fun r => f r = f info) (runApp packet c info) := by
  have hextra : ∀ i extra, f { i with extraInfo := extra } = f i :=
    fun i extra => hf i extra i.tlsSni i.dnsQuery i.vxlanVni i.ntpMode i.ntpStratum i.appLayerInfo
  have hntp : ∀ i mode stratum text,
      f { i with ntpMode := mode, ntpStratum := stratum, appLayerInfo := text } = f i :=
    fun i => hf i i.extraInfo i.tlsSni i.dnsQuery i.vxlanVni
  obtain ⟨d, p, l⟩ := c
  cases d with
  | http => exact .step fun e => .pure (hextra info e)
  | vxlan =>
    exact dissectVxlan_keeps (fun i vni => hf i i.extraInfo i.tlsSni i.dnsQuery vni i.ntpMode
      i.ntpStratum) p l info
  | appCommon => exact .step fun e => .pure (hextra info e)
  | tlsSni =>
    exact .step fun e => .pure (hf info info.extraInfo e info.dnsQuery info.vxlanVni info.ntpMode
      info.ntpStratum info.appLayerInfo)
  | dns =>
    exact .step fun e => .pure (hf info info.extraInfo info.tlsSni e info.vxlanVni info.ntpMode
      info.ntpStratum info.appLayerInfo)
  | dhcp => exact .step fun e => .pure (hextra info e)
  | ntp =>
    refine .bind (dissectNtp_keeps hntp p l info) fun i hi => ?_
    exact (dissectNtpCore_keeps (fun i => hntp i i.ntpMode i.ntpStratum) p l i).mono
      fun r hr => hr.trans hi

theorem dispatchApp_keeps (hf : ∀ i extra sni query vni mode stratum text,
      f { i with extraInfo := extra, tlsSni := sni, dnsQuery := query, vxlanVni := vni, ntpMode := mode,
                 ntpStratum := stratum, appLayerInfo := text } = f i) (t : TransportInfo)
    (info : PacketInfo) : Ensures (fun r => f r = f info) (dispatchApp packet t info) := by
  unfold dispatchApp
  cases appCall info t with
  | none => exact .pure rfl
  | some c => exact .step fun _ => runApp_keeps hf c info

theorem l4Protocols_keeps (hf : ∀ i extra type group,
      f { i with extraInfo := extra, igmpType := type, igmpGroup := group } = f i) (caplen : UInt32)
    (info : PacketInfo) : Ensures (fun r => f r = f info) (l4Protocols packet caplen info) := by
  have hextra : ∀ i extra, f { i with extraInfo := extra } = f i :=
    fun i extra => hf i extra i.igmpType i.igmpGroup
  unfold l4Protocols
  refine .bind (P := fun i => f i = f info) ?_ fun i hi => .bind (P := fun j => f j = f info) ?_
    fun j hj => ?_
  · exact .ite (.step fun e => .pure (hextra info e)) (.pure rfl)
  · exact .ite (.step fun e => .pure ((hextra i e).trans hi)) (.pure hi)
  · unfold dissectIgmp
    refine .ite (.ite (.pure hj) (.step fun type => .step fun group => .step fun e => .pure ?_)) (.pure hj)
    exact (hf j e type _).trans hj

/-- What every single option keeps is kept by the option loop. -/
theorem parseTcpOptionsExtended_keeps
    (hf : ∀ q kind l i, Ensures (fun r => f r = f i) (tcpOption packet q kind l i)) (o h : ℕ)
    (i : PacketInfo) : Ensures (fun r => f r = f i) (parseTcpOptionsExtended packet o h i) := by
  have hloop : ∀ opts len k i, Ensures (fun r => f r = f i) (tcpOptionsLoop packet opts len k i) := by
    intro opts len k i
    fun_induction tcpOptionsLoop packet opts len k i with
    | case1 k i rd hk ih1 ih2 =>
      refine .step fun kind => .ite (.pure rfl) (.ite ih1 ?_)
      by_cases hlen : len ≤ k + 1
      · rw [if_pos hlen]
        exact .pure rfl
      rw [if_neg hlen]
      refine .step fun l => ?_
      by_cases hl : l < 2 ∨ len < k + l.toNat
      · rw [dif_pos hl]
        exact .pure rfl
      · rw [dif_neg hl]
        exact (ih2 hlen l hl _).trans (hf _ _ _ _)
    | case2 => exact .pure rfl
  unfold parseTcpOptionsExtended
  exact .ite (.pure rfl) (hloop _ _ _ _)

theorem checkTcpAnomalies_keeps (hf : ∀ i extra, f { i with extraInfo := extra } = f i)
    (info : PacketInfo) (t : TransportInfo) :
    Ensures (fun r => f r = f info) (checkTcpAnomalies info t) := by
  unfold checkTcpAnomalies
  exact .ite (.step fun e => .pure (hf info e)) (.ite (.step fun e => .pure (hf info e)) (.pure rfl))

theorem icmpFields_keeps (hf : ∀ i type code extra,
      f { i with icmpType := type, icmpCode := code, extraInfo := extra } = f i) (caplen : UInt32)
    (info : PacketInfo) : Ensures (fun r => f r = f info) (icmpFields packet caplen info) := by
  unfold icmpFields
  refine .ite ?_ (.ite ?_ (.pure rfl))
  · exact .step fun t => .step fun c => .step fun _ => .step fun e => .pure (hf info t c e)
  · exact .step fun t => .step fun c => .step fun e => .pure (hf info t c e)

theorem ipv6Fields_keeps (hf : ∀ i flow fragment count protocol,
      f { i with ipv6Flow := flow, isFragment := fragment, ipv6ExtCount := count,
                 protocol := protocol } = f i) (caplen : UInt32) (ip : IpInfo)
    (info : PacketInfo) : Ensures (fun r => f r = f info) (ipv6Fields packet caplen ip info) := by
  have hloop : ∀ (k : ℕ) (nxt : UInt8) (off : ℕ) (i : PacketInfo), f i = f info →
      Ensures (fun r => f r.2 = f info) (extLoop packet caplen k nxt off i) := by
    intro k
    induction k with
    | zero => exact fun nxt off i hi => .pure hi
    | succ k ih =>
      intro nxt off i hi
      unfold extLoop
      refine .ite (.ite (.pure hi) ?_) (.ite ?_ (.pure hi))
      · refine .step fun nxt' => .step fun len => ih _ _ _ ?_
        exact (hf i i.ipv6Flow i.isFragment _ i.protocol).trans hi
      · refine .step fun nxt' => ih _ _ _ ?_
        exact (hf i i.ipv6Flow 1 _ i.protocol).trans hi
  unfold ipv6Fields
  refine .ite (.step fun flow => .step fun nxt => .bind (hloop 10 nxt _ _ ?_) fun r hr => .pure ?_)
    (.pure rfl)
  · exact hf info _ info.isFragment info.ipv6ExtCount info.protocol
  · exact (hf r.2 r.2.ipv6Flow r.2.isFragment r.2.ipv6ExtCount r.1).trans hr

theorem dissectArp_keeps (hf : ∀ i protocol src dst,
      f { i with protocol := protocol, srcIp := src, dstIp := dst } = f i) (caplen : UInt32)
    (eth : EthernetInfo) (info : PacketInfo) :
    Ensures (fun r => f r = f info) (dissectArp packet caplen eth info) := by
  have hlabel := hf info 200 info.srcIp info.dstIp
  unfold dissectArp
  refine .ite (.step fun _ => .step fun _ => .step fun _ => .ite ?_ (.pure hlabel)) (.pure hlabel)
  exact .step fun src => .step fun dst => .pure (hf info 200 _ _)

theorem finish_keeps (hf : ∀ i len entropy top freq bytes,
      f { i with payloadLen := len, entropyScaled := entropy, topByte := top, topByteFreq := freq,
                 payload := bytes } = f i) (caplen : UInt32) (info : PacketInfo) :
    Ensures (fun r => f r = f info) (finish packet caplen info) := by
  unfold finish
  refine .step fun e => .bind (P := fun i => f i = f info) ?_ fun i hi => .step fun bs => .pure ?_
  · unfold calculateByteStats
    refine .ite (.pure ?_) (.step fun _ => .pure ?_)
    · exact hf info _ e info.topByte info.topByteFreq info.payload
    · exact hf info _ e _ _ info.payload
  · exact (hf i i.payloadLen i.entropyScaled i.topByte i.topByteFreq _).trans hi

end Keeps

/-! ### The header fields -/

/-- The fields of the record that the layer parsers set. -/
structure Headers where
  srcMac : Vector UInt8 6
  dstMac : Vector UInt8 6
  vlanId : UInt16
  srcIp : Vector UInt8 16
  dstIp : Vector UInt8 16
  protocol : UInt8
  ipTtl : UInt8
  ipTos : UInt8
  ipId : UInt16
  isIpv6 : UInt8
  isFragment : UInt8
  l3Offset : UInt8
  l4Offset : UInt8
  srcPort : UInt16
  dstPort : UInt16
  tcpSeq : UInt32
  tcpAck : UInt32
  tcpWin : UInt16
  tcpFlags : UInt8

/-- The header fields of a record. -/
def headers (i : PacketInfo) : Headers where
  srcMac := i.srcMac
  dstMac := i.dstMac
  vlanId := i.vlanId
  srcIp := i.srcIp
  dstIp := i.dstIp
  protocol := i.protocol
  ipTtl := i.ipTtl
  ipTos := i.ipTos
  ipId := i.ipId
  isIpv6 := i.isIpv6
  isFragment := i.isFragment
  l3Offset := i.l3Offset
  l4Offset := i.l4Offset
  srcPort := i.srcPort
  dstPort := i.dstPort
  tcpSeq := i.tcpSeq
  tcpAck := i.tcpAck
  tcpWin := i.tcpWin
  tcpFlags := i.tcpFlags

/-- The two records have the same header fields. -/
abbrev SameHeaders (i r : PacketInfo) : Prop := headers r = headers i

theorem headers_tcpOption (q : ℕ) (kind l : UInt8) (i : PacketInfo) :
    Ensures (SameHeaders i) (tcpOption packet q kind l i) := by
  unfold tcpOption; dsimp only; split_ifs <;> rfl

theorem headers_parseTcpOptionsExtended (o h : ℕ) (i : PacketInfo) :
    Ensures (SameHeaders i) (parseTcpOptionsExtended packet o h i) :=
  parseTcpOptionsExtended_keeps headers_tcpOption o h i

theorem headers_dispatchApp (t : TransportInfo) (info : PacketInfo) :
    Ensures (SameHeaders info) (dispatchApp packet t info) :=
  dispatchApp_keeps (fun _ _ _ _ _ _ _ _ => rfl) t info

/-- The header fields with those of the TCP header added. -/
def withTcp (t : TransportInfo) (h : Headers) : Headers :=
  if h.protocol = 6 then
    { h with tcpFlags := t.flags, tcpSeq := t.seq, tcpAck := t.ack, tcpWin := t.window }
  else h

/-- The header fields with those of the transport header added. -/
def withTransport (t : TransportInfo) (h : Headers) : Headers :=
  withTcp t { h with srcPort := t.srcPort, dstPort := t.dstPort }

theorem headers_tcpFields (ip : IpInfo) (t : TransportInfo) (info : PacketInfo) :
    Ensures (fun r => headers r = withTcp t (headers info)) (tcpFields packet ip t info) := by
  by_cases h6 : info.protocol = 6
  · rw [tcpFields, if_pos h6, withTcp, if_pos (show (headers info).protocol = 6 from h6)]
    refine .bind (headers_parseTcpOptionsExtended _ _ _) fun i hi => ?_
    exact (checkTcpAnomalies_keeps (fun _ _ => rfl) i t).trans hi
  · rw [tcpFields, if_neg h6, withTcp, if_neg (show (headers info).protocol ≠ 6 from h6)]
    exact .pure rfl

theorem headers_transportFields (caplen : UInt32) (ip : IpInfo) (t : TransportInfo)
    (info : PacketInfo) : Ensures (fun r => headers r = withTransport t (headers info))
      (transportFields packet caplen ip t info) := by
  unfold transportFields
  refine .bind (headers_tcpFields ip t _) fun i hi => ?_
  refine .bind (headers_dispatchApp t i) fun j hj => ?_
  exact (l4Protocols_keeps (fun _ _ _ _ => rfl) caplen j).trans (hj.trans hi)

@[simp] theorem protocol_withTransport (t : TransportInfo) (h : Headers) :
    (withTransport t h).protocol = h.protocol := by
  unfold withTransport withTcp; split_ifs <;> rfl

@[simp] theorem l4Offset_withTransport (t : TransportInfo) (h : Headers) :
    (withTransport t h).l4Offset = h.l4Offset := by
  unfold withTransport withTcp; split_ifs <;> rfl

theorem headers_icmpFields (caplen : UInt32) (info : PacketInfo) :
    Ensures (SameHeaders info) (icmpFields packet caplen info) :=
  icmpFields_keeps (fun _ _ _ _ => rfl) caplen info

theorem headers_protocol (i : PacketInfo) (p : UInt8) :
    headers { i with protocol := p } = { headers i with protocol := p } := rfl

theorem headers_flow (i : PacketInfo) (x : UInt32) : headers { i with ipv6Flow := x } = headers i := rfl

theorem headers_finish (caplen : UInt32) (info : PacketInfo) :
    Ensures (SameHeaders info) (finish packet caplen info) :=
  finish_keeps (fun _ _ _ _ _ _ => rfl) caplen info

/-- The captured bytes in the record. -/
theorem finish_payload (caplen : UInt32) (info : PacketInfo) :
    Ensures (fun r => r.payloadLen = UInt16.ofNat (min caplen.toNat maxPayloadSize) ∧
      ∃ v : Vector UInt8 256, r.payload = writeAt v 0
        ((List.range (min caplen.toNat maxPayloadSize)).map fun k => packet (0 + k)))
      (finish packet caplen info) := by
  unfold finish
  refine .step fun e => .bind (P := fun i => i.payloadLen = _) ?_ fun i hi =>
    .bind (P := fun bs => bs = _) rfl fun bs hbs => .pure ⟨hi, i.payload, ?_⟩
  · unfold calculateByteStats
    exact .ite (.pure rfl) (.step fun _ => .pure rfl)
  · rw [hbs, val_loadBytes]

/-- The header fields of an IPv4 frame with an accepted transport header. -/
theorem headers_dissectIp {caplen : UInt32} {eth : EthernetInfo} {ip : IpInfo} {t : TransportInfo}
    (hip : (parseIpLayer packet caplen.toNat eth.headerLen).val = some ip) (h4 : ip.isIpv6 = false)
    (ht : (parseTransportLayer packet caplen.toNat eth.headerLen ip).val = some t)
    (info : PacketInfo) :
    Ensures (fun r => headers r = withTransport t (headers (ipFields eth ip info)))
      (dissectIp packet caplen eth info) := by
  unfold dissectIp
  refine .bind (P := fun r => r = some ip) hip fun r hr => ?_
  subst hr
  have h6 : (ipFields eth ip info).isIpv6 = 0 := by simp [ipFields, h4]
  dsimp only
  rw [ipv6Fields, if_neg (by rw [h6]; decide)]
  refine .bind (.pure rfl) fun i hi => .bind (headers_icmpFields caplen i) fun j hj => ?_
  subst hi
  unfold dissectTransport
  refine .bind (P := fun r => r = some t) ht fun r hr => ?_
  subst hr
  exact (headers_transportFields caplen ip t j).trans (congrArg (withTransport t) hj)

/-! ### The protocol behind the extension headers -/

/-- The protocol that a walk over IPv6 extension headers ends with: `nxt` is announced for the header
at `off`, and at most `k` extension headers are followed. -/
def upperWalk (packet : ℕ → UInt8) (caplen : UInt32) : ℕ → UInt8 → ℕ → UInt8
  | 0, nxt, _ => nxt
  | k + 1, nxt, off =>
    if nxt = 0 ∨ nxt = 43 ∨ nxt = 60 then
      if asInt caplen < off + 8 then nxt
      else upperWalk packet caplen k (packet off) (off + ((packet (off + 1)).toNat + 1) * 8)
    else if nxt = 44 then upperWalk packet caplen k (packet off) (off + 8)
    else nxt

/-- The protocol field of the record for the IP header at `h`. The walk starts from the 8-bit field
`l3_offset`. -/
def upperProtocol (packet : ℕ → UInt8) (caplen : UInt32) (h : ℕ) : UInt8 :=
  if IsV4 packet h then packet (h + 9)
  else upperWalk packet caplen 10 (packet (h + 6)) (h % 256 + 40)

theorem upperWalk_of_ne {caplen : UInt32} {nxt : UInt8} (h0 : ¬ (nxt = 0 ∨ nxt = 43 ∨ nxt = 60))
    (h44 : nxt ≠ 44) : ∀ (k off : ℕ), upperWalk packet caplen k nxt off = nxt
  | 0, _ => rfl
  | k + 1, off => by rw [upperWalk, if_neg h0, if_neg h44]

/-- A header that announces TCP or UDP has no extension headers. -/
theorem upperProtocol_eq {caplen : UInt32} {h : ℕ}
    (hp : ipProtocol packet h = 6 ∨ ipProtocol packet h = 17) :
    upperProtocol packet caplen h = ipProtocol packet h := by
  unfold upperProtocol ipProtocol at *
  split_ifs at hp ⊢ with h4
  · rfl
  · rcases hp with hp | hp <;> rw [hp] <;> exact upperWalk_of_ne (by decide) (by decide) _ _

theorem extLoop_spec (caplen : UInt32) : ∀ (k : ℕ) (nxt : UInt8) (off : ℕ) (info : PacketInfo),
    Ensures (fun r => r.1 = upperWalk packet caplen k nxt off ∧
      ∃ f, headers r.2 = { headers info with isFragment := f }) (extLoop packet caplen k nxt off info)
  | 0, nxt, _, info => .pure ⟨rfl, _, rfl⟩
  | k + 1, nxt, off, info => by
    unfold extLoop upperWalk
    dsimp only
    by_cases hopt : nxt = 0 ∨ nxt = 43 ∨ nxt = 60
    · rw [if_pos hopt, if_pos hopt]
      by_cases hfit : asInt caplen < off + 8
      · rw [if_pos hfit, if_pos hfit]
        exact .pure ⟨rfl, _, rfl⟩
      · rw [if_neg hfit, if_neg hfit]
        obtain ⟨hr, f, hf⟩ := extLoop_spec caplen k (packet off)
          (off + ((packet (off + 1)).toNat + 1) * 8)
          { info with ipv6ExtCount := info.ipv6ExtCount + 1 }
        exact ⟨hr, f, hf⟩
    rw [if_neg hopt, if_neg hopt]
    by_cases h44 : nxt = 44
    · rw [if_pos h44, if_pos h44]
      obtain ⟨hr, f, hf⟩ := extLoop_spec caplen k (packet off) (off + 8)
        { info with isFragment := 1, ipv6ExtCount := info.ipv6ExtCount + 1 }
      exact ⟨hr, f, hf⟩
    · rw [if_neg h44, if_neg h44]
      exact .pure ⟨rfl, _, rfl⟩

/-- The header fields behind the IP header at `h`, before the transport layer. -/
theorem ipv6Fields_spec {caplen : UInt32} {h : ℕ} {ip : IpInfo} {eth : EthernetInfo}
    {info : PacketInfo} (hip : IpOK packet h ip) (hl3 : info.l3Offset.toNat = h % 256) :
    Ensures (fun r => ∃ f, headers r = { headers (ipFields eth ip info) with
      protocol := upperProtocol packet caplen h, isFragment := f })
      (ipv6Fields packet caplen ip (ipFields eth ip info)) := by
  unfold ipv6Fields upperProtocol
  by_cases h4 : IsV4 packet h
  · have h6 : (ipFields eth ip info).isIpv6 = 0 := by simp [ipFields, hip.isIpv6, h4]
    have hp : (ipFields eth ip info).protocol = packet (h + 9) := by
      simp [ipFields, hip.protocol, ipProtocol, h4]
    simp only [h6, if_pos h4, ← hp, ne_eq, not_true, ↓reduceIte]
    exact .pure ⟨_, rfl⟩
  · have h6 : (ipFields eth ip info).isIpv6 ≠ 0 := by simp [ipFields, hip.isIpv6, h4]
    have hoff : (ipFields eth ip info).l3Offset.toNat = h % 256 := hl3
    rw [if_pos h6, if_neg h4, hip.header, hoff]
    generalize ipFields eth ip info = i
    refine .step fun flow => .bind (P := fun b => b = packet (h + 6)) rfl fun nxt hnxt => ?_
    refine .bind (extLoop_spec caplen 10 nxt (h % 256 + 40) _) fun r hr => .pure ?_
    obtain ⟨hr, f, hf⟩ := hr
    refine ⟨f, ?_⟩
    rw [headers_protocol, hf, headers_flow, hr, hnxt]

end Pacsni.Capture.Stages
