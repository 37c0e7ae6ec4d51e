import Pacsni.Dashboard.Server

/-! # The transitions of the server

What one step of the server can do, with one rule for every place where a goroutine can be. Every step
of the machine is by one of the rules of `Step`, and proofs about runs of the server go by them. -/

namespace Pacsni.Dashboard.Steps

open Pacsni.Lib.Text Pacsni.Lib.Runs
open Pacsni.Dashboard.Packet Pacsni.Dashboard.Ring Pacsni.Dashboard.Lru Pacsni.Dashboard.Matching
open Pacsni.Dashboard.Server

variable {ι : Type*} [DecidableEq ι]

/-- The transitions of the server from the state `s`. -/
inductive Step (env : Env) (s : State ι) : Server.Action ι → State ι → Prop
  | arrive {pkt} (hp : s.packetLoop = .idle) :
      Step env s (.arrive pkt) { s with packetLoop := .received (Packet.received pkt) }
  /-- The packet arrives while nothing is scanned. -/
  | skip {pkt} (hp : s.packetLoop = .received pkt) (hmu : s.mu = none) (hscan : s.isScanning = false) :
      Step env s .packetLoop { s with packetLoop := .idle }
  | start {pkt ip} (hp : s.packetLoop = .received pkt) (hmu : s.mu = none)
      (hscan : s.isScanning = true)
      (hip : geoAddress (label env.lib (s.packetCounter + 1) pkt) = some ip) :
      Step env s .packetLoop { s with
        packetCounter := s.packetCounter + 1
        mu := some .packetLoop
        packetLoop := .lookup (label env.lib (s.packetCounter + 1) pkt) ip }
  | startLocal {pkt} (hp : s.packetLoop = .received pkt) (hmu : s.mu = none)
      (hscan : s.isScanning = true)
      (hip : geoAddress (label env.lib (s.packetCounter + 1) pkt) = none) :
      Step env s .packetLoop { s with
        packetCounter := s.packetCounter + 1
        mu := some .packetLoop
        packetLoop := .decide
          { label env.lib (s.packetCounter + 1) pkt with country := "local".toList } }
  | lookupPrivate {pkt ip} (hp : s.packetLoop = .lookup pkt ip) (hip : isPrivateIP ip = true) :
      Step env s .packetLoop { s with packetLoop := .decide (setCountry pkt "local".toList) }
  | hit {pkt ip cache c} (hp : s.packetLoop = .lookup pkt ip) (hip : isPrivateIP ip = false)
      (hget : s.geoCache.get ip = (cache, some c)) :
      Step env s .packetLoop { s with
        geoCache := cache
        packetLoop := .decide (setCountry pkt c) }
  | miss {pkt ip cache} (hp : s.packetLoop = .lookup pkt ip) (hip : isPrivateIP ip = false)
      (hget : s.geoCache.get ip = (cache, none)) :
      Step env s .packetLoop { s with geoCache := cache, packetLoop := .request pkt ip }
  | ask {pkt ip} (hp : s.packetLoop = .request pkt ip) (hroom : s.geoReqChan.length < geoReqCapacity) :
      Step env s .packetLoop { s with
        geoReqChan := s.geoReqChan ++ [ip]
        packetLoop := .decide (setCountry pkt searching) }
  /-- The channel is full: the request is dropped. -/
  | drop {pkt ip} (hp : s.packetLoop = .request pkt ip)
      (hfull : ¬ s.geoReqChan.length < geoReqCapacity) :
      Step env s .packetLoop { s with packetLoop := .decide (setCountry pkt searching) }
  | keep {pkt} (hp : s.packetLoop = .decide pkt) (hacc : accepts env.lib s.filter pkt = true) :
      Step env s .packetLoop { s with
        historyBuffer := s.historyBuffer.add pkt
        packetLoop := .stored pkt }
  | reject {pkt} (hp : s.packetLoop = .decide pkt) (hacc : accepts env.lib s.filter pkt = false) :
      Step env s .packetLoop { s with mu := none, packetLoop := .idle }
  | tell {pkt} (hp : s.packetLoop = .stored pkt) :
      Step env s .packetLoop { s with
        broadcasts := s.broadcasts ++ [.packet pkt]
        mu := none
        packetLoop := .idle }
  | take {ip rest} (hg : s.geoLoop = .idle) (hq : s.geoReqChan = ip :: rest) :
      Step env s .geoLoop { s with geoReqChan := rest, geoLoop := .received ip }
  | noDB {ip} (hg : s.geoLoop = .received ip) (hdb : env.geoDB = none) :
      Step env s .geoLoop { s with geoLoop := .idle }
  | unknown {ip city} (hg : s.geoLoop = .received ip) (hdb : env.geoDB = some city)
      (hcity : city ip = none) :
      Step env s .geoLoop { s with geoCache := s.geoCache.remove ip, geoLoop := .idle }
  | resolve {ip city record} (hg : s.geoLoop = .received ip) (hdb : env.geoDB = some city)
      (hcity : city ip = some record) :
      Step env s .geoLoop { s with geoLoop := .resolved ip (GeoResult.ofRecord env record) }
  | cache {ip g} (hg : s.geoLoop = .resolved ip g) :
      Step env s .geoLoop { s with
        geoCache := s.geoCache.add ip g.text
        geoLoop := .cached ip g }
  | update {ip g} (hg : s.geoLoop = .cached ip g) :
      Step env s .geoLoop { s with
        historyBuffer := s.historyBuffer.update (applyGeo ip g)
        geoLoop := .updated ip g }
  | tellGeo {ip g} (hg : s.geoLoop = .updated ip g) :
      Step env s .geoLoop { s with
        broadcasts := s.broadcasts ++ [.geoUpdate ip g.country g.city g.isp g.code]
        geoLoop := .idle }
  | opened {r action f} (hr : s.requests r = .done) :
      Step env s (.open r action f) { s with
        requests := Function.update s.requests r (.start action f) }
  | plain {r f} (hr : s.requests r = .start none f) :
      Step env s (.request r) { s with requests := Function.update s.requests r (behindAction f) }
  | clear {r f} (hr : s.requests r = .start (some .clear) f) (hmu : s.mu = none) :
      Step env s (.request r) { s with
        historyBuffer := s.historyBuffer.clear
        mu := some (.request r)
        requests := Function.update s.requests r (.cleared f) }
  | tellClear {r f} (hr : s.requests r = .cleared f) :
      Step env s (.request r) { s with
        broadcasts := s.broadcasts ++ [.clear]
        mu := none
        requests := Function.update s.requests r (behindAction f) }
  | toggle {r f} (hr : s.requests r = .start (some .toggle) f) (hmu : s.mu = none) :
      Step env s (.request r) { s with
        isScanning := !s.isScanning
        requests := Function.update s.requests r .toggled }
  | readToggle {r} (hr : s.requests r = .toggled) :
      Step env s (.request r) { s with
        requests := Function.update s.requests r (.toggleRead s.isScanning) }
  | tellToggle {r b} (hr : s.requests r = .toggleRead b) :
      Step env s (.request r) { s with
        broadcasts := s.broadcasts ++ [.status b none]
        requests := Function.update s.requests r .done }
  | sameFilter {r f} (hr : s.requests r = .filter f) (hmu : s.mu = none) (hf : s.filter.str = f) :
      Step env s (.request r) { s with requests := Function.update s.requests r .done }
  | setFilter {r f} (hr : s.requests r = .filter f) (hmu : s.mu = none) (hf : s.filter.str ≠ f) :
      Step env s (.request r) { s with
        filter := Filter.ofText env.lib f
        mu := some (.request r)
        requests := Function.update s.requests r (.filterSet s.isScanning f) }
  | tellFilter {r b f} (hr : s.requests r = .filterSet b f) :
      Step env s (.request r) { s with
        broadcasts := s.broadcasts ++ [.status b (some f)]
        mu := none
        requests := Function.update s.requests r .done }

variable {env : Env} {s s' : State ι} {r : ι}

theorem step_of_stepPacket (h : stepPacket env s = some s') : Step env s .packetLoop s' := by
  unfold stepPacket at h
  cases hp : s.packetLoop with
  | idle => simp [hp] at h
  | received pkt =>
    cases hmu : s.mu with
    | some o => simp [hp, hmu] at h
    | none =>
      simp only [hp, hmu, Option.some.injEq] at h
      subst h
      unfold startItem
      by_cases hscan : s.isScanning = true
      · rw [if_pos hscan]
        dsimp only
        cases hip : geoAddress (label env.lib (s.packetCounter + 1) pkt) with
        | some ip => exact .start hp hmu hscan hip
        | none => exact .startLocal hp hmu hscan hip
      · rw [if_neg hscan]
        exact .skip hp hmu (by simpa using hscan)
  | lookup pkt ip =>
    cases hip : isPrivateIP ip with
    | true =>
      simp only [hp, hip, ↓reduceIte, Option.some.injEq] at h
      subst h
      exact .lookupPrivate hp hip
    | false =>
      simp only [hp, hip, Bool.false_eq_true, ↓reduceIte] at h
      cases hget : s.geoCache.get ip with
      | mk cache found =>
        cases found with
        | some c =>
          simp only [hget, Option.some.injEq] at h
          subst h
          exact .hit hp hip hget
        | none =>
          simp only [hget, Option.some.injEq] at h
          subst h
          exact .miss hp hip hget
  | request pkt ip =>
    simp only [hp, Option.some.injEq] at h
    subst h
    split_ifs with hroom
    · exact .ask hp hroom
    · exact .drop hp hroom
  | decide pkt =>
    cases hacc : accepts env.lib s.filter pkt with
    | true =>
      simp only [hp, hacc, ↓reduceIte, Option.some.injEq] at h
      subst h
      exact .keep hp hacc
    | false =>
      simp only [hp, hacc, Bool.false_eq_true, ↓reduceIte, Option.some.injEq] at h
      subst h
      exact .reject hp hacc
  | stored pkt =>
    simp only [hp, Option.some.injEq] at h
    subst h
    exact .tell hp

theorem step_of_stepGeo (h : stepGeo env s = some s') : Step env s .geoLoop s' := by
  unfold stepGeo at h
  cases hg : s.geoLoop with
  | idle =>
    cases hq : s.geoReqChan with
    | nil => simp [hg, hq] at h
    | cons ip rest =>
      simp only [hg, hq, Option.some.injEq] at h
      subst h
      exact .take hg hq
  | received ip =>
    cases hdb : env.geoDB with
    | none =>
      simp only [hg, hdb, Option.some.injEq] at h
      subst h
      exact .noDB hg hdb
    | some city =>
      cases hcity : city ip with
      | none =>
        simp only [hg, hdb, hcity, Option.some.injEq] at h
        subst h
        exact .unknown hg hdb hcity
      | some record =>
        simp only [hg, hdb, hcity, Option.some.injEq] at h
        subst h
        exact .resolve hg hdb hcity
  | resolved ip g =>
    simp only [hg, Option.some.injEq] at h
    subst h
    exact .cache hg
  | cached ip g =>
    simp only [hg, Option.some.injEq] at h
    subst h
    exact .update hg
  | updated ip g =>
    simp only [hg, Option.some.injEq] at h
    subst h
    exact .tellGeo hg

theorem step_of_stepRequest (h : stepRequest env s r = some s') : Step env s (.request r) s' := by
  unfold stepRequest at h
  cases hr : s.requests r with
  | done => simp [hr] at h
  | start action f =>
    cases action with
    | none =>
      simp only [hr, Option.some.injEq] at h
      subst h
      exact .plain hr
    | some a =>
      cases hmu : s.mu with
      | some o => cases a <;> simp [hr, hmu] at h
      | none =>
        cases a with
        | clear =>
          simp only [hr, hmu, Option.some.injEq] at h
          subst h
          exact .clear hr hmu
        | toggle =>
          simp only [hr, hmu, Option.some.injEq] at h
          subst h
          have hstep : Step env s (.request r) _ := .toggle hr hmu
          rwa [hmu] at hstep
  | cleared f =>
    simp only [hr, Option.some.injEq] at h
    subst h
    exact .tellClear hr
  | toggled =>
    simp only [hr, Option.some.injEq] at h
    subst h
    exact .readToggle hr
  | toggleRead b =>
    simp only [hr, Option.some.injEq] at h
    subst h
    exact .tellToggle hr
  | filter f =>
    cases hmu : s.mu with
    | some o => simp [hr, hmu] at h
    | none =>
      simp only [hr, hmu] at h
      split_ifs at h with hf
      · obtain rfl := Option.some.inj h
        have hstep : Step env s (.request r) _ := .sameFilter hr hmu hf
        rwa [hmu] at hstep
      · obtain rfl := Option.some.inj h
        exact .setFilter hr hmu hf
  | filterSet b f =>
    simp only [hr, Option.some.injEq] at h
    subst h
    exact .tellFilter hr

/-- **What a step can do.** -/
theorem step_of_machine {savedOK : LruCache → Prop} {a : Server.Action ι}
    (h : (machine ι env savedOK).step s a = some s') : Step env s a s' := by
  cases a with
  | arrive pkt =>
    cases hp : s.packetLoop with
    | idle =>
      simp only [machine, hp, Option.some.injEq] at h
      subst h
      exact .arrive hp
    | _ => simp [machine, hp] at h
  | packetLoop => exact step_of_stepPacket h
  | geoLoop => exact step_of_stepGeo h
  | «open» r action f =>
    cases hr : s.requests r with
    | done =>
      simp only [machine, hr, Option.some.injEq] at h
      subst h
      exact .opened hr
    | _ => simp [machine, hr] at h
  | request r => exact step_of_stepRequest h

end Pacsni.Dashboard.Steps
