import Pacsni.Dashboard.Geo

/-! # The mutex

In every reachable state of the server, whoever is in a section under `mu` holds it, and nothing that
is guarded by `mu` changes in front of the one who holds it. -/

namespace Pacsni.Dashboard.Mutex

open Pacsni.Lib.Runs
open Pacsni.Dashboard.Ring Pacsni.Dashboard.Lru Pacsni.Dashboard.Server Pacsni.Dashboard.Steps
open Pacsni.Dashboard.Geo (Holds InSection owner_update not_inSection_of not_inSection_behindAction)

variable {ι : Type*} {env : Env} {s s' : State ι} {r r' : ι}

/-- Who is in a section holds `mu`; the packet goroutine handles packets only while `isScanning` is
set, and the packet that it has just stored is still there. -/
structure Locks (s : State ι) : Prop where
  packet : Holds s.packetLoop → s.mu = some .packetLoop
  request : ∀ r, InSection (s.requests r) → s.mu = some (.request r)
  scanning : Holds s.packetLoop → s.isScanning = true
  stored : ∀ pkt, s.packetLoop = .stored pkt → s.historyBuffer.count ≠ 0

theorem Locks.not_holds (hs : Locks s) (hmu : s.mu ≠ some .packetLoop) : ¬ Holds s.packetLoop :=
  fun hh => hmu (hs.packet hh)

theorem Locks.not_inSection (hs : Locks s) (hmu : s.mu ≠ some (.request r)) :
    ¬ InSection (s.requests r) := fun hr => hmu (hs.request r hr)

theorem Locks.not_stored (hs : Locks s) (hmu : s.mu ≠ some .packetLoop) {pkt} :
    s.packetLoop ≠ .stored pkt := by
  intro hp
  apply hs.not_holds hmu
  rw [hp]
  trivial

/-- Behind a step of the packet goroutine, if it had or now has `mu`. -/
theorem Locks.request_of_packet (hs : Locks s) (hmu : ∀ r, s.mu ≠ some (.request r))
    (mu : Option (Owner ι)) (r : ι) (hr : InSection (s.requests r)) : mu = some (.request r) :=
  absurd hr (hs.not_inSection (hmu r))

/-- The packet goroutine goes on with its packet. -/
theorem Locks.onward (hs : Locks s) (hh : Holds s.packetLoop) (hmu : s'.mu = s.mu)
    (hreq : s'.requests = s.requests) (hscan : s'.isScanning = s.isScanning)
    (hst : ∀ pkt, s'.packetLoop ≠ .stored pkt) : Locks s' where
  packet _ := hmu.trans (hs.packet hh)
  request r hr := hmu.trans (hs.request r (hreq ▸ hr))
  scanning _ := hscan.trans (hs.scanning hh)
  stored pkt hp := absurd hp (hst pkt)

variable [DecidableEq ι]

/-- A request that is in no section before and behind its step. -/
theorem Locks.request_update {x : Request} (hs : Locks s) (hx : ¬ InSection x) (r' : ι)
    (hr' : InSection (Function.update s.requests r x r')) : s.mu = some (.request r') :=
  owner_update (fun r' _ => hs.request r') (fun h => absurd h hx) r' hr'

/-- A request that takes or leaves `mu`. -/
theorem Locks.request_switch {x : Request} {mu : Option (Owner ι)} (hs : Locks s)
    (hmu : ∀ r', r' ≠ r → s.mu ≠ some (.request r')) (hx : InSection x → mu = some (.request r))
    (r' : ι) (hr' : InSection (Function.update s.requests r x r')) : mu = some (.request r') :=
  owner_update (fun r' hne hr' => absurd hr' (hs.not_inSection (hmu r' hne))) hx r' hr'

/-- A step keeps the locks. -/
theorem locks_step {a : Server.Action ι} (hs : Locks s) (h : Step env s a s') : Locks s' := by
  cases h with
  | arrive hp => exact { hs with
      packet := False.elim
      scanning := False.elim
      stored := by rintro _ ⟨⟩ }
  | skip hp hmu hscan => exact { hs with
      packet := False.elim
      scanning := False.elim
      stored := by rintro _ ⟨⟩ }
  | start hp hmu hscan hip => exact {
      packet := fun _ => rfl
      request := hs.request_of_packet (by simp [hmu]) _
      scanning := fun _ => hscan
      stored := by rintro _ ⟨⟩ }
  | startLocal hp hmu hscan hip => exact {
      packet := fun _ => rfl
      request := hs.request_of_packet (by simp [hmu]) _
      scanning := fun _ => hscan
      stored := by rintro _ ⟨⟩ }
  | lookupPrivate hp hip => exact hs.onward (by rw [hp]; trivial) rfl rfl rfl (by rintro _ ⟨⟩)
  | hit hp hip hget => exact hs.onward (by rw [hp]; trivial) rfl rfl rfl (by rintro _ ⟨⟩)
  | miss hp hip hget => exact hs.onward (by rw [hp]; trivial) rfl rfl rfl (by rintro _ ⟨⟩)
  | ask hp hroom => exact hs.onward (by rw [hp]; trivial) rfl rfl rfl (by rintro _ ⟨⟩)
  | drop hp hfull => exact hs.onward (by rw [hp]; trivial) rfl rfl rfl (by rintro _ ⟨⟩)
  | keep hp hacc =>
    have hh : Holds s.packetLoop := by rw [hp]; trivial
    exact { hs with
      packet := fun _ => hs.packet hh
      scanning := fun _ => hs.scanning hh
      stored := by
        intro pkt hpkt hzero
        have hsize := s.historyBuffer.head_lt
        simp only [RingBuffer.add] at hzero
        split_ifs at hzero
        omega }
  | reject hp hacc =>
    have hmu : s.mu = some .packetLoop := hs.packet (by rw [hp]; trivial)
    exact {
      packet := False.elim
      request := hs.request_of_packet (by simp [hmu]) _
      scanning := False.elim
      stored := by rintro _ ⟨⟩ }
  | tell hp =>
    have hmu : s.mu = some .packetLoop := hs.packet (by rw [hp]; trivial)
    exact {
      packet := False.elim
      request := hs.request_of_packet (by simp [hmu]) _
      scanning := False.elim
      stored := by rintro _ ⟨⟩ }
  | take => exact { hs with }
  | noDB => exact { hs with }
  | unknown => exact { hs with }
  | resolve => exact { hs with }
  | cache => exact { hs with }
  | update => exact { hs with }
  | tellGeo => exact { hs with }
  | opened hr =>
    exact { hs with request := hs.request_update (not_inSection_of (by simp) (by simp)) }
  | plain hr => exact { hs with request := hs.request_update (not_inSection_behindAction _) }
  | clear hr hmu => exact {
      packet := fun hh => absurd hh (hs.not_holds (by simp [hmu]))
      request := hs.request_switch (by simp [hmu]) fun _ => rfl
      scanning := hs.scanning
      stored := fun pkt hp => absurd hp (hs.not_stored (by simp [hmu])) }
  | tellClear hr =>
    have hmu := hs.request _ (Or.inl ⟨_, hr⟩)
    exact { hs with
      packet := fun hh => absurd hh (hs.not_holds (by simp [hmu]))
      request := hs.request_switch (by simp [hmu, eq_comm])
        fun hx => absurd hx (not_inSection_behindAction _) }
  | toggle hr hmu => exact { hs with
      request := hs.request_update (not_inSection_of (by simp) (by simp))
      scanning := fun hh => absurd hh (hs.not_holds (by simp [hmu])) }
  | readToggle hr =>
    exact { hs with request := hs.request_update (not_inSection_of (by simp) (by simp)) }
  | tellToggle hr =>
    exact { hs with request := hs.request_update (not_inSection_of (by simp) (by simp)) }
  | sameFilter hr hmu hf =>
    exact { hs with request := hs.request_update (not_inSection_of (by simp) (by simp)) }
  | setFilter hr hmu hf => exact { hs with
      packet := fun hh => absurd hh (hs.not_holds (by simp [hmu]))
      request := hs.request_switch (by simp [hmu]) fun _ => rfl }
  | tellFilter hr =>
    have hmu := hs.request _ (Or.inr ⟨_, _, hr⟩)
    exact { hs with
      packet := fun hh => absurd hh (hs.not_holds (by simp [hmu]))
      request := hs.request_switch (by simp [hmu, eq_comm])
        fun hx => absurd hx (not_inSection_of (by simp) (by simp)) }

/-- **Mutual exclusion.** -/
theorem locks_of_reach {savedOK : LruCache → Prop} (h : (machine ι env savedOK).Reach s) :
    Locks s := by
  refine Machine.Reach.invariant (I := Locks) h ?_ fun s a s' hs ha =>
    locks_step hs (step_of_machine ha)
  intro s hinit
  obtain ⟨-, -, -, -, -, -, -, hp, -, hreq, -⟩ := hinit
  exact {
    packet := by rw [hp]; nofun
    request := fun r hr => absurd hr (by rw [hreq r]; exact not_inSection_of nofun nofun)
    scanning := by rw [hp]; nofun
    stored := by rw [hp]; rintro _ ⟨⟩ }

end Pacsni.Dashboard.Mutex
