import Pacsni.Dashboard.Mutex

/-! # The history

A log of what happened to the history, written beside a run of the server: the index of every packet
that the packet goroutine decided to keep, and every clear. In every run the history holds the last
packets that were kept since the latest clear, in this order, and no index is given twice. -/

namespace Pacsni.Dashboard.History

open Pacsni.Lib.Runs
open Pacsni.Dashboard.Packet Pacsni.Dashboard.Ring Pacsni.Dashboard.Lru Pacsni.Dashboard.Matching
open Pacsni.Dashboard.Server Pacsni.Dashboard.Steps Pacsni.Dashboard.Mutex
open Pacsni.Dashboard.Geo (atlas fromPublic started init_started SavedOK)

/-- What happens to the history. -/
inductive Event
  | kept (index : ℕ)
  | cleared
deriving DecidableEq, Repr

/-- The index of every packet that was ever kept, in order. -/
def everKept (l : List Event) : List ℕ :=
  l.filterMap fun
    | .kept index => some index
    | .cleared => none

/-- The indexes of the packets that were kept since the latest clear, in order. -/
def sinceClear (l : List Event) : List ℕ :=
  l.foldl (fun acc => fun
    | .kept index => acc ++ [index]
    | .cleared => []) []

variable {ι : Type*}

/-- What a step adds to the log: the packet goroutine has decided on a packet while `isScanning` is
set and it matches the filter in force, or a request clears the history. -/
def note (env : Env) (s : State ι) : Server.Action ι → List Event
  | .packetLoop => match s.packetLoop with
    | .decide pkt => if s.isScanning && accepts env.lib s.filter pkt then [.kept pkt.index] else []
    | _ => []
  | .request r => match s.requests r with
    | .start (some .clear) _ => [.cleared]
    | _ => []
  | _ => []

/-- The indexes of the stored packets, oldest first. -/
def indexes (s : State ι) : List ℕ := (s.historyBuffer.getAll false).map (·.index)

/-- The packet that the packet goroutine has given an index and not yet decided on. -/
def handled : PacketLoop → Option DashboardPacket
  | .lookup pkt _ => some pkt
  | .request pkt _ => some pkt
  | .decide pkt => some pkt
  | _ => none

/-! ### The log -/

variable {l : List Event} {index : ℕ}

theorem everKept_kept : everKept (l ++ [.kept index]) = everKept l ++ [index] := by
  simp [everKept]

theorem everKept_cleared : everKept (l ++ [.cleared]) = everKept l := by
  simp [everKept]

theorem sinceClear_kept : sinceClear (l ++ [.kept index]) = sinceClear l ++ [index] := by
  simp [sinceClear]

theorem sinceClear_cleared : sinceClear (l ++ [.cleared]) = [] := by
  simp [sinceClear]

/-- What is left behind the latest clear was kept. -/
theorem sinceClear_suffix (l : List Event) : sinceClear l <:+ everKept l := by
  induction l using List.reverseRecOn with
  | nil => exact List.suffix_refl _
  | append_singleton l e ih =>
    cases e with
    | kept index =>
      rw [sinceClear_kept, everKept_kept]
      obtain ⟨t, ht⟩ := ih
      exact ⟨t, by rw [← List.append_assoc, ht]⟩
    | cleared =>
      rw [sinceClear_cleared]
      exact List.nil_suffix

/-! ### The invariant -/

variable {env : Env} {s s' : State ι}

/-- The history and the counter against the log. -/
structure Inv (s : State ι) (l : List Event) : Prop where
  locks : Locks s
  history : indexes s = (sinceClear l).rtake historySize
  increasing : (everKept l).Pairwise (· < ·)
  bounded : ∀ i ∈ everKept l, i ≤ s.packetCounter
  current : ∀ pkt, handled s.packetLoop = some pkt →
    pkt.index = s.packetCounter ∧ ∀ i ∈ everKept l, i < s.packetCounter

@[simp] theorem index_setCountry (pkt : DashboardPacket) (res : Lib.Text.Str) :
    (setCountry pkt res).index = pkt.index := by
  unfold setCountry
  dsimp only
  split <;> rfl

@[simp] theorem index_applyGeo (ip : Lib.Text.Str) (g : GeoResult) (pkt : DashboardPacket) :
    (applyGeo ip g pkt).index = pkt.index := by
  unfold applyGeo
  split_ifs <;> rfl

/-- `geoWorker` changes no index. -/
theorem indexes_update (ip : Lib.Text.Str) (g : GeoResult) :
    ((s.historyBuffer.update (applyGeo ip g)).getAll false).map (·.index) = indexes s := by
  rw [RingBuffer.getAll_update, List.map_map]
  exact List.map_congr_left fun pkt _ => index_applyGeo ip g pkt

/-- The counter and the index of the handled packet behind a step: both are as before, or the next
packet is given the next index. -/
def Counts (s s' : State ι) : Prop :=
  (s'.packetCounter = s.packetCounter ∧ ∀ pkt, handled s'.packetLoop = some pkt →
    ∃ pkt', handled s.packetLoop = some pkt' ∧ pkt.index = pkt'.index) ∨
  (s'.packetCounter = s.packetCounter + 1 ∧
    ∀ pkt, handled s'.packetLoop = some pkt → pkt.index = s.packetCounter + 1)

/-- A step that does not write to the log. -/
theorem Inv.silent {e : List Event} (hs : Inv s l) (he : e = []) (hlocks : Locks s')
    (hhist : indexes s' = indexes s) (hcount : Counts s s') : Inv s' (l ++ e) := by
  subst he
  rw [List.append_nil]
  rcases hcount with ⟨hcount, hcur⟩ | ⟨hcount, hcur⟩
  · refine ⟨hlocks, hhist.trans hs.history, hs.increasing, hcount ▸ hs.bounded, fun pkt hpkt => ?_⟩
    obtain ⟨pkt', hpkt', hindex⟩ := hcur pkt hpkt
    rw [hcount, hindex]
    exact hs.current pkt' hpkt'
  · refine ⟨hlocks, hhist.trans hs.history, hs.increasing, fun i hi => ?_, fun pkt hpkt => ?_⟩
    · have := hs.bounded i hi
      omega
    · refine ⟨(hcur pkt hpkt).trans hcount.symm, fun i hi => ?_⟩
      have := hs.bounded i hi
      omega

/-- The step that stores a packet. -/
theorem Inv.kept (hs : Inv s l) {pkt : DashboardPacket} (hp : s.packetLoop = .decide pkt)
    (hlocks : Locks { s with
      historyBuffer := s.historyBuffer.add pkt, packetLoop := .stored pkt }) :
    Inv { s with historyBuffer := s.historyBuffer.add pkt, packetLoop := .stored pkt }
      (l ++ [.kept pkt.index]) := by
  obtain ⟨hindex, hlt⟩ := hs.current pkt (by rw [hp]; rfl)
  refine ⟨hlocks, ?_, ?_, ?_, by rintro _ ⟨⟩⟩
  · show ((s.historyBuffer.add pkt).getAll false).map (·.index) = _
    rw [RingBuffer.getAll_add, RingBuffer.map_rtake, List.map_append, sinceClear_kept]
    show (indexes s ++ [pkt.index]).rtake historySize = _
    rw [hs.history, RingBuffer.rtake_append_rtake]
  · rw [everKept_kept, List.pairwise_append]
    refine ⟨hs.increasing, List.pairwise_singleton _ _, fun i hi j hj => ?_⟩
    rw [List.mem_singleton.mp hj, hindex]
    exact hlt i hi
  · intro i hi
    rw [everKept_kept] at hi
    rcases List.mem_append.mp hi with hi | hi
    · exact hs.bounded i hi
    · exact le_of_eq ((List.mem_singleton.mp hi).trans hindex)

variable [DecidableEq ι]

/-- The step that clears the history. -/
theorem Inv.cleared (hs : Inv s l) {r : ι} {x : Request}
    (hlocks : Locks { s with
      historyBuffer := s.historyBuffer.clear
      mu := some (.request r)
      requests := Function.update s.requests r x }) :
    Inv { s with
      historyBuffer := s.historyBuffer.clear
      mu := some (.request r)
      requests := Function.update s.requests r x } (l ++ [.cleared]) := by
  refine ⟨hlocks, ?_, ?_, ?_, ?_⟩
  · rw [sinceClear_cleared]
    rfl
  · rw [everKept_cleared]
    exact hs.increasing
  · rw [everKept_cleared]
    exact hs.bounded
  · rw [everKept_cleared]
    exact hs.current

/-- Only the packet goroutine gives indexes. -/
theorem counts_step {a : Server.Action ι} (h : Step env s a s') : Counts s s' := by
  cases h with
  | arrive hp => exact Or.inl ⟨rfl, by rintro _ ⟨⟩⟩
  | skip hp hmu hscan => exact Or.inl ⟨rfl, by rintro _ ⟨⟩⟩
  | start hp hmu hscan hip =>
    refine Or.inr ⟨rfl, ?_⟩
    rintro _ ⟨⟩
    rfl
  | startLocal hp hmu hscan hip =>
    refine Or.inr ⟨rfl, ?_⟩
    rintro _ ⟨⟩
    rfl
  | lookupPrivate hp hip =>
    refine Or.inl ⟨rfl, ?_⟩
    rintro _ ⟨⟩
    exact ⟨_, by rw [hp]; rfl, index_setCountry _ _⟩
  | hit hp hip hget =>
    refine Or.inl ⟨rfl, ?_⟩
    rintro _ ⟨⟩
    exact ⟨_, by rw [hp]; rfl, index_setCountry _ _⟩
  | miss hp hip hget =>
    refine Or.inl ⟨rfl, ?_⟩
    rintro _ ⟨⟩
    exact ⟨_, by rw [hp]; rfl, rfl⟩
  | ask hp hroom =>
    refine Or.inl ⟨rfl, ?_⟩
    rintro _ ⟨⟩
    exact ⟨_, by rw [hp]; rfl, index_setCountry _ _⟩
  | drop hp hfull =>
    refine Or.inl ⟨rfl, ?_⟩
    rintro _ ⟨⟩
    exact ⟨_, by rw [hp]; rfl, index_setCountry _ _⟩
  | keep hp hacc => exact Or.inl ⟨rfl, by rintro _ ⟨⟩⟩
  | reject hp hacc => exact Or.inl ⟨rfl, by rintro _ ⟨⟩⟩
  | tell hp => exact Or.inl ⟨rfl, by rintro _ ⟨⟩⟩
  | _ => exact Or.inl ⟨rfl, fun pkt hpkt => ⟨pkt, hpkt, rfl⟩⟩

/-- A step keeps the history in line with the log. -/
theorem inv_step {a : Server.Action ι} (hs : Inv s l) (h : Step env s a s') :
    Inv s' (l ++ note env s a) := by
  have hlocks := locks_step hs.locks h
  have hcount := counts_step h
  cases h with
  | @keep pkt hp hacc =>
    have hscan := hs.locks.scanning (by rw [hp]; trivial)
    have hnote : note env s .packetLoop = [.kept pkt.index] := by simp [note, hp, hscan, hacc]
    rw [hnote]
    exact hs.kept hp hlocks
  | @clear r f hr hmu =>
    have hnote : note env s (.request r) = [.cleared] := by simp [note, hr]
    rw [hnote]
    exact hs.cleared hlocks
  | update hg => exact hs.silent rfl hlocks (indexes_update _ _) hcount
  | _ => exact hs.silent (by simp [note, *]) hlocks rfl hcount

/-! ### Runs -/

variable {savedOK : LruCache → Prop}

omit [DecidableEq ι] in
theorem indexes_of_empty (h : s.historyBuffer.count = 0) : indexes s = [] := by
  unfold indexes RingBuffer.getAll
  rw [h]
  rfl

/-- In every run the history is in line with the log. -/
theorem inv_of_recorded {x : State ι × List Event}
    (h : ((machine ι env savedOK).recorded (note env)).Reach x) : Inv x.1 x.2 := by
  refine Machine.Reach.invariant (I := fun x : State ι × List Event => Inv x.1 x.2) h ?_ ?_
  · rintro ⟨s, l⟩ ⟨hinit, rfl⟩
    obtain ⟨hcount, -, -, -, -, -, -, hp, -, -, -⟩ := id hinit
    have hreach : (machine ι env savedOK).Reach s := .of_init hinit
    refine ⟨locks_of_reach hreach, ?_, .nil, nofun, ?_⟩
    · show indexes s = ([] : List ℕ).rtake historySize
      rw [indexes_of_empty hcount, List.rtake_nil]
    · rw [hp]
      rintro _ ⟨⟩
  · rintro ⟨s, l⟩ a ⟨s', l'⟩ hs ha
    obtain ⟨hstep, rfl⟩ := Machine.recorded_step.mp ha
    exact inv_step hs (step_of_machine hstep)

/-- **The history.** In every run of the server the history is, by index, the last packets of those that
were decided on while `isScanning` was set, matched the filter in force, and came behind the latest
clear. Indexes increase, also across clears, and a step that is neither such a decision nor a clear
leaves the sequence as it is. -/
theorem history_is_recent_kept (env : Env) (savedOK : LruCache → Prop) (x : State ι × List Event)
    (hx : ((machine ι env savedOK).recorded (note env)).Reach x) :
    indexes x.1 = (sinceClear x.2).rtake historySize ∧
    (indexes x.1).Pairwise (· < ·) ∧
    (everKept x.2).Pairwise (· < ·) ∧
    ∀ a s', (machine ι env savedOK).step x.1 a = some s' → note env x.1 a = [] →
      indexes s' = indexes x.1 := by
  have hinv := inv_of_recorded hx
  refine ⟨hinv.history, ?_, hinv.increasing, fun a s' hstep hquiet => ?_⟩
  · rw [hinv.history]
    exact hinv.increasing.sublist
      ((List.drop_suffix _ _).trans (sinceClear_suffix x.2)).sublist
  · have hnext := inv_step hinv (step_of_machine hstep)
    rw [hquiet, List.append_nil] at hnext
    exact hnext.history.trans hinv.history.symm

/-- A packet is stored, the history is cleared, and a second packet is stored. -/
def keepClearKeep : List (Server.Action Unit) :=
  [.arrive fromPublic, .packetLoop, .packetLoop, .packetLoop, .packetLoop, .packetLoop,
    .open () (some .clear) none, .request (), .request (),
    .arrive fromPublic, .packetLoop, .packetLoop, .packetLoop, .packetLoop, .packetLoop]

theorem keepClearKeep_history : ∃ x : State Unit × List Event,
    ((machine Unit atlas SavedOK).recorded (note atlas)).Reach x ∧
      x.2 = [.kept 1, .cleared, .kept 2] ∧ indexes x.1 = [2] := by
  have hrun : ((machine Unit atlas SavedOK).recorded (note atlas)).Reach
      ((((machine Unit atlas SavedOK).recorded (note atlas)).exec (started, [])
        keepClearKeep).get (by decide)) :=
    Machine.Reach.exec (s := (started, [])) keepClearKeep (.of_init ⟨init_started, rfl⟩) (by simp)
  have hlog : ((((machine Unit atlas SavedOK).recorded (note atlas)).exec (started, [])
      keepClearKeep).get (by decide)).2 = [.kept 1, .cleared, .kept 2] := by decide
  refine ⟨_, hrun, hlog, ?_⟩
  rw [(history_is_recent_kept atlas SavedOK _ hrun).1, hlog]
  exact RingBuffer.rtake_of_length_le (by decide)

end Pacsni.Dashboard.History
