import Pacsni.Dashboard.Attribution
import Pacsni.Dashboard.CacheFile

/-! # Restarts

The dashboard from its first start on, over any number of processes. A process ends at any moment, also
while `geoWorker` writes the cache file: `os.WriteFile` truncates the file and then writes it piece by
piece. The next process starts with what it finds. So the cache outlives the processes exactly if the
last save that was begun has also come to its end, and a cache never holds anything but what the
database says. -/

namespace Pacsni.Dashboard.Restart

open Pacsni.Lib.Text Pacsni.Lib.Json Pacsni.Lib.Runs Pacsni.Lib.Recency
open Pacsni.Dashboard.Packet Pacsni.Dashboard.Ring Pacsni.Dashboard.Lru Pacsni.Dashboard.LruMap
open Pacsni.Dashboard.Matching Pacsni.Dashboard.Server Pacsni.Dashboard.Steps
open Pacsni.Dashboard.Attribution (lookup SavedResults)
open Pacsni.Dashboard.Geo (SavedOK cachedCountry)
open Pacsni.Dashboard.CacheFile

/-! ### The machine -/

/-- The capacity of `geoCache`. -/
def cacheCapacity : ℕ := 10000

/-- Where `geoWorker` is in `saveGeoCacheToDisk`. -/
inductive Saving
  | idle
  /-- Before `geoCache.GetAll`. -/
  | called
  /-- Before the file is opened. -/
  | marshalled (data : List UInt8)
  /-- The file is open; `rest` is still to be written. -/
  | writing (rest : List UInt8)

/-- The process that runs, and the file. -/
structure System (ι : Type*) where
  server : State ι
  saving : Saving
  file : Option (List UInt8)

/-- What happens. -/
inductive Act (ι : Type*)
  | server (a : Server.Action ι)
  /-- The next step of a save, up to the opening of the file. -/
  | save
  /-- Some bytes reach the file. -/
  | write (n : ℕ)
  /-- `os.WriteFile` returns an error. -/
  | fail
  /-- The process ends, and the next one starts. -/
  | restart (order : RangeOrder)

theorem historySize_pos : 0 < historySize := by decide

/-- The server behind `loadGeoCache`; the cells of the history hold `zero`. -/
def booted (ι : Type*) (zero : DashboardPacket) (order : RangeOrder) (file : Option (List UInt8)) :
    State ι where
  historyBuffer := RingBuffer.new zero historySize_pos
  isScanning := true
  filter := Filter.empty
  packetCounter := 0
  geoCache := loadGeoCache order file (LruCache.new cacheCapacity)
  geoReqChan := []
  mu := none
  packetLoop := .idle
  geoLoop := .idle
  requests _ := .done
  broadcasts := []

variable {ι : Type*} [DecidableEq ι]

/-- A step of the server. `geoWorker` calls `saveGeoCacheToDisk` behind `geoCache.Add`, and does nothing
else until it is through. -/
def stepServer (env : Env) (x : System ι) (a : Server.Action ι) : Option (System ι) :=
  match a, x.saving with
  | .geoLoop, .idle => (stepGeo env x.server).map fun s => ⟨s, match x.server.geoLoop with
      | .resolved _ _ => .called
      | _ => .idle, x.file⟩
  | .geoLoop, _ => none
  | a, saving => ((Server.machine ι env fun _ => True).step x.server a).map fun s => ⟨s, saving, x.file⟩

/-- The processes. -/
def machine (ι : Type*) [DecidableEq ι] (env : Env) (zero : DashboardPacket) :
    Machine (System ι) (Act ι) where
  init x := ∃ order, x = ⟨booted ι zero order none, .idle, none⟩
  step x
    | .server a => stepServer env x a
    | .save => match x.saving with
      | .called => some { x with saving := .marshalled (saveGeoCacheToDisk x.server.geoCache) }
      | .marshalled data => some { x with saving := .writing data, file := some [] }
      | _ => none
    | .write n => match x.saving with
      | .writing rest => some { x with
          saving := if rest.length ≤ n then .idle else .writing (rest.drop n)
          file := some (x.file.getD [] ++ rest.take n) }
      | _ => none
    | .fail => match x.saving with
      | .marshalled _ => some { x with saving := .idle }
      | .writing _ => some { x with saving := .idle }
      | _ => none
    | .restart order => some ⟨booted ι zero order x.file, .idle, x.file⟩

/-- What a save has come to. -/
inductive Event
  | opened
  | finished (contents : Str → Option Str)

/-- What a step notes: that the file is opened, and that all of it is written, with the map of the cache
at this moment. -/
def note (x : System ι) : Act ι → List Event
  | .save => match x.saving with
    | .marshalled _ => [.opened]
    | _ => []
  | .write n => match x.saving with
    | .writing rest => if rest.length ≤ n then [.finished (contents x.server.geoCache)] else []
    | _ => []
  | _ => []

/-! ### The cache of a process -/

variable {env : Env} {zero : DashboardPacket} {s s' : State ι} {a : Server.Action ι} {c : LruCache}
  {m m' : AList fun _ : Str => Str} {order : RangeOrder}

/-- The map has results of the database only, and not more than the cache has room for. -/
structure Fits (env : Env) (m : AList fun _ : Str => Str) : Prop where
  length_le : m.keys.length ≤ cacheCapacity
  known : ∀ ip value, m.lookup ip = some value → ∃ g, lookup env ip = some g ∧ value = g.text

theorem Fits.empty (env : Env) : Fits env ∅ := ⟨Nat.zero_le _, nofun⟩

theorem Fits.congr (h : Fits env m) (hsame : ∀ ip, m'.lookup ip = m.lookup ip) : Fits env m' := by
  refine ⟨?_, fun ip value hv => h.known ip value ((hsame ip).symm.trans hv)⟩
  have hperm : m'.keys.Perm m.keys := by
    refine (List.perm_ext_iff_of_nodup m'.keys_nodup m.keys_nodup).mpr fun ip => ?_
    show ip ∈ m' ↔ ip ∈ m
    rw [← AList.lookup_isSome, hsame, AList.lookup_isSome]
  rw [hperm.length_eq]
  exact h.length_le

/-- What the cells of the cache hold. -/
def CellOK (env : Env) (value : Str) : Prop := value = [] ∨ ∃ ip g, lookup env ip = some g ∧ value = g.text

/-- The cache holds such a map. -/
structure Trusted (env : Env) (c : LruCache) (m : AList fun _ : Str => Str) : Prop where
  holds : Holds c m
  capacity : c.capacity = cacheCapacity
  fits : Fits env m
  cells : c.AllValues (CellOK env)

theorem trusted_new (env : Env) : Trusted env (LruCache.new cacheCapacity) ∅ :=
  ⟨⟨rfl, fun key e => by simp [LruCache.new], nofun⟩, rfl, .empty env, fun _ => Or.inl rfl⟩

theorem allValues_load {P : Str → Prop} (hc : c.AllValues P)
    (hdata : ∀ ip value, m.lookup ip = some value → P value) : (c.load m).AllValues P := by
  have hfold : ∀ (es : List (Sigma fun _ : Str => Str)) (c : LruCache), c.AllValues P →
      (∀ e ∈ es, P e.2) → (es.foldl (fun c e => c.insertFront e.1 e.2) c).AllValues P := by
    intro es
    induction es with
    | nil => exact fun c hc _ => hc
    | cons e es ih =>
      intro c hc hes
      refine ih _ (fun element => ?_) fun e' he' => hes e' (List.mem_cons_of_mem _ he')
      by_cases he : element = c.next
      · subst he
        simpa [LruCache.insertFront] using hes e List.mem_cons_self
      · simpa [LruCache.insertFront, he] using hc element
  exact hfold m.entries _ hc fun e he => hdata e.1 e.2 (AList.mem_lookup_iff.mpr he)

theorem trusted_load (ht : Trusted env c m) (hf : Fits env m') : ∃ m'', Trusted env (c.load m') m'' ∧
    ∀ ip, m''.lookup ip = m'.lookup ip :=
  ⟨_, ⟨holds_load c m', (capacity_load c m').trans ht.capacity, hf.congr fun ip => lookup_load m' ip,
    allValues_load ht.cells fun ip value hv => by
      obtain ⟨g, hg, rfl⟩ := hf.known ip value hv
      exact Or.inr ⟨ip, g, hg, rfl⟩⟩, fun ip => lookup_load m' ip⟩

theorem Trusted.get (ht : Trusted env c m) (ip : Str) : Trusted env (c.get ip).1 (touch m ip) where
  holds := (holds_get ht.holds ip).1
  capacity := (capacity_call c (.get ip)).trans ht.capacity
  fits := ⟨length_touch.trans_le ht.fits.length_le, fun k value hv =>
    ht.fits.known k value (lookup_touch.symm.trans hv)⟩
  cells := ht.cells.get ip

theorem Trusted.remove (ht : Trusted env c m) (ip : Str) : Trusted env (c.remove ip) (m.erase ip) where
  holds := holds_remove ht.holds ip
  capacity := (capacity_call c (.remove ip)).trans ht.capacity
  fits := by
    refine ⟨length_erase_le.trans ht.fits.length_le, fun k value hv => ht.fits.known k value ?_⟩
    by_cases hk : k = ip
    · rw [hk, AList.lookup_erase] at hv
      cases hv
    · rwa [AList.lookup_erase_ne hk] at hv
  cells := ht.cells.remove ip

theorem Trusted.add (ht : Trusted env c m) {ip : Str} {g : GeoResult} (hg : lookup env ip = some g) :
    Trusted env (c.add ip g.text) (put cacheCapacity m ip g.text) where
  holds := ht.capacity ▸ holds_add ht.holds ip g.text
  capacity := (capacity_call c (.add ip g.text)).trans ht.capacity
  fits := by
    refine ⟨length_put_le (by decide) ht.fits.length_le, fun k value hv => ?_⟩
    by_cases hk : k = ip
    · subst hk
      exact ⟨g, hg, Option.some.inj (hv.symm.trans lookup_put_self)⟩
    · exact ht.fits.known k value (lookup_put_of_ne hk hv)
  cells := ht.cells.add (Or.inr ⟨ip, g, hg, rfl⟩)

/-- Both assumptions about a saved cache are met. -/
theorem Trusted.savedResults (ht : Trusted env c m) : SavedResults env c := by
  have hmem : ∀ ip e, c.cache.lookup ip = some e → e ∈ c.list ∧ (c.entries e).key = ip := fun ip e =>
    (ht.holds.cache ip e).mp
  refine ⟨fun ip e he => (hmem ip e he).2, fun ip e he => ht.fits.known ip _ ?_, fun ip e he =>
    ht.holds.fresh e (hmem ip e he).1⟩
  rw [ht.holds.lookup ip, he]
  rfl

/-- No country is named like the placeholder, and none has a `|` in it. -/
def Named (env : Env) : Prop :=
  ∀ ip g, lookup env ip = some g → g.country ≠ searching ∧ '|' ∉ g.country

theorem Trusted.savedOK (ht : Trusted env c m) (hnamed : Named env) : SavedOK c := by
  intro e
  rcases ht.cells e with hnil | ⟨ip, g, hg, htext⟩
  · rw [hnil]
    decide
  · rw [htext, Geo.cachedCountry_text (hnamed ip g hg).2]
    exact (hnamed ip g hg).1

/-! ### Steps of the server -/

/-- What a step does to the cache. -/
theorem cache_step (h : Step env s a s') :
    s'.geoCache = s.geoCache ∨ (∃ ip, s'.geoCache = (s.geoCache.get ip).1) ∨
      a = .geoLoop ∧ ((∃ ip, s'.geoCache = s.geoCache.remove ip) ∨
        ∃ ip g, s.geoLoop = .resolved ip g ∧ s'.geoCache = s.geoCache.add ip g.text) := by
  cases h with
  | @hit pkt ip cache value hp hip hget => exact Or.inr (Or.inl ⟨ip, by rw [hget]⟩)
  | @miss pkt ip cache hp hip hget => exact Or.inr (Or.inl ⟨ip, by rw [hget]⟩)
  | @unknown ip city hg hdb hcity => exact Or.inr (Or.inr ⟨rfl, Or.inl ⟨ip, rfl⟩⟩)
  | @cache ip g hg => exact Or.inr (Or.inr ⟨rfl, Or.inr ⟨ip, g, hg, rfl⟩⟩)
  | _ => exact Or.inl rfl

/-- What `geoWorker` is going to store is what the database says. -/
def Resolved (env : Env) (s : State ι) : Prop :=
  ∀ ip g, s.geoLoop = .resolved ip g → lookup env ip = some g

theorem resolved_step (h : Step env s a s') (hs : Resolved env s) : Resolved env s' := by
  intro ip g hg'
  cases h with
  | @resolve ip' city record hg hdb hcity =>
    obtain ⟨rfl, rfl⟩ := GeoLoop.resolved.inj hg'
    simp [lookup, hdb, hcity]
  | take | noDB | unknown | cache | update | tellGeo => cases hg'
  | _ => exact hs ip g hg'

theorem trusted_step (h : Step env s a s') (hs : Resolved env s) (ht : Trusted env s.geoCache m) :
    ∃ m', Trusted env s'.geoCache m' := by
  rcases cache_step h with heq | ⟨ip, heq⟩ | ⟨-, ⟨ip, heq⟩ | ⟨ip, g, hg, heq⟩⟩
  all_goals rw [heq]
  · exact ⟨m, ht⟩
  · exact ⟨_, ht.get ip⟩
  · exact ⟨_, ht.remove ip⟩
  · exact ⟨_, ht.add (hs ip g hg)⟩

/-- Only `geoWorker` changes the map. -/
theorem contents_step (h : Step env s a s') (ha : a ≠ .geoLoop) (hc : Holds s.geoCache m) :
    contents s'.geoCache = contents s.geoCache := by
  rcases cache_step h with heq | ⟨ip, heq⟩ | ⟨hgeo, -⟩
  · rw [heq]
  · rw [heq]
    exact contents_get hc ip
  · exact absurd hgeo ha

/-! ### The file -/

/-- What the next process finds. -/
def Loads (env : Env) (file : Option (List UInt8)) (f : Str → Option Str) : Prop :=
  ∀ order, (∃ m, Trusted env (loadGeoCache order file (LruCache.new cacheCapacity)) m) ∧
    contents (loadGeoCache order file (LruCache.new cacheCapacity)) = f

theorem loads_none (env : Env) : Loads env none fun _ => none := fun _ => ⟨⟨∅, trusted_new env⟩, rfl⟩

theorem loads_cut {data : List UInt8} (h : data <+: marshal m) (hne : data ≠ marshal m) :
    Loads env (some data) fun _ => none := by
  intro order
  rw [load_cut h hne]
  exact ⟨⟨∅, trusted_new env⟩, rfl⟩

theorem loads_marshal (hf : Fits env m) : Loads env (some (marshal m)) fun ip => m.lookup ip := by
  intro order
  obtain ⟨data, hload, hdata⟩ := load_marshal order m (LruCache.new cacheCapacity)
  obtain ⟨m', ht, hm'⟩ := trusted_load (trusted_new env) (hf.congr hdata)
  rw [hload]
  refine ⟨⟨m', ht⟩, ?_⟩
  rw [contents_eq ht.holds]
  exact funext fun ip => (hm' ip).trans (hdata ip)

/-- What the events say that the next process finds. -/
def kept (l : List Event) : Str → Option Str :=
  match l.getLast? with
  | some (.finished f) => f
  | _ => fun _ => none

/-- `data` is the text of the cache. -/
def TextOf (env : Env) (c : LruCache) (data : List UInt8) : Prop :=
  ∃ m, data = marshal m ∧ Fits env m ∧ ∀ ip, m.lookup ip = contents c ip

/-- Where a save is, and what is in the file meanwhile. -/
def FileOK (env : Env) (c : LruCache) (file : Option (List UInt8)) (l : List Event) : Saving → Prop
  | .idle => Loads env file (kept l)
  | .called => Loads env file (kept l)
  | .marshalled data => Loads env file (kept l) ∧ TextOf env c data
  | .writing rest => l.getLast? = some .opened ∧ rest ≠ [] ∧
      ∃ written, file = some written ∧ TextOf env c (written ++ rest)

/-- Whatever a save has come to, the next process finds what the events say. -/
theorem FileOK.loads {file : Option (List UInt8)} {l : List Event} {saving : Saving}
    (h : FileOK env c file l saving) : Loads env file (kept l) := by
  cases saving with
  | idle => exact h
  | called => exact h
  | marshalled data => exact h.1
  | writing rest =>
    obtain ⟨hlast, hne, written, rfl, m, hm, -, -⟩ := h
    have hkept : kept l = fun _ => none := by
      unfold kept
      rw [hlast]
    rw [hkept]
    refine loads_cut (hm ▸ List.prefix_append written rest) fun heq => hne ?_
    rw [← hm] at heq
    exact List.self_eq_append_right.mp heq

theorem FileOK.congr {file : Option (List UInt8)} {l : List Event} {saving : Saving} {c' : LruCache}
    (h : FileOK env c file l saving) (hc : contents c' = contents c) : FileOK env c' file l saving := by
  unfold FileOK TextOf at *
  rw [hc]
  exact h

/-! ### Runs -/

/-- The invariant. -/
structure Inv (env : Env) (x : System ι × List Event) : Prop where
  trusted : ∃ m, Trusted env x.1.server.geoCache m
  resolved : Resolved env x.1.server
  reach : (Server.machine ι env fun c => ∃ m, Trusted env c m).Reach x.1.server
  file : FileOK env x.1.server.geoCache x.1.file x.2 x.1.saving

omit [DecidableEq ι] in
theorem booted_init (h : ∃ m, Trusted env (loadGeoCache order file (LruCache.new cacheCapacity)) m) :
    Init (fun c => ∃ m, Trusted env c m) (booted ι zero order file) :=
  ⟨rfl, rfl, rfl, rfl, h, rfl, rfl, rfl, rfl, fun _ => rfl, rfl⟩

/-- A process that starts. -/
theorem inv_booted {file : Option (List UInt8)} {l : List Event} (h : Loads env file (kept l))
    (order : RangeOrder) : Inv env ((⟨booted ι zero order file, .idle, file⟩ : System ι), l) :=
  ⟨(h order).1, nofun, .of_init (booted_init (h order).1), h⟩

theorem inv_server {x : System ι} {l : List Event} (hx : Inv env (x, l)) (ha : a ≠ .geoLoop)
    {s' : State ι} (h : (Server.machine ι env fun _ => True).step x.server a = some s') :
    Inv env (⟨s', x.saving, x.file⟩, l) := by
  have hstep : Step env x.server a s' := step_of_machine h
  obtain ⟨m, ht⟩ := hx.trusted
  exact ⟨trusted_step hstep hx.resolved ht, resolved_step hstep hx.resolved, hx.reach.next trivial h,
    hx.file.congr (contents_step hstep ha ht.holds)⟩

theorem inv_geo {x : System ι} {l : List Event} (hx : Inv env (x, l)) {s' : State ι}
    (h : stepGeo env x.server = some s') {saving : Saving}
    (hsaving : saving = .idle ∨ saving = .called) : Inv env (⟨s', saving, x.file⟩, l) := by
  have hstep := step_of_stepGeo h
  obtain ⟨m, ht⟩ := hx.trusted
  have hfile : Loads env x.file (kept l) := hx.file.loads
  refine ⟨trusted_step hstep hx.resolved ht, resolved_step hstep hx.resolved,
    hx.reach.next (a := .geoLoop) trivial h, ?_⟩
  rcases hsaving with rfl | rfl
  · exact hfile
  · exact hfile

theorem inv_save {x x' : System ι} {l : List Event} (hx : Inv env (x, l))
    (h : (machine ι env zero).step x .save = some x') : Inv env (x', l ++ note x .save) := by
  obtain ⟨ht, hres, hreach, hfile⟩ := hx
  obtain ⟨m, hm⟩ := ht
  obtain ⟨server, saving, file⟩ := x
  cases saving with
  | idle => cases h
  | writing rest => cases h
  | called =>
    obtain rfl := Option.some.inj h
    refine ⟨⟨m, hm⟩, hres, hreach, ?_, server.geoCache.getAll, rfl, ?_, fun ip => ?_⟩
    · rw [note, List.append_nil]
      exact hfile.loads
    · exact hm.fits.congr (lookup_getAll hm.holds)
    · rw [lookup_getAll hm.holds, contents_eq hm.holds]
  | marshalled data =>
    obtain rfl := Option.some.inj h
    obtain ⟨-, m', rfl, hfits, hlookup⟩ := hfile
    exact ⟨⟨m, hm⟩, hres, hreach, List.getLast?_concat, marshal_ne_nil m', [], rfl, m', rfl, hfits,
      hlookup⟩

theorem inv_write {x x' : System ι} {l : List Event} {n : ℕ} (hx : Inv env (x, l))
    (h : (machine ι env zero).step x (.write n) = some x') : Inv env (x', l ++ note x (.write n)) := by
  obtain ⟨ht, hres, hreach, hfile⟩ := hx
  obtain ⟨server, saving, file⟩ := x
  cases saving with
  | idle => cases h
  | called => cases h
  | marshalled data => cases h
  | writing rest =>
    obtain rfl := Option.some.inj h
    obtain ⟨hlast, hne, written, rfl, m, hm, hfits, hlookup⟩ := hfile
    refine ⟨ht, hres, hreach, ?_⟩
    dsimp only [note, Option.getD_some]
    split_ifs with hn
    · -- the file is complete
      have hkept : kept (l ++ [.finished (contents server.geoCache)]) = contents server.geoCache := by
        rw [kept, List.getLast?_concat]
      show Loads env _ _
      rw [hkept, List.take_of_length_le hn, hm, ← funext hlookup]
      exact loads_marshal hfits
    · rw [List.append_nil]
      refine ⟨hlast, ?_, written ++ rest.take n, rfl, m, ?_, hfits, hlookup⟩
      · rw [Ne, List.drop_eq_nil_iff]
        omega
      · rw [List.append_assoc, List.take_append_drop, hm]

/-- A step of the server is one of `geoWorker` outside a save, or one of somebody else. -/
theorem server_cases {x x' : System ι} (h : stepServer env x a = some x') : ∃ s' : State ι,
    (a = .geoLoop ∧ ∃ saving, (saving = .idle ∨ saving = .called) ∧ stepGeo env x.server = some s' ∧
      x' = ⟨s', saving, x.file⟩) ∨
    (a ≠ .geoLoop ∧ (Server.machine ι env fun _ => True).step x.server a = some s' ∧
      x' = ⟨s', x.saving, x.file⟩) := by
  unfold stepServer at h
  split at h
  · obtain ⟨s', hs', rfl⟩ := Option.map_eq_some_iff.mp h
    refine ⟨s', Or.inl ⟨rfl, _, ?_, hs', rfl⟩⟩
    split
    · exact Or.inr rfl
    · exact Or.inl rfl
  · cases h
  · rename_i hgeo _
    obtain ⟨s', hs', rfl⟩ := Option.map_eq_some_iff.mp h
    exact ⟨s', Or.inr ⟨hgeo, hs', rfl⟩⟩

/-- **One step.** -/
theorem inv_step {x : System ι} {l : List Event} {a : Act ι} {x' : System ι} (hx : Inv env (x, l))
    (h : (machine ι env zero).step x a = some x') : Inv env (x', l ++ note x a) := by
  cases a with
  | server a =>
    show Inv env (x', l ++ [])
    rw [List.append_nil]
    obtain ⟨s', ⟨-, saving, hsaving, hstep, rfl⟩ | ⟨ha, hstep, rfl⟩⟩ := server_cases h
    · exact inv_geo hx hstep hsaving
    · exact inv_server hx ha hstep
  | save => exact inv_save hx h
  | write n => exact inv_write hx h
  | fail =>
    show Inv env (x', l ++ [])
    rw [List.append_nil]
    obtain ⟨server, saving, file⟩ := x
    have hfile : Loads env file (kept l) := hx.file.loads
    cases saving with
    | idle => cases h
    | called => cases h
    | marshalled data =>
      obtain rfl := Option.some.inj h
      exact ⟨hx.trusted, hx.resolved, hx.reach, hfile⟩
    | writing rest =>
      obtain rfl := Option.some.inj h
      exact ⟨hx.trusted, hx.resolved, hx.reach, hfile⟩
  | restart order =>
    show Inv env (x', l ++ [])
    rw [List.append_nil]
    obtain rfl := Option.some.inj h
    exact inv_booted hx.file.loads order

theorem inv_of_reach {x : System ι × List Event}
    (h : ((machine ι env zero).recorded note).Reach x) : Inv env x := by
  refine Machine.Reach.invariant h ?_ ?_
  · rintro ⟨x, l⟩ ⟨⟨order, rfl⟩, rfl⟩
    exact inv_booted (loads_none env) order
  · rintro ⟨x, l⟩ a ⟨x', l'⟩ hx ha
    obtain ⟨hstep, rfl⟩ := Machine.recorded_step.mp ha
    exact inv_step hx hstep

/-- What is assumed of the cache of the first state matters there only. -/
theorem reach_mono {P Q : LruCache → Prop} (hPQ : ∀ c, P c → Q c)
    (h : (Server.machine ι env P).Reach s) : (Server.machine ι env Q).Reach s := by
  obtain ⟨s₀, ⟨h1, h2, h3, h4, h5, hrest⟩, hrun⟩ := h
  exact ⟨s₀, ⟨h1, h2, h3, h4, hPQ _ h5, hrest⟩, hrun⟩

/-- **The cache over restarts.** Every process is a run of the server from a cache as the results about
such runs assume it. Its cache has results of the database only, and not more than it has room for. A
process that starts now, be it in the middle of a save, has the map that was cached when the last save
came to its end, and an empty one if another save was begun behind it. -/
theorem cache_over_restarts (env : Env) (zero : DashboardPacket) (x : System ι) (l : List Event)
    (h : ((machine ι env zero).recorded note).Reach (x, l)) :
    (Server.machine ι env (SavedResults env)).Reach x.server ∧
      (Named env → (Server.machine ι env SavedOK).Reach x.server) ∧
      (∀ ip value, contents x.server.geoCache ip = some value →
        ∃ g, lookup env ip = some g ∧ value = g.text) ∧
      x.server.geoCache.list.length ≤ cacheCapacity ∧
      ∀ order, contents (booted ι zero order x.file).geoCache = kept l := by
  have hx := inv_of_reach h
  obtain ⟨m, hm⟩ := hx.trusted
  refine ⟨reach_mono ?_ hx.reach, fun hnamed => reach_mono ?_ hx.reach, fun ip value hv => ?_, ?_,
    fun order => (hx.file.loads order).2⟩
  · rintro c ⟨m, hm⟩
    exact hm.savedResults
  · rintro c ⟨m, hm⟩
    exact hm.savedOK hnamed
  · rw [contents_eq hm.holds] at hv
    exact hm.fits.known ip value hv
  · rw [hm.holds.length]
    exact hm.fits.length_le

/-- The entries as they stand. -/
def plainOrder : RangeOrder := ⟨id, fun _ _ => rfl⟩

/-- The process ends where the file of the first entry has just been opened. -/
def cutSave : List (Act Unit) :=
  (Geo.storedFirst.take 9).map .server ++ [.save, .save, .restart plainOrder]

/-- The first process. -/
def firstStart : System Unit :=
  ⟨booted Unit (received Geo.fromPublic) plainOrder none, .idle, none⟩

theorem cache_over_restarts_cutSave : ∃ x : System Unit, ∃ l : List Event, kept l = (fun _ => none) ∧
    (Server.machine Unit Geo.atlas (SavedResults Geo.atlas)).Reach x.server ∧
      (Named Geo.atlas → (Server.machine Unit Geo.atlas SavedOK).Reach x.server) ∧
      (∀ ip value, contents x.server.geoCache ip = some value →
        ∃ g, lookup Geo.atlas ip = some g ∧ value = g.text) ∧
      x.server.geoCache.list.length ≤ cacheCapacity ∧
      ∀ order, contents (booted Unit (received Geo.fromPublic) order x.file).geoCache = kept l :=
  have hrun : ((machine Unit Geo.atlas (received Geo.fromPublic)).recorded note).Reach
      ((((machine Unit Geo.atlas (received Geo.fromPublic)).recorded note).exec (firstStart, [])
        cutSave).get (by decide)) :=
    Machine.Reach.exec (s := (firstStart, [])) cutSave
      (Machine.ReachVia.of_init ⟨⟨plainOrder, rfl⟩, rfl⟩) (by simp)
  ⟨_, _, rfl, cache_over_restarts Geo.atlas (received Geo.fromPublic) _ _ hrun⟩

end Pacsni.Dashboard.Restart
