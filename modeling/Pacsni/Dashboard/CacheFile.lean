import Pacsni.Lib.JsonCut
import Pacsni.Dashboard.Unmarshal
import Pacsni.Dashboard.LruMap

/-! # The file of the geo cache

`saveGeoCacheToDisk` writes the map of the cache as a JSON object, and `loadGeoCache` reads it at the
start of the next process. What is read is the map that was written, and of a file that was cut, at
whatever byte, nothing is read. -/

namespace Pacsni.Dashboard.CacheFile

open Pacsni.Lib.Text Pacsni.Lib.Json Pacsni.Lib.JsonRead Pacsni.Lib.Utf8 Pacsni.Lib.Recency
open Pacsni.Dashboard.Lru Pacsni.Dashboard.LruMap

/-! ### The text -/

/-- The escapes of `encoding/json`, which spares no character that has a meaning in HTML, nor the line
separators of JavaScript. -/
def goEscape (c : Char) : Str :=
  if c = '"' then ['\\', '"']
  else if c = '\\' then ['\\', '\\']
  else if c = '\n' then ['\\', 'n']
  else if c = '\r' then ['\\', 'r']
  else if c = '\t' then ['\\', 't']
  else if c.toNat < 0x20 ∨ c = '<' ∨ c = '>' ∨ c = '&' then
    ['\\', 'u', '0', '0', Nat.digitChar (c.toNat / 16), Nat.digitChar (c.toNat % 16)]
  else if c.toNat = 0x2028 ∨ c.toNat = 0x2029 then
    ['\\', 'u', '2', '0', '2', Nat.digitChar (c.toNat % 16)]
  else [c]

theorem escapes_goEscape : Escapes goEscape := by
  intro c
  have hdigit : ∀ i < 16, hexValue (Nat.digitChar i) = some i := by decide
  have hzero : hexValue '0' = some 0 := by decide
  have htwo : hexValue '2' = some 2 := by decide
  unfold goEscape
  split_ifs with h1 h2 h3 h4 h5 h6 h7
  · subst h1
    exact .short (by decide)
  · subst h2
    exact .short (by decide)
  · subst h3
    exact .short (by decide)
  · subst h4
    exact .short (by decide)
  · subst h5
    exact .short (by decide)
  · have hlt : c.toNat < 0x100 := by
      rcases h6 with h | rfl | rfl | rfl
      · omega
      all_goals decide
    exact .unicode hzero hzero (hdigit _ (by omega)) (hdigit _ (by omega)) (by omega)
  · exact .unicode htwo hzero htwo (hdigit _ (by omega)) (by omega)
  · exact .plain (by omega) h1 h2

/-- The entries of a map in the order of their keys. -/
def sorted (m : AList fun _ : Str => Str) : List (Sigma fun _ : Str => Str) :=
  m.entries.mergeSort fun a b => a.1 ≤ b.1

/-- The object for a map. -/
def object (m : AList fun _ : Str => Str) : Node := .obj ((sorted m).map fun e => (e.1, .str e.2))

/-- `json.Marshal` of a map. -/
def marshal (m : AList fun _ : Str => Str) : List UInt8 := utf8 (write goEscape (object m))

/-- `json.Unmarshal` into a map from strings to strings; `none` if it returns an error. A later member
replaces an earlier one of its name. A text with `null` in it is refused here, which Go accepts; no
process writes one. -/
def unmarshal (data : List UInt8) : Option (AList fun _ : Str => Str) :=
  match parse (runes data) with
  | some (.obj ms) => (ms.mapM fun m => (Unmarshal.string m.2).map (Sigma.mk m.1)).map (putAll ∅)
  | _ => none

/-! ### Round trip -/

variable {m : AList fun _ : Str => Str} {data : List UInt8}

theorem value_object (m : AList fun _ : Str => Str) : Value (object m) (write goEscape (object m)) :=
  value_write escapes_goEscape _

theorem marshal_ne_nil (m : AList fun _ : Str => Str) : marshal m ≠ [] := by
  intro hnil
  have h := runes_utf8 (write goEscape (object m))
  rw [show utf8 (write goEscape (object m)) = [] from hnil, runes] at h
  obtain ⟨c, t, hct, -, -⟩ := Value.head (value_object m)
  rw [hct] at h
  cases h

theorem sorted_perm (m : AList fun _ : Str => Str) : (sorted m).Perm m.entries :=
  List.mergeSort_perm _ _

/-- **Round trip.** What is read from a file is the map that was written to it. -/
theorem unmarshal_marshal (m : AList fun _ : Str => Str) :
    ∃ m', unmarshal (marshal m) = some m' ∧ ∀ key, m'.lookup key = m.lookup key := by
  refine ⟨putAll ∅ (sorted m), ?_, fun key => ?_⟩
  · have hread : ((sorted m).map fun e => ((e.1, .str e.2) : Str × Node)).mapM
        (fun x => (Unmarshal.string x.2).map (Sigma.mk x.1)) = some (sorted m) := by
      induction sorted m with
      | nil => rfl
      | cons e es ih =>
        rw [List.map_cons, List.mapM_cons, ih]
        rfl
    unfold unmarshal marshal
    rw [runes_utf8, parse_of_value (value_object m)]
    unfold object
    dsimp only
    rw [hread]
    rfl
  · have hnodup : (sorted m).NodupKeys := (List.perm_nodupKeys (sorted_perm m)).mpr m.nodupKeys
    rw [lookup_putAll _ hnodup, AList.lookup_empty, Option.or_none,
      List.perm_dlookup key hnodup (sorted_perm m)]
    rfl

/-- **Cut files.** Of a file that is cut there is no map. -/
theorem unmarshal_cut (h : data <+: marshal m) (hne : data ≠ marshal m) : unmarshal data = none := by
  unfold unmarshal
  split
  · rename_i ms hparse
    exact absurd (eq_of_parse_runes hparse h (value_object m)) hne
  · rfl

/-! ### Loading -/

/-- The order in which `range` runs through a map; it is another one each time. -/
structure RangeOrder where
  entries : (AList fun _ : Str => Str) → AList fun _ : Str => Str
  lookup_eq : ∀ m key, (entries m).lookup key = m.lookup key

/-- `loadGeoCache`; `none` is a file that is not there. -/
def loadGeoCache (order : RangeOrder) (file : Option (List UInt8)) (c : LruCache) : LruCache :=
  match file.bind unmarshal with
  | some loadedMap => c.load (order.entries loadedMap)
  | none => c

/-- What `saveGeoCacheToDisk` writes. -/
def saveGeoCacheToDisk (c : LruCache) : List UInt8 := marshal c.getAll

/-- The map of a cache. -/
def contents (c : LruCache) (key : Str) : Option Str := (c.get key).2

variable {c : LruCache} {order : RangeOrder}

theorem contents_eq (h : Holds c m) : contents c = fun key => m.lookup key :=
  funext fun key => (holds_get h key).2

theorem contents_get (h : Holds c m) (key : Str) : contents (c.get key).1 = contents c := by
  rw [contents_eq h, contents_eq (holds_get h key).1]
  exact funext fun k => lookup_touch

/-- **The next process.** A file that was written to its end is loaded. -/
theorem load_marshal (order : RangeOrder) (m : AList fun _ : Str => Str) (c : LruCache) :
    ∃ data, loadGeoCache order (some (marshal m)) c = c.load data ∧
      ∀ key, data.lookup key = m.lookup key := by
  obtain ⟨m', hm', hlookup⟩ := unmarshal_marshal m
  refine ⟨order.entries m', ?_, fun key => by rw [order.lookup_eq, hlookup]⟩
  unfold loadGeoCache
  rw [Option.bind_some, hm']

/-- A file that was cut is not. -/
theorem load_cut (h : data <+: marshal m) (hne : data ≠ marshal m) (c : LruCache) :
    loadGeoCache order (some data) c = c := by
  unfold loadGeoCache
  rw [Option.bind_some, unmarshal_cut h hne]

end Pacsni.Dashboard.CacheFile
