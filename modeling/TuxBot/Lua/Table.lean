import Mathlib.Data.List.AList
import Mathlib.Data.List.Induction
import TuxBot.Lua.Bytes

/-! Lua tables with string keys, read and written through a metatable that folds the keys. -/
namespace TuxBot.Lua

/-- The raw table: what is stored under each key, in some order. -/
abbrev Table (V : Type) := AList fun _ : Bytes => V

namespace Table

variable {V W : Type} {fold : Bytes → Bytes} {t : Table V} {key x : Bytes} {v : V}

def get (fold : Bytes → Bytes) (t : Table V) (key : Bytes) : Option V := t.lookup (fold key)

def set (fold : Bytes → Bytes) (t : Table V) (key : Bytes) (v : V) : Table V :=
  t.insert (fold key) v

/-- `t[key] = nil` -/
def remove (fold : Bytes → Bytes) (t : Table V) (key : Bytes) : Table V := t.erase (fold key)

/-- `rawset`, where nil removes the key. -/
def rawset (t : Table V) (key : Bytes) : Option V → Table V
  | none => t.erase key
  | some v => t.insert key v

/-- A loop over `pairs` that updates every value. -/
def mapVals (f : Bytes → V → W) (t : Table V) : Table W :=
  ⟨t.entries.map (.map id f), List.NodupKeys.map₂ f t.entries t.nodupKeys⟩

/-- The keys and values, in some order. -/
def pairs (t : Table V) : List (Bytes × V) := t.entries.map fun e => (e.1, e.2)

/-- The table that the pairs make, one after another. -/
def ofPairs (ps : List (Bytes × V)) : Table V := ps.foldl (fun t p => t.insert p.1 p.2) ∅

theorem lookup_insert : (t.insert key v).lookup x = if x = key then some v else t.lookup x := by
  by_cases hx : x = key
  · subst hx
    simp
  · simp [hx]

theorem lookup_erase : (t.erase key).lookup x = if x = key then none else t.lookup x := by
  by_cases hx : x = key
  · subst hx
    simp
  · simp [hx]

theorem lookup_rawset {w : Option V} :
    (rawset t key w).lookup x = if x = key then w else t.lookup x := by
  cases w with
  | none => exact lookup_erase
  | some v => exact lookup_insert

theorem lookup_set : (set fold t key v).lookup x = if x = fold key then some v else t.lookup x :=
  lookup_insert

theorem lookup_remove : (remove fold t key).lookup x = if x = fold key then none else t.lookup x :=
  lookup_erase

theorem lookup_mapVals (f : Bytes → V → W) : (mapVals f t).lookup x = (t.lookup x).map (f x) :=
  List.dlookup_map₂ x

theorem mem_pairs : (key, v) ∈ t.pairs ↔ t.lookup key = some v := by
  simp only [pairs, List.mem_map, Prod.mk.injEq]
  constructor
  · rintro ⟨e, he, rfl, rfl⟩
    exact AList.mem_lookup_iff.mpr he
  · intro h
    exact ⟨⟨key, v⟩, AList.mem_lookup_iff.mp h, rfl, rfl⟩

theorem nodup_pairs (t : Table V) : (t.pairs.map Prod.fst).Nodup := by
  have hkeys := t.keys_nodup
  rwa [AList.keys, List.keys, ← show (t.pairs.map Prod.fst) = t.entries.map Sigma.fst by
    simp [pairs, Function.comp_def]] at hkeys

theorem lookup_ofPairs_snoc {ps : List (Bytes × V)} {p : Bytes × V} :
    (ofPairs (ps ++ [p])).lookup x = if x = p.1 then some p.2 else (ofPairs ps).lookup x := by
  rw [ofPairs, List.foldl_append, List.foldl_cons, List.foldl_nil, lookup_insert, ofPairs]

theorem mem_of_lookup_ofPairs {ps : List (Bytes × V)} (h : (ofPairs ps).lookup x = some v) :
    (x, v) ∈ ps := by
  induction ps using List.reverseRecOn with
  | nil => cases h
  | append_singleton ps p ih =>
    rw [lookup_ofPairs_snoc] at h
    split at h
    · rename_i hx
      cases h
      simp [hx]
    · exact List.mem_append_left _ (ih h)

/-- With one pair for each key, every pair is found. -/
theorem lookup_ofPairs {ps : List (Bytes × V)} (hnodup : (ps.map Prod.fst).Nodup) :
    (ofPairs ps).lookup x = some v ↔ (x, v) ∈ ps := by
  refine ⟨mem_of_lookup_ofPairs, fun h => ?_⟩
  induction ps using List.reverseRecOn with
  | nil => cases h
  | append_singleton ps p ih =>
    rw [List.map_append, List.nodup_append'] at hnodup
    obtain ⟨hnodup, -, hdisjoint⟩ := hnodup
    rw [lookup_ofPairs_snoc]
    rcases List.mem_append.mp h with h | h
    · have hne : x ≠ p.1 := by
        rintro rfl
        exact hdisjoint (List.mem_map_of_mem h) (by simp)
      rw [if_neg hne]
      exact ih hnodup h
    · obtain rfl := List.mem_singleton.mp h
      exact if_pos rfl

end Table

end TuxBot.Lua
