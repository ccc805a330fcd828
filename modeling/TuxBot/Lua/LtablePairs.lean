import TuxBot.Lua.LtableNext
import TuxBot.Lua.Table

/-! Tables whose keys are strings: they hold what the map holds that their assignments make, and a loop
over `pairs` takes its entries in some order. -/
namespace TuxBot.Lua.Ltable

/-- The keys of such a table, and the integers, which all tables can be asked for. -/
inductive StringKey where
  | int (z : Int)
  | string (str : Bytes)
  deriving DecidableEq

/-- The loop of `luaS_newlstr`, with the bytes before `l1` to go. -/
def hashLoop (str : Bytes) (step : Nat) : Nat → Nat → UInt32 → UInt32
  | 0, _, h => h
  | fuel + 1, l1, h =>
    if step ≤ l1 then
      hashLoop str step fuel (l1 - step)
        (h ^^^ ((h <<< 5) + (h >>> 2) + (str.getD (l1 - 1) 0).toUInt32))
    else h

/-- Not all bytes of a long string are hashed. -/
def hashstr (str : Bytes) : Nat :=
  (hashLoop str (str.length / 32 + 1) str.length str.length (UInt32.ofNat str.length)).toNat

instance : Key StringKey where
  hash
    | .int z => Key.hash z
    | .string str => .pow2 (hashstr str)
  toInt
    | .int z => Key.toInt z
    | .string _ => none
  ofInt z := .int z
  collectable
    | .int _ => false
    | .string _ => true
  toInt_ofInt := Key.toInt_ofInt (K := Int)
  ofInt_of_toInt {k i} h := by
    cases k with
    | int z => exact congrArg StringKey.int (Key.ofInt_of_toInt h)
    | string str => cases h

/-- What is done to a table with string keys, by the program and by the collector. -/
inductive StringOp (V : Type) where
  | set (key : Bytes) (w : Option V)
  | traverse

variable {V : Type}

def StringOp.op : StringOp V → Op StringKey V
  | .set key w => .set (.key (.string key)) w
  | .traverse => .traverse

def StringOp.apply (m : Lua.Table V) : StringOp V → Lua.Table V
  | .set key w => m.rawset key w
  | .traverse => m

/-- The map that assignments to an empty table make. -/
def stored (ops : List (StringOp V)) : Lua.Table V := ops.foldl StringOp.apply ∅

/-- An entry of the map as the table has it. -/
def entry (p : Bytes × V) : StringKey × V := (.string p.1, p.2)

/-- The values under the strings are those of the map, and there are no others. -/
structure Holds (t : Table StringKey V) (m : Lua.Table V) : Prop where
  sound : t.Sound
  string : ∀ key, t.lookup (.string key) = m.lookup key
  int : ∀ z, t.lookup (.int z) = none

variable {t t' : Table StringKey V} {m : Lua.Table V} {v : V} {op : StringOp V}
  {ops : List (StringOp V)}

namespace Holds

theorem assign (h : Holds t m) (hstep : step t op.op = .ok t') : Holds t' (op.apply m) := by
  have hvalid : op.op.Valid := by cases op <;> trivial
  rcases h.sound.step hvalid with ⟨e, herror, -⟩ | ⟨u, hok, hsteps⟩
  · rw [hstep] at herror
    cases herror
  obtain rfl := Except.ok.inj (hstep.symm.trans hok)
  cases op with
  | traverse =>
    refine ⟨hsteps.sound, fun key => ?_, fun z => ?_⟩
    · exact (congrFun hsteps.lookup _).trans (h.string key)
    · exact (congrFun hsteps.lookup _).trans (h.int z)
  | set key w =>
    refine ⟨hsteps.sound, fun key' => ?_, fun z => ?_⟩
    · rw [hsteps.lookup, StringOp.op, Op.apply, Function.update_apply, h.string, StringOp.apply,
        Lua.Table.lookup_rawset]
      simp only [StringKey.string.injEq]
    · rw [hsteps.lookup, StringOp.op, Op.apply, Function.update_of_ne (by simp)]
      exact h.int z

theorem run (h : Holds t m) (hrun : Ltable.run (ops.map StringOp.op) t = .ok t') :
    Holds t' (ops.foldl StringOp.apply m) := by
  induction ops generalizing t m with
  | nil =>
    obtain rfl := Except.ok.inj hrun
    exact h
  | cons op ops ih =>
    rw [List.map_cons, Ltable.run] at hrun
    cases hstep : step t op.op with
    | error e =>
      rw [hstep] at hrun
      cases hrun
    | ok u =>
      rw [hstep] at hrun
      exact ih (h.assign hstep) hrun

theorem lookup_eq_some (h : Holds t m) {k : StringKey} :
    t.lookup k = some v ↔ ∃ key, k = .string key ∧ m.lookup key = some v := by
  cases k with
  | int z => simp [h.int z]
  | string key => simp [h.string key]

/-- The elements are the entries of the map, in whatever order. -/
theorem perm (h : Holds t m) {visited : List (StringKey × V)} (hnodup : (visited.map Prod.fst).Nodup)
    (hmem : ∀ k v, (k, v) ∈ visited ↔ t.lookup k = some v) : visited.Perm (m.pairs.map entry) := by
  have hpairs : m.pairs.Nodup := List.Nodup.of_map _ m.nodup_pairs
  have hentries : (m.pairs.map entry).Nodup := by
    refine hpairs.map fun p q hpq => ?_
    simpa [entry, Prod.ext_iff] using hpq
  refine (List.perm_ext_iff_of_nodup (List.Nodup.of_map _ hnodup) hentries).mpr fun p => ?_
  rw [hmem, h.lookup_eq_some, List.mem_map]
  constructor
  · rintro ⟨key, hkey, hv⟩
    exact ⟨(key, p.2), Lua.Table.mem_pairs.mpr hv, Prod.ext hkey.symm rfl⟩
  · rintro ⟨q, hq, rfl⟩
    exact ⟨q.1, rfl, Lua.Table.mem_pairs.mp hq⟩

end Holds

/-! ### Loops -/

theorem holds_new : Holds (⟨[], 0, [], 0⟩ : Table StringKey V) ∅ := by
  obtain ⟨hsound, hlookup⟩ := Table.sound_new
    (show Table.luaH_new 0 0 = .ok (⟨[], 0, [], 0⟩ : Table StringKey V) from rfl) (Nat.zero_le _)
  refine ⟨hsound, fun key => ?_, fun z => ?_⟩
  · rw [hlookup]
    rfl
  · rw [hlookup]

/-- What a loop makes of the fields: `f` of the key and the value. -/
def updating (f : Bytes → V → V) : StringKey → V → Option V
  | .string key, v => some (f key v)
  | .int _, v => some v

/-- A loop over `pairs` takes the entries of the map that the assignments have made, each once. -/
theorem pairs_of_traversal (hrun : run (ops.map StringOp.op) ⟨[], 0, [], 0⟩ = .ok t) :
    ∃ visited, traversal (fun _ _ t => t) (t.size + 1) t .nil = .ok (visited, t) ∧
      visited.Perm ((stored ops).pairs.map entry) := by
  have h : Holds t (stored ops) := holds_new.run hrun
  obtain ⟨visited, htraversal, hnodup, hmem⟩ := h.sound.traversal_elements
  exact ⟨visited, htraversal, h.perm hnodup hmem⟩

/-- Three keys, one of which is cleared before a fourth comes. -/
def networks : List (StringOp Nat) :=
  [.set "OFTC" (some 1), .set "EsperNet" (some 2), .set "freenode" (some 3), .set "OFTC" none,
    .traverse, .set "tux" (some 4)]

theorem run_networks : ∃ t, run (networks.map StringOp.op) ⟨[], 0, [], 0⟩ = .ok t := by
  have hok : (run (networks.map StringOp.op) ⟨[], 0, [], 0⟩).isOk = true := by decide +kernel
  cases hrun : run (networks.map StringOp.op) ⟨[], 0, [], 0⟩ with
  | error e =>
    rw [hrun] at hok
    cases hok
  | ok t => exact ⟨t, rfl⟩

theorem pairs_of_traversal_networks : ∃ t visited,
    run (networks.map StringOp.op) ⟨[], 0, [], 0⟩ = .ok t ∧
      traversal (fun _ _ t => t) (t.size + 1) t .nil = .ok (visited, t) ∧
      visited.Perm ((stored networks).pairs.map entry) := by
  obtain ⟨t, hrun⟩ := run_networks
  obtain ⟨visited, hvisited⟩ := pairs_of_traversal hrun
  exact ⟨t, visited, hrun, hvisited⟩

/-- So does a loop that updates every value, and it leaves the map with the new ones. -/
theorem mapVals_of_traversal (hrun : run (ops.map StringOp.op) ⟨[], 0, [], 0⟩ = .ok t)
    (f : Bytes → V → V) :
    ∃ visited t', traversal (assigning (updating f)) (t.size + 1) t .nil = .ok (visited, t') ∧
      visited.Perm ((stored ops).pairs.map entry) ∧ Holds t' ((stored ops).mapVals f) := by
  have h : Holds t (stored ops) := holds_new.run hrun
  obtain ⟨visited, t', htraversal, hsound, hnodup, hmem, hlookup⟩ :=
    h.sound.traversal_assigning (updating f)
  refine ⟨visited, t', htraversal, h.perm hnodup hmem, hsound, fun key => ?_, fun z => ?_⟩
  · rw [hlookup, h.string, Lua.Table.lookup_mapVals]
    cases (stored ops).lookup key <;> rfl
  · rw [hlookup, h.int]
    rfl

theorem mapVals_of_traversal_networks : ∃ t visited t',
    run (networks.map StringOp.op) ⟨[], 0, [], 0⟩ = .ok t ∧
      traversal (assigning (updating fun _ n => n + 1)) (t.size + 1) t .nil = .ok (visited, t') ∧
      visited.Perm ((stored networks).pairs.map entry) ∧
      Holds t' ((stored networks).mapVals fun _ n => n + 1) := by
  obtain ⟨t, hrun⟩ := run_networks
  obtain ⟨visited, t', hvisited⟩ := mapVals_of_traversal hrun fun _ n => n + 1
  exact ⟨t, visited, t', hrun, hvisited⟩

end TuxBot.Lua.Ltable
