import TuxBot.Lua.LtableNewkey

/-! What a table says of a key, and what an assignment changes of it. -/
namespace TuxBot.Lua.Ltable.Table

variable {K V : Type} [Key K] [DecidableEq K] {t t' : Table K V} {k k' : K} {v : V} {w : Option V}
  {i j : Nat} {slot : Slot}

/-- The slot of the array part that a key belongs to. -/
def arrayslot (t : Table K V) (k : K) : Option Nat :=
  match Key.toInt k with
  | some z => if 1 ≤ z ∧ z ≤ t.array.length then some (z - 1).toNat else none
  | none => none

/-- The value under a key. -/
def lookup (t : Table K V) (k : K) : Option V := (t.luaH_get (.key k)).bind t.value

omit [DecidableEq K] in
theorem arrayslot_eq_some :
    t.arrayslot k = some i ↔ Key.toInt k = some (i + 1 : Int) ∧ i < t.array.length := by
  rw [arrayslot]
  cases hz : Key.toInt k with
  | none => simp
  | some z =>
    dsimp only
    split
    · simp only [Option.some.injEq]
      omega
    · simp only [Option.some.injEq, reduceCtorEq, false_iff]
      omega

omit [DecidableEq K] in
theorem arrayslot_eq_none :
    t.arrayslot k = none ↔ ∀ z, Key.toInt k = some z → ¬ (1 ≤ z ∧ z ≤ t.array.length) := by
  rw [arrayslot]
  cases hz : Key.toInt k with
  | none => simp
  | some z =>
    dsimp only
    split <;> simp_all

omit [DecidableEq K] in
theorem arrayslot_inj (hi : t.arrayslot k = some i) (hj : t.arrayslot k' = some i) : k = k' := by
  rw [← Key.ofInt_of_toInt (arrayslot_eq_some.mp hi).1,
    ← Key.ofInt_of_toInt (arrayslot_eq_some.mp hj).1]

omit [DecidableEq K] in
theorem arrayslot_congr (h : t'.array.length = t.array.length) (k : K) :
    t'.arrayslot k = t.arrayslot k := by
  rw [arrayslot, arrayslot, h]

theorem luaH_get_eq (t : Table K V) (k : K) : t.luaH_get (.key k) =
    match t.arrayslot k with
    | some i => some (.array i)
    | none => (t.search k).map .node := by
  rw [luaH_get, arrayslot]
  cases hz : Key.toInt k with
  | none => rfl
  | some z =>
    dsimp only
    rw [luaH_getnum, Key.ofInt_of_toInt hz]
    split <;> rfl

theorem luaH_getnum_eq (t : Table K V) {z : Int} (hlow : -2 ^ 31 ≤ z) (hhigh : z < 2 ^ 31) :
    t.luaH_getnum z = t.luaH_get (.key (Key.ofInt z)) := by
  rw [luaH_get, Key.toInt_ofInt z hlow hhigh]

theorem luaH_get_array (h : t.arrayslot k = some i) : t.luaH_get (.key k) = some (.array i) := by
  rw [luaH_get_eq, h]

theorem lookup_array (h : t.arrayslot k = some i) : t.lookup k = t.array.getD i none := by
  rw [lookup, luaH_get_array h]
  rfl

namespace Sound

theorem luaH_get_node (h : t.Sound) (hi : t.Holds k i) : t.luaH_get (.key k) = some (.node i) := by
  rw [luaH_get_eq, arrayslot_eq_none.mpr (h.outside hi), h.search_eq_some.mpr hi]
  rfl

/-- Where the slot of a key is. -/
theorem luaH_get_cases (h : t.Sound) :
    (∃ i, t.arrayslot k = some i ∧ t.luaH_get (.key k) = some (.array i)) ∨
      (∃ i, t.Holds k i ∧ t.luaH_get (.key k) = some (.node i)) ∨
        t.Fresh k ∧ t.luaH_get (.key k) = none := by
  cases hslot : t.arrayslot k with
  | some i => exact Or.inl ⟨i, rfl, luaH_get_array hslot⟩
  | none =>
    cases hsearch : t.search k with
    | some i =>
      have hi := h.search_eq_some.mp hsearch
      exact Or.inr (Or.inl ⟨i, hi, h.luaH_get_node hi⟩)
    | none =>
      refine Or.inr (Or.inr ⟨⟨h.search_eq_none.mp hsearch, arrayslot_eq_none.mp hslot⟩, ?_⟩)
      rw [luaH_get_eq, hslot, hsearch]
      rfl

theorem lookup_node (h : t.Sound) (hslot : t.arrayslot k = none) :
    t.lookup k = some v ↔ t.Keeps k v := by
  constructor
  · intro hv
    rcases h.luaH_get_cases (k := k) with ⟨i, hi, -⟩ | ⟨i, hi, hget⟩ | ⟨-, hget⟩
    · rw [hslot] at hi
      cases hi
    · rw [lookup, hget] at hv
      exact ⟨i, hi, hv⟩
    · rw [lookup, hget] at hv
      cases hv
  · rintro ⟨i, hi, hv⟩
    rw [lookup, h.luaH_get_node hi]
    exact hv

/-- An invariant that speaks of keys and links only: keys may die that have no value. -/
theorem congr (h : t.Sound) (harray : t'.array.length = t.array.length)
    (hlength : t'.node.length = t.node.length) (hlsize : t'.lsizenode = t.lsizenode)
    (hlast : t'.lastfree = t.lastfree) (hnext : ∀ i, t'.gnext i = t.gnext i)
    (hkey : ∀ i, (t'.gnode i).key = (t.gnode i).key ∨
      ∃ k, t.Holds k i ∧ (t'.gnode i).key = .dead k)
    (hval : ∀ {i v}, (t'.gnode i).val = some v → ∃ k, t'.Holds k i) : t'.Sound := by
  have hgnext : t'.gnext = t.gnext := funext hnext
  have hheld {k : K} {i : Nat} (hi : t'.Holds k i) : t.Holds k i := by
    rcases hkey i with heq | ⟨k', -, hdead⟩
    · rwa [Holds, ← heq]
    · rw [Holds, hdead] at hi
      cases hi
  have hused {i : Nat} (hi : (t.gnode i).key ≠ .nil) : (t'.gnode i).key ≠ .nil := by
    rcases hkey i with heq | ⟨k', -, hdead⟩
    · rwa [heq]
    · simp [hdead]
  have hsame (k : K) (i : Nat) : samekey k (t'.gnode i) = samekey k (t.gnode i) := by
    rcases hkey i with heq | ⟨k', hold, hdead⟩
    · rw [samekey, samekey, heq]
    · rw [Holds] at hold
      simp [samekey, hold, hdead]
  have hmain (k : K) : t'.mainposition k = t.mainposition k := by
    rw [mainposition, mainposition, sizenode, sizenode, hlsize]
  exact
    { ends := hgnext ▸ h.ends
      used := fun hlink => hused (h.used (hgnext ▸ hlink))
      unshared := hgnext ▸ h.unshared
      asize := harray ▸ h.asize
      lsize := hlsize ▸ h.lsize
      size := by
        rw [← List.length_eq_zero_iff, hlength, List.length_eq_zero_iff, sizenode, hlsize]
        exact h.size
      last := by rw [hlast, hlength]; exact h.last
      free := fun i hi hlt => hused (h.free i (hlast ▸ hi) (hlength ▸ hlt))
      keyed := hval
      outside := fun {k i} hi => by
        rw [harray]
        exact h.outside (hheld hi)
      home := fun {k i} hi => by
        rw [hmain]
        refine ⟨hused (h.home (hheld hi)).1, fun k' hk' => ?_⟩
        rw [hmain]
        exact (h.home (hheld hi)).2 k' (hheld hk')
      found := fun {k i} hi l hl => by
        rw [hmain, hgnext] at hl
        simp only [hsame]
        exact h.found (hheld hi) l hl }

end Sound

/-! ### Writing into a slot -/

/-- What a write into the slot of a key does. -/
structure Writes (t : Table K V) (k : K) (w : Option V) (t' : Table K V) : Prop where
  sound : t'.Sound
  lookup : ∀ k', t'.lookup k' = if k' = k then w else t.lookup k'
  array : t'.array.length = t.array.length
  length : t'.node.length = t.node.length
  room : t'.room = t.room

omit [Key K] in
theorem room_congr (hlength : t'.node.length = t.node.length)
    (hkey : ∀ i, (t'.gnode i).key = .nil ↔ (t.gnode i).key = .nil) : t'.room = t.room := by
  have hmap (t : Table K V) : t.room =
      (List.range t.node.length).countP fun i => decide ((t.gnode i).key = .nil) := by
    have hnode : t.node = (List.range t.node.length).map t.gnode := by
      refine List.ext_getElem (by simp) fun i hi _ => ?_
      rw [List.getElem_map, List.getElem_range, gnode_eq_getElem hi]
    conv_lhs => rw [room, hnode, List.countP_map]
    rfl
  rw [hmap, hmap, hlength]
  exact List.countP_congr fun i _ => by simp [hkey]

theorem Sound.writes_array (h : t.Sound) (hslot : t.arrayslot k = some i) (w : Option V) :
    Writes t k w (t.setvalue (.array i) w) := by
  have hlength : (t.setvalue (.array i) w).array.length = t.array.length := List.length_set
  have hsound : (t.setvalue (.array i) w).Sound :=
    h.congr hlength rfl rfl rfl (fun _ => rfl) (fun _ => Or.inl rfl) h.keyed
  refine ⟨hsound, fun k' => ?_, hlength, rfl, rfl⟩
  have hcongr := arrayslot_congr hlength k'
  cases hslot' : t.arrayslot k' with
  | some j =>
    rw [lookup_array (hcongr.trans hslot'), lookup_array hslot', setvalue, List.getD_eq_getElem?_getD,
      List.getElem?_set]
    by_cases hij : i = j
    · subst hij
      rw [if_pos rfl, if_pos (arrayslot_eq_some.mp hslot).2, if_pos (arrayslot_inj hslot' hslot),
        Option.getD_some]
    · have hne : k' ≠ k := by
        rintro rfl
        exact hij (Option.some.inj (hslot.symm.trans hslot'))
      rw [if_neg hij, if_neg hne, List.getD_eq_getElem?_getD]
  | none =>
    have hne : k' ≠ k := by
      rintro rfl
      rw [hslot] at hslot'
      cases hslot'
    rw [if_neg hne]
    refine Option.ext fun v => ?_
    rw [hsound.lookup_node (hcongr.trans hslot'), h.lookup_node hslot']
    rfl

omit [Key K] [DecidableEq K] in
/-- A write leaves the keys and the links alone. -/
theorem gnode_setvalue (t : Table K V) (slot : Slot) (w : Option V) (j : Nat) :
    ((t.setvalue slot w).gnode j).key = (t.gnode j).key ∧
      ((t.setvalue slot w).gnode j).next = (t.gnode j).next := by
  cases slot with
  | array i => exact ⟨rfl, rfl⟩
  | node i =>
    rw [setvalue]
    by_cases hi : i < t.node.length
    · rw [gnode_setnode hi]
      split
      · rename_i hj
        rw [hj]
        exact ⟨rfl, rfl⟩
      · exact ⟨rfl, rfl⟩
    · rw [setnode, List.set_eq_of_length_le (Nat.le_of_not_lt hi)]
      exact ⟨rfl, rfl⟩

theorem Sound.writes_node (h : t.Sound) (hi : t.Holds k i) (w : Option V) :
    Writes t k w (t.setvalue (.node i) w) := by
  have hlt := lt_of_key_ne hi.ne_nil
  generalize ht' : t.setvalue (.node i) w = t'
  have hgnode (j : Nat) : t'.gnode j = if j = i then { t.gnode i with val := w } else t.gnode j := by
    rw [← ht', setvalue, gnode_setnode hlt]
  have hkey (j : Nat) : (t'.gnode j).key = (t.gnode j).key := ht' ▸ (gnode_setvalue t _ w j).1
  have hnext (j : Nat) : t'.gnext j = t.gnext j := ht' ▸ (gnode_setvalue t _ w j).2
  have hval {j : Nat} (hj : j ≠ i) : (t'.gnode j).val = (t.gnode j).val := by rw [hgnode, if_neg hj]
  have harray : t'.array = t.array := by rw [← ht']; rfl
  have hlength : t'.node.length = t.node.length := by rw [← ht', setvalue, length_setnode]
  have hsound : t'.Sound := by
    refine h.congr (by rw [harray]) hlength (by rw [← ht']; rfl) (by rw [← ht']; rfl) hnext
      (fun j => Or.inl (hkey j)) fun {j v} hv => ?_
    by_cases hj : j = i
    · exact ⟨k, by rwa [Holds, hkey, hj]⟩
    · obtain ⟨k', hk'⟩ := h.keyed ((hval hj).symm.trans hv)
      exact ⟨k', by rwa [Holds, hkey]⟩
  refine ⟨hsound, fun k' => ?_, by rw [harray], hlength, room_congr hlength fun j => by rw [hkey]⟩
  have hcongr : t'.arrayslot k' = t.arrayslot k' := arrayslot_congr (by rw [harray]) k'
  cases hslot : t.arrayslot k' with
  | some j =>
    have hne : k' ≠ k := by
      rintro rfl
      rw [arrayslot_eq_none.mpr (h.outside hi)] at hslot
      cases hslot
    rw [lookup_array (hcongr.trans hslot), lookup_array hslot, if_neg hne, harray]
  | none =>
    refine Option.ext fun v => ?_
    rw [hsound.lookup_node (hcongr.trans hslot)]
    by_cases hk : k' = k
    · subst hk
      rw [if_pos rfl]
      constructor
      · rintro ⟨j, hj, hv⟩
        rw [Holds, hkey] at hj
        rwa [h.holds_unique hj hi, hgnode, if_pos rfl] at hv
      · intro hv
        exact ⟨i, by rwa [Holds, hkey], by rwa [hgnode, if_pos rfl]⟩
    · rw [if_neg hk, h.lookup_node hslot]
      have hother {j : Nat} (hj : t.Holds k' j) : j ≠ i := by
        rintro rfl
        exact hk (hj.key_eq hi)
      constructor
      · rintro ⟨j, hj, hv⟩
        rw [Holds, hkey] at hj
        exact ⟨j, hj, (hval (hother hj)).symm.trans hv⟩
      · rintro ⟨j, hj, hv⟩
        exact ⟨j, by rwa [Holds, hkey], (hval (hother hj)).trans hv⟩

theorem Sound.writes (h : t.Sound) (hget : t.luaH_get (.key k) = some slot) (w : Option V) :
    Writes t k w (t.setvalue slot w) := by
  rcases h.luaH_get_cases (k := k) with ⟨i, hi, hslot⟩ | ⟨i, hi, hslot⟩ | ⟨-, hnone⟩
  · obtain rfl := Option.some.inj (hget.symm.trans hslot)
    exact h.writes_array hi w
  · obtain rfl := Option.some.inj (hget.symm.trans hslot)
    exact h.writes_node hi w
  · rw [hnone] at hget
    cases hget

/-- The elements are the same once a new key has been placed, and it is the slot of that key that is
given back. -/
theorem Placed.lookup (hp : Placed t k t' i) (h : t.Sound) (k' : K) : t'.lookup k' = t.lookup k' := by
  have hcongr : t'.arrayslot k' = t.arrayslot k' := arrayslot_congr (by rw [hp.array]) k'
  cases hslot : t.arrayslot k' with
  | some j => rw [lookup_array (hcongr.trans hslot), lookup_array hslot, hp.array]
  | none =>
    refine Option.ext fun v => ?_
    rw [hp.sound.lookup_node (hcongr.trans hslot), h.lookup_node hslot]
    exact hp.keeps k' v

/-- An assignment to a key: the slot that is found or made for it is written. -/
structure Assigns (t : Table K V) (k : K) (w : Option V) (t' : Table K V) : Prop where
  sound : t'.Sound
  lookup : ∀ k', t'.lookup k' = if k' = k then w else t.lookup k'
  array : t'.array.length = t.array.length
  room : t.room ≤ t'.room + if t.arrayslot k = none then 1 else 0

theorem Writes.assigns (hw : Writes t k w t') : Assigns t k w t' :=
  ⟨hw.sound, hw.lookup, hw.array, hw.room ▸ Nat.le_add_right _ _⟩

theorem Placed.assigns (hp : Placed t k t' i) (h : t.Sound) (w : Option V) :
    Assigns t k w (t'.setvalue (.node i) w) := by
  have hw := hp.sound.writes (hp.sound.luaH_get_node hp.holds) w
  have harray : t'.array.length = t.array.length := by rw [hp.array]
  refine ⟨hw.sound, fun k' => ?_, hw.array.trans harray, ?_⟩
  · rw [hw.lookup, hp.lookup h]
  · have hnone : t.arrayslot k = none :=
      arrayslot_congr harray k ▸ arrayslot_eq_none.mpr (hp.sound.outside hp.holds)
    rw [hw.room, if_pos hnone]
    exact hp.room

/-- A slot is found for the key, or made where there is room. -/
theorem Sound.setkey (h : t.Sound) (hroom : t.arrayslot k = none → 0 < t.room) (depth : Nat)
    (w : Option V) : ∃ t' slot, Table.setkey (Table.newkey depth) t k = .ok (t', slot) ∧
      Assigns t k w (t'.setvalue slot w) := by
  rcases h.luaH_get_cases (k := k) with ⟨i, -, hget⟩ | ⟨i, -, hget⟩ | ⟨hfresh, hget⟩
  · exact ⟨t, .array i, by simp only [Table.setkey, hget], (h.writes hget w).assigns⟩
  · exact ⟨t, .node i, by simp only [Table.setkey, hget], (h.writes hget w).assigns⟩
  · rcases h.newkey hfresh with ⟨t', i, hnew, hplaced⟩ | ⟨hfull, -⟩
    · exact ⟨t', .node i, by simp only [Table.setkey, hget, hnew], hplaced.assigns h w⟩
    · have hpos := hroom (arrayslot_eq_none.mpr hfresh.outside)
      omega

/-! ### One assignment after another -/

/-- Each value is assigned to its key. -/
def assignall (new : Table K V → K → Except Error (Table K V × Slot)) :
    List (K × V) → Table K V → Except Error (Table K V)
  | [], t => .ok t
  | (k, v) :: ps, t => do
    let (t, slot) ← Table.setkey new t k
    assignall new ps (t.setvalue slot (some v))

/-- How many of the keys go to the nodes. -/
def outsiders (t : Table K V) (ps : List (K × V)) : Nat := ps.countP fun p => (t.arrayslot p.1).isNone

omit [DecidableEq K] in
theorem outsiders_congr (h : t'.array.length = t.array.length) (ps : List (K × V)) :
    t'.outsiders ps = t.outsiders ps := by
  simp only [outsiders, arrayslot_congr h]

/-- New elements are added to those that are there. -/
structure Extends (t : Table K V) (ps : List (K × V)) (t' : Table K V) : Prop where
  sound : t'.Sound
  lookup : ∀ k v, t'.lookup k = some v ↔ t.lookup k = some v ∨ (k, v) ∈ ps
  array : t'.array.length = t.array.length
  room : t.room ≤ t'.room + t.outsiders ps

theorem Sound.assignall (h : t.Sound) {ps : List (K × V)} (hroom : t.outsiders ps ≤ t.room)
    (hnew : ∀ p ∈ ps, t.lookup p.1 = none) (hnodup : (ps.map Prod.fst).Nodup) (depth : Nat) :
    ∃ t', Table.assignall (Table.newkey depth) ps t = .ok t' ∧ Extends t ps t' := by
  induction ps generalizing t with
  | nil =>
    exact ⟨t, rfl, h, fun k v => by simp, rfl, Nat.le_add_right _ _⟩
  | cons p ps ih =>
    obtain ⟨k, v⟩ := p
    obtain ⟨hk, hnodup⟩ := List.nodup_cons.mp hnodup
    have hcount : t.outsiders ((k, v) :: ps) =
        t.outsiders ps + if t.arrayslot k = none then 1 else 0 := by
      rw [outsiders, List.countP_cons, outsiders]
      cases t.arrayslot k <;> rfl
    have hpos (hnone : t.arrayslot k = none) : 0 < t.room := by
      rw [hcount, if_pos hnone] at hroom
      omega
    obtain ⟨t₁, slot, hset, hassigns⟩ := h.setkey hpos depth (some v)
    generalize ht₂ : t₁.setvalue slot (some v) = t₂ at hassigns
    have hsame := outsiders_congr hassigns.array ps
    have hne (p : K × V) (hp : p ∈ ps) : p.1 ≠ k := by
      rintro rfl
      exact hk (List.mem_map.mpr ⟨p, hp, rfl⟩)
    obtain ⟨t', hall, hextends⟩ := ih hassigns.sound (by have := hassigns.room; omega)
      (fun p hp => by
        rw [hassigns.lookup, if_neg (hne p hp)]
        exact hnew p (List.mem_cons_of_mem _ hp)) hnodup
    refine ⟨t', ?_, hextends.sound, fun k' v' => ?_, hextends.array.trans hassigns.array, ?_⟩
    · rw [Table.assignall, hset, ← hall, ← ht₂]
      rfl
    · rw [hextends.lookup, hassigns.lookup, List.mem_cons, Prod.mk.injEq]
      by_cases hk' : k' = k
      · subst hk'
        have hnone : t.lookup k' = none := hnew _ List.mem_cons_self
        simp [hnone, eq_comm]
      · simp [hk']
    · have hroom' := hextends.room
      have hroom'' := hassigns.room
      omega

end TuxBot.Lua.Ltable.Table
