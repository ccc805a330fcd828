import TuxBot.Lua.LtableRuns

/-! The length of a table is a border of it, whichever way it is searched for. -/
namespace TuxBot.Lua.Ltable

namespace Table

variable {K V : Type} [Key K] [DecidableEq K] {t : Table K V} {i j n fuel : Nat}

theorem present_eq (t : Table K V) (hi : i < 2 ^ 31) :
    t.present i = (t.lookup (Key.ofInt i)).isSome := by
  rw [present, luaH_getnum_eq t (by omega) (by omega), lookup]

omit [DecidableEq K] in
theorem arrayslot_ofInt (t : Table K V) (hi : 1 ≤ i) (hlt : i < 2 ^ 31) (hle : i ≤ t.array.length) :
    t.arrayslot (Key.ofInt i : K) = some (i - 1) := by
  refine arrayslot_eq_some.mpr ⟨?_, by omega⟩
  rw [Key.toInt_ofInt _ (by omega) (by omega)]
  congr 1
  omega

omit [DecidableEq K] in
theorem length_arrayelements_le (vs : List (Option V)) (i : Nat) :
    (arrayelements (K := K) vs i).length ≤ vs.length := by
  induction vs generalizing i with
  | nil => exact Nat.le_refl 0
  | cons v vs ih =>
    cases v with
    | none => exact Nat.le_succ_of_le (ih (i + 1))
    | some v => exact Nat.succ_le_succ (ih (i + 1))

theorem inuse_eq (t : Table K V) (hi : 1 ≤ i) (hlt : i < 2 ^ 31) (hle : i ≤ t.array.length) :
    t.inuse i = t.present i := by
  rw [present_eq t hlt, lookup_array (arrayslot_ofInt t hi hlt hle), inuse]

namespace Sound

/-- No more integers are in the table than it has places. -/
theorem countP_present_le (h : t.Sound) (hn : n < 2 ^ 31) :
    (List.range' 1 n).countP t.present ≤ t.array.length + t.node.length := by
  have hnodup : (((List.range' 1 n).filter t.present).map fun i => (Key.ofInt (i : Nat) : K)).Nodup := by
    refine List.Nodup.map_on (fun i hi j hj heq => ?_) ((List.nodup_range' ..).filter _)
    have hi' := List.mem_range'_1.mp (List.mem_of_mem_filter hi)
    have hj' := List.mem_range'_1.mp (List.mem_of_mem_filter hj)
    have htoInt := congrArg Key.toInt heq
    rw [Key.toInt_ofInt _ (by omega) (by omega), Key.toInt_ofInt _ (by omega) (by omega)] at htoInt
    have hsame := Option.some.inj htoInt
    omega
  have hsubset : (((List.range' 1 n).filter t.present).map fun i => (Key.ofInt (i : Nat) : K)) ⊆
      t.elements.map Prod.fst := by
    intro key hkey
    obtain ⟨i, hi, rfl⟩ := List.mem_map.mp hkey
    have hi' := List.mem_range'_1.mp (List.mem_of_mem_filter hi)
    have hpresent : t.present i = true := List.of_mem_filter hi
    rw [present_eq t (by omega)] at hpresent
    obtain ⟨v, hv⟩ := Option.isSome_iff_exists.mp hpresent
    exact List.mem_map.mpr ⟨_, h.mem_elements.mpr hv, rfl⟩
  have hle := (List.subperm_of_subset hnodup hsubset).length_le
  have hlength : t.elements.length ≤ t.array.length + t.node.length := by
    rw [elements, List.length_append]
    exact Nat.add_le_add (length_arrayelements_le t.array 1) (List.length_filterMap_le _ _)
  rw [List.length_map, List.length_map, ← List.countP_eq_length_filter] at hle
  exact Nat.le_trans hle hlength

/-- So many integers in a row cannot all be in the table. -/
theorem exists_absent (h : t.Sound) :
    ∃ k ≤ t.array.length + t.node.length, t.present (1 + k) = false := by
  by_contra hnone
  have hsizes : MAXASIZE + 2 ^ MAXBITS + 2 ≤ 2 ^ 31 := by decide
  have hasize := h.asize
  have hnsize := h.length_node_le
  have hcount := h.countP_present_le (show t.array.length + t.node.length + 1 < 2 ^ 31 by omega)
  have hall : (List.range' 1 (t.array.length + t.node.length + 1)).countP t.present =
      (List.range' 1 (t.array.length + t.node.length + 1)).length := by
    refine List.countP_eq_length.mpr fun i hi => ?_
    have hi' := List.mem_range'_1.mp hi
    by_contra habsent
    exact hnone ⟨i - 1, by omega, by rw [Nat.add_sub_cancel' hi'.1]; simpa using habsent⟩
  rw [hall, List.length_range'] at hcount
  omega

/-- The linear search ends behind the first integers that are all in the table. -/
theorem border_scan (h : t.Sound) :
    Border t.present (scan t.present (t.array.length + t.node.length) 1 - 1) ∧
      scan t.present (t.array.length + t.node.length) 1 < 2 ^ 31 := by
  have hsizes : MAXASIZE + 2 ^ MAXBITS + 2 ≤ 2 ^ 31 := by decide
  have hasize := h.asize
  have hnsize := h.length_node_le
  obtain ⟨k, hk, habsent⟩ := h.exists_absent
  obtain ⟨hnone, hlow, hhigh, hall⟩ := scan_spec habsent hk
  generalize scan t.present (t.array.length + t.node.length) 1 = n at hnone hlow hhigh hall
  refine ⟨⟨?_, by rwa [Nat.sub_add_cancel hlow]⟩, by omega⟩
  rcases Nat.eq_or_lt_of_le hlow with heq | hlt
  · exact Or.inl (by omega)
  · exact Or.inr (hall (n - 1) (by omega) (by omega))

/-- The window of the doubling search has something at its lower end and nothing at its upper one, unless
the search has to become a linear one. -/
theorem doubling_spec (h : t.Sound) (hi : i = 0 ∨ t.present i = true) (hij : i < j)
    (hj : j < 2 ^ 31) (hfuel : 2 ^ 32 ≤ j * 2 ^ fuel) :
    (∃ n, t.doubling fuel i j = .inl n ∧ Border t.present n ∧ n + 1 < 2 ^ 31) ∨
      ∃ i' j', t.doubling fuel i j = .inr (i', j') ∧ (i' = 0 ∨ t.present i' = true) ∧
        t.present j' = false ∧ i' < j' ∧ j' < 2 ^ 31 := by
  induction fuel generalizing i j with
  | zero => omega
  | succ fuel ih =>
    rw [doubling]
    cases hpresent : t.present j with
    | false => exact Or.inr ⟨i, j, rfl, hi, hpresent, hij, hj⟩
    | true =>
      rw [if_pos rfl]
      by_cases hover : j * 2 > 2 ^ 31 - 1
      · rw [if_pos hover]
        obtain ⟨hborder, hlt⟩ := h.border_scan
        exact Or.inl ⟨_, rfl, hborder, by omega⟩
      · rw [if_neg hover]
        refine ih (Or.inr hpresent) (by omega) (by omega) ?_
        rw [Nat.mul_assoc, ← Nat.pow_succ']
        exact hfuel

theorem border_unbound_search (h : t.Sound) (hj : j = 0 ∨ t.present j = true) (hlt : j ≤ MAXASIZE) :
    Border t.present (t.unbound_search j) ∧ t.unbound_search j + 1 < 2 ^ 31 := by
  have hmax : MAXASIZE + 2 < 2 ^ 31 := by decide
  rw [unbound_search]
  rcases h.doubling_spec hj (Nat.lt_succ_self j) (by omega)
      (show 2 ^ 32 ≤ (j + 1) * 2 ^ 32 by omega) with
    ⟨n, hn, hborder, hbound⟩ | ⟨i', j', hwindow, hi', hj', hij, hbound⟩
  · rw [hn]
    exact ⟨hborder, hbound⟩
  · rw [hwindow]
    obtain ⟨hborder, hbelow⟩ := border_bisect hi' hj' hij (show j' ≤ i' + j' + 1 by omega)
    exact ⟨hborder, by dsimp only; omega⟩

/-- The length that is given is 0 or the index of an element, and the next index has none. -/
theorem border_getn (h : t.Sound) : Border t.present t.luaH_getn ∧ t.luaH_getn + 1 < 2 ^ 31 := by
  have hmax : MAXASIZE + 2 < 2 ^ 31 := by decide
  have hasize := h.asize
  have hinuse (i : Nat) (hi : 1 ≤ i) (hle : i ≤ t.array.length) : t.inuse i = t.present i :=
    inuse_eq t hi (by omega) hle
  have hlast (hpos : 0 < t.array.length) :
      (t.array.getD (t.array.length - 1) none).isNone = !t.present t.array.length := by
    rw [← hinuse _ hpos (Nat.le_refl _), inuse]
    cases t.array.getD (t.array.length - 1) none <;> rfl
  rw [luaH_getn]
  by_cases hhole : 0 < t.array.length ∧ (t.array.getD (t.array.length - 1) none).isNone
  · rw [if_pos hhole]
    obtain ⟨hpos, hnone⟩ := hhole
    rw [hlast hpos] at hnone
    have habsent : t.inuse t.array.length = false := by
      rw [hinuse _ hpos (Nat.le_refl _)]
      simpa using hnone
    obtain ⟨⟨hbelow, habove⟩, hlt⟩ :=
      border_bisect (Or.inl rfl) habsent hpos (show t.array.length ≤ 0 + t.array.length + 1 by omega)
    generalize bisect t.inuse t.array.length 0 t.array.length = n at hbelow habove hlt
    refine ⟨⟨?_, ?_⟩, by omega⟩
    · rcases Nat.eq_zero_or_pos n with hzero | hn
      · exact Or.inl hzero
      · exact hbelow.imp_right fun hused => (hinuse n hn (by omega)).symm.trans hused
    · rwa [hinuse (n + 1) (by omega) (by omega)] at habove
  · rw [if_neg hhole]
    have hend : t.array.length = 0 ∨ t.present t.array.length = true := by
      rcases Nat.eq_zero_or_pos t.array.length with hzero | hpos
      · exact Or.inl hzero
      · refine Or.inr ?_
        have hsome := fun hnone => hhole ⟨hpos, hnone⟩
        rw [hlast hpos] at hsome
        simpa using hsome
    by_cases hnode : t.node = []
    · rw [if_pos hnode]
      refine ⟨⟨hend, ?_⟩, by omega⟩
      have hnot (i : Nat) : ¬ t.Holds (Key.ofInt (t.array.length + 1 : Nat) : K) i := by
        intro hi
        have hlt := lt_of_key_ne hi.ne_nil
        rw [hnode] at hlt
        exact absurd hlt (Nat.not_lt_zero i)
      rw [present, luaH_getnum, if_neg (by omega), h.search_eq_none.mpr hnot]
      rfl
    · rw [if_neg hnode]
      exact h.border_unbound_search hend h.asize

end Sound

end Table

variable {K V : Type} [Key K] [DecidableEq K] {t t₀ : Table K V} {ops : List (Op K V)}
  {narray nhash : Nat}

/-- However a table came about, its length is a border. -/
theorem getn_of_run (hsize : narray ≤ MAXASIZE) (hnew : Table.luaH_new narray nhash = .ok t₀)
    (hops : ∀ op ∈ ops, op.Valid) (hrun : run ops t₀ = .ok t) :
    (t.luaH_getn = 0 ∨ contents ops (Key.ofInt t.luaH_getn) ≠ none) ∧
      contents ops (Key.ofInt (t.luaH_getn + 1 : Nat)) = none := by
  obtain ⟨hsound, hlookup⟩ := sound_run hsize hnew hops hrun
  obtain ⟨⟨hbelow, habove⟩, hbound⟩ := hsound.border_getn
  rw [Table.present_eq t hbound, hlookup] at habove
  refine ⟨hbelow.imp_right fun hpresent => ?_, by simpa using habove⟩
  rw [Table.present_eq t (by omega), hlookup] at hpresent
  exact Option.isSome_iff_ne_none.mp hpresent

theorem getn_of_run_collisions :
    (collided.luaH_getn = 0 ∨ contents collisions collided.luaH_getn ≠ none) ∧
      contents collisions (collided.luaH_getn + 1 : Nat) = none :=
  getn_of_run (Nat.zero_le MAXASIZE) (show Table.luaH_new 0 0 = .ok ⟨[], 0, [], 0⟩ from rfl)
    valid_collisions run_collisions

end TuxBot.Lua.Ltable
