import TuxBot.Lua.LtableRuns

/-! A traversal visits every element once, although its body may change and clear fields. -/
namespace TuxBot.Lua.Ltable

variable {K V : Type} [Key K] [DecidableEq K] {t t' t₁ t₂ : Table K V} {k : K} {v : V} {w : Option V}
  {i j n fuel : Nat} {body : K → V → Table K V → Table K V}

/-- What may happen to a table in the body of a traversal: its fields are assigned to, and the collector
comes by. -/
inductive Modified (t : Table K V) : Table K V → Prop
  | refl : Modified t t
  | set {t₁ t₂ : Table K V} (h : Modified t t₁) {k : K} (hk : t₁.lookup k ≠ none) {w : Option V}
    (hset : step t₁ (.set (.key k) w) = .ok t₂) : Modified t t₂
  | traverse {t₁ : Table K V} (h : Modified t t₁) : Modified t t₁.traversetable

/-- `for k, v in next, t do body end`: the elements in the order of the visits, and the table that is
left. -/
def traversal (body : K → V → Table K V → Table K V) :
    Nat → Table K V → Index K → Except Error (List (K × V) × Table K V)
  | 0, t, _ => .ok ([], t)
  | fuel + 1, t, key => do
    match ← t.luaH_next key with
    | none => return ([], t)
    | some (k, v) =>
      let (visited, t) ← traversal body fuel (body k v t) (.key k)
      return ((k, v) :: visited, t)

/-- The body of a traversal that assigns to every field it comes to. -/
def assigning (f : K → V → Option V) (k : K) (v : V) (t : Table K V) : Table K V :=
  match step t (.set (.key k) (f k v)) with
  | .ok t' => t'
  | .error _ => t

namespace Table

/-! ### Numbers -/

def size (t : Table K V) : Nat := t.array.length + t.node.length

theorem findindex_congr (harray : t'.array.length = t.array.length)
    (hlength : t'.node.length = t.node.length) (hlsize : t'.lsizenode = t.lsizenode)
    (hnext : t'.gnext = t.gnext)
    (hsame : ∀ k i, samekey k (t'.gnode i) = samekey k (t.gnode i)) : t'.findindex = t.findindex := by
  funext key
  cases key with
  | nil => rfl
  | nan => rfl
  | key k =>
    have hmain : t'.mainposition k = t.mainposition k := by
      rw [mainposition, mainposition, sizenode, sizenode, hlsize]
    have hwalk : t'.walk (samekey k) = t.walk (samekey k) := by
      funext i
      simp only [walk, hlength, hnext, hsame]
    rw [findindex, findindex, harray, hmain, hwalk]

omit [DecidableEq K] in
theorem element_array (hi : i < t.array.length) :
    t.element i = some (k, v) ↔ Key.ofInt (i + 1 : Nat) = k ∧ t.array.getD i none = some v := by
  rw [element, if_pos hi]
  cases t.array.getD i none with
  | none => simp
  | some v' => simp

omit [DecidableEq K] in
theorem element_node (hi : t.array.length ≤ i) :
    t.element i = some (k, v) ↔ t.Holds k (i - t.array.length) ∧
      (t.gnode (i - t.array.length)).val = some v := by
  rw [element, if_neg (Nat.not_lt.mpr hi)]
  exact Node.element_eq_some

namespace Sound

/-- An element is found under its number. -/
theorem findindex_element (h : t.Sound) (hi : t.element i = some (k, v)) :
    t.findindex (.key k) = .ok (i + 1) := by
  have hmax : MAXASIZE + 1 < 2 ^ 31 := by decide
  have hasize := h.asize
  rw [findindex, arrayindex]
  by_cases hlt : i < t.array.length
  · obtain ⟨rfl, -⟩ := (element_array hlt).mp hi
    rw [Key.toInt_ofInt _ (by omega) (by omega), Option.getD_some, if_pos (by omega)]
    rfl
  · obtain ⟨hheld, -⟩ := (element_node (Nat.le_of_not_lt hlt)).mp hi
    have hout := h.outside hheld
    have hnot : ¬ (0 < (Key.toInt k).getD (-1) ∧ (Key.toInt k).getD (-1) ≤ t.array.length) := by
      cases hz : Key.toInt k with
      | none => simp
      | some z =>
        have := hout z hz
        rw [Option.getD_some]
        omega
    obtain ⟨l, hl⟩ := h.ends (t.mainposition k)
    rw [if_neg hnot, h.walk_eq hl, h.found hheld l hl]
    dsimp only
    congr 1
    omega

theorem lookup_element (h : t.Sound) (hi : t.element i = some (k, v)) : t.lookup k = some v := by
  rw [← h.mem_elements, elements, List.mem_append]
  by_cases hlt : i < t.array.length
  · obtain ⟨hk, hv⟩ := (element_array hlt).mp hi
    refine Or.inl (mem_arrayelements.mpr ⟨i, ?_, by rw [Nat.add_comm 1, hk]⟩)
    rw [List.getD_eq_getElem?_getD, List.getElem?_eq_getElem hlt, Option.getD_some] at hv
    rw [List.getElem?_eq_getElem hlt, hv]
  · obtain ⟨hheld, hv⟩ := (element_node (Nat.le_of_not_lt hlt)).mp hi
    exact Or.inr (mem_nodeelements.mpr ⟨_, hheld, hv⟩)

theorem exists_element (h : t.Sound) (hv : t.lookup k = some v) :
    ∃ i < t.size, t.element i = some (k, v) := by
  rw [← h.mem_elements, elements, List.mem_append, mem_nodeelements] at hv
  rcases hv with hv | ⟨i, hi, hv⟩
  · obtain ⟨i, hget, rfl⟩ := mem_arrayelements.mp hv
    have hlt := (List.getElem?_eq_some_iff.mp hget).1
    refine ⟨i, Nat.lt_of_lt_of_le hlt (Nat.le_add_right _ _), (element_array hlt).mpr ⟨?_, ?_⟩⟩
    · rw [Nat.add_comm]
    · rw [List.getD_eq_getElem?_getD, hget, Option.getD_some]
  · have hlt := lt_of_key_ne hi.ne_nil
    refine ⟨t.array.length + i, Nat.add_lt_add_left hlt _, (element_node (Nat.le_add_right _ _)).mpr ?_⟩
    rw [Nat.add_sub_cancel_left]
    exact ⟨hi, hv⟩

end Sound

/-- The next element is the first one from the number on that the key has led to. -/
theorem luaH_next_cases {key : Index K} (hn : t.findindex key = .ok n) :
    (t.luaH_next key = .ok none ∧ ∀ i, n ≤ i → i < t.size → t.element i = none) ∨
      ∃ i p, t.luaH_next key = .ok (some p) ∧ n ≤ i ∧ i < t.size ∧ t.element i = some p ∧
        ∀ j, n ≤ j → j < i → t.element j = none := by
  have hnext : t.luaH_next key = .ok ((List.range' n (t.size - n)).findSome? t.element) := by
    rw [luaH_next, hn]
    rfl
  rw [hnext]
  cases hfind : (List.range' n (t.size - n)).findSome? t.element with
  | none =>
    refine Or.inl ⟨rfl, fun i hi hlt => ?_⟩
    exact List.findSome?_eq_none_iff.mp hfind i (List.mem_range'_1.mpr (by omega))
  | some p =>
    obtain ⟨before, i, after, hsplit, hp, hbefore⟩ := List.findSome?_eq_some_iff.mp hfind
    obtain ⟨c, hc, rfl, hafter⟩ := List.range'_eq_append_iff.mp hsplit
    have hi : i = n + c ∧ c < t.size - n := by
      cases hleft : t.size - n - c with
      | zero =>
        rw [hleft] at hafter
        cases hafter
      | succ left =>
        rw [hleft, List.range'_succ] at hafter
        have heq := (List.cons.inj hafter).1
        omega
    refine Or.inr ⟨i, p, rfl, by omega, by omega, hp, fun j hj hlt => ?_⟩
    exact hbefore j (List.mem_range'_1.mpr (by omega))

/-! ### Changes in the body -/

/-- What the body of a traversal leaves as it is: where every key is looked for. -/
structure Kept (t t' : Table K V) : Prop where
  sound : t'.Sound
  array : t'.array.length = t.array.length
  length : t'.node.length = t.node.length
  findindex : t'.findindex = t.findindex
  lookup : ∀ k, t'.lookup k ≠ none → t.lookup k ≠ none

theorem Kept.trans (h : Kept t t₁) (h' : Kept t₁ t₂) : Kept t t₂ :=
  ⟨h'.sound, h'.array.trans h.array, h'.length.trans h.length, h'.findindex.trans h.findindex,
    fun k hk => h.lookup k (h'.lookup k hk)⟩

/-- An element that is there afterwards has been there before, under the same number. -/
theorem Kept.element (h : Kept t t') (hs : t.Sound) (hi : t'.element i = some (k, v)) :
    ∃ v', t.element i = some (k, v') := by
  have hlive := h.lookup k (by rw [h.sound.lookup_element hi]; exact Option.some_ne_none v)
  obtain ⟨v', hv'⟩ := Option.ne_none_iff_exists'.mp hlive
  obtain ⟨j, -, hj⟩ := hs.exists_element hv'
  have hsame := h.sound.findindex_element hi
  rw [h.findindex, hs.findindex_element hj] at hsame
  obtain rfl : j = i := Nat.succ.inj (Except.ok.inj hsame)
  exact ⟨v', hj⟩

theorem Sound.element_lt (h : t.Sound) (hi : t.element i = some (k, v)) : i < t.size := by
  obtain ⟨j, hlt, hj⟩ := h.exists_element (h.lookup_element hi)
  have hsame := h.findindex_element hi
  rw [h.findindex_element hj] at hsame
  obtain rfl : j = i := Nat.succ.inj (Except.ok.inj hsame)
  exact hlt

theorem Sound.kept_refl (h : t.Sound) : Kept t t := ⟨h, rfl, rfl, rfl, fun _ hk => hk⟩

theorem kept_set (h : t.Sound) (hk : t.lookup k ≠ none) (hset : step t (.set (.key k) w) = .ok t') :
    Kept t t' := by
  obtain ⟨slot, hget⟩ : ∃ slot, t.luaH_get (.key k) = some slot := by
    cases hget : t.luaH_get (.key k) with
    | none => exact absurd (by rw [lookup, hget]; rfl) hk
    | some slot => exact ⟨slot, rfl⟩
  have ht' : t.setvalue slot w = t' := by
    rw [step, luaH_set, setkey, hget] at hset
    exact Except.ok.inj hset
  have hwrites := h.writes hget w
  have hgnode := gnode_setvalue t slot w
  rw [ht'] at hwrites hgnode
  refine ⟨hwrites.sound, hwrites.array, hwrites.length, ?_, fun k' hk' => ?_⟩
  · refine findindex_congr hwrites.array hwrites.length ?_ (funext fun j => (hgnode j).2) fun k' j => ?_
    · rw [← ht']
      cases slot <;> rfl
    · rw [samekey, samekey, (hgnode j).1]
  · rw [hwrites.lookup] at hk'
    by_cases heq : k' = k
    · rwa [heq]
    · rwa [if_neg heq] at hk'

theorem kept_traverse (h : t.Sound) : Kept t t.traversetable := by
  refine ⟨h.traverse.1, rfl, List.length_map _, ?_, fun k hk => by rwa [h.traverse.2] at hk⟩
  refine findindex_congr rfl (List.length_map _) rfl (funext fun i => ?_) fun k i => ?_
  · rw [gnext, gnode_traversetable, gnext]
    rcases removeentry_cases (t.gnode i) with heq | ⟨k, -, -, heq⟩ <;> rw [heq]
  · rw [gnode_traversetable]
    rcases removeentry_cases (t.gnode i) with heq | ⟨k', hk', -, heq⟩
    · rw [heq]
    · rw [heq]
      simp [samekey, hk']

theorem kept_of_modified (hm : Modified t t') (h : t.Sound) : Kept t t' := by
  induction hm with
  | refl => exact h.kept_refl
  | set _ hk hset ih => exact ih.trans (kept_set ih.sound hk hset)
  | traverse _ ih => exact ih.trans (kept_traverse ih.sound)

/-- What a traversal from a number on comes to. `P` is what holds of the table in every round. -/
structure Visits (P : Table K V → Prop) (t : Table K V) (n : Nat) (visited : List (K × V))
    (t' : Table K V) : Prop where
  kept : Kept t t'
  last : P t'
  nodup : (visited.map Prod.fst).Nodup
  number : ∀ p ∈ visited, ∃ i, n ≤ i ∧ t.findindex (.key p.1) = .ok (i + 1)
  value : ∀ p ∈ visited, ∃ t₁, P t₁ ∧ Kept t t₁ ∧ t₁.lookup p.1 = some p.2
  all : ∀ i k v, n ≤ i → t'.element i = some (k, v) → k ∈ visited.map Prod.fst

theorem Sound.visits_nil {P : Table K V → Prop} (h : t.Sound) (hP : P t)
    (hnone : ∀ i, n ≤ i → i < t.size → t.element i = none) : Visits P t n [] t := by
  refine ⟨h.kept_refl, hP, List.nodup_nil, nofun, nofun, fun i k v hi helement => ?_⟩
  rw [hnone i hi (h.element_lt helement)] at helement
  cases helement

theorem Visits.cons {P : Table K V → Prop} {visited : List (K × V)} (h : t.Sound) (hP : P t)
    (hni : n ≤ i) (hi : t.element i = some (k, v)) (hbefore : ∀ j, n ≤ j → j < i → t.element j = none)
    (hkept : Kept t t₁) (hrest : Visits P t₁ (i + 1) visited t') :
    Visits P t n ((k, v) :: visited) t' := by
  have hk := h.findindex_element hi
  have hall := hkept.trans hrest.kept
  refine ⟨hall, hrest.last, ?_, fun p hp => ?_, fun p hp => ?_, fun j k' v' hj helement => ?_⟩
  · refine List.nodup_cons.mpr ⟨fun hmem => ?_, hrest.nodup⟩
    obtain ⟨p, hp, hpk⟩ := List.mem_map.mp hmem
    obtain ⟨j, hj, hnumber⟩ := hrest.number p hp
    rw [hpk, hkept.findindex, hk] at hnumber
    have heq := Except.ok.inj hnumber
    omega
  · rcases List.mem_cons.mp hp with rfl | hp
    · exact ⟨i, hni, hk⟩
    · obtain ⟨j, hj, hnumber⟩ := hrest.number p hp
      rw [hkept.findindex] at hnumber
      exact ⟨j, by omega, hnumber⟩
  · rcases List.mem_cons.mp hp with rfl | hp
    · exact ⟨t, hP, h.kept_refl, h.lookup_element hi⟩
    · obtain ⟨t₂, hP₂, hkept₂, hvalue⟩ := hrest.value p hp
      exact ⟨t₂, hP₂, hkept.trans hkept₂, hvalue⟩
  · rw [List.map_cons, List.mem_cons]
    rcases Nat.lt_or_ge i j with hlt | hle
    · exact Or.inr (hrest.all j k' v' hlt helement)
    · obtain ⟨v'', hold⟩ := hall.element h helement
      rcases Nat.eq_or_lt_of_le hle with rfl | hlt
      · exact Or.inl (congrArg Prod.fst (Option.some.inj (hold.symm.trans hi)))
      · rw [hbefore j hj hlt] at hold
        cases hold

/-- A traversal comes to the end, and visits what is left. -/
theorem traversal_from {P : Table K V → Prop}
    (hbody : ∀ k v t, t.Sound → P t → t.lookup k = some v →
      Modified t (body k v t) ∧ P (body k v t))
    (h : t.Sound) (hP : P t) {key : Index K} (hn : t.findindex key = .ok n) (hfuel : t.size < n + fuel) :
    ∃ visited t', traversal body fuel t key = .ok (visited, t') ∧ Visits P t n visited t' := by
  induction fuel generalizing t key n with
  | zero => exact ⟨[], t, rfl, h.visits_nil hP fun i hi hlt => by omega⟩
  | succ fuel ih =>
    rcases luaH_next_cases hn with ⟨hnext, hnone⟩ | ⟨i, ⟨k, v⟩, hnext, hni, hlt, hi, hbefore⟩
    · exact ⟨[], t, by rw [traversal, hnext]; rfl, h.visits_nil hP hnone⟩
    · obtain ⟨hmodified, hP'⟩ := hbody k v t h hP (h.lookup_element hi)
      have hkept := kept_of_modified hmodified h
      have hkey : (body k v t).findindex (.key k) = .ok (i + 1) := by
        rw [hkept.findindex, h.findindex_element hi]
      have hsize : (body k v t).size = t.size := by rw [size, size, hkept.array, hkept.length]
      obtain ⟨visited, t', hrun, hvisits⟩ := ih hkept.sound hP' hkey (by omega)
      exact ⟨_, t', by rw [traversal, hnext]; simp only [bind, Except.bind, hrun]; rfl,
        hvisits.cons h hP hni hi hbefore hkept⟩

/-- A traversal that changes nothing lists what the table holds. -/
theorem Sound.traversal_elements (h : t.Sound) :
    ∃ visited, traversal (fun _ _ t => t) (t.size + 1) t .nil = .ok (visited, t) ∧
      (visited.map Prod.fst).Nodup ∧ ∀ k v, (k, v) ∈ visited ↔ t.lookup k = some v := by
  obtain ⟨visited, t', htraversal, hvisits⟩ := traversal_from (P := fun t' => t' = t)
    (fun k v t _ ht _ => ⟨.refl, ht⟩) h rfl
    (show t.findindex .nil = .ok 0 from rfl) (show t.size < 0 + (t.size + 1) by omega)
  obtain rfl := hvisits.last
  refine ⟨visited, htraversal, hvisits.nodup, fun k v => ?_⟩
  have hvalue (v : V) (hmem : (k, v) ∈ visited) : t'.lookup k = some v := by
    obtain ⟨t₁, rfl, -, hv⟩ := hvisits.value (k, v) hmem
    exact hv
  constructor
  · exact hvalue v
  · intro hv
    obtain ⟨i, -, hi⟩ := h.exists_element hv
    obtain ⟨⟨k, v'⟩, hmem, rfl⟩ := List.mem_map.mp (hvisits.all i _ v (Nat.zero_le i) hi)
    obtain rfl := Option.some.inj ((hvalue v' hmem).symm.trans hv)
    exact hmem

theorem modified_assigning {f : K → V → Option V} (hv : t.lookup k = some v) :
    Modified t (assigning f k v t) := by
  rw [assigning]
  split
  · rename_i t' hset
    exact .set .refl (by rw [hv]; exact Option.some_ne_none v) hset
  · exact .refl

/-- Assigning to a field that has a value. -/
theorem lookup_assigning (h : t.Sound) (hv : t.lookup k = some v) (f : K → V → Option V) :
    (assigning f k v t).lookup = Function.update t.lookup k (f k v) := by
  have hk : t.lookup k ≠ none := by
    rw [hv]
    exact Option.some_ne_none v
  obtain ⟨t', hset⟩ : ∃ t', step t (.set (.key k) (f k v)) = .ok t' := by
    cases hget : t.luaH_get (.key k) with
    | none => exact absurd (by rw [lookup, hget]; rfl) hk
    | some slot => exact ⟨t.setvalue slot (f k v), by rw [step, luaH_set, setkey, hget]; rfl⟩
  have hassigning : assigning f k v t = t' := by rw [assigning, hset]
  rw [hassigning]
  have hvalid : (Op.set (.key k) (f k v)).Valid := trivial
  rcases h.step hvalid with ⟨e, herror, -⟩ | ⟨u, hok, hsteps⟩
  · rw [hset] at herror
    cases herror
  · obtain rfl := Except.ok.inj (hset.symm.trans hok)
    exact hsteps.lookup

/-- Every field that is visited is assigned to, once, and no other. -/
theorem lookup_traversal {f : K → V → Option V} {key : Index K} {visited : List (K × V)} (h : t.Sound)
    (hn : t.findindex key = .ok n) (hrun : traversal (assigning f) fuel t key = .ok (visited, t'))
    (hnodup : (visited.map Prod.fst).Nodup) :
    (∀ k v, (k, v) ∈ visited → t.lookup k = some v ∧ t'.lookup k = f k v) ∧
      ∀ k, k ∉ visited.map Prod.fst → t'.lookup k = t.lookup k := by
  induction fuel generalizing t key n visited with
  | zero =>
    obtain ⟨rfl, rfl⟩ := Prod.mk.inj (Except.ok.inj hrun)
    exact ⟨nofun, fun _ _ => rfl⟩
  | succ fuel ih =>
    rcases luaH_next_cases hn with ⟨hnext, -⟩ | ⟨i, ⟨k, v⟩, hnext, -, -, hi, -⟩
    · rw [traversal, hnext] at hrun
      obtain ⟨rfl, rfl⟩ := Prod.mk.inj (Except.ok.inj hrun)
      exact ⟨nofun, fun _ _ => rfl⟩
    · have hv := h.lookup_element hi
      have hlookup := lookup_assigning h hv f
      have hkept : Kept t (assigning f k v t) := kept_of_modified (modified_assigning hv) h
      have hkey : (assigning f k v t).findindex (.key k) = .ok (i + 1) := by
        rw [hkept.findindex, h.findindex_element hi]
      rw [traversal, hnext] at hrun
      simp only [bind, Except.bind] at hrun
      split at hrun
      · cases hrun
      rename_i rest hrest
      obtain ⟨rfl, rfl⟩ := Prod.mk.inj (Except.ok.inj hrun)
      obtain ⟨hfresh, hnodup⟩ := List.nodup_cons.mp hnodup
      obtain ⟨hvisited, hother⟩ := ih hkept.sound hkey hrest hnodup
      refine ⟨fun k' v' hmem => ?_, fun k' hk' => ?_⟩
      · rcases List.mem_cons.mp hmem with heq | hmem
        · obtain ⟨rfl, rfl⟩ := Prod.mk.inj heq
          exact ⟨hv, by rw [hother k' hfresh, hlookup, Function.update_self]⟩
        · have hin : k' ∈ rest.1.map Prod.fst := List.mem_map_of_mem hmem
          have hne : k' ≠ k := by
            rintro rfl
            exact hfresh hin
          have hvisit := hvisited k' v' hmem
          rwa [hlookup, Function.update_of_ne hne] at hvisit
      · rw [List.map_cons, List.mem_cons, not_or] at hk'
        rw [hother k' hk'.2, hlookup, Function.update_of_ne hk'.1]

/-- A traversal that assigns to every field visits the elements, each once, and leaves the new values. -/
theorem Sound.traversal_assigning (h : t.Sound) (f : K → V → Option V) :
    ∃ visited t', traversal (assigning f) (t.size + 1) t .nil = .ok (visited, t') ∧ t'.Sound ∧
      (visited.map Prod.fst).Nodup ∧ (∀ k v, (k, v) ∈ visited ↔ t.lookup k = some v) ∧
      ∀ k, t'.lookup k = (t.lookup k).bind (f k) := by
  obtain ⟨visited, t', hrun, hvisits⟩ := traversal_from (P := fun _ => True)
    (fun k v t _ _ hv => ⟨modified_assigning hv, trivial⟩) h trivial
    (show t.findindex .nil = .ok 0 from rfl) (show t.size < 0 + (t.size + 1) by omega)
  obtain ⟨hvisited, hother⟩ := lookup_traversal h (show t.findindex .nil = .ok 0 from rfl) hrun hvisits.nodup
  have hmem {k : K} {v : V} : (k, v) ∈ visited ↔ t.lookup k = some v := by
    refine ⟨fun hmem => (hvisited k v hmem).1, fun hv => ?_⟩
    have hk : k ∈ visited.map Prod.fst := by
      by_contra hk
      obtain ⟨i, -, hi⟩ := hvisits.kept.sound.exists_element ((hother k hk).trans hv)
      exact hk (hvisits.all i k v (Nat.zero_le i) hi)
    obtain ⟨⟨k, v'⟩, hmem, rfl⟩ := List.mem_map.mp hk
    obtain rfl := Option.some.inj ((hvisited k v' hmem).1.symm.trans hv)
    exact hmem
  refine ⟨visited, t', hrun, hvisits.kept.sound, hvisits.nodup, fun k v => hmem, fun k => ?_⟩
  cases hv : t.lookup k with
  | some v => exact (hvisited k v (hmem.mpr hv)).2
  | none =>
    refine (hother k fun hk => ?_).trans hv
    obtain ⟨⟨k, v⟩, hin, rfl⟩ := List.mem_map.mp hk
    rw [hmem.mp hin] at hv
    cases hv

end Table

/-! ### Traversals of reachable tables -/

variable {t₀ : Table K V} {ops : List (Op K V)} {narray nhash : Nat}

/-- A traversal ends without an error and visits no key twice, only keys that had a value when it began,
and every key that has one when it ends. -/
theorem traversal_of_run (hsize : narray ≤ MAXASIZE) (hnew : Table.luaH_new narray nhash = .ok t₀)
    (hops : ∀ op ∈ ops, op.Valid) (hrun : run ops t₀ = .ok t)
    (hbody : ∀ k v t, t.lookup k = some v → Modified t (body k v t)) :
    ∃ visited t', traversal body (t.size + 1) t .nil = .ok (visited, t') ∧
      (visited.map Prod.fst).Nodup ∧ (∀ p ∈ visited, contents ops p.1 ≠ none) ∧
      ∀ k, t'.lookup k ≠ none → k ∈ visited.map Prod.fst := by
  obtain ⟨hsound, hlookup⟩ := sound_run hsize hnew hops hrun
  obtain ⟨visited, t', htraversal, hvisits⟩ := Table.traversal_from (P := fun _ => True)
    (fun k v t _ _ hv => ⟨hbody k v t hv, trivial⟩) hsound trivial (show t.findindex .nil = .ok 0 from rfl)
    (show t.size < 0 + (t.size + 1) by omega)
  refine ⟨visited, t', htraversal, hvisits.nodup, fun p hp => ?_, fun k hk => ?_⟩
  · obtain ⟨t₁, -, hkept, hvalue⟩ := hvisits.value p hp
    rw [← hlookup]
    exact hkept.lookup p.1 (by rw [hvalue]; exact Option.some_ne_none p.2)
  · obtain ⟨v, hv⟩ := Option.ne_none_iff_exists'.mp hk
    obtain ⟨i, -, hi⟩ := hvisits.kept.sound.exists_element hv
    exact hvisits.all i k v (Nat.zero_le i) hi

theorem traversal_of_run_collisions :
    ∃ visited t', traversal (assigning fun _ _ => none) (collided.size + 1) collided .nil = .ok (visited, t') ∧
      (visited.map Prod.fst).Nodup ∧ (∀ p ∈ visited, contents collisions p.1 ≠ none) ∧
      ∀ k, t'.lookup k ≠ none → k ∈ visited.map Prod.fst :=
  traversal_of_run (Nat.zero_le MAXASIZE) (show Table.luaH_new 0 0 = .ok ⟨[], 0, [], 0⟩ from rfl)
    valid_collisions run_collisions fun _ _ _ => Table.modified_assigning

/-- A traversal that changes nothing lists the elements, each once. -/
theorem elements_of_traversal (hsize : narray ≤ MAXASIZE) (hnew : Table.luaH_new narray nhash = .ok t₀)
    (hops : ∀ op ∈ ops, op.Valid) (hrun : run ops t₀ = .ok t) :
    ∃ visited, traversal (fun _ _ t => t) (t.size + 1) t .nil = .ok (visited, t) ∧
      (visited.map Prod.fst).Nodup ∧ ∀ k v, (k, v) ∈ visited ↔ contents ops k = some v := by
  obtain ⟨hsound, hlookup⟩ := sound_run hsize hnew hops hrun
  rw [← hlookup]
  exact hsound.traversal_elements

theorem elements_of_traversal_collisions :
    ∃ visited, traversal (fun _ _ t => t) (collided.size + 1) collided .nil = .ok (visited, collided) ∧
      (visited.map Prod.fst).Nodup ∧ ∀ k v, (k, v) ∈ visited ↔ contents collisions k = some v :=
  elements_of_traversal (Nat.zero_le MAXASIZE) (show Table.luaH_new 0 0 = .ok ⟨[], 0, [], 0⟩ from rfl)
    valid_collisions run_collisions

end TuxBot.Lua.Ltable
