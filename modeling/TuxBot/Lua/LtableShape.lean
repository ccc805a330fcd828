import TuxBot.Lua.LtableRuns

/-! The shape of a table: where its keys are, and how large its array part is. -/
namespace TuxBot.Lua.Ltable

variable {K V : Type} [Key K] [DecidableEq K] {t t₀ t' : Table K V} {k : K} {v : V} {i m n depth : Nat}
  {narray nhash : Nat} {ops : List (Op K V)}

/-- How many of the integers up to `n` have a value, or are the key. -/
def intkeys (values : K → Option V) (k : K) (n : Nat) : Nat :=
  (List.range' 1 n).countP fun i => (values (Key.ofInt (i : Nat))).isSome ∨ Key.ofInt (i : Nat) = k

/-- More than half of an array part of that size would be in use. -/
def HalfUsed (values : K → Option V) (k : K) (n : Nat) : Prop := n / 2 < intkeys values k n

namespace Table

/-! ### The size of the array part -/

omit [DecidableEq K] in
theorem candidate_inj {k k' : K} (hi : candidate k = some i) (hi' : candidate k' = some i) :
    k = k' := by
  rw [← Key.ofInt_of_toInt (candidate_eq_some.mp hi).1,
    ← Key.ofInt_of_toInt (candidate_eq_some.mp hi').1]

omit [DecidableEq K] in
theorem candidate_iff : candidate k = some i ↔ Key.ofInt i = k ∧ 1 ≤ i ∧ i ≤ MAXASIZE := by
  constructor
  · intro hi
    obtain ⟨hz, hpos, hmax⟩ := candidate_eq_some.mp hi
    exact ⟨Key.ofInt_of_toInt hz, hpos, hmax⟩
  · rintro ⟨rfl, hpos, hmax⟩
    exact candidate_ofInt hpos hmax

/-- The integers that are counted for a key, which are those of the keys that are there and its own. -/
def counted (t : Table K V) (k : K) : List Nat := candidates t.elements ++ (candidate k).toList

theorem Sound.mem_counted (h : t.Sound) : i ∈ t.counted k ↔
    ((t.lookup (Key.ofInt i)).isSome ∨ Key.ofInt i = k) ∧ 1 ≤ i ∧ i ≤ MAXASIZE := by
  rw [counted, List.mem_append, candidates, List.mem_filterMap, or_and_right]
  refine or_congr ⟨?_, ?_⟩ ?_
  · rintro ⟨⟨k', v⟩, hmem, hi⟩
    obtain ⟨rfl, hbound⟩ := candidate_iff.mp hi
    rw [h.mem_elements] at hmem
    exact ⟨by rw [hmem]; rfl, hbound⟩
  · rintro ⟨hsome, hbound⟩
    obtain ⟨v, hv⟩ := Option.isSome_iff_exists.mp hsome
    exact ⟨(Key.ofInt i, v), h.mem_elements.mpr hv, candidate_iff.mpr ⟨rfl, hbound⟩⟩
  · rw [Option.mem_toList]
    exact candidate_iff

theorem Sound.nodup_counted (h : t.Sound) (hk : t.lookup k = none) : (t.counted k).Nodup := by
  have hkeys : candidates t.elements = (t.elements.map Prod.fst).filterMap candidate := by
    rw [List.filterMap_map]
    rfl
  refine List.Nodup.append ?_ (by cases candidate k <;> simp) fun i hi hi' => ?_
  · rw [hkeys]
    exact h.nodup_elements.filterMap fun k k' i hi hi' => candidate_inj hi hi'
  · obtain ⟨⟨k', v⟩, hmem, hk'⟩ := List.mem_filterMap.mp hi
    have hki : candidate k = some i := by simpa using hi'
    obtain rfl := candidate_inj hki hk'
    rw [h.mem_elements, hk] at hmem
    cases hmem

theorem Sound.countP_counted (h : t.Sound) (hk : t.lookup k = none) (hn : n ≤ MAXASIZE) :
    ((t.counted k).countP fun i => i ≤ n) = intkeys t.lookup k n := by
  rw [intkeys, List.countP_eq_length_filter, List.countP_eq_length_filter]
  refine List.Perm.length_eq ((List.perm_ext_iff_of_nodup ((h.nodup_counted hk).filter _)
    ((List.nodup_range' ..).filter _)).mpr fun i => ?_)
  simp only [List.mem_filter, h.mem_counted, List.mem_range'_1, decide_eq_true_eq]
  constructor
  · rintro ⟨⟨hkey, hpos, -⟩, hle⟩
    exact ⟨by omega, hkey⟩
  · rintro ⟨hbound, hkey⟩
    exact ⟨⟨hkey, by omega, by omega⟩, by omega⟩

/-- A rehash gives the array part the largest size of which more than half will be in use. -/
theorem Sound.rehash_size (h : t.Sound) (hk : t.lookup k = none)
    (hok : Table.rehash (Table.newkey depth) t k = .ok t') :
    (t'.array.length = 0 ∨
      ∃ m ≤ MAXBITS, t'.array.length = 2 ^ m ∧ HalfUsed t.lookup k t'.array.length) ∧
      ∀ m ≤ MAXBITS, HalfUsed t.lookup k (2 ^ m) → 2 ^ m ≤ t'.array.length := by
  obtain ⟨nums, ks, hcounts, hperm, ⟨-, herror⟩ | ⟨t₁, hok₁, hresized⟩⟩ := h.rehash_resized k depth
  · rw [herror] at hok
    cases hok
  obtain rfl := Except.ok.inj (hok.symm.trans hok₁)
  have hnodup := hperm.nodup_iff.mpr (h.nodup_counted hk)
  have hcount {m : Nat} (hm : m ≤ MAXBITS) :
      (ks.countP fun i => i ≤ 2 ^ m) = intkeys t.lookup k (2 ^ m) := by
    rw [← h.countP_counted hk (Nat.pow_le_pow_right (by decide) hm)]
    exact hperm.countP_eq _
  rw [hresized.array]
  refine ⟨?_, fun m hm hhalf => largest_computesizes hcounts hnodup hm ?_⟩
  · rcases fits_computesizes nums ks.length with ⟨-, hzero⟩ | ⟨m, hm, hn, hna, hhalf⟩
    · exact Or.inl hzero
    · refine Or.inr ⟨m, hm, hn, ?_⟩
      rwa [HalfUsed, hn, ← hcount hm, ← hcounts.sum_take, ← hna, ← hn]
  · rwa [Worth, hcount hm]

/-! ### The place of a key -/

/-- A key is behind its main position, and has been put elsewhere only because of another one that has
the same main position. -/
structure Housed (t : Table K V) (k : K) (i : Nat) : Prop where
  outside : ∀ z, Key.toInt k = some z → ¬ (1 ≤ z ∧ z ≤ t.array.length)
  reached : ∃ l, Chain t.gnext (some (t.mainposition k)) l ∧ i ∈ l
  alone : ∀ j, t.Holds k j → j = i
  home : t.mainposition k ≠ i → (t.gnode (t.mainposition k)).key ≠ .nil ∧
    ∀ k', t.Holds k' (t.mainposition k) → t.mainposition k' = t.mainposition k

theorem Sound.housed (h : t.Sound) (hi : t.Holds k i) : t.Housed k i := by
  obtain ⟨l, hl⟩ := h.ends (t.mainposition k)
  exact ⟨h.outside hi, ⟨l, hl, List.mem_of_find?_eq_some (h.found hi l hl)⟩,
    fun j hj => h.holds_unique hj hi, fun _ => h.home hi⟩

end Table

/-! ### Reachable tables -/

/-- When a table is rehashed for a key, its array part gets the largest power of two as its size such
that more than half of it will be in use. -/
theorem rehash_size_of_run (hsize : narray ≤ MAXASIZE) (hnew : Table.luaH_new narray nhash = .ok t₀)
    (hops : ∀ op ∈ ops, op.Valid) (hrun : run ops t₀ = .ok t) (hk : contents ops k = none)
    (hok : t.rehash (Table.newkey depth) k = .ok t') :
    (t'.array.length = 0 ∨
      ∃ m ≤ MAXBITS, t'.array.length = 2 ^ m ∧ HalfUsed (contents ops) k t'.array.length) ∧
      ∀ m ≤ MAXBITS, HalfUsed (contents ops) k (2 ^ m) → 2 ^ m ≤ t'.array.length := by
  obtain ⟨hsound, hlookup⟩ := sound_run hsize hnew hops hrun
  rw [← hlookup] at hk ⊢
  exact hsound.rehash_size hk hok

theorem rehash_size_of_run_collisions :
    (2 = 0 ∨ ∃ m ≤ MAXBITS, 2 = 2 ^ m ∧ HalfUsed (contents collisions) 2 2) ∧
      ∀ m ≤ MAXBITS, HalfUsed (contents collisions) 2 (2 ^ m) → 2 ^ m ≤ 2 :=
  rehash_size_of_run (Nat.zero_le MAXASIZE) (show Table.luaH_new 0 0 = .ok ⟨[], 0, [], 0⟩ from rfl)
    valid_collisions run_collisions (show contents collisions 2 = none by decide)
    (show collided.rehash (Table.newkey 0) 2 =
      .ok ⟨[some 10, none], 0, [⟨.key 104, some 30, none⟩], 1⟩ by decide +kernel)

/-- Every key of a node is where the walk from its main position comes by, and nowhere else; if it is not
in its main position, the key that is there is in its own. -/
theorem housed_of_run (hsize : narray ≤ MAXASIZE) (hnew : Table.luaH_new narray nhash = .ok t₀)
    (hops : ∀ op ∈ ops, op.Valid) (hrun : run ops t₀ = .ok t) (hi : (t.gnode i).key = .key k) :
    t.Housed k i :=
  (sound_run hsize hnew hops hrun).1.housed hi

theorem housed_of_run_collisions : collided.Housed 104 1 :=
  housed_of_run (Nat.zero_le MAXASIZE) (show Table.luaH_new 0 0 = .ok ⟨[], 0, [], 0⟩ from rfl)
    valid_collisions run_collisions (show (collided.gnode 1).key = .key 104 from rfl)

end TuxBot.Lua.Ltable
