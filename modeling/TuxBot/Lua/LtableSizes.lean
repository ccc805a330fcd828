import TuxBot.Lua.LtableMap

/-! How a rehash counts the integer keys, and what size it gives to the array part. -/
namespace TuxBot.Lua.Ltable

variable {K V : Type} {nums : List Nat} {ks : List Nat} {i j m n na narray fuel a : Nat}

theorem ceillog2_le (hi : 1 ≤ i) : ceillog2 i ≤ m ↔ i ≤ 2 ^ m := by
  rw [ceillog2]
  split
  · have hpos := Nat.two_pow_pos m
    omega
  · rw [Nat.succ_le_iff, Nat.log2_lt (by omega)]
    omega

/-- `nums` tells how many of the keys are in each slice. -/
structure Counts (nums ks : List Nat) : Prop where
  length : nums.length = MAXBITS + 1
  slice : ∀ j, nums.getD j 0 = ks.countP fun i => ceillog2 i = j
  bound : ∀ i ∈ ks, 1 ≤ i ∧ i ≤ MAXASIZE

theorem counts_nil : Counts (List.replicate (MAXBITS + 1) 0) [] :=
  ⟨List.length_replicate, fun j => by
    rw [List.getD_eq_getElem?_getD, List.getElem?_replicate]
    split <;> rfl, nofun⟩

theorem ceillog2_lt (hi : 1 ≤ i) (hmax : i ≤ MAXASIZE) : ceillog2 i < MAXBITS + 1 :=
  Nat.lt_succ_of_le ((ceillog2_le hi).mpr hmax)

/-- Keys of one slice are added. -/
theorem Counts.add (h : Counts nums ks) {ls : List Nat}
    (hls : ∀ i ∈ ls, ceillog2 i = j ∧ 1 ≤ i ∧ i ≤ MAXASIZE) (hj : j < MAXBITS + 1) :
    Counts (nums.modify j (· + ls.length)) (ks ++ ls) := by
  refine ⟨(List.length_modify ..).trans h.length, fun j' => ?_, fun i hi => ?_⟩
  · rw [List.countP_append, ← h.slice, List.getD_eq_getElem?_getD, List.getElem?_modify,
      List.getD_eq_getElem?_getD]
    by_cases hjj : j = j'
    · subst hjj
      have hall : ls.countP (fun i => ceillog2 i = j) = ls.length :=
        List.countP_eq_length.mpr fun i hi => by simpa using (hls i hi).1
      rw [hall, List.getElem?_eq_getElem (h.length ▸ hj)]
      simp
    · have hnone : ls.countP (fun i => ceillog2 i = j') = 0 :=
        List.countP_eq_zero.mpr fun i hi => by simpa [(hls i hi).1] using hjj
      simp [hjj, hnone]
  · rcases List.mem_append.mp hi with hi | hi
    · exact h.bound i hi
    · exact (hls i hi).2

/-- The keys of the first slices are those up to a power of two. -/
theorem Counts.sum_take (h : Counts nums ks) (m : Nat) :
    (nums.take (m + 1)).sum = ks.countP fun i => i ≤ 2 ^ m := by
  have hle (m : Nat) : ks.countP (fun i => i ≤ 2 ^ m) = ks.countP fun i => ceillog2 i ≤ m :=
    List.countP_congr fun i hi => by simp [ceillog2_le (h.bound i hi).1]
  have htake (m : Nat) : (nums.take (m + 1)).sum = (nums.take m).sum + nums.getD m 0 := by
    rw [List.take_add_one, List.sum_append, List.getD_eq_getElem?_getD]
    cases nums[m]? <;> simp
  rw [hle]
  induction m with
  | zero =>
    rw [htake, h.slice]
    simp
  | succ m ih =>
    rw [htake, ih, h.slice]
    clear ih hle htake h
    induction ks with
    | nil => rfl
    | cons i ks ih =>
      simp only [List.countP_cons, decide_eq_true_eq]
      split <;> split <;> split <;> omega

/-- What `computesizes` gives: a size of which more than half is used, and what fits into it. -/
def Fits (nums : List Nat) (na n : Nat) : Prop :=
  na = 0 ∧ n = 0 ∨ ∃ m ≤ MAXBITS, n = 2 ^ m ∧ na = (nums.take (m + 1)).sum ∧ n / 2 < na

theorem fits_computesizesLoop (hfits : Fits nums na n) (ha : a = (nums.take i).sum)
    (hfuel : i + fuel = MAXBITS + 1) :
    Fits nums (computesizesLoop nums narray fuel i a na n).1
      (computesizesLoop nums narray fuel i a na n).2 := by
  induction fuel generalizing i a na n with
  | zero => exact hfits
  | succ fuel ih =>
    rw [computesizesLoop]
    by_cases hgoes : 2 ^ i / 2 < narray
    · have htake : a + nums.getD i 0 = (nums.take (i + 1)).sum := by
        rw [List.take_add_one, List.sum_append, List.getD_eq_getElem?_getD, ha]
        cases nums[i]? <;> simp
      simp only [if_pos hgoes]
      generalize hr : (if nums.getD i 0 > 0 ∧ a + nums.getD i 0 > 2 ^ i / 2
        then (a + nums.getD i 0, 2 ^ i) else (na, n)) = r
      have hr' : Fits nums r.1 r.2 := by
        rw [← hr]
        split
        · rename_i hmore
          exact Or.inr ⟨i, by omega, rfl, htake, hmore.2⟩
        · exact hfits
      split
      · exact hr'
      · exact ih hr' htake (by omega)
    · simp only [if_neg hgoes]
      exact hfits

theorem fits_computesizes (nums : List Nat) (narray : Nat) :
    Fits nums (computesizes nums narray).1 (computesizes nums narray).2 :=
  fits_computesizesLoop (Or.inl ⟨rfl, rfl⟩) rfl rfl

/-- The new size leaves room for all keys up to it, and these are more than half of it. -/
theorem Counts.fits (h : Counts nums ks) (hfits : Fits nums na n) :
    n ≤ MAXASIZE ∧ na = ks.countP (fun i => i ≤ n) ∧ (n = 0 ∨ n / 2 < na) := by
  rcases hfits with ⟨rfl, rfl⟩ | ⟨m, hm, rfl, rfl, hhalf⟩
  · refine ⟨Nat.zero_le _, ?_, Or.inl rfl⟩
    refine (List.countP_eq_zero.mpr fun i hi => ?_).symm
    have hpos := (h.bound i hi).1
    simp only [decide_eq_true_eq]
    omega
  · exact ⟨Nat.pow_le_pow_right (by decide) hm, h.sum_take m, Or.inr hhalf⟩

/-! ### The largest size -/

/-- More than half of the slots up to a power of two would be in use. -/
def Worth (ks : List Nat) (m : Nat) : Prop := 2 ^ m / 2 < ks.countP fun i => i ≤ 2 ^ m

theorem Counts.countP_le (h : Counts nums ks) (hnodup : ks.Nodup) (b : Nat) :
    ks.countP (fun i => i ≤ b) ≤ b := by
  have hsubset : ks.filter (fun i => i ≤ b) ⊆ List.range' 1 b := by
    intro i hi
    have hpos := (h.bound i (List.mem_of_mem_filter hi)).1
    have hle := List.of_mem_filter hi
    simp only [decide_eq_true_eq] at hle
    exact List.mem_range'_1.mpr (by omega)
  have hle := (List.subperm_of_subset (hnodup.filter _) hsubset).length_le
  rwa [← List.countP_eq_length_filter, List.length_range'] at hle

/-- No size beyond one that has all the keys, or beyond twice their number, is worth it. -/
theorem Counts.not_worth (h : Counts nums ks) (hnodup : ks.Nodup)
    (hall : ks.length ≤ 2 ^ i / 2 ∨ i ≠ 0 ∧ ks.length = ks.countP fun k => k ≤ 2 ^ (i - 1))
    (him : i ≤ m) : ¬ Worth ks m := by
  have hlength : ks.length ≤ 2 ^ i / 2 := by
    rcases hall with hle | ⟨hi, heq⟩
    · exact hle
    · have hcount := h.countP_le hnodup (2 ^ (i - 1))
      have hpow : 2 ^ i = 2 * 2 ^ (i - 1) := by
        rw [← Nat.pow_succ', Nat.succ_eq_add_one, Nat.sub_add_cancel (Nat.pos_of_ne_zero hi)]
      omega
  have hpow : 2 ^ i ≤ 2 ^ m := Nat.pow_le_pow_right (by decide) him
  have hcount : ks.countP (fun k => k ≤ 2 ^ m) ≤ ks.length := List.countP_le_length
  rw [Worth]
  omega

/-- A slice without keys makes no size worth it. -/
theorem Counts.not_worth_slice (h : Counts nums ks) (hnodup : ks.Nodup) (hnone : nums.getD i 0 = 0) :
    ¬ Worth ks i := by
  have hsame : ks.countP (fun k => k ≤ 2 ^ i) = (nums.take i).sum := by
    rw [← h.sum_take, List.take_add_one, List.sum_append]
    rw [List.getD_eq_getElem?_getD] at hnone
    cases hget : nums[i]? with
    | none => simp
    | some c =>
      rw [hget] at hnone
      simpa using hnone
  rw [Worth, hsame]
  cases i with
  | zero => simp
  | succ i =>
    have hcount := h.countP_le hnodup (2 ^ i)
    rw [h.sum_take, Nat.pow_succ]
    omega

theorem largest_computesizesLoop (h : Counts nums ks) (hnodup : ks.Nodup) (hn : narray = ks.length)
    (ha : a = (nums.take i).sum) (hfuel : i + fuel = MAXBITS + 1) (hpow : n ≤ 2 ^ i)
    (hlargest : ∀ m < i, Worth ks m → 2 ^ m ≤ n) :
    ∀ m ≤ MAXBITS, Worth ks m → 2 ^ m ≤ (computesizesLoop nums narray fuel i a na n).2 := by
  induction fuel generalizing i a na n with
  | zero => exact fun m hm => hlargest m (by omega)
  | succ fuel ih =>
    intro m hm hworth
    rw [computesizesLoop]
    by_cases hgoes : 2 ^ i / 2 < narray
    · have htake : a + nums.getD i 0 = (nums.take (i + 1)).sum := by
        rw [List.take_add_one, List.sum_append, List.getD_eq_getElem?_getD, ha]
        cases nums[i]? <;> simp
      have hsum := h.sum_take i
      simp only [if_pos hgoes]
      generalize hr : (if nums.getD i 0 > 0 ∧ a + nums.getD i 0 > 2 ^ i / 2
        then (a + nums.getD i 0, 2 ^ i) else (na, n)) = r
      have hr' : r.2 ≤ 2 ^ (i + 1) ∧ ∀ m < i + 1, Worth ks m → 2 ^ m ≤ r.2 := by
        have hdouble : 2 ^ i ≤ 2 ^ (i + 1) := Nat.pow_le_pow_right (by decide) (Nat.le_succ i)
        rw [← hr]
        split
        · exact ⟨hdouble, fun m hm _ => Nat.pow_le_pow_right (by decide) (by omega)⟩
        · rename_i hless
          refine ⟨Nat.le_trans hpow hdouble, fun m hm hworth => ?_⟩
          rcases Nat.lt_succ_iff_lt_or_eq.mp hm with hlt | rfl
          · exact hlargest m hlt hworth
          · have hsome : nums.getD m 0 > 0 := by
              refine Nat.pos_of_ne_zero fun hzero => ?_
              exact h.not_worth_slice hnodup hzero hworth
            have hmore : a + nums.getD m 0 > 2 ^ m / 2 := by rw [htake, hsum]; exact hworth
            exact absurd ⟨hsome, hmore⟩ hless
      split
      · rename_i hall
        rcases Nat.lt_or_ge m (i + 1) with hlt | hge
        · exact hr'.2 m hlt hworth
        · refine absurd hworth (h.not_worth hnodup (Or.inr ⟨Nat.succ_ne_zero i, ?_⟩) hge)
          rw [← hn, ← hall, htake, hsum]
          rfl
      · exact ih htake (by omega) hr'.1 hr'.2 m hm hworth
    · simp only [if_neg hgoes]
      rcases Nat.lt_or_ge m i with hlt | hge
      · exact hlargest m hlt hworth
      · exact absurd hworth (h.not_worth hnodup (Or.inl (by omega)) hge)

theorem largest_computesizes (h : Counts nums ks) (hnodup : ks.Nodup) (hm : m ≤ MAXBITS)
    (hworth : Worth ks m) : 2 ^ m ≤ (computesizes nums ks.length).2 :=
  have hnone : ∀ m < 0, Worth ks m → 2 ^ m ≤ 0 := fun m hm => absurd hm (Nat.not_lt_zero m)
  largest_computesizesLoop h hnodup rfl List.sum_nil.symm (Nat.zero_add _) (Nat.zero_le _) hnone m hm
    hworth

/-! ### The elements -/

section

variable [Key K] {k : K} {v : V}

/-- The index of a key that may go to the array part. -/
def candidate (k : K) : Option Nat :=
  if 0 < arrayindex k ∧ arrayindex k ≤ MAXASIZE then some (arrayindex k).toNat else none

theorem candidate_eq_some :
    candidate k = some i ↔ Key.toInt k = some (i : Int) ∧ 1 ≤ i ∧ i ≤ MAXASIZE := by
  rw [candidate, arrayindex]
  cases hz : Key.toInt k with
  | none => simp
  | some z =>
    simp only [Option.getD_some, Option.some.injEq]
    split
    · simp only [Option.some.injEq]
      omega
    · simp only [reduceCtorEq, false_iff]
      omega

theorem ceillog2_candidate (hi : candidate k = some i) : ceillog2 i < MAXBITS + 1 :=
  ceillog2_lt (candidate_eq_some.mp hi).2.1 (candidate_eq_some.mp hi).2.2

theorem candidate_ofInt (hi : 1 ≤ i) (hmax : i ≤ MAXASIZE) : candidate (Key.ofInt i : K) = some i := by
  have hbound : (MAXASIZE : Int) < 2 ^ 31 := by decide
  exact candidate_eq_some.mpr ⟨Key.toInt_ofInt i (by omega) (by omega), hi, hmax⟩

theorem Counts.countint (h : Counts nums ks) (k : K) :
    Counts (countint k nums).1 (ks ++ (candidate k).toList) ∧
      (countint k nums).2 = (candidate k).toList.length := by
  rw [Ltable.countint, candidate]
  split
  · rename_i hk
    have hi : candidate k = some (arrayindex k).toNat := if_pos hk
    have hbound := (candidate_eq_some.mp hi).2
    have hslice : ∀ i ∈ [(arrayindex k).toNat],
        ceillog2 i = ceillog2 (arrayindex k).toNat ∧ 1 ≤ i ∧ i ≤ MAXASIZE := by simpa using hbound
    exact ⟨h.add hslice (ceillog2_candidate hi), rfl⟩
  · exact ⟨by simpa using h, rfl⟩

/-- The elements that are left in an array part, the first slot of which has the index `i`. -/
def arrayelements : List (Option V) → Nat → List (K × V)
  | [], _ => []
  | none :: vs, i => arrayelements vs (i + 1)
  | some v :: vs, i => (Key.ofInt i, v) :: arrayelements vs (i + 1)

/-- The element of a node. -/
def Node.element (n : Node K V) : Option (K × V) :=
  match n.key, n.val with
  | .key k, some v => some (k, v)
  | _, _ => none

omit [Key K] in
theorem Node.element_eq_some {n : Node K V} :
    n.element = some (k, v) ↔ n.key = .key k ∧ n.val = some v := by
  obtain ⟨key, val, next⟩ := n
  cases key <;> cases val <;> simp [Node.element]

def nodeelements (ns : List (Node K V)) : List (K × V) := ns.filterMap Node.element

/-- The indices of the elements that may go to the array part. -/
def candidates (ps : List (K × V)) : List Nat := ps.filterMap fun p => candidate p.1

theorem candidates_cons (p : K × V) (ps : List (K × V)) :
    candidates (p :: ps) = (candidate p.1).toList ++ candidates ps := by
  rw [candidates, List.filterMap_cons]
  cases candidate p.1 <;> rfl

namespace Table

variable {t : Table K V}

def elements (t : Table K V) : List (K × V) := arrayelements t.array 1 ++ nodeelements t.node

theorem numusehashLoop_eq (h : Counts nums ks) (ns : List (Node K V)) (ause totaluse : Nat) :
    Counts (numusehashLoop ns nums ause totaluse).1 (ks ++ candidates (nodeelements ns)) ∧
      (numusehashLoop ns nums ause totaluse).2 =
        (ause + (candidates (nodeelements ns)).length, totaluse + (nodeelements ns).length) := by
  induction ns generalizing nums ks ause totaluse with
  | nil => exact ⟨by simpa [numusehashLoop, nodeelements, candidates] using h, rfl⟩
  | cons n ns ih =>
    cases hn : n.element with
    | none =>
      have hskip :
          numusehashLoop (n :: ns) nums ause totaluse = numusehashLoop ns nums ause totaluse := by
        obtain ⟨key, val, next⟩ := n
        cases key <;> cases val <;> first | rfl | cases hn
      have hsame : nodeelements (n :: ns) = nodeelements ns := List.filterMap_cons_none hn
      rw [hskip, hsame]
      exact ih h ause totaluse
    | some p =>
      have hkey := Node.element_eq_some.mp hn
      have hcons : nodeelements (n :: ns) = p :: nodeelements ns := List.filterMap_cons_some hn
      obtain ⟨hcounts, hc⟩ := h.countint p.1
      obtain ⟨hrest, hsums⟩ := ih hcounts (ause + (candidate p.1).toList.length) (totaluse + 1)
      have hloop : numusehashLoop (n :: ns) nums ause totaluse =
          numusehashLoop ns (Ltable.countint p.1 nums).1 (ause + (candidate p.1).toList.length)
            (totaluse + 1) := by
        rw [numusehashLoop, hkey.1, hkey.2, ← hc]
      rw [hloop, hcons, candidates_cons]
      refine ⟨by simpa using hrest, hsums.trans ?_⟩
      simp only [List.length_append, List.length_cons, Prod.mk.injEq]
      omega

omit [Key K] in
/-- The loop of `numusearray` is at the slice of `lg`, and the keys below `i` have been counted. -/
theorem numusearrayLoop_eq (h : Counts nums ks) (hsize : t.array.length ≤ MAXASIZE) {lg r : Nat}
    (ause : Nat) (hlg : lg + r = MAXBITS + 1)
    (hi : i = if lg = 0 then 1 else min (2 ^ (lg - 1)) t.array.length + 1) :
    Counts (numusearrayLoop t (List.range' lg r) i nums ause).1
        (ks ++ (List.range' i (t.array.length + 1 - i)).filter t.inuse) ∧
      (numusearrayLoop t (List.range' lg r) i nums ause).2 =
        ause + ((List.range' i (t.array.length + 1 - i)).filter t.inuse).length := by
  induction r generalizing lg i nums ks ause with
  | zero =>
    have hend : t.array.length + 1 - i = 0 := by
      have hmin : min (2 ^ (lg - 1)) t.array.length = t.array.length := by
        obtain rfl : lg = MAXBITS + 1 := hlg
        exact Nat.min_eq_right hsize
      rw [hi, hmin, if_neg (by omega)]
      omega
    rw [hend]
    exact ⟨by simpa [numusearrayLoop] using h, rfl⟩
  | succ r ih =>
    rw [List.range'_succ, numusearrayLoop]
    generalize hlim : min (2 ^ lg) t.array.length = lim
    by_cases hbreak : 2 ^ lg > t.array.length ∧ i > lim
    · have hend : t.array.length + 1 - i = 0 := by omega
      simp only [if_pos hbreak, hend]
      exact ⟨by simpa using h, rfl⟩
    · have hpow : lg = 0 ∨ 2 ^ lg = 2 * 2 ^ (lg - 1) := by
        rcases Nat.eq_zero_or_pos lg with hzero | hpos
        · exact Or.inl hzero
        · exact Or.inr (by rw [← Nat.pow_succ', Nat.succ_eq_add_one, Nat.sub_add_cancel hpos])
      have hpow0 : lg = 0 → 2 ^ lg = 1 := by
        rintro rfl
        rfl
      have hile : i ≤ lim + 1 := by split at hi <;> omega
      have hslice (j : Nat) (hj : j ∈ (List.range' i (lim + 1 - i)).filter t.inuse) :
          ceillog2 j = lg ∧ 1 ≤ j ∧ j ≤ MAXASIZE := by
        have hmem := List.mem_range'_1.mp (List.mem_of_mem_filter hj)
        have hone : 1 ≤ j := by split at hi <;> omega
        have hle : ceillog2 j ≤ lg := (ceillog2_le hone).mpr (by omega)
        refine ⟨Nat.le_antisymm hle ?_, hone, by omega⟩
        rcases Nat.eq_zero_or_pos lg with hzero | hpos
        · omega
        · have hnot : ¬ ceillog2 j ≤ lg - 1 := by
            rw [ceillog2_le hone]
            rw [if_neg (Nat.pos_iff_ne_zero.mp hpos)] at hi
            omega
          omega
      have happend : List.range' i (t.array.length + 1 - i) =
          List.range' i (lim + 1 - i) ++ List.range' (lim + 1) (t.array.length + 1 - (lim + 1)) := by
        have hsplit := List.range'_append_1 (s := i) (m := lim + 1 - i)
          (n := t.array.length + 1 - (lim + 1))
        rw [show i + (lim + 1 - i) = lim + 1 by omega] at hsplit
        rw [hsplit]
        congr 1
        omega
      have hadd := h.add hslice (by omega)
      rw [← List.countP_eq_length_filter] at hadd
      have hlg' : lg + 1 + r = MAXBITS + 1 := by omega
      obtain ⟨hcounts, hsum⟩ := ih hadd (ause + (List.range' i (lim + 1 - i)).countP t.inuse) hlg'
        (i := lim + 1) (by simp [hlim])
      simp only [if_neg hbreak, happend, List.filter_append, List.length_append]
      refine ⟨by simpa using hcounts, hsum.trans ?_⟩
      rw [List.countP_eq_length_filter]
      omega

/-- The array part from a slot on. -/
theorem arrayelements_eq {before vs : List (Option V)} (harray : t.array = before ++ vs)
    (hsize : t.array.length ≤ MAXASIZE) :
    candidates (arrayelements (K := K) vs (before.length + 1)) =
        (List.range' (before.length + 1) vs.length).filter t.inuse ∧
      (arrayelements (K := K) vs (before.length + 1)).length =
        ((List.range' (before.length + 1) vs.length).filter t.inuse).length := by
  induction vs generalizing before with
  | nil => exact ⟨rfl, rfl⟩
  | cons v vs ih =>
    obtain ⟨hcands, hlength⟩ := ih (show t.array = (before ++ [v]) ++ vs by simpa using harray)
    rw [List.length_append, List.length_singleton] at hcands hlength
    have hread : t.inuse (before.length + 1) = v.isSome := by
      simp [inuse, harray]
    have hbound : before.length + 1 ≤ MAXASIZE := by
      refine Nat.le_trans ?_ hsize
      rw [harray, List.length_append, List.length_cons]
      omega
    rw [List.length_cons, List.range'_succ, List.filter_cons, hread]
    cases v with
    | none => exact ⟨hcands, hlength⟩
    | some v =>
      rw [arrayelements, candidates_cons, candidate_ofInt (by omega) hbound, List.length_cons, hlength,
        hcands]
      exact ⟨rfl, rfl⟩

theorem numusearray_eq (h : Counts nums ks) (hsize : t.array.length ≤ MAXASIZE) :
    Counts (numusearray t nums).1 (ks ++ candidates (arrayelements (K := K) t.array 1)) ∧
      (numusearray t nums).2 = (arrayelements (K := K) t.array 1).length ∧
      (numusearray t nums).2 = (candidates (arrayelements (K := K) t.array 1)).length := by
  obtain ⟨hcands, hlength⟩ := arrayelements_eq (K := K) (show t.array = [] ++ t.array from rfl) hsize
  have hloop := numusearrayLoop_eq (i := 1) h hsize 0 (Nat.zero_add (MAXBITS + 1)) rfl
  rw [List.length_nil, Nat.zero_add] at hcands hlength
  rw [hcands, hlength, numusearray, List.range_eq_range']
  simpa using hloop

theorem numusehash_eq (h : Counts nums ks) (t : Table K V) (pnasize : Nat) :
    Counts (numusehash t nums pnasize).1 (ks ++ candidates (nodeelements t.node.reverse)) ∧
      (numusehash t nums pnasize).2 = (pnasize + (candidates (nodeelements t.node.reverse)).length,
        (nodeelements t.node.reverse).length) := by
  obtain ⟨hcounts, hsums⟩ := numusehashLoop_eq h t.node.reverse 0 0
  rw [Nat.zero_add, Nat.zero_add] at hsums
  refine ⟨hcounts, ?_⟩
  have hpair := congrArg (fun s : Nat × Nat => (pnasize + s.1, s.2)) hsums
  exact hpair

end Table

end

end TuxBot.Lua.Ltable
