import TuxBot.Lua.LtableSizes

/-! A rehash keeps every element, and leaves room for the key that it makes room for. -/
namespace TuxBot.Lua.Ltable

variable {K V : Type} [Key K] {k : K} {v : V} {vs : List (Option V)} {i j n nasize nhsize : Nat}
  {ps : List (K × V)}

/-! ### Elements -/

theorem mem_arrayelements :
    (k, v) ∈ arrayelements vs i ↔ ∃ j, vs[j]? = some (some v) ∧ k = Key.ofInt (i + j : Nat) := by
  induction vs generalizing i with
  | nil => simp [arrayelements]
  | cons w vs ih =>
    have hshift : (k, v) ∈ arrayelements vs (i + 1) ↔
        ∃ j, (w :: vs)[j + 1]? = some (some v) ∧ k = Key.ofInt (i + (j + 1) : Nat) := by
      rw [ih]
      simp only [List.getElem?_cons_succ, Nat.add_assoc, Nat.add_comm 1]
    cases w with
    | none =>
      rw [arrayelements, hshift]
      constructor
      · rintro ⟨j, hj⟩
        exact ⟨j + 1, hj⟩
      · rintro ⟨j, hv, hk⟩
        cases j with
        | zero => cases hv
        | succ j => exact ⟨j, hv, hk⟩
    | some w =>
      rw [arrayelements, List.mem_cons, hshift]
      constructor
      · rintro (heq | ⟨j, hj⟩)
        · obtain ⟨rfl, rfl⟩ := Prod.mk.inj heq
          exact ⟨0, rfl, rfl⟩
        · exact ⟨j + 1, hj⟩
      · rintro ⟨j, hv, hk⟩
        cases j with
        | zero =>
          obtain rfl := Option.some.inj (Option.some.inj hv)
          exact Or.inl (by rw [hk]; rfl)
        | succ j => exact Or.inr ⟨j, hv, hk⟩

theorem arrayelements_append (vs ws : List (Option V)) (i : Nat) :
    arrayelements (K := K) (vs ++ ws) i = arrayelements vs i ++ arrayelements ws (i + vs.length) := by
  induction vs generalizing i with
  | nil => rfl
  | cons v vs ih =>
    rw [List.cons_append, List.length_cons, Nat.add_comm vs.length, ← Nat.add_assoc]
    cases v <;> simp [arrayelements, ih]

theorem arrayelements_none (n i : Nat) :
    arrayelements (K := K) (List.replicate n (none : Option V)) i = [] := by
  induction n generalizing i with
  | zero => rfl
  | succ n ih =>
    rw [List.replicate_succ, arrayelements]
    exact ih (i + 1)

/-- Different slots belong to different keys. -/
theorem nodup_arrayelements (hbound : i + vs.length ≤ 2 ^ 31) :
    ((arrayelements (K := K) vs i).map Prod.fst).Nodup := by
  induction vs generalizing i with
  | nil => exact List.nodup_nil
  | cons w vs ih =>
    rw [List.length_cons] at hbound
    have hrest := ih (i := i + 1) (by omega)
    cases w with
    | none => exact hrest
    | some w =>
      refine List.nodup_cons.mpr ⟨fun hmem => ?_, hrest⟩
      obtain ⟨⟨k, v⟩, hmem, hk⟩ := List.mem_map.mp hmem
      obtain ⟨j, hj, rfl⟩ := mem_arrayelements.mp hmem
      have hlt := (List.getElem?_eq_some_iff.mp hj).1
      have htoInt := congrArg Key.toInt hk
      rw [Key.toInt_ofInt _ (by omega) (by omega), Key.toInt_ofInt _ (by omega) (by omega)] at htoInt
      have heq := Option.some.inj htoInt
      omega

namespace Table

variable [DecidableEq K] {t t' : Table K V}

omit [Key K] [DecidableEq K] in
theorem mem_nodeelements : (k, v) ∈ nodeelements t.node ↔ t.Keeps k v := by
  rw [nodeelements, List.mem_filterMap]
  constructor
  · rintro ⟨n, hn, helement⟩
    obtain ⟨i, hi, rfl⟩ := List.mem_iff_getElem.mp hn
    have hget := gnode_eq_getElem hi
    obtain ⟨hkey, hval⟩ := Node.element_eq_some.mp helement
    exact ⟨i, by rwa [Holds, hget], by rwa [hget]⟩
  · rintro ⟨i, hkey, hval⟩
    have hi := lt_of_key_ne hkey.ne_nil
    have hget := gnode_eq_getElem hi
    rw [Holds, hget] at hkey
    rw [hget] at hval
    exact ⟨_, List.getElem_mem hi, Node.element_eq_some.mpr ⟨hkey, hval⟩⟩

/-- The first part of the elements are those that belong to the array part. -/
theorem mem_arrayelements_iff (hsize : t.array.length ≤ MAXASIZE) :
    (k, v) ∈ arrayelements t.array 1 ↔ (t.arrayslot k).isSome ∧ t.lookup k = some v := by
  have hbound : (MAXASIZE : Int) < 2 ^ 31 := by decide
  rw [mem_arrayelements]
  constructor
  · rintro ⟨j, hv, rfl⟩
    have hj := (List.getElem?_eq_some_iff.mp hv).1
    have hslot : t.arrayslot (Key.ofInt (1 + j : Nat) : K) = some j := by
      refine arrayslot_eq_some.mpr ⟨?_, hj⟩
      rw [Key.toInt_ofInt _ (by omega) (by omega)]
      congr 1
      omega
    rw [lookup_array hslot, hslot, List.getD_eq_getElem?_getD, hv]
    exact ⟨rfl, rfl⟩
  · rintro ⟨hslot, hv⟩
    obtain ⟨j, hj⟩ := Option.isSome_iff_exists.mp hslot
    rw [lookup_array hj, List.getD_eq_getElem?_getD] at hv
    refine ⟨j, ?_, ?_⟩
    · cases hget : t.array[j]? with
      | none =>
        rw [hget] at hv
        cases hv
      | some w =>
        rw [hget] at hv
        exact congrArg some hv
    · rw [← Key.ofInt_of_toInt (arrayslot_eq_some.mp hj).1]
      congr 1
      omega

theorem Sound.arrayslot_of_keeps (h : t.Sound) (hk : t.Keeps k v) : t.arrayslot k = none := by
  obtain ⟨i, hi, -⟩ := hk
  exact arrayslot_eq_none.mpr (h.outside hi)

theorem Sound.mem_elements (h : t.Sound) : (k, v) ∈ t.elements ↔ t.lookup k = some v := by
  rw [elements, List.mem_append, mem_arrayelements_iff h.asize, mem_nodeelements]
  cases hslot : t.arrayslot k with
  | none => simp [h.lookup_node hslot]
  | some i =>
    have hnot : ¬ t.Keeps k v := by
      intro hk
      rw [h.arrayslot_of_keeps hk] at hslot
      cases hslot
    simp [hnot]

theorem Sound.nodup_nodeelements (h : t.Sound) : ((nodeelements t.node).map Prod.fst).Nodup := by
  rw [List.Nodup, List.pairwise_map, nodeelements, List.pairwise_filterMap, List.pairwise_iff_getElem]
  rintro i j hi hj hij ⟨k, v⟩ hk ⟨k', v'⟩ hk'
  have hheld : t.Holds k i := by
    rw [Holds, gnode_eq_getElem hi]
    exact (Node.element_eq_some.mp hk).1
  have hheld' : t.Holds k' j := by
    rw [Holds, gnode_eq_getElem hj]
    exact (Node.element_eq_some.mp hk').1
  rintro rfl
  exact absurd (h.holds_unique hheld hheld') (Nat.ne_of_lt hij)

/-- No two elements have one key. -/
theorem Sound.nodup_elements (h : t.Sound) : (t.elements.map Prod.fst).Nodup := by
  have hbound : 1 + MAXASIZE ≤ 2 ^ 31 := by decide
  rw [elements, List.map_append]
  refine List.Nodup.append (nodup_arrayelements (by have := h.asize; omega)) h.nodup_nodeelements ?_
  intro k hk hk'
  obtain ⟨⟨k, v⟩, hmem, rfl⟩ := List.mem_map.mp hk
  obtain ⟨⟨k', v'⟩, hmem', rfl⟩ := List.mem_map.mp hk'
  have hslot := ((mem_arrayelements_iff h.asize).mp hmem).1
  rw [h.arrayslot_of_keeps (mem_nodeelements.mp hmem')] at hslot
  cases hslot

/-! ### A new hash part -/

/-- No node has ever had a key. -/
structure Bare (t : Table K V) : Prop where
  asize : t.array.length ≤ MAXASIZE
  lsize : t.lsizenode ≤ MAXBITS
  size : t.node = [] ∨ t.node.length = t.sizenode
  last : t.lastfree = t.node.length
  empty : ∀ n ∈ t.node, n = dummynode

omit [Key K] [DecidableEq K] in
theorem Bare.gnode (h : t.Bare) (i : Nat) : t.gnode i = dummynode := by
  by_cases hi : i < t.node.length
  · rw [gnode_eq_getElem hi]
    exact h.empty _ (List.getElem_mem hi)
  · exact gnode_of_le (Nat.le_of_not_lt hi)

omit [Key K] [DecidableEq K] in
theorem Bare.not_holds (h : t.Bare) : ¬ t.Holds k i := by
  rw [Holds, h.gnode]
  simp [dummynode]

theorem Bare.sound (h : t.Bare) : t.Sound :=
  have hnext (i : Nat) : t.gnext i = none := by rw [gnext, h.gnode]; rfl
  { ends := fun i => ⟨[i], .cons (hnext i ▸ .nil)⟩
    used := fun hlink => absurd ((hnext _).symm.trans hlink) nofun
    unshared := fun hlink => absurd ((hnext _).symm.trans hlink) nofun
    asize := h.asize
    lsize := h.lsize
    size := h.size
    last := h.last.le
    free := fun i hi hlt => absurd hlt (Nat.not_lt.mpr (h.last ▸ hi))
    keyed := fun {i v} hv => by
      rw [h.gnode] at hv
      cases hv
    outside := fun hi => absurd hi h.not_holds
    home := fun hi => absurd hi h.not_holds
    found := fun hi => absurd hi h.not_holds }

omit [Key K] in
theorem Bare.room (h : t.Bare) : t.room = t.node.length :=
  List.countP_eq_length.mpr fun n hn => by simp [h.empty n hn, dummynode]

/-- A bare table has the elements of its array part. -/
theorem Bare.lookup (h : t.Bare) : t.lookup k = some v ↔ (k, v) ∈ arrayelements t.array 1 := by
  have hnodes : nodeelements t.node = [] :=
    List.filterMap_eq_nil_iff.mpr fun n hn => by rw [h.empty n hn]; rfl
  rw [← h.sound.mem_elements, elements, hnodes, List.append_nil]

omit [Key K] [DecidableEq K] in
/-- A new hash part has the room that is asked for, if it can be had. -/
theorem setnodevector_cases (hsize : t.array.length ≤ MAXASIZE) (size : Nat) :
    2 ^ MAXBITS < size ∧ t.setnodevector size = .error (.run "table overflow") ∨
      ∃ t', t.setnodevector size = .ok t' ∧ t'.array = t.array ∧ t'.Bare ∧ size ≤ t'.node.length := by
  rw [setnodevector]
  by_cases hzero : size = 0
  · rw [if_pos hzero]
    exact Or.inr ⟨_, rfl, rfl, ⟨hsize, Nat.zero_le _, Or.inl rfl, rfl, nofun⟩, Nat.le_of_eq hzero⟩
  · have hpos : 1 ≤ size := Nat.pos_of_ne_zero hzero
    simp only [if_neg hzero]
    by_cases hover : ceillog2 size > MAXBITS
    · rw [if_pos hover]
      refine Or.inl ⟨?_, rfl⟩
      rw [gt_iff_lt, ← Nat.not_le, ceillog2_le hpos] at hover
      exact Nat.lt_of_not_le hover
    · rw [if_neg hover]
      refine Or.inr ⟨_, rfl, rfl, ⟨hsize, Nat.le_of_not_lt hover, Or.inr List.length_replicate,
        List.length_replicate.symm, fun n hn => List.eq_of_mem_replicate hn⟩, ?_⟩
      rw [List.length_replicate]
      exact (ceillog2_le hpos).mp (Nat.le_refl _)

/-! ### Putting the elements back -/

section

variable (new : Table K V → K → Except Error (Table K V × Slot))

theorem reinsertnodes_eq (ns : List (Node K V)) (t : Table K V) :
    reinsertnodes new ns t = assignall new (nodeelements ns) t := by
  induction ns generalizing t with
  | nil => rfl
  | cons n ns ih =>
    cases hn : n.element with
    | none =>
      have hskip : reinsertnodes new (n :: ns) t = reinsertnodes new ns t := by
        obtain ⟨key, val, next⟩ := n
        cases key <;> cases val <;> first | rfl | cases hn
      rw [hskip, ih, nodeelements, nodeelements, List.filterMap_cons_none hn]
    | some p =>
      obtain ⟨hkey, hval⟩ := Node.element_eq_some.mp hn
      rw [nodeelements, List.filterMap_cons_some hn, ← nodeelements, reinsertnodes, hkey, hval,
        assignall]
      simp only [ih]

theorem reinsertslice_eq (hbound : i + vs.length ≤ 2 ^ 31) (t : Table K V) :
    reinsertslice new vs i t = assignall new (arrayelements vs i) t := by
  induction vs generalizing i t with
  | nil => rfl
  | cons w vs ih =>
    rw [List.length_cons] at hbound
    cases w with
    | none => exact ih (i := i + 1) (by omega) t
    | some w =>
      have hset : setnum new t i = setkey new t (Key.ofInt i) := by
        rw [setnum, setkey, luaH_getnum_eq t (by omega) (by omega)]
      have hrest (t : Table K V) := ih (i := i + 1) (by omega) t
      rw [reinsertslice, arrayelements, assignall, hset]
      simp only [hrest]

theorem assignall_append (ps qs : List (K × V)) (t : Table K V) :
    assignall new (ps ++ qs) t = assignall new ps t >>= assignall new qs := by
  induction ps generalizing t with
  | nil => rfl
  | cons p ps ih =>
    rw [List.cons_append, assignall, assignall]
    simp only [ih, bind_assoc]

end

omit [DecidableEq K] in
theorem outsiders_add (hsize : t.array.length ≤ MAXASIZE) (ps : List (K × V)) :
    t.outsiders ps + (candidates ps).countP (fun i => i ≤ t.array.length) = ps.length := by
  induction ps with
  | nil => rfl
  | cons p ps ih =>
    have hone : (if (t.arrayslot p.1).isNone then 1 else 0) +
        (candidate p.1).toList.countP (fun i => i ≤ t.array.length) = 1 := by
      cases hslot : t.arrayslot p.1 with
      | some j =>
        obtain ⟨hz, hj⟩ := arrayslot_eq_some.mp hslot
        have hcandidate : candidate p.1 = some (j + 1) :=
          candidate_eq_some.mpr ⟨by simpa using hz, by omega, by omega⟩
        rw [hcandidate]
        simpa using Nat.succ_le_of_lt hj
      | none =>
        cases hcandidate : candidate p.1 with
        | none => rfl
        | some i =>
          obtain ⟨hz, hpos, -⟩ := candidate_eq_some.mp hcandidate
          have hout := arrayslot_eq_none.mp hslot _ hz
          simp
          omega
    rw [candidates_cons, List.countP_append, List.length_cons, outsiders, List.countP_cons, ← outsiders]
    omega

/-- The elements that were not kept in the array part are put back into a bare table. -/
theorem Sound.restore (h : t.Sound) {u : Table K V} (hu : u.Bare) (depth : Nat)
    (hperm : (arrayelements u.array 1 ++ ps).Perm t.elements)
    (hroom : t.elements.length ≤
      u.node.length + (candidates t.elements).countP fun i => i ≤ u.array.length) :
    ∃ t', Table.assignall (Table.newkey depth) ps u = .ok t' ∧ t'.Sound ∧
      t'.array.length = u.array.length ∧ (∀ k, t'.lookup k = t.lookup k) ∧
      u.node.length + (candidates t.elements).countP (fun i => i ≤ u.array.length) ≤
        t'.room + t.elements.length := by
  have hnodup := (hperm.map Prod.fst).nodup_iff.mpr h.nodup_elements
  rw [List.map_append] at hnodup
  have hkept : u.outsiders (arrayelements u.array 1) = 0 :=
    List.countP_eq_zero.mpr fun p hp => by
      have hslot := ((mem_arrayelements_iff hu.asize).mp hp).1
      simpa using Option.isSome_iff_ne_none.mp hslot
  have hout : u.outsiders ps = u.outsiders t.elements := by
    have happend : u.outsiders (arrayelements u.array 1 ++ ps) =
        u.outsiders (arrayelements u.array 1) + u.outsiders ps := List.countP_append
    have hsame : u.outsiders (arrayelements u.array 1 ++ ps) = u.outsiders t.elements :=
      hperm.countP_eq _
    omega
  have hadd := outsiders_add hu.asize t.elements
  have hnew (p : K × V) (hp : p ∈ ps) : u.lookup p.1 = none := by
    cases hv : u.lookup p.1 with
    | none => rfl
    | some v =>
      have hmem := List.mem_map_of_mem (f := Prod.fst) (hu.lookup.mp hv)
      exact absurd (List.mem_map_of_mem hp) ((List.nodup_append.mp hnodup).2.2 _ hmem _ · rfl)
  have hfits : u.outsiders ps ≤ u.room := by
    rw [hu.room]
    omega
  obtain ⟨t', hall, hextends⟩ := hu.sound.assignall hfits hnew
    (List.nodup_append.mp hnodup).2.1 depth
  refine ⟨t', hall, hextends.sound, hextends.array, fun k => Option.ext fun v => ?_, ?_⟩
  · rw [hextends.lookup, hu.lookup, ← h.mem_elements, ← hperm.mem_iff, List.mem_append]
  · have hleft := hextends.room
    rw [hu.room] at hleft
    omega

/-- What a table becomes when it is given other sizes. -/
structure Resized (t : Table K V) (nasize nhsize : Nat) (t' : Table K V) : Prop where
  sound : t'.Sound
  array : t'.array.length = nasize
  lookup : ∀ k, t'.lookup k = t.lookup k
  room : nhsize + (candidates t.elements).countP (fun i => i ≤ nasize) ≤ t'.room + t.elements.length

omit [Key K] [DecidableEq K] in
theorem length_setarrayvector (t : Table K V) (size : Nat) :
    (t.setarrayvector size).array.length = size := by
  rw [setarrayvector, List.length_append, List.length_take, List.length_replicate]
  omega

omit [Key K] [DecidableEq K] in
theorem Bare.setarrayvector (h : t.Bare) (hsize : nasize ≤ MAXASIZE) : (t.setarrayvector nasize).Bare :=
  ⟨(length_setarrayvector t nasize).symm ▸ hsize, h.lsize, h.size, h.last, h.empty⟩

omit [Key K] [DecidableEq K] in
theorem nodeelements_reverse (t : Table K V) :
    (nodeelements t.node.reverse).Perm (nodeelements t.node) := by
  rw [nodeelements, List.filterMap_reverse]
  exact List.reverse_perm _

omit [DecidableEq K] in
/-- The elements that remain in the array part, and those of the slice that vanishes. -/
theorem arrayelements_setarrayvector (t : Table K V) (size : Nat) :
    arrayelements (t.setarrayvector size).array 1 ++ arrayelements (t.array.drop size) (size + 1) =
      arrayelements (K := K) t.array 1 := by
  rw [setarrayvector, arrayelements_append, arrayelements_none, List.append_nil]
  conv_rhs => rw [← List.take_append_drop size t.array, arrayelements_append, List.length_take]
  rcases Nat.le_total size t.array.length with hle | hle
  · rw [Nat.min_eq_left hle, Nat.add_comm 1]
  · rw [List.drop_eq_nil_of_le hle]
    rfl

/-- The array part may as well take its new size once the new nodes are there. -/
theorem resize_eq (new : Table K V → K → Except Error (Table K V × Slot))
    (hbound : t.array.length ≤ MAXASIZE) (nasize nhsize : Nat) : resize new t nasize nhsize =
      t.setnodevector nhsize >>= fun t' => assignall new
        (arrayelements (t.array.drop nasize) (nasize + 1) ++ nodeelements t.node.reverse)
        (t'.setarrayvector nasize) := by
  have hmax : MAXASIZE < 2 ^ 31 := by decide
  have harray {t' : Table K V} (ht' : t.setnodevector nhsize = .ok t') : t'.array = t.array := by
    rcases setnodevector_cases hbound nhsize with ⟨-, herror⟩ | ⟨t₁, hok, harray, -⟩
    · rw [herror] at ht'
      cases ht'
    · obtain rfl := Except.ok.inj (hok.symm.trans ht')
      exact harray
  rcases Nat.lt_or_ge nasize t.array.length with hshrinks | hgrows
  · rw [resize]
    simp only [if_neg (Nat.not_lt.mpr hshrinks.le), if_pos hshrinks, reinsertnodes_eq]
    cases hnodes : t.setnodevector nhsize with
    | error e => rfl
    | ok t' =>
      have hslice := reinsertslice_eq new
        (show nasize + 1 + (t.array.drop nasize).length ≤ 2 ^ 31 by rw [List.length_drop]; omega)
      simp only [bind, Except.bind, harray hnodes, hslice, assignall_append]
  · have hgrown : (if nasize > t.array.length then t.setarrayvector nasize else t) =
        t.setarrayvector nasize := by
      rcases Nat.lt_or_ge t.array.length nasize with hlt | hle
      · exact if_pos hlt
      · rw [if_neg (Nat.not_lt.mpr hle), setarrayvector, List.take_of_length_le hgrows,
          Nat.sub_eq_zero_of_le hle, List.replicate_zero, List.append_nil]
    have hcomm : (t.setarrayvector nasize).setnodevector nhsize =
        t.setnodevector nhsize >>= fun t' => .ok (t'.setarrayvector nasize) := by
      rw [setnodevector, setnodevector]
      split
      · rfl
      · dsimp only
        split <;> rfl
    rw [resize]
    simp only [hgrown, hcomm, if_neg (Nat.not_lt.mpr hgrows), reinsertnodes_eq,
      List.drop_eq_nil_of_le hgrows]
    cases t.setnodevector nhsize <;> rfl

/-- All elements are kept when the sizes are big enough, however they move between the two parts. -/
theorem Sound.resize (h : t.Sound) (hsize : nasize ≤ MAXASIZE) (depth : Nat)
    (hroom : t.elements.length ≤ nhsize + (candidates t.elements).countP fun i => i ≤ nasize) :
    2 ^ MAXBITS < nhsize ∧
        Table.resize (Table.newkey depth) t nasize nhsize = .error (.run "table overflow") ∨
      ∃ t', Table.resize (Table.newkey depth) t nasize nhsize = .ok t' ∧ Resized t nasize nhsize t' := by
  rw [resize_eq _ h.asize]
  rcases setnodevector_cases h.asize nhsize with ⟨hmany, herror⟩ | ⟨t₁, hok, harray, hbare, hnodes⟩
  · exact Or.inl ⟨hmany, by rw [herror]; rfl⟩
  · have hlength := length_setarrayvector t₁ nasize
    have hperm : (arrayelements (t₁.setarrayvector nasize).array 1 ++
        (arrayelements (t.array.drop nasize) (nasize + 1) ++ nodeelements t.node.reverse)).Perm
          t.elements := by
      rw [← List.append_assoc, ← harray, arrayelements_setarrayvector, elements, harray]
      exact t.nodeelements_reverse.append_left _
    have hroom' := Nat.le_trans hroom (Nat.add_le_add_right hnodes _)
    rw [← hlength] at hroom'
    obtain ⟨t', hall, hsound, harray', hlookup, hleft⟩ :=
      h.restore (hbare.setarrayvector hsize) depth hperm hroom'
    rw [hlength] at hleft harray'
    refine Or.inr ⟨t', by rw [hok]; exact hall, hsound, harray', hlookup, ?_⟩
    exact Nat.le_trans (Nat.add_le_add_right hnodes _) hleft

/-! ### Rehashing for a key -/

/-- What a table becomes when it is rehashed for a key. -/
structure Rehashed (t : Table K V) (k : K) (t' : Table K V) : Prop where
  sound : t'.Sound
  lookup : ∀ k, t'.lookup k = t.lookup k
  room : t'.arrayslot k = none → 0 < t'.room

omit [DecidableEq K] in
/-- A key that fits into the array part has its slot there. -/
theorem candidate_of_arrayslot (h : t.arrayslot k = none) :
    (candidate k).toList.countP (fun i => i ≤ t.array.length) = 0 := by
  cases hk : candidate k with
  | none => rfl
  | some i =>
    obtain ⟨hz, hpos, -⟩ := candidate_eq_some.mp hk
    have hout := arrayslot_eq_none.mp h _ hz
    simp
    omega

/-- The sizes that a rehash comes to are computed from the integer keys. -/
theorem rehash_eq (new : Table K V → K → Except Error (Table K V × Slot))
    (hsize : t.array.length ≤ MAXASIZE) (k : K) :
    ∃ nums ks, Counts nums ks ∧ ks.Perm (candidates t.elements ++ (candidate k).toList) ∧
      rehash new t k = resize new t (computesizes nums ks.length).2
        (t.elements.length + 1 - (computesizes nums ks.length).1) := by
  obtain ⟨hc₁, hn₁, hl₁⟩ := numusearray_eq (K := K) counts_nil hsize
  generalize h₁ : t.numusearray (List.replicate (MAXBITS + 1) 0) = r₁ at hc₁ hn₁ hl₁
  obtain ⟨hc₂, hn₂⟩ := numusehash_eq hc₁ t r₁.2
  generalize h₂ : t.numusehash r₁.1 r₁.2 = r₂ at hc₂ hn₂
  obtain ⟨hc₃, hl₃⟩ := hc₂.countint k
  generalize h₃ : countint k r₂.1 = r₃ at hc₃ hl₃
  have hnodes := t.nodeelements_reverse
  refine ⟨r₃.1, _, hc₃, ?_, ?_⟩
  · rw [List.nil_append, elements, candidates, candidates, candidates, List.filterMap_append]
    exact ((hnodes.filterMap _).append_left _).append_right _
  · have hlength : r₂.2.1 + r₃.2 = ([] ++ candidates (arrayelements (K := K) t.array 1) ++
        candidates (nodeelements t.node.reverse) ++ (candidate k).toList).length := by
      simp only [hn₂, hl₃, hl₁, List.length_append, List.length_nil, Nat.zero_add]
    have htotal : r₁.2 + r₂.2.2 = t.elements.length := by
      rw [hn₁, hn₂, elements, List.length_append, hnodes.length_eq]
    rw [← hlength, ← htotal, ← h₃, ← h₂, ← h₁]
    rfl

/-- A rehash comes down to a resize with sizes that are big enough. -/
theorem Sound.rehash_resized (h : t.Sound) (k : K) (depth : Nat) :
    ∃ nums ks, Counts nums ks ∧ ks.Perm (candidates t.elements ++ (candidate k).toList) ∧
      (2 ^ MAXBITS ≤ t.elements.length ∧
          Table.rehash (Table.newkey depth) t k = .error (.run "table overflow") ∨
        ∃ t', Table.rehash (Table.newkey depth) t k = .ok t' ∧
          Resized t (computesizes nums ks.length).2
            (t.elements.length + 1 - (computesizes nums ks.length).1) t') := by
  obtain ⟨nums, ks, hcounts, hperm, hrehash⟩ := rehash_eq (Table.newkey depth) h.asize k
  refine ⟨nums, ks, hcounts, hperm, ?_⟩
  obtain ⟨hmax, hna, -⟩ := hcounts.fits (fits_computesizes nums ks.length)
  rw [hrehash]
  generalize computesizes nums ks.length = r at hmax hna
  rw [hperm.countP_eq, List.countP_append] at hna
  have hle : (candidates t.elements).countP (fun i => i ≤ r.2) ≤ t.elements.length :=
    Nat.le_trans List.countP_le_length (List.length_filterMap_le _ _)
  have hone : (candidate k).toList.countP (fun i => i ≤ r.2) ≤ 1 := by
    refine Nat.le_trans List.countP_le_length ?_
    cases candidate k <;> simp
  have hroom : t.elements.length ≤ (t.elements.length + 1 - r.1) +
      (candidates t.elements).countP fun i => i ≤ r.2 := by omega
  rcases h.resize hmax depth hroom with ⟨hmany, herror⟩ | hresized
  · exact Or.inl ⟨by omega, herror⟩
  · exact Or.inr hresized

theorem Sound.rehash (h : t.Sound) (k : K) (depth : Nat) :
    2 ^ MAXBITS ≤ t.elements.length ∧
        Table.rehash (Table.newkey depth) t k = .error (.run "table overflow") ∨
      ∃ t', Table.rehash (Table.newkey depth) t k = .ok t' ∧ Rehashed t k t' := by
  obtain ⟨nums, ks, hcounts, hperm, hfull | ⟨t', hok, hresized⟩⟩ := h.rehash_resized k depth
  · exact Or.inl hfull
  · obtain ⟨-, hna, -⟩ := hcounts.fits (fits_computesizes nums ks.length)
    rw [hperm.countP_eq, List.countP_append] at hna
    refine Or.inr ⟨t', hok, hresized.sound, hresized.lookup, fun hslot => ?_⟩
    have hzero := candidate_of_arrayslot hslot
    have hroom := hresized.room
    rw [hresized.array] at hzero
    have hle : (candidates t.elements).countP (fun i => i ≤ (computesizes nums ks.length).2) ≤
        t.elements.length := Nat.le_trans List.countP_le_length (List.length_filterMap_le _ _)
    omega

/-- A key that is not in the table gets a slot, after a rehash if need be. -/
theorem Sound.newkey_total (h : t.Sound) (hk : t.Fresh k) (depth : Nat) (w : Option V) :
    2 ^ MAXBITS ≤ t.elements.length ∧
        Table.newkey (depth + 1) t k = .error (.run "table overflow") ∨
      ∃ t' slot, Table.newkey (depth + 1) t k = .ok (t', slot) ∧ (t'.setvalue slot w).Sound ∧
        ∀ k', (t'.setvalue slot w).lookup k' = if k' = k then w else t.lookup k' := by
  rcases h.newkey hk with ⟨t', i, hnew, hplaced⟩ | ⟨-, -, hnew⟩
  · have hassigns := hplaced.assigns h w
    exact Or.inr ⟨t', .node i, hnew (depth + 1), hassigns.sound, hassigns.lookup⟩
  · rw [hnew]
    rcases h.rehash k depth with ⟨hmany, herror⟩ | ⟨t₁, hok, hrehashed⟩
    · exact Or.inl ⟨hmany, by rw [herror]; rfl⟩
    · obtain ⟨t', slot, hset, hassigns⟩ := hrehashed.sound.setkey hrehashed.room depth w
      refine Or.inr ⟨t', slot, by rw [hok]; exact hset, hassigns.sound, fun k' => ?_⟩
      rw [hassigns.lookup, hrehashed.lookup]

end Table

end TuxBot.Lua.Ltable
