import Mathlib.Data.List.Perm.Subperm
import TuxBot.Lua.Ltable

/-! The nodes of a table: every key is found from its main position, and a key that is not in its main
position has another one there that is. -/
namespace TuxBot.Lua.Ltable.Table

variable {K V : Type} {t t' : Table K V} {k k' : K} {v : V} {n : Node K V} {i j : Nat} {l : List Nat}
  {p q : Nat → Bool}

/-- A property that fewer have, and still the one that was found. -/
theorem find?_of_imp (h : l.find? q = some i) (himp : ∀ j ∈ l, p j = true → q j = true)
    (hi : p i = true) : l.find? p = some i := by
  induction l with
  | nil => cases h
  | cons j l ih =>
    by_cases hj : j = i
    · subst hj
      rw [List.find?_cons_of_pos hi]
    · have hq : ¬ q j = true := by
        intro hq
        rw [List.find?_cons_of_pos hq] at h
        exact hj (Option.some.inj h)
      rw [List.find?_cons_of_neg hq] at h
      rw [List.find?_cons_of_neg fun hp => hq (himp j List.mem_cons_self hp)]
      exact ih h fun j' hj' => himp j' (List.mem_cons_of_mem j hj')

/-! ### Nodes -/

@[simp] theorem setnode_array (t : Table K V) (i : Nat) (n : Node K V) :
    (t.setnode i n).array = t.array := rfl

@[simp] theorem setnode_lsizenode (t : Table K V) (i : Nat) (n : Node K V) :
    (t.setnode i n).lsizenode = t.lsizenode := rfl

@[simp] theorem setnode_lastfree (t : Table K V) (i : Nat) (n : Node K V) :
    (t.setnode i n).lastfree = t.lastfree := rfl

@[simp] theorem length_setnode (t : Table K V) (i : Nat) (n : Node K V) :
    (t.setnode i n).node.length = t.node.length := List.length_set

theorem gnode_setnode (hi : i < t.node.length) (n : Node K V) (j : Nat) :
    (t.setnode i n).gnode j = if j = i then n else t.gnode j := by
  rw [gnode, setnode, List.getD_eq_getElem?_getD, List.getElem?_set]
  by_cases hj : j = i
  · subst hj
    simp [hi]
  · rw [if_neg (Ne.symm hj), if_neg hj, gnode, List.getD_eq_getElem?_getD]

theorem gnode_of_le (h : t.node.length ≤ i) : t.gnode i = dummynode := by
  rw [gnode, List.getD_eq_getElem?_getD, List.getElem?_eq_none h, Option.getD_none]

theorem gnode_eq_getElem (hi : i < t.node.length) : t.gnode i = t.node[i] := by
  rw [gnode, List.getD_eq_getElem?_getD, List.getElem?_eq_getElem hi, Option.getD_some]

theorem lt_of_key_ne (h : (t.gnode i).key ≠ .nil) : i < t.node.length := by
  by_contra hle
  exact h (by rw [gnode_of_le (Nat.le_of_not_lt hle)]; rfl)

/-- The node has the key. -/
def Holds (t : Table K V) (k : K) (i : Nat) : Prop := (t.gnode i).key = .key k

theorem Holds.ne_nil (h : t.Holds k i) : (t.gnode i).key ≠ .nil := by
  rw [h]
  exact nofun

theorem Holds.key_eq (h : t.Holds k i) (h' : t.Holds k' i) : k = k' := by
  rw [Holds, h] at h'
  exact NodeKey.key.inj h'

theorem samekey_iff [DecidableEq K] : samekey k n = true ↔ n.key = .key k ∨ n.key = .dead k := by
  simp [samekey]

theorem Holds.samekey [DecidableEq K] (h : t.Holds k i) : samekey k (t.gnode i) = true :=
  samekey_iff.mpr (Or.inl h)

/-! ### Links -/

/-- The links of the nodes make chains that end, and no two of them lead to one node. -/
structure Linked (t : Table K V) : Prop where
  ends : ∀ i, ∃ l, Chain t.gnext (some i) l
  used : ∀ {i j}, t.gnext i = some j → (t.gnode j).key ≠ .nil
  unshared : ∀ {i i' j}, t.gnext i = some j → t.gnext i' = some j → i = i'

theorem Linked.mem_used (h : t.Linked) (hl : Chain t.gnext (some i) l) (hj : j ∈ l) :
    j = i ∨ (t.gnode j).key ≠ .nil := by
  by_cases hne : j = i
  · exact Or.inl hne
  · obtain ⟨prev, -, hlink⟩ := hl.exists_prev hj hne
    exact Or.inr (h.used hlink)

theorem Linked.length_le (h : t.Linked) (hl : Chain t.gnext (some i) l) :
    l.length ≤ t.node.length + 1 := by
  have hnodup := hl.nodup
  obtain ⟨rest, rfl, -⟩ := hl.ne_nil
  have hsubset : rest ⊆ List.range t.node.length := by
    intro j hj
    refine List.mem_range.mpr (lt_of_key_ne ?_)
    refine (h.mem_used hl (List.mem_cons_of_mem i hj)).resolve_left ?_
    rintro rfl
    exact (List.nodup_cons.mp hnodup).1 hj
  have hlength := (List.subperm_of_subset (List.nodup_cons.mp hnodup).2 hsubset).length_le
  simpa using hlength

theorem Linked.walk_eq (h : t.Linked) (hl : Chain t.gnext (some i) l) (p : Node K V → Bool) :
    t.walk p i = l.find? fun j => p (t.gnode j) :=
  hl.seek_eq (h.length_le hl)

/-- A node does not follow itself. -/
theorem Linked.next_ne (h : t.Linked) : t.gnext i ≠ some i := by
  intro hloop
  obtain ⟨l, hl⟩ := h.ends i
  have hnodup := hl.nodup
  obtain ⟨rest, rfl, hrest⟩ := hl.ne_nil
  rw [hloop] at hrest
  obtain ⟨rest', rfl, -⟩ := hrest.ne_nil
  exact (List.nodup_cons.mp hnodup).1 List.mem_cons_self

/-! ### The invariant -/

variable [Key K]

@[simp] theorem mainposition_setnode (t : Table K V) (i : Nat) (n : Node K V) (k : K) :
    (t.setnode i n).mainposition k = t.mainposition k := rfl

variable [DecidableEq K]

/-- What holds of every table. -/
structure Sound (t : Table K V) : Prop extends Linked t where
  asize : t.array.length ≤ MAXASIZE
  lsize : t.lsizenode ≤ MAXBITS
  size : t.node = [] ∨ t.node.length = t.sizenode
  last : t.lastfree ≤ t.node.length
  /-- No free place is at `lastfree` or behind it. -/
  free : ∀ i, t.lastfree ≤ i → i < t.node.length → (t.gnode i).key ≠ .nil
  keyed : ∀ {i v}, (t.gnode i).val = some v → ∃ k, t.Holds k i
  outside : ∀ {k i}, t.Holds k i → ∀ z, Key.toInt k = some z → ¬ (1 ≤ z ∧ z ≤ t.array.length)
  /-- Whatever key is in the main position of another one is in its own. -/
  home : ∀ {k i}, t.Holds k i → (t.gnode (t.mainposition k)).key ≠ .nil ∧
    ∀ k', t.Holds k' (t.mainposition k) → t.mainposition k' = t.mainposition k
  /-- From its main position on, nothing comes before the key that could be taken for it. -/
  found : ∀ {k i}, t.Holds k i → ∀ l, Chain t.gnext (some (t.mainposition k)) l →
    l.find? (fun j => samekey k (t.gnode j)) = some i

namespace Sound

theorem holds_unique (h : t.Sound) (hi : t.Holds k i) (hj : t.Holds k j) : i = j := by
  obtain ⟨l, hl⟩ := h.ends (t.mainposition k)
  exact Option.some.inj ((h.found hi l hl).symm.trans (h.found hj l hl))

/-- The search finds the key wherever it is. -/
theorem search_eq_some (h : t.Sound) : t.search k = some i ↔ t.Holds k i := by
  obtain ⟨l, hl⟩ := h.ends (t.mainposition k)
  rw [search, h.walk_eq hl]
  constructor
  · intro hfind
    simpa [Holds] using List.find?_some hfind
  · intro hi
    refine find?_of_imp (h.found hi l hl) (fun j _ hj => ?_) (by simpa [Holds] using hi)
    exact samekey_iff.mpr (Or.inl (by simpa using hj))

theorem search_eq_none (h : t.Sound) : t.search k = none ↔ ∀ i, ¬ t.Holds k i := by
  constructor
  · intro hnone i hi
    rw [h.search_eq_some.mpr hi] at hnone
    cases hnone
  · intro hnone
    cases hs : t.search k with
    | none => rfl
    | some i => exact absurd (h.search_eq_some.mp hs) (hnone i)

theorem length_node_le (h : t.Sound) : t.node.length ≤ 2 ^ MAXBITS := by
  rcases h.size with hnil | hnode
  · rw [hnil]
    exact Nat.zero_le _
  · rw [hnode, sizenode]
    exact Nat.pow_le_pow_right (by decide) h.lsize

theorem mainposition_lt (h : t.Sound) (hnode : t.node ≠ []) (k : K) :
    t.mainposition k < t.node.length := by
  rw [h.size.resolve_left hnode, mainposition]
  have hpos : 0 < t.sizenode := Nat.two_pow_pos _
  have hodd : 0 < (t.sizenode - 1) ||| 1 := Nat.right_le_or
  have hle : (t.sizenode - 1) ||| 1 ≤ t.sizenode := by
    rw [sizenode] at hpos ⊢
    rcases Nat.eq_zero_or_pos t.lsizenode with hzero | hlsize
    · simp [hzero]
    · exact (Nat.or_lt_two_pow (Nat.sub_one_lt_of_lt hpos)
        (Nat.one_lt_two_pow (Nat.pos_iff_ne_zero.mp hlsize))).le
  split
  · exact Nat.mod_lt _ hpos
  · exact Nat.lt_of_lt_of_le (Nat.mod_lt _ hodd) hle

end Sound

/-! ### Free places -/

/-- How many nodes have never had a key. -/
def room (t : Table K V) : Nat := t.node.countP fun n => decide (n.key = .nil)

omit [Key K] in
theorem room_setnode (hi : i < t.node.length) (n : Node K V) :
    t.room ≤ (t.setnode i n).room + 1 ∧
      ((t.gnode i).key ≠ .nil → t.room ≤ (t.setnode i n).room) := by
  rw [room, room, setnode, List.countP_set hi, ← gnode_eq_getElem hi]
  constructor
  · split <;> omega
  · intro hused
    rw [if_neg (by simpa using hused)]
    omega

omit [Key K] in
theorem getfreepos_eq_some (h : t.getfreepos j = some i) :
    i < j ∧ (t.gnode i).key = .nil ∧ ∀ i', i < i' → i' < j → (t.gnode i').key ≠ .nil := by
  induction j with
  | zero => cases h
  | succ j ih =>
    rw [getfreepos] at h
    split at h
    · rename_i hfree
      cases h
      exact ⟨Nat.lt_succ_self i, hfree, fun i' hlt hlt' => by omega⟩
    · rename_i hused
      obtain ⟨hlt, hfree, hbehind⟩ := ih h
      refine ⟨Nat.lt_succ_of_lt hlt, hfree, fun i' hi hi' => ?_⟩
      rcases Nat.lt_succ_iff_lt_or_eq.mp hi' with hlt' | rfl
      · exact hbehind i' hi hlt'
      · exact hused

omit [Key K] in
theorem getfreepos_eq_none (h : t.getfreepos j = none) : ∀ i < j, (t.gnode i).key ≠ .nil := by
  induction j with
  | zero => exact fun i hi => absurd hi (Nat.not_lt_zero i)
  | succ j ih =>
    rw [getfreepos] at h
    split at h
    · cases h
    · rename_i hused
      intro i hi
      rcases Nat.lt_succ_iff_lt_or_eq.mp hi with hlt | rfl
      · exact ih h i hlt
      · exact hused

/-- A place that `lastfree` can come to. -/
structure Vacant (t : Table K V) (n : Nat) : Prop where
  lt : n < t.node.length
  free : (t.gnode n).key = .nil
  behind : ∀ j, n ≤ j → j < t.node.length → j = n ∨ (t.gnode j).key ≠ .nil

theorem Sound.vacant (h : t.Sound) (hi : t.getfreepos t.lastfree = some i) : t.Vacant i := by
  obtain ⟨hlt, hnil, hbehind⟩ := getfreepos_eq_some hi
  refine ⟨Nat.lt_of_lt_of_le hlt h.last, hnil, fun j hj hlt' => ?_⟩
  rcases Nat.eq_or_lt_of_le hj with rfl | hgt
  · exact Or.inl rfl
  · by_cases hlast : j < t.lastfree
    · exact Or.inr (hbehind j hgt hlast)
    · exact Or.inr (h.free j (Nat.le_of_not_lt hlast) hlt')

/-- Where no free place is found, there is none. -/
theorem Sound.room_eq_zero (h : t.Sound) (hnone : t.getfreepos t.lastfree = none) : t.room = 0 := by
  by_contra hroom
  obtain ⟨n, hmem, hn⟩ := List.countP_pos_iff.mp (Nat.pos_of_ne_zero hroom)
  obtain ⟨j, hj, hget⟩ := List.mem_iff_getElem.mp hmem
  have hfree : (t.gnode j).key = .nil := by
    rw [gnode_eq_getElem hj, hget]
    simpa using hn
  by_cases hlt : j < t.lastfree
  · exact getfreepos_eq_none hnone j hlt hfree
  · exact h.free j (Nat.le_of_not_lt hlt) hj hfree

end TuxBot.Lua.Ltable.Table
