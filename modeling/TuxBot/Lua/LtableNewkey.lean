import Mathlib.Data.List.Find
import TuxBot.Lua.LtableSound

/-! A new key is given a node: its main position, or a free place when another element has that. -/
namespace TuxBot.Lua.Ltable.Table

variable {K V : Type} {t t' : Table K V} {k k' : K} {v : V} {i j mp n previous : Nat} {l : List Nat}

/-! ### Links -/

/-- Where the links come from when `n` has been linked in: one leads to it, its own was that of `mp`, and
the others were there before. -/
def LinksIn (t t' : Table K V) (mp n : Nat) : Prop :=
  ∃ a, ∀ i j, t'.gnext i = some j →
    i = a ∧ j = n ∨ i = n ∧ t.gnext mp = some j ∨ i ≠ mp ∧ t.gnext i = some j

theorem LinksIn.used (hin : LinksIn t t' mp n) (h : t.Linked)
    (hkeys : ∀ i, i = n ∨ (t.gnode i).key ≠ .nil → (t'.gnode i).key ≠ .nil)
    (hi : t'.gnext i = some j) : (t'.gnode j).key ≠ .nil := by
  obtain ⟨a, hin⟩ := hin
  rcases hin i j hi with ⟨-, hj⟩ | ⟨-, hlink⟩ | ⟨-, hlink⟩
  · exact hkeys j (Or.inl hj)
  · exact hkeys j (Or.inr (h.used hlink))
  · exact hkeys j (Or.inr (h.used hlink))

theorem LinksIn.unshared (hin : LinksIn t t' mp n) (h : t.Linked) (hfree : (t.gnode n).key = .nil)
    {i' : Nat} (hi : t'.gnext i = some j) (hi' : t'.gnext i' = some j) : i = i' := by
  have hnot {i : Nat} : t.gnext i ≠ some n := fun hlink => h.used hlink hfree
  obtain ⟨a, hin⟩ := hin
  rcases hin i j hi with ⟨rfl, rfl⟩ | ⟨rfl, hlink⟩ | ⟨himp, hlink⟩ <;>
    rcases hin i' j hi' with ⟨rfl, hj⟩ | ⟨rfl, hlink'⟩ | ⟨himp', hlink'⟩
  · rfl
  · exact absurd hlink' hnot
  · exact absurd hlink' hnot
  · exact absurd (hj ▸ hlink) hnot
  · rfl
  · exact absurd (h.unshared hlink' hlink) himp'
  · exact absurd (hj ▸ hlink) hnot
  · exact absurd (h.unshared hlink hlink') himp
  · exact h.unshared hlink hlink'

/-- A free place is linked in behind a node. -/
theorem Linked.insert (h : t.Linked) (hused : (t.gnode mp).key ≠ .nil) (hfree : (t.gnode n).key = .nil)
    (hmp : t'.gnext mp = some n) (hn : t'.gnext n = t.gnext mp)
    (hrest : ∀ i, i ≠ mp → i ≠ n → t'.gnext i = t.gnext i)
    (hkeys : ∀ i, i = n ∨ (t.gnode i).key ≠ .nil → (t'.gnode i).key ≠ .nil) :
    t'.Linked ∧ ∀ {i l}, i ≠ n → Chain t.gnext (some i) l →
      Chain t'.gnext (some i) (l.flatMap fun j => if j = mp then [mp, n] else [j]) := by
  have hnot {i : Nat} : t.gnext i ≠ some n := fun hlink => h.used hlink hfree
  have hne : mp ≠ n := by
    rintro rfl
    exact hused hfree
  have hchain {i : Nat} {l : List Nat} (hi : i ≠ n) (hl : Chain t.gnext (some i) l) :
      Chain t'.gnext (some i) (l.flatMap fun j => if j = mp then [mp, n] else [j]) := by
    refine hl.insert hmp hn fun j hj hjmp => hrest j hjmp ?_
    rintro rfl
    rcases h.mem_used hl hj with heq | hkey
    · exact hi heq.symm
    · exact hkey hfree
  have hin : LinksIn t t' mp n := by
    refine ⟨mp, fun i j hi => ?_⟩
    by_cases himp : i = mp
    · rw [himp, hmp] at hi
      exact Or.inl ⟨himp, (Option.some.inj hi).symm⟩
    · by_cases hin : i = n
      · rw [hin, hn] at hi
        exact Or.inr (Or.inl ⟨hin, hi⟩)
      · rw [hrest i himp hin] at hi
        exact Or.inr (Or.inr ⟨himp, hi⟩)
  refine ⟨⟨fun i => ?_, hin.used h hkeys, hin.unshared h hfree⟩, hchain⟩
  by_cases hi : i = n
  · -- the place is on the chain from `mp`
    obtain ⟨l, hl⟩ := h.ends mp
    have hl' := hchain hne hl
    obtain ⟨rest, rfl, -⟩ := hl.ne_nil
    rw [List.flatMap_cons, if_pos rfl] at hl'
    obtain ⟨rest', heq, hrest'⟩ := hl'.ne_nil
    rw [hmp] at hrest'
    exact ⟨rest', hi ▸ hrest'⟩
  · obtain ⟨l, hl⟩ := h.ends i
    exact ⟨_, hchain hi hl⟩

/-- Where a node goes that is moved from `mp` to `n`. -/
def moved (mp n i : Nat) : Nat := if i = mp then n else i

theorem moved_of_ne (hi : i ≠ mp) : moved mp n i = i := if_neg hi

/-- A node is moved to a free place, and its old place is left out of the chain. -/
theorem Linked.move (h : t.Linked) (hfree : (t.gnode n).key = .nil) (hmp : (t.gnode mp).key ≠ .nil)
    (hprevious : t.gnext previous = some mp) (hprev : (t.gnode previous).key ≠ .nil)
    (hlink : t'.gnext previous = some n) (hn : t'.gnext n = t.gnext mp) (hout : t'.gnext mp = none)
    (hrest : ∀ i, i ≠ previous → i ≠ mp → i ≠ n → t'.gnext i = t.gnext i)
    (hkeys : ∀ i, i = n ∨ (t.gnode i).key ≠ .nil → (t'.gnode i).key ≠ .nil) :
    t'.Linked ∧ ∀ {i l}, i ≠ mp → i ≠ n → Chain t.gnext (some i) l →
      Chain t'.gnext (some i) (l.map (moved mp n)) := by
  have hnot {i : Nat} : t.gnext i ≠ some n := fun hlink => h.used hlink hfree
  have hne : mp ≠ n := by
    rintro rfl
    exact hmp hfree
  have hpne : previous ≠ mp := by
    rintro rfl
    exact h.next_ne hprevious
  have hpn : previous ≠ n := by
    rintro rfl
    exact hprev hfree
  have hafter : (t.gnext mp).map (moved mp n) = t.gnext mp := by
    cases hnext : t.gnext mp with
    | none => rfl
    | some j =>
      refine congrArg some (moved_of_ne ?_)
      rintro rfl
      exact h.next_ne hnext
  have hcarry {i : Nat} (hin : i ≠ n) : t'.gnext (moved mp n i) = (t.gnext i).map (moved mp n) := by
    by_cases himp : i = mp
    · subst himp
      rw [hafter, moved, if_pos rfl, hn]
    · rw [moved_of_ne himp]
      by_cases hip : i = previous
      · subst hip
        rw [hlink, hprevious, Option.map_some, moved, if_pos rfl]
      · rw [hrest i hip himp hin]
        cases hnext : t.gnext i with
        | none => rfl
        | some j =>
          refine congrArg some (moved_of_ne ?_).symm
          rintro rfl
          exact hip (h.unshared hnext hprevious)
  have hchain {i : Nat} {l : List Nat} (hin : i ≠ n) (hl : Chain t.gnext (some i) l) :
      Chain t'.gnext (some (moved mp n i)) (l.map (moved mp n)) := by
    refine hl.map (moved mp n) fun j hj => hcarry ?_
    rintro rfl
    rcases h.mem_used hl hj with heq | hkey
    · exact hin heq.symm
    · exact hkey hfree
  have hin : LinksIn t t' mp n := by
    refine ⟨previous, fun i j hi => ?_⟩
    by_cases himp : i = mp
    · rw [himp, hout] at hi
      cases hi
    · by_cases hip : i = previous
      · rw [hip, hlink] at hi
        exact Or.inl ⟨hip, (Option.some.inj hi).symm⟩
      · by_cases hin : i = n
        · rw [hin, hn] at hi
          exact Or.inr (Or.inl ⟨hin, hi⟩)
        · rw [hrest i hip himp hin] at hi
          exact Or.inr (Or.inr ⟨himp, hi⟩)
  refine ⟨⟨fun i => ?_, hin.used h hkeys, hin.unshared h hfree⟩, fun himp hin hl => ?_⟩
  · by_cases himp : i = mp
    · subst himp
      refine ⟨[i], .cons ?_⟩
      rw [hout]
      exact .nil
    · by_cases hin : i = n
      · obtain ⟨l, hl⟩ := h.ends mp
        have hl' := hchain hne hl
        rw [moved, if_pos rfl] at hl'
        exact ⟨_, hin ▸ hl'⟩
      · obtain ⟨l, hl⟩ := h.ends i
        have hl' := hchain hin hl
        rw [moved_of_ne himp] at hl'
        exact ⟨_, hl'⟩
  · have hl' := hchain hin hl
    rwa [moved_of_ne himp] at hl'

/-! ### Places -/

variable [Key K] [DecidableEq K]

/-- A node has the key and the value. -/
def Keeps (t : Table K V) (k : K) (v : V) : Prop := ∃ i, t.Holds k i ∧ (t.gnode i).val = some v

/-- The key is nowhere in the table, and has no slot in the array part. -/
structure Fresh (t : Table K V) (k : K) : Prop where
  not_held : ∀ i, ¬ t.Holds k i
  outside : ∀ z, Key.toInt k = some z → ¬ (1 ≤ z ∧ z ≤ t.array.length)

/-- A new key has been given a node, and the elements are the same. -/
structure Placed (t : Table K V) (k : K) (t' : Table K V) (i : Nat) : Prop where
  sound : t'.Sound
  array : t'.array = t.array
  holds : t'.Holds k i
  empty : (t'.gnode i).val = none
  keeps : ∀ k' v, t'.Keeps k' v ↔ t.Keeps k' v
  room : t.room ≤ t'.room + 1

/-- What a key needs to be placed in `i`, while the other elements stay or are moved along `go`. -/
structure Places (t : Table K V) (k : K) (t' : Table K V) (i : Nat) (go : Nat → Nat) : Prop where
  linked : t'.Linked
  array : t'.array = t.array
  length : t'.node.length = t.node.length
  lsizenode : t'.lsizenode = t.lsizenode
  last : t'.lastfree ≤ t.node.length
  free : ∀ j, t'.lastfree ≤ j → j < t.node.length → (t'.gnode j).key ≠ .nil
  holds : t'.Holds k i
  empty : (t'.gnode i).val = none
  /-- What is held elsewhere has been there, or has come there. -/
  origin : ∀ {j}, j ≠ i →
    ∃ j', j = go j' ∧ (t'.gnode j).key = (t.gnode j').key ∧ (t'.gnode j).val = (t.gnode j').val
  kept : ∀ {j v}, (t.gnode j).val = some v →
    (t'.gnode (go j)).key = (t.gnode j).key ∧ (t'.gnode (go j)).val = some v
  room : t.room ≤ t'.room + 1

namespace Places

variable {go : Nat → Nat}

theorem mainposition (hp : Places t k t' i go) (k' : K) : t'.mainposition k' = t.mainposition k' := by
  rw [Table.mainposition, Table.mainposition, sizenode, sizenode, hp.lsizenode]

omit [Key K] in
/-- A key that is held is the new one, or was held before. -/
theorem cases (hp : Places t k t' i go) (hj : t'.Holds k' j) :
    j = i ∧ k' = k ∨ j ≠ i ∧ ∃ j', j = go j' ∧ t.Holds k' j' ∧ (t'.gnode j).val = (t.gnode j').val := by
  by_cases hji : j = i
  · subst hji
    exact Or.inl ⟨rfl, hj.key_eq hp.holds⟩
  · obtain ⟨j', hto, hkey, hval⟩ := hp.origin hji
    rw [Holds, hkey] at hj
    exact Or.inr ⟨hji, j', hto, hj, hval⟩

omit [Key K] in
theorem keeps_iff (hp : Places t k t' i go) : t'.Keeps k' v ↔ t.Keeps k' v := by
  constructor
  · rintro ⟨j, hj, hv⟩
    rcases hp.cases hj with ⟨rfl, -⟩ | ⟨-, j', -, hheld, hval⟩
    · rw [hp.empty] at hv
      cases hv
    · exact ⟨j', hheld, hval ▸ hv⟩
  · rintro ⟨j, hj, hv⟩
    obtain ⟨hkey, hval⟩ := hp.kept hv
    exact ⟨go j, hkey.trans hj, hval⟩

/-- The key is placed if each one is at home and found. -/
theorem placed (hp : Places t k t' i go) (h : t.Sound) (hk : t.Fresh k) (hnode : t.node ≠ [])
    (hhome : ∀ {k' j}, t'.Holds k' j → (t'.gnode (t.mainposition k')).key ≠ .nil ∧
      ∀ k'', t'.Holds k'' (t.mainposition k') → t.mainposition k'' = t.mainposition k')
    (hfound : ∀ {k' j}, t'.Holds k' j → ∀ l, Chain t'.gnext (some (t.mainposition k')) l →
      l.find? (fun j => samekey k' (t'.gnode j)) = some j) : Placed t k t' i where
  sound :=
    { hp.linked with
      asize := hp.array ▸ h.asize
      lsize := hp.lsizenode ▸ h.lsize
      size := Or.inr (by rw [hp.length, sizenode, hp.lsizenode, h.size.resolve_left hnode, sizenode])
      last := hp.length ▸ hp.last
      free := fun j hj hlt => hp.free j hj (hp.length ▸ hlt)
      keyed := fun {j v} hv => by
        have hji : j ≠ i := by
          rintro rfl
          rw [hp.empty] at hv
          cases hv
        obtain ⟨j', -, hkey, hval⟩ := hp.origin hji
        obtain ⟨k', hk'⟩ := h.keyed (hval ▸ hv)
        exact ⟨k', hkey.trans hk'⟩
      outside := fun {k' j} hj => by
        rw [hp.array]
        rcases hp.cases hj with ⟨-, rfl⟩ | ⟨-, j', -, hheld, -⟩
        · exact hk.outside
        · exact h.outside hheld
      home := fun {k' j} hj => by
        simp only [hp.mainposition]
        exact hhome hj
      found := fun {k' j} hj => by
        rw [hp.mainposition]
        exact hfound hj }
  array := hp.array
  holds := hp.holds
  empty := hp.empty
  keeps _ _ := hp.keeps_iff
  room := hp.room

end Places

/-- The main position is taken over from an element that has been removed. -/
theorem Sound.placed_reuse (h : t.Sound) (hk : t.Fresh k) (hnode : t.node ≠ [])
    (hval : (t.gnode (t.mainposition k)).val = none) :
    Placed t k (t.setnode (t.mainposition k) { t.gnode (t.mainposition k) with key := .key k })
      (t.mainposition k) := by
  have hlt := h.mainposition_lt hnode k
  generalize hmp : t.mainposition k = mp at hval hlt
  generalize ht' : t.setnode mp { t.gnode mp with key := .key k } = t'
  have hgnode (j : Nat) :
      t'.gnode j = if j = mp then { t.gnode mp with key := .key k } else t.gnode j := by
    rw [← ht', gnode_setnode hlt]
  have hother {j : Nat} (hj : j ≠ mp) : t'.gnode j = t.gnode j := by rw [hgnode, if_neg hj]
  have hheld : t'.Holds k mp := by rw [Holds, hgnode, if_pos rfl]
  have hnext : t'.gnext = t.gnext := by
    funext j
    by_cases hj : j = mp
    · rw [gnext, hgnode, if_pos hj, hj, gnext]
    · rw [gnext, hother hj, gnext]
  have hused (j : Nat) (hj : (t.gnode j).key ≠ .nil) : (t'.gnode j).key ≠ .nil := by
    by_cases hjmp : j = mp
    · exact hjmp ▸ hheld.ne_nil
    · rwa [hother hjmp]
  have hp : Places t k t' mp id :=
    { linked := ⟨hnext ▸ h.ends, fun hlink => hused _ (h.used (hnext ▸ hlink)), hnext ▸ h.unshared⟩
      array := by rw [← ht', setnode_array]
      length := by rw [← ht', length_setnode]
      lsizenode := by rw [← ht', setnode_lsizenode]
      last := by rw [← ht']; exact h.last
      free := fun j hj hlt => hused j (h.free j (by rwa [← ht'] at hj) hlt)
      holds := hheld
      empty := by rw [hgnode, if_pos rfl]; exact hval
      origin := fun {j} hj => ⟨j, rfl, by rw [hother hj], by rw [hother hj]⟩
      kept := fun {j v} hv => by
        have hj : j ≠ mp := by
          rintro rfl
          rw [hval] at hv
          cases hv
        rw [id, hother hj]
        exact ⟨rfl, hv⟩
      room := by rw [← ht']; exact (room_setnode hlt _).1 }
  refine hp.placed h hk hnode (fun {k' j} hj => ?_) (fun {k' j} hj l hl => ?_)
  · rcases hp.cases hj with ⟨rfl, rfl⟩ | ⟨-, j', -, hj, -⟩
    · rw [hmp]
      exact ⟨hheld.ne_nil, fun k'' hk'' => by rw [← hheld.key_eq hk'', hmp]⟩
    · obtain ⟨hne, hhome⟩ := h.home hj
      refine ⟨hused _ hne, fun k'' hk'' => ?_⟩
      by_cases hm : t.mainposition k' = mp
      · rw [hm] at hk'' ⊢
        rw [← hheld.key_eq hk'', hmp]
      · rw [Holds, hother hm] at hk''
        exact hhome k'' hk''
  · rw [hnext] at hl
    rcases hp.cases hj with ⟨rfl, rfl⟩ | ⟨hjmp, j', rfl, hj', -⟩
    · rw [hmp] at hl
      obtain ⟨rest, rfl, -⟩ := hl.ne_nil
      exact List.find?_cons_of_pos hheld.samekey
    · -- what was at `mp` is no longer there, and `k` is not `k'`
      refine find?_of_imp (h.found hj' l hl) (fun i _ hi => ?_) hj.samekey
      by_cases himp : i = mp
      · subst himp
        rcases samekey_iff.mp hi with hsame | hdead
        · rw [← hheld.key_eq hsame] at hj'
          exact absurd hj' (hk.not_held _)
        · rw [hheld] at hdead
          cases hdead
      · rwa [hother himp] at hi

theorem Vacant.val (hn : t.Vacant n) (h : t.Sound) : (t.gnode n).val = none := by
  cases hv : (t.gnode n).val with
  | none => rfl
  | some v =>
    obtain ⟨k, hk⟩ := h.keyed hv
    exact absurd hn.free hk.ne_nil

omit [Key K] [DecidableEq K] in
theorem Vacant.ne (hn : t.Vacant n) (hi : (t.gnode i).key ≠ .nil) : i ≠ n := by
  rintro rfl
  exact hi hn.free

/-- The element at the main position is at home, and the new key goes to a free place behind it. -/
theorem Sound.placed_chain (h : t.Sound) (hk : t.Fresh k) (hn : t.Vacant n)
    (hmpk : t.Holds k' (t.mainposition k)) (hhome : t.mainposition k' = t.mainposition k)
    (ht' : ({ t with lastfree := n }.setnode n
      { t.gnode n with key := .key k, next := t.gnext (t.mainposition k) }).setnode (t.mainposition k)
        { t.gnode (t.mainposition k) with next := some n } = t') : Placed t k t' n := by
  have hlt := lt_of_key_ne hmpk.ne_nil
  have hmpn := hn.ne hmpk.ne_nil
  generalize hmp : t.mainposition k = mp at *
  have hgnode (j : Nat) : t'.gnode j = if j = mp then { t.gnode mp with next := some n }
      else if j = n then { t.gnode n with key := .key k, next := t.gnext mp } else t.gnode j := by
    rw [← ht', gnode_setnode (by rwa [length_setnode]),
      gnode_setnode (t := { t with lastfree := n }) hn.lt]
    rfl
  have hgn : t'.gnode n = { t.gnode n with key := .key k, next := t.gnext mp } := by
    rw [hgnode, if_neg (Ne.symm hmpn), if_pos rfl]
  have hsame {j : Nat} (hj : j ≠ n) :
      (t'.gnode j).key = (t.gnode j).key ∧ (t'.gnode j).val = (t.gnode j).val := by
    by_cases hjmp : j = mp
    · rw [hgnode, if_pos hjmp, hjmp]
      exact ⟨rfl, rfl⟩
    · rw [hgnode, if_neg hjmp, if_neg hj]
      exact ⟨rfl, rfl⟩
  have hheld : t'.Holds k n := by rw [Holds, hgn]
  have hused (j : Nat) (hj : j = n ∨ (t.gnode j).key ≠ .nil) : (t'.gnode j).key ≠ .nil := by
    by_cases hjn : j = n
    · exact hjn ▸ hheld.ne_nil
    · rw [(hsame hjn).1]
      exact hj.resolve_left hjn
  obtain ⟨hlinked, hchain⟩ := h.toLinked.insert hmpk.ne_nil hn.free
    (show t'.gnext _ = some n by rw [gnext, hgnode, if_pos rfl]) (by rw [gnext, hgn])
    (fun i himp hin => by rw [gnext, hgnode, if_neg himp, if_neg hin, gnext]) hused
  have hp : Places t k t' n id :=
    { linked := hlinked
      array := by rw [← ht']; rfl
      length := by rw [← ht', length_setnode, length_setnode]
      lsizenode := by rw [← ht']; rfl
      last := by rw [← ht']; exact hn.lt.le
      free := fun j hj hlt => hused j (hn.behind j (by rwa [← ht'] at hj) hlt)
      holds := hheld
      empty := by rw [hgn]; exact hn.val h
      origin := fun {j} hj => ⟨j, rfl, hsame hj⟩
      kept := fun {j v} hv => by
        have hj : j ≠ n := by
          rintro rfl
          rw [hn.val h] at hv
          cases hv
        exact ⟨(hsame hj).1, (hsame hj).2.trans hv⟩
      room := by
        rw [← ht']
        refine Nat.le_trans (room_setnode (t := { t with lastfree := n }) hn.lt _).1
          (Nat.succ_le_succ ((room_setnode (by rwa [length_setnode]) _).2 ?_))
        rw [gnode_setnode (t := { t with lastfree := n }) hn.lt, if_neg hmpn]
        exact hmpk.ne_nil }
  refine hp.placed h hk (List.ne_nil_of_length_pos (Nat.zero_lt_of_lt hlt)) (fun {k₁ j} hj => ?_)
    (fun {k₁ j} hj l' hl' => ?_)
  · rcases hp.cases hj with ⟨rfl, rfl⟩ | ⟨-, j', -, hj, -⟩
    · rw [hmp]
      refine ⟨hused mp (Or.inr hmpk.ne_nil), fun k'' hk'' => ?_⟩
      rw [Holds, (hsame hmpn).1] at hk''
      rw [← hmpk.key_eq hk'', hhome]
    · obtain ⟨hne, hall⟩ := h.home hj
      refine ⟨hused _ (Or.inr hne), fun k'' hk'' => ?_⟩
      rw [Holds, (hsame (hn.ne hne)).1] at hk''
      exact hall k'' hk''
  · obtain ⟨l, hl⟩ := h.ends (t.mainposition k₁)
    have hmain : t.mainposition k₁ ≠ n := by
      rcases hp.cases hj with ⟨-, rfl⟩ | ⟨-, j', -, hj, -⟩
      · rwa [hmp]
      · exact hn.ne (h.home hj).1
    obtain rfl := (hchain hmain hl).unique hl'
    rcases hp.cases hj with ⟨rfl, rfl⟩ | ⟨hjn, j', rfl, hj', -⟩
    · -- `mp` comes first, and has another key
      rw [hmp] at hl
      obtain ⟨rest, rfl, -⟩ := hl.ne_nil
      have hnot : ¬ samekey k₁ (t'.gnode mp) = true := by
        rw [samekey_iff, (hsame hmpn).1, hmpk]
        rintro (heq | heq)
        · exact hk.not_held mp (hmpk.trans heq)
        · cases heq
      rw [List.flatMap_cons, if_pos rfl, List.cons_append,
        List.find?_cons_of_neg (p := fun j => samekey k₁ (t'.gnode j)) hnot]
      exact List.find?_cons_of_pos hheld.samekey
    · have hnot : samekey k₁ (t'.gnode n) = false := by
        rw [← Bool.not_eq_true, samekey_iff, hgn]
        rintro (heq | heq)
        · obtain rfl := NodeKey.key.inj heq
          exact hk.not_held _ hj'
        · cases heq
      rw [find?_insert (p := fun j => samekey k₁ (t'.gnode j)) hnot]
      refine find?_of_imp (h.found hj' l hl) (fun i _ hi => ?_) hj.samekey
      have hin : i ≠ n := by
        rintro rfl
        rw [hnot] at hi
        cases hi
      rwa [samekey_iff, ← (hsame hin).1, ← samekey_iff]

/-- The element at the main position is not at home: it is moved to a free place, and the new key takes
its place. -/
theorem Sound.placed_move (h : t.Sound) (hk : t.Fresh k) (hn : t.Vacant n)
    (hmpk : t.Holds k' (t.mainposition k)) (haway : t.mainposition k' ≠ t.mainposition k)
    (hprevious : t.gnext previous = some (t.mainposition k)) (hprev : (t.gnode previous).key ≠ .nil)
    (ht' : (({ t with lastfree := n }.setnode previous { t.gnode previous with next := some n }).setnode n
      (t.gnode (t.mainposition k))).setnode (t.mainposition k) ⟨.key k, none, none⟩ = t') :
    Placed t k t' (t.mainposition k) := by
  have hlt := lt_of_key_ne hmpk.ne_nil
  have hmpn := hn.ne hmpk.ne_nil
  have hpn := hn.ne hprev
  generalize hmp : t.mainposition k = mp at *
  have hpmp : previous ≠ mp := by
    rintro rfl
    exact h.next_ne hprevious
  have hplt := lt_of_key_ne hprev
  have hgnode (j : Nat) : t'.gnode j = if j = mp then ⟨.key k, none, none⟩ else
      if j = n then t.gnode mp else
        if j = previous then { t.gnode previous with next := some n } else t.gnode j := by
    rw [← ht', gnode_setnode (by simpa using hlt), gnode_setnode (by simpa using hn.lt),
      gnode_setnode (t := { t with lastfree := n }) hplt]
    rfl
  have hgmp : t'.gnode mp = ⟨.key k, none, none⟩ := by rw [hgnode, if_pos rfl]
  have hgn : t'.gnode n = t.gnode mp := by rw [hgnode, if_neg (Ne.symm hmpn), if_pos rfl]
  have hsame {j : Nat} (hjmp : j ≠ mp) (hjn : j ≠ n) :
      (t'.gnode j).key = (t.gnode j).key ∧ (t'.gnode j).val = (t.gnode j).val := by
    by_cases hj : j = previous
    · rw [hgnode, if_neg hjmp, if_neg hjn, if_pos hj, hj]
      exact ⟨rfl, rfl⟩
    · rw [hgnode, if_neg hjmp, if_neg hjn, if_neg hj]
      exact ⟨rfl, rfl⟩
  have hheld : t'.Holds k mp := by rw [Holds, hgmp]
  have hused (j : Nat) (hj : j = n ∨ (t.gnode j).key ≠ .nil) : (t'.gnode j).key ≠ .nil := by
    by_cases hjmp : j = mp
    · exact hjmp ▸ hheld.ne_nil
    · by_cases hjn : j = n
      · rw [hjn, hgn]
        exact hmpk.ne_nil
      · rw [(hsame hjmp hjn).1]
        exact hj.resolve_left hjn
  have hcarry {j : Nat} (hj : j ≠ n) : (t'.gnode (moved mp n j)).key = (t.gnode j).key ∧
      (t'.gnode (moved mp n j)).val = (t.gnode j).val := by
    by_cases hjmp : j = mp
    · rw [moved, if_pos hjmp, hgn, hjmp]
      exact ⟨rfl, rfl⟩
    · rw [moved_of_ne hjmp]
      exact hsame hjmp hj
  obtain ⟨hlinked, hchain⟩ := h.toLinked.move hn.free hmpk.ne_nil hprevious hprev
    (show t'.gnext previous = some n by rw [gnext, hgnode, if_neg hpmp, if_neg hpn, if_pos rfl])
    (by rw [gnext, hgn, gnext]) (by rw [gnext, hgmp])
    (fun i hip himp hin => by rw [gnext, hgnode, if_neg himp, if_neg hin, if_neg hip, gnext]) hused
  have hp : Places t k t' mp (moved mp n) :=
    { linked := hlinked
      array := by rw [← ht']; rfl
      length := by rw [← ht', length_setnode, length_setnode, length_setnode]
      lsizenode := by rw [← ht']; rfl
      last := by rw [← ht']; exact hn.lt.le
      free := fun j hj hlt => hused j (hn.behind j (by rwa [← ht'] at hj) hlt)
      holds := hheld
      empty := by rw [hgmp]
      origin := fun {j} hj => by
        by_cases hjn : j = n
        · refine ⟨mp, ?_, ?_⟩
          · rw [moved, if_pos rfl, hjn]
          · rw [hjn, hgn]
            exact ⟨rfl, rfl⟩
        · exact ⟨j, (moved_of_ne hj).symm, hsame hj hjn⟩
      kept := fun {j v} hv => by
        have hj : j ≠ n := by
          rintro rfl
          rw [hn.val h] at hv
          cases hv
        exact ⟨(hcarry hj).1, (hcarry hj).2.trans hv⟩
      room := by
        rw [← ht']
        have hset := (room_setnode (t := { t with lastfree := n }) hplt
          { t.gnode previous with next := some n }).2 hprev
        refine Nat.le_trans hset (Nat.le_trans (room_setnode (by simpa using hn.lt) (t.gnode mp)).1
          (Nat.succ_le_succ ((room_setnode (by simpa using hlt) _).2 ?_)))
        rw [gnode_setnode (by simpa using hn.lt), if_neg hmpn,
          gnode_setnode (t := { t with lastfree := n }) hplt, if_neg (Ne.symm hpmp)]
        exact hmpk.ne_nil }
  -- no key whose main position is `mp` was in the table
  have haway' {k₁ : K} {j : Nat} (hj : t.Holds k₁ j) : t.mainposition k₁ ≠ mp := by
    intro hm
    have hall := (h.home hj).2
    rw [hm] at hall
    exact haway (hall k' hmpk)
  refine hp.placed h hk (List.ne_nil_of_length_pos (Nat.zero_lt_of_lt hlt)) (fun {k₁ j} hj => ?_)
    (fun {k₁ j} hj l' hl' => ?_)
  · rcases hp.cases hj with ⟨rfl, rfl⟩ | ⟨-, j', -, hj, -⟩
    · rw [hmp]
      exact ⟨hheld.ne_nil, fun k'' hk'' => by rw [← hheld.key_eq hk'', hmp]⟩
    · obtain ⟨hne, hall⟩ := h.home hj
      refine ⟨hused _ (Or.inr hne), fun k'' hk'' => ?_⟩
      rw [Holds, (hsame (haway' hj) (hn.ne hne)).1] at hk''
      exact hall k'' hk''
  · rcases hp.cases hj with ⟨rfl, rfl⟩ | ⟨-, j', rfl, hj', -⟩
    · rw [hmp] at hl'
      obtain ⟨rest, rfl, -⟩ := hl'.ne_nil
      exact List.find?_cons_of_pos hheld.samekey
    · have hne := (h.home hj').1
      obtain ⟨l, hl⟩ := h.ends (t.mainposition k₁)
      obtain rfl := (hchain (haway' hj') (hn.ne hne) hl).unique hl'
      have hpred (i : Nat) (hi : i ∈ l) :
          samekey k₁ (t'.gnode (moved mp n i)) = samekey k₁ (t.gnode i) := by
        have hin : i ≠ n := by
          rintro rfl
          rcases h.mem_used hl hi with heq | hkey
          · exact hn.ne hne heq.symm
          · exact hkey hn.free
        rw [samekey, samekey, (hcarry hin).1]
      have hfind := (List.find?_congr hpred).trans (h.found hj' l hl)
      rw [List.find?_map]
      exact congrArg (Option.map (moved mp n)) hfind

/-- A colliding node that is not at home is on the chain from where it would be. -/
theorem Sound.exists_previous (h : t.Sound) (hmpk : t.Holds k' mp) (haway : t.mainposition k' ≠ mp) :
    ∃ previous, t.walk (fun n => n.next = some mp) (t.mainposition k') = some previous ∧
      t.gnext previous = some mp ∧ (t.gnode previous).key ≠ .nil := by
  obtain ⟨l, hl⟩ := h.ends (t.mainposition k')
  have hmem := List.mem_of_find?_eq_some (h.found hmpk l hl)
  obtain ⟨i, hi, hlink⟩ := hl.exists_prev hmem (Ne.symm haway)
  rw [h.walk_eq hl]
  cases hfind : l.find? fun j => decide ((t.gnode j).next = some mp) with
  | none =>
    have hnot : ¬ (t.gnode i).next = some mp := by simpa using List.find?_eq_none.mp hfind i hi
    exact absurd hlink hnot
  | some previous =>
    have hnext : (t.gnode previous).next = some mp := by simpa using List.find?_some hfind
    refine ⟨previous, rfl, hnext, ?_⟩
    rcases h.mem_used hl (List.mem_of_find?_eq_some hfind) with rfl | hused
    · exact (h.home hmpk).1
    · exact hused

omit [DecidableEq K] in
theorem occupy_chain (hkey : t.Holds k' mp) (hhome : t.mainposition k' = mp) (hn : n < t.node.length)
    (hne : mp ≠ n) : t.occupy k mp n =
      ((t.setnode n { t.gnode n with key := .key k, next := t.gnext mp }).setnode mp
        { t.gnode mp with next := some n }, .node n) := by
  have hmp :
      (t.setnode n { t.gnode n with key := .key k, next := t.gnext mp }).gnode mp = t.gnode mp := by
    rw [gnode_setnode hn, if_neg hne]
  rw [Holds] at hkey
  simp only [occupy, hkey, hmp]
  exact if_neg (not_not_intro hhome)

omit [DecidableEq K] in
theorem occupy_move (hkey : t.Holds k' mp) (haway : t.mainposition k' ≠ mp)
    (hwalk : t.walk (fun n => n.next = some mp) (t.mainposition k') = some previous)
    (hprevious : previous < t.node.length) (hne : mp ≠ previous) : t.occupy k mp n =
      (((t.setnode previous { t.gnode previous with next := some n }).setnode n (t.gnode mp)).setnode mp
        ⟨.key k, none, none⟩, .node mp) := by
  have hmp : (t.setnode previous { t.gnode previous with next := some n }).gnode mp = t.gnode mp := by
    rw [gnode_setnode hprevious, if_neg hne]
  rw [Holds] at hkey
  simp only [occupy, hkey, hwalk, hmp]
  exact if_pos haway

theorem Sound.occupy (h : t.Sound) (hk : t.Fresh k) (hn : t.Vacant n)
    (hval : (t.gnode (t.mainposition k)).val.isSome) :
    ∃ t' i, { t with lastfree := n }.occupy k (t.mainposition k) n = (t', .node i) ∧
      Placed t k t' i := by
  obtain ⟨v, hv⟩ := Option.isSome_iff_exists.mp hval
  obtain ⟨k', hmpk⟩ := h.keyed hv
  by_cases haway : t.mainposition k' = t.mainposition k
  · exact ⟨_, n, occupy_chain (t := { t with lastfree := n }) hmpk haway hn.lt (hn.ne hmpk.ne_nil),
      h.placed_chain hk hn hmpk haway rfl⟩
  · obtain ⟨previous, hwalk, hlink, hprev⟩ := h.exists_previous hmpk haway
    have hne : t.mainposition k ≠ previous := by
      rintro rfl
      exact h.next_ne hlink
    exact ⟨_, _, occupy_move (t := { t with lastfree := n }) hmpk haway hwalk (lt_of_key_ne hprev) hne,
      h.placed_move hk hn hmpk haway hlink hprev rfl⟩

/-- A new key is placed, or every node has a key. -/
theorem Sound.newkey (h : t.Sound) (hk : t.Fresh k) :
    (∃ t' i, (∀ depth, newkey depth t k = .ok (t', .node i)) ∧ Placed t k t' i) ∨
      t.room = 0 ∧ newkey 0 t k = .error .depth ∧ ∀ depth, newkey (depth + 1) t k =
        rehash (newkey depth) t k >>= fun t' => setkey (newkey depth) t' k := by
  by_cases htaken : (t.gnode (t.mainposition k)).val.isSome ∨ t.node = []
  · cases hfree : t.getfreepos t.lastfree with
    | none =>
      refine Or.inr ⟨h.room_eq_zero hfree, ?_, fun depth => ?_⟩
      · unfold Table.newkey
        simp only [if_pos htaken, hfree]
      · rw [Table.newkey]
        simp only [if_pos htaken, hfree]
    | some n =>
      have hn := h.vacant hfree
      have hval : (t.gnode (t.mainposition k)).val.isSome := by
        refine htaken.resolve_right fun hnode => ?_
        have hlt := hn.lt
        rw [hnode] at hlt
        exact absurd hlt (Nat.not_lt_zero n)
      obtain ⟨t', i, hoccupy, hplaced⟩ := h.occupy hk hn hval
      refine Or.inl ⟨t', i, fun depth => ?_, hplaced⟩
      unfold Table.newkey
      simp only [if_pos htaken, hfree, hoccupy]
  · obtain ⟨hval, hnode⟩ := not_or.mp htaken
    refine Or.inl ⟨_, _, fun depth => ?_, h.placed_reuse hk hnode (by simpa using hval)⟩
    unfold Table.newkey
    simp only [if_neg htaken]

end TuxBot.Lua.Ltable.Table
