import Mathlib.Data.List.Nodup
import Mathlib.Data.List.Basic

/-! Chains of links: what is reached by following one link after another, and what becomes of it when
links are set. -/
namespace TuxBot

variable {ι : Type} {next next' : ι → Option ι} {p q : ι → Bool} {s : Option ι} {i j m n : ι}
  {l l' : List ι}

/-- The places from `s` on, each linked to the one behind it. -/
inductive Chain (next : ι → Option ι) : Option ι → List ι → Prop
  | nil : Chain next none []
  | cons {i : ι} {l : List ι} (h : Chain next (next i) l) : Chain next (some i) (i :: l)

/-- The first place from `i` on that has the property, looked for at so many places. -/
def seek (next : ι → Option ι) (p : ι → Bool) : Nat → ι → Option ι
  | 0, _ => none
  | fuel + 1, i => if p i then some i else (next i).bind fun j => seek next p fuel j

namespace Chain

theorem ne_nil (h : Chain next (some i) l) : ∃ rest, l = i :: rest ∧ Chain next (next i) rest := by
  cases h with
  | cons h => exact ⟨_, rfl, h⟩

theorem unique (h : Chain next s l) (h' : Chain next s l') : l = l' := by
  induction h generalizing l' with
  | nil => cases h' with
    | nil => rfl
  | cons _ ih => cases h' with
    | cons h' => rw [ih h']

/-- From any of its places on, the rest of a chain is a chain. -/
theorem split (h : Chain next s l) (hi : i ∈ l) :
    ∃ before after, l = before ++ i :: after ∧ Chain next (some i) (i :: after) := by
  induction h with
  | nil => cases hi
  | @cons j l h ih =>
    rcases List.mem_cons.mp hi with rfl | hi
    · exact ⟨[], l, rfl, .cons h⟩
    · obtain ⟨before, after, rfl, hafter⟩ := ih hi
      exact ⟨j :: before, after, rfl, hafter⟩

/-- A chain that ends does not come back to a place. -/
theorem nodup (h : Chain next s l) : l.Nodup := by
  induction h with
  | nil => exact List.nodup_nil
  | @cons i l h ih =>
    refine List.nodup_cons.mpr ⟨fun hi => ?_, ih⟩
    obtain ⟨before, after, rfl, hafter⟩ := h.split hi
    have hlength := congrArg List.length (hafter.unique (.cons h))
    simp only [List.length_cons, List.length_append] at hlength
    omega

/-- Every place but the first is linked from one of the chain. -/
theorem exists_prev (h : Chain next (some i) l) (hj : j ∈ l) (hne : j ≠ i) :
    ∃ k ∈ l, next k = some j := by
  generalize hs : some i = s at h
  induction h generalizing i with
  | nil => cases hs
  | @cons i' l h ih =>
    obtain rfl := Option.some.inj hs
    have hmem := (List.mem_cons.mp hj).resolve_left hne
    cases hnext : next i with
    | none =>
      rw [hnext] at h
      cases h
      cases hmem
    | some k =>
      by_cases hk : j = k
      · subst hk
        exact ⟨i, List.mem_cons_self, hnext⟩
      · obtain ⟨k', hk', hlink⟩ := ih hmem hk hnext.symm
        exact ⟨k', List.mem_cons_of_mem i hk', hlink⟩

/-- A chain is carried along with its links. -/
theorem map (f : ι → ι) (h : Chain next s l) (heq : ∀ i ∈ l, next' (f i) = (next i).map f) :
    Chain next' (s.map f) (l.map f) := by
  induction h with
  | nil => exact .nil
  | @cons i l h ih =>
    refine .cons ?_
    rw [heq i List.mem_cons_self]
    exact ih fun j hj => heq j (List.mem_cons_of_mem i hj)

theorem congr (h : Chain next s l) (heq : ∀ i ∈ l, next' i = next i) : Chain next' s l := by
  simpa using h.map id fun i hi => by simp [heq i hi]

/-- `n` is linked in behind `m`. -/
theorem insert [DecidableEq ι] (h : Chain next s l) (hm : next' m = some n) (hn : next' n = next m)
    (heq : ∀ i ∈ l, i ≠ m → next' i = next i) :
    Chain next' s (l.flatMap fun i => if i = m then [m, n] else [i]) := by
  induction h with
  | nil => exact .nil
  | @cons i l h ih =>
    have hrest := ih fun j hj => heq j (List.mem_cons_of_mem i hj)
    by_cases hi : i = m
    · subst hi
      rw [List.flatMap_cons, if_pos rfl]
      exact .cons (hm ▸ .cons (hn ▸ hrest))
    · rw [List.flatMap_cons, if_neg hi]
      exact .cons (heq i List.mem_cons_self hi ▸ hrest)

theorem seek_eq (h : Chain next (some i) l) {fuel : Nat} (hfuel : l.length ≤ fuel) :
    seek next p fuel i = l.find? p := by
  induction fuel generalizing i l with
  | zero =>
    obtain ⟨rest, rfl, -⟩ := h.ne_nil
    exact absurd hfuel (Nat.not_succ_le_zero _)
  | succ fuel ih =>
    obtain ⟨rest, rfl, hrest⟩ := h.ne_nil
    cases hi : p i with
    | true => simp [seek, hi]
    | false =>
      rw [List.find?_cons_of_neg (by simp [hi])]
      cases hnext : next i with
      | none =>
        rw [hnext] at hrest
        cases hrest
        simp [seek, hi, hnext]
      | some j =>
        rw [hnext] at hrest
        simp [seek, hi, hnext, ih hrest (Nat.le_of_succ_le_succ hfuel)]

end Chain

/-- What is linked in is not what is looked for. -/
theorem find?_insert [DecidableEq ι] (hn : p n = false) :
    (l.flatMap fun i => if i = m then [m, n] else [i]).find? p = l.find? p := by
  induction l with
  | nil => rfl
  | cons i l ih =>
    by_cases hi : i = m
    · subst hi
      cases hp : p i <;> simp [List.flatMap_cons, hp, hn, ih]
    · cases hp : p i <;> simp [List.flatMap_cons, hi, hp, ih]

end TuxBot
