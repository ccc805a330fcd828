import Mathlib.Order.Basic

/-! Borders: places where something is, with nothing right behind them. -/
namespace TuxBot

variable {present : Nat → Bool} {fuel i j k n : Nat}

/-- The place 0 needs nothing at it. -/
def Border (present : Nat → Bool) (n : Nat) : Prop :=
  (n = 0 ∨ present n = true) ∧ present (n + 1) = false

/-- The halving search between `i` and `j`. -/
def bisect (present : Nat → Bool) : Nat → Nat → Nat → Nat
  | 0, i, _ => i
  | fuel + 1, i, j =>
    if j - i > 1 then
      let m := (i + j) / 2
      if present m then bisect present fuel m j else bisect present fuel i m
    else i

/-- The first place from `i` on where nothing is. -/
def scan (present : Nat → Bool) : Nat → Nat → Nat
  | 0, i => i
  | fuel + 1, i => if present i then scan present fuel (i + 1) else i

/-- The window always has something at its lower end and nothing at its upper one. -/
theorem border_bisect (hi : i = 0 ∨ present i = true) (hj : present j = false) (hlt : i < j)
    (hfuel : j ≤ i + fuel + 1) :
    Border present (bisect present fuel i j) ∧ bisect present fuel i j < j := by
  induction fuel generalizing i j with
  | zero =>
    obtain rfl : j = i + 1 := by omega
    exact ⟨⟨hi, hj⟩, hlt⟩
  | succ fuel ih =>
    rw [bisect]
    by_cases hgap : j - i > 1
    · rw [if_pos hgap]
      dsimp only
      cases hm : present ((i + j) / 2) with
      | true => simpa using ih (Or.inr hm) hj (by omega) (by omega)
      | false =>
        obtain ⟨hborder, hbelow⟩ := ih hi hm (by omega) (by omega)
        simpa using ⟨hborder, show bisect present fuel i ((i + j) / 2) < j by omega⟩
    · obtain rfl : j = i + 1 := by omega
      rw [if_neg hgap]
      exact ⟨⟨hi, hj⟩, hlt⟩

/-- The scan passes over what is there, and stops where nothing is if it gets as far as that. -/
theorem scan_spec (hk : present (i + k) = false) (hfuel : k ≤ fuel) :
    present (scan present fuel i) = false ∧ i ≤ scan present fuel i ∧ scan present fuel i ≤ i + k ∧
      ∀ j, i ≤ j → j < scan present fuel i → present j = true := by
  induction fuel generalizing i k with
  | zero =>
    obtain rfl : k = 0 := by omega
    exact ⟨hk, Nat.le_refl i, Nat.le_refl i, fun j hle hlt => absurd hlt (by simpa [scan] using hle)⟩
  | succ fuel ih =>
    rw [scan]
    cases hi : present i with
    | false => simpa [hi] using fun j hle hlt => absurd hle (by omega)
    | true =>
      obtain ⟨k, rfl⟩ : ∃ k', k = k' + 1 := by
        refine Nat.exists_eq_succ_of_ne_zero ?_
        rintro rfl
        simp [hi] at hk
      obtain ⟨hnone, hle, hlast, hall⟩ :=
        ih (i := i + 1) (k := k) (by rwa [Nat.add_assoc, Nat.add_comm 1]) (by omega)
      rw [if_pos rfl]
      refine ⟨hnone, by omega, by omega, fun j hij hj => ?_⟩
      rcases Nat.eq_or_lt_of_le hij with rfl | hlt
      · exact hi
      · exact hall j hlt hj

end TuxBot
