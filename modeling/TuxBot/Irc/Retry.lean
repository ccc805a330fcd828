import Mathlib.Data.Set.Basic

/-! Targets that are wanted back: which are wanted, which are held, and how long each last waited. -/
namespace TuxBot.Retry

variable {C T : Type}

/-- What can happen to the targets. A deferred one may be tried again later, a refused one may not. -/
inductive Event (C : Type) where
  | add (c : C)
  | gained (c : C)
  | left (c : C)
  | expelled (c : C)
  | refused (c : C)
  | deferred (c : C)
  | lost
  | other
  deriving DecidableEq

structure Wishes (C T : Type) where
  /-- The delay last armed for each target since it is wanted. -/
  want : C → Option (Option T)
  held : C → Bool

namespace Wishes

variable {delay : Option T → Option T} {w : Wishes C T} {c x : C}

def wanted (w : Wishes C T) : Set C := {c | (w.want c).isSome}

theorem mem_wanted_iff : x ∈ w.wanted ↔ ∃ d, w.want x = some d := Option.isSome_iff_exists

theorem not_mem_wanted_iff : x ∉ w.wanted ↔ w.want x = none := Option.not_isSome_iff_eq_none

instance (w : Wishes C T) (c : C) : Decidable (c ∈ w.wanted) :=
  inferInstanceAs (Decidable ((w.want c).isSome = true))

def start [DecidableEq C] (cs : List C) : Wishes C T where
  want c := if c ∈ cs then some none else none
  held _ := false

variable [DecidableEq C]

/-- `delay` is the next delay, given the last one. -/
def next (delay : Option T → Option T) (w : Wishes C T) : Event C → Wishes C T
  | .add c => { w with want := Function.update w.want c (some (w.want c).join) }
  | .gained c => ⟨Function.update w.want c none, Function.update w.held c true⟩
  | .left c => ⟨Function.update w.want c none, Function.update w.held c false⟩
  | .expelled c =>
    ⟨Function.update w.want c (some (delay none)), Function.update w.held c false⟩
  | .refused c => { w with want := Function.update w.want c none }
  | .deferred c => { w with want := Function.update w.want c ((w.want c).map delay) }
  | .lost => ⟨fun c => if w.held c then some (w.want c).join else w.want c, fun _ => false⟩
  | .other => w

theorem mem_wanted_start {cs : List C} : x ∈ (start cs : Wishes C T).wanted ↔ x ∈ cs := by
  by_cases h : x ∈ cs <;> simp [wanted, start, h]

theorem mem_wanted_add : x ∈ (w.next delay (.add c)).wanted ↔ x = c ∨ x ∈ w.wanted := by
  by_cases h : x = c <;> simp [wanted, next, h]

theorem mem_wanted_gained : x ∈ (w.next delay (.gained c)).wanted ↔ x ≠ c ∧ x ∈ w.wanted := by
  by_cases h : x = c <;> simp [wanted, next, h]

theorem mem_wanted_left : x ∈ (w.next delay (.left c)).wanted ↔ x ≠ c ∧ x ∈ w.wanted := by
  by_cases h : x = c <;> simp [wanted, next, h]

theorem mem_wanted_expelled : x ∈ (w.next delay (.expelled c)).wanted ↔ x = c ∨ x ∈ w.wanted := by
  by_cases h : x = c <;> simp [wanted, next, h]

theorem mem_wanted_refused : x ∈ (w.next delay (.refused c)).wanted ↔ x ≠ c ∧ x ∈ w.wanted := by
  by_cases h : x = c <;> simp [wanted, next, h]

theorem mem_wanted_deferred : x ∈ (w.next delay (.deferred c)).wanted ↔ x ∈ w.wanted := by
  by_cases h : x = c <;> simp [wanted, next, h]

/-- What was held is wanted once it is lost. -/
theorem mem_wanted_lost : x ∈ (w.next delay .lost).wanted ↔ w.held x ∨ x ∈ w.wanted := by
  cases h : w.held x <;> simp [wanted, next, h]

/-- Only what is wanted can be refused. -/
theorem next_refused_of_not_mem (h : c ∉ w.wanted) : w.next delay (.refused c) = w := by
  have hsame : Function.update w.want c none = w.want :=
    Function.update_eq_self_iff.mpr (not_mem_wanted_iff.mp h).symm
  simp [next, hsame]

end Wishes

end TuxBot.Retry
