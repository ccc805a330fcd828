import Mathlib.Data.List.Induction
import Mathlib.Data.Option.Basic

/-! Machines that take one input after another, and what holds along their runs. -/
namespace TuxBot.Machine

variable {σ ι : Type} {step : σ → ι → Option σ} {s t : σ} {i : ι} {is js : List ι}
  {I P : σ → Prop} {D : σ → ι → Prop}

/-- The state after the inputs, when each is possible in its turn. -/
def run (step : σ → ι → Option σ) : σ → List ι → Option σ
  | s, [] => some s
  | s, i :: is => (step s i).bind fun t => run step t is

/-- `D` holds of the state and the input at every step of the run. -/
def Along (step : σ → ι → Option σ) (D : σ → ι → Prop) : σ → List ι → Prop
  | _, [] => True
  | s, i :: is => D s i ∧ ∀ t, step s i = some t → Along step D t is

instance decidableAlong [∀ s i, Decidable (D s i)] :
    ∀ (s : σ) (is : List ι), Decidable (Along step D s is)
  | _, [] => isTrue trivial
  | s, i :: is =>
    match h : step s i with
    | none => decidable_of_iff (D s i) (by simp [Along, h])
    | some t =>
      have := decidableAlong t is
      decidable_of_iff (D s i ∧ Along step D t is) (by simp [Along, h])

theorem run_cons_some (h : run step s (i :: is) = some t) :
    ∃ u, step s i = some u ∧ run step u is = some t := Option.bind_eq_some_iff.mp h

theorem along_cons (hd : D s i) (h : step s i = some t) (hrest : Along step D t is) :
    Along step D s (i :: is) := by
  refine ⟨hd, fun u hu => ?_⟩
  obtain rfl := Option.some.inj (h.symm.trans hu)
  exact hrest

theorem along_of_forall (h : ∀ i ∈ is, ∀ s, D s i) : Along step D s is := by
  induction is generalizing s with
  | nil => trivial
  | cons i is ih =>
    exact ⟨h i List.mem_cons_self s, fun t _ => ih fun j hj => h j (List.mem_cons_of_mem i hj)⟩

theorem run_append : run step s (is ++ js) = (run step s is).bind fun t => run step t js := by
  induction is generalizing s with
  | nil => rfl
  | cons i is ih =>
    cases h : step s i with
    | none => simp [run, h]
    | some u => simpa [run, h] using ih

theorem run_snoc (h : run step s (is ++ [i]) = some t) :
    ∃ u, run step s is = some u ∧ step u i = some t := by
  rw [run_append] at h
  obtain ⟨u, hu, hlast⟩ := Option.bind_eq_some_iff.mp h
  obtain ⟨v, hv, hend⟩ := run_cons_some hlast
  cases hend
  exact ⟨u, hu, hv⟩

theorem along_append (h : run step s is = some t) :
    Along step D s (is ++ js) ↔ Along step D s is ∧ Along step D t js := by
  induction is generalizing s with
  | nil =>
    obtain rfl : s = t := by simpa [run] using h
    simp [Along]
  | cons i is ih =>
    obtain ⟨u, hu, hrest⟩ := run_cons_some h
    simp [Along, hu, ih hrest, and_assoc]

/-- Conditions that agree on every step that is possible hold along the same runs. -/
theorem along_congr {E : σ → ι → Prop} (hstep : ∀ s i t, I s → step s i = some t → (D s i ↔ E s i))
    (hkeep : ∀ s i t, I s → step s i = some t → I t) (hs : I s) (h : run step s is = some t) :
    Along step D s is ↔ Along step E s is := by
  induction is generalizing s with
  | nil => exact Iff.rfl
  | cons i is ih =>
    obtain ⟨u, hu, hrest⟩ := run_cons_some h
    have htail := ih (hkeep s i u hs hu) hrest
    have hone := hstep s i u hs hu
    simp only [Along, hu, Option.some.injEq, forall_eq']
    rw [htail, hone]

/-- What every step under the condition keeps holds after a run that meets it. -/
theorem run_keeps_along (hstep : ∀ s i t, I s → D s i → step s i = some t → I t) (hs : I s)
    (hd : Along step D s is) (h : run step s is = some t) : I t := by
  induction is generalizing s with
  | nil =>
    obtain rfl : s = t := by simpa [run] using h
    exact hs
  | cons i is ih =>
    obtain ⟨u, hu, hrest⟩ := run_cons_some h
    exact ih (hstep s i u hs hd.1 hu) (hd.2 u hu) hrest

/-- What every step keeps holds after a run. -/
theorem run_keeps (hstep : ∀ s i t, I s → step s i = some t → I t) (hs : I s)
    (h : run step s is = some t) : I t :=
  run_keeps_along (D := fun _ _ => True) (fun s i t hs _ => hstep s i t hs) hs
    (along_of_forall fun _ _ _ => trivial) h

/-- When the condition of a step decides whether `P` survives it, the condition of the run decides
whether `P` holds after all its steps. -/
theorem along_iff (hstep : ∀ s i t, I s → step s i = some t → (D s i ↔ P t))
    (hkeep : ∀ s i t, I s → step s i = some t → P t → I t)
    (hstuck : ∀ s i, I s → step s i = none → D s i) (hs : I s) :
    Along step D s is ↔ Along step (fun s i => ∀ t, step s i = some t → P t) s is := by
  induction is generalizing s with
  | nil => exact Iff.rfl
  | cons i is ih =>
    cases h : step s i with
    | none => simp [Along, h, hstuck s i hs h]
    | some u =>
      have hone := hstep s i u hs h
      constructor
      · rintro ⟨hd, hrest⟩
        have hp := hone.mp hd
        refine ⟨fun t ht => ?_, fun t ht => ?_⟩
        · obtain rfl : u = t := by simpa [h] using ht
          exact hp
        · obtain rfl : u = t := by simpa [h] using ht
          exact (ih (hkeep s i u hs h hp)).mp (hrest u h)
      · rintro ⟨hd, hrest⟩
        have hp := hd u h
        refine ⟨hone.mpr hp, fun t ht => ?_⟩
        obtain rfl : u = t := by simpa [h] using ht
        exact (ih (hkeep s i u hs h hp)).mpr (hrest u h)

/-- When a step keeps `P` exactly under its condition and never restores it, a run ends in `P`
exactly when it meets the condition throughout. -/
theorem run_iff_along (hstep : ∀ s i t, I s → step s i = some t → (P t ↔ P s ∧ D s i))
    (hkeep : ∀ s i t, I s → step s i = some t → I t) (hs : I s) (h : run step s is = some t) :
    P t ↔ P s ∧ Along step D s is := by
  induction is generalizing s with
  | nil =>
    obtain rfl : s = t := by simpa [run] using h
    simp [Along]
  | cons i is ih =>
    obtain ⟨u, hu, hrest⟩ := run_cons_some h
    have htail := ih (hkeep s i u hs hu) hrest
    have hone := hstep s i u hs hu
    simp only [Along, hu, Option.some.injEq, forall_eq']
    rw [htail, hone, and_assoc]

/-- What some inputs set and the others leave alone is as the last of the first set it. -/
theorem foldl_last {α β : Type} {f : σ → α → σ} {r : σ → β} {p : α → Bool} {v : α → β}
    (as : List α) (hs : I s) (hkeep : ∀ t, ∀ a ∈ as, I t → I (f t a))
    (hset : ∀ t, ∀ a ∈ as, I t → p a = true → r (f t a) = v a)
    (hleave : ∀ t, ∀ a ∈ as, I t → p a = false → r (f t a) = r t) :
    I (as.foldl f s) ∧ r (as.foldl f s) = (as.filter p).getLast?.elim (r s) v := by
  induction as using List.reverseRecOn with
  | nil => exact ⟨hs, rfl⟩
  | append_singleton as a ih =>
    have hmem : ∀ b ∈ as, b ∈ as ++ [a] := fun b hb => List.mem_append_left [a] hb
    have ha : a ∈ as ++ [a] := by simp
    obtain ⟨hi, hread⟩ := ih (fun t b hb => hkeep t b (hmem b hb))
      (fun t b hb => hset t b (hmem b hb)) (fun t b hb => hleave t b (hmem b hb))
    rw [List.foldl_append, List.foldl_cons, List.foldl_nil]
    refine ⟨hkeep _ a ha hi, ?_⟩
    cases htest : p a with
    | true =>
      rw [hset _ a ha hi htest]
      simp [htest]
    | false =>
      rw [hleave _ a ha hi htest, hread]
      simp [htest]

end TuxBot.Machine
