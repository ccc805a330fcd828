import Mathlib.Algebra.Order.Monoid.Unbundled.Basic
import Mathlib.Data.List.Sublists

/-! Events that follow each other closely: counting backwards through a log until a pause. -/
namespace TuxBot

variable {ε T : Type} [Add T] [LinearOrder T]

/-- The latest events of a kind in a log, newest first, back to a pause of more than `interval` or to
an event that ends the series. -/
def consecutive (time : ε → T) (ends : ε → Bool) (interval : T) (p : ε → Bool) :
    T → List ε → List ε
  | _, [] => []
  | now, e :: earlier =>
    if p e then
      if ends e = true ∨ time e + interval < now then []
      else e :: consecutive time ends interval p (time e) earlier
    else consecutive time ends interval p now earlier

variable {time : ε → T} {ends : ε → Bool} {interval now now' : T} {p q : ε → Bool} {log : List ε}
  {e : ε}

theorem consecutive_skip (h : p e = false) :
    consecutive time ends interval p now (e :: log) = consecutive time ends interval p now log := by
  simp [consecutive, h]

theorem consecutive_stop (h : p e = true) (hcut : ends e = true ∨ time e + interval < now) :
    consecutive time ends interval p now (e :: log) = [] := by
  simp only [consecutive, h, if_true, if_pos hcut]

theorem consecutive_cons (h : p e = true) (hgoes : ends e = false) (hsoon : now ≤ time e + interval) :
    consecutive time ends interval p now (e :: log) =
      e :: consecutive time ends interval p (time e) log := by
  have hcut : ¬ (ends e = true ∨ time e + interval < now) := by simp [hgoes, hsoon]
  simp only [consecutive, h, if_true, if_neg hcut]

theorem mem_consecutive (h : e ∈ consecutive time ends interval p now log) :
    e ∈ log ∧ p e = true ∧ ends e = false := by
  induction log generalizing now with
  | nil => cases h
  | cons a log ih =>
    rw [consecutive] at h
    split at h
    · rename_i hp
      split at h
      · cases h
      · rename_i hcut
        rcases List.mem_cons.mp h with rfl | h
        · exact ⟨List.mem_cons_self, hp, by simpa using fun ha => hcut (Or.inl ha)⟩
        · obtain ⟨hmem, hrest⟩ := ih h
          exact ⟨List.mem_cons_of_mem a hmem, hrest⟩
    · obtain ⟨hmem, hrest⟩ := ih h
      exact ⟨List.mem_cons_of_mem a hmem, hrest⟩

/-- A series that is still open was so before. -/
theorem consecutive_of_le (hle : now ≤ now')
    (h : consecutive time ends interval p now' log ≠ []) :
    consecutive time ends interval p now log = consecutive time ends interval p now' log := by
  induction log with
  | nil => rfl
  | cons a log ih =>
    cases hp : p a with
    | false =>
      rw [consecutive_skip hp] at h ⊢
      rw [consecutive_skip hp]
      exact ih h
    | true =>
      by_cases hcut : ends a = true ∨ time a + interval < now'
      · exact absurd (consecutive_stop hp hcut) h
      · obtain ⟨hgoes, hsoon⟩ := not_or.mp hcut
        have hends := Bool.not_eq_true _ ▸ hgoes
        rw [consecutive_cons hp hends (not_lt.mp hsoon),
          consecutive_cons hp hends (hle.trans (not_lt.mp hsoon))]

theorem consecutive_mono (hle : now ≤ now') :
    (consecutive time ends interval p now' log).Sublist
      (consecutive time ends interval p now log) := by
  by_cases h : consecutive time ends interval p now' log = []
  · rw [h]
    exact List.nil_sublist _
  · rw [consecutive_of_le hle h]

/-- After a pause a new series begins. -/
theorem consecutive_stale (h : ∀ e ∈ log, time e + interval < now) :
    consecutive time ends interval p now log = [] := by
  induction log with
  | nil => rfl
  | cons a log ih =>
    cases hp : p a with
    | false =>
      rw [consecutive_skip hp]
      exact ih fun e he => h e (List.mem_cons_of_mem a he)
    | true => exact consecutive_stop hp (Or.inr (h a List.mem_cons_self))

/-- The newest event of a series is the newest of its kind. -/
theorem head_consecutive {rest : List ε}
    (h : consecutive time ends interval p now log = e :: rest) :
    now ≤ time e + interval ∧ ∀ t ≤ time e + interval,
      consecutive time ends interval p t log = e :: rest := by
  induction log with
  | nil => cases h
  | cons a log ih =>
    cases hp : p a with
    | false =>
      rw [consecutive_skip hp] at h
      obtain ⟨hsoon, hall⟩ := ih h
      exact ⟨hsoon, fun t ht => (consecutive_skip hp).trans (hall t ht)⟩
    | true =>
      by_cases hcut : ends a = true ∨ time a + interval < now
      · rw [consecutive_stop hp hcut] at h
        cases h
      · obtain ⟨hgoes, hsoon⟩ := not_or.mp hcut
        have hends := Bool.not_eq_true _ ▸ hgoes
        rw [consecutive_cons hp hends (not_lt.mp hsoon)] at h
        obtain ⟨rfl, rfl⟩ := List.cons.inj h
        exact ⟨not_lt.mp hsoon, fun t ht => consecutive_cons hp hends ht⟩

/-- The events of a narrower kind, when all of a series are of it. -/
theorem length_consecutive_le (hsub : ∀ e, p e = true → q e = true)
    (h : ∀ e ∈ consecutive time ends interval q now log, p e = true) :
    (consecutive time ends interval q now log).length ≤
      (consecutive time ends interval p now log).length := by
  induction log generalizing now with
  | nil => exact le_rfl
  | cons a log ih =>
    cases hq : q a with
    | false =>
      have hp : p a = false := by
        cases hp : p a with
        | false => rfl
        | true => exact (hq.symm.trans (hsub a hp)).symm
      rw [consecutive_skip hq] at h ⊢
      rw [consecutive_skip hp]
      exact ih h
    | true =>
      by_cases hcut : ends a = true ∨ time a + interval < now
      · rw [consecutive_stop hq hcut]
        exact Nat.zero_le _
      · obtain ⟨hgoes, hsoon⟩ := not_or.mp hcut
        have hends := Bool.not_eq_true _ ▸ hgoes
        rw [consecutive_cons hq hends (not_lt.mp hsoon)] at h ⊢
        rw [consecutive_cons (h a List.mem_cons_self) hends (not_lt.mp hsoon), List.length_cons,
          List.length_cons]
        exact Nat.succ_le_succ (ih fun e he => h e (List.mem_cons_of_mem a he))

/-- Whenever an event of the wider kind alone ends a series, none of the narrower kind was in it. -/
def EndsApart (time : ε → T) (ends : ε → Bool) (interval : T) (p q : ε → Bool) : List ε → Prop
  | [] => True
  | e :: earlier => (q e = true → ends e = true → p e = false →
      ∀ g ∈ consecutive time ends interval q (time e) earlier, p g = false) ∧
    EndsApart time ends interval p q earlier

/-- A series of the narrower kind is then a part of one of the wider kind. -/
theorem consecutive_sublist [AddRightMono T] (hsub : ∀ e, p e = true → q e = true)
    (hsorted : log.Pairwise fun e g => time g ≤ time e)
    (happart : EndsApart time ends interval p q log) (hnow : ∀ e ∈ log, time e ≤ now) :
    (consecutive time ends interval p now log).Sublist
      (consecutive time ends interval q now log) := by
  induction log generalizing now with
  | nil => exact List.Sublist.refl _
  | cons a log ih =>
    obtain ⟨hfirst, hrest⟩ := List.pairwise_cons.mp hsorted
    have hbefore := ih hrest happart.2 hfirst
    have ha := hnow a List.mem_cons_self
    cases hq : q a with
    | false =>
      have hp : p a = false := by
        cases hp : p a with
        | false => rfl
        | true => exact (hq.symm.trans (hsub a hp)).symm
      rw [consecutive_skip hp, consecutive_skip hq]
      exact ih hrest happart.2 fun e he => hnow e (List.mem_cons_of_mem a he)
    | true =>
      by_cases hcut : ends a = true ∨ time a + interval < now
      · rw [consecutive_stop hq hcut, List.sublist_nil]
        cases hp : p a with
        | true => exact consecutive_stop hp hcut
        | false =>
          rw [consecutive_skip hp]
          rcases hcut with hends | hpause
          · have hnone : consecutive time ends interval p (time a) log = [] := by
              rw [List.eq_nil_iff_forall_not_mem]
              intro g hg
              have hfalse := happart.1 hq hends hp g (hbefore.subset hg)
              rw [(mem_consecutive hg).2.1] at hfalse
              cases hfalse
            exact List.sublist_nil.mp (hnone ▸ consecutive_mono ha)
          · refine consecutive_stale fun g hg => lt_of_le_of_lt ?_ hpause
            exact add_le_add_left (hfirst g hg) interval
      · obtain ⟨hgoes, hsoon⟩ := not_or.mp hcut
        have hends := Bool.not_eq_true _ ▸ hgoes
        rw [consecutive_cons hq hends (not_lt.mp hsoon)]
        cases hp : p a with
        | true =>
          rw [consecutive_cons hp hends (not_lt.mp hsoon)]
          exact hbefore.cons_cons a
        | false =>
          rw [consecutive_skip hp]
          exact ((consecutive_mono ha).trans hbefore).cons a

end TuxBot
