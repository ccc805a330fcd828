import Mathlib.Data.List.Induction
import Mathlib.Data.Set.Image

/-! Groups and their members as sets: what any tracker of joins, departures and renames is for. -/
namespace TuxBot.Membership

variable {C N : Type}

/-- What can happen to the groups that are tracked. `start` and `leave` are our own. -/
inductive Event (C N : Type) where
  | start (c : C) (n : N)
  | leave (c : C)
  | add (c : C) (ns : List N)
  | remove (c : C) (n : N)
  | quit (n : N)
  | rename (old new : N)
  | other
  deriving DecidableEq

/-- The members of each tracked group. -/
abbrev Roster (C N : Type) := C → Option (Set N)

section Next

variable [DecidableEq C] [DecidableEq N] {r : Roster C N} {c d : C} {n x old new : N} {s : Set N}

/-- One name takes the place of another. -/
def replace (old new n : N) : N := if n = old then new else n

def Roster.next (r : Roster C N) : Event C N → Roster C N
  | .start c n => Function.update r c (some {n})
  | .leave c => Function.update r c none
  | .add c ns => Function.update r c ((r c).map fun s => s ∪ {n | n ∈ ns})
  | .remove c n => Function.update r c ((r c).map fun s => s \ {n})
  | .quit n => fun c => (r c).map fun s => s \ {n}
  | .rename old new => fun c => (r c).map fun s => replace old new '' s
  | .other => r

/-- The roster after some events, nothing being tracked at first. -/
def roster (es : List (Event C N)) : Roster C N := es.foldl Roster.next fun _ => none

theorem roster_snoc (es : List (Event C N)) (e : Event C N) :
    roster (es ++ [e]) = (roster es).next e := by
  simp [roster]

theorem replace_self (old n : N) : replace old old n = n := by
  unfold replace
  split
  · exact (‹n = old›).symm
  · rfl

theorem image_replace (h : old ∈ s) : replace old new '' s = insert new (s \ {old}) := by
  ext x
  constructor
  · rintro ⟨n, hn, rfl⟩
    by_cases he : n = old
    · simp [replace, he]
    · simp [replace, he, hn]
  · rintro (rfl | ⟨hx, hne⟩)
    · exact ⟨old, h, by simp [replace]⟩
    · have hne' : x ≠ old := hne
      exact ⟨x, hx, by simp [replace, hne']⟩

theorem image_replace_of_not_mem (h : old ∉ s) : replace old new '' s = s := by
  have hid : ∀ n ∈ s, replace old new n = n := by
    intro n hn
    have hne : n ≠ old := fun he => h (he ▸ hn)
    simp [replace, hne]
  simp [Set.image_congr hid]

theorem next_rename_self : r.next (.rename old old) = r := by
  funext c
  cases h : r c <;> simp [Roster.next, h, funext (replace_self old)]

theorem next_rename_of_not_mem (h : ∀ c s, r c = some s → old ∉ s) :
    r.next (.rename old new) = r := by
  funext c
  cases hc : r c with
  | none => simp [Roster.next, hc]
  | some s => simp [Roster.next, hc, image_replace_of_not_mem (h c s hc)]

/-- A rename away from a member removes it. -/
theorem not_mem_rename (h : new ≠ old) : old ∉ replace old new '' s := by
  rintro ⟨n, -, hn⟩
  unfold replace at hn
  split at hn
  · exact h hn
  · exact ‹¬ n = old› hn

theorem next_add_nil : r.next (.add c []) = r := by
  funext d
  by_cases hd : d = c
  · subst hd
    cases h : r d <;> simp [Roster.next, h]
  · simp [Roster.next, hd]

theorem next_add_cons (ns : List N) :
    r.next (.add c (n :: ns)) = (r.next (.add c [n])).next (.add c ns) := by
  funext d
  by_cases hd : d = c
  · subst hd
    cases h : r d with
    | none => simp [Roster.next, h]
    | some s =>
      simp only [Roster.next, h, Function.update_self, Option.map_some, Option.some.injEq]
      ext m
      simp
      tauto
  · simp [Roster.next, hd]

theorem next_add_of_mem (h : ∀ s, r c = some s → n ∈ s) : r.next (.add c [n]) = r := by
  funext d
  by_cases hd : d = c
  · subst hd
    cases hr : r d with
    | none => simp [Roster.next, hr]
    | some s => simp [Roster.next, hr, h s hr]
  · simp [Roster.next, hd]

theorem next_add_none (h : r c = none) (ns : List N) : r.next (.add c ns) = r := by
  rw [Roster.next, h, Option.map_none, ← h, Function.update_eq_self]

theorem snoc_eq_append {α : Type} {es pre post : List α} {e x : α}
    (h : es ++ [e] = pre ++ x :: post) : (pre = es ∧ x = e ∧ post = []) ∨
      ∃ post', post = post' ++ [e] ∧ es = pre ++ x :: post' := by
  rcases List.eq_nil_or_concat post with rfl | ⟨post, f, rfl⟩
  · obtain ⟨rfl, he⟩ := List.append_inj' h rfl
    exact Or.inl ⟨rfl, (List.cons.inj he).1.symm, rfl⟩
  · have hsplit : es ++ [e] = (pre ++ x :: post) ++ [f] := by simpa using h
    obtain ⟨rfl, he⟩ := List.append_inj' hsplit rfl
    obtain rfl := (List.cons.inj he).1
    exact Or.inr ⟨post, List.concat_eq_append, rfl⟩

/-- Only our own joining and leaving decide whether a group is tracked. -/
theorem isSome_next (e : Event C N) (hs : ∀ n, e ≠ .start c n) (hl : e ≠ .leave c) :
    (r.next e c).isSome = (r c).isSome := by
  cases e with
  | start d n =>
    have hd : c ≠ d := fun hd => hs n (by rw [hd])
    simp [Roster.next, hd]
  | leave d =>
    have hd : c ≠ d := fun hd => hl (by rw [hd])
    simp [Roster.next, hd]
  | add d ns | remove d ns =>
    by_cases hd : c = d
    · subst hd
      simp [Roster.next]
    · simp [Roster.next, hd]
  | quit n | rename old new => simp [Roster.next]
  | other => rfl

/-- The groups tracked are those that we joined and have not left since. -/
theorem tracked_iff (es : List (Event C N)) (c : C) : (roster es c).isSome ↔
    ∃ pre n post, es = pre ++ .start c n :: post ∧ .leave c ∉ post := by
  induction es using List.reverseRecOn with
  | nil => simp [roster]
  | append_singleton es e ih =>
    rw [roster_snoc]
    by_cases hs : ∃ n, e = .start c n
    · obtain ⟨n, rfl⟩ := hs
      refine iff_of_true (by simp [Roster.next]) ⟨es, n, [], rfl, by simp⟩
    by_cases hl : e = .leave c
    · subst hl
      refine iff_of_false (by simp [Roster.next]) ?_
      rintro ⟨pre, n, post, hes, hpost⟩
      rcases snoc_eq_append hes with ⟨-, he, -⟩ | ⟨post', rfl, -⟩
      · cases he
      · exact hpost (by simp)
    rw [isSome_next e (fun n he => hs ⟨n, he⟩) hl, ih]
    constructor
    · rintro ⟨pre, n, post, rfl, hpost⟩
      refine ⟨pre, n, post ++ [e], by simp, ?_⟩
      intro hm
      rcases List.mem_append.mp hm with hm | hm
      · exact hpost hm
      · exact hl (List.mem_singleton.mp hm).symm
    · rintro ⟨pre, n, post, hes, hpost⟩
      rcases snoc_eq_append hes with ⟨-, he, -⟩ | ⟨post', rfl, rfl⟩
      · exact absurd ⟨n, he.symm⟩ hs
      · exact ⟨pre, n, post', rfl, fun hm => hpost (by simp [hm])⟩

end Next

end TuxBot.Membership
