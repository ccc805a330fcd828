import TuxBot.Lua.Pattern

/-! Patterns that read words between separators: where one item must stop is forced by the next. -/
namespace TuxBot.Lua.Pattern

variable {α : Type} {c d sep : α → Bool} {p : List (Item α)} {cs : List (Capture α)} {u v : List α}

/-- The pattern does not match a text that begins with a symbol of the class. -/
def Rejects (p : List (Item α)) (c : α → Bool) : Prop :=
  ∀ cs b s, c b = true → doMatch p cs (b :: s) = none

theorem rejects_start (h : Rejects p c) : Rejects (.start :: p) c := fun _ b s hb => h _ b s hb

theorem rejects_stop (h : Rejects p c) : Rejects (.stop :: p) c := fun _ b s hb => h _ b s hb

theorem rejects_one (h : ∀ b, c b = true → d b = false) : Rejects (.one d :: p) c := by
  intro cs b s hb
  simp [doMatch, h b hb]

theorem rejects_plus (h : ∀ b, c b = true → d b = false) : Rejects (.plus d :: p) c := by
  intro cs b s hb
  simp [doMatch, h b hb]

theorem Rejects.of_suffix (h : Rejects p c) (hu : ∀ b ∈ u, c b = true) {x : List α} (hx : x <:+ u)
    (hne : x ≠ []) : doMatch p cs (x ++ v) = none := by
  obtain ⟨b, x, rfl⟩ := List.exists_cons_of_ne_nil hne
  exact h cs b (x ++ v) (hu b (hx.subset List.mem_cons_self))

/-- `c*` before a pattern that cannot begin with `c`. -/
theorem doMatch_star_forced (h : Rejects p c) (hu : ∀ b ∈ u, c b = true)
    (hv : ∀ b ∈ v.head?, c b = false) : doMatch (.star c :: p) cs (u ++ v) = doMatch p cs v :=
  maxExpand_forced hu hv fun _ hx hne => h.of_suffix hu hx hne

/-- `c+` before a pattern that cannot begin with `c`. -/
theorem doMatch_plus_forced (h : Rejects p c) (hne : u ≠ []) (hu : ∀ b ∈ u, c b = true)
    (hv : ∀ b ∈ v.head?, c b = false) : doMatch (.plus c :: p) cs (u ++ v) = doMatch p cs v := by
  obtain ⟨b, u, rfl⟩ := List.exists_cons_of_ne_nil hne
  obtain ⟨hb, hu⟩ := List.forall_mem_cons.mp hu
  rw [List.cons_append, doMatch_plus hb]
  exact maxExpand_forced hu hv fun _ hx hne => h.of_suffix hu hx hne

/-- `(c+)` before a pattern that cannot begin with `c`. -/
theorem doMatch_word (h : Rejects p c) (hne : u ≠ []) (hu : ∀ b ∈ u, c b = true)
    (hv : ∀ b ∈ v.head?, c b = false) :
    doMatch (.start :: .plus c :: .stop :: p) cs (u ++ v) = doMatch p (.closed u :: cs) v := by
  rw [doMatch_start, doMatch_plus_forced (rejects_stop h) hne hu hv, doMatch_stop, endCapture_append]

/-- `(c+)` at the end of a pattern. -/
theorem doMatch_lastWord (hne : u ≠ []) (hu : ∀ b ∈ u, c b = true)
    (hv : ∀ b ∈ v.head?, c b = false) :
    doMatch [.start, .plus c, .stop] cs (u ++ v) = some (.closed u :: cs, v) := by
  obtain ⟨b, u, rfl⟩ := List.exists_cons_of_ne_nil hne
  obtain ⟨hb, hu⟩ := List.forall_mem_cons.mp hu
  rw [doMatch_start, List.cons_append, doMatch_plus hb]
  refine maxExpand_append hu hv ?_
  rw [doMatch_stop, ← List.cons_append, endCapture_append]
  rfl

/-- `(c.*)$` and `(c.-)$` take the text to its end, if `.` takes every symbol of it. -/
theorem doMatch_toEnd {run : Item α} {b : α} {s : List α} (hrun : run = .star d ∨ run = .lazy d)
    (hb : c b = true) (hs : ∀ b ∈ s, d b = true) :
    doMatch [.start, .one c, run, .stop, .eos] cs (b :: s) = some (.closed (b :: s) :: cs, []) := by
  have hend : doMatch [.stop, .eos] (.unfinished (b :: s) :: cs) [] =
      some (.closed (b :: s) :: cs, []) := by
    simp [doMatch, endCapture]
  rw [doMatch_start, doMatch_one hb]
  rcases hrun with rfl | rfl
  · have htake := maxExpand_append (v := []) hs (by simp) hend
    rwa [List.append_nil] at htake
  · have hstop : ∀ x, x <:+ s → x ≠ [] →
        doMatch [.stop, .eos] (.unfinished (b :: s) :: cs) (x ++ []) = none := by
      intro x _ hne
      simp [doMatch, hne]
    have htake := minExpand_append (v := []) hs hstop hend
    rwa [List.append_nil] at htake

section Separated

variable {t : List α} (hdisj : ∀ b, c b = true → sep b = false)
include hdisj

theorem class_of_sep {b : α} (hb : sep b = true) : c b = false := by
  by_contra hc
  rw [Bool.not_eq_false] at hc
  exact Bool.false_ne_true ((hdisj b hc).symm.trans hb)

/-- `(c+)sep+` before a pattern that cannot begin with a separator. -/
theorem doMatch_word_sep (h : Rejects p sep) (hne : u ≠ []) (hu : ∀ b ∈ u, c b = true)
    (htne : t ≠ []) (ht : ∀ b ∈ t, sep b = true) (hv : ∀ b ∈ v.head?, sep b = false) :
    doMatch (.start :: .plus c :: .stop :: .plus sep :: p) cs (u ++ (t ++ v)) =
      doMatch p (.closed u :: cs) v := by
  have hhead : ∀ b ∈ (t ++ v).head?, c b = false := by
    obtain ⟨b, t, rfl⟩ := List.exists_cons_of_ne_nil htne
    intro a ha
    obtain rfl : b = a := Option.some.inj ha
    exact class_of_sep hdisj (ht b List.mem_cons_self)
  rw [doMatch_word (rejects_plus hdisj) hne hu hhead, doMatch_plus_forced h htne ht hv]

/-- The last word of a text, where the pattern wants another one. -/
theorem doMatch_word_end (h : Rejects p sep) (hnil : ∀ cs, doMatch p cs [] = none) (hne : u ≠ [])
    (hu : ∀ b ∈ u, c b = true) (ht : ∀ b ∈ t, sep b = true) :
    doMatch (.start :: .plus c :: .stop :: .plus sep :: p) cs (u ++ t) = none := by
  by_cases htne : t = []
  · rw [htne, doMatch_word (rejects_plus hdisj) hne hu (by simp)]
    rfl
  · rw [← List.append_nil t, doMatch_word_sep hdisj h hne hu htne ht (by simp)]
    exact hnil _

end Separated

/-- `string.match` without an anchor begins at the first symbol that the pattern can begin with. -/
theorem search_forced (h : Rejects p c) (hu : ∀ b ∈ u, c b = true) :
    search p (u ++ v) = search p v := by
  induction u with
  | nil => rfl
  | cons b u ih =>
    obtain ⟨hb, hu⟩ := List.forall_mem_cons.mp hu
    rw [List.cons_append, search, matchHere_of_none (h [] b (u ++ v) hb), ih hu, Option.none_or]

theorem search_of_doMatch {s : List α} {r : List (Capture α) × List α}
    (h : doMatch p [] s = some r) : search p s = matchHere p s := by
  cases s with
  | nil => rfl
  | cons b s => simp [search, matchHere, h]

theorem values_of_doMatch {s : List α} {capture : Capture α}
    (h : doMatch p [] s = some (capture :: cs, v)) :
    (matchHere p s).map Match.values = some ((capture :: cs).map Capture.text).reverse := by
  simp [matchHere, h, Match.values]

end TuxBot.Lua.Pattern
