import TuxBot.Lua.Pattern

/-! What a capture holds: of all the runs after which the rest of the pattern matches, a greedy
capture takes the longest one. -/
namespace TuxBot.Lua.Pattern

variable {α β : Type} {c : α → Bool} {s v u x : List α}

section Expand

variable {k : List α → Option β} {r : β}

theorem maxExpand_ne_none (hu : ∀ b ∈ u, c b = true) (hk : k x ≠ none) :
    maxExpand c k (u ++ x) ≠ none := by
  induction u with
  | nil =>
    intro h
    cases x with
    | nil => exact hk h
    | cons b x =>
      by_cases hb : c b
      · simp only [maxExpand, hb, if_true, Option.or_eq_none_iff, List.nil_append] at h
        exact hk h.2
      · exact hk (by simpa [maxExpand, hb] using h)
  | cons b u ih =>
    intro h
    have hb := hu b List.mem_cons_self
    simp only [List.cons_append, maxExpand, hb, if_true, Option.or_eq_none_iff] at h
    exact ih (fun a ha => hu a (List.mem_cons_of_mem b ha)) h.1

/-- No run of `c` that is longer than `u` is followed by something that `k` accepts. -/
def Longest (c : α → Bool) (k : List α → List α → Option β) (s u : List α) : Prop :=
  ∀ u' x', s = u' ++ x' → (∀ b ∈ u', c b = true) → u.length < u'.length → k u' x' = none

theorem maxExpand_longest (h : maxExpand c k v = some r) : ∃ u x, v = u ++ x ∧
    (∀ b ∈ u, c b = true) ∧ k x = some r ∧ Longest c (fun _ => k) v u := by
  induction v with
  | nil =>
    refine ⟨[], [], rfl, nofun, h, fun u' x' hs _ hlen => ?_⟩
    obtain ⟨rfl, rfl⟩ := List.nil_eq_append_iff.mp hs
    exact absurd hlen (Nat.lt_irrefl 0)
  | cons b v ih =>
    by_cases hb : c b
    · simp only [maxExpand, hb, if_true, Option.or_eq_some_iff] at h
      rcases h with hm | ⟨hnone, hm⟩
      · obtain ⟨u, x, rfl, hu, hx, hlongest⟩ := ih hm
        refine ⟨b :: u, x, rfl, List.forall_mem_cons.mpr ⟨hb, hu⟩, hx, ?_⟩
        intro u' x' hs hclass hlen
        obtain ⟨d, u', rfl⟩ := List.exists_cons_of_length_pos (Nat.lt_of_le_of_lt (Nat.zero_le _) hlen)
        obtain ⟨-, hs⟩ := List.cons.inj hs
        exact hlongest u' x' hs (List.forall_mem_cons.mp hclass).2 (by simpa using hlen)
      · refine ⟨[], b :: v, rfl, nofun, hm, fun u' x' hs hclass hlen => ?_⟩
        obtain ⟨d, u', rfl⟩ := List.exists_cons_of_length_pos hlen
        obtain ⟨-, rfl⟩ := List.cons.inj hs
        by_contra hne
        exact maxExpand_ne_none (List.forall_mem_cons.mp hclass).2 hne hnone
    · refine ⟨[], b :: v, rfl, nofun, by simpa [maxExpand, hb] using h, ?_⟩
      intro u' x' hs hclass hlen
      obtain ⟨d, u', rfl⟩ := List.exists_cons_of_length_pos hlen
      obtain ⟨rfl, -⟩ := List.cons.inj hs
      exact absurd (hclass b List.mem_cons_self) hb

end Expand

/-- Two ways to split a text with a longest run are one. -/
theorem Longest.unique {k : List α → List α → Option β} {u' x' : List α} (hu : Longest c k s u)
    (hu' : Longest c k s u') (hs : s = u ++ x) (hs' : s = u' ++ x') (hc : ∀ b ∈ u, c b = true)
    (hc' : ∀ b ∈ u', c b = true) (hk : k u x ≠ none) (hk' : k u' x' ≠ none) :
    u = u' ∧ x = x' := by
  have hle : u'.length ≤ u.length := Nat.le_of_not_lt fun h => hk' (hu u' x' hs' hc' h)
  have hge : u.length ≤ u'.length := Nat.le_of_not_lt fun h => hk (hu' u x hs hc h)
  exact List.append_inj (hs.symm.trans hs') (Nat.le_antisymm hge hle)

/-- A run that ends where the class does is the longest one. -/
theorem longest_of_head {k : List α → List α → Option β} (hx : ∀ b ∈ x.head?, c b = false) :
    Longest c k (u ++ x) u := by
  intro u' x' hs hclass hlen
  have hprefix : u <+: u' := List.prefix_of_prefix_length_le (List.prefix_append u x)
    (hs ▸ List.prefix_append u' x') (Nat.le_of_lt hlen)
  obtain ⟨d, rfl⟩ := hprefix
  obtain ⟨b, d, rfl⟩ : ∃ b d', d = b :: d' :=
    List.exists_cons_of_length_pos (by simpa using hlen)
  have hhead : x = b :: (d ++ x') := by simpa using hs
  have hb := hclass b (by simp)
  simp [hx b (by simp [hhead])] at hb

section Group

variable {p : List (Item α)} {cs : List (Capture α)} {r : List (Capture α) × List α}

/-- How the pattern goes on behind a capture of `u`. -/
def afterCapture (p : List (Item α)) (cs : List (Capture α)) (u x : List α) :
    Option (List (Capture α) × List α) :=
  doMatch p (.closed u :: cs) x

theorem doMatch_close (p : List (Item α)) (cs : List (Capture α)) (u x : List α) :
    doMatch (.stop :: p) (.unfinished (u ++ x) :: cs) x = afterCapture p cs u x := by
  rw [doMatch_stop, endCapture_append, afterCapture]

/-- `(c+)` captures the longest run of `c`, of one symbol at least, after which the rest matches. -/
theorem doMatch_group_plus (h : doMatch (.start :: .plus c :: .stop :: p) cs s = some r) :
    ∃ u x, s = u ++ x ∧ u ≠ [] ∧ (∀ b ∈ u, c b = true) ∧ afterCapture p cs u x = some r ∧
      Longest c (afterCapture p cs) s u := by
  rw [doMatch_start] at h
  cases s with
  | nil => simp [doMatch] at h
  | cons b s =>
    have hb : c b = true := by
      by_contra hb
      simp [doMatch, hb] at h
    rw [doMatch_plus hb] at h
    obtain ⟨u, x, rfl, hu, hx, hlongest⟩ := maxExpand_longest h
    have hclose := doMatch_close p cs (b :: u) x
    refine ⟨b :: u, x, rfl, by simp, List.forall_mem_cons.mpr ⟨hb, hu⟩, hclose.symm.trans hx, ?_⟩
    intro u' x' hs hclass hlen
    obtain ⟨d, u', rfl⟩ := List.exists_cons_of_length_pos (Nat.lt_of_le_of_lt (Nat.zero_le _) hlen)
    obtain ⟨rfl, htail⟩ := List.cons.inj hs
    have hclose' := doMatch_close p cs (b :: u') x'
    rw [← hs] at hclose'
    rw [← hclose']
    exact hlongest u' x' htail (List.forall_mem_cons.mp hclass).2 (by simpa using hlen)

theorem doMatch_group_plus_ne_none (hne : u ≠ []) (hu : ∀ b ∈ u, c b = true)
    (hx : afterCapture p cs u x ≠ none) :
    doMatch (.start :: .plus c :: .stop :: p) cs (u ++ x) ≠ none := by
  obtain ⟨b, u, rfl⟩ := List.exists_cons_of_ne_nil hne
  obtain ⟨hb, hu⟩ := List.forall_mem_cons.mp hu
  rw [doMatch_start, List.cons_append, doMatch_plus hb]
  refine maxExpand_ne_none hu ?_
  rwa [← List.cons_append, doMatch_close]

/-- The capture is known when the run is. -/
theorem doMatch_group_plus_of_longest (hne : u ≠ []) (hu : ∀ b ∈ u, c b = true)
    (hx : afterCapture p cs u x = some r) (hlongest : Longest c (afterCapture p cs) (u ++ x) u) :
    doMatch (.start :: .plus c :: .stop :: p) cs (u ++ x) = some r := by
  have hsome : afterCapture p cs u x ≠ none := by simp [hx]
  obtain ⟨r', hr'⟩ := Option.ne_none_iff_exists'.mp (doMatch_group_plus_ne_none hne hu hsome)
  obtain ⟨u', x', hs, -, hu', hx', hlongest'⟩ := doMatch_group_plus hr'
  obtain ⟨rfl, rfl⟩ :=
    hlongest.unique hlongest' rfl hs hu hu' hsome (by simp [hx'])
  rw [hr', ← hx, hx']

end Group

end TuxBot.Lua.Pattern
