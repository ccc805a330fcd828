import Mathlib.Data.List.Infix
import TuxBot.Lua.Pattern

/-! All the ways to read a text with a pattern, in the order in which they are tried. -/
namespace TuxBot.Lua.Pattern

variable {α β : Type} {c : α → Bool} {p : List (Item α)} {cs : List (Capture α)} {s : List α}

/-- What may be left behind a run of the class, the shortest run first. -/
def runs (c : α → Bool) : List α → List (List α)
  | [] => [[]]
  | b :: s => (b :: s) :: if c b then runs c s else []

/-- The ways to read the beginning of a text: the captures, and what is left. -/
def parses : List (Item α) → List (Capture α) → List α → List (List (Capture α) × List α)
  | [], cs, s => [(cs, s)]
  | .one c :: p, cs, s =>
    match s with
    | [] => []
    | b :: s => if c b then parses p cs s else []
  | .star c :: p, cs, s => (runs c s).reverse.flatMap (parses p cs)
  | .plus c :: p, cs, s =>
    match s with
    | [] => []
    | b :: s => if c b then (runs c s).reverse.flatMap (parses p cs) else []
  | .lazy c :: p, cs, s => (runs c s).flatMap (parses p cs)
  | .opt c :: p, cs, s =>
    match s with
    | [] => parses p cs []
    | b :: s => (if c b then parses p cs s else []) ++ parses p cs (b :: s)
  | .start :: p, cs, s => parses p (.unfinished s :: cs) s
  | .stop :: p, cs, s => parses p (endCapture s cs) s
  | .eos :: p, cs, s => if s.isEmpty then parses p cs s else []

section

variable {k : List α → Option β} {f : List α → List β}

theorem maxExpand_eq_first (h : ∀ s, k s = (f s).head?) (s : List α) :
    maxExpand c k s = ((runs c s).reverse.flatMap f).head? := by
  induction s with
  | nil => simp [maxExpand, runs, h]
  | cons b s ih =>
    rw [maxExpand, runs, List.reverse_cons, List.flatMap_append, List.head?_append,
      List.flatMap_singleton]
    split
    · rw [ih, h]
    · rw [h]
      rfl

theorem minExpand_eq_first (h : ∀ s, k s = (f s).head?) (s : List α) :
    minExpand c k s = ((runs c s).flatMap f).head? := by
  induction s with
  | nil => simp [minExpand, runs, h]
  | cons b s ih =>
    rw [minExpand, runs, List.flatMap_cons, List.head?_append, h]
    split
    · rw [ih]
    · rfl

end

/-- The matcher takes the first way there is. -/
theorem doMatch_eq_first (p : List (Item α)) (cs : List (Capture α)) (s : List α) :
    doMatch p cs s = (parses p cs s).head? := by
  induction p generalizing cs s with
  | nil => rfl
  | cons i p ih =>
    cases i with
    | one c =>
      cases s with
      | nil => rfl
      | cons b s =>
        rw [doMatch, parses]
        split
        · exact ih cs s
        · rfl
    | star c => exact maxExpand_eq_first (ih cs) s
    | plus c =>
      cases s with
      | nil => rfl
      | cons b s =>
        rw [doMatch, parses]
        split
        · exact maxExpand_eq_first (ih cs) s
        · rfl
    | lazy c => exact minExpand_eq_first (ih cs) s
    | opt c =>
      cases s with
      | nil => exact ih cs []
      | cons b s =>
        rw [doMatch, parses]
        rw [List.head?_append, ih, ih]
        split <;> rfl
    | start => exact ih _ s
    | stop => exact ih _ s
    | eos =>
      rw [doMatch, parses]
      split
      · exact ih cs s
      · rfl

/-- All matches that begin at the start of the text. -/
def matchesHere (p : List (Item α)) (s : List α) : List (Match α) :=
  (parses p [] s).map fun (cs, rest) =>
    ⟨s.take (s.length - rest.length), (cs.map Capture.text).reverse, rest⟩

theorem matchHere_eq_first (p : List (Item α)) (s : List α) :
    matchHere p s = (matchesHere p s).head? := by
  rw [matchHere, matchesHere, doMatch_eq_first, List.head?_map]

/-- The search takes the first match of the first place that has one. -/
theorem search_eq_first (p : List (Item α)) (s : List α) :
    search p s = (s.tails.flatMap (matchesHere p)).head? := by
  induction s with
  | nil => simp [search, matchHere_eq_first]
  | cons b s ih =>
    rw [search, List.tails_cons, List.flatMap_cons, List.head?_append, ih, matchHere_eq_first]

/-- What a search finds is a match at some place. -/
theorem matchHere_of_search {m : Match α} (h : search p s = some m) : ∃ t, matchHere p t = some m := by
  induction s with
  | nil => exact ⟨[], h⟩
  | cons b s ih =>
    rcases Option.or_eq_some_iff.mp h with h | ⟨-, h⟩
    · exact ⟨b :: s, h⟩
    · exact ih h

theorem matchHere_of_mem_gmatchN {m : Match α} (n : Nat) (h : m ∈ gmatchN p n s) :
    ∃ t, matchHere p t = some m := by
  induction n generalizing s with
  | zero => cases h
  | succ n ih =>
    rw [gmatchN] at h
    cases hsearch : search p s with
    | none =>
      rw [hsearch] at h
      cases h
    | some found =>
      rw [hsearch] at h
      rcases List.mem_cons.mp h with rfl | h
      · exact matchHere_of_search hsearch
      · split at h
        · split at h
          · cases h
          · exact ih h
        · exact ih h

/-- Only what is put in for the matches of the pattern counts. -/
theorem gsubN_congr {f g : Match α → List α} (h : ∀ s m, matchHere p s = some m → f m = g m) (n : Nat)
    (s : List α) : gsubN p f n s = gsubN p g n s := by
  induction n generalizing s with
  | zero => rfl
  | succ n ih =>
    cases hm : matchHere p s with
    | none => cases s <;> simp [gsubN, hm, ih]
    | some m => cases s <;> simp [gsubN, hm, h _ m hm, ih]

end TuxBot.Lua.Pattern
