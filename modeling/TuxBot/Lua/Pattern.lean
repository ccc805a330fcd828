import Mathlib.Data.List.Basic
import Mathlib.Data.Option.Basic

/-! Backtracking patterns over an arbitrary alphabet, after `match` of lstrlib.c. Each pattern is
the list of its items; `(`, `)` and `$` are items of their own. -/
namespace TuxBot.Lua.Pattern

variable {α β : Type}

/-- `one`, `star`, `plus`, `lazy` and `opt` stand for `c`, `c*`, `c+`, `c-` and `c?`. -/
inductive Item (α : Type) where
  | one (c : α → Bool)
  | star (c : α → Bool)
  | plus (c : α → Bool)
  | lazy (c : α → Bool)
  | opt (c : α → Bool)
  | start
  | stop
  | eos

/-- An open capture remembers the text that was left where it began. -/
inductive Capture (α : Type) where
  | unfinished (init : List α)
  | closed (text : List α)

/-- `max_expand`: the longest run of `c` after which `k` succeeds. -/
def maxExpand (c : α → Bool) (k : List α → Option β) : List α → Option β
  | [] => k []
  | b :: s => if c b then (maxExpand c k s).or (k (b :: s)) else k (b :: s)

/-- `min_expand`: the shortest run of `c` after which `k` succeeds. -/
def minExpand (c : α → Bool) (k : List α → Option β) : List α → Option β
  | [] => k []
  | b :: s => (k (b :: s)).or (if c b then minExpand c k s else none)

/-- `end_capture` closes the last capture that is still open. -/
def endCapture (s : List α) : List (Capture α) → List (Capture α)
  | [] => []
  | .unfinished init :: cs => .closed (init.take (init.length - s.length)) :: cs
  | c :: cs => c :: endCapture s cs

/-- `match`: the captures, most recent first, and the text left after the match. -/
def doMatch : List (Item α) → List (Capture α) → List α → Option (List (Capture α) × List α)
  | [], cs, s => some (cs, s)
  | .one c :: p, cs, s =>
    match s with
    | [] => none
    | b :: s => if c b then doMatch p cs s else none
  | .star c :: p, cs, s => maxExpand c (doMatch p cs) s
  | .plus c :: p, cs, s =>
    match s with
    | [] => none
    | b :: s => if c b then maxExpand c (doMatch p cs) s else none
  | .lazy c :: p, cs, s => minExpand c (doMatch p cs) s
  | .opt c :: p, cs, s =>
    match s with
    | [] => doMatch p cs []
    | b :: s => (if c b then doMatch p cs s else none).or (doMatch p cs (b :: s))
  | .start :: p, cs, s => doMatch p (.unfinished s :: cs) s
  | .stop :: p, cs, s => doMatch p (endCapture s cs) s
  | .eos :: p, cs, s => if s.isEmpty then doMatch p cs s else none

/-- A successful match: its text, its captures in order and what follows it. -/
structure Match (α : Type) where
  whole : List α
  captures : List (List α)
  rest : List α
  deriving DecidableEq

def Capture.text : Capture α → List α
  | .unfinished init => init
  | .closed text => text

/-- A match that begins at the start of `s`: what an anchored pattern does. -/
def matchHere (p : List (Item α)) (s : List α) : Option (Match α) :=
  (doMatch p [] s).map fun (cs, rest) =>
    ⟨s.take (s.length - rest.length), (cs.map Capture.text).reverse, rest⟩

/-- `string.match` with a pattern that is not anchored: the first position that matches. -/
def search (p : List (Item α)) : List α → Option (Match α)
  | [] => matchHere p []
  | b :: s => (matchHere p (b :: s)).or (search p s)

/-- The captures of `string.match`, or the whole match when the pattern has none. -/
def Match.values (m : Match α) : List (List α) :=
  if m.captures.isEmpty then [m.whole] else m.captures

/-- The first `n` matches `string.gmatch` yields; an empty match moves on by one position. -/
def gmatchN (p : List (Item α)) : Nat → List α → List (Match α)
  | 0, _ => []
  | n + 1, s =>
    match search p s with
    | none => []
    | some m =>
      m :: if m.whole.isEmpty then
          match m.rest with
          | [] => []
          | _ :: r => gmatchN p n r
        else gmatchN p n m.rest

/-- Every match takes a position of its own, so `s.length + 1` of them are all. -/
def gmatch (p : List (Item α)) (s : List α) : List (Match α) := gmatchN p (s.length + 1) s

/-- `n` rounds of the loop of `str_gsub`. -/
def gsubN (p : List (Item α)) (f : Match α → List α) : Nat → List α → List α
  | 0, s => s
  | n + 1, s =>
    match matchHere p s, s with
    | none, [] => []
    | none, b :: s => b :: gsubN p f n s
    | some m, [] => f m
    | some m, b :: s =>
      f m ++ if m.whole.isEmpty then b :: gsubN p f n s else gsubN p f n m.rest

/-- `string.gsub`: each round reads at least one symbol, so `s.length + 1` rounds are all. -/
def gsub (p : List (Item α)) (f : Match α → List α) (s : List α) : List α :=
  gsubN p f (s.length + 1) s

/-- `string.gsub` with an anchored pattern: one round at the start of the subject. -/
def gsubHere (p : List (Item α)) (f : Match α → List α) (s : List α) : List α :=
  match matchHere p s with
  | none => s
  | some m => f m ++ m.rest

/-- The first capture of a match. -/
def capture (m : Option (Match α)) : Option (List α) := m.bind fun m => m.captures.head?

section Step

variable {c : α → Bool} {p : List (Item α)} {cs : List (Capture α)} {b : α} {s : List α}

theorem doMatch_one (h : c b = true) : doMatch (.one c :: p) cs (b :: s) = doMatch p cs s := by
  simp [doMatch, h]

theorem doMatch_one_some {r : List (Capture α) × List α} (h : doMatch (.one c :: p) cs s = some r) :
    ∃ b x, s = b :: x ∧ c b = true ∧ doMatch p cs x = some r := by
  cases s with
  | nil => simp [doMatch] at h
  | cons b x =>
    by_cases hb : c b
    · exact ⟨b, x, rfl, hb, by simpa [doMatch, hb] using h⟩
    · simp [doMatch, hb] at h

theorem doMatch_star : doMatch (.star c :: p) cs s = maxExpand c (doMatch p cs) s := rfl

theorem doMatch_plus (h : c b = true) :
    doMatch (.plus c :: p) cs (b :: s) = maxExpand c (doMatch p cs) s := by
  rw [doMatch, if_pos h]

theorem doMatch_start : doMatch (.start :: p) cs s = doMatch p (.unfinished s :: cs) s := rfl

theorem doMatch_stop : doMatch (.stop :: p) cs s = doMatch p (endCapture s cs) s := rfl

end Step

section Expand

variable {c : α → Bool} {k : List α → Option β} {u v : List α} {r : β}

theorem maxExpand_of_head (h : ∀ b ∈ v.head?, c b = false) : maxExpand c k v = k v := by
  cases v with
  | nil => rfl
  | cons b v =>
    have hb := h b (by simp)
    simp [maxExpand, hb]

/-- A greedy run takes all of `u` when the rest of the pattern accepts what follows it. -/
theorem maxExpand_append (hu : ∀ b ∈ u, c b = true) (hv : ∀ b ∈ v.head?, c b = false)
    (hk : k v = some r) : maxExpand c k (u ++ v) = some r := by
  induction u with
  | nil => simpa [maxExpand_of_head hv] using hk
  | cons b u ih =>
    have hb := hu b (by simp)
    have hrest := ih fun x hx => hu x (by simp [hx])
    simp [maxExpand, hb, hrest]

/-- A greedy run over `u` that must take all of it: the rest decides what follows. -/
theorem maxExpand_forced (hu : ∀ b ∈ u, c b = true) (hv : ∀ b ∈ v.head?, c b = false)
    (hn : ∀ x, x <:+ u → x ≠ [] → k (x ++ v) = none) : maxExpand c k (u ++ v) = k v := by
  induction u with
  | nil => exact maxExpand_of_head hv
  | cons b u ih =>
    have hb := hu b (by simp)
    have hfirst : k (b :: (u ++ v)) = none := hn (b :: u) (List.suffix_refl _) (by simp)
    have hrest := ih (fun x hx => hu x (by simp [hx]))
      fun x hx hne => hn x (hx.trans (List.suffix_cons b u)) hne
    simp [maxExpand, hb, hfirst, hrest]

/-- Without a continuation for any suffix, no number of repetitions helps. -/
theorem maxExpand_eq_none (h : ∀ x, x <:+ v → k x = none) : maxExpand c k v = none := by
  induction v with
  | nil => exact h [] (List.suffix_refl _)
  | cons b v ih =>
    have hv := ih fun x hx => h x (hx.trans (List.suffix_cons b v))
    have hb := h (b :: v) (List.suffix_refl _)
    simp [maxExpand, hv, hb]

/-- A greedy run over `u` fails when the rest fails wherever the run could stop. -/
theorem maxExpand_append_none (hv : ∀ b ∈ v.head?, c b = false)
    (hn : ∀ x, x <:+ u → k (x ++ v) = none) : maxExpand c k (u ++ v) = none := by
  induction u with
  | nil => simpa [maxExpand_of_head hv] using hn [] (List.suffix_refl _)
  | cons b u ih =>
    have hrest := ih fun x hx => hn x (hx.trans (List.suffix_cons b u))
    have hb : k (b :: (u ++ v)) = none := hn (b :: u) (List.suffix_refl _)
    simp [maxExpand, hrest, hb]

/-- A greedy run that fails on every suffix of `v` gives back one symbol more. -/
theorem maxExpand_giveBack {b : α} (hu : ∀ b ∈ u, c b = true) (hb : c b = true)
    (hn : ∀ x, x <:+ v → k x = none) (hk : k (b :: v) = some r) :
    maxExpand c k (u ++ b :: v) = some r := by
  induction u with
  | nil => simp [maxExpand, hb, maxExpand_eq_none hn, hk]
  | cons a u ih =>
    have ha := hu a (by simp)
    have hrest := ih fun x hx => hu x (by simp [hx])
    simp [maxExpand, ha, hrest]

/-- A lazy run stops at the first suffix that the rest of the pattern accepts. -/
theorem minExpand_append (hu : ∀ b ∈ u, c b = true)
    (hn : ∀ x, x <:+ u → x ≠ [] → k (x ++ v) = none) (hk : k v = some r) :
    minExpand c k (u ++ v) = some r := by
  induction u with
  | nil => cases v <;> simp [minExpand, hk]
  | cons b u ih =>
    have hb := hu b (by simp)
    have hfirst : k (b :: (u ++ v)) = none := by
      simpa using hn (b :: u) (List.suffix_refl _) (by simp)
    have hrest := ih (fun x hx => hu x (by simp [hx]))
      (fun x hx hne => hn x (hx.trans (List.suffix_cons b u)) hne)
    simp [minExpand, hb, hfirst, hrest]

theorem minExpand_eq_none (h : ∀ x, x <:+ v → k x = none) : minExpand c k v = none := by
  induction v with
  | nil => exact h [] (List.suffix_refl _)
  | cons b v ih =>
    have hv := ih fun x hx => h x (hx.trans (List.suffix_cons b v))
    have hb := h (b :: v) (List.suffix_refl _)
    simp [minExpand, hv, hb]

end Expand

/-- How far `doMatch` got is the text of the match. -/
theorem matchHere_of_some {p : List (Item α)} {u v : List α} {cs : List (Capture α)}
    (h : doMatch p [] (u ++ v) = some (cs, v)) :
    matchHere p (u ++ v) = some ⟨u, (cs.map Capture.text).reverse, v⟩ := by
  simp [matchHere, h]

theorem matchHere_of_none {p : List (Item α)} {s : List α} (h : doMatch p [] s = none) :
    matchHere p s = none := by
  simp [matchHere, h]

/-- A capture closed before `v` holds what was read since it was opened. -/
theorem endCapture_append (u v : List α) (cs : List (Capture α)) :
    endCapture v (.unfinished (u ++ v) :: cs) = .closed u :: cs := by
  simp [endCapture]

theorem endCapture_closed (u v : List α) (cs : List (Capture α)) :
    endCapture v (.closed u :: cs) = .closed u :: endCapture v cs := rfl

theorem capture_matchHere {p : List (Item α)} {s : List α} : capture (matchHere p s) =
    (doMatch p [] s).bind fun r => (r.1.map Capture.text).reverse.head? := by
  cases h : doMatch p [] s <;> simp [capture, matchHere, h]

section Suffix

variable {c : α → Bool} {k : List α → Option β} {v : List α} {r : β}

/-- A greedy run that succeeds takes some symbols of the class. -/
theorem maxExpand_split (h : maxExpand c k v = some r) :
    ∃ u x, v = u ++ x ∧ (∀ b ∈ u, c b = true) ∧ k x = some r := by
  induction v with
  | nil => exact ⟨[], [], rfl, nofun, h⟩
  | cons b v ih =>
    by_cases hc : c b
    · rcases Option.or_eq_some_iff.mp (by simpa [maxExpand, hc] using h) with hm | ⟨_, hm⟩
      · obtain ⟨u, x, rfl, hu, hx⟩ := ih hm
        refine ⟨b :: u, x, rfl, fun a ha => ?_, hx⟩
        rcases List.mem_cons.mp ha with rfl | ha
        · exact hc
        · exact hu a ha
      · exact ⟨[], b :: v, rfl, nofun, hm⟩
    · exact ⟨[], b :: v, rfl, nofun, by simpa [maxExpand, hc] using h⟩

theorem maxExpand_some (h : maxExpand c k v = some r) : ∃ x, x <:+ v ∧ k x = some r := by
  obtain ⟨u, x, rfl, -, hx⟩ := maxExpand_split h
  exact ⟨x, List.suffix_append u x, hx⟩

theorem minExpand_split (h : minExpand c k v = some r) :
    ∃ u x, v = u ++ x ∧ (∀ b ∈ u, c b = true) ∧ k x = some r := by
  induction v with
  | nil => exact ⟨[], [], rfl, nofun, h⟩
  | cons b v ih =>
    rcases Option.or_eq_some_iff.mp h with hm | ⟨_, hm⟩
    · exact ⟨[], b :: v, rfl, nofun, hm⟩
    · by_cases hc : c b
      · obtain ⟨u, x, rfl, hu, hx⟩ := ih (by simpa [hc] using hm)
        exact ⟨b :: u, x, rfl, List.forall_mem_cons.mpr ⟨hc, hu⟩, hx⟩
      · simp [hc] at hm

theorem minExpand_some (h : minExpand c k v = some r) : ∃ x, x <:+ v ∧ k x = some r := by
  obtain ⟨u, x, rfl, -, hx⟩ := minExpand_split h
  exact ⟨x, List.suffix_append u x, hx⟩

/-- What is left after a match is a suffix of the subject. -/
theorem doMatch_suffix {p : List (Item α)} {cs cs' : List (Capture α)} {s rest : List α}
    (h : doMatch p cs s = some (cs', rest)) : rest <:+ s := by
  induction p generalizing cs s with
  | nil =>
    obtain ⟨_, rfl⟩ : cs = cs' ∧ s = rest := by simpa [doMatch] using h
    exact List.suffix_refl _
  | cons i p ih =>
    cases i with
    | one c =>
      cases s with
      | nil => simp [doMatch] at h
      | cons b s =>
        by_cases hb : c b
        · exact (ih (by simpa [doMatch, hb] using h)).trans (List.suffix_cons b s)
        · simp [doMatch, hb] at h
    | star c =>
      obtain ⟨x, hx, he⟩ := maxExpand_some h
      exact (ih he).trans hx
    | plus c =>
      cases s with
      | nil => simp [doMatch] at h
      | cons b s =>
        by_cases hb : c b
        · obtain ⟨x, hx, he⟩ := maxExpand_some (by simpa [doMatch, hb] using h)
          exact ((ih he).trans hx).trans (List.suffix_cons b s)
        · simp [doMatch, hb] at h
    | lazy c =>
      obtain ⟨x, hx, he⟩ := minExpand_some h
      exact (ih he).trans hx
    | opt c =>
      cases s with
      | nil => exact ih h
      | cons b s =>
        rcases Option.or_eq_some_iff.mp h with hm | ⟨_, hm⟩
        · by_cases hb : c b
          · exact (ih (by simpa [hb] using hm)).trans (List.suffix_cons b s)
          · simp [hb] at hm
        · exact ih hm
    | start => exact ih h
    | stop => exact ih h
    | eos =>
      by_cases hs : s.isEmpty
      · exact ih (by simpa [doMatch, hs] using h)
      · simp [doMatch, hs] at h

/-- A match splits its subject. -/
theorem matchHere_append {p : List (Item α)} {s : List α} {m : Match α}
    (h : matchHere p s = some m) : m.whole ++ m.rest = s := by
  obtain ⟨⟨cs, rest⟩, hm, rfl⟩ := Option.map_eq_some_iff.mp h
  obtain ⟨u, rfl⟩ := doMatch_suffix hm
  simp

end Suffix

section Gsub

variable {p : List (Item α)} {f : Match α → List α}

/-- Rounds beyond the length of the subject change nothing. -/
theorem gsubN_eq_gsub {n : Nat} {s : List α} (hn : s.length < n) :
    gsubN p f n s = gsub p f s := by
  suffices h : ∀ l s : Nat, ∀ t : List α, t.length ≤ l → t.length < s →
      gsubN p f s t = gsubN p f (t.length + 1) t from h s.length n s (Nat.le_refl _) hn
  intro l
  induction l with
  | zero =>
    intro n t ht hn
    obtain rfl : t = [] := List.length_eq_zero_iff.mp (by omega)
    obtain ⟨n, rfl⟩ : ∃ m, n = m + 1 := ⟨n - 1, by simp at hn; omega⟩
    cases hm : matchHere p [] <;> simp [gsubN, hm]
  | succ l ih =>
    intro n t ht hn
    obtain ⟨n, rfl⟩ : ∃ m, n = m + 1 := ⟨n - 1, by omega⟩
    cases t with
    | nil => cases hm : matchHere p [] <;> simp [gsubN, hm]
    | cons b t =>
      simp only [List.length_cons, Nat.add_le_add_iff_right] at ht
      simp only [List.length_cons, Nat.add_lt_add_iff_right] at hn
      have htail : gsubN p f n t = gsubN p f (t.length + 1) t := ih n t ht hn
      cases hm : matchHere p (b :: t) with
      | none => simp [gsubN, hm, htail]
      | some m =>
        by_cases hw : m.whole = []
        · simp [gsubN, hm, hw, htail]
        · have hlen : m.rest.length ≤ t.length := by
            have happ := congrArg List.length (matchHere_append hm)
            have hpos := List.length_pos_iff.mpr hw
            simp only [List.length_append, List.length_cons] at happ
            omega
          have hrest : gsubN p f n m.rest = gsubN p f (t.length + 1) m.rest :=
            (ih n m.rest (by omega) (by omega)).trans
              (ih (t.length + 1) m.rest (by omega) (by omega)).symm
          simp [gsubN, hm, hw, hrest]

theorem gsub_nil_of_none (h : matchHere p [] = none) : gsub p f [] = [] := by
  simp [gsub, gsubN, h]

theorem gsub_cons_of_none {b : α} {s : List α} (h : matchHere p (b :: s) = none) :
    gsub p f (b :: s) = b :: gsub p f s := by
  simp [gsub, gsubN, h]

theorem gsub_cons_of_some {b : α} {s : List α} {m : Match α}
    (h : matchHere p (b :: s) = some m) (hw : m.whole ≠ []) :
    gsub p f (b :: s) = f m ++ gsub p f m.rest := by
  have hlen : m.rest.length < (b :: s).length := by
    have happ := congrArg List.length (matchHere_append h)
    have hpos := List.length_pos_iff.mpr hw
    simp only [List.length_append] at happ
    omega
  have hrest : gsubN p f (b :: s).length m.rest = gsub p f m.rest := gsubN_eq_gsub hlen
  simp only [List.length_cons] at hrest
  simp [gsub, gsubN, h, hw, hrest]

variable {c : α → Bool}

theorem matchHere_one_nil : matchHere [.one c] [] = none := by
  simp [matchHere, doMatch]

theorem matchHere_one_cons (b : α) (s : List α) :
    matchHere [.one c] (b :: s) = if c b then some ⟨[b], [], s⟩ else none := by
  by_cases h : c b <;> simp [matchHere, doMatch, h]

/-- A pattern of one class replaces symbol by symbol. -/
theorem gsub_one {g : α → List α} (hf : ∀ b s, f ⟨[b], [], s⟩ = g b) (s : List α) :
    gsub [.one c] f s = s.flatMap fun b => if c b then g b else [b] := by
  induction s with
  | nil => exact gsub_nil_of_none matchHere_one_nil
  | cons b s ih =>
    by_cases h : c b
    · rw [gsub_cons_of_some (m := ⟨[b], [], s⟩) (by simp [matchHere_one_cons, h]) (by simp), ih]
      simp [h, hf]
    · rw [gsub_cons_of_none (by simp [matchHere_one_cons, h]), ih]
      simp [h]

end Gsub

end TuxBot.Lua.Pattern
