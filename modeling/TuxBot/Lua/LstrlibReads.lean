import TuxBot.Lua.LstrlibItems
import TuxBot.Lua.PatternParses

/-! What `string.match` gives, and patterns whose items can be checked by evaluation. -/
namespace TuxBot.Lua.Lstrlib

open Pattern

variable {p q : Bytes} {is js : List (Item UInt8)}

/-- `string.match` gives the captures of the first way to read the text from its first place, of all
the ways from all the places; an anchor leaves one place. -/
theorem str_match_parses (h : Reads (unanchored (cstring p)).1 is) (src : Bytes) :
    str_match src p =
      .ok (((if (unanchored (cstring p)).2 then [src] else src.tails).flatMap (matchesHere is)).head?.map
        fun m => m.values.map .string) := by
  rw [str_match_eq h, search_eq_first, matchHere_eq_first]
  split
  · rw [List.flatMap_singleton]
  · rfl

/-- The pattern that takes the nick off a prefix. -/
theorem str_match_parses_bang : str_match (lit "nick!user@host") (lit "^..-(!.*)") =
    .ok (((if (unanchored (cstring (lit "^..-(!.*)"))).2 then [lit "nick!user@host"]
      else (lit "nick!user@host").tails).flatMap (matchesHere
      [.one fun _ => true, .lazy fun _ => true, .start, .one fun b => 33 == b, .star fun _ => true,
        .stop])).head?.map fun m => m.values.map .string) :=
  str_match_parses ⟨by rfl, by simp [Balanced], by decide⟩ _

/-! ### Replacing -/

/-- What becomes of a text when every match is replaced with `f`, from left to right, and how many
there are. After an empty match one byte is kept, and the matches go on behind it. -/
inductive Replaced (is : List (Item UInt8)) (f : Match UInt8 → Bytes) : Bytes → Bytes → Nat → Prop
  | done (h : matchHere is [] = none) : Replaced is f [] [] 0
  | last {m : Match UInt8} (h : matchHere is [] = some m) : Replaced is f [] (f m) 1
  | keep {b : UInt8} {s r : Bytes} {n : Nat} (h : matchHere is (b :: s) = none)
      (hrest : Replaced is f s r n) :
    Replaced is f (b :: s) (b :: r) n
  | insert {b : UInt8} {s r : Bytes} {n : Nat} {m : Match UInt8} (h : matchHere is (b :: s) = some m)
    (hempty : m.whole = []) (hrest : Replaced is f s r n) :
      Replaced is f (b :: s) (f m ++ b :: r) (n + 1)
  | replace {b : UInt8} {s r : Bytes} {n : Nat} {m : Match UInt8} (h : matchHere is (b :: s) = some m)
    (hwhole : m.whole ≠ []) (hrest : Replaced is f m.rest r n) :
      Replaced is f (b :: s) (f m ++ r) (n + 1)

theorem replaced_gsubN {f : Match UInt8 → Bytes} (n : Nat) (s : Bytes) (hn : s.length < n) :
    Replaced is f s (gsubN is f n s) (gsubCountN is n s) := by
  induction n generalizing s with
  | zero => exact absurd hn (Nat.not_lt_zero _)
  | succ n ih =>
    cases s with
    | nil =>
      cases hm : matchHere is [] with
      | none => simpa [gsubN, gsubCountN, hm] using Replaced.done hm
      | some m => simpa [gsubN, gsubCountN, hm] using Replaced.last hm
    | cons b s =>
      have hlength : s.length < n := by simpa using hn
      cases hm : matchHere is (b :: s) with
      | none => simpa [gsubN, gsubCountN, hm] using Replaced.keep hm (ih s hlength)
      | some m =>
        by_cases hempty : m.whole = []
        · simpa [gsubN, gsubCountN, hm, hempty, Nat.add_comm] using
            Replaced.insert hm hempty (ih s hlength)
        · have hrest : m.rest.length < n := by
            have hsplit := congrArg List.length (matchHere_append hm)
            have hpos := List.length_pos_iff.mpr hempty
            simp only [List.length_append, List.length_cons] at hsplit
            omega
          simpa [gsubN, gsubCountN, hm, hempty, Nat.add_comm] using
            Replaced.replace hm hempty (ih _ hrest)

theorem Replaced.unique {f : Match UInt8 → Bytes} {s r r' : Bytes} {n n' : Nat} (h : Replaced is f s r n)
    (h' : Replaced is f s r' n') : r = r' ∧ n = n' := by
  induction h generalizing r' n' with
  | done h => cases h' <;> simp_all
  | last h => cases h' <;> simp_all
  | keep h hrest ih =>
    cases h' with
    | keep _ hrest' =>
      obtain ⟨rfl, rfl⟩ := ih hrest'
      exact ⟨rfl, rfl⟩
    | insert h' | replace h' => cases h.symm.trans h'
  | insert h hempty hrest ih =>
    cases h' with
    | keep h' => cases h.symm.trans h'
    | insert h' _ hrest' =>
      obtain rfl := Option.some.inj (h.symm.trans h')
      obtain ⟨rfl, rfl⟩ := ih hrest'
      exact ⟨rfl, rfl⟩
    | replace h' hwhole => exact absurd (Option.some.inj (h.symm.trans h') ▸ hempty) hwhole
  | replace h hwhole hrest ih =>
    cases h' with
    | keep h' => cases h.symm.trans h'
    | insert h' hempty => exact absurd hempty (Option.some.inj (h.symm.trans h') ▸ hwhole)
    | replace h' _ hrest' =>
      obtain rfl := Option.some.inj (h.symm.trans h')
      obtain ⟨rfl, rfl⟩ := ih hrest'
      exact ⟨rfl, rfl⟩

/-- `string.gsub` without an anchor replaces every match, and gives what it has made and how many
there were. -/
theorem str_gsub_replaced {add : List Cap → Bytes → Bytes → Except Bytes Bytes} {f : Match UInt8 → Bytes}
    (hanchor : (unanchored (cstring p)).2 = false) (h : Reads (unanchored (cstring p)).1 is)
    (hadd : Adds add f)
    (src r : Bytes) (n : Nat) : str_gsub src p add = .ok (r, n) ↔ Replaced is f src r n := by
  have hall : Replaced is f src (gsub is f src) (gsubCount is src) :=
    replaced_gsubN _ src (Nat.lt_succ_self _)
  rw [str_gsub_eq h hadd, if_neg (by simp [hanchor])]
  constructor
  · intro hok
    obtain ⟨rfl, rfl⟩ := Prod.mk.inj (Except.ok.inj hok)
    exact hall
  · intro hreplaced
    obtain ⟨rfl, rfl⟩ := hall.unique hreplaced
    rfl

/-- The pattern that takes the tags out of a page. -/
theorem str_gsub_replaced_tags :
    str_gsub (lit "a<b>c") (lit "<.->") (fun ms s e => add_s (lit "a<b>c") ms s e []) =
      .ok (lit "ac", 1) ↔
      Replaced [.one fun b => 60 == b, .lazy fun _ => true, .one fun b => 62 == b] (fun _ => [])
        (lit "a<b>c") (lit "ac") 1 :=
  str_gsub_replaced (by decide) ⟨by rfl, by simp [Balanced], by decide⟩ (adds_string _ (by simp)) _ _ _

/-! ### Texts of patterns -/

/-- The text `p` stands for a pattern, with `^` in front of it or without. -/
structure Denotes (p : Bytes) (anchor : Bool) (is : List (Item UInt8)) : Prop where
  anchor : (unanchored (cstring p)).2 = anchor
  reads : Reads (unanchored (cstring p)).1 is

variable {anchor : Bool}

theorem Denotes.of_items (htext : unanchored (cstring p) = (q, anchor))
    (hitems : items (q.length + 1) q = some is) (hbalanced : Balanced 0 is)
    (hroom : starts is ≤ LUA_MAXCAPTURES) : Denotes p anchor is where
  anchor := by rw [htext]
  reads := by
    rw [htext]
    exact ⟨hitems, hbalanced, hroom⟩

/-- The values of a match as a program sees them. -/
def captures (src p : Bytes) : Except Bytes (Option (List Bytes)) := do
  return (← str_match src p).map (·.map Pushed.text)

theorem Denotes.captures (h : Denotes p anchor is) (src : Bytes) : Lstrlib.captures src p =
    .ok ((if anchor then matchHere is src else search is src).map Match.values) := by
  rw [Lstrlib.captures, str_match_eq h.reads, h.anchor]
  simp only [bind, Except.bind, pure, Except.pure, Option.map_map]
  congr
  funext m
  simp [Function.comp_def, Pushed.text]

/-! ### The number of captures -/

theorem length_endCapture (s : Bytes) (cs : List (Capture UInt8)) :
    (endCapture s cs).length = cs.length := by
  induction cs with
  | nil => rfl
  | cons c cs ih =>
    cases c with
    | unfinished init => rfl
    | closed text => simp [endCapture, ih]

/-- Every way to read a text has a capture for each `(`. -/
theorem captures_of_parses {cs cs' : List (Capture UInt8)} {s rest : Bytes}
    (h : (cs', rest) ∈ parses is cs s) : cs'.length = cs.length + starts is := by
  induction is generalizing cs s with
  | nil => simp_all [parses, starts]
  | cons i is ih =>
    cases i with
    | start =>
      rw [ih h, starts, starts, List.countP_cons_of_pos rfl, List.length_cons]
      omega
    | stop =>
      rw [ih h, length_endCapture]
      rfl
    | eos =>
      rw [parses] at h
      split at h
      · exact ih h
      · cases h
    | star c =>
      obtain ⟨t, -, ht⟩ := List.mem_flatMap.mp h
      exact ih ht
    | lazy c =>
      obtain ⟨t, -, ht⟩ := List.mem_flatMap.mp h
      exact ih ht
    | one c =>
      cases s with
      | nil => cases h
      | cons b s =>
        rw [parses] at h
        split at h
        · exact ih h
        · cases h
    | plus c =>
      cases s with
      | nil => cases h
      | cons b s =>
        rw [parses] at h
        split at h
        · obtain ⟨t, -, ht⟩ := List.mem_flatMap.mp h
          exact ih ht
        · cases h
    | opt c =>
      cases s with
      | nil => exact ih h
      | cons b s =>
        rcases List.mem_append.mp h with h | h
        · split at h
          · exact ih h
          · cases h
        · exact ih h

theorem length_captures {s : Bytes} {m : Match UInt8} (h : matchHere is s = some m) :
    m.captures.length = starts is := by
  rw [matchHere_eq_first, matchesHere, List.head?_map, Option.map_eq_some_iff] at h
  obtain ⟨⟨cs, rest⟩, hfirst, rfl⟩ := h
  simpa using captures_of_parses (List.mem_of_mem_head? (Option.mem_def.mpr hfirst))

/-! ### What `gsub` puts in -/

section

variable {ms : List Cap} {s e : Bytes}

/-- The first value of a match, which is the whole of it if there are no captures. -/
def first (m : Match UInt8) : Bytes := m.values.headD []

theorem push_first (hplain : Plain ms) (hclosed : opened ms = 0) (src : Bytes) :
    push_onecapture src ms 0 s e = .ok (.string (first (matched ms s e))) := by
  have hall := push_captures_eq hplain hclosed src s e
  have hpos : 0 < if ms.length = 0 then 1 else ms.length := by
    split <;> omega
  rw [push_captures] at hall
  obtain ⟨n, hn⟩ := Nat.exists_eq_succ_of_ne_zero hpos.ne'
  rw [hn, List.range_succ_eq_map, List.mapM_cons] at hall
  cases hone : push_onecapture src ms 0 s e with
  | error message =>
    rw [hone] at hall
    cases hall
  | ok value =>
    rw [hone] at hall
    cases hrest : (List.map Nat.succ (List.range n)).mapM fun i => push_onecapture src ms i s e with
    | error message =>
      rw [hrest] at hall
      cases hall
    | ok values =>
      rw [hrest] at hall
      have hvalues := Except.ok.inj hall
      rw [first]
      cases hm : (matched ms s e).values with
      | nil =>
        rw [hm] at hvalues
        cases hvalues
      | cons text texts =>
        rw [hm] at hvalues
        exact congrArg Except.ok (List.cons.inj hvalues).1

/-- `add_value` for a table, which is asked for the first capture; nil keeps the text of the match. -/
def add_table (src : Bytes) (t : Bytes → Option Bytes) (ms : List Cap) (s e : Bytes) :
    Except Bytes Bytes := do
  let key ← push_onecapture src ms 0 s e
  return (t key.text).getD (s.take (s.length - e.length))

theorem adds_table (src : Bytes) (t : Bytes → Option Bytes) :
    Adds (add_table src t) fun m => (t (first m)).getD m.whole := by
  intro ms s e hplain hclosed
  rw [add_table, push_first hplain hclosed]
  rfl

/-- A replacement string that ends with `%1`. -/
theorem adds_first (src : Bytes) {news : Bytes} (hnews : ∀ b ∈ news, b ≠ 37) :
    Adds (fun ms s e => add_s src ms s e (news ++ [37, 49])) fun m => news ++ first m := by
  intro ms s e hplain hclosed
  induction news with
  | nil =>
    dsimp only
    rw [List.nil_append, List.nil_append, add_s, show (!isDigit 49) = false by decide]
    simp [push_first hplain hclosed, Pushed.text, bind, Except.bind, pure, Except.pure]
  | cons b news ih =>
    obtain ⟨hb, hrest⟩ := List.forall_mem_cons.mp hnews
    have hadd := ih hrest
    dsimp only at hadd ⊢
    rw [List.cons_append, add_s, hadd]
    · rfl
    · exact fun hb' _ => hb hb'
    · exact fun _ _ hb' _ => hb hb'

end

theorem Denotes.str_gsub {add : List Cap → Bytes → Bytes → Except Bytes Bytes}
    {f : Match UInt8 → Bytes} (h : Denotes p false is) (hadd : Adds add f) (src : Bytes) :
    Lstrlib.str_gsub src p add = .ok (gsub is f src, gsubCount is src) := by
  rw [str_gsub_eq h.reads hadd, h.anchor]
  rfl

end TuxBot.Lua.Lstrlib
