import TuxBot.Lua.Lstrlib
import TuxBot.Lua.PlainPattern

/-! Matching the bytes of a pattern is backtracking over its items. -/
namespace TuxBot.Lua.Lstrlib

open Pattern

variable {ms : List Cap} {s p q src : Bytes} {fuel n : Nat} {i : Item UInt8} {is : List (Item UInt8)}

/-- A pattern item with its suffix, given the class and what follows it. -/
def suffixed (c : UInt8 → Bool) : Bytes → Item UInt8 × Bytes
  | 63 :: p => (.opt c, p)
  | 42 :: p => (.star c, p)
  | 43 :: p => (.plus c, p)
  | 45 :: p => (.lazy c, p)
  | p => (.one c, p)

/-- What `match` reads first of a pattern. Position captures, `%b`, `%f` and back references are no
items. -/
def readitem : Bytes → Option (Item UInt8 × Bytes)
  | [] => none
  | 40 :: 41 :: _ => none
  | 40 :: p => some (.start, p)
  | 41 :: p => some (.stop, p)
  | [36] => some (.eos, [])
  | p =>
    match p with
    | 37 :: d :: _ => if d = 98 ∨ d = 102 ∨ isDigit d then none else single p
    | _ => single p
where
  single (p : Bytes) : Option (Item UInt8 × Bytes) :=
    match classend p with
    | .error _ => none
    | .ok ep => some (suffixed (fun c => singlematch c (p.take (p.length - ep.length))) ep)

/-- The items of a pattern. -/
def items : Nat → Bytes → Option (List (Item UInt8))
  | 0, _ => none
  | _ + 1, [] => some []
  | fuel + 1, p => do
    let (i, p) ← readitem p
    return i :: (← items fuel p)

/-- What `match` does for an item, with `k` for the rest of the pattern. -/
def stepitem (k : List Cap → Bytes → Result) (ms : List Cap) (s : Bytes) : Item UInt8 → Result
  | .one c => if s.head?.any c then k ms s.tail else .ok (ms, none)
  | .opt c => if s.head?.any c then orelse (k ms s.tail) fun ms => k ms s else k ms s
  | .star c => max_expand k c ms s
  | .plus c => if s.head?.any c then max_expand k c ms s.tail else .ok (ms, none)
  | .lazy c => min_expand k c ms s
  | .start => start_capture k ms s .unfinished
  | .stop => end_capture k ms s
  | .eos => .ok (ms, if s = [] then some s else none)

theorem matchitem_eq {rec : List Cap → Bytes → Bytes → Result} (h : readitem.single p = some (i, q)) :
    matchitem rec ms s p = stepitem (rec · · q) ms s i := by
  rw [readitem.single] at h
  rw [matchitem]
  cases hend : classend p with
  | error e =>
    rw [hend] at h
    cases h
  | ok ep =>
    rw [hend] at h
    have hi := Option.some.inj h
    simp only [bind, Except.bind]
    generalize (fun c => singlematch c (p.take (p.length - ep.length))) = c at hi
    obtain _ | ⟨d, ep⟩ := ep
    · cases hi
      rfl
    by_cases hopt : d = 63
    · subst hopt
      cases hi
      rfl
    by_cases hstar : d = 42
    · subst hstar
      cases hi
      rfl
    by_cases hplus : d = 43
    · subst hplus
      cases hi
      rfl
    by_cases hlazy : d = 45
    · subst hlazy
      cases hi
      rfl
    have hone : suffixed c (d :: ep) = (.one c, d :: ep) := by simp [suffixed, hopt, hstar, hplus, hlazy]
    obtain ⟨rfl, rfl⟩ := Prod.mk.inj (hone.symm.trans hi)
    simp [hopt, hstar, hplus, hlazy, stepitem, pure, Except.pure]

/-- `match` goes on item by item. -/
theorem do_match_eq (h : readitem p = some (i, q)) :
    do_match src (fuel + 1) ms s p = stepitem (do_match src fuel · · q) ms s i := by
  unfold readitem at h
  split at h
  · cases h
  · cases h
  · rename_i p hclosed
    cases h
    rw [do_match]
    · rfl
    · exact hclosed
  · cases h
    rfl
  · cases h
    rfl
  · rename_i hnil hposition hstart hstop heos
    split at h
    · rename_i d p'
      split at h
      · cases h
      · rename_i hd
        rw [do_match, if_neg fun hdigit => hd (Or.inr (Or.inr hdigit))]
        · exact matchitem_eq h
        · exact fun _ _ _ hb _ => hd (Or.inl hb)
        · exact fun hb => hd (Or.inl hb)
        · exact fun hf => hd (Or.inr (Or.inl hf))
    · rename_i hescape
      rw [do_match]
      · exact matchitem_eq h
      · exact hnil
      · exact hposition
      · exact hstart
      · exact hstop
      · exact fun _ _ _ hp => hescape _ _ hp
      · exact fun _ hp => hescape _ _ hp
      · exact fun _ hp => hescape _ _ hp
      · exact hescape
      · exact heos

/-- `$` is an item at the end only. -/
theorem readitem_eos (h : readitem p = some (.eos, q)) : q = [] := by
  have hsingle : readitem.single p ≠ some (.eos, q) := by
    intro hp
    rw [readitem.single] at hp
    split at hp
    · cases hp
    · have hi := Option.some.inj hp
      unfold suffixed at hi
      split at hi <;> cases hi
  unfold readitem at h
  split at h
  · cases h
  · cases h
  · cases h
  · cases h
  · cases h
    rfl
  · split at h
    · split at h
      · cases h
      · exact absurd h hsingle
    · exact absurd h hsingle

/-! ### Captures -/

/-- A capture as it is among items. -/
def Cap.view : Cap → Capture UInt8
  | ⟨init, .unfinished⟩ => .unfinished init
  | ⟨init, .chars n⟩ => .closed (init.take n)
  | ⟨_, .position⟩ => .closed []

def opened (ms : List Cap) : Nat := ms.countP fun c => c.len = .unfinished

/-- Every `)` closes a capture, with `n` of them open, and none is left open. -/
def Balanced : Nat → List (Item UInt8) → Prop
  | n, [] => n = 0
  | n, .start :: is => Balanced (n + 1) is
  | n, .stop :: is => 0 < n ∧ Balanced (n - 1) is
  | n, _ :: is => Balanced n is

def starts (is : List (Item UInt8)) : Nat := is.countP fun | .start => true | _ => false

/-- No capture is a position. -/
def Plain (ms : List Cap) : Prop := ∀ c ∈ ms, c.len ≠ .position

/-- A call of `match` that changes the captures only if it succeeds, and then does what is done with the
items, and has closed them all. -/
inductive Agrees (ms : List Cap) : Result → Option (List (Capture UInt8) × Bytes) → Prop
  | fails : Agrees ms (.ok (ms, none)) none
  | succeeds (ms' : List Cap) (s : Bytes) (hplain : Plain ms') (hclosed : opened ms' = 0) :
    Agrees ms (.ok (ms', some s)) (some (ms'.map Cap.view, s))

theorem Agrees.orelse {res : Result} {o o' : Option (List (Capture UInt8) × Bytes)}
    {next : List Cap → Result} (h : Agrees ms res o) (hnext : Agrees ms (next ms) o') :
    Agrees ms (Lstrlib.orelse res next) (o.or o') := by
  cases h with
  | fails => exact hnext
  | succeeds ms' s hplain hclosed => exact .succeeds ms' s hplain hclosed

section

variable {k : List Cap → Bytes → Result} {c : UInt8 → Bool}
  {f : Bytes → Option (List (Capture UInt8) × Bytes)}

theorem maxLoop_cons (b : UInt8) (n : Nat) :
    maxLoop k (b :: s) (n + 1) ms = orelse (maxLoop k s n ms) fun ms => k ms (b :: s) := by
  induction n generalizing ms with
  | zero => rfl
  | succ n ih =>
    rw [maxLoop, maxLoop, List.drop_succ_cons]
    cases hk : k ms (s.drop (n + 1)) with
    | error e => rfl
    | ok r =>
      obtain ⟨ms', res⟩ := r
      cases res with
      | none => exact ih
      | some s => rfl

theorem agrees_max_expand (h : ∀ s, Agrees ms (k ms s) (f s)) (s : Bytes) :
    Agrees ms (max_expand k c ms s) (maxExpand c f s) := by
  induction s with
  | nil => exact h []
  | cons b s ih =>
    rw [max_expand, List.takeWhile_cons, maxExpand]
    split
    · rw [List.length_cons, maxLoop_cons]
      exact ih.orelse (h (b :: s))
    · exact h (b :: s)

theorem agrees_min_expand (h : ∀ s, Agrees ms (k ms s) (f s)) (s : Bytes) :
    Agrees ms (min_expand k c ms s) (minExpand c f s) := by
  induction s with
  | nil => exact h []
  | cons b s ih =>
    rw [min_expand, minExpand]
    refine (h (b :: s)).orelse ?_
    split
    · exact ih
    · exact .fails

end

/-! ### Closing -/

def closed (s : Bytes) (c : Cap) : Cap := { c with len := .chars (c.init.length - s.length) }

theorem Plain.modify (h : Plain ms) (l : Nat) : Plain (ms.modify l (closed s)) := by
  induction ms generalizing l with
  | nil =>
    rw [List.modify_nil]
    exact h
  | cons c ms ih =>
    obtain ⟨hc, hms⟩ := List.forall_mem_cons.mp h
    cases l with
    | zero => exact List.forall_mem_cons.mpr ⟨by simp [closed], hms⟩
    | succ l => exact List.forall_mem_cons.mpr ⟨hc, ih hms l⟩

/-- What closing the last open capture makes of them all. -/
structure Closes (ms : List Cap) (s : Bytes) (l : Nat) : Prop where
  found : capture_to_close ms = some l
  view : (ms.modify l (closed s)).map Cap.view = endCapture s (ms.map Cap.view)
  opened : opened (ms.modify l (closed s)) + 1 = opened ms
  undone : (ms.modify l (closed s)).modify l (fun c => { c with len := .unfinished }) = ms

theorem exists_closes (h : 0 < opened ms) (s : Bytes) : ∃ l, Closes ms s l := by
  induction ms with
  | nil => cases h
  | cons c ms ih =>
    obtain ⟨init, len⟩ := c
    by_cases hlen : len = .unfinished
    · subst hlen
      exact ⟨0, by simp [capture_to_close, List.findIdx?_cons], rfl,
        by simp [Lstrlib.opened, closed], rfl⟩
    · have hopened : opened (⟨init, len⟩ :: ms) = opened ms :=
        List.countP_cons_of_neg (by simpa using hlen)
      rw [hopened] at h
      obtain ⟨l, hfound, hview, hless, hundone⟩ := ih h
      refine ⟨l + 1, ?_, ?_, ?_, ?_⟩
      · rw [capture_to_close] at hfound ⊢
        simp [List.findIdx?_cons, hlen, hfound]
      · rw [List.modify_succ_cons, List.map_cons, hview, List.map_cons]
        cases len with
        | unfinished => exact absurd rfl hlen
        | position => rfl
        | chars n => rfl
      · rw [List.modify_succ_cons, hopened, ← hless]
        exact congrArg (· + 1) (List.countP_cons_of_neg (by simpa using hlen))
      · rw [List.modify_succ_cons, List.modify_succ_cons, hundone]

theorem agrees_end_capture {k : List Cap → Bytes → Result} {l : Nat}
    {o : Option (List (Capture UInt8) × Bytes)} (hl : Closes ms s l)
    (h : Agrees (ms.modify l (closed s)) (k (ms.modify l (closed s)) s) o) :
    Agrees ms (end_capture k ms s) o := by
  rw [end_capture, hl.found]
  show Agrees ms (orelse (k (ms.modify l (closed s)) s) _) o
  generalize k (ms.modify l (closed s)) s = res at h
  cases h with
  | fails =>
    show Agrees ms (.ok ((ms.modify l (closed s)).modify l _, none)) none
    rw [hl.undone]
    exact .fails
  | succeeds ms' s' hplain hclosed => exact .succeeds ms' s' hplain hclosed

theorem agrees_start_capture {k : List Cap → Bytes → Result}
    {o : Option (List (Capture UInt8) × Bytes)} (hroom : ms.length < LUA_MAXCAPTURES)
    (h : Agrees (⟨s, .unfinished⟩ :: ms) (k (⟨s, .unfinished⟩ :: ms) s) o) :
    Agrees ms (start_capture k ms s .unfinished) o := by
  rw [start_capture, if_neg (Nat.not_le.mpr hroom)]
  generalize k (⟨s, .unfinished⟩ :: ms) s = res at h
  cases h with
  | fails => exact .fails
  | succeeds ms' s' hplain hclosed => exact .succeeds ms' s' hplain hclosed

/-! ### Whole patterns -/

theorem items_succ (h : items (fuel + 1) p = some is) :
    p = [] ∧ is = [] ∨
      ∃ i q is', readitem p = some (i, q) ∧ items fuel q = some is' ∧ is = i :: is' := by
  cases p with
  | nil => exact Or.inl ⟨rfl, (Option.some.inj h).symm⟩
  | cons b p =>
    rw [items] at h
    · obtain ⟨⟨i, q⟩, hread, hrest⟩ := Option.bind_eq_some_iff.mp h
      obtain ⟨is', hitems, his⟩ := Option.bind_eq_some_iff.mp hrest
      exact Or.inr ⟨i, q, is', hread, hitems, (Option.some.inj his).symm⟩
    · exact List.cons_ne_nil b p

/-- Matching the bytes of a pattern with items is backtracking over these. -/
theorem agrees_do_match (hitems : items fuel p = some is) (hbalanced : Balanced (opened ms) is)
    (hplain : Plain ms) (hroom : ms.length + starts is ≤ LUA_MAXCAPTURES) :
    Agrees ms (do_match src fuel ms s p) (doMatch is (ms.map Cap.view) s) := by
  induction fuel generalizing ms s p is with
  | zero => cases hitems
  | succ fuel ih =>
    rcases items_succ hitems with ⟨rfl, rfl⟩ | ⟨i, q, is, hread, hrest, rfl⟩
    · exact .succeeds ms s hplain hbalanced
    rw [do_match_eq hread]
    cases i with
    | one c =>
      have hk := fun s => ih hrest hbalanced hplain hroom (s := s)
      cases s with
      | nil => exact .fails
      | cons b s =>
        by_cases hb : c b
        · rw [stepitem, List.head?_cons, Option.any_some, if_pos hb, doMatch_one hb]
          exact hk s
        · rw [stepitem, List.head?_cons, Option.any_some, if_neg hb, doMatch]
          simp only [if_neg hb]
          exact .fails
    | star c => exact agrees_max_expand (fun s => ih hrest hbalanced hplain hroom) s
    | plus c =>
      cases s with
      | nil => exact .fails
      | cons b s =>
        by_cases hb : c b
        · rw [stepitem, List.head?_cons, Option.any_some, if_pos hb, doMatch_plus hb]
          exact agrees_max_expand (fun s => ih hrest hbalanced hplain hroom) s
        · rw [stepitem, List.head?_cons, Option.any_some, if_neg hb, doMatch]
          simp only [if_neg hb]
          exact .fails
    | lazy c => exact agrees_min_expand (fun s => ih hrest hbalanced hplain hroom) s
    | opt c =>
      have hk := fun s => ih hrest hbalanced hplain hroom (s := s)
      cases s with
      | nil => exact hk []
      | cons b s =>
        rw [stepitem, List.head?_cons, Option.any_some, doMatch]
        split
        · exact (hk s).orelse (hk (b :: s))
        · exact hk (b :: s)
    | start =>
      have hstarts : starts (.start :: is) = starts is + 1 := by simp [starts]
      rw [hstarts] at hroom
      have hopened : opened (⟨s, .unfinished⟩ :: ms) = opened ms + 1 := by simp [opened]
      have hlt : ms.length < LUA_MAXCAPTURES := by omega
      refine agrees_start_capture (k := (do_match src fuel · · q)) hlt (ih hrest ?_ ?_ ?_)
      · rw [hopened]
        exact hbalanced
      · exact List.forall_mem_cons.mpr ⟨by simp, hplain⟩
      · rw [List.length_cons]
        omega
    | stop =>
      obtain ⟨l, hl⟩ := exists_closes hbalanced.1 s
      have hless := hl.opened
      rw [doMatch_stop, ← hl.view]
      refine agrees_end_capture (k := (do_match src fuel · · q)) hl (ih hrest ?_ (hplain.modify l) ?_)
      · rw [show opened (ms.modify l (closed s)) = opened ms - 1 by omega]
        exact hbalanced.2
      · rwa [List.length_modify]
    | eos =>
      obtain rfl := readitem_eos hread
      obtain rfl : is = [] := by
        cases fuel with
        | zero => cases hrest
        | succ fuel => exact (Option.some.inj hrest).symm
      rw [stepitem, doMatch]
      cases s with
      | nil => exact .succeeds ms [] hplain hbalanced
      | cons b s => exact .fails

/-! ### The functions of the library -/

/-- The pattern has items, and as many captures as there may be at most. -/
structure Reads (p : Bytes) (is : List (Item UInt8)) : Prop where
  items : items (p.length + 1) p = some is
  balanced : Balanced 0 is
  room : starts is ≤ LUA_MAXCAPTURES

theorem Reads.agrees (h : Reads p is) (src s : Bytes) : Agrees [] (matchat src p s) (doMatch is [] s) :=
  agrees_do_match h.items h.balanced nofun (by simpa using h.room)

theorem mapM_ok {α β : Type} {f : α → Except Bytes β} {g : α → β} {l : List α}
    (h : ∀ a ∈ l, f a = .ok (g a)) : l.mapM f = .ok (l.map g) := by
  induction l with
  | nil => rfl
  | cons a l ih =>
    obtain ⟨ha, hl⟩ := List.forall_mem_cons.mp h
    rw [List.mapM_cons, ha, ih hl]
    rfl

/-- The captures of a match, and the text of it all. -/
def matched (ms : List Cap) (s e : Bytes) : Match UInt8 :=
  ⟨s.take (s.length - e.length), ((ms.map Cap.view).map Capture.text).reverse, e⟩

theorem exists_chars (hplain : Plain ms) (hclosed : opened ms = 0) {c : Cap} (hc : c ∈ ms) :
    ∃ init n, c = ⟨init, .chars n⟩ := by
  obtain ⟨init, len⟩ := c
  cases len with
  | unfinished =>
    have hopen := List.countP_eq_zero.mp hclosed _ hc
    simp at hopen
  | position => exact absurd rfl (hplain _ hc)
  | chars n => exact ⟨init, n, rfl⟩

theorem push_captures_eq (hplain : Plain ms) (hclosed : opened ms = 0) (src s e : Bytes) :
    push_captures src ms s e = .ok ((matched ms s e).values.map .string) := by
  rw [push_captures]
  by_cases hms : ms = []
  · subst hms
    rfl
  have hlength : ms.length ≠ 0 := by simpa using hms
  have hcaptures : (matched ms s e).captures.length = ms.length := by simp [matched]
  have hone (i : Nat) (hi : i ∈ List.range ms.length) : push_onecapture src ms i s e =
      .ok (.string ((matched ms s e).captures.getD i [])) := by
    have hlt := List.mem_range.mp hi
    have hmem := List.getElem_mem (show ms.length - 1 - i < ms.length by omega)
    obtain ⟨init, n, hc⟩ := exists_chars hplain hclosed hmem
    have htext : (matched ms s e).captures.getD i [] = init.take n := by
      rw [List.getD_eq_getElem?_getD, List.getElem?_eq_getElem (by omega), Option.getD_some]
      simp [matched, hc, Cap.view, Capture.text]
    rw [push_onecapture, if_neg (by omega), List.getElem?_eq_getElem (by omega), hc, htext]
  rw [if_neg hlength, mapM_ok hone]
  have hvalues : (matched ms s e).values = (matched ms s e).captures := by
    rw [Match.values, if_neg]
    rw [List.isEmpty_iff_length_eq_zero, hcaptures]
    exact hlength
  have hrange : (List.range ms.length).map (fun i => (matched ms s e).captures.getD i []) =
      (matched ms s e).captures := by
    refine List.ext_getElem (by simp [hcaptures]) fun i hi hi' => ?_
    rw [List.getElem_map, List.getElem_range, List.getD_eq_getElem?_getD,
      List.getElem?_eq_getElem hi', Option.getD_some]
  rw [hvalues]
  conv_rhs => rw [← hrange, List.map_map]
  rfl

theorem matchat_cases (h : Reads p is) (src s : Bytes) :
    matchHere is s = none ∧ matchat src p s = .ok ([], none) ∨
      ∃ ms e, matchHere is s = some (matched ms s e) ∧ matchat src p s = .ok (ms, some e) ∧
        Plain ms ∧ opened ms = 0 := by
  have hagrees := h.agrees src s
  rw [matchHere]
  generalize doMatch is [] s = o at hagrees
  generalize matchat src p s = res at hagrees
  cases hagrees with
  | fails => exact Or.inl ⟨rfl, rfl⟩
  | succeeds ms e hplain hclosed => exact Or.inr ⟨ms, e, rfl, rfl, hplain, hclosed⟩

theorem matched_rest {e : Bytes} (h : matchHere is s = some (matched ms s e)) :
    (matched ms s e).whole ++ e = s := matchHere_append h

/-- The search for the first match, or the one match that an anchor leaves. -/
theorem str_find_aux_cases (h : Reads p is) (src : Bytes) (anchor : Bool) (s : Bytes) :
    (if anchor then matchHere is s else search is s) = none ∧
        str_find_aux src p anchor s = .ok none ∨
      ∃ ms t e, (if anchor then matchHere is s else search is s) = some (matched ms t e) ∧
        matchHere is t = some (matched ms t e) ∧
        str_find_aux src p anchor s = .ok (some (ms, t, e)) ∧ Plain ms ∧ opened ms = 0 := by
  induction s with
  | nil =>
    have hsame : (if anchor then matchHere is [] else search is []) = matchHere is [] := ite_self _
    rw [hsame]
    rcases matchat_cases h src [] with ⟨hnone, hok⟩ | ⟨ms, e, hsome, hok, hplain, hclosed⟩
    · exact Or.inl ⟨hnone, by rw [str_find_aux, hok]; rfl⟩
    · exact Or.inr ⟨ms, [], e, hsome, hsome, by rw [str_find_aux, hok]; rfl, hplain, hclosed⟩
  | cons b s ih =>
    rcases matchat_cases h src (b :: s) with ⟨hnone, hok⟩ | ⟨ms, e, hsome, hok, hplain, hclosed⟩
    · cases anchor with
      | true => exact Or.inl ⟨hnone, by rw [str_find_aux, hok]; rfl⟩
      | false =>
        have hnext : search is (b :: s) = search is s := by rw [search, hnone, Option.none_or]
        have hrest : str_find_aux src p false (b :: s) = str_find_aux src p false s := by
          rw [str_find_aux, hok]
          rfl
        simp only [hrest, hnext]
        exact ih
    · have hsearch : (if anchor then matchHere is (b :: s) else search is (b :: s)) =
          some (matched ms (b :: s) e) := by
        rw [search, hsome, Option.some_or, ite_self]
      exact Or.inr ⟨ms, b :: s, e, hsearch, hsome, by rw [str_find_aux, hok]; rfl, hplain, hclosed⟩

/-- `string.match` gives the captures of the first match, or the whole of it if there are none. -/
theorem str_match_eq (h : Reads (unanchored (cstring p)).1 is) (src : Bytes) :
    str_match src p = .ok ((if (unanchored (cstring p)).2 then matchHere is src else search is src).map
      fun m => m.values.map .string) := by
  rw [str_match]
  rcases str_find_aux_cases h src (unanchored (cstring p)).2 src with
    ⟨hnone, hok⟩ | ⟨ms, t, e, hsome, -, hok, hplain, hclosed⟩
  · rw [hnone]
    simp only [hok]
    rfl
  · rw [hsome]
    simp only [hok, bind, Except.bind, push_captures_eq hplain hclosed]
    rfl

/-- An empty match leaves what it began with. -/
theorem matched_isEmpty {e : Bytes} (h : matchHere is s = some (matched ms s e)) :
    (matched ms s e).whole.isEmpty = true ↔ e = s := by
  have hrest := matched_rest h
  rw [List.isEmpty_iff]
  constructor
  · intro hnil
    rwa [hnil] at hrest
  · rintro rfl
    have hlength := congrArg List.length hrest
    rw [List.length_append] at hlength
    exact List.length_eq_zero_iff.mp (by omega)

theorem gmatch_aux_eq (h : Reads p is) (src : Bytes) (n : Nat) (s : Bytes) :
    gmatch_aux src p n s = .ok ((gmatchN is n s).map fun m => m.values.map .string) := by
  induction n generalizing s with
  | zero => rfl
  | succ n ih =>
    rw [gmatch_aux, gmatchN]
    rcases str_find_aux_cases h src false s with
      ⟨hnone, hok⟩ | ⟨ms, t, e, hsome, hhere, hok, hplain, hclosed⟩
    · rw [if_neg Bool.false_ne_true] at hnone
      rw [hnone, hok]
      rfl
    · rw [if_neg Bool.false_ne_true] at hsome
      rw [hsome, hok]
      simp only [bind, Except.bind, push_captures_eq hplain hclosed, List.map_cons]
      by_cases heq : e = t
      · rw [if_pos ((matched_isEmpty hhere).mpr heq), if_pos heq]
        cases e with
        | nil =>
          rw [if_pos ⟨heq, rfl⟩]
          rfl
        | cons b e =>
          rw [if_neg fun hnil => List.cons_ne_nil b e hnil.2, ih]
          rfl
      · rw [if_neg fun hempty => heq ((matched_isEmpty hhere).mp hempty), if_neg heq,
          if_neg fun hnil => heq hnil.1, ih]
        rfl

/-- `string.gmatch` goes from match to match. -/
theorem gmatch_eq (h : Reads (cstring p) is) (src : Bytes) :
    Lstrlib.gmatch src p = .ok ((Pattern.gmatch is src).map fun m => m.values.map .string) :=
  gmatch_aux_eq h src _ src

/-! ### Replacing -/

section

variable {add : List Cap → Bytes → Bytes → Except Bytes Bytes} {f : Match UInt8 → Bytes}

/-- What is added for a match never fails, and depends on the match only. -/
def Adds (add : List Cap → Bytes → Bytes → Except Bytes Bytes) (f : Match UInt8 → Bytes) : Prop :=
  ∀ ms s e, Plain ms → opened ms = 0 → add ms s e = .ok (f (matched ms s e))

theorem gsubLoop_eq (h : Reads p is) (hadd : Adds add f) (src : Bytes) (max_s n : Nat) (s : Bytes)
    (hmax : n + s.length < max_s) :
    gsubLoop src p false add max_s fuel n s = .ok (gsubN is f fuel s, n + gsubCountN is fuel s) := by
  induction fuel generalizing n s with
  | zero => rfl
  | succ fuel ih =>
    rw [gsubLoop, if_pos (by omega)]
    rcases matchat_cases h src s with ⟨hnone, hok⟩ | ⟨ms, e, hsome, hok, hplain, hclosed⟩
    · rw [hok]
      cases s with
      | nil => simp [gsubN, gsubCountN, hnone, bind, Except.bind, pure, Except.pure]
      | cons b s =>
        have hrest := ih n s (by rw [List.length_cons] at hmax; omega)
        simp [gsubN, gsubCountN, hnone, hrest, bind, Except.bind, pure, Except.pure]
    · rw [hok]
      have hvalue := hadd ms s e hplain hclosed
      have hlength := congrArg List.length (matched_rest hsome)
      rw [List.length_append] at hlength
      have hempty := matched_isEmpty hsome
      by_cases heq : e = s
      · subst heq
        have hwhole := hempty.mpr rfl
        cases e with
        | nil => simp [gsubN, gsubCountN, hsome, hvalue, bind, Except.bind, pure, Except.pure]
        | cons b e =>
          have hrest := ih (n + 1) e (by rw [List.length_cons] at hmax; omega)
          have hfilter : (some (b :: e)).filter (fun r => r.length < (b :: e).length) = none := by simp
          simp only [bind, Except.bind, hvalue, hfilter]
          simp [gsubN, gsubCountN, hsome, hwhole, hrest, pure, Except.pure]
          omega
      · have hwhole : (matched ms s e).whole.isEmpty = false := by
          simpa using fun hw => heq (hempty.mp (List.isEmpty_iff.mpr hw))
        have hshort : e.length < s.length := by
          have hpos := List.length_pos_iff.mpr (by simpa using hwhole)
          omega
        have hrest := ih (n + 1) e (by omega)
        have hfilter : (some e).filter (fun r => r.length < s.length) = some e := by simp [hshort]
        have hrest' : (matched ms s e).rest = e := rfl
        simp only [bind, Except.bind, hvalue, hfilter]
        cases s with
        | nil => simp at hshort
        | cons b s =>
          simp [gsubN, gsubCountN, hsome, hwhole, hrest, hrest', pure, Except.pure]
          omega

theorem gsubLoop_anchored (h : Reads p is) (hadd : Adds add f) (src s : Bytes) {max_s : Nat}
    (hmax : 0 < max_s) : gsubLoop src p true add max_s (fuel + 1) 0 s =
      .ok (gsubHere is f s, if (matchHere is s).isSome then 1 else 0) := by
  rw [gsubLoop, if_pos hmax, gsubHere]
  rcases matchat_cases h src s with ⟨hnone, hok⟩ | ⟨ms, e, hsome, hok, hplain, hclosed⟩
  · rw [hok, hnone]
    cases s <;> rfl
  · have hrest := matched_rest hsome
    have hrest' : (matched ms s e).rest = e := rfl
    rw [hok, hsome]
    simp only [bind, Except.bind, hadd ms s e hplain hclosed, hrest']
    by_cases hshort : e.length < s.length
    · rw [show (some e).filter (fun r => r.length < s.length) = some e by simp [hshort]]
      rfl
    · obtain rfl : e = s := by
        have hlength := congrArg List.length hrest
        rw [List.length_append] at hlength
        exact (matched_isEmpty hsome).mp (List.isEmpty_iff.mpr (List.length_eq_zero_iff.mp (by omega)))
      rw [show (some e).filter (fun r => r.length < e.length) = none by simp]
      cases e with
      | nil => simp [pure, Except.pure]
      | cons b e => rfl

/-- `string.gsub` replaces match after match, or the one at the start that an anchor leaves. -/
theorem str_gsub_eq (h : Reads (unanchored (cstring p)).1 is) (hadd : Adds add f) (src : Bytes) :
    str_gsub src p add = .ok (if (unanchored (cstring p)).2
      then (gsubHere is f src, if (matchHere is src).isSome then 1 else 0)
      else (gsub is f src, gsubCount is src)) := by
  rw [str_gsub]
  generalize unanchored (cstring p) = r at h ⊢
  obtain ⟨q, anchor⟩ := r
  cases anchor with
  | true => exact gsubLoop_anchored h hadd src src (Nat.succ_pos _)
  | false =>
    refine (gsubLoop_eq h hadd src (src.length + 1) 0 src (by omega)).trans ?_
    rw [Nat.zero_add]
    rfl

/-- A replacement string without `%`. -/
theorem adds_string (src : Bytes) {news : Bytes} (hnews : ∀ b ∈ news, b ≠ 37) :
    Adds (fun ms s e => add_s src ms s e news) fun _ => news := by
  intro ms s e hplain hclosed
  induction news with
  | nil => rfl
  | cons b news ih =>
    obtain ⟨hb, hrest⟩ := List.forall_mem_cons.mp hnews
    have hadd := ih hrest
    dsimp only at hadd ⊢
    rw [add_s, hadd]
    · rfl
    · exact fun hb' _ => hb hb'
    · exact fun _ _ hb' _ => hb hb'

end

end TuxBot.Lua.Lstrlib
