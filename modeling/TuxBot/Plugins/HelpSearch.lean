import Mathlib.Data.List.Infix
import TuxBot.Plugins.Help

/-! The search of the help plugin: which keys it returns. -/
namespace TuxBot.Plugins.Help

open TuxBot.Lua

/-- `#results >= max`, where a missing `max` is `math.huge`. -/
def reached (max : Option Nat) (results : List Bytes) : Bool := max.any (· ≤ results.length)

/-- A loop of `search`: what `select` gives is inserted, until there are `max` results. The second
component tells whether the loop returned from the function. -/
def collect {α : Type} (max : Option Nat) (select : α → Option Bytes) :
    List α → List Bytes → List Bytes × Bool
  | [], results => (results, false)
  | x :: xs, results =>
    match select x with
    | none => collect max select xs results
    | some key =>
      if reached max (results ++ [key]) then (results ++ [key], true)
      else collect max select xs (results ++ [key])

/-- `text:find(keyword, 0, true)` for one of the keywords. -/
def found (keywords : List Bytes) (text : Bytes) : Bool :=
  keywords.any fun keyword => text.tails.any fun rest => keyword.isPrefixOf rest

/-- `search(keywords, max)` -/
def search (cache : Table Bytes) (pairs : Traversal) (keywords : List Bytes) (max : Option Nat) :
    List Bytes :=
  match collect max (fun keyword => (cache.lookup keyword).map fun _ => keyword) keywords [] with
  | (results, true) => results
  | (results, false) =>
    if reached max results then results
    else
      (collect max (fun (key, text) => if found keywords text then some key else none)
        (pairs.1 cache.pairs) results).1

/-- What a search should return: a key of the cache that is a keyword or has a text with one in it. -/
def Wanted (cache : Table Bytes) (keywords : List Bytes) (key : Bytes) : Prop :=
  ∃ text, cache.lookup key = some text ∧ (key ∈ keywords ∨ ∃ keyword ∈ keywords, keyword <:+: text)

/-- The search is exact. -/
structure Exact (cache : Table Bytes) (keywords : List Bytes) (max : Option Nat)
    (results : List Bytes) : Prop where
  nodup : results.Nodup
  bounded : ∀ m ∈ max, results.length ≤ m
  wanted : ∀ key ∈ results, Wanted cache keywords key
  complete : (∀ m ∈ max, results.length < m) → ∀ key, Wanted cache keywords key → key ∈ results

/-- At most `max` of the results. -/
def upTo (max : Option Nat) (results : List Bytes) : List Bytes := max.elim results results.take

variable {cache : Table Bytes} {pairs : Traversal} {keywords results : List Bytes}
  {max : Option Nat} {key text : Bytes}

theorem reached_eq_false : reached max results = false ↔ ∀ m ∈ max, results.length < m := by
  cases max <;> simp [reached]

theorem upTo_of_length (h : ∀ m ∈ max, results.length ≤ m) : upTo max results = results := by
  cases max with
  | none => rfl
  | some m => exact List.take_of_length_le (h m rfl)

theorem upTo_append_of_reached (h : reached max results = true) (rest : List Bytes) :
    upTo max (results ++ rest) = upTo max results := by
  cases max with
  | none => cases h
  | some m => exact List.take_append_of_le_length (by simpa [reached] using h)

theorem reached_append (h : reached max results = true) (rest : List Bytes) :
    reached max (results ++ rest) = true := by
  cases max with
  | none => cases h
  | some m =>
    have hle : m ≤ results.length := by simpa [reached] using h
    simp only [reached, Option.any_some, List.length_append, decide_eq_true_eq]
    omega

theorem upTo_sublist (max : Option Nat) (results : List Bytes) :
    (upTo max results).Sublist results := by
  cases max with
  | none => exact List.Sublist.refl _
  | some m => exact List.take_sublist m results

theorem upTo_sublist_append (max : Option Nat) (results rest : List Bytes) :
    (upTo max results).Sublist (upTo max (results ++ rest)) := by
  cases max with
  | none => exact List.sublist_append_left _ _
  | some m =>
    simp only [upTo, Option.elim_some, List.take_append]
    exact List.sublist_append_left _ _

/-- A loop that begins with less than `max` results. -/
theorem collect_eq {α : Type} (select : α → Option Bytes) (xs : List α)
    (hroom : reached max results = false) :
    collect max select xs results = (upTo max (results ++ xs.filterMap select),
      reached max (results ++ xs.filterMap select)) := by
  induction xs generalizing results with
  | nil =>
    have hle : ∀ m ∈ max, results.length ≤ m := fun m hm => (reached_eq_false.mp hroom m hm).le
    rw [collect, List.filterMap_nil, List.append_nil, upTo_of_length hle, hroom]
  | cons x xs ih =>
    rw [collect]
    cases hx : select x with
    | none => rw [List.filterMap_cons_none hx, ih hroom]
    | some key =>
      have hle : ∀ m ∈ max, (results ++ [key]).length ≤ m := by
        intro m hm
        rw [List.length_append]
        exact reached_eq_false.mp hroom m hm
      rw [List.filterMap_cons_some hx, List.append_cons]
      cases hreached : reached max (results ++ [key]) with
      | true =>
        rw [upTo_append_of_reached hreached, upTo_of_length hle, reached_append hreached]
        exact if_pos hreached
      | false => exact (if_neg (by simp [hreached])).trans (ih hreached)

/-- The keywords that are keys, as often as they are asked for. -/
def exactKeys (cache : Table Bytes) (keywords : List Bytes) : List Bytes :=
  keywords.filter fun keyword => (cache.lookup keyword).isSome

/-- The keys whose texts have a keyword, in the order of the traversal. -/
def textKeys (cache : Table Bytes) (pairs : Traversal) (keywords : List Bytes) : List Bytes :=
  ((pairs.1 cache.pairs).filter fun entry => found keywords entry.2).map Prod.fst

/-- The results are the first `max` of the keys that the two loops find. -/
theorem search_eq (hmax : ∀ m ∈ max, 1 ≤ m) : search cache pairs keywords max =
    upTo max (exactKeys cache keywords ++ textKeys cache pairs keywords) := by
  have hexact : keywords.filterMap (fun keyword => (cache.lookup keyword).map fun _ => keyword) =
      exactKeys cache keywords := by
    rw [exactKeys, ← List.filterMap_eq_filter]
    congr 1
    funext keyword
    cases h : cache.lookup keyword <;> simp [Option.guard, h]
  have htext : (pairs.1 cache.pairs).filterMap
      (fun (key, text) => if found keywords text then some key else none) =
      textKeys cache pairs keywords := by
    rw [textKeys, ← List.filterMap_eq_filter, List.map_filterMap]
    congr 1
    funext entry
    cases h : found keywords entry.2 <;> simp [Option.guard, h]
  have hroom : reached max [] = false := reached_eq_false.mpr hmax
  rw [search, collect_eq _ _ hroom, List.nil_append, hexact]
  cases hreached : reached max (exactKeys cache keywords) with
  | true => exact (upTo_append_of_reached hreached _).symm
  | false =>
    have hle : ∀ m ∈ max, (exactKeys cache keywords).length ≤ m :=
      fun m hm => (reached_eq_false.mp hreached m hm).le
    rw [upTo_of_length hle]
    refine (if_neg (by simp [hreached])).trans ?_
    rw [collect_eq _ _ hreached, htext]

theorem mem_exactKeys : key ∈ exactKeys cache keywords ↔
    key ∈ keywords ∧ ∃ text, cache.lookup key = some text := by
  rw [exactKeys, List.mem_filter, Option.isSome_iff_exists]

theorem found_iff : found keywords text = true ↔ ∃ keyword ∈ keywords, keyword <:+: text := by
  simp only [found, List.any_eq_true, List.mem_tails, List.isPrefixOf_iff_prefix,
    List.infix_iff_prefix_suffix, and_comm]

theorem mem_textKeys : key ∈ textKeys cache pairs keywords ↔
    ∃ text, cache.lookup key = some text ∧ ∃ keyword ∈ keywords, keyword <:+: text := by
  simp only [textKeys, List.mem_map, List.mem_filter, found_iff, (pairs.2 _).mem_iff]
  constructor
  · rintro ⟨⟨key, text⟩, ⟨hentry, hfound⟩, rfl⟩
    exact ⟨text, Table.mem_pairs.mp hentry, hfound⟩
  · rintro ⟨text, hentry, hfound⟩
    exact ⟨(key, text), ⟨Table.mem_pairs.mpr hentry, hfound⟩, rfl⟩

theorem nodup_textKeys : (textKeys cache pairs keywords).Nodup := by
  have hkeys := ((pairs.2 cache.pairs).map Prod.fst).nodup_iff.mpr (Table.nodup_pairs cache)
  exact hkeys.sublist (List.filter_sublist.map Prod.fst)

theorem wanted_iff : Wanted cache keywords key ↔
    key ∈ exactKeys cache keywords ++ textKeys cache pairs keywords := by
  rw [List.mem_append, mem_exactKeys, mem_textKeys]
  constructor
  · rintro ⟨text, hentry, hkey | hfound⟩
    · exact .inl ⟨hkey, text, hentry⟩
    · exact .inr ⟨text, hentry, hfound⟩
  · rintro (⟨hkey, text, hentry⟩ | ⟨text, hentry, hfound⟩)
    · exact ⟨text, hentry, .inl hkey⟩
    · exact ⟨text, hentry, .inr hfound⟩

/-- Only repeated keys can go wrong. -/
theorem exact_of_nodup (hmax : ∀ m ∈ max, 1 ≤ m)
    (hnodup : (search cache pairs keywords max).Nodup) :
    Exact cache keywords max (search cache pairs keywords max) := by
  rw [search_eq hmax] at hnodup ⊢
  refine ⟨hnodup, ?_, fun key hkey => ?_, fun hroom key hwanted => ?_⟩
  · rintro m rfl
    exact List.length_take_le _ _
  · exact wanted_iff.mpr ((upTo_sublist _ _).subset hkey)
  · have hall : ∀ m ∈ max, (exactKeys cache keywords ++ textKeys cache pairs keywords).length ≤ m := by
      rintro m rfl
      have hlength := hroom m rfl
      rw [upTo, Option.elim_some, List.length_take] at hlength
      omega
    rw [upTo_of_length hall]
    exact wanted_iff.mp hwanted

/-- The traversal that begins with one key. -/
def beginning (key : Bytes) : Traversal :=
  ⟨fun es => es.filter (fun e => e.1 = key) ++ es.filter fun e => !decide (e.1 = key),
    fun es => List.filter_append_perm _ es⟩

theorem textKeys_beginning (hentry : cache.lookup key = some text)
    (hfound : found keywords text = true) :
    ∃ rest, textKeys cache (beginning key) keywords = key :: rest := by
  have hmem : (key, text) ∈
      (cache.pairs.filter fun e => e.1 = key).filter fun e => found keywords e.2 := by
    simp [List.mem_filter, Table.mem_pairs.mpr hentry, hfound]
  obtain ⟨entry, rest, hfirst⟩ := List.exists_cons_of_ne_nil (List.ne_nil_of_mem hmem)
  have hkey : entry.1 = key := by
    have hentry : entry ∈ (cache.pairs.filter fun e => e.1 = key).filter fun e => found keywords e.2 :=
      hfirst ▸ List.mem_cons_self
    simpa using (List.mem_filter.mp (List.mem_filter.mp hentry).1).2
  rw [textKeys, beginning, List.filter_append, hfirst, List.cons_append, List.map_cons, hkey]
  exact ⟨_, rfl⟩

/-- The search is exact in every order of traversal exactly when the keys among the keywords that it
comes to are distinct and, if they leave room for others, none of their texts has a keyword. -/
theorem search_exact_iff (cache : Table Bytes) (keywords : List Bytes)
    (hmax : ∀ m ∈ max, 1 ≤ m) :
    (∀ pairs, Exact cache keywords max (search cache pairs keywords max)) ↔
      (upTo max (exactKeys cache keywords)).Nodup ∧
      ((∀ m ∈ max, (exactKeys cache keywords).length < m) →
        ∀ key ∈ exactKeys cache keywords, ∀ text, cache.lookup key = some text →
          found keywords text = false) := by
  constructor
  · intro hexact
    have hnodup : ∀ pairs, (upTo max (exactKeys cache keywords ++
        textKeys cache pairs keywords)).Nodup := fun pairs => search_eq hmax ▸ (hexact pairs).nodup
    refine ⟨(hnodup ⟨id, fun es => .refl es⟩).sublist (upTo_sublist_append _ _ _), ?_⟩
    intro hroom key hkey text hentry
    by_contra hfound
    rw [Bool.not_eq_false] at hfound
    obtain ⟨rest, hrest⟩ := textKeys_beginning hentry hfound
    have htwice := hnodup (beginning key)
    have hle : ∀ m ∈ max, (exactKeys cache keywords ++ [key]).length ≤ m := by
      intro m hm
      rw [List.length_append]
      exact hroom m hm
    rw [hrest, List.append_cons] at htwice
    have hpair := htwice.sublist (upTo_sublist_append max _ _)
    rw [upTo_of_length hle] at hpair
    exact (List.nodup_append'.mp hpair).2.2 hkey (List.mem_singleton_self key)
  · rintro ⟨hnodup, hdisjoint⟩ pairs
    refine exact_of_nodup hmax ?_
    rw [search_eq hmax]
    cases hreached : reached max (exactKeys cache keywords) with
    | true => rwa [upTo_append_of_reached hreached]
    | false =>
      have hroom := reached_eq_false.mp hreached
      rw [upTo_of_length fun m hm => (hroom m hm).le] at hnodup
      refine (List.nodup_append'.mpr ⟨hnodup, nodup_textKeys, ?_⟩).sublist (upTo_sublist _ _)
      intro key hkey htext
      obtain ⟨text, hentry, hfound⟩ := mem_textKeys.mp htext
      exact Bool.false_ne_true
        ((hdisjoint hroom key hkey text hentry).symm.trans (found_iff.mpr hfound))

theorem search_exact_iff_bird :
    Exact (Table.ofPairs [("tux", "a bird")]) ["tux"] (some 15)
      (search (Table.ofPairs [("tux", "a bird")]) ⟨id, fun es => .refl es⟩ ["tux"] (some 15)) := by
  refine (search_exact_iff (Table.ofPairs [("tux", "a bird")]) ["tux"] (by decide)).mpr
    ⟨by decide +kernel, fun _ key hkey text hentry => ?_⟩ ⟨id, fun es => .refl es⟩
  let cache : Table Bytes := Table.ofPairs [("tux", "a bird")]
  have hkeys : exactKeys cache ["tux"] = [lit "tux"] := by decide +kernel
  obtain rfl : key = lit "tux" := List.mem_singleton.mp (hkeys ▸ hkey)
  have hlookup : cache.lookup (lit "tux") = some (lit "a bird") := by decide +kernel
  obtain rfl := Option.some.inj (hlookup.symm.trans hentry)
  decide +kernel

/-- A key whose own text has it: both loops find it. -/
theorem search_repeats_key : ¬ ∀ pairs,
    Exact (Table.ofPairs [("tux", "a bird, see also tux.org")]) ["tux"] (some 15)
      (search (Table.ofPairs [("tux", "a bird, see also tux.org")]) pairs ["tux"] (some 15)) := by
  intro hexact
  have hresults : search (Table.ofPairs [("tux", "a bird, see also tux.org")])
      ⟨id, fun es => .refl es⟩ ["tux"] (some 15) = [lit "tux", lit "tux"] := by
    decide +kernel
  have hnodup := (hexact ⟨id, fun es => .refl es⟩).nodup
  rw [hresults] at hnodup
  exact absurd hnodup (by decide)

end TuxBot.Plugins.Help
