import Mathlib.Data.List.Basic
import Mathlib.Data.List.Induction
import TuxBot.Plugins.Sandbox

/-! What the sandbox writes: the groups of its calls of `print`, if these do not come between. -/
namespace TuxBot.Plugins.Sandbox

open TuxBot.Lua

/-! ### How much reaches the table -/

section Weight

variable {arg : Arg} {args : Call} {calls : List Call} {v : Value} {t : Bytes} {ts : List Bytes}

/-- The length, with a newline counted twice. -/
def weight (s : Bytes) : Nat := s.length + s.count 10

@[simp] theorem weight_append (s u : Bytes) : weight (s ++ u) = weight s + weight u := by
  simp only [weight, List.length_append, List.count_append]
  omega

@[simp] theorem weight_nil : weight [] = 0 := rfl

theorem weight_separator (left : List Arg) : 0 < weight (separator left) := by
  unfold separator
  split <;> decide

/-- No conversion raises, or gives anything but a string or a number. -/
inductive Arg.Sound : Arg → Prop
  | plain (v : Value) : Sound (.plain v)
  | called {during : List Call} {result : Value} (hduring : ∀ call ∈ during, ∀ a ∈ call, Sound a)
      (hresult : result.IsText) : Sound (.called during result)

theorem OrderlyArg.sound (h : OrderlyArg arg) : arg.Sound := by
  induction arg using Arg.induct with
  | plain v => exact .plain v
  | called during result ih =>
    cases h with
    | called hduring hresult =>
      exact .called (fun call hcall a ha => ih call hcall a ha ((hduring call hcall).each a ha)) hresult
  | raised during ih => cases h

theorem Arg.Sound.result (h : arg.Sound) : ∃ v, arg.result = some v ∧ v.IsText ∧ v.text = arg.text := by
  cases h with
  | plain v => exact ⟨_, rfl, trivial, rfl⟩
  | called _ hresult => exact ⟨_, rfl, hresult, rfl⟩

theorem group_cons : group (t :: ts) = t ++ (if ts = [] then lit "\n" else lit " ") ++ group ts := by
  cases ts with
  | nil => simp [group, List.intercalate]
  | cons u us => simp [group, List.intercalate, List.intersperse]

theorem reached_eq_nil : reached args = [] ↔ args = [] := by
  cases args with
  | nil => simp [reached]
  | cons arg args => cases arg <;> simp [reached]

theorem reached_cons (h : arg.result = some v) : reached (arg :: args) = arg :: reached args := by
  cases arg with
  | plain v => rfl
  | called during result => rfl
  | raised during => cases h

theorem argGroups_cons (h : arg.result = some v) :
    argGroups (arg :: args) = arg.groups ++ argGroups args := by
  cases arg with
  | plain v => simp [argGroups]
  | called during result => simp [argGroups]
  | raised during => cases h

theorem group_reached (h : arg.result = some v) : group ((reached (arg :: args)).map Arg.text) =
    arg.text ++ separator args ++ group ((reached args).map Arg.text) := by
  rw [reached_cons h, List.map_cons, group_cons]
  simp [separator, reached_eq_nil]

theorem text_of_result (h : arg.result = some v) : arg.text = v.text := by
  cases arg with
  | plain w =>
    obtain rfl := Option.some.inj h
    rfl
  | called during result =>
    obtain rfl := Option.some.inj h
    rfl
  | raised during => cases h

theorem stored_text (h : v.IsText) (sep : Bytes) : stored v sep = v.text ++ sep := by
  cases v with
  | number text => rfl
  | string text => rfl
  | nil => exact h.elim
  | boolean b => exact h.elim
  | object typename address => exact h.elim

/-- Only strings and numbers reach the table as they are. -/
theorem weight_stored (v : Value) {sep : Bytes} (hsep : 0 < weight sep) :
    weight (stored v sep) ≤ weight v.text + weight sep ∧
      (weight v.text + weight sep ≤ weight (stored v sep) → v.IsText) := by
  have htext (h : v.IsText) : weight (stored v sep) ≤ weight v.text + weight sep ∧
      (weight v.text + weight sep ≤ weight (stored v sep) → v.IsText) := by
    rw [stored_text h, weight_append]
    exact ⟨Nat.le_refl _, fun _ => h⟩
  cases v with
  | number text => exact htext trivial
  | string text => exact htext trivial
  | nil =>
    simp only [stored, if_true, weight_nil]
    exact ⟨Nat.zero_le _, fun h => by omega⟩
  | boolean b =>
    have hlong : 0 < weight (Value.boolean b).text := by cases b <;> decide
    have hstored : stored (.boolean b) sep = sep := rfl
    rw [hstored]
    exact ⟨by omega, fun h => by omega⟩
  | object typename address =>
    have hlong : 0 < weight (Value.object typename address).text := by
      rw [Value.text, weight_append, weight_append]
      have hcolon : weight (lit ": ") = 2 := by decide
      omega
    have hstored : stored (.object typename address) sep = sep := rfl
    rw [hstored]
    exact ⟨by omega, fun h => by omega⟩

/-- What a conversion prints is no more than it should be, and is less unless the conversions in it are
sound. -/
def Loses (arg : Arg) : Prop :=
  weight arg.printed ≤ weight arg.groups ∧
    (weight arg.groups ≤ weight arg.printed → ∀ v, arg.result = some v → v.IsText → arg.Sound)

theorem weight_argPrinted (h : ∀ a ∈ args, Loses a) :
    weight (argPrinted args) ≤ weight (argGroups args ++ group ((reached args).map Arg.text)) ∧
      (weight (argGroups args ++ group ((reached args).map Arg.text)) ≤ weight (argPrinted args) →
        ∀ a ∈ args, a.Sound) := by
  induction args with
  | nil => exact ⟨Nat.le_refl _, fun _ => nofun⟩
  | cons arg args ih =>
    obtain ⟨hle, hsound⟩ := h arg List.mem_cons_self
    obtain ⟨hrest, hothers⟩ := ih fun a ha => h a (List.mem_cons_of_mem _ ha)
    cases hresult : arg.result with
    | none =>
      -- the newline of its group is missing
      cases arg with
      | plain v => cases hresult
      | called during result => cases hresult
      | raised during =>
        have hprinted : argPrinted (.raised during :: args) = (Arg.raised during).printed := by
          simp [argPrinted, Arg.result]
        have hgroups : argGroups (.raised during :: args) = (Arg.raised during).groups := by
          simp [argGroups, Arg.groups]
        have hline : weight (group ((reached (.raised during :: args)).map Arg.text)) = 2 := by
          simp only [reached, List.map_cons, List.map_nil, Arg.text]
          decide
        rw [hprinted, hgroups, weight_append, hline]
        exact ⟨by omega, fun h => by omega⟩
    | some v =>
      obtain ⟨hstored, htext⟩ := weight_stored v (weight_separator args)
      have hprinted : argPrinted (arg :: args) =
          arg.printed ++ (stored v (separator args) ++ argPrinted args) := by
        rw [argPrinted, hresult]
      rw [hprinted, argGroups_cons hresult, group_reached hresult, text_of_result hresult]
      simp only [weight_append] at hrest hothers ⊢
      refine ⟨by omega, fun h => List.forall_mem_cons.mpr ⟨?_, hothers (by omega)⟩⟩
      exact hsound (by omega) v hresult (htext (by omega))

theorem weight_allPrinted (h : ∀ call ∈ calls, ∀ a ∈ call, Loses a) :
    weight (allPrinted calls) ≤ weight (allGroups calls) ∧
      (weight (allGroups calls) ≤ weight (allPrinted calls) → ∀ call ∈ calls, ∀ a ∈ call, a.Sound) := by
  induction calls with
  | nil => exact ⟨Nat.le_refl _, fun _ => nofun⟩
  | cons call calls ih =>
    obtain ⟨hle, hsound⟩ := weight_argPrinted (h call List.mem_cons_self)
    obtain ⟨hrest, hothers⟩ := ih fun c hc => h c (List.mem_cons_of_mem _ hc)
    rw [allPrinted, allGroups]
    simp only [weight_append] at hle hsound ⊢
    refine ⟨by omega, fun h => List.forall_mem_cons.mpr ⟨hsound (by omega), hothers (by omega)⟩⟩

theorem loses (arg : Arg) : Loses arg := by
  induction arg using Arg.induct with
  | plain v => exact ⟨Nat.le_refl _, fun _ _ _ _ => .plain v⟩
  | called during result ih =>
    obtain ⟨hle, hsound⟩ := weight_allPrinted ih
    refine ⟨hle, fun hge v hv htext => .called (hsound hge) ?_⟩
    obtain rfl := Option.some.inj hv
    exact htext
  | raised during ih => exact ⟨(weight_allPrinted ih).1, fun _ _ hv => nomatch hv⟩

end Weight

/-! ### In which order -/

/-- A value that is converted: what its conversion prints, what that should be, and what is said
then. -/
structure Turn where
  printed : Bytes
  groups : Bytes
  said : Bytes

/-- Nothing, or whole lines. -/
def Lined (s : Bytes) : Prop := s = [] ∨ ∃ u, s = u ++ [10]

theorem Turn.groups_eq_nil {t : Turn} (hlength : t.printed.length = t.groups.length)
    (hnone : t.printed = []) : t.groups = [] := by
  rw [hnone] at hlength
  exact List.length_eq_zero_iff.mp hlength.symm

/-- Lines that end with a space are none. -/
theorem Lined.eq_nil {s before w rest : Bytes} (h : Lined s) (heq : before ++ s = rest ++ (w ++ [32])) :
    s = [] := by
  refine h.resolve_right ?_
  rintro ⟨u, rfl⟩
  rw [← List.append_assoc, ← List.append_assoc] at heq
  cases (List.append_inj' heq rfl).2

/-- If what is printed between the turns stands before all that is said, it is printed in the first. -/
theorem printed_first {turns : List Turn}
    (hlength : ∀ t ∈ turns, t.printed.length = t.groups.length) (hlined : ∀ t ∈ turns, Lined t.printed)
    (hspaced : ∀ t ∈ turns.dropLast, ∃ u, t.said = u ++ [32])
    (heq : turns.flatMap (fun t => t.printed ++ t.said) =
      turns.flatMap Turn.groups ++ turns.flatMap Turn.said) :
    (∀ t ∈ turns.head?, t.printed = t.groups) ∧ ∀ t ∈ turns.tail, t.printed = [] := by
  induction turns using List.reverseRecOn with
  | nil => exact ⟨nofun, nofun⟩
  | append_singleton turns last ih =>
    rw [List.dropLast_concat] at hspaced
    simp only [List.flatMap_append, List.flatMap_singleton, ← List.append_assoc,
      List.append_cancel_right_eq] at heq
    rcases List.eq_nil_or_concat turns with rfl | ⟨before, t, hsplit⟩
    · exact ⟨by simpa using heq, nofun⟩
    · -- what is said before ends with a space
      have hnone : last.printed = [] := by
        obtain ⟨w, hw⟩ := hspaced t (by simp [hsplit])
        have hbehind : turns.flatMap Turn.said = before.flatMap Turn.said ++ (w ++ [32]) := by
          simp [hsplit, hw]
        rw [hbehind, ← List.append_assoc] at heq
        exact (hlined last (by simp)).eq_nil heq
      rw [hnone, Turn.groups_eq_nil (hlength last (by simp)) hnone, List.append_nil,
        List.append_nil] at heq
      obtain ⟨hfirst, hothers⟩ := ih (fun t ht => hlength t (List.mem_append_left _ ht))
        (fun t ht => hlined t (List.mem_append_left _ ht))
        (fun t ht => hspaced t ((List.dropLast_sublist _).subset ht)) heq
      have hne : turns ≠ [] := by simp [hsplit]
      rw [List.head?_append_of_ne_nil _ hne, List.tail_append_of_ne_nil hne]
      exact ⟨hfirst, List.forall_mem_append.mpr ⟨hothers, List.forall_mem_singleton.mpr hnone⟩⟩

/-- What is printed between the turns stands before all that is said only if it is printed in the
first. -/
theorem turns_eq_iff {turns : List Turn}
    (hlength : ∀ t ∈ turns, t.printed.length = t.groups.length) (hlined : ∀ t ∈ turns, Lined t.printed)
    (hspaced : ∀ t ∈ turns.dropLast, ∃ u, t.said = u ++ [32]) :
    turns.flatMap (fun t => t.printed ++ t.said) =
        turns.flatMap Turn.groups ++ turns.flatMap Turn.said ↔
      (∀ t ∈ turns.head?, t.printed = t.groups) ∧ ∀ t ∈ turns.tail, t.printed = [] := by
  refine ⟨printed_first hlength hlined hspaced, ?_⟩
  rintro ⟨hfirst, hothers⟩
  cases turns with
  | nil => rfl
  | cons t turns =>
    have hquiet : ∀ t ∈ turns, t.groups = [] := fun t ht =>
      Turn.groups_eq_nil (hlength t (List.mem_cons_of_mem _ ht)) (hothers t ht)
    have hsaid : turns.flatMap (fun t => t.printed ++ t.said) = turns.flatMap Turn.said :=
      List.flatMap_congr fun t ht => by rw [hothers t ht, List.nil_append]
    have hgroups : turns.flatMap Turn.groups = [] := List.flatMap_eq_nil_iff.mpr hquiet
    have hone : t.printed = t.groups := hfirst t rfl
    simp [hsaid, hgroups, hone]

theorem length_turns {turns : List Turn} (h : ∀ t ∈ turns, t.printed.length = t.groups.length) :
    (turns.flatMap fun t => t.printed ++ t.said).length =
      (turns.flatMap Turn.groups ++ turns.flatMap Turn.said).length := by
  induction turns with
  | nil => rfl
  | cons t turns ih =>
    obtain ⟨hone, hothers⟩ := List.forall_mem_cons.mp h
    have hrest := ih hothers
    simp only [List.flatMap_cons, List.length_append] at hrest ⊢
    omega

section Order

variable {arg : Arg} {args : Call} {calls : List Call}

def turns : Call → List Turn
  | [] => []
  | arg :: args => ⟨arg.printed, arg.groups, arg.text ++ separator args⟩ :: turns args

theorem mem_turns {t : Turn} (h : t ∈ turns args) :
    ∃ a ∈ args, t.printed = a.printed ∧ t.groups = a.groups := by
  induction args with
  | nil => cases h
  | cons arg args ih =>
    rcases List.mem_cons.mp h with rfl | h
    · exact ⟨arg, List.mem_cons_self, rfl, rfl⟩
    · obtain ⟨a, ha, hsame⟩ := ih h
      exact ⟨a, List.mem_cons_of_mem _ ha, hsame⟩

theorem turns_printed : (∀ t ∈ turns args, t.printed = []) ↔ ∀ a ∈ args, a.printed = [] := by
  induction args with
  | nil => exact iff_of_true nofun nofun
  | cons arg args ih => rw [turns, List.forall_mem_cons, List.forall_mem_cons, ih]

/-- Only the last turn ends without a space. -/
theorem turns_spaced (args : Call) : ∀ t ∈ (turns args).dropLast, ∃ u, t.said = u ++ [32] := by
  induction args with
  | nil => exact nofun
  | cons arg args ih =>
    cases args with
    | nil => exact nofun
    | cons next args =>
      rw [turns, turns, List.dropLast_cons_cons]
      exact List.forall_mem_cons.mpr ⟨⟨arg.text, rfl⟩, ih⟩

theorem stored_sound (h : arg.Sound) : ∃ v, arg.result = some v ∧
    ∀ sep, stored v sep = arg.text ++ sep := by
  obtain ⟨v, hv, htext, heq⟩ := h.result
  exact ⟨v, hv, fun sep => heq ▸ stored_text htext sep⟩

/-- What a call prints, and what it should, by its turns. -/
theorem printed_turns (h : ∀ a ∈ args, a.Sound) :
    argPrinted args = (turns args).flatMap (fun t => t.printed ++ t.said) ∧
      argGroups args = (turns args).flatMap Turn.groups ∧
      group ((reached args).map Arg.text) = (turns args).flatMap Turn.said := by
  induction args with
  | nil => exact ⟨rfl, rfl, rfl⟩
  | cons arg args ih =>
    obtain ⟨hprinted, hgroups, hsaid⟩ := ih fun a ha => h a (List.mem_cons_of_mem _ ha)
    obtain ⟨v, hv, hstored⟩ := stored_sound (h arg List.mem_cons_self)
    have hone : argPrinted (arg :: args) =
        arg.printed ++ (stored v (separator args) ++ argPrinted args) := by
      rw [argPrinted, hv]
    rw [hone, argGroups_cons hv, group_reached hv, hprinted, hgroups, hsaid, hstored]
    simp [turns]

/-- Whole lines are printed, and nothing only by a call without arguments. -/
theorem lined_argPrinted (h : ∀ a ∈ args, a.Sound) : Lined (argPrinted args) ∧
    (argPrinted args = [] ↔ args = []) := by
  induction args with
  | nil => exact ⟨Or.inl rfl, iff_of_true rfl rfl⟩
  | cons arg args ih =>
    obtain ⟨hlined, hnil⟩ := ih fun a ha => h a (List.mem_cons_of_mem _ ha)
    obtain ⟨v, hv, hstored⟩ := stored_sound (h arg List.mem_cons_self)
    have hone : argPrinted (arg :: args) =
        arg.printed ++ arg.text ++ separator args ++ argPrinted args := by
      rw [argPrinted, hv]
      simp [hstored]
    have hsome : separator args ≠ [] := by
      unfold separator
      split <;> decide
    refine ⟨Or.inr ?_, by simp [hone, hsome]⟩
    rcases hlined with hempty | ⟨u, hu⟩
    · obtain rfl := hnil.mp hempty
      exact ⟨arg.printed ++ arg.text, by rw [hone, hempty, List.append_nil]; rfl⟩
    · exact ⟨arg.printed ++ arg.text ++ separator args ++ u, by simp [hone, hu]⟩

theorem lined_allPrinted (h : ∀ call ∈ calls, ∀ a ∈ call, a.Sound) : Lined (allPrinted calls) ∧
    (allPrinted calls = [] ↔ ∀ call ∈ calls, call = []) := by
  induction calls with
  | nil => exact ⟨Or.inl rfl, iff_of_true rfl nofun⟩
  | cons call calls ih =>
    obtain ⟨hcall, hempty⟩ := lined_argPrinted (h call List.mem_cons_self)
    obtain ⟨hlined, hnil⟩ := ih fun c hc => h c (List.mem_cons_of_mem _ hc)
    refine ⟨?_, by rw [allPrinted, List.append_eq_nil_iff, hempty, hnil, List.forall_mem_cons]⟩
    rw [allPrinted]
    rcases hlined with hlast | ⟨u, hu⟩
    · rwa [hlast, List.append_nil]
    · exact Or.inr ⟨argPrinted call ++ u, by rw [hu, List.append_assoc]⟩

theorem printed_silent (h : arg.Sound) : Lined arg.printed ∧ (arg.printed = [] ↔ arg.Silent) := by
  cases h with
  | plain v => exact ⟨Or.inl rfl, iff_of_true rfl trivial⟩
  | called hduring _ => exact lined_allPrinted hduring

/-- What an argument is converted to is printed in full, and as it should be only in order. -/
def Follows (arg : Arg) : Prop :=
  arg.printed.length = arg.groups.length ∧ (arg.printed = arg.groups ↔ OrderlyArg arg)

/-- The turns of a call that is in order. -/
theorem orderly_turns (h : ∀ a ∈ args, a.Sound) (hfollows : ∀ a ∈ args, Follows a) :
    ((∀ t ∈ (turns args).head?, t.printed = t.groups) ∧ ∀ t ∈ (turns args).tail, t.printed = []) ↔
      Orderly args := by
  cases args with
  | nil => exact iff_of_true ⟨nofun, nofun⟩ .nil
  | cons arg args =>
    have hquiet : (∀ t ∈ turns args, t.printed = []) ↔ ∀ a ∈ args, a.Silent := by
      rw [turns_printed]
      exact forall₂_congr fun a ha => (printed_silent (h a (List.mem_cons_of_mem _ ha))).2
    have hfirst : (∀ t ∈ (turns (arg :: args)).head?, t.printed = t.groups) ↔ OrderlyArg arg := by
      rw [turns, List.head?_cons, ← (hfollows arg List.mem_cons_self).2]
      simp
    rw [hfirst, turns, List.tail_cons, hquiet]
    constructor
    · rintro ⟨harg, hsilent⟩
      refine .cons harg (fun a ha => ?_) hsilent
      have hmem := List.mem_cons_of_mem arg ha
      have hnone := (printed_silent (h a hmem)).2.mpr (hsilent a ha)
      obtain ⟨hsame, hiff⟩ := hfollows a hmem
      rw [hnone] at hsame hiff
      exact hiff.mp (List.length_eq_zero_iff.mp hsame.symm).symm
    · intro horder
      cases horder with
      | cons harg hargs hsilent => exact ⟨harg, hsilent⟩

theorem follows_call (h : ∀ a ∈ args, a.Sound) (hfollows : ∀ a ∈ args, Follows a) :
    (argPrinted args).length = (argGroups args ++ group ((reached args).map Arg.text)).length ∧
      (argPrinted args = argGroups args ++ group ((reached args).map Arg.text) ↔ Orderly args) := by
  obtain ⟨hprinted, hgroups, hsaid⟩ := printed_turns h
  have hlength : ∀ t ∈ turns args, t.printed.length = t.groups.length := fun t ht => by
    obtain ⟨a, ha, heq, heq'⟩ := mem_turns ht
    rw [heq, heq', (hfollows a ha).1]
  have hlined : ∀ t ∈ turns args, Lined t.printed := fun t ht => by
    obtain ⟨a, ha, heq, -⟩ := mem_turns ht
    rw [heq]
    exact (printed_silent (h a ha)).1
  rw [hprinted, hgroups, hsaid]
  exact ⟨length_turns hlength,
    (turns_eq_iff hlength hlined (turns_spaced args)).trans (orderly_turns h hfollows)⟩

theorem follows_calls (h : ∀ call ∈ calls, ∀ a ∈ call, a.Sound)
    (hfollows : ∀ call ∈ calls, ∀ a ∈ call, Follows a) :
    (allPrinted calls).length = (allGroups calls).length ∧
      (allPrinted calls = allGroups calls ↔ ∀ call ∈ calls, Orderly call) := by
  induction calls with
  | nil => exact ⟨rfl, iff_of_true rfl nofun⟩
  | cons call calls ih =>
    obtain ⟨hlength, hone⟩ :=
      follows_call (h call List.mem_cons_self) (hfollows call List.mem_cons_self)
    obtain ⟨hlengths, hothers⟩ := ih (fun c hc => h c (List.mem_cons_of_mem _ hc)) fun c hc =>
      hfollows c (List.mem_cons_of_mem _ hc)
    rw [allPrinted, allGroups, List.forall_mem_cons, ← hone, ← hothers]
    refine ⟨by rw [List.length_append, List.length_append, hlength, hlengths], ?_⟩
    constructor
    · exact fun heq => List.append_inj heq hlength
    · rintro ⟨heq, hrest⟩
      rw [heq, hrest]

theorem follows (h : arg.Sound) : Follows arg := by
  induction h with
  | plain v => exact ⟨rfl, iff_of_true rfl (.plain v)⟩
  | @called during result hduring hresult ih =>
    obtain ⟨hlength, hiff⟩ := follows_calls hduring ih
    refine ⟨hlength, hiff.trans ⟨fun horder => .called horder hresult, fun horder => ?_⟩⟩
    cases horder with
    | called hduring _ => exact hduring

/-- What the calls print is what they should exactly if they are in order. -/
theorem allPrinted_eq_iff : allPrinted calls = allGroups calls ↔ ∀ call ∈ calls, Orderly call := by
  constructor
  · intro heq
    have hsound := (weight_allPrinted fun call _ a _ => loses a).2 (by rw [heq])
    exact (follows_calls hsound fun call hcall a ha => follows (hsound call hcall a ha)).2.mp heq
  · intro horder
    have hsound : ∀ call ∈ calls, ∀ a ∈ call, a.Sound := fun call hcall a ha =>
      ((horder call hcall).each a ha).sound
    exact (follows_calls hsound fun call hcall a ha => follows (hsound call hcall a ha)).2.mpr horder

end Order

/-! ### What is written -/

section Main

variable {objlen : Nat → List Value → Nat} {load : Bytes → Except Bytes Run} {code msg : Bytes}
  {run : Run} {err : Value} {results : Call} {o : Output}

theorem written_snoc (stack : List Slot) (v : Value) :
    written (stack ++ [.arg (.plain v)]) = v.tolstring := by
  simp [written, Slot.tolstring]

/-- The message is called, since nobody has looked at what `luaL_loadstring` returned. -/
theorem main_error (objlen : Nat → List Value → Nat) (hload : load code = .error msg) :
    main objlen load code = callError := by
  rw [main, hload]
  rfl

theorem main_raises (objlen : Nat → List Value → Nat) (hload : load code = .ok run)
    (hfinish : run.finish = .raises err) : main objlen load code = err.tolstring := by
  rw [main, hload]
  simp [pcall, hfinish, written, Slot.tolstring]

theorem main_returns (objlen : Nat → List Value → Nat) (hload : load code = .ok run)
    (hfinish : run.finish = .returns results) : main objlen load code =
      match printfunc objlen results (printAll objlen run.prints ⟨[], 0⟩) with
      | (o, true) => outbuf objlen o
      | (_, false) => [] := by
  have hargs : (results.map Slot.arg).filterMap Slot.arg? = results := by
    rw [List.filterMap_map]
    exact List.filterMap_some
  have hpcall (o : Output) : pcall objlen [.table, .chunk run] o =
      (true, .table :: results.map .arg, printAll objlen run.prints o) := by
    simp [pcall, hfinish]
  rw [main, hload]
  dsimp only [List.cons_append, List.nil_append, List.length_singleton]
  rw [hpcall]
  dsimp only
  rw [if_pos rfl, List.drop_one, List.tail_cons, hargs]
  generalize printfunc objlen results _ = printed
  obtain ⟨o, done⟩ := printed
  cases done with
  | false => rfl
  | true => exact written_snoc _ _

/-- The loop gets through if nothing raises. -/
theorem printfunc_snd (objlen : Nat → List Value → Nat) (args : Call) (o : Output) :
    (printfunc objlen args o).2 = args.all fun a => a.result.isSome := by
  induction args generalizing o with
  | nil => rfl
  | cons arg args ih =>
    have hresult := tostring_snd objlen arg o
    rw [printfunc, List.all_cons, ← hresult]
    generalize tostring objlen arg o = converted
    obtain ⟨o', result⟩ := converted
    cases result with
    | none => rfl
    | some v => exact (ih _).trans (Bool.true_and _).symm

theorem fills_start (objlen : Nat → List Value → Nat) : Fills objlen ⟨[], 0⟩ [] :=
  ⟨List.not_mem_nil, Or.inl rfl⟩

theorem printAll_snoc (objlen : Nat → List Value → Nat) (calls : List Call) (o : Output) :
    printAll objlen (calls ++ [results]) o =
      (printfunc objlen results (printAll objlen calls o)).1 := by
  induction calls generalizing o with
  | nil => rfl
  | cons call calls ih => exact ih _

/-- With every conversion giving something, what is written is what has been printed, and the results
as if by one more call. -/
theorem main_printed (hconforming : Conforming objlen) (hload : load code = .ok run)
    (hfinish : run.finish = .returns results) (hall : ∀ a ∈ results, a.result.isSome)
    (horder : objlen = smallest ∨ ∀ call ∈ run.prints ++ [results], Orderly call) :
    main objlen load code = allPrinted (run.prints ++ [results]) := by
  obtain ⟨post, hfills, hbytes⟩ := adds_printAll hconforming (fun _ _ a _ => converts hconforming a)
    horder (fills_start objlen)
  have hdone := printfunc_snd objlen results (printAll objlen run.prints ⟨[], 0⟩)
  rw [printAll_snoc] at hfills
  rw [main_returns objlen hload hfinish]
  generalize printfunc objlen results _ = printed at hfills hdone
  obtain ⟨o, done⟩ := printed
  obtain rfl : done = true := hdone.trans (List.all_eq_true.mpr hall)
  rw [List.flatMap_nil, List.nil_append] at hbytes
  exact (hfills.outbuf_eq hconforming).trans hbytes

/-- If a result raises, the process ends. -/
theorem main_ends (objlen : Nat → List Value → Nat) (hload : load code = .ok run)
    (hfinish : run.finish = .returns results) (hnot : ¬ ∀ a ∈ results, a.result.isSome) :
    main objlen load code = [] := by
  have hdone := printfunc_snd objlen results (printAll objlen run.prints ⟨[], 0⟩)
  rw [main_returns objlen hload hfinish]
  generalize printfunc objlen results _ = printed at hdone
  obtain ⟨o, done⟩ := printed
  cases done with
  | false => rfl
  | true => exact absurd (List.all_eq_true.mp hdone.symm) hnot

theorem allGroups_ne_nil (calls : List Call) (h : results ≠ []) :
    allGroups (calls ++ [results]) ≠ [] := by
  induction calls with
  | nil =>
    have hreached : reached results ≠ [] := fun hnil => h (reached_eq_nil.mp hnil)
    simp [allGroups, group, hreached, lit]
  | cons call calls ih => simp [allGroups, ih]

theorem tolstring_eq_text : err.tolstring = err.text ↔ err.IsText := by
  cases err with
  | number text => exact iff_of_true rfl trivial
  | string text => exact iff_of_true rfl trivial
  | nil => exact iff_of_false (by decide) id
  | boolean b => exact iff_of_false (by cases b <;> decide) id
  | object typename address =>
    refine iff_of_false (fun h => ?_) id
    have hlength := congrArg List.length h
    simp [Value.tolstring, Value.text, lit] at hlength

/-- The sandbox writes what it should, whatever borders `lua_objlen` gives, exactly if the code compiles
and either ends with an error that is a string or a number, or returns after conversions that all give a
string or a number and print nothing but ahead of their group. The message of the compiler is never the
one for a call of a string. -/
theorem output_iff (load : Bytes → Except Bytes Run) (code : Bytes)
    (hmessage : ∀ msg, load code = .error msg → msg ≠ callError) :
    (∀ objlen, Conforming objlen → main objlen load code = expected load code) ↔ Kept (load code) := by
  cases hload : load code with
  | error msg =>
    refine iff_of_false (fun h => ?_) id
    have hwritten := h smallest conforming_smallest
    rw [main_error _ hload, expected, hload] at hwritten
    exact hmessage msg hload hwritten.symm
  | ok run =>
    obtain ⟨prints, finish⟩ := run
    cases finish with
    | raises err =>
      have hexpected : expected load code = err.text := by rw [expected, hload]
      show _ ↔ err.IsText
      rw [← tolstring_eq_text, hexpected]
      constructor
      · intro h
        rw [← h smallest conforming_smallest, main_raises _ hload rfl]
      · intro h objlen _
        rw [main_raises objlen hload rfl, h]
    | returns results =>
      have hexpected : expected load code = allGroups (prints ++ [results]) := by rw [expected, hload]
      show _ ↔ ∀ call ∈ prints ++ [results], Orderly call
      rw [hexpected]
      constructor
      · intro h
        have hwritten := h smallest conforming_smallest
        by_cases hall : ∀ a ∈ results, a.result.isSome
        · rw [main_printed conforming_smallest hload rfl hall (Or.inl rfl)] at hwritten
          exact allPrinted_eq_iff.mp hwritten
        · have hsome : results ≠ [] := by
            rintro rfl
            exact hall nofun
          rw [main_ends smallest hload rfl hall] at hwritten
          exact absurd hwritten.symm (allGroups_ne_nil prints hsome)
      · intro h objlen hconforming
        have hall : ∀ a ∈ results, a.result.isSome := fun a ha => by
          obtain ⟨v, hv, -⟩ := ((h results (by simp)).each a ha).result
          rw [hv]
          rfl
        rw [main_printed hconforming hload rfl hall (Or.inr h)]
        exact allPrinted_eq_iff.mpr h

/-- A compiler that knows three pieces of code. -/
def loadSample (code : Bytes) : Except Bytes Run :=
  if code = lit "x =" then .error "[string \"x =\"]:1: unexpected symbol near '<eof>'"
  else if code = lit "print(1, 2) return 3" then
    .ok ⟨[[.plain (.number "1"), .plain (.number "2")]], .returns [.plain (.number "3")]⟩
  else .ok ⟨[], .returns []⟩

theorem sample_in_order : Kept (loadSample "print(1, 2) return 3") ∧
    main smallest loadSample "print(1, 2) return 3" = lit "1 2\n3\n" := by
  have hmessage : ∀ msg, loadSample "print(1, 2) return 3" = .error msg → msg ≠ callError := nofun
  have hexpected : expected loadSample "print(1, 2) return 3" = lit "1 2\n3\n" := by decide +kernel
  have hplain (text : Bytes) : OrderlyArg (.plain (.number text)) := .plain _
  have hkept : Kept (loadSample "print(1, 2) return 3") :=
    List.forall_mem_append.mpr
      ⟨List.forall_mem_singleton.mpr
        (.cons (hplain "1") (List.forall_mem_singleton.mpr (hplain "2"))
          (List.forall_mem_singleton.mpr trivial)),
      List.forall_mem_singleton.mpr (.cons (hplain "3") nofun nofun)⟩
  refine ⟨hkept, ?_⟩
  rw [← hexpected]
  exact (output_iff loadSample "print(1, 2) return 3" hmessage).mpr hkept smallest conforming_smallest

/-- The message of the compiler is lost. -/
theorem compile_error_lost : Conforming smallest ∧
    main smallest loadSample "x =" = lit "attempt to call a string value" ∧
    expected loadSample "x =" = lit "[string \"x =\"]:1: unexpected symbol near '<eof>'" ∧
    main smallest loadSample "x =" ≠ expected loadSample "x =" :=
  ⟨conforming_smallest, by decide +kernel, by decide +kernel, by decide +kernel⟩

end Main

end TuxBot.Plugins.Sandbox
