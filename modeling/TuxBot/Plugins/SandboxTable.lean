import TuxBot.Lua.LtableLength
import TuxBot.Plugins.SandboxOutput

/-! The sandbox with the table as `ltable.c` keeps it. -/
namespace TuxBot.Plugins.Sandbox

open TuxBot.Lua
open TuxBot.Lua.Ltable (Error)

/-- The table that `printfunc` and `main` share. Its keys are all numbers, so that the collector leaves
them alone. -/
abbrev Shared := Ltable.Table Int Value

/-- Nothing is kept under a key for nil. -/
def Value.kept : Value → Option Value
  | nil => none
  | v => some v

namespace Shared

def lua_objlen (t : Shared) : Nat := t.luaH_getn

def lua_rawgeti (t : Shared) (n : Nat) : Value := ((t.luaH_getnum n).bind t.value).getD .nil

def lua_rawseti (t : Shared) (n : Nat) (v : Value) : Except Error Shared := do
  let (t, slot) ← t.luaH_setnum n
  return t.setvalue slot v.kept

/-- The text and what separates it from the next one are added to the table. -/
def add (t : Shared) (v : Value) (sep : Bytes) : Except Error Shared := do
  let len := t.lua_objlen
  let t ← t.lua_rawseti (len + 1) v
  t.lua_rawseti (len + 2) (.string sep)

mutual

def tostring : Arg → Shared → Except Error (Shared × Option Value)
  | .plain v, t => .ok (t, some (.string v.text))
  | .called during result, t => do return (← printAll during t, some result)
  | .raised during, t => do return (← printAll during t, none)

def printfunc : Call → Shared → Except Error (Shared × Bool)
  | [], t => .ok (t, true)
  | arg :: args, t => do
    match ← tostring arg t with
    | (t, none) => return (t, false)
    | (t, some v) => printfunc args (← t.add v (separator args))

def printAll : List Call → Shared → Except Error Shared
  | [], t => .ok t
  | call :: calls, t => do printAll calls (← printfunc call t).1

end

def pcall (stack : List Slot) (t : Shared) : Except Error (Bool × List Slot × Shared) := do
  match stack.getLast? with
  | some (.chunk run) =>
    let t ← printAll run.prints t
    match run.finish with
    | .raises err => return (false, stack.dropLast ++ [.arg (.plain err)], t)
    | .returns results => return (true, stack.dropLast ++ results.map .arg, t)
  | _ => return (false, stack.dropLast ++ [.arg (.plain (.string callError))], t)

def outbuf (t : Shared) : Bytes :=
  (List.range' 1 t.lua_objlen).flatMap fun i => (t.lua_rawgeti i).tolstring

/-- `main` over a table of `lua_newtable`. -/
def main (load : Bytes → Except Bytes Run) (code : Bytes) : Except Error Bytes := do
  let t ← Ltable.Table.luaH_new 0 0
  let stack := [Slot.table]
  let oldstack := stack.length
  let stack := stack ++ [match load code with
    | .ok run => .chunk run
    | .error msg => .arg (.plain (.string msg))]
  let (success, stack, t) ← pcall stack t
  if success then
    match ← printfunc ((stack.drop oldstack).filterMap Slot.arg?) t with
    | (t, true) => return written (stack ++ [.arg (.plain (.string t.outbuf))])
    | (_, false) => return []
  else return written stack

/-! ### The list that stands for the table -/

variable {t t' : Shared} {table : List Value} {v : Value} {i j n : Nat}

theorem rawgeti_rawseti (table : List Value) (hi : 1 ≤ i) (hj : 1 ≤ j) (v : Value) :
    rawgeti (rawseti table i v) j = if j = i then v else rawgeti table j := by
  obtain ⟨i, rfl⟩ := Nat.exists_eq_add_of_le' hi
  obtain ⟨j, rfl⟩ := Nat.exists_eq_add_of_le' hj
  simp only [rawgeti, rawseti, Nat.add_sub_cancel, Nat.add_right_cancel_iff, List.getD_eq_getElem?_getD]
  split
  · rename_i hle
    rw [List.getElem?_set]
    by_cases hji : j = i
    · subst hji
      simp [Nat.lt_of_succ_le hle]
    · rw [if_neg (Ne.symm hji), if_neg hji]
  · rename_i hgt
    rw [List.append_assoc, List.getElem?_append]
    split
    · rename_i hlt
      rw [if_neg (by omega)]
    · rw [List.getElem?_append, List.length_replicate, List.getElem?_replicate,
        List.getElem?_eq_none (l := table) (by omega)]
      rcases Nat.lt_trichotomy j i with hlt | rfl | hlt
      · rw [if_pos (by omega), if_pos (by omega), if_neg (by omega)]
        rfl
      · rw [if_neg (by omega), if_pos rfl, Nat.sub_self]
        rfl
      · rw [if_neg (by omega), if_neg (by omega), List.getElem?_eq_none (by simp; omega)]

theorem kept_eq_none : v.kept = none ↔ v = .nil := by
  cases v <;> simp [Value.kept]

theorem getD_kept (v : Value) : v.kept.getD .nil = v := by cases v <;> rfl

/-- Of two places in a row one is used. -/
theorem half_le_countP {p : Nat → Bool} (h : ∀ i, 1 ≤ i → i < n → p i = true ∨ p (i + 1) = true) :
    n / 2 ≤ (List.range' 1 n).countP p := by
  induction n using Nat.twoStepInduction with
  | zero => exact Nat.zero_le _
  | one => exact Nat.zero_le _
  | more n ih _ =>
    have hrest := ih fun i hi hlt => h i hi (by omega)
    have hpair : 1 ≤ [n + 1, n + 2].countP p := by
      refine List.one_le_countP_iff.mpr ?_
      rcases h (n + 1) (by omega) (by omega) with hp | hp
      · exact ⟨n + 1, by simp, hp⟩
      · exact ⟨n + 2, by simp, hp⟩
    have hsplit : List.range' 1 (n + 2) = List.range' 1 n ++ [n + 1, n + 2] := by
      rw [List.range'_concat, List.range'_concat, List.append_assoc]
      simp only [Nat.one_mul, Nat.add_comm 1, List.cons_append, List.nil_append]
    rw [hsplit, List.countP_append]
    omega

/-- The list has the values of the table, and two holes in a row are the end of them. -/
structure Mirrors (t : Shared) (table : List Value) : Prop where
  sound : t.Sound
  lookup : ∀ i : Nat, 1 ≤ i → t.lookup (i : Int) = (rawgeti table i).kept
  dense : ∀ i j, 1 ≤ i → i < j → rawgeti table i = .nil → rawgeti table (i + 1) = .nil →
    rawgeti table j = .nil

namespace Mirrors

theorem present_iff (h : Mirrors t table) (hi : 1 ≤ i) (hlt : i < 2 ^ 31) :
    t.present i = true ↔ rawgeti table i ≠ .nil := by
  rw [Ltable.Table.present_eq t hlt]
  show (t.lookup (i : Int)).isSome = true ↔ _
  rw [h.lookup i hi, Option.isSome_iff_ne_none, ne_eq, kept_eq_none]

theorem lua_rawgeti_eq (h : Mirrors t table) (hi : 1 ≤ i) (hlt : i < 2 ^ 31) :
    t.lua_rawgeti i = rawgeti table i := by
  rw [lua_rawgeti, Ltable.Table.luaH_getnum_eq t (by omega) (by omega)]
  show (t.lookup (i : Int)).getD .nil = _
  rw [h.lookup i hi, getD_kept]

/-- `lua_objlen` gives a border. -/
theorem border (h : Mirrors t table) : IsBorder table t.lua_objlen ∧ t.lua_objlen + 1 < 2 ^ 31 := by
  obtain ⟨⟨hbelow, habove⟩, hbound⟩ := h.sound.border_getn
  refine ⟨⟨?_, ?_⟩, hbound⟩
  · rcases Nat.eq_zero_or_pos t.lua_objlen with hzero | hpos
    · exact Or.inl hzero
    · exact hbelow.imp_right (h.present_iff hpos (Nat.lt_of_succ_lt hbound)).mp
  · by_contra hused
    rw [(h.present_iff (Nat.succ_pos _) hbound).mpr hused] at habove
    cases habove

/-- The length is far from the largest integer. -/
theorem lua_objlen_lt (h : Mirrors t table) : t.lua_objlen + 2 < 2 ^ 31 := by
  obtain ⟨hborder, hbound⟩ := h.border
  have hasize : t.array.length ≤ 2 ^ 26 := h.sound.asize
  have hnsize : t.node.length ≤ 2 ^ 26 := h.sound.length_node_le
  have hcount := h.sound.countP_present_le (Nat.lt_of_succ_lt hbound)
  have hhalf : t.lua_objlen / 2 ≤ (List.range' 1 t.lua_objlen).countP t.present := by
    refine half_le_countP fun i hi hlt => ?_
    rw [h.present_iff hi (by omega), h.present_iff (by omega) (by omega)]
    by_contra hholes
    rw [not_or, not_not, not_not] at hholes
    exact hborder.1.resolve_left (by omega) (h.dense i _ hi hlt hholes.1 hholes.2)
  omega

end Mirrors

theorem lua_rawseti_cases (h : t.Sound) (hlt : i < 2 ^ 31) (v : Value) :
    t.lua_rawseti i v = .error (.run "table overflow") ∨
      ∃ t', t.lua_rawseti i v = .ok t' ∧ t'.Sound ∧
        ∀ z, t'.lookup z = if z = i then v.kept else t.lookup z := by
  have hvalid : (Ltable.Op.setnum i v.kept : Ltable.Op Int Value).Valid := by
    rw [Ltable.Op.Valid]
    omega
  rcases h.step hvalid with ⟨e, herror, hraises⟩ | ⟨t', hok, hsteps⟩
  · cases hraises with
    | overflow => exact Or.inl herror
  · refine Or.inr ⟨t', hok, hsteps.sound, fun z => ?_⟩
    rw [hsteps.lookup]
    exact Function.update_apply ..

/-- The table and the list get the same two values. -/
theorem Mirrors.add (h : Mirrors t table) (v : Value) (sep : Bytes) :
    t.add v sep = .error (.run "table overflow") ∨
      ∃ t', t.add v sep = .ok t' ∧ Mirrors t'
        (rawseti (rawseti table (t.lua_objlen + 1) v) (t.lua_objlen + 2) (.string sep)) := by
  obtain ⟨⟨hbelow, -⟩, -⟩ := h.border
  have hbound := h.lua_objlen_lt
  rw [Shared.add]
  generalize t.lua_objlen = n at hbelow hbound
  rcases lua_rawseti_cases h.sound (show n + 1 < 2 ^ 31 by omega) v with
    herror | ⟨t₁, hok₁, hsound₁, hlookup₁⟩
  · exact Or.inl (by rw [herror]; rfl)
  rcases lua_rawseti_cases hsound₁ hbound (.string sep) with herror | ⟨t₂, hok₂, hsound₂, hlookup₂⟩
  · exact Or.inl (by rw [hok₁]; exact herror)
  have hget {j : Nat} (hj : 1 ≤ j) :
      rawgeti (rawseti (rawseti table (n + 1) v) (n + 2) (.string sep)) j =
        if j = n + 2 then .string sep else if j = n + 1 then v else rawgeti table j := by
    rw [rawgeti_rawseti _ (by omega) hj, rawgeti_rawseti _ (by omega) hj]
  refine Or.inr ⟨t₂, by rw [hok₁]; exact hok₂, hsound₂, fun j hj => ?_, fun i j hi hij hnil hnil' => ?_⟩
  · rw [hlookup₂, hlookup₁, h.lookup j hj, hget hj, apply_ite Value.kept, apply_ite Value.kept]
    simp only [Int.natCast_inj]
  · rw [hget hi] at hnil
    rw [hget (by omega)] at hnil'
    have hi₂ : i ≠ n + 2 := by
      rintro rfl
      rw [if_pos rfl] at hnil
      cases hnil
    have hi₁ : i ≠ n + 1 := by
      rintro rfl
      rw [if_pos rfl] at hnil'
      cases hnil'
    rw [if_neg hi₂, if_neg hi₁] at hnil
    have hin : i ≠ n := by
      rintro rfl
      exact hbelow.resolve_left (by omega) hnil
    rw [if_neg (by omega), if_neg (by omega)] at hnil'
    -- the border cannot be behind the two holes
    have hlt : n < i := by
      by_contra hge
      exact hbelow.resolve_left (by omega) (h.dense i n hi (by omega) hnil hnil')
    rw [hget (by omega), if_neg (by omega), if_neg (by omega)]
    exact h.dense i j hi hij hnil hnil'

/-! ### The simulation -/

/-- The length is read as if the tables and numbers of the list came up one after another. -/
def Replays (ls : List (List Value × Nat)) (reads : Nat) (objlen : Nat → List Value → Nat) : Prop :=
  ∀ j p, ls[j]? = some p → objlen (reads + j) p.1 = p.2

theorem Replays.append {ls ls' : List (List Value × Nat)} {reads : Nat}
    {objlen : Nat → List Value → Nat} (h : Replays (ls ++ ls') reads objlen) :
    Replays ls reads objlen ∧ Replays ls' (reads + ls.length) objlen := by
  refine ⟨fun j p hj => h j p ?_, fun j p hj => ?_⟩
  · rw [List.getElem?_append_left (List.getElem?_eq_some_iff.mp hj).1, hj]
  · rw [Nat.add_assoc]
    refine h (ls.length + j) p ?_
    rw [List.getElem?_append_right (Nat.le_add_right _ _), Nat.add_sub_cancel_left, hj]

/-- What is done with the table is what is done with the list if the length is read in some way, unless
the table overflows. -/
def Simulates {α : Type} (g : Shared → Except Error (Shared × α))
    (f : (Nat → List Value → Nat) → Output → Output × α) : Prop :=
  ∀ t table reads, Mirrors t table → g t = .error (.run "table overflow") ∨
    ∃ t' a ls table', g t = .ok (t', a) ∧ Mirrors t' table' ∧ (∀ p ∈ ls, IsBorder p.1 p.2) ∧
      ∀ objlen, Replays ls reads objlen → f objlen ⟨table, reads⟩ = (⟨table', reads + ls.length⟩, a)

section

variable {α β : Type} {g : Shared → Except Error (Shared × α)}
  {f : (Nat → List Value → Nat) → Output → Output × α}

theorem simulates_pure (a : α) : Simulates (fun t => .ok (t, a)) fun _ o => (o, a) :=
  fun t table _ h => Or.inr ⟨t, a, [], table, rfl, h, nofun, fun _ _ => rfl⟩

theorem Simulates.bind (hg : Simulates g f) {g' : α → Shared → Except Error (Shared × β)}
    {f' : α → (Nat → List Value → Nat) → Output → Output × β} (hg' : ∀ a, Simulates (g' a) (f' a)) :
    Simulates (fun t => g t >>= fun r => g' r.2 r.1) fun objlen o =>
      f' (f objlen o).2 objlen (f objlen o).1 := by
  intro t table reads h
  dsimp only
  rcases hg t table reads h with herror | ⟨t₁, a, ls, table₁, hok, hmirrors, hborders, hrun⟩
  · exact Or.inl (by rw [herror]; rfl)
  rcases hg' a t₁ table₁ (reads + ls.length) hmirrors with
    herror | ⟨t₂, b, ls', table₂, hok', hmirrors', hborders', hrun'⟩
  · exact Or.inl (by rw [hok]; exact herror)
  refine Or.inr ⟨t₂, b, ls ++ ls', table₂, by rw [hok]; exact hok', hmirrors', ?_,
    fun objlen hreplays => ?_⟩
  · exact List.forall_mem_append.mpr ⟨hborders, hborders'⟩
  · obtain ⟨hfirst, hrest⟩ := hreplays.append
    rw [hrun objlen hfirst, hrun' objlen hrest, List.length_append, Nat.add_assoc]

theorem simulates_add (v : Value) (sep : Bytes) :
    Simulates (fun t => t.add v sep >>= fun t => .ok (t, ())) fun objlen o =>
      (o.add objlen v sep, ()) := by
  intro t table reads h
  dsimp only
  rcases h.add v sep with herror | ⟨t', hok, hmirrors⟩
  · exact Or.inl (by rw [herror]; rfl)
  refine Or.inr ⟨t', (), [(table, t.lua_objlen)], _, by rw [hok]; rfl, hmirrors, ?_,
    fun objlen hreplays => ?_⟩
  · exact List.forall_mem_singleton.mpr h.border.1
  · have hlen : objlen reads table = t.lua_objlen := hreplays 0 _ rfl
    rw [Output.add, hlen]
    rfl

end

section

variable {arg : Arg} {args : Call} {calls : List Call}

theorem simulates_printfunc
    (h : ∀ a ∈ args, Simulates (tostring a) fun objlen => Sandbox.tostring objlen a) :
    Simulates (printfunc args) fun objlen => Sandbox.printfunc objlen args := by
  induction args with
  | nil => exact simulates_pure true
  | cons arg args ih =>
    obtain ⟨harg, hargs⟩ := List.forall_mem_cons.mp h
    let g : Option Value → Shared → Except Error (Shared × Bool)
      | none, t => .ok (t, false)
      | some v, t => t.add v (separator args) >>= printfunc args
    let f : Option Value → (Nat → List Value → Nat) → Output → Output × Bool
      | none, _, o => (o, false)
      | some v, objlen, o => Sandbox.printfunc objlen args (o.add objlen v (separator args))
    have hrest (a : Option Value) : Simulates (g a) (f a) := by
      cases a with
      | none => exact simulates_pure false
      | some v =>
        have hbind := (simulates_add v (separator args)).bind fun _ => ih hargs
        simp only [bind_assoc] at hbind
        exact hbind
    have hg : printfunc (arg :: args) = fun t => tostring arg t >>= fun r => g r.2 r.1 := by
      funext t
      rw [printfunc]
      refine bind_congr fun r => ?_
      obtain ⟨t, a⟩ := r
      cases a <;> rfl
    have hf : (fun objlen => Sandbox.printfunc objlen (arg :: args)) = fun objlen o =>
        f (Sandbox.tostring objlen arg o).2 objlen (Sandbox.tostring objlen arg o).1 := by
      funext objlen o
      rw [Sandbox.printfunc]
      generalize Sandbox.tostring objlen arg o = r
      obtain ⟨o, a⟩ := r
      cases a <;> rfl
    rw [hg, hf]
    exact harg.bind hrest

theorem simulates_printAll
    (h : ∀ call ∈ calls, ∀ a ∈ call, Simulates (tostring a) fun objlen => Sandbox.tostring objlen a) :
    Simulates (fun t => printAll calls t >>= fun t => .ok (t, ())) fun objlen o =>
      (Sandbox.printAll objlen calls o, ()) := by
  induction calls with
  | nil => exact simulates_pure ()
  | cons call calls ih =>
    obtain ⟨hcall, hcalls⟩ := List.forall_mem_cons.mp h
    have hbind := (simulates_printfunc hcall).bind fun _ => ih hcalls
    have hg : (fun t => printAll (call :: calls) t >>= fun t => .ok (t, ())) = fun t =>
        printfunc call t >>= fun r => printAll calls r.1 >>= fun t => .ok (t, ()) := by
      funext t
      rw [printAll, bind_assoc]
    rw [hg]
    exact hbind

theorem simulates_tostring (arg : Arg) :
    Simulates (tostring arg) fun objlen => Sandbox.tostring objlen arg := by
  have hdone {during : List Call} (a : Option Value)
      (h : Simulates (fun t => printAll during t >>= fun t => .ok (t, ())) fun objlen o =>
        (Sandbox.printAll objlen during o, ())) :
      Simulates (fun t => printAll during t >>= fun t => .ok (t, a)) fun objlen o =>
        (Sandbox.printAll objlen during o, a) := by
    have hbind := h.bind fun _ => simulates_pure a
    simp only [bind_assoc] at hbind
    exact hbind
  induction arg using Arg.induct with
  | plain v => exact simulates_pure _
  | called during result ih => exact hdone (some result) (simulates_printAll ih)
  | raised during ih => exact hdone none (simulates_printAll ih)

end

/-! ### The whole program -/

/-- The lengths of the list where they are known, and else the border before the first hole. -/
def replay (ls : List (List Value × Nat)) (reads : Nat) (table : List Value) : Nat :=
  match ls[reads]? with
  | some p => if table = p.1 then p.2 else smallest reads table
  | none => smallest reads table

theorem replays_replay (ls : List (List Value × Nat)) : Replays ls 0 (replay ls) := by
  intro j p hj
  rw [replay, Nat.zero_add, hj]
  exact if_pos rfl

theorem conforming_replay {ls : List (List Value × Nat)} (h : ∀ p ∈ ls, IsBorder p.1 p.2) :
    Conforming (replay ls) := by
  intro reads table
  rw [replay]
  split
  · rename_i p hp
    split
    · rename_i heq
      rw [heq]
      exact h p (List.mem_of_getElem? hp)
    · exact conforming_smallest reads table
  · exact conforming_smallest reads table

theorem Mirrors.outbuf (h : Mirrors t table) {objlen : Nat → List Value → Nat} {reads : Nat}
    (hlen : objlen reads table = t.lua_objlen) : Sandbox.outbuf objlen ⟨table, reads⟩ = t.outbuf := by
  rw [Sandbox.outbuf, Shared.outbuf, hlen]
  refine List.flatMap_congr fun i hi => ?_
  have hi' := List.mem_range'_1.mp hi
  have hbound := h.border.2
  rw [h.lua_rawgeti_eq hi'.1 (by omega)]

theorem mirrors_new : Mirrors ⟨[], 0, [], 0⟩ [] where
  sound := (Ltable.Table.sound_new (show Ltable.Table.luaH_new 0 0 = .ok _ from rfl) (Nat.zero_le _)).1
  lookup _ _ := congrFun
    (Ltable.Table.sound_new (show Ltable.Table.luaH_new 0 0 = .ok _ from rfl) (Nat.zero_le _)).2 _
  dense _ _ _ _ _ _ := rfl

theorem simulates_prints (prints : List Call) :
    Simulates (fun t => printAll prints t >>= fun t => .ok (t, ())) fun objlen o =>
      (Sandbox.printAll objlen prints o, ()) :=
  simulates_printAll fun _ _ a _ => simulates_tostring a

/-- What is printed, and then the results as if by one more call. -/
theorem simulates_run (prints : List Call) (results : Call) :
    Simulates (fun t => printAll prints t >>= printfunc results) fun objlen o =>
      Sandbox.printfunc objlen results (Sandbox.printAll objlen prints o) := by
  have hbind := (simulates_prints prints).bind fun _ =>
    simulates_printfunc fun a (_ : a ∈ results) => simulates_tostring a
  simp only [bind_assoc] at hbind
  exact hbind

section

variable {load : Bytes → Except Bytes Run} {code : Bytes} {prints : List Call} {err : Value}
  {results : Call}

theorem main_raises (hload : load code = .ok ⟨prints, .raises err⟩) :
    main load code = (printAll prints ⟨[], 0, [], 0⟩ >>= fun t => .ok (t, ())) >>= fun _ =>
      .ok err.tolstring := by
  rw [main, hload]
  show (printAll prints ⟨[], 0, [], 0⟩ >>= _) >>= _ = _
  cases printAll prints ⟨[], 0, [], 0⟩ with
  | error e => rfl
  | ok t => rfl

theorem main_returns (hload : load code = .ok ⟨prints, .returns results⟩) :
    main load code = (printAll prints ⟨[], 0, [], 0⟩ >>= printfunc results) >>= fun r =>
      .ok (if r.2 then r.1.outbuf else []) := by
  have hargs : (results.map Slot.arg).filterMap Slot.arg? = results := by
    rw [List.filterMap_map]
    exact List.filterMap_some
  rw [main, hload]
  show (printAll prints ⟨[], 0, [], 0⟩ >>= _) >>= _ = _
  cases printAll prints ⟨[], 0, [], 0⟩ with
  | error e => rfl
  | ok t =>
    show printfunc ((results.map Slot.arg).filterMap Slot.arg?) t >>= _ = printfunc results t >>= _
    rw [hargs]
    refine bind_congr fun r => ?_
    obtain ⟨t, done⟩ := r
    cases done with
    | false => rfl
    | true => exact congrArg Except.ok (written_snoc _ _)

end

/-- With the table of Lua the program writes what it writes for some borders, unless the table
overflows. -/
theorem main_simulated (load : Bytes → Except Bytes Run) (code : Bytes) :
    main load code = .error (.run "table overflow") ∨
      ∃ objlen, Conforming objlen ∧ main load code = .ok (Sandbox.main objlen load code) := by
  cases hload : load code with
  | error msg =>
    refine Or.inr ⟨smallest, conforming_smallest, ?_⟩
    rw [main_error _ hload, main, hload]
    rfl
  | ok run =>
    obtain ⟨prints, finish⟩ := run
    cases finish with
    | raises err =>
      rw [main_raises hload]
      rcases simulates_prints prints _ _ 0 mirrors_new with herror | ⟨t, _, _, _, hok, -⟩
      · exact Or.inl (congrArg (· >>= fun _ => Except.ok err.tolstring) herror)
      · refine Or.inr ⟨smallest, conforming_smallest, ?_⟩
        rw [Sandbox.main_raises _ hload rfl]
        exact congrArg (· >>= fun _ => Except.ok err.tolstring) hok
    | returns results =>
      rw [main_returns hload]
      rcases simulates_run prints results _ _ 0 mirrors_new with
        herror | ⟨t, done, ls, table, hok, hmirrors, hborders, hrun⟩
      · dsimp only at herror
        exact Or.inl (by rw [herror]; rfl)
      dsimp only at hok hrun
      refine Or.inr ⟨replay (ls ++ [(table, t.lua_objlen)]), conforming_replay ?_, ?_⟩
      · exact List.forall_mem_append.mpr ⟨hborders, List.forall_mem_singleton.mpr hmirrors.border.1⟩
      · obtain ⟨hreplays, hlast⟩ := (replays_replay (ls ++ [(table, t.lua_objlen)])).append
        rw [hok, Sandbox.main_returns _ hload rfl, hrun _ hreplays]
        cases done with
        | false => rfl
        | true =>
          exact congrArg Except.ok (hmirrors.outbuf (hlast 0 _ rfl)).symm

/-- If the code keeps the order, its groups are written as they are, unless the table overflows. -/
theorem main_kept {load : Bytes → Except Bytes Run} {code : Bytes} (h : Kept (load code)) :
    main load code = .error (.run "table overflow") ∨ main load code = .ok (expected load code) := by
  refine (main_simulated load code).imp_right ?_
  rintro ⟨objlen, hconforming, hmain⟩
  rw [hmain]
  congr 1
  cases hload : load code with
  | error msg =>
    rw [hload] at h
    exact h.elim
  | ok run =>
    obtain ⟨prints, finish⟩ := run
    rw [hload] at h
    cases finish with
    | raises err =>
      rw [Sandbox.main_raises objlen hload rfl, expected, hload]
      exact tolstring_eq_text.mpr h
    | returns results =>
      have horder : ∀ call ∈ prints ++ [results], Orderly call := h
      have hall : ∀ a ∈ results, a.result.isSome := fun a ha => by
        obtain ⟨v, hv, -⟩ := ((horder results (by simp)).each a ha).result
        rw [hv]
        rfl
      rw [main_printed hconforming hload rfl hall (Or.inr horder), expected, hload]
      exact allPrinted_eq_iff.mpr horder

theorem main_kept_sample : main loadSample "print(1, 2) return 3" = .ok "1 2\n3\n" := by
  have hplain (text : Bytes) : OrderlyArg (.plain (.number text)) := .plain _
  have hprint : Orderly [.plain (.number "1"), .plain (.number "2")] :=
    .cons (hplain "1") (List.forall_mem_singleton.mpr (hplain "2"))
      (List.forall_mem_singleton.mpr trivial)
  have hreturn : Orderly [.plain (.number "3")] := .cons (hplain "3") nofun nofun
  have hkept : Kept (loadSample "print(1, 2) return 3") :=
    List.forall_mem_append.mpr
      ⟨List.forall_mem_singleton.mpr hprint, List.forall_mem_singleton.mpr hreturn⟩
  have hexpected : expected loadSample "print(1, 2) return 3" = lit "1 2\n3\n" := by decide +kernel
  rcases main_kept hkept with herror | hok
  · exact absurd herror (by decide +kernel)
  · rw [hok, hexpected]

end Shared

end TuxBot.Plugins.Sandbox
