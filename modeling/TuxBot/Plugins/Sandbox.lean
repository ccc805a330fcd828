import TuxBot.Lua.Bytes

/-! The sandbox runs a piece of code, and writes what it has printed and what it returns. -/
namespace TuxBot.Plugins.Sandbox

open TuxBot.Lua

/-- A Lua value: a number by its text, and whatever has an address by that and the name of its type. -/
inductive Value where
  | nil
  | boolean (b : Bool)
  | number (text : Bytes)
  | string (text : Bytes)
  | object (typename address : Bytes)
  deriving DecidableEq

/-- What `tostring` makes of a value that has no `__tostring`. -/
def Value.text : Value → Bytes
  | nil => "nil"
  | boolean true => "true"
  | boolean false => "false"
  | number text => text
  | string text => text
  | object typename address => typename ++ lit ": " ++ address

/-- `lua_tolstring`; NULL has no bytes. -/
def Value.tolstring : Value → Bytes
  | number text => text
  | string text => text
  | _ => []

def Value.IsText : Value → Prop
  | number _ => True
  | string _ => True
  | _ => False

/-- A value that is converted. Its `__tostring`, if it has one, calls `print` with some values, and then
with others, before it returns its result or raises. -/
inductive Arg where
  | plain (v : Value)
  | called (during : List (List Arg)) (result : Value)
  | raised (during : List (List Arg))

/-- The arguments of a call of `print`. -/
abbrev Call := List Arg

/-- How a piece of code ends. -/
inductive Finish where
  | raises (err : Value)
  | returns (results : Call)

/-- What a piece of code does when it is run. -/
structure Run where
  prints : List Call
  finish : Finish

/-- The table that `printfunc` and `main` share, and how often its length has been asked for. -/
structure Output where
  table : List Value
  reads : Nat

def rawgeti (table : List Value) (i : Nat) : Value := table.getD (i - 1) .nil

def rawseti (table : List Value) (i : Nat) (v : Value) : List Value :=
  if i ≤ table.length then table.set (i - 1) v
  else table ++ List.replicate (i - 1 - table.length) .nil ++ [v]

/-- A number that `lua_objlen` may give for the table. -/
def IsBorder (table : List Value) (n : Nat) : Prop :=
  (n = 0 ∨ rawgeti table n ≠ .nil) ∧ rawgeti table (n + 1) = .nil

/-- `lua_objlen` may depend on more than what is in the table. -/
def Conforming (objlen : Nat → List Value → Nat) : Prop :=
  ∀ reads table, IsBorder table (objlen reads table)

section

variable (objlen : Nat → List Value → Nat)

/-- The text and what separates it from the next one are added to the table. -/
def Output.add (o : Output) (v : Value) (sep : Bytes) : Output :=
  let len := objlen o.reads o.table
  ⟨rawseti (rawseti o.table (len + 1) v) (len + 2) (.string sep), o.reads + 1⟩

/-- What follows a value, given those that are left. -/
def separator (left : List Arg) : Bytes := if left.isEmpty then "\n" else " "

mutual

/-- What is pushed, if nothing raises. -/
def tostring : Arg → Output → Output × Option Value
  | .plain v, o => (o, some (.string v.text))
  | .called during result, o => (printAll during o, some result)
  | .raised during, o => (printAll during o, none)

/-- The loop over the arguments of a call, and over the results; `false` if it does not get through. -/
def printfunc : Call → Output → Output × Bool
  | [], o => (o, true)
  | arg :: args, o =>
    match tostring arg o with
    | (o, none) => (o, false)
    | (o, some v) => printfunc args (o.add objlen v (separator args))

/-- One call after another. -/
def printAll : List Call → Output → Output
  | [], o => o
  | call :: calls, o => printAll calls (printfunc call o).1

end

/-- A place on the stack. -/
inductive Slot where
  | table
  | chunk (run : Run)
  | arg (arg : Arg)

def Slot.arg? : Slot → Option Arg
  | arg a => some a
  | _ => none

def Slot.tolstring : Slot → Bytes
  | arg (.plain v) => v.tolstring
  | _ => []

def callError : Bytes := "attempt to call a string value"

/-- `lua_pcall` of what is on the top of the stack. -/
def pcall (stack : List Slot) (o : Output) : Bool × List Slot × Output :=
  match stack.getLast? with
  | some (.chunk run) =>
    let o := printAll objlen run.prints o
    match run.finish with
    | .raises err => (false, stack.dropLast ++ [.arg (.plain err)], o)
    | .returns results => (true, stack.dropLast ++ results.map .arg, o)
  | _ => (false, stack.dropLast ++ [.arg (.plain (.string callError))], o)

/-- What the loop over the table collects. -/
def outbuf (o : Output) : Bytes :=
  (List.range' 1 (objlen o.reads o.table)).flatMap fun i => (rawgeti o.table i).tolstring

/-- What is left on the top of the stack is written. -/
def written (stack : List Slot) : Bytes := (stack.getLast?.map Slot.tolstring).getD []

/-- What `main` writes. `load` is the compiler behind `luaL_loadstring`; an error outside `lua_pcall`
ends the process. -/
def main (load : Bytes → Except Bytes Run) (code : Bytes) : Bytes :=
  let stack := [Slot.table]
  let oldstack := stack.length
  let stack := stack ++ [match load code with
    | .ok run => .chunk run
    | .error msg => .arg (.plain (.string msg))]
  let (success, stack, o) := pcall objlen stack ⟨[], 0⟩
  if success then
    match printfunc objlen ((stack.drop oldstack).filterMap Slot.arg?) o with
    | (o, true) => written (stack ++ [.arg (.plain (.string (outbuf objlen o)))])
    | (_, false) => []
  else written stack

end

/-! ### What is expected -/

/-- The texts with a space between each two and a newline at the end. -/
def group (texts : List Bytes) : Bytes :=
  if texts = [] then [] else (lit " ").intercalate texts ++ lit "\n"

/-- The text of an argument; one that raises has none. -/
def Arg.text : Arg → Bytes
  | plain v => v.text
  | called _ result => result.text
  | raised _ => []

/-- The arguments up to the first that raises. -/
def reached : Call → Call
  | [] => []
  | .raised during :: _ => [.raised during]
  | arg :: args => arg :: reached args

mutual

/-- The groups of the calls that are made while an argument is converted. -/
def Arg.groups : Arg → Bytes
  | .plain _ => []
  | .called during _ => allGroups during
  | .raised during => allGroups during

def argGroups : Call → Bytes
  | [] => []
  | .raised during :: _ => allGroups during
  | arg :: args => arg.groups ++ argGroups args

/-- The groups of the calls, each behind those that are made for it. -/
def allGroups : List Call → Bytes
  | [] => []
  | call :: calls => argGroups call ++ group ((reached call).map Arg.text) ++ allGroups calls

end

/-- What the sandbox ought to write. -/
def expected (load : Bytes → Except Bytes Run) (code : Bytes) : Bytes :=
  match load code with
  | .error msg => msg
  | .ok run =>
    match run.finish with
    | .raises err => err.text
    | .returns results => allGroups (run.prints ++ [results])

/-! ### When it does -/

/-- Nothing is printed while the argument is converted. -/
def Arg.Silent : Arg → Prop
  | plain _ => True
  | called during _ => ∀ call ∈ during, call = []
  | raised during => ∀ call ∈ during, call = []

mutual

/-- No conversion raises or gives anything but a string or a number. -/
inductive OrderlyArg : Arg → Prop
  | plain (v : Value) : OrderlyArg (.plain v)
  | called {during : List Call} {result : Value} (hduring : ∀ call ∈ during, Orderly call)
      (hresult : result.IsText) : OrderlyArg (.called during result)

/-- Only the conversion of the first argument prints anything. -/
inductive Orderly : Call → Prop
  | nil : Orderly []
  | cons {arg : Arg} {args : Call} (harg : OrderlyArg arg) (hargs : ∀ a ∈ args, OrderlyArg a)
      (hsilent : ∀ a ∈ args, a.Silent) : Orderly (arg :: args)

end

/-- The code compiles, and ends with an error that has a text or prints and returns in order. -/
def Kept : Except Bytes Run → Prop
  | .error _ => False
  | .ok run =>
    match run.finish with
    | .raises err => err.IsText
    | .returns results => ∀ call ∈ run.prints ++ [results], Orderly call

/-! ### The shared table -/

section Table

variable {objlen : Nat → List Value → Nat} {table pre : List Value} {n : Nat} {o : Output} {v : Value}
  {sep : Bytes}

theorem rawseti_end (table : List Value) (v : Value) :
    rawseti table (table.length + 1) v = table ++ [v] := by
  simp [rawseti]

theorem rawseti_over (pre rest : List Value) (old v : Value) :
    rawseti (pre ++ old :: rest) (pre.length + 1) v = pre ++ v :: rest := by
  simp [rawseti]

/-- A table without holes has one border. -/
theorem border_unique (hfull : .nil ∉ table) (h : IsBorder table n) : n = table.length := by
  obtain ⟨hbelow, habove⟩ := h
  rcases Nat.lt_trichotomy n table.length with hlt | heq | hgt
  · have hmem : rawgeti table (n + 1) ∈ table := by
      rw [rawgeti, Nat.add_sub_cancel, List.getD_eq_getElem?_getD, List.getElem?_eq_getElem hlt]
      exact List.getElem_mem hlt
    exact absurd (habove ▸ hmem) hfull
  · exact heq
  · have hout : rawgeti table n = .nil := by
      rw [rawgeti, List.getD_eq_getElem?_getD, List.getElem?_eq_none (by omega)]
      rfl
    rcases hbelow with rfl | hbelow
    · exact absurd hgt (Nat.not_lt_zero _)
    · exact absurd hout hbelow

/-- The border before the first hole. -/
def smallest (_ : Nat) (table : List Value) : Nat := (table.takeWhile (· ≠ .nil)).length

theorem conforming_smallest : Conforming smallest := by
  intro reads table
  induction table with
  | nil => exact ⟨Or.inl rfl, rfl⟩
  | cons v table ih =>
    obtain ⟨hbelow, habove⟩ := ih
    by_cases hv : v = .nil
    · subst hv
      exact ⟨Or.inl rfl, rfl⟩
    · have hlength : smallest reads (v :: table) = smallest reads table + 1 := by
        simp [smallest, hv]
      rw [hlength]
      refine ⟨Or.inr ?_, habove⟩
      cases hn : smallest reads table with
      | zero => exact hv
      | succ n =>
        rw [hn] at hbelow
        exact hbelow.resolve_left (Nat.succ_ne_zero n)

/-- The table lists `pre`, and `lua_objlen` finds the end of it. -/
structure Fills (objlen : Nat → List Value → Nat) (o : Output) (pre : List Value) : Prop where
  full : .nil ∉ pre
  table : o.table = pre ∨ objlen = smallest ∧ ∃ s, o.table = pre ++ [.nil, s]

theorem Fills.objlen_eq (hconforming : Conforming objlen) (h : Fills objlen o pre) :
    objlen o.reads o.table = pre.length := by
  rcases h.table with htable | ⟨rfl, s, htable⟩
  · rw [htable]
    exact border_unique h.full (hconforming _ _)
  · have htake : (pre ++ [.nil, s]).takeWhile (· ≠ .nil) = pre := by
      rw [List.takeWhile_append_of_pos fun v hv => by simpa using ne_of_mem_of_not_mem hv h.full]
      simp
    rw [htable, smallest, htake]

/-- Whatever was behind the end is written over. -/
theorem Fills.table_add (hconforming : Conforming objlen) (h : Fills objlen o pre) (v : Value)
    (sep : Bytes) : (o.add objlen v sep).table = pre ++ [v, .string sep] := by
  rw [Output.add, h.objlen_eq hconforming]
  rcases h.table with htable | ⟨-, s, htable⟩
  · have hlength : pre.length + 2 = (pre ++ [v]).length + 1 := by simp
    rw [htable]
    dsimp only
    rw [rawseti_end, hlength, rawseti_end, List.append_assoc]
    rfl
  · have hlength : pre.length + 2 = (pre ++ [v]).length + 1 := by simp
    have hsplit : pre ++ v :: [s] = (pre ++ [v]) ++ s :: [] := by simp
    rw [htable]
    dsimp only
    rw [rawseti_over, hlength, hsplit, rawseti_over, List.append_assoc]
    rfl

theorem Fills.add (hconforming : Conforming objlen) (h : Fills objlen o pre) (hv : v ≠ .nil) :
    Fills objlen (o.add objlen v sep) (pre ++ [v, .string sep]) where
  full := by simp [h.full, Ne.symm hv]
  table := Or.inl (h.table_add hconforming v sep)

theorem Fills.add_nil (h : Fills smallest o pre) : Fills smallest (o.add smallest .nil sep) pre where
  full := h.full
  table := Or.inr ⟨rfl, .string sep, h.table_add conforming_smallest .nil sep⟩

theorem Fills.outbuf_eq (hconforming : Conforming objlen) (h : Fills objlen o pre) :
    outbuf objlen o = pre.flatMap Value.tolstring := by
  have hread (i : Nat) (hi : i < pre.length) : rawgeti o.table (i + 1) = pre[i] := by
    rw [rawgeti, Nat.add_sub_cancel, List.getD_eq_getElem?_getD]
    rcases h.table with htable | ⟨-, s, htable⟩
    · simp [htable, hi]
    · simp [htable, List.getElem?_append_left hi, hi]
  have hall : (List.range' 1 pre.length).map (rawgeti o.table) = pre := by
    refine List.ext_getElem (by simp) fun i _ hi => ?_
    rw [List.getElem_map, List.getElem_range', Nat.one_mul, Nat.add_comm, hread i hi]
  rw [outbuf, h.objlen_eq hconforming]
  conv_rhs => rw [← hall, List.flatMap_map]

end Table

/-! ### What reaches the table -/

/-- What holds of an argument when it holds of those of the calls that its conversion makes. -/
@[elab_as_elim]
theorem Arg.induct {motive : Arg → Prop} (plain : ∀ v, motive (.plain v))
    (called : ∀ during result, (∀ call ∈ during, ∀ a ∈ call, motive a) →
      motive (.called during result))
    (raised : ∀ during, (∀ call ∈ during, ∀ a ∈ call, motive a) → motive (.raised during))
    (a : Arg) : motive a :=
  @Arg.rec motive (fun calls => ∀ call ∈ calls, ∀ a ∈ call, motive a) (fun call => ∀ a ∈ call, motive a)
    plain called raised nofun (fun _ _ hcall hcalls => List.forall_mem_cons.mpr ⟨hcall, hcalls⟩)
    nofun (fun _ _ ha hargs => List.forall_mem_cons.mpr ⟨ha, hargs⟩) a

/-- What is pushed for an argument. -/
def Arg.result : Arg → Option Value
  | plain v => some (.string v.text)
  | called _ result => some result
  | raised _ => none

/-- What is left of a value in a table that may have a hole in its place. -/
def stored (v : Value) (sep : Bytes) : Bytes := if v = .nil then [] else v.tolstring ++ sep

mutual

/-- What the conversion of an argument prints. -/
def Arg.printed : Arg → Bytes
  | .plain _ => []
  | .called during _ => allPrinted during
  | .raised during => allPrinted during

def argPrinted : Call → Bytes
  | [] => []
  | arg :: args => arg.printed ++ match arg.result with
    | none => []
    | some v => stored v (separator args) ++ argPrinted args

/-- What the calls print, if a hole ends the table. -/
def allPrinted : List Call → Bytes
  | [] => []
  | call :: calls => argPrinted call ++ allPrinted calls

end

section Prints

variable {objlen : Nat → List Value → Nat} {o : Output} {pre : List Value} {arg : Arg} {args : Call}
  {calls : List Call}

/-- The bytes are added to those of the table. -/
def Adds (objlen : Nat → List Value → Nat) (pre : List Value) (o : Output) (text : Bytes) : Prop :=
  ∃ post, Fills objlen o post ∧
    post.flatMap Value.tolstring = pre.flatMap Value.tolstring ++ text

theorem tostring_snd (objlen : Nat → List Value → Nat) (arg : Arg) (o : Output) :
    (tostring objlen arg o).2 = arg.result := by
  cases arg <;> rfl

/-- A conversion in order gives something. -/
theorem OrderlyArg.result (h : OrderlyArg arg) : ∃ v, arg.result = some v ∧ v ≠ .nil := by
  cases h with
  | plain v => exact ⟨_, rfl, nofun⟩
  | @called during result hduring hresult =>
    refine ⟨result, rfl, ?_⟩
    rintro rfl
    exact hresult

theorem Fills.stored (hconforming : Conforming objlen) (h : Fills objlen o pre) {v : Value}
    (hv : objlen = smallest ∨ v ≠ .nil) (sep : Bytes) :
    Adds objlen pre (o.add objlen v sep) (stored v sep) := by
  by_cases hnil : v = .nil
  · subst hnil
    obtain rfl := hv.resolve_right fun h => h rfl
    exact ⟨pre, h.add_nil, by simp [Sandbox.stored]⟩
  · exact ⟨_, h.add hconforming hnil, by simp [Sandbox.stored, hnil, Value.tolstring]⟩

/-- What the conversion of an argument adds, if the length is that before the first hole or there is no
hole. -/
def Converts (objlen : Nat → List Value → Nat) (arg : Arg) : Prop :=
  ∀ o pre, objlen = smallest ∨ OrderlyArg arg → Fills objlen o pre →
    Adds objlen pre (tostring objlen arg o).1 arg.printed

theorem adds_printfunc (hconforming : Conforming objlen) (hargs : ∀ a ∈ args, Converts objlen a)
    (horder : objlen = smallest ∨ ∀ a ∈ args, OrderlyArg a) (h : Fills objlen o pre) :
    Adds objlen pre (printfunc objlen args o).1 (argPrinted args) := by
  induction args generalizing o pre with
  | nil => exact ⟨pre, h, by simp [argPrinted]⟩
  | cons arg args ih =>
    have hone := horder.imp_right fun horder => horder arg List.mem_cons_self
    obtain ⟨mid, hfills, hbytes⟩ := hargs arg List.mem_cons_self o pre hone h
    have hresult := tostring_snd objlen arg o
    rw [printfunc, argPrinted]
    generalize tostring objlen arg o = converted at hfills hresult
    obtain ⟨o', result⟩ := converted
    dsimp only at hfills hresult ⊢
    subst hresult
    cases hv : arg.result with
    | none => exact ⟨mid, hfills, by simpa using hbytes⟩
    | some v =>
      have hsome : objlen = smallest ∨ v ≠ .nil := hone.imp_right fun horder => by
        obtain ⟨v', hv', hne⟩ := horder.result
        obtain rfl := Option.some.inj (hv.symm.trans hv')
        exact hne
      obtain ⟨behind, hadded, hstored⟩ := hfills.stored hconforming hsome (separator args)
      obtain ⟨post, hrest, hothers⟩ := ih (fun a ha => hargs a (List.mem_cons_of_mem _ ha))
        (horder.imp_right fun horder a ha => horder a (List.mem_cons_of_mem _ ha)) hadded
      exact ⟨post, hrest, by simp [hothers, hstored, hbytes]⟩

theorem Orderly.each (h : Orderly args) : ∀ a ∈ args, OrderlyArg a := by
  cases h with
  | nil => exact nofun
  | cons harg hargs _ => exact List.forall_mem_cons.mpr ⟨harg, hargs⟩

theorem adds_printAll (hconforming : Conforming objlen)
    (hcalls : ∀ call ∈ calls, ∀ a ∈ call, Converts objlen a)
    (horder : objlen = smallest ∨ ∀ call ∈ calls, Orderly call) (h : Fills objlen o pre) :
    Adds objlen pre (printAll objlen calls o) (allPrinted calls) := by
  induction calls generalizing o pre with
  | nil => exact ⟨pre, h, by simp [allPrinted]⟩
  | cons call calls ih =>
    obtain ⟨mid, hfills, hbytes⟩ := adds_printfunc hconforming (hcalls call List.mem_cons_self)
      (horder.imp_right fun horder => (horder call List.mem_cons_self).each) h
    obtain ⟨post, hrest, hothers⟩ := ih (fun c hc => hcalls c (List.mem_cons_of_mem _ hc))
      (horder.imp_right fun horder c hc => horder c (List.mem_cons_of_mem _ hc)) hfills
    exact ⟨post, hrest, by simp [allPrinted, hothers, hbytes]⟩

theorem converts (hconforming : Conforming objlen) (arg : Arg) : Converts objlen arg := by
  induction arg using Arg.induct with
  | plain v => exact fun o pre _ h => ⟨pre, h, by simp [Arg.printed]⟩
  | called during result ih =>
    intro o pre horder h
    refine adds_printAll hconforming ih (horder.imp_right fun horder => ?_) h
    cases horder with
    | called hduring _ => exact hduring
  | raised during ih =>
    intro o pre horder h
    refine adds_printAll hconforming ih (horder.imp_right fun horder => ?_) h
    cases horder

end Prints

end TuxBot.Plugins.Sandbox
