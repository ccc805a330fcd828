import TuxBot.Irc.ChannelTracker
import TuxBot.Lua.Effect

/-! The perms plugin: permission specs become functions in the table of the configuration itself. -/
namespace TuxBot.Plugins.Perms

open TuxBot.Lua TuxBot.Irc

/-- The closures that the functions of `permtypes` return, with the table they read. -/
inductive Func where
  | halfop
  | op
  | chanwhitelist (args : Nat)
  | and_ (args : Nat)
  | or_ (args : Nat)
  deriving DecidableEq

/-- What a configuration is made of. A table is its place in the heap, and `other` is a number or a
boolean, by its text. -/
inductive Value where
  | str (text : Bytes)
  | other (text : String)
  | table (ref : Nat)
  | func (f : Func)
  deriving DecidableEq

/-- `tostring`, without addresses. -/
def Value.tostring : Value → String
  | str text => String.ofList (text.map fun b => Char.ofNat b.toNat)
  | other text => text
  | table _ => "table"
  | func _ => "function"

/-- The tables with what they list, and the table that the plugin is given as `config`. -/
structure World where
  heap : List (List Value)
  config : Table Value
  deriving DecidableEq

def World.args (w : World) (ref : Nat) : List Value := w.heap.getD ref []

/-- `args[i] = v`, the first place being 0. -/
def World.setArg (w : World) (ref i : Nat) (v : Value) : World :=
  { w with heap := w.heap.set ref ((w.args ref).set i v) }

/-- What is not a table is put into a new one. -/
def asTable : Value → Eff World Nat
  | .table ref => pure ref
  | v => do
    let w ← get
    set { w with heap := w.heap ++ [[v]] }
    return w.heap.length

/-- The loop of `and_` and `or_`. -/
def compileArgs (permspec2func : Value → Eff World Func) (args : Nat) : Eff World Unit := do
  let w ← get
  (List.range' 1 ((w.args args).length - 1)).forM fun i => do
    let w ← get
    let f ← permspec2func ((w.args args).getD i (.other "nil"))
    modify fun w => w.setArg args i (.func f)

/-- `depth` is how deep calls can nest. -/
def permspec2func : Nat → Value → Eff World Func
  | 0, _ => throw "stack overflow"
  | depth + 1, ps => do
    let args ← asTable ps
    let w ← get
    match (w.args args).head? with
    | some (.str name) =>
      if name = lit "halfop" then pure .halfop
      else if name = lit "op" then pure .op
      else if name = lit "chanwhitelist" then pure (.chanwhitelist args)
      else if name = lit "and_" then do
        compileArgs (permspec2func depth) args
        return .and_ args
      else if name = lit "or_" then do
        compileArgs (permspec2func depth) args
        return .or_ args
      else throw ("no such permission type: " ++ (Value.str name).tostring)
    | some v => throw ("no such permission type: " ++ v.tostring)
    | none => throw "no such permission type: nil"

/-- The body of the loop over `pairs(config)`. -/
def loadAction (depth : Nat) (action : Bytes) : Eff World Unit := do
  let w ← get
  match w.config.lookup action with
  | some perms =>
    let f ← permspec2func depth perms
    modify fun w => { w with config := w.config.insert action (.func f) }
  | none => pure ()

/-- The plugin is loaded; `pairs` goes through the actions in the given order. -/
def load (depth : Nat) (actions : List Bytes) : Eff World Unit := actions.forM (loadAction depth)

/-- The arguments of `check` but the action: the Client with its tracker, a channel and a nick. -/
structure Query where
  netname : Bytes
  session : Session
  tracker : Tracker
  chan : Bytes
  nick : Bytes

/-- The mode of the member, if it is one. -/
def Query.mode (q : Query) : Option Bytes :=
  ((q.tracker.chan q.session q.chan).bind fun cs =>
    cs.members.get q.session.mapping.lower q.nick).map Member.mode

section Check

/-! `strmatch` is `string.match` of a string and a pattern; it may raise. -/

variable (strmatch : Bytes → Bytes → Option Bool) (w : World) (q : Query)

/-- One entry of a whitelist: a pattern for the channel, or one for the network and one for the
channel. -/
def whitelists : Value → Option Bool
  | .str pattern => strmatch q.chan pattern
  | .table ref =>
    match w.args ref with
    | .str net :: .str chan :: _ => do
      if ← strmatch q.netname net then strmatch q.chan chan else some false
    | _ => none
  | _ => none

/-- A call of a closure, where `none` means that it raises. -/
def call : Nat → Func → Option Bool
  | 0, _ => none
  | _ + 1, .halfop => some (q.mode.any fun mode => mode.any (oneOf "ho"))
  | _ + 1, .op => some (q.mode.any fun mode => mode.any (oneOf "o"))
  | _ + 1, .chanwhitelist args => (w.args args).tail.anyM (whitelists strmatch w q)
  | depth + 1, .and_ args => (w.args args).tail.allM fun
    | .func f => call depth f
    | _ => none
  | depth + 1, .or_ args => (w.args args).tail.anyM fun
    | .func f => call depth f
    | _ => none

def check (depth : Nat) (action : Bytes) : Option Bool :=
  match w.config.lookup action with
  | none => some false
  | some (.func f) => call strmatch w q depth f
  | some _ => none

end Check

/-- The action has become a function. -/
def Compiled (w : World) (action : Bytes) : Prop := ∃ f, w.config.lookup action = some (.func f)

/-- Loading the plugin again and again succeeds, and `check` is as it was after the first time. -/
def Reloads (strmatch : Bytes → Bytes → Option Bool) (depth : Nat) (w : World) : Prop :=
  ∀ orders : List (List Bytes), (∀ order ∈ orders, order.Perm w.config.keys) →
    ∃ w', orders.forM (load depth) w = .ok ⟨⟩ w' ∧
      ∀ q calls action, check strmatch w' q calls action = check strmatch w q calls action

variable {strmatch : Bytes → Bytes → Option Bool} {depth : Nat} {w t : World} {actions : List Bytes}
  {action : Bytes}

/-- Only the loop over the actions writes to `config`. -/
def KeepsConfig (w t : World) : Prop := t.config = w.config

theorem keepsConfig_refl (w : World) : KeepsConfig w w := rfl

theorem keepsConfig_trans (w t u : World) (hone : KeepsConfig w t) (htwo : KeepsConfig t u) :
    KeepsConfig w u := Eq.trans htwo hone

theorem keepsConfig_asTable (v : Value) : Eff.Moves KeepsConfig (asTable v) := by
  have hnew (v : Value) : Eff.Moves KeepsConfig (do
      let w ← get
      set { w with heap := w.heap ++ [[v]] }
      return w.heap.length) := by
    rintro w _ rfl
    exact rfl
  cases v with
  | table ref => exact Eff.moves_pure keepsConfig_refl
  | str text => exact hnew _
  | other text => exact hnew _
  | func f => exact hnew _

theorem keepsConfig_compileArgs {compile : Value → Eff World Func}
    (hcompile : ∀ v, Eff.Moves KeepsConfig (compile v)) (args : Nat) :
    Eff.Moves KeepsConfig (compileArgs compile args) := by
  refine Eff.moves_bind keepsConfig_trans (Eff.moves_get keepsConfig_refl) fun w => ?_
  refine Eff.moves_forM keepsConfig_refl keepsConfig_trans (fun i => ?_) _
  refine Eff.moves_bind keepsConfig_trans (Eff.moves_get keepsConfig_refl) fun w => ?_
  exact Eff.moves_bind keepsConfig_trans (hcompile _) fun f => Eff.moves_modify fun _ => rfl

theorem keepsConfig_permspec2func (depth : Nat) (v : Value) :
    Eff.Moves KeepsConfig (permspec2func depth v) := by
  induction depth generalizing v with
  | zero => exact Eff.moves_throw keepsConfig_refl
  | succ depth ih =>
    have hargs (args : Nat) (f : Func) : Eff.Moves KeepsConfig (do
        compileArgs (permspec2func depth) args
        return f) :=
      Eff.moves_bind keepsConfig_trans (keepsConfig_compileArgs ih args) fun _ =>
        Eff.moves_pure keepsConfig_refl
    have hpure (f : Func) : Eff.Moves KeepsConfig (pure f) := Eff.moves_pure keepsConfig_refl
    have hthrow (e : String) : Eff.Moves KeepsConfig (throw e : Eff World Func) :=
      Eff.moves_throw keepsConfig_refl
    unfold permspec2func
    refine Eff.moves_bind keepsConfig_trans (keepsConfig_asTable v) fun args => ?_
    refine Eff.moves_bind keepsConfig_trans (Eff.moves_get keepsConfig_refl) fun w => ?_
    split
    · exact Eff.moves_ite (hpure _) (Eff.moves_ite (hpure _) (Eff.moves_ite (hpure _)
        (Eff.moves_ite (hargs _ _) (Eff.moves_ite (hargs _ _) (hthrow _)))))
    · exact hthrow _
    · exact hthrow _

/-- An action becomes a function, and those that are stay so. -/
theorem triple_loadAction (depth : Nat) (action : Bytes) (rest : List Bytes) (P : Bytes → Prop) :
    Eff.Triple (fun w => (∀ a ∈ action :: rest, a ∈ w.config) ∧ ∀ a, P a → Compiled w a)
      (loadAction depth action)
      (fun _ w => (∀ a ∈ rest, a ∈ w.config) ∧ ∀ a, a = action ∨ P a → Compiled w a)
      fun _ => True := by
  refine Eff.triple_get_bind fun w ⟨hmem, hdone⟩ => ?_
  obtain ⟨perms, hperms⟩ :=
    Option.isSome_iff_exists.mp (AList.lookup_isSome.mpr (hmem action List.mem_cons_self))
  rw [hperms]
  refine Eff.triple_bind (Q := fun _ t => KeepsConfig w t) ?_ fun f => ?_
  · exact Eff.triple_conseq (keepsConfig_permspec2func depth perms w) (fun _ h => h)
      (fun _ _ h => h) fun _ _ => trivial
  · refine Eff.triple_modify fun t ht => ⟨fun a ha => ?_, fun a ha => ?_⟩
    · rw [ht, AList.mem_insert]
      exact Or.inr (hmem a (List.mem_cons_of_mem _ ha))
    · rw [Compiled, Table.lookup_insert]
      split
      · exact ⟨f, rfl⟩
      · rw [ht]
        exact hdone a (ha.resolve_left ‹_›)

/-- The loop over the actions makes each of them a function. -/
theorem triple_load (depth : Nat) (actions : List Bytes) (P : Bytes → Prop) :
    Eff.Triple (fun w => (∀ a ∈ actions, a ∈ w.config) ∧ ∀ a, P a → Compiled w a)
      (load depth actions) (fun _ w => ∀ a, a ∈ actions ∨ P a → Compiled w a) fun _ => True := by
  induction actions generalizing P with
  | nil => exact Eff.triple_pure fun w h a ha => h.2 a (by simpa using ha)
  | cons action actions ih =>
    refine Eff.triple_bind (triple_loadAction depth action actions P) fun _ => ?_
    refine Eff.triple_conseq (ih fun a => a = action ∨ P a) (fun _ h => h) (fun _ w h a ha => ?_)
      fun _ h => h
    exact h a (by simpa [or_assoc, or_left_comm] using ha)

theorem load_compiles (h : load depth actions w = .ok ⟨⟩ t) (hactions : ∀ a ∈ actions, a ∈ w.config) :
    ∀ a ∈ actions, Compiled t a := by
  have hloaded := triple_load depth actions (fun _ => False) w ⟨hactions, fun _ => False.elim⟩
  rw [h] at hloaded
  exact fun a ha => hloaded a (Or.inl ha)

/-- A function is no permission spec. -/
theorem permspec2func_func (depth : Nat) (f : Func) (w : World) :
    ∃ e t, permspec2func depth (.func f) w = .error e t := by
  cases depth with
  | zero => exact ⟨_, _, rfl⟩
  | succ depth =>
    have hnew : asTable (.func f) w = .ok w.heap.length { w with heap := w.heap ++ [[.func f]] } := rfl
    have hread : ({ w with heap := w.heap ++ [[.func f]] } : World).args w.heap.length =
        [.func f] := by simp [World.args]
    refine ⟨"no such permission type: function", { w with heap := w.heap ++ [[.func f]] }, ?_⟩
    rw [permspec2func, Eff.bind_of_ok hnew, Eff.get_bind_eq, hread]
    rfl

/-- Loading fails at the first action that is a function. -/
theorem load_compiled (depth : Nat) (rest : List Bytes) (h : Compiled w action) :
    ∃ e t, load depth (action :: rest) w = .error e t := by
  obtain ⟨f, hf⟩ := h
  obtain ⟨e, t, hfail⟩ := permspec2func_func depth f w
  refine ⟨e, t, ?_⟩
  have hone : loadAction depth action w = .error e t := by
    rw [loadAction, Eff.get_bind_eq, hf]
    simp only [Eff.bind_of_error hfail]
  show (loadAction depth action >>= fun _ => load depth rest) w = _
  simp only [Eff.bind_of_error hone]

/-- A configuration that loads once loads again, with the same checks, only if it has no action. -/
theorem reloads_iff (strmatch : Bytes → Bytes → Option Bool) (depth : Nat)
    (horder : actions.Perm w.config.keys) (hload : load depth actions w = .ok ⟨⟩ t) :
    Reloads strmatch depth t ↔ w.config.keys = [] := by
  constructor
  · intro hreloads
    by_contra hsome
    obtain ⟨action, haction⟩ := List.exists_mem_of_ne_nil _ hsome
    have hcompiled : Compiled t action :=
      load_compiles hload (fun a ha => AList.mem_keys.mpr (horder.mem_iff.mp ha)) action
        (horder.mem_iff.mpr haction)
    have hkey : action ∈ t.config.keys := by
      obtain ⟨f, hf⟩ := hcompiled
      rw [← AList.mem_keys, ← AList.lookup_isSome, hf]
      rfl
    obtain ⟨u, hu, -⟩ := hreloads [action :: t.config.keys.erase action] fun order horder => by
      obtain rfl := List.mem_singleton.mp horder
      exact (List.perm_cons_erase hkey).symm
    obtain ⟨e, v, hfail⟩ := load_compiled depth (t.config.keys.erase action) hcompiled
    have hone : [action :: t.config.keys.erase action].forM (load depth) t = .error e v := by
      show (load depth _ >>= fun _ => ([] : List (List Bytes)).forM (load depth)) t = _
      simp only [Eff.bind_of_error hfail]
    rw [hone] at hu
    cases hu
  · intro hnone
    rw [hnone] at horder
    obtain rfl := horder.eq_nil
    obtain rfl : w = t := by
      injection hload
    intro orders horders
    refine ⟨w, ?_, fun _ _ _ => rfl⟩
    induction orders with
    | nil => rfl
    | cons order orders ih =>
      have hempty := horders order List.mem_cons_self
      rw [hnone] at hempty
      obtain rfl := hempty.eq_nil
      exact ih fun order horder => horders order (List.mem_cons_of_mem _ horder)

/-- `kick = {'or_', 'op', 'halfop'}` -/
def kickConfig : World :=
  ⟨[[.str "or_", .str "op", .str "halfop"]], Table.set id ∅ "kick" (.table 0)⟩

/-- Without actions there is nothing to compile, and one action is enough to make the next load
fail. -/
theorem reloads_empty :
    Reloads (fun str pattern => some (str == pattern)) 200 ⟨[], ∅⟩ ∧
      ∃ t, load 200 ["kick"] kickConfig = .ok ⟨⟩ t ∧ Compiled t "kick" ∧
        ¬ Reloads (fun str pattern => some (str == pattern)) 200 t := by
  refine ⟨(@reloads_iff ⟨[], ∅⟩ ⟨[], ∅⟩ [] (fun str pattern => some (str == pattern)) 200
    (List.Perm.refl _) rfl).mpr rfl, ?_⟩
  have hkeys : kickConfig.config.keys = [lit "kick"] := rfl
  obtain ⟨t, hload⟩ : ∃ t, load 200 ["kick"] kickConfig = .ok ⟨⟩ t := ⟨_, rfl⟩
  have hcompiled : Compiled t "kick" :=
    load_compiles hload (fun a ha => AList.mem_keys.mpr (hkeys ▸ ha)) "kick" List.mem_cons_self
  refine ⟨t, hload, hcompiled, fun hreloads => ?_⟩
  have hnone := (reloads_iff _ 200 (hkeys ▸ List.Perm.refl _) hload).mp hreloads
  rw [hkeys] at hnone
  cases hnone

/-- It loads once, and then never again. -/
theorem reload_fails : ∃ t, load 200 ["kick"] kickConfig = .ok ⟨⟩ t ∧
    ∀ strmatch, ¬ Reloads strmatch 200 t := by
  refine ⟨_, rfl, fun strmatch hreloads => ?_⟩
  obtain ⟨u, hu, -⟩ := hreloads [["kick"]] fun order horder => by
    obtain rfl := List.mem_singleton.mp horder
    exact List.Perm.refl _
  cases hu

end TuxBot.Plugins.Perms
