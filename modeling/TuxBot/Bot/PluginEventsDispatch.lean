import Mathlib.Data.List.Perm.Basic
import TuxBot.Bot.PluginEvents

/-! When every function that plugins registered for an event is called once. -/
namespace TuxBot.Bot.PluginEvents

open TuxBot.Lua TuxBot.Lua.Eff TuxBot.Irc

variable {env : Env} {s t u : World} {event : Event} {key : Bytes} {args : List Value} {f : Nat}
  {fs : List Nat} {plugins : List Plugin} {msg : Message}

/-! ### The functions that are called -/

/-- The functions that are registered outside lists. -/
def singles (plugins : List Plugin) (key : Bytes) : List Nat :=
  plugins.filterMap fun v =>
    match v.eventHandlers.lookup key with
    | some (.func f) => some f
    | _ => none

/-- No plugin has a list with a function in it. -/
def Unlisted (plugins : List Plugin) (key : Bytes) : Prop :=
  ∀ v ∈ plugins, ∀ fs, v.eventHandlers.lookup key = some (.list fs) → fs = []

theorem length_singles_le (plugins : List Plugin) :
    (singles plugins key).length ≤ (registered plugins key).length := by
  induction plugins with
  | nil => exact le_rfl
  | cons v plugins ih =>
    unfold singles registered at ih ⊢
    cases hv : v.eventHandlers.lookup key with
    | none => simpa [hv] using ih
    | some handler =>
      cases handler with
      | func f => simpa [hv, Handler.functions] using ih
      | list fs =>
        simp only [List.filterMap_cons, List.flatMap_cons, hv, Option.map_some, Option.getD_some,
          Handler.functions, List.length_append]
        exact ih.trans (Nat.le_add_left _ _)

/-- Lists are what the two differ in. -/
theorem singles_eq (h : Unlisted plugins key) : singles plugins key = registered plugins key := by
  induction plugins with
  | nil => rfl
  | cons v plugins ih =>
    have hrest := ih fun v hv => h v (List.mem_cons_of_mem _ hv)
    have hv := h v List.mem_cons_self
    unfold singles registered at hrest ⊢
    rw [List.filterMap_cons, List.flatMap_cons, ← hrest]
    cases hhandler : v.eventHandlers.lookup key with
    | none => simp
    | some handler =>
      cases handler with
      | func f => simp [Handler.functions]
      | list fs => simp [Handler.functions, hv fs hhandler]

theorem unlisted_of_length (h : (registered plugins key).length ≤ (singles plugins key).length) :
    Unlisted plugins key := by
  induction plugins with
  | nil => exact fun v hv => by cases hv
  | cons v plugins ih =>
    have hle : (singles plugins key).length ≤ _ := length_singles_le plugins
    unfold singles registered at h ih hle
    rw [List.filterMap_cons, List.flatMap_cons, List.length_append] at h
    rw [Unlisted, List.forall_mem_cons]
    cases hhandler : v.eventHandlers.lookup key with
    | none => exact ⟨by simp, ih (by simpa [hhandler] using h)⟩
    | some handler =>
      cases handler with
      | func f =>
        rw [hhandler] at h
        refine ⟨by simp, ih ?_⟩
        simp only [Option.map_some, Option.getD_some, Handler.functions, List.length_cons,
          List.length_nil] at h
        omega
      | list fs =>
        rw [hhandler] at h
        simp only [Option.map_some, Option.getD_some, Handler.functions] at h
        refine ⟨?_, ih (by omega)⟩
        rintro fs' ⟨⟩
        exact List.length_eq_zero_iff.mp (by omega)

/-! ### The dispatch -/

/-- Calls were made, and nothing else the dispatch depends on has changed. -/
def World.record (s : World) (calls : List Call) : World := { s with calls := s.calls ++ calls }

theorem callReported_list : callReported env args (.list fs) s = .ok ⟨⟩ s := rfl

theorem callReported_func : callReported env args (.func f) s =
    (match env.behave f args s.calls with
      | .returned => pure ⟨⟩
      | .raised err => printError err : Eff World Unit) (s.record [(f, args)]) := by
  have hcall : call env args (.func f) s = (match env.behave f args s.calls with
      | .returned => pure none
      | .raised err => pure (some err) : Eff World (Option Value)) (s.record [(f, args)]) := rfl
  cases hf : env.behave f args s.calls with
  | returned =>
    rw [hf] at hcall
    exact bind_of_ok hcall
  | raised err =>
    rw [hf] at hcall
    exact bind_of_ok hcall

/-- A call whose error can be reported, if there is one. -/
theorem callReported_ok (h : ∀ err, env.behave f args s.calls = .raised err → err.formats = true) :
    callReported env args (.func f) s = .ok ⟨⟩ (s.record [(f, args)]) := by
  rw [callReported_func]
  cases hf : env.behave f args s.calls with
  | returned => rfl
  | raised err =>
    simp only [printError, h err hf, if_true]
    rfl

/-- The report of another error raises itself. -/
theorem callReported_error {err : Value} (hf : env.behave f args s.calls = .raised err)
    (herr : ¬ err.formats = true) :
    ∃ e, callReported env args (.func f) s = .error e (s.record [(f, args)]) := by
  simp only [callReported_func, hf, printError, herr]
  exact ⟨_, rfl⟩

/-- Lists are gone through without a call. -/
theorem forM_callReported_list {fs' : List Nat} :
    fs'.forM (fun _ => callReported env args (.list fs)) s = .ok ⟨⟩ s := by
  induction fs' with
  | nil => rfl
  | cons f fs' ih =>
    change (callReported env args (.list fs) >>= fun _ =>
      fs'.forM fun _ => callReported env args (.list fs)) s = _
    rw [bind_of_ok callReported_list, ih]

/-- Some first ones of the functions are called, and all of them exactly if what they raise can be
reported, the last one's error apart. -/
def Sends (env : Env) (key : Bytes) (args : List Value) (plugins : List Plugin) (s : World) : Prop :=
  ∃ n, ((plugins.forM (sendEventToPlugin env key args)).pcall s).2 =
      s.record (((singles plugins key).take n).map fun f => (f, args)) ∧
    ((singles plugins key).length ≤ n ↔ Reportable env args s.calls (singles plugins key))

/-- A plugin without a single function is passed over. -/
theorem sends_skip {v : Plugin} {plugins : List Plugin} {key : Bytes}
    (hv : sendEventToPlugin env key args v s = .ok ⟨⟩ s)
    (hsame : singles (v :: plugins) key = singles plugins key) (h : Sends env key args plugins s) :
    Sends env key args (v :: plugins) s := by
  obtain ⟨n, hn, hiff⟩ := h
  rw [Sends, hsame]
  refine ⟨n, ?_, hiff⟩
  rw [← hn]
  change ((sendEventToPlugin env key args v >>= fun _ =>
    plugins.forM (sendEventToPlugin env key args)).pcall s).2 = _
  rw [pcall, bind_of_ok hv]
  rfl

/-- The first function is called; if the report of its error raises, no other is. -/
theorem sends_func {v : Plugin} {plugins : List Plugin} {key : Bytes}
    (hv : v.eventHandlers.lookup key = some (.func f))
    (h : Sends env key args plugins (s.record [(f, args)])) :
    Sends env key args (v :: plugins) s := by
  have hsingles : singles (v :: plugins) key = f :: singles plugins key := by
    simp [singles, hv]
  have hrun : ((v :: plugins).forM (sendEventToPlugin env key args)) s =
      (callReported env args (.func f) >>= fun _ =>
        plugins.forM (sendEventToPlugin env key args)) s := by
    change (sendEventToPlugin env key args v >>= _) s = _
    simp only [sendEventToPlugin, hv]
  rw [Sends, hsingles, pcall, hrun]
  by_cases hformats : ∀ err, env.behave f args s.calls = .raised err → err.formats = true
  · obtain ⟨n, hn, hiff⟩ := h
    refine ⟨n + 1, ?_, ?_⟩
    · rw [bind_of_ok (callReported_ok hformats)]
      refine hn.trans ?_
      simp [World.record]
    · simp only [Reportable, List.length_cons, Nat.add_le_add_iff_right, hiff]
      exact ⟨fun h => ⟨Or.inr hformats, h⟩, fun h => h.2⟩
  · push Not at hformats
    obtain ⟨err, hf, herr⟩ := hformats
    obtain ⟨e, hraises⟩ := callReported_error hf herr
    refine ⟨1, ?_, ?_⟩
    · rw [bind_of_error hraises]
      rfl
    · simp only [Reportable, List.length_cons]
      constructor
      · intro hle
        have hnil : singles plugins key = [] := List.length_eq_zero_iff.mp (by omega)
        rw [hnil]
        exact ⟨Or.inl rfl, trivial⟩
      · rintro ⟨hnil | hall, -⟩
        · simp [hnil]
        · exact absurd (hall err hf) herr

theorem sent_plugins (env : Env) (key : Bytes) (args : List Value) (plugins : List Plugin)
    (s : World) : Sends env key args plugins s := by
  induction plugins generalizing s with
  | nil =>
    exact ⟨0, by simp [singles, World.record, pcall, pure, EStateM.pure],
      by simp [singles, Reportable]⟩
  | cons v plugins ih =>
    cases hv : v.eventHandlers.lookup key with
    | none =>
      exact sends_skip (by simp [sendEventToPlugin, hv, pure, EStateM.pure]) (by simp [singles, hv])
        (ih s)
    | some handler =>
      cases handler with
      | list fs =>
        refine sends_skip ?_ (by simp [singles, hv]) (ih s)
        simp only [sendEventToPlugin, hv]
        exact forM_callReported_list
      | func f => exact sends_func hv (ih (s.record [(f, args)]))

/-! ### The callbacks -/

/-- What the dispatch depends on has not changed. -/
def Same (s t : World) : Prop := t.plugins = s.plugins ∧ t.calls = s.calls

/-- The functions outside lists were called with `args`, all of them if the errors could be reported. -/
def Sent (env : Env) (s : World) (key : Bytes) (args : List Value) (t : World) : Prop :=
  ∃ n, t.calls = s.calls ++ ((singles s.plugins key).take n).map (fun f => (f, args)) ∧
    ((singles s.plugins key).length ≤ n ↔ Reportable env args s.calls (singles s.plugins key))

theorem triple_send (key : Bytes) (args : List Value) (h : Same s u) :
    Triple (· = u) (sendEventToPlugins env key args) (fun _ => Sent env s key args)
      (Sent env s key args) := by
  obtain ⟨hplugins, hcalls⟩ := h
  obtain ⟨n, hn, hiff⟩ := sent_plugins env key args u.plugins u
  rw [hplugins, hcalls] at hiff
  have hsent : Sent env s key args ((sendEventToPlugins env key args).pcall u).2 := by
    refine ⟨n, ?_, hiff⟩
    have hcalled : ((sendEventToPlugins env key args).pcall u).2 = _ := hn
    rw [hcalled, hplugins, World.record, hcalls]
  rintro r rfl
  unfold pcall at hsent
  cases hr : sendEventToPlugins env key args r with
  | ok a t => rwa [hr] at hsent
  | error e t => rwa [hr] at hsent

theorem triple_indexClient : Triple (· = s) indexClient (fun _ t => s.known = true ∧ t = s)
    fun t => ¬ s.known = true ∧ t = s := by
  refine triple_get_bind ?_
  rintro r rfl
  refine triple_ite (fun hknown => triple_pure ?_) fun hknown => triple_throw ?_
  · rintro t rfl
    exact ⟨hknown, rfl⟩
  · rintro t rfl
    exact ⟨hknown, rfl⟩

theorem triple_isignored : Triple (· = s) (isignored env msg)
    (fun ignored t => s.ignores env msg = some ignored ∧ t = s)
    fun t => s.ignores env msg = none ∧ t = s := by
  refine triple_get_bind ?_
  rintro r rfl
  cases hignored : r.ignores env msg with
  | none => exact triple_throw fun t ht => ⟨rfl, ht⟩
  | some ignored => exact triple_pure fun t ht => ⟨rfl, ht⟩

theorem triple_nickInUse : Triple (· = s) (nickInUse msg)
    (fun _ t => Same s t ∧ t.known = s.known ∧ t.net = s.net) fun _ => False := by
  refine triple_get_bind ?_
  rintro r rfl
  refine triple_ite (fun _ => ?_) fun _ => triple_pure ?_
  · rintro t rfl
    exact ⟨⟨rfl, rfl⟩, rfl, rfl⟩
  · rintro t rfl
    exact ⟨⟨rfl, rfl⟩, rfl, rfl⟩

theorem triple_queue (func : Queued) (interval : Option ℚ) : Triple (· = s) (queue func interval)
    (fun _ t => s.known = true ∧ Same s t) fun t => ¬ s.known = true ∧ Same s t := by
  refine triple_bind (triple_conseq triple_indexClient (fun _ h => h) (fun _ _ h => h) ?_) fun _ => ?_
  · rintro t ⟨hknown, rfl⟩
    exact ⟨hknown, rfl, rfl⟩
  · refine triple_modify ?_
    rintro t ⟨hknown, rfl⟩
    exact ⟨hknown, rfl, rfl⟩

theorem triple_processPrefixedCommand (line : Bytes) :
    Triple (· = s) (processPrefixedCommand msg line)
      (fun _ t => (commandName line = [] ∨ s.known = true ∧
        ∀ f, s.command (lower (commandName line)) ≠ some (.func f)) ∧ Same s t)
      fun t => ¬ (commandName line = [] ∨ s.known = true ∧
        ∀ f, s.command (lower (commandName line)) ≠ some (.func f)) ∧ Same s t := by
  refine triple_get_bind ?_
  rintro r rfl
  refine triple_ite (fun hempty => triple_pure ?_) fun hname => ?_
  · rintro t rfl
    exact ⟨Or.inl hempty, rfl, rfl⟩
  · cases hcommand : r.command (lower (commandName line)) with
    | none =>
      refine triple_bind (triple_conseq triple_indexClient (fun _ h => h) (fun _ _ h => h) ?_)
        fun _ => ?_
      · rintro t ⟨hknown, rfl⟩
        exact ⟨by simp [hname, hknown], rfl, rfl⟩
      · refine triple_ite (fun _ => ?_) fun _ => triple_pure ?_
        · rintro t ⟨hknown, rfl⟩
          refine triple_conseq (triple_queue _ _) (fun _ h => h) ?_ ?_ t rfl
          · rintro _ u ⟨-, hsame⟩
            exact ⟨Or.inr ⟨hknown, by simp⟩, hsame⟩
          · rintro u ⟨hunknown, -⟩
            exact absurd hknown hunknown
        · rintro t ⟨hknown, rfl⟩
          exact ⟨Or.inr ⟨hknown, by simp⟩, rfl, rfl⟩
    | some command =>
      cases command with
      | func f =>
        refine triple_throw ?_
        rintro t rfl
        exact ⟨by simp [hname], rfl, rfl⟩
      | table f mininterval =>
        refine triple_conseq (triple_queue _ _) (fun _ h => h) ?_ ?_
        · rintro _ t ⟨hknown, hsame⟩
          exact ⟨Or.inr ⟨hknown, by simp⟩, hsame⟩
        · rintro t ⟨hunknown, hsame⟩
          exact ⟨by simp [hname, hunknown], hsame⟩

theorem triple_processCommands {ignored : Bool} (hignored : s.ignores env msg = some ignored) :
    Triple (· = s) (processCommands env msg ignored) (fun _ t => CommandTaken env s msg ∧ Same s t)
      fun t => ¬ CommandTaken env s msg ∧ Same s t := by
  have hkeep : ∀ {P : Prop} (_ : P), Triple (· = s) (pure ⟨⟩ : Eff World Unit) (fun _ t => P ∧ Same s t)
      fun t => ¬ P ∧ Same s t := by
    intro P hp
    refine triple_pure ?_
    rintro t rfl
    exact ⟨hp, rfl, rfl⟩
  refine triple_get_bind ?_
  rintro r rfl
  unfold CommandTaken
  refine triple_ite (fun hcommand => ?_) fun hnone => hkeep ?_
  rotate_left
  · intro hcmd hsome
    exact absurd (And.intro hcmd (Option.some.inj (hignored.symm.trans hsome))) hnone
  obtain ⟨hcmd, rfl⟩ := hcommand
  simp only [hcmd, hignored, true_implies]
  split
  · rename_i chan text _ hargs
    cases hprefix : afterPrefix env text (r.prefixes chan) with
    | none =>
      refine triple_throw ?_
      rintro t rfl
      exact ⟨id, rfl, rfl⟩
    | some found =>
      cases found with
      | none => exact hkeep trivial
      | some line => exact triple_processPrefixedCommand line
  · exact hkeep trivial

/-- The event was forwarded, or no function was called. -/
def Ends (env : Env) (s : World) (event : Event) (t : World) : Prop :=
  (Forwarded env s event ∧ Sent env s event.key (event.args env s) t) ∨
    (¬ Forwarded env s event ∧ t.calls = s.calls)

theorem ends_of_sent {key : Bytes} {args : List Value} (hforwarded : Forwarded env s event)
    (hkey : event.key = key) (hargs : event.args env s = args) (h : Same s u) :
    Triple (· = u) (sendEventToPlugins env key args) (fun _ => Ends env s event)
      (Ends env s event) := by
  subst hkey hargs
  exact triple_conseq (triple_send _ _ h) (fun _ h => h)
    (fun _ t ht => Or.inl ⟨hforwarded, ht⟩) fun t ht => Or.inl ⟨hforwarded, ht⟩

/-- A message that is forwarded with whether its sender is ignored. -/
theorem ends_of_ignored {key : Bytes} {self : Value} {ignored : Bool}
    (hforwarded : Forwarded env s event) (hkey : event.key = key)
    (hargs : event.args env s = [self, .message msg, .boolean ((s.ignores env msg).getD false)])
    (hignored : s.ignores env msg = some ignored) (h : Same s u) :
    Triple (· = u) (sendEventToPlugins env key [self, .message msg, .boolean ignored])
      (fun _ => Ends env s event) (Ends env s event) := by
  refine ends_of_sent hforwarded hkey ?_ h
  rw [hargs, hignored, Option.getD_some]

/-- What comes after the dispatch calls no function. -/
theorem ends_congr (hcalls : t.calls = u.calls) (h : Ends env s event u) : Ends env s event t := by
  unfold Ends Sent at h ⊢
  rwa [hcalls]

theorem ends_trackerReceivedmessage (tracker : Value) (msg : Message) :
    Triple (· = s) (callback env (.trackerReceivedmessage tracker msg))
      (fun _ => Ends env s (.trackerReceivedmessage tracker msg))
      (Ends env s (.trackerReceivedmessage tracker msg)) := by
  refine triple_bind (triple_conseq triple_nickInUse (fun _ h => h) (fun _ _ h => h)
    fun _ h => h.elim) fun _ => ?_
  rintro u ⟨hsame, hknown, hnet⟩
  have hignores : u.ignores env msg = s.ignores env msg := by rw [World.ignores, hnet]; rfl
  refine triple_bind (triple_conseq triple_indexClient (fun _ h => h) (fun _ _ h => h) ?_)
    (fun _ => ?_) u rfl
  · rintro t ⟨hunknown, rfl⟩
    refine Or.inr ⟨fun h => hunknown (hknown.trans h.1), hsame.2⟩
  rintro t ⟨hu, rfl⟩
  refine triple_bind (triple_conseq triple_isignored (fun _ h => h) (fun _ _ h => h) ?_)
    (fun ignored => ?_) t rfl
  · rintro r ⟨hnone, rfl⟩
    refine Or.inr ⟨fun h => ?_, hsame.2⟩
    have hsome := h.2
    rw [← hignores, hnone] at hsome
    cases hsome
  · rintro r ⟨hsome, rfl⟩
    rw [hignores] at hsome
    have hforwarded : Forwarded env s (.trackerReceivedmessage tracker msg) :=
      ⟨hknown.symm.trans hu, by simp [hsome]⟩
    exact ends_of_ignored hforwarded rfl rfl hsome hsame r rfl

theorem ends_receivedmessagePre (client : Value) (msg : Message) :
    Triple (· = s) (callback env (.receivedmessagePre client msg))
      (fun _ => Ends env s (.receivedmessagePre client msg))
      (Ends env s (.receivedmessagePre client msg)) := by
  refine triple_bind (triple_conseq triple_isignored (fun _ h => h) (fun _ _ h => h) ?_)
    fun ignored => ?_
  · rintro t ⟨hnone, rfl⟩
    exact Or.inr ⟨fun h => by simp [Forwarded, hnone] at h, rfl⟩
  · rintro t ⟨hsome, rfl⟩
    have hforwarded : Forwarded env t (.receivedmessagePre client msg) := by
      simp [Forwarded, hsome]
    exact ends_of_ignored hforwarded rfl rfl hsome ⟨rfl, rfl⟩ t rfl

theorem ends_receivedmessagePost (client : Value) (msg : Message) :
    Triple (· = s) (callback env (.receivedmessagePost client msg))
      (fun _ => Ends env s (.receivedmessagePost client msg))
      (Ends env s (.receivedmessagePost client msg)) := by
  refine triple_bind (triple_conseq triple_isignored (fun _ h => h) (fun _ _ h => h) ?_)
    fun ignored => ?_
  · rintro t ⟨hnone, rfl⟩
    exact Or.inr ⟨fun h => by simp [Forwarded, hnone] at h, rfl⟩
  rintro t ⟨hsome, rfl⟩
  refine triple_bind (triple_conseq (triple_processCommands hsome) (fun _ h => h)
    (fun _ _ h => h) ?_) (fun _ => ?_) t rfl
  · rintro r ⟨huntaken, hsame⟩
    exact Or.inr ⟨fun h => huntaken h.2, hsame.2⟩
  · rintro r ⟨htaken, hsame⟩
    have hforwarded : Forwarded env t (.receivedmessagePost client msg) := ⟨by simp [hsome], htaken⟩
    exact ends_of_ignored hforwarded rfl rfl hsome hsame r rfl

theorem ends_statechanged (client : Value) (state : Bytes) (more : List Value) :
    Triple (· = s) (callback env (.statechanged client state more))
      (fun _ => Ends env s (.statechanged client state more))
      (Ends env s (.statechanged client state more)) := by
  refine triple_bind (ends_of_sent trivial rfl rfl ⟨rfl, rfl⟩) fun _ => ?_
  refine triple_bind (triple_modify (Q := fun _ => Ends env s (.statechanged client state more))
    fun t ht => ends_congr rfl ht) fun _ => ?_
  intro u hu
  exact triple_conseq triple_indexClient (fun _ h => h) (fun _ t ht => ht.2 ▸ hu)
    (fun t ht => ht.2 ▸ hu) u rfl

theorem ends_callback (hother : ∀ client line time, event ≠ .sentmessage client line time) :
    Triple (· = s) (callback env event) (fun _ => Ends env s event) (Ends env s event) := by
  cases event with
  | trackerReceivedmessage tracker msg => exact ends_trackerReceivedmessage tracker msg
  | receivedmessagePre client msg => exact ends_receivedmessagePre client msg
  | receivedmessagePost client msg => exact ends_receivedmessagePost client msg
  | sentmessage client line time => exact absurd rfl (hother client line time)
  | statechanged client state more => exact ends_statechanged client state more
  | relayed event args => exact ends_of_sent trivial rfl rfl ⟨rfl, rfl⟩

/-- The callback of `sentmessage` calls functions with no message. -/
theorem sentmessage_args {client : Value} {line : Bytes} {time : Option ℚ} :
    ∃ n, (trigger env s (.sentmessage client line time)).calls = s.calls ++
      ((singles s.plugins "sentmessage").take n).map fun f => (f, [client, .nil]) := by
  have hcallback : Triple (· = s) (callback env (.sentmessage client line time))
      (fun _ => Sent env s "sentmessage" [client, .nil]) (Sent env s "sentmessage" [client, .nil]) := by
    refine triple_bind (triple_send "sentmessage" _ ⟨rfl, rfl⟩) fun _ => ?_
    intro u hu
    exact triple_conseq triple_indexClient (fun _ h => h) (fun _ t ht => ht.2 ▸ hu)
      (fun t ht => ht.2 ▸ hu) u rfl
  obtain ⟨n, hn, -⟩ := triple_after hcallback rfl
  exact ⟨n, hn⟩

/-! ### Every event -/

theorem dispatched_of_calls {calls : List Call} (h : (trigger env s event).calls = s.calls ++ calls) :
    Dispatched env s event ↔
      calls.Perm ((registered s.plugins event.key).map fun f => (f, event.args env s)) := by
  constructor
  · rintro ⟨calls', hcalls, hperm⟩
    obtain rfl := List.append_cancel_left (h.symm.trans hcalls)
    exact hperm
  · intro hperm
    exact ⟨calls, h, hperm⟩

theorem singles_nil (h : registered plugins key = []) : singles plugins key = [] := by
  have hle : (singles plugins key).length ≤ _ := length_singles_le plugins
  rw [h] at hle
  exact List.length_eq_zero_iff.mp (Nat.le_zero.mp hle)

/-- All functions were called exactly if none is in a list and all errors were reported. -/
theorem perm_iff {n : Nat} (hn : (singles s.plugins key).length ≤ n ↔
      Reportable env args s.calls (singles s.plugins key)) :
    (((singles s.plugins key).take n).map fun f => (f, args)).Perm
        ((registered s.plugins key).map fun f => (f, args)) ↔
      Unlisted s.plugins key ∧ Reportable env args s.calls (registered s.plugins key) := by
  constructor
  · intro hperm
    have hlength := hperm.length_eq
    have hle : (singles s.plugins key).length ≤ _ := length_singles_le s.plugins
    rw [List.length_map, List.length_map, List.length_take] at hlength
    have hall : (singles s.plugins key).length ≤ n := by omega
    have hunlisted : Unlisted s.plugins key := unlisted_of_length (by omega)
    rw [singles_eq hunlisted] at hn hall
    exact ⟨hunlisted, hn.mp hall⟩
  · rintro ⟨hunlisted, hreportable⟩
    rw [singles_eq hunlisted] at hn ⊢
    rw [List.take_of_length_le (hn.mpr hreportable)]

theorem ends_trigger (hother : ∀ client line time, event ≠ .sentmessage client line time) :
    Ends env s event (trigger env s event) := triple_after (ends_callback hother) rfl

theorem dispatched_of_nil (h : (trigger env s event).calls = s.calls) :
    Dispatched env s event ↔ registered s.plugins event.key = [] := by
  rw [dispatched_of_calls (h.trans (List.append_nil _).symm), List.nil_perm, List.map_eq_nil_iff]

theorem dispatched_other_iff (hother : ∀ client line time, event ≠ .sentmessage client line time) :
    Dispatched env s event ↔ Safe env s event := by
  have hends : Ends env s event (trigger env s event) := ends_trigger hother
  rw [Safe]
  by_cases hnone : registered s.plugins event.key = []
  · refine iff_of_true ((dispatched_of_nil ?_).mpr hnone) (Or.inl hnone)
    rcases hends with ⟨-, n, hn, -⟩ | ⟨-, hsame⟩
    · simpa [singles_nil hnone] using hn
    · exact hsame
  rw [or_iff_right hnone]
  rcases hends with ⟨hforwarded, n, hn, hiff⟩ | ⟨hlost, hsame⟩
  · rw [dispatched_of_calls hn, perm_iff hiff, and_iff_right hforwarded]
    rfl
  · exact iff_of_false (fun h => hnone ((dispatched_of_nil hsame).mp h)) fun h => hlost h.1

/-- Nobody gets what was sent. -/
theorem dispatched_sentmessage_iff {client : Value} {line : Bytes} {time : Option ℚ} :
    Dispatched env s (.sentmessage client line time) ↔
      registered s.plugins (lit "sentmessage") = [] := by
  obtain ⟨n, hn⟩ : ∃ n, (trigger env s (.sentmessage client line time)).calls = s.calls ++ _ :=
    sentmessage_args
  constructor
  · intro h
    have hperm := (dispatched_of_calls hn).mp h
    by_contra hsome
    obtain ⟨f, hf⟩ := List.exists_mem_of_ne_nil _ hsome
    have hmem : (f, client :: Value.str line :: (time.map Value.number).toList) ∈
        ((singles s.plugins "sentmessage").take n).map fun f => (f, [client, Value.nil]) :=
      hperm.mem_iff.mpr (List.mem_map_of_mem hf)
    obtain ⟨g, -, hg⟩ := List.mem_map.mp hmem
    cases hg
  · intro hnone
    refine (dispatched_of_nil ?_).mpr hnone
    simpa [singles_nil hnone] using hn

/-- Every registered function is called once with the arguments of an event exactly when nothing is
registered for it, or the event is forwarded as it was given, no function is in a list, and only the
last one raises what cannot be reported. -/
theorem dispatched_iff (env : Env) (s : World) (event : Event) :
    Dispatched env s event ↔ Safe env s event := by
  by_cases hsent : ∃ client line time, event = .sentmessage client line time
  · obtain ⟨client, line, time, rfl⟩ := hsent
    rw [dispatched_sentmessage_iff, Safe]
    exact (or_iff_left fun h => h.1).symm
  · push Not at hsent
    exact dispatched_other_iff hsent

/-- Functions that return, and no ignored senders or prefixes. -/
def quietEnv : Env := ⟨fun _ _ => some none, fun _ _ _ => .returned⟩

/-- A plugin that registered a list of two functions for `statechanged`, as the documentation lets it. -/
def listWorld : World where
  plugins := [⟨Table.ofPairs [("statechanged", .list [0, 1])], ∅⟩]
  commandPrefixes := ["!"]
  maxQueueSize := 40
  net := ⟨none, ∅, none⟩
  known := true
  queueLength := 0
  session := ⟨.connected, "TuxBot", .rfc1459, .default⟩
  nickattempt := none
  nickattemptstate := none
  calls := []
  queued := []
  sent := []

/-- None of them is called. -/
theorem list_not_called : (trigger quietEnv listWorld (.statechanged (.table 0) "connected" [])).calls =
      [] ∧ ¬ Dispatched quietEnv listWorld (.statechanged (.table 0) "connected" []) := by
  have hcalls : (trigger quietEnv listWorld (.statechanged (.table 0) "connected" [])).calls =
      listWorld.calls := by
    decide +kernel
  refine ⟨hcalls, fun h => ?_⟩
  have hnone := (dispatched_of_nil hcalls).mp h
  exact absurd hnone (by decide +kernel)

end TuxBot.Bot.PluginEvents
