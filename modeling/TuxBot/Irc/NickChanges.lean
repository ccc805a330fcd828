import TuxBot.Irc.ClientReconnects

/-! How a Client tells of changes of its nick. -/
namespace TuxBot.Irc

open TuxBot.Lua TuxBot.Lua.Eff TuxBot.Machine

variable {env : Env} {w u v : World} {s t : ClientLoop} {i : ClientInput} {nick : Bytes} {now : ℚ}
  {inputs : List ClientInput} {str line : Bytes}

/-- The `nickchanged` events, each as the new and the old nick. -/
def nickchanges (events : List ClientEvent) : List (Bytes × Bytes) :=
  events.filterMap fun
    | .nickchanged new old => some (new, old)
    | _ => none

/-- Changes that lead from one nick to another, each from where the one before it ended. -/
inductive Renames : Bytes → List (Bytes × Bytes) → Bytes → Prop
  | done (nick : Bytes) : Renames nick [] nick
  | change {old new last : Bytes} {changes : List (Bytes × Bytes)} : Renames new changes last →
      Renames old ((new, old) :: changes) last

theorem Renames.trans {a b c : Bytes} {changes changes' : List (Bytes × Bytes)}
    (h : Renames a changes b) (h' : Renames b changes' c) : Renames a (changes ++ changes') c := by
  induction h with
  | done => exact h'
  | change _ ih => exact .change (ih h')

/-- Between `w` and `u` the events tell every change of the nick. -/
def Told (w u : World) : Prop := ∃ changes,
  nickchanges u.events = nickchanges w.events ++ changes ∧
    Renames w.session.nick changes u.session.nick

theorem told_same (hnick : u.session.nick = w.session.nick)
    (hevents : nickchanges u.events = nickchanges w.events) : Told w u := by
  refine ⟨[], by rw [hevents, List.append_nil], ?_⟩
  rw [hnick]
  exact .done _

theorem told_refl (w : World) : Told w w := told_same rfl rfl

theorem told_trans (w u v : World) (h : Told w u) (h' : Told u v) : Told w v := by
  obtain ⟨changes, hevents, hrenames⟩ := h
  obtain ⟨changes', hevents', hrenames'⟩ := h'
  exact ⟨changes ++ changes', by rw [hevents', hevents, List.append_assoc],
    hrenames.trans hrenames'⟩

theorem told_then {α β : Type} {m : Eff World α} {k : α → Eff World β} (hm : Moves Told m)
    (hk : ∀ a, Moves Told (k a)) : Moves Told (m >>= k) := moves_bind told_trans hm hk

theorem told_get {α : Type} {k : World → Eff World α} (hk : ∀ w, Moves Told (k w)) :
    Moves Told (get >>= k) := told_then (moves_get told_refl) hk

theorem told_pure {α : Type} {a : α} : Moves Told (pure a : Eff World α) := moves_pure told_refl

theorem told_throw {α : Type} {e : String} : Moves Told (throw e : Eff World α) :=
  moves_throw told_refl

/-- What touches neither the nick nor the events. -/
theorem told_modify {f : World → World}
    (h : ∀ w, (f w).session.nick = w.session.nick ∧ (f w).events = w.events) :
    Moves Told (modify f : Eff World PUnit) :=
  moves_modify fun w => told_same (h w).1 (congrArg nickchanges (h w).2)

/-- The callbacks write no nick: none of them calls `set_nick` with a valid nick while the Client is
neither `connected` nor `registering`. -/
def Env.KeepsNick (env : Env) : Prop := ∀ event w,
  (env.callback event w).session.nick = w.session.nick ∧
    nickchanges (env.callback event w).events = nickchanges w.events

theorem keepsNick_silent : Env.silent.KeepsNick := fun _ _ => ⟨rfl, rfl⟩

/-! ### What tells of no change -/

theorem told_addWritableHandler (w : World) : Told w w.addWritableHandler := by
  unfold World.addWritableHandler
  split <;> exact told_same rfl rfl

theorem transmits_told : Transmits Told where
  refl := told_refl
  trans := told_trans
  passed w str := by
    unfold World.pass
    split <;> exact told_same rfl rfl
  kept w unsent := told_trans w { w with sendbuf := some unsent } _ (told_same rfl rfl)
    (told_addWritableHandler { w with sendbuf := some unsent })
  accepted _ _ _ _ := told_same rfl rfl
  cleared _ := told_same rfl rfl

theorem told_updateConnstate {f : ConnState → ConnState} :
    Moves Told (Client.updateConnstate f) := by
  refine told_get fun w => ?_
  cases w.connstate with
  | none => exact told_throw
  | some c => exact told_modify fun _ => ⟨rfl, rfl⟩

theorem onIsupport_nick (s : Session) (args : List Bytes) : (s.onIsupport args).nick = s.nick := by
  unfold Session.onIsupport
  generalize Pattern.gmatch tokenPattern _ = ms
  induction ms generalizing s with
  | nil => rfl
  | cons m ms ih =>
    rw [List.foldl_cons, ih]
    split
    · unfold Session.onToken
      repeat' split
      all_goals rfl
    · rfl

/-- An event that is no change of the nick. -/
def Unnamed (event : ClientEvent) : Prop := ∀ new old, event ≠ .nickchanged new old

section Told

variable (hcalls : env.KeepsNick)
include hcalls

theorem told_trigger {event : ClientEvent} (h : Unnamed event) :
    Moves Told (Client.trigger env event) := by
  refine moves_modify fun w => told_same (hcalls event _).1 ((hcalls event _).2.trans ?_)
  cases event with
  | nickchanged new old => exact absurd rfl (h new old)
  | _ => simp [nickchanges]

/-- `changeNick` is the only function that writes the nick of a Client that can send, and tells of it
once. -/
theorem changeNick_eq (nick : Bytes) (w : World) :
    ∃ u : World, Client.changeNick env nick w = .ok ⟨⟩ { u with session := { u.session with nick } } ∧
      u.session.nick = w.session.nick ∧
      nickchanges u.events = nickchanges w.events ++ [(nick, w.session.nick)] := by
  refine ⟨env.callback (.nickchanged nick w.session.nick)
    { w with events := w.events ++ [.nickchanged nick w.session.nick] }, rfl, (hcalls _ _).1, ?_⟩
  rw [(hcalls _ _).2]
  simp [nickchanges]

theorem told_changeNick {nick : Bytes} : Moves Told (Client.changeNick env nick) := by
  rintro _ w rfl
  obtain ⟨u, hchange, -, hevents⟩ := changeNick_eq hcalls nick w
  rw [hchange]
  exact ⟨[(nick, w.session.nick)], hevents, .change (.done nick)⟩

theorem told_sendmessageline : Moves Told (Client.sendmessageline env line) := by
  refine told_get fun w => moves_ite ?_ told_throw
  exact told_then (told_trigger hcalls nofun) fun _ => transmits_told.send

theorem told_sendmessage {cmd : Bytes} {args : List (Option Bytes)} :
    Moves Told (Client.sendmessage env cmd args) := told_sendmessageline hcalls

theorem told_sendctcpreply {target : Option Bytes} {cmd : Bytes} {arg : Option Bytes} :
    Moves Told (Client.sendctcpreply env target cmd arg) :=
  told_then (told_sendmessage hcalls) fun _ => told_get fun _ => told_trigger hcalls nofun

theorem traced_told : Traced env Told where
  refl := told_refl
  trans := told_trans
  same _ _ hnick hevents _ _ _ _ _ _ := told_same hnick (congrArg nickchanges hevents)
  removed w := of_removeHandlers (P := Told w) fun _ _ => told_same rfl rfl
  watched := told_addWritableHandler
  opened w _ := of_addHandlers (P := Told w) fun _ _ => told_same rfl rfl
  closed _ := told_same rfl rfl
  statechanged _ _ _ := told_trigger hcalls nofun
  sendmessage _ _ := told_sendmessage hcalls
  sendQuit _ := told_get fun _ => moves_ite (told_then (told_trigger hcalls nofun) fun _ =>
    told_then transmits_told.connSend fun _ => told_pure) told_pure

/-! ### Reading -/

theorem told_onWelcome {msg : Message} {nick : Bytes} :
    Moves Told (Client.onWelcome env msg nick) := by
  have htraced := traced_told hcalls
  refine told_then htraced.cancelTimer fun _ => ?_
  refine told_then (told_modify fun _ => ⟨rfl, rfl⟩) fun _ => ?_
  refine told_then (told_get fun _ => moves_ite told_pure (told_changeNick hcalls)) fun _ => ?_
  refine told_then (moves_forM told_refl told_trans (fun line => told_sendmessageline hcalls) _)
    fun _ => ?_
  refine told_then htraced.enter fun _ => told_then (told_trigger hcalls nofun) fun _ => ?_
  refine told_then ?_ fun _ => htraced.ping
  cases msg.sender.host with
  | none => exact told_pure
  | some host => exact told_then told_updateConnstate fun _ => told_trigger hcalls nofun

theorem told_onPong {time : Bytes} : Moves Told (Client.onPong env time) := by
  refine told_get fun w => moves_ite ?_ told_pure
  cases w.pingtime with
  | none => exact told_throw
  | some pingtime =>
    refine told_then told_updateConnstate fun _ => told_then (told_trigger hcalls nofun) fun _ => ?_
    exact told_then (traced_told hcalls).cancelTimer fun _ => (traced_told hcalls).arm

theorem told_onMode {change : Bytes} : Moves Told (Client.onMode env change) := by
  refine told_then told_updateConnstate fun _ => told_get fun w => ?_
  cases w.connstate with
  | none => exact told_throw
  | some c => exact told_trigger hcalls nofun

theorem told_onCtcp {msg : Message} : Moves Told (Client.onCtcp env msg) := by
  refine told_get fun w => ?_
  split
  · cases ctcpReply env.info.texts (env.date w) _ _ with
    | none => exact told_pure
    | some reply => exact told_sendctcpreply hcalls
  · exact told_throw

theorem told_onMessage {msg : Message} : Moves Told (Client.onMessage env msg) := by
  refine told_get fun w => moves_ite ?_ (moves_ite ?_ (moves_ite ?_ (moves_ite ?_ (moves_ite ?_
    (moves_ite ?_ (moves_ite ?_ (moves_ite (told_onCtcp hcalls) told_pure)))))))
  · cases msg.args with
    | nil => exact told_pure
    | cons nick args => exact moves_ite (told_onWelcome hcalls) told_pure
  · exact moves_ite (told_modify fun w => ⟨onIsupport_nick w.session msg.args, rfl⟩) told_pure
  · split
    · exact told_onPong hcalls
    · exact told_pure
  · split
    · exact moves_ite (told_onMode hcalls) told_pure
    · exact told_pure
  · exact moves_ite (told_sendmessage hcalls) told_pure
  · split
    · exact moves_ite (told_changeNick hcalls) told_pure
    · exact told_pure
  · split
    · exact moves_ite (told_modify fun _ => ⟨rfl, rfl⟩) told_pure
    · exact told_pure

theorem told_handleLine : Moves Told (Client.handleLine env line) := by
  refine told_get fun w => ?_
  split
  · refine told_then (told_trigger hcalls nofun) fun _ => ?_
    exact told_then (told_onMessage hcalls) fun _ => told_trigger hcalls nofun
  · exact told_pure

theorem told_readLines (n : Nat) : Moves Told (Client.readLines env n) := by
  induction n with
  | zero => exact told_pure
  | succ n ih =>
    refine told_get fun w => ?_
    split
    · exact told_pure
    · refine told_then (told_modify fun _ => ⟨rfl, rfl⟩) fun _ => ?_
      exact told_then (told_handleLine hcalls) fun _ => ih

end Told

/-! ### Runs -/

/-- A valid nick is set while the Client can send no NICK. -/
def SetsNickOffline (s : ClientLoop) (i : ClientInput) : Prop :=
  ∃ nick, i = .setNick nick ∧ isnick nick = true ∧ Idle s.world

/-- The steps that are about nicks and connections do not raise: `set_nick` with a valid nick, what a
registering or connected Client receives, and the timers that end or make a connection. -/
def Returns (env : Env) (s : ClientLoop) : ClientInput → Prop
  | .setNick nick => isnick nick = true → ∃ u, Client.setNick env nick s.world = .ok ⟨⟩ u
  | .readable _ received => s.Up → ∃ u, Client.onReadable env received s.world = .ok true u
  | .fire j => ∀ timer, s.world.loop.timers.due s.world.now j = some timer → timer ≠ .ping →
      ∃ u, Client.onTimer env timer s.world = .ok ⟨⟩ u
  | _ => True

/-- An offline `set_nick` writes the nick, tells nobody and raises. -/
theorem setNick_offline (hnick : isnick nick = true) (hidle : Idle w) :
    Client.setNick env nick w = .error "bad argument #1 to 'pairs' (table expected, got nil)"
      { w with session := { w.session with nick } } := by
  rw [Client.setNick, get_bind_eq, if_neg hidle, if_pos hnick]
  rfl

/-- What `set_nick` does otherwise changes no nick. -/
theorem told_setNick (hcalls : env.KeepsNick) (h : isnick nick = true → ¬ Idle w) :
    Triple (· = w) (Client.setNick env nick) (fun _ => Told w) (Told w) := by
  refine triple_get_bind fun v hv => ?_
  subst hv
  refine triple_ite (fun _ => told_sendmessage hcalls v) fun hidle => ?_
  exact triple_ite (fun hnick => absurd hidle (h hnick)) fun _ => told_pure v

/-- Between the steps: the phases, the timers, and their callbacks while `reconnecting`. -/
structure Settled (env : Env) (s : ClientLoop) : Prop where
  steady : SteadyTimed env s
  patient : Patient s.world

section Runs

variable (hcalls : env.Harmless)
include hcalls

theorem settled_step (h : Settled env s) (hstep : s.step env i = some t) : Settled env t :=
  ⟨steadyTimed_step hcalls h.steady hstep, patient_step hcalls h.steady h.patient hstep⟩

theorem returns_of_online (hinterval : env.timings.initialReconnectionInterval.isSome)
    (h : Settled env s) (honline : ¬ SetsNickOffline s i) : Returns env s i := by
  cases i with
  | setNick nick =>
    intro hnick
    have hup : s.world.session.state = .connected ∨ s.world.session.state = .registering := by
      by_contra hidle
      exact honline ⟨nick, rfl, hnick, hidle⟩
    have hkeeps : KeepsLive env False 0 (Client.setNick env nick) := keepsLive_setNick hcalls
    obtain ⟨_, u, hreturn, -⟩ := triple_returns hkeeps (h.steady.1.phase.live_of_state hup)
    exact ⟨u, hreturn⟩
  | readable key received =>
    intro hup
    have hkeep : Triple (Live env False 0) (Client.onReadable env received)
        (fun keep _ => keep = true) fun _ => False := onReadable_returns hcalls hinterval
    obtain ⟨_, u, hreturn, rfl⟩ := triple_returns hkeep (live_of_up h.steady.1 hup)
    exact ⟨u, hreturn⟩
  | fire j => exact fun timer => onTimer_returns hcalls hinterval h.steady h.patient
  | _ => trivial

omit hcalls in
/-- Every step but an offline `set_nick` tells of what it does to the nick. -/
theorem told_step (hnick : env.KeepsNick) (honline : ¬ SetsNickOffline s i)
    (hstep : s.step env i = some t) : Told s.world t.world := by
  have htraced := traced_told hnick
  have hkept : ∀ {u v : World} (_ : Told s.world u), v.session = u.session → v.events = u.events →
      Told s.world v := fun h hsession hevents =>
    told_trans _ _ _ h (told_same (by rw [hsession]) (by rw [hevents]))
  cases i with
  | select readable writable =>
    cases hstep
    exact told_refl _
  | readable key received =>
    obtain ⟨-, ⟨⟩⟩ := Option.ite_none_right_eq_some.mp hstep
    exact hkept (moves_pcall (htraced.onReadable (told_readLines hnick) received) _) rfl rfl
  | writable key =>
    obtain ⟨-, ⟨⟩⟩ := Option.ite_none_right_eq_some.mp hstep
    exact hkept (moves_pcall (htraced.onWritable transmits_told.flush) _) rfl rfl
  | fire j =>
    obtain ⟨timer, -, rfl⟩ := Option.map_eq_some_iff.mp hstep
    exact hkept (moves_pcall (htraced.onTimer timer) _) rfl rfl
  | wait seconds =>
    obtain ⟨-, ⟨⟩⟩ := Option.ite_none_right_eq_some.mp hstep
    exact hkept (told_refl _) rfl rfl
  | connect =>
    cases hstep
    exact moves_pcall htraced.connect _
  | disconnect arg =>
    cases hstep
    exact moves_pcall htraced.disconnect _
  | setNick nick =>
    cases hstep
    exact triple_after (told_setNick hnick fun hvalid hidle => honline ⟨nick, rfl, hvalid, hidle⟩) rfl
  | sendmessageline line =>
    cases hstep
    exact moves_pcall (told_sendmessageline hnick) _
  | send str =>
    obtain ⟨-, ⟨⟩⟩ := Option.ite_none_right_eq_some.mp hstep
    exact moves_pcall transmits_told.send _

end Runs

/-- What a step has to do about the nick: it does not raise, and it tells of every change. -/
def Reports (env : Env) (s : ClientLoop) (i : ClientInput) : Prop :=
  Returns env s i ∧ ∀ t, s.step env i = some t → Told s.world t.world

/-- Along every run, the steps about nicks and connections return and every change of the nick is told
by one `nickchanged` event with the new and the old nick, exactly when nobody sets a valid nick while
the Client is neither `connected` nor `registering`; then the events lead from the first nick to the
one `get_nick` returns. -/
theorem nick_changes_told (hcalls : env.Harmless) (hnick : env.KeepsNick)
    (hinterval : env.timings.initialReconnectionInterval.isSome)
    (hrun : run (ClientLoop.step env) (.new nick now) inputs = some s) :
    (Along (ClientLoop.step env) (Reports env) (.new nick now) inputs ↔
      Along (ClientLoop.step env) (fun s i => ¬ SetsNickOffline s i) (.new nick now) inputs) ∧
    (Along (ClientLoop.step env) (fun s i => ¬ SetsNickOffline s i) (.new nick now) inputs →
      Renames nick (nickchanges s.world.events) s.world.session.nick) := by
  constructor
  · refine along_congr (I := Settled env) (fun s i t h _ => ⟨?_, fun honline => ?_⟩)
      (fun _ _ _ h hstep => settled_step hcalls h hstep)
      ⟨steadyTimed_new nick now, patient_of_ne nofun⟩ hrun
    · rintro ⟨hreturns, -⟩ ⟨nick, rfl, hvalid, hidle⟩
      obtain ⟨u, hreturn⟩ := hreturns hvalid
      cases (setNick_offline hvalid hidle).symm.trans hreturn
    · exact ⟨returns_of_online hcalls hinterval h honline,
        fun u hu => told_step hnick honline hu⟩
  · intro honline
    have htold : Told (ClientLoop.new nick now).world s.world :=
      run_keeps_along (I := fun u => Told (ClientLoop.new nick now).world u.world)
        (fun u j v hu hj hstep => told_trans _ _ _ hu (told_step hnick hj hstep)) (told_refl _)
        honline hrun
    obtain ⟨changes, hevents, hrenames⟩ := htold
    rw [show nickchanges s.world.events = changes from hevents]
    exact hrenames

/-- A welcome to another nick than the one that was asked for, and a rename by the server. -/
theorem nick_changes_told_renamed : ∃ s, run (ClientLoop.step .silent) (.new "tux" 0) [.connect,
      .select [] [0], .writable 1, .select [0] [],
      .readable 0 (.short "timeout" ":s 001 fox :hi\r\n:FOX!u@h NICK cat\r\n")] = some s ∧
    s.world.session.nick = lit "cat" ∧
    Renames "tux" (nickchanges s.world.events) s.world.session.nick := by
  obtain ⟨s, hrun, hnick⟩ := Option.map_eq_some_iff.mp
    (by decide +kernel : (run (ClientLoop.step .silent) (.new "tux" 0) [.connect, .select [] [0],
      .writable 1, .select [0] [], .readable 0 (.short "timeout"
        ":s 001 fox :hi\r\n:FOX!u@h NICK cat\r\n")]).map (fun s => s.world.session.nick) =
      some (lit "cat"))
  refine ⟨s, hrun, hnick, (nick_changes_told harmless_silent keepsNick_silent rfl hrun).2 ?_⟩
  apply along_of_forall
  rintro i hi u ⟨nick, rfl, -, -⟩
  simp at hi

/-- A new nick for a Client that was never connected. -/
theorem setNick_offline_raises :
    ¬ Along (ClientLoop.step .silent) (Reports .silent) (.new "tux" 0) [.setNick "fox"] := by
  intro h
  have hidle : Idle (ClientLoop.new "tux" 0).world := by
    unfold Idle
    decide
  obtain ⟨u, hreturn⟩ := h.1.1 (by decide)
  cases (setNick_offline (by decide) hidle).symm.trans hreturn

end TuxBot.Irc
