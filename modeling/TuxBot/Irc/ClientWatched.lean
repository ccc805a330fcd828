import TuxBot.Irc.ClientDisconnected

/-! A connection, and every attempt at one, is watched by one timer. -/
namespace TuxBot.Irc

open TuxBot.Lua TuxBot.Lua.Eff TuxBot.Machine

variable {env : Env} {w u : World} {s t : ClientLoop} {i : ClientInput} {nick : Bytes} {now : ℚ}
  {inputs : List ClientInput} {P : World → Prop} {j : Nat}

/-- The states with a connection or on the way to one. -/
def Busy (state : ClientState) : Prop :=
  state = .connecting ∨ state = .sslhandshake ∨ state = .registering ∨ state = .connected

/-- While the Client is busy `_timer` is live. A timer for the next PING needs a Client that can
send. -/
def Watched (w : World) : Prop :=
  Busy w.session.state → ∃ i t, w.timer = some i ∧ w.loop.timers.live i = some t ∧
    (t.callback = .ping → w.session.state = .connected ∨ w.session.state = .registering)

theorem watched_of_same (h : Watched w) (hstate : u.session.state = w.session.state)
    (htimer : u.timer = w.timer) (htimers : u.loop.timers = w.loop.timers) : Watched u := by
  unfold Watched
  rw [hstate, htimer, htimers]
  exact h

theorem watched_of_idle (h : ¬ Busy w.session.state) : Watched w := fun hbusy => absurd hbusy h

theorem off_not_busy (h : Off w) : ¬ Busy w.session.state := by
  rintro (hs | hs | hs | hs) <;> rcases h.state with h | h <;> cases hs.symm.trans h

theorem watched_of_off (h : Off w) : Watched w := watched_of_idle (off_not_busy h)

theorem watched_receptive : Receptive Watched where
  passes w u hpasses h := watched_of_same h (state_of_core hpasses.core)
    (congrArg (fun w => w.timer) hpasses.core) (timers_of_core hpasses.core)
  recvbuf _ _ h := h
  connstate _ _ h := h
  isupport _ _ h := watched_of_same h (by simp) rfl rfl
  quit _ h := h
  pingtime _ _ h := h
  connected _ _ h := h

theorem live_timer_arm (timeout : ℚ) (callback : ClientTimer) :
    (w.arm timeout callback).loop.timers.live w.loop.timers.length =
      some ⟨w.now + timeout, true, true, callback⟩ :=
  Timers.live_timer.trans (if_pos rfl)

/-- A timeout of the connection may be armed at any time. -/
theorem watched_arm {timeout : ℚ} {callback : ClientTimer} (hcallback : callback ≠ .ping) :
    Triple P (Client.arm timeout callback) (fun _ => Watched) fun _ => True :=
  triple_modify fun _ _ _ =>
    ⟨_, _, rfl, live_timer_arm timeout callback, fun hping => absurd hping hcallback⟩

/-- Whatever comes before, arming a timeout in the end is enough. -/
theorem watched_then_arm {α : Type} {m : Eff World α} {timeout : ℚ} {callback : ClientTimer}
    (hcallback : callback ≠ .ping) : Triple P (m >>= fun _ => Client.arm timeout callback)
      (fun _ => Watched) fun _ => True :=
  triple_bind triple_true fun _ => watched_arm hcallback

theorem watched_ping : Triple P (Client.ping env) (fun _ => Watched) fun _ => True := by
  refine triple_bind triple_true fun _ => triple_bind triple_true fun _ => ?_
  exact triple_get_bind fun w _ => watched_then_arm nofun

theorem watched_onWelcome {msg : Message} {nick : Bytes} :
    Triple P (Client.onWelcome env msg nick) (fun _ => Watched) fun _ => True := by
  refine triple_bind triple_true fun _ => triple_bind triple_true fun _ => ?_
  refine triple_bind triple_true fun _ => triple_bind triple_true fun _ => ?_
  refine triple_bind triple_true fun _ => triple_bind triple_true fun _ => ?_
  exact triple_bind triple_true fun _ => watched_ping

theorem watched_reconnect {reason : Bytes} :
    Triple P (Client.reconnect env reason) (fun _ => Watched) fun _ => True := by
  refine triple_bind triple_true fun _ => triple_bind triple_true fun _ => ?_
  refine triple_bind triple_true fun _ => triple_bind triple_true fun _ => ?_
  refine triple_bind triple_true fun _ => triple_get_bind fun w _ => ?_
  refine triple_bind triple_true fun _ => triple_get_bind fun w _ => ?_
  cases w.reconnecttime with
  | none => exact triple_throw fun _ _ => trivial
  | some interval => exact watched_arm nofun

theorem watched_connect :
    Triple P (Client.connect env) (fun _ => Watched) fun _ => True := by
  refine triple_get_bind fun w _ => triple_ite (fun _ => ?_) fun _ => triple_throw fun _ _ => trivial
  refine triple_bind triple_true fun _ => triple_bind triple_true fun _ => ?_
  refine triple_bind triple_true fun _ => triple_bind triple_true fun _ => ?_
  exact watched_then_arm nofun

theorem watched_onSslHandshakeDone :
    Triple P (Client.onSslHandshakeDone env) (fun _ => Watched) fun _ => True := by
  refine triple_bind triple_true fun _ => triple_bind triple_true fun _ => ?_
  refine triple_bind triple_true fun _ => triple_bind triple_true fun _ => ?_
  refine triple_bind triple_true fun _ => triple_get_bind fun w _ => ?_
  exact watched_then_arm nofun

/-- A handshake that goes on leaves the timer alone. -/
theorem watched_doSslHandshake :
    Triple Watched (Client.doSslHandshake env) (fun _ => Watched) fun _ => True := by
  refine triple_get_bind fun w h => triple_at ?_ h
  cases w.conn with
  | none => exact triple_throw fun _ _ => trivial
  | some conn =>
    refine triple_bind (Q := fun _ => Watched) (triple_modify fun u hu => hu) fun _ => ?_
    cases env.dohandshake w with
    | none => exact watched_onSslHandshakeDone
    | some err =>
      refine triple_ite (fun _ => triple_pure fun _ h => h) fun _ => triple_ite (fun _ => ?_)
        fun _ => triple_ite (fun _ => watched_reconnect) fun _ => watched_reconnect
      exact triple_modify fun u hu => watched_receptive.passes u _
        ⟨core_addWritableHandler u, grows_addWritableHandler u⟩ hu

theorem watched_onSocketConnected :
    Triple P (Client.onSocketConnected env) (fun _ => Watched) fun _ => True := by
  refine triple_bind triple_true fun _ => triple_ite (fun _ => ?_)
    fun _ => watched_onSslHandshakeDone
  refine triple_bind triple_true fun _ => triple_bind triple_true fun _ => ?_
  refine triple_bind triple_true fun _ => triple_bind (watched_arm nofun) fun _ => ?_
  exact watched_doSslHandshake

section Harmless

variable (hcalls : env.Harmless)
include hcalls

/-- A PONG that counts arms the next PING of a `connected` Client. -/
theorem watched_onPong {time : Bytes} :
    Triple Watched (Client.onPong env time) (fun _ => Watched) fun _ => True := by
  refine triple_get_bind fun w h => triple_ite (fun hpong => ?_) fun _ =>
    triple_pure fun u hu => hu ▸ h
  have hreceptive := watched_receptive.inState (· = .connected)
  refine triple_at (P := fun w => Watched w ∧ w.session.state = .connected) ?_ ⟨h, hpong.2⟩
  cases w.pingtime with
  | none => exact triple_throw fun _ _ => trivial
  | some pingtime =>
    refine triple_bind (triple_conseq hreceptive.updateConnstate (fun _ h => h) (fun _ _ h => h)
      fun _ _ => trivial) fun _ => ?_
    refine triple_bind (triple_conseq (hreceptive.passed (passes_trigger hcalls)) (fun _ h => h)
      (fun _ _ h => h) fun _ _ => trivial) fun _ => ?_
    refine triple_bind (Q := fun _ w => w.session.state = .connected) ?_ fun _ => ?_
    · refine triple_get_bind fun u hu => triple_at (P := fun w => w.session.state = .connected) ?_ hu.2
      cases u.timer with
      | none => exact triple_throw fun _ _ => trivial
      | some i => exact triple_modify fun v hv => hv
    · exact triple_modify fun u hu _ => ⟨_, _, rfl, live_timer_arm _ _, fun _ => Or.inl hu⟩

theorem watched_reads : Reads env Watched fun _ => True :=
  watched_receptive.reads_of hcalls (fun _ _ => trivial) (fun _ _ => watched_onWelcome)
    fun _ => watched_onPong hcalls

/-- After our own QUIT the Client is disconnected, so the timer no longer matters. -/
theorem watched_onClosed : Triple P (Client.onClosed env) (fun _ => Watched) fun _ => True := by
  refine triple_get_bind fun w _ => triple_ite (fun _ => ?_) fun _ => watched_reconnect
  have hidle : Receptive fun u => True ∧ u.session.state = .disconnected :=
    Receptive.inState ⟨fun _ _ _ h => h, fun _ _ h => h, fun _ _ h => h, fun _ _ h => h,
      fun _ h => h, fun _ _ h => h, fun _ _ h => h⟩ (· = .disconnected)
  refine triple_bind (Q := fun _ u => True ∧ u.session.state = .disconnected)
    (triple_modify fun u _ => ⟨trivial, rfl⟩) fun _ => ?_
  refine triple_bind (triple_conseq (hidle.passed (passes_trigger hcalls)) (fun _ h => h)
    (fun _ _ h => h) fun _ _ => trivial) fun _ => triple_modify fun u hu => ?_
  have hstate : u.removeHandlers.session.state = u.session.state :=
    of_removeHandlers (P := fun v => v.session.state = u.session.state) fun _ _ => rfl
  apply watched_of_idle
  rw [hstate, hu.2]
  rintro (hs | hs | hs | hs) <;> cases hs

theorem watched_onReceived {received : Received} :
    Triple Watched (Client.onReceived env received) (fun _ => Watched) fun _ => True := by
  refine triple_get_bind fun w h => triple_at ?_ h
  cases w.conn with
  | none => exact triple_throw fun _ _ => trivial
  | some conn =>
    cases w.recvbuf with
    | none => exact triple_throw fun _ _ => trivial
    | some buf =>
      refine triple_bind (Q := fun _ => Watched) (triple_modify fun u hu => hu) fun _ => ?_
      refine triple_bind ((watched_reads hcalls).readLines _) fun _ => ?_
      exact triple_ite (fun _ => watched_onClosed hcalls) fun _ => triple_pure fun _ h => h

omit hcalls in
theorem watched_onReady {up : Eff World Unit}
    (hup : Triple Watched up (fun _ => Watched) fun _ => True) :
    Triple Watched (Client.onReady env up) (fun _ => Watched) fun _ => True := by
  refine triple_get_bind fun w h => ?_
  split
  · exact watched_onSocketConnected
  · exact triple_at watched_doSslHandshake h
  · exact triple_at hup h

/-! ### Calls of the event loop -/

theorem watched_onReadable (received : Received) :
    Triple (fun w => (Phase env 0 w ∧ Bounded w) ∧ Watched w) (Client.onReadable env received)
      (fun _ => Watched) Watched := by
  refine triple_conseq (triple_and (phase_onReadable hcalls) (triple_bind
    (watched_onReady (watched_onReceived hcalls)) fun _ => triple_pure fun _ h => h))
    (fun _ h => h) (fun _ _ h => h.2) fun _ h => watched_of_off h.1

theorem watched_onWritable :
    Triple (fun w => (Phase env 0 w ∧ 0 ≤ w.loop.nextKey ∧ Bounded w) ∧ Watched w)
      (Client.onWritable env) (fun _ => Watched) Watched := by
  have hflush : Triple Watched (Client.flush env) (fun _ => Watched) fun _ => True :=
    triple_conseq (watched_receptive.passed passes_flush) (fun _ h => h) (fun _ _ h => h)
      fun _ _ => trivial
  refine triple_conseq (triple_and (phase_onWritable hcalls) (triple_bind
    (watched_onReady hflush) fun _ => triple_pure fun _ h => h))
    (fun _ h => h) (fun _ _ h => h.2) fun _ h => watched_of_off h.1

/-- A call of `connect` in the wrong state raises before it has done anything. -/
theorem watched_connect_call :
    Triple (fun w => (Phase env 0 w ∧ Bounded w) ∧ Watched w) (Client.connect env)
      (fun _ => Watched) Watched := by
  rintro w ⟨⟨hphase, hbounded⟩, hwatched⟩
  by_cases hstate : w.session.state = .disconnected ∨ w.session.state = .reconnecting
  · exact triple_conseq (triple_and (dialing_connect hcalls) (watched_connect (P := Watched)))
      (fun _ h => h) (fun _ _ h => h.2) (fun _ h => h.1.elim) w
      ⟨⟨hphase.off_of_state hstate, hbounded⟩, hwatched⟩
  · suffices h : Triple (· = w) (Client.connect env) (fun _ => Watched) Watched from h w rfl
    refine triple_get_bind fun u hu => ?_
    subst hu
    rw [if_neg hstate]
    exact triple_throw fun v hv => hv ▸ hwatched

/-! ### Timers that run out -/

omit hcalls in
/-- A timer that was made and will not call back. -/
abbrev Over (j : Nat) (w : World) : Prop :=
  j < w.loop.timers.length ∧ w.loop.timers.live j = none

omit hcalls in
theorem over_receptive (j : Nat) : Receptive (Over j) where
  passes w u hpasses h := by
    unfold Over
    rw [timers_of_core hpasses.core]
    exact h
  recvbuf _ _ h := h
  connstate _ _ h := h
  isupport _ _ h := h
  quit _ h := h
  pingtime _ _ h := h
  connected _ _ h := h

omit hcalls in
theorem over_cancelTimer : Triple (fun w => w.timer = some j ∧ j < w.loop.timers.length)
    Client.cancelTimer (fun _ => Over j) fun _ => False := by
  refine triple_get_bind fun w h => ?_
  rw [h.1]
  refine triple_modify fun u hu => ?_
  subst hu
  refine ⟨?_, Timers.live_cancel.trans (if_pos rfl)⟩
  show j < (u.loop.timers.cancel j).length
  rw [Timers.length_cancel]
  exact h.2

omit hcalls in
theorem over_arm {timeout : ℚ} {callback : ClientTimer} {E : World → Prop} :
    Triple (Over j) (Client.arm timeout callback) (fun _ => Over j) E := by
  refine triple_modify fun w h => ?_
  have hlive : (w.arm timeout callback).loop.timers.live j = none :=
    Timers.live_timer.trans ((if_neg h.1.ne).trans h.2)
  refine ⟨?_, hlive⟩
  show j < (w.loop.timers.timer (w.now + timeout) callback).length
  rw [Timers.length_timer]
  exact Nat.lt_succ_of_lt h.1

/-- `ping` ends with a timer of its own. -/
theorem over_ping : Triple (fun w => w.timer = some j ∧ j < w.loop.timers.length)
    (Client.ping env) (fun _ => Over j) fun _ => True := by
  refine triple_bind (triple_conseq over_cancelTimer (fun _ h => h) (fun _ _ h => h)
    fun _ _ => trivial) fun _ => ?_
  refine triple_bind (Q := fun _ => Over j) (triple_modify fun u hu => hu) fun _ => ?_
  refine triple_get_bind fun w h => triple_at ?_ h
  refine triple_bind (triple_conseq ((over_receptive j).passed (passes_sendmessage hcalls))
    (fun _ h => h) (fun _ _ h => h) fun _ _ => trivial) fun _ => over_arm

/-- So does `connect`. -/
theorem over_connect : Triple (fun w => w.timer = some j ∧ j < w.loop.timers.length)
    (Client.connect env) (fun _ => Over j) fun _ => True := by
  refine triple_get_bind fun w h =>
    triple_at (P := fun w => w.timer = some j ∧ j < w.loop.timers.length) ?_ h
  refine triple_ite (fun _ => ?_) fun _ => triple_throw fun _ _ => trivial
  refine triple_bind (Q := fun _ w => w.timer = some j ∧ j < w.loop.timers.length)
    (triple_modify fun u hu => hu) fun _ => ?_
  refine triple_bind (Q := fun _ => Over j) ?_ fun _ => ?_
  · refine triple_get_bind fun u hu => triple_ite (fun _ => ?_) fun hnone => ?_
    · exact triple_at (triple_conseq over_cancelTimer (fun _ h => h) (fun _ _ h => h)
        fun _ _ => trivial) hu
    · exact absurd (by simp [hu.1]) hnone
  refine triple_bind (Q := fun _ => Over j) (triple_modify fun u hu => hu) fun _ => ?_
  refine triple_bind (Q := fun _ => Over j) (triple_modify fun u hu => hu) fun _ => ?_
  refine triple_bind (triple_conseq ((over_receptive j).passed (passes_trigger hcalls))
    (fun _ h => h) (fun _ _ h => h) fun _ _ => trivial) fun _ => over_arm

omit hcalls in
/-- A timer that is over may leave the table. -/
theorem watched_expire (h : Watched w) (hover : ¬ Busy w.session.state ∨ Over j w) :
    Watched { w with loop := { w.loop with timers := w.loop.timers.expire j } } := by
  intro hbusy
  obtain ⟨i, t, htimer, hlive, hping⟩ := h hbusy
  have hne : i ≠ j := by
    rintro rfl
    rcases hover with hidle | hover
    · exact hidle hbusy
    · cases hover.2.symm.trans hlive
  exact ⟨i, t, htimer, Timers.live_expire.trans ((if_neg hne).trans hlive), hping⟩

/-- What holds once a due timer has called back. -/
theorem watched_onTimer {timer : ClientTimer} (h : SteadyTimed env s) (hwatched : Watched s.world)
    (hdue : s.world.loop.timers.due s.world.now j = some timer) :
    let u := ((Client.onTimer env timer).pcall s.world).2
    Watched u ∧ (¬ Busy u.session.state ∨ Over j u) := by
  obtain ⟨t, hlive, -, rfl⟩ := Timers.live_of_due hdue
  have htimer := h.2.known j t hlive
  have hlength := Timers.lt_length_of_live hlive
  have hoff : ∀ {v : World}, Off v → Watched v ∧ (¬ Busy v.session.state ∨ Over j v) :=
    fun hv => ⟨watched_of_off hv, Or.inl (off_not_busy hv)⟩
  cases hcallback : t.callback with
  | reconnect reason =>
    have hreconnect : Triple LinkedOrOff (Client.onTimer env (.reconnect reason)) (fun _ => Off)
      Off := off_reconnect hcalls
    exact hoff (triple_after hreconnect h.1.phase.linkedOrOff)
  | connect =>
    have hstate := h.2.connect j t hlive hcallback
    have hconnect : Triple (fun w => (Off w ∧ Bounded w) ∧ w.timer = some j ∧
        j < w.loop.timers.length) (Client.onTimer env .connect) (fun _ w => Watched w ∧
        (¬ Busy w.session.state ∨ Over j w)) fun w => Watched w ∧
        (¬ Busy w.session.state ∨ Over j w) :=
      triple_conseq (triple_and (dialing_connect hcalls)
        (triple_and watched_connect (over_connect hcalls))) (fun _ h => ⟨h.1, h.2, h.2⟩)
        (fun _ _ h => ⟨h.2.1, Or.inr h.2.2⟩) fun _ h => h.1.elim
    exact triple_after hconnect ⟨⟨h.1.phase.off_of_state (Or.inr hstate), h.1.bounded⟩, htimer,
      hlength⟩
  | ping =>
    by_cases hbusy : Busy s.world.session.state
    · obtain ⟨i, r, hi, hr, hup⟩ := hwatched hbusy
      obtain rfl : i = j := Option.some.inj (hi.symm.trans htimer)
      obtain rfl := Option.some.inj (hr.symm.trans hlive)
      have hping : Triple (fun w => Live env True 0 w ∧ w.timer = some i ∧
          i < w.loop.timers.length) (Client.onTimer env .ping) (fun _ w => Watched w ∧
          (¬ Busy w.session.state ∨ Over i w)) fun w => Watched w ∧
          (¬ Busy w.session.state ∨ Over i w) :=
        triple_conseq (triple_and (keepsLive_ping hcalls)
          (triple_and watched_ping (over_ping hcalls))) (fun _ h => ⟨h.1, h.2, h.2⟩)
          (fun _ _ h => ⟨h.2.1, Or.inr h.2.2⟩) fun _ h => h.1.elim
      exact triple_after hping ⟨live_due (h.1.phase.live_of_state (hup hcallback)), htimer, hlength⟩
    · have hs : Off s.world := by
        rcases h.1.phase with hs | hs | hs
        · exact hs
        · rcases hs.state with hs | hs
          · exact absurd (Or.inl hs) hbusy
          · exact absurd (Or.inr (Or.inl hs)) hbusy
        · rcases hs.state with hs | hs
          · exact absurd (Or.inr (Or.inr (Or.inr hs))) hbusy
          · exact absurd (Or.inr (Or.inr (Or.inl hs))) hbusy
      exact hoff (triple_after (off_ping hcalls) hs)

/-! ### Steps and runs -/

theorem watched_step (h : SteadyTimed env s) (hwatched : Watched s.world)
    (hstep : s.step env i = some t) : Watched t.world := by
  have hphase := h.1.phase
  have hbounded := h.1.bounded
  refine step_rule hcalls hstep (fun _ => hwatched) (fun u _ hloop hu => ?_) (fun received => ?_) ?_
    (fun j timer _ hdue => ?_) (fun _ => ?_) (fun _ _ => ?_) fun m hm => ?_
  · exact watched_of_same hu rfl rfl hloop
  · exact triple_after (watched_onReadable hcalls received) ⟨⟨hphase, hbounded⟩, hwatched⟩
  · exact triple_after (watched_onWritable hcalls) ⟨⟨hphase, Nat.zero_le _, hbounded⟩, hwatched⟩
  · obtain ⟨hfired, hover⟩ := watched_onTimer hcalls h hwatched hdue
    exact watched_expire hfired hover
  · exact triple_after (watched_connect_call hcalls) ⟨⟨hphase, hbounded⟩, hwatched⟩
  · exact watched_of_off (triple_after (off_disconnect hcalls) hphase)
  · exact triple_after (watched_receptive.passed hm) hwatched

end Harmless

/-- Whenever control is in the event loop and the Client is connected or on the way, exactly one of
its timers is live, and it is `_timer`. -/
theorem one_timeout (hcalls : env.Harmless)
    (hrun : run (ClientLoop.step env) (.new nick now) inputs = some t)
    (hbusy : Busy t.world.session.state) : ∃ i r, t.world.timer = some i ∧
      t.world.loop.timers.live i = some r ∧
      ∀ j r', t.world.loop.timers.live j = some r' → j = i := by
  have hnew : SteadyTimed env (.new nick now) ∧ Watched (ClientLoop.new nick now).world :=
    ⟨steadyTimed_new nick now, watched_of_idle fun hs => by
      rcases hs with hs | hs | hs | hs <;> cases hs⟩
  obtain ⟨hsteady, hwatched⟩ := run_keeps (I := fun s => SteadyTimed env s ∧ Watched s.world)
    (fun _ _ _ h hstep => ⟨steadyTimed_step hcalls h.1 hstep, watched_step hcalls h.1 h.2 hstep⟩)
    hnew hrun
  obtain ⟨i, r, htimer, hlive, -⟩ := hwatched hbusy
  refine ⟨i, r, htimer, hlive, fun j r' hj => ?_⟩
  exact Option.some.inj ((hsteady.2.known j r' hj).symm.trans htimer)

/-- After the welcome one timer is left of the three that were made. -/
theorem one_timeout_connected : ∃ t, run (ClientLoop.step .silent) (.new "tux" 0) [.connect,
    .select [] [0], .writable 1, .select [0] [],
    .readable 0 (.short "timeout" ":s 001 tux :hi\r\n")] = some t ∧
    t.world.loop.timers.length = 3 ∧ ∃ i r, t.world.timer = some i ∧
      t.world.loop.timers.live i = some r ∧
      ∀ j r', t.world.loop.timers.live j = some r' → j = i := by
  obtain ⟨t, hrun, ht⟩ := Option.map_eq_some_iff.mp
    (by decide +kernel : (run (ClientLoop.step .silent) (.new "tux" 0) [.connect, .select [] [0],
      .writable 1, .select [0] [], .readable 0 (.short "timeout" ":s 001 tux :hi\r\n")]).map
        (fun t => (t.world.loop.timers.length, t.world.session.state)) = some (3, .connected))
  obtain ⟨hlength, hstate⟩ := Prod.mk.inj ht
  exact ⟨t, hrun, hlength, one_timeout harmless_silent hrun (by simp [Busy, hstate])⟩

end TuxBot.Irc
