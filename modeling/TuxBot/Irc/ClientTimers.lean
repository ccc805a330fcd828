import TuxBot.Irc.ClientSteps

/-! The timers of a Client: every live one is `_timer`. -/
namespace TuxBot.Irc

open TuxBot.Lua TuxBot.Lua.Eff

variable {env : Env} {w u : World}

/-- No timer will call back. -/
def Quiet (w : World) : Prop := ∀ i, w.loop.timers.live i = none

/-- At most the timer the Client knows will call back: to connect only while it is `reconnecting`,
and not at all once it gave up its socket and is `disconnected`. -/
structure Timed (w : World) : Prop where
  known : ∀ i t, w.loop.timers.live i = some t → w.timer = some i
  connect : ∀ i t, w.loop.timers.live i = some t → t.callback = .connect →
    w.session.state = .reconnecting
  quiet : w.session.state = .disconnected → w.conn = none → Quiet w

theorem timed_of_quiet (h : Quiet w) : Timed w := by
  refine ⟨fun i t ht => ?_, fun i t ht => ?_, fun _ _ => h⟩
  · cases (h i).symm.trans ht
  · cases (h i).symm.trans ht

/-- What has no timers and its other data alike. -/
theorem timed_of_same (h : Timed w) (hstate : u.session.state = w.session.state)
    (hconn : u.conn = w.conn) (htimer : u.timer = w.timer)
    (htimers : u.loop.timers = w.loop.timers) : Timed u := by
  refine ⟨?_, ?_, ?_⟩
  · rw [htimers, htimer]
    exact h.known
  · rw [htimers, hstate]
    exact h.connect
  · unfold Quiet
    rw [htimers, hstate, hconn]
    exact h.quiet

theorem timers_of_core (h : u.core = w.core) : u.loop.timers = w.loop.timers :=
  congrArg (fun w => w.loop.timers) h

theorem state_of_core (h : u.core = w.core) : u.session.state = w.session.state :=
  congrArg (fun w => w.session.state) h

theorem timed_receptive : Receptive Timed where
  passes w u hpasses h := timed_of_same h (state_of_core hpasses.core)
    (congrArg (fun w => w.conn) hpasses.core) (congrArg (fun w => w.timer) hpasses.core)
    (timers_of_core hpasses.core)
  recvbuf _ _ h := timed_of_same h rfl rfl rfl rfl
  connstate _ _ h := timed_of_same h rfl rfl rfl rfl
  isupport _ _ h := timed_of_same h (by simp) rfl rfl rfl
  quit _ h := timed_of_same h rfl rfl rfl rfl
  pingtime _ _ h := timed_of_same h rfl rfl rfl rfl
  connected _ _ h := timed_of_same h rfl rfl rfl rfl

theorem quiet_receptive : Receptive Quiet where
  passes w u hpasses h := by
    unfold Quiet
    rw [timers_of_core hpasses.core]
    exact h
  recvbuf _ _ h := h
  connstate _ _ h := h
  isupport _ _ h := h
  quit _ h := h
  pingtime _ _ h := h
  connected _ _ h := h

/-- Without live timers, in a state of which `S` holds. -/
abbrev QuietIn (S : ClientState → Prop) (w : World) : Prop := Quiet w ∧ S w.session.state

/-- A state in which a timer may be armed. -/
abbrev Armable (w : World) : Prop := QuietIn (· ≠ .disconnected) w

theorem quiet_cancel {i : Nat} (h : Timed w) (hi : w.timer = some i) :
    Quiet { w with loop := w.loop.cancel i } := by
  intro j
  show Timers.live (w.loop.timers.cancel i) j = none
  rw [Timers.live_cancel]
  split
  · rfl
  · rename_i hne
    cases hlive : w.loop.timers.live j with
    | none => rfl
    | some t => exact absurd (Option.some.inj ((h.known j t hlive).symm.trans hi)) hne

/-- `_timer:cancel()` leaves no live timer. -/
theorem quietIn_cancelTimer {S : ClientState → Prop} :
    Triple (fun w => Timed w ∧ S w.session.state) Client.cancelTimer (fun _ => QuietIn S) Timed := by
  refine triple_get_bind fun w h => ?_
  cases hi : w.timer with
  | none => exact triple_throw fun u hu => hu ▸ h.1
  | some i => exact triple_modify fun u hu => hu ▸ ⟨quiet_cancel h.1 hi, h.2⟩

theorem quiet_cancelTimer : Triple Timed Client.cancelTimer (fun _ => Quiet) Timed :=
  triple_conseq (quietIn_cancelTimer (S := fun _ => True)) (fun _ h => ⟨h, trivial⟩)
    (fun _ _ h => h.1) fun _ h => h

theorem quiet_cancelTimerIfAny :
    Triple Timed Client.cancelTimerIfAny (fun _ => Quiet) Timed := by
  refine triple_get_bind fun w h => triple_ite (fun _ => ?_) fun hnone => ?_
  · exact triple_at quiet_cancelTimer h
  · refine triple_pure fun u hu => hu ▸ fun i => ?_
    cases hlive : w.loop.timers.live i with
    | none => rfl
    | some t => exact absurd (h.known i t hlive ▸ rfl) hnone

theorem callback_of_live {timeout : ℚ} {callback : ClientTimer} (h : Quiet w) {j : Nat}
    {t : Timer ClientTimer} (hlive : (w.arm timeout callback).loop.timers.live j = some t) :
    j = w.loop.timers.length ∧ t.callback = callback := by
  have hlive' : Timers.live (w.loop.timers.timer (w.now + timeout) callback) j = some t := hlive
  rw [Timers.live_timer] at hlive'
  split at hlive'
  · rename_i hj
    cases hlive'
    exact ⟨hj, rfl⟩
  · cases (h j).symm.trans hlive'

/-- The timer that is armed is the only one. -/
theorem timed_arm_of {timeout : ℚ} {callback : ClientTimer} (h : Armable w)
    (hconnect : callback = .connect → w.session.state = .reconnecting) :
    Timed (w.arm timeout callback) := by
  refine ⟨fun i t ht => ?_, fun i t ht hcallback => ?_, fun hstate => absurd hstate h.2⟩
  · rw [(callback_of_live h.1 ht).1]
    rfl
  · exact hconnect ((callback_of_live h.1 ht).2.symm.trans hcallback)

theorem timed_arm {timeout : ℚ} {callback : ClientTimer} {E : World → Prop}
    (hcallback : callback ≠ .connect) :
    Triple Armable (Client.arm timeout callback) (fun _ => Timed) E :=
  triple_modify fun _ h => timed_arm_of h fun heq => absurd heq hcallback

theorem quiet_enter {T : ClientState → Prop} {state : ClientState} {E : World → Prop}
    (hstate : T state) : Triple Quiet (Client.enter state) (fun _ => QuietIn T) E :=
  triple_modify fun _ h => ⟨h, hstate⟩

theorem quiet_removeHandlers (h : Quiet w) : Quiet w.removeHandlers := by
  refine of_removeHandlers fun loop hloop => ?_
  unfold Quiet
  rw [hloop]
  exact h

theorem quiet_closeConn : Triple Quiet Client.closeConn (fun _ => Quiet) Quiet := by
  refine triple_get_bind fun w h => triple_at ?_ h
  cases w.conn with
  | none => exact triple_throw fun _ h => h
  | some c => exact triple_modify fun u hu => hu

/-- What raises without a live timer is timed. -/
theorem timed_of_raise {α : Type} {P : World → Prop} {m : Eff World α} {Q : α → World → Prop}
    (h : Triple P m Q Quiet) : Triple P m Q Timed :=
  triple_conseq h (fun _ h => h) (fun _ _ h => h) fun _ => timed_of_quiet

section Harmless

variable (hcalls : env.Harmless)
include hcalls

omit hcalls in
theorem quiet_passes {α : Type} {S : ClientState → Prop} {m : Eff World α}
    (hm : Moves Passes m) : Triple (QuietIn S) m (fun _ => QuietIn S) Timed :=
  timed_of_raise (triple_conseq ((quiet_receptive.inState S).passed hm) (fun _ h => h)
    (fun _ _ h => h) fun _ h => h.1)

/-- A message that is sent shows that the Client is up. -/
theorem armable_sendmessage {cmd : Bytes} {args : List (Option Bytes)} :
    Triple Quiet (Client.sendmessage env cmd args) (fun _ => Armable) Timed := by
  refine triple_get_bind fun w h => triple_ite (fun hup => ?_) fun _ => ?_
  · have harmable : Armable w := by
      refine ⟨h, ?_⟩
      rcases hup with hs | hs
      · simp [hs]
      · simp [hs]
    refine triple_at (triple_bind (quiet_passes (passes_trigger hcalls)) fun _ => ?_) harmable
    exact quiet_passes passes_send
  · exact triple_throw fun u hu => hu ▸ timed_of_quiet h

theorem timed_ping : Triple Timed (Client.ping env) (fun _ => Timed) Timed := by
  refine triple_bind quiet_cancelTimer fun _ => ?_
  refine triple_bind (Q := fun _ => Quiet) (triple_modify fun u hu => hu) fun _ => ?_
  refine triple_get_bind fun w h => triple_at ?_ h
  exact triple_bind (armable_sendmessage hcalls) fun _ => timed_arm nofun

theorem timed_onWelcome {msg : Message} {nick : Bytes} :
    Triple Timed (Client.onWelcome env msg nick) (fun _ => Timed) Timed := by
  refine triple_bind quiet_cancelTimer fun _ => ?_
  refine triple_bind (Q := fun _ => Quiet) (triple_modify fun u hu => hu) fun _ => ?_
  refine triple_bind (timed_of_raise (quiet_receptive.passed (passes_adoptNick hcalls)))
    fun _ => ?_
  refine triple_bind (timed_of_raise (triple_forM (fun line =>
    quiet_receptive.passed (passes_sendmessageline hcalls)) _)) fun _ => ?_
  refine triple_bind (Q := fun _ => Timed) (triple_modify fun u hu => timed_of_quiet hu)
    fun _ => ?_
  refine triple_bind (timed_receptive.passed (passes_trigger hcalls)) fun _ => ?_
  exact triple_bind (timed_receptive.noteServeraddress hcalls) fun _ => timed_ping hcalls

/-- Only a `connected` Client answers a PONG, so it may arm the next PING. -/
theorem timed_onPong {time : Bytes} :
    Triple Timed (Client.onPong env time) (fun _ => Timed) Timed := by
  refine triple_get_bind fun w h => triple_ite (fun hpong => ?_) fun _ =>
    triple_pure fun u hu => hu ▸ h
  have hreceptive := timed_receptive.inState (· ≠ .disconnected)
  refine triple_at (P := fun w => Timed w ∧ w.session.state ≠ .disconnected) ?_
    ⟨h, by simp [hpong.2]⟩
  cases w.pingtime with
  | none => exact triple_throw fun _ h => h.1
  | some pingtime =>
    refine triple_bind (triple_conseq hreceptive.updateConnstate (fun _ h => h) (fun _ _ h => h)
      fun _ h => h.1) fun _ => ?_
    refine triple_bind (triple_conseq (hreceptive.passed (passes_trigger hcalls)) (fun _ h => h)
      (fun _ _ h => h) fun _ h => h.1) fun _ => ?_
    exact triple_bind (quietIn_cancelTimer (S := (· ≠ .disconnected))) fun _ => timed_arm nofun

theorem timed_readLines (m : Nat) :
    Triple Timed (Client.readLines env m) (fun _ => Timed) Timed := by
  refine Reads.readLines (timed_receptive.reads hcalls (fun msg nick => ?_) fun time => ?_) m
  · exact triple_conseq (timed_onWelcome hcalls) (fun _ h => h.1) (fun _ _ h => h) fun _ h => h
  · exact timed_onPong hcalls

theorem timed_reconnect {reason : Bytes} :
    Triple Timed (Client.reconnect env reason) (fun _ => Timed) Timed := by
  refine triple_bind quiet_cancelTimer fun _ => ?_
  refine triple_bind (Q := fun _ => Quiet) (triple_modify fun u => quiet_removeHandlers) fun _ => ?_
  refine triple_bind (timed_of_raise quiet_closeConn) fun _ => ?_
  refine triple_bind (Q := fun _ => Quiet) (triple_modify fun u hu => hu) fun _ => ?_
  refine triple_bind (quiet_enter (T := (· = .reconnecting)) rfl) fun _ => ?_
  refine triple_get_bind fun w h => triple_at (P := QuietIn (· = .reconnecting)) ?_ h
  refine triple_bind (quiet_passes (passes_trigger hcalls)) fun _ => ?_
  refine triple_get_bind fun w h => triple_at (P := QuietIn (· = .reconnecting)) ?_ h
  cases w.reconnecttime with
  | none => exact triple_throw fun _ h => timed_of_quiet h.1
  | some interval =>
    refine triple_modify fun u hu => timed_arm_of ⟨hu.1, ?_⟩ fun _ => hu.2
    simp [hu.2]

theorem timed_connect : Triple Timed (Client.connect env) (fun _ => Timed) Timed := by
  refine triple_get_bind fun w h => triple_at (P := Timed) ?_ h
  refine triple_ite (fun _ => ?_) fun _ => triple_throw fun _ h => h
  refine triple_bind (Q := fun _ => Timed) (triple_modify fun u hu =>
    timed_of_same hu rfl rfl rfl rfl) fun _ => ?_
  refine triple_bind quiet_cancelTimerIfAny fun _ => ?_
  refine triple_bind (Q := fun _ => Quiet) (triple_modify fun u hu => hu) fun _ => ?_
  refine triple_bind (quiet_enter (T := (· ≠ .disconnected)) nofun) fun _ => ?_
  exact triple_bind (quiet_passes (passes_trigger hcalls)) fun _ => timed_arm nofun

theorem timed_sendQuit {arg : Client.QuitArg} :
    Triple Timed (Client.sendQuit env arg) (fun _ => Timed) Timed := by
  refine triple_get_bind fun u hu => triple_at (P := Timed) ?_ hu
  refine triple_ite (fun _ => ?_) fun _ => triple_pure fun _ h => h
  refine triple_bind (timed_receptive.passed (passes_trigger hcalls)) fun _ => ?_
  exact triple_bind (timed_receptive.passed passes_connSend) fun _ => triple_pure fun _ h => h

/-- `disconnect` leaves no live timer, unless there was nothing to disconnect. -/
theorem timed_disconnect {arg : Client.QuitArg} :
    Triple Timed (Client.disconnect env arg) (fun _ => Timed) Timed := by
  refine triple_get_bind fun w h => triple_at (P := Timed) ?_ h
  refine triple_ite (fun _ => triple_pure fun _ h => h) fun _ => triple_ite (fun _ => ?_) fun _ => ?_
  · refine triple_bind quiet_cancelTimer fun _ => ?_
    exact triple_modify fun u hu => timed_of_quiet hu
  · refine triple_bind (timed_sendQuit hcalls) fun _ => ?_
    refine triple_bind quiet_cancelTimer fun _ => ?_
    refine triple_bind (Q := fun _ => Quiet) (triple_modify fun u => quiet_removeHandlers)
      fun _ => ?_
    refine triple_bind (timed_of_raise quiet_closeConn) fun _ => ?_
    refine triple_bind (Q := fun _ => Timed) (triple_modify fun u hu => timed_of_quiet hu)
      fun _ => ?_
    exact timed_receptive.passed (passes_trigger hcalls)

theorem timed_onSslHandshakeDone :
    Triple Timed (Client.onSslHandshakeDone env) (fun _ => Timed) Timed := by
  refine triple_bind quiet_cancelTimer fun _ => ?_
  refine triple_bind (Q := fun _ => Quiet) (triple_modify fun u hu => hu) fun _ => ?_
  refine triple_bind (Q := fun _ => Quiet) (triple_modify fun u hu => hu) fun _ => ?_
  refine triple_bind (timed_of_raise (quiet_receptive.passed (passes_trigger hcalls)))
    fun _ => ?_
  refine triple_bind (timed_of_raise (quiet_receptive.passed (passes_sendmessage hcalls)))
    fun _ => ?_
  refine triple_get_bind fun w h => triple_at (P := Quiet) ?_ h
  exact triple_bind (armable_sendmessage hcalls) fun _ => timed_arm nofun

theorem timed_doSslHandshake :
    Triple Timed (Client.doSslHandshake env) (fun _ => Timed) Timed := by
  refine triple_get_bind fun w h => triple_at (P := Timed) ?_ h
  cases w.conn with
  | none => exact triple_throw fun _ h => h
  | some conn =>
    refine triple_bind (Q := fun _ => Timed) (triple_modify fun u hu =>
      timed_of_same hu rfl rfl rfl rfl) fun _ => ?_
    cases env.dohandshake w with
    | none => exact timed_onSslHandshakeDone hcalls
    | some err =>
      refine triple_ite (fun _ => triple_pure fun _ h => h) fun _ => triple_ite (fun _ => ?_)
        fun _ => triple_ite (fun _ => timed_reconnect hcalls) fun _ => timed_reconnect hcalls
      exact triple_modify fun u hu => timed_receptive.passes u _
        ⟨core_addWritableHandler u, grows_addWritableHandler u⟩ hu

theorem timed_onSocketConnected :
    Triple Timed (Client.onSocketConnected env) (fun _ => Timed) Timed := by
  refine triple_bind quiet_cancelTimer fun _ => triple_ite (fun _ => ?_) fun _ => ?_
  · refine triple_bind (Q := fun _ => Quiet) (triple_modify fun u => quiet_removeHandlers)
      fun _ => ?_
    refine triple_bind (quiet_enter (T := (· ≠ .disconnected)) nofun) fun _ => ?_
    refine triple_bind (quiet_passes (passes_trigger hcalls)) fun _ => ?_
    exact triple_bind (timed_arm nofun) fun _ => timed_doSslHandshake hcalls
  · exact triple_conseq (timed_onSslHandshakeDone hcalls) (fun _ => timed_of_quiet)
      (fun _ _ h => h) fun _ h => h

/-! ### Reading until the socket is closed -/

/-- The Client has a socket and is not `reconnecting`. -/
abbrev Holding (w : World) : Prop := w.conn.isSome ∧ w.session.state ≠ .reconnecting

omit hcalls in
theorem holding_enduring : Enduring Holding :=
  (enduring_conn fun conn => conn.isSome).and enduring_notReconnecting

/-- After our own QUIT the live timer stays live. -/
theorem timed_onClosed : Triple (fun w => Timed w ∧ Holding w) (Client.onClosed env)
    (fun _ => Timed) Timed := by
  refine triple_get_bind fun w h => ?_
  refine triple_ite (fun _ => ?_) fun _ => triple_at (timed_reconnect hcalls) h.1
  refine triple_bind (Q := fun _ => Timed) (triple_modify fun u hu => ?_) fun _ => ?_
  · subst hu
    refine ⟨h.1.known, fun i t ht hcallback => ?_, fun _ hnone => ?_⟩
    · exact absurd (h.1.connect i t ht hcallback) h.2.2
    · have hsome := h.2.1
      rw [show u.conn = none from hnone] at hsome
      cases hsome
  refine triple_bind (timed_receptive.passed (passes_trigger hcalls)) fun _ => ?_
  exact triple_modify fun u hu => of_removeHandlers fun _ hloop =>
    timed_of_same hu rfl rfl rfl hloop

theorem timed_onReceived {received : Received} :
    Triple (fun w => Timed w ∧ (w.session.state = .reconnecting → w.conn = none))
      (Client.onReceived env received) (fun _ => Timed) Timed := by
  refine triple_get_bind fun w h => ?_
  cases hconn : w.conn with
  | none => exact triple_throw fun u hu => hu ▸ h.1
  | some conn =>
    have hholding : Holding w := by
      refine ⟨by simp [hconn], fun hstate => ?_⟩
      cases (h.2 hstate).symm.trans hconn
    refine triple_at (P := fun w => Timed w ∧ Holding w) ?_ ⟨h.1, hholding⟩
    cases w.recvbuf with
    | none => exact triple_throw fun _ h => h.1
    | some buf =>
      refine triple_bind (Q := fun _ w => Timed w ∧ Holding w) (triple_modify fun u hu =>
        ⟨timed_of_same hu.1 rfl rfl rfl rfl, hu.2⟩) fun _ => ?_
      refine triple_bind (triple_conseq (triple_and (timed_readLines hcalls _)
        (holding_enduring.readLines hcalls _)) (fun _ h => h) (fun _ _ h => h) fun _ h => h.1)
        fun _ => ?_
      exact triple_ite (fun _ => timed_onClosed hcalls) fun _ => triple_pure fun _ h => h.1

theorem timed_onReady {P : World → Prop} {up : Eff World Unit} (hp : ∀ w, P w → Timed w)
    (hup : Triple P up (fun _ => Timed) Timed) :
    Triple P (Client.onReady env up) (fun _ => Timed) Timed := by
  refine triple_get_bind fun w h => ?_
  split
  · exact triple_at (timed_onSocketConnected hcalls) (hp w h)
  · exact triple_at (timed_doSslHandshake hcalls) (hp w h)
  · exact triple_at hup h

theorem timed_onReadable {r : Received} :
    Triple (fun w => Timed w ∧ (w.session.state = .reconnecting → w.conn = none))
      (Client.onReadable env r) (fun _ => Timed) Timed :=
  triple_bind (timed_onReady hcalls (fun _ h => h.1) (timed_onReceived hcalls)) fun _ =>
    triple_pure fun _ h => h

theorem timed_onWritable : Triple Timed (Client.onWritable env) (fun _ => Timed) Timed :=
  triple_bind (timed_onReady hcalls (fun _ h => h) (timed_receptive.passed passes_flush)) fun _ =>
    triple_pure fun _ h => h

theorem timed_onTimer {timer : ClientTimer} :
    Triple Timed (Client.onTimer env timer) (fun _ => Timed) Timed := by
  cases timer with
  | reconnect reason => exact timed_reconnect hcalls
  | connect => exact timed_connect hcalls
  | ping => exact timed_ping hcalls

end Harmless

end TuxBot.Irc
