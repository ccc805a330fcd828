import TuxBot.Irc.ClientBreaks
import TuxBot.Irc.ClientReceives

/-! A Client that waits to reconnect has no other timer, so no reconnect raises. -/
namespace TuxBot.Irc

open TuxBot.Lua TuxBot.Lua.Eff TuxBot.Machine

variable {env : Env} {w u : World} {s t : ClientLoop} {i : ClientInput}

/-- While the Client is `reconnecting`, the only timer is the one to connect again. -/
def Patient (w : World) : Prop := w.session.state = .reconnecting →
  ∀ i t, w.loop.timers.live i = some t → t.callback = .connect

theorem patient_of_ne (h : w.session.state ≠ .reconnecting) : Patient w :=
  fun hstate => absurd hstate h

theorem patient_of_quiet (h : Quiet w) : Patient w := by
  intro _ i t ht
  cases (h i).symm.trans ht

theorem patient_of_same (h : Patient w) (hstate : u.session.state = w.session.state)
    (htimers : u.loop.timers = w.loop.timers) : Patient u := by
  unfold Patient
  rw [hstate, htimers]
  exact h

theorem patient_receptive : Receptive Patient where
  passes _ _ hpasses h := patient_of_same h (state_of_core hpasses.core)
    (timers_of_core hpasses.core)
  recvbuf _ _ h := patient_of_same h rfl rfl
  connstate _ _ h := patient_of_same h rfl rfl
  isupport _ _ h := patient_of_same h (by simp) rfl
  quit _ h := patient_of_same h rfl rfl
  pingtime _ _ h := patient_of_same h rfl rfl
  connected _ _ h := patient_of_same h rfl rfl

theorem patient_cancelTimer : Triple Patient Client.cancelTimer (fun _ => Patient) Patient := by
  refine triple_get_bind fun w h => triple_at ?_ h
  cases w.timer with
  | none => exact triple_throw fun _ hu => hu
  | some j =>
    refine triple_modify fun u hu hstate i t ht => hu hstate i t ?_
    have hlive : (u.loop.timers.cancel j).live i = some t := ht
    rw [Timers.live_cancel] at hlive
    split at hlive
    · cases hlive
    · exact hlive

theorem patient_removeHandlers (h : Patient w) : Patient w.removeHandlers :=
  of_removeHandlers fun _ hloop => patient_of_same h rfl hloop

theorem patient_closeConn : Triple Patient Client.closeConn (fun _ => Patient) Patient := by
  refine triple_get_bind fun w h => triple_at ?_ h
  cases w.conn with
  | none => exact triple_throw fun _ hu => hu
  | some c => exact triple_modify fun u hu => patient_of_same hu rfl rfl

/-- Not `reconnecting`, with no timer but the known one. -/
abbrev TimedActive (w : World) : Prop := Timed w ∧ w.session.state ≠ .reconnecting

theorem patient_passes {α : Type} {m : Eff World α} (hm : Moves Passes m) :
    Triple Patient m (fun _ => Patient) Patient := patient_receptive.passed hm

/-- What does not make a Client `reconnecting` leaves it patient. -/
theorem patient_active {α : Type} {P : World → Prop} {m : Eff World α}
    (h : Triple P m (fun _ w => w.session.state ≠ .reconnecting)
      fun w => w.session.state ≠ .reconnecting) :
    Triple P m (fun _ => Patient) Patient :=
  triple_conseq h (fun _ h => h) (fun _ _ => patient_of_ne) fun _ => patient_of_ne

/-- A state in which a timeout may be armed and that is not `reconnecting`. -/
def Dials (state : ClientState) : Prop := state ≠ .disconnected ∧ state ≠ .reconnecting

theorem quiet_cancelTimer_active : Triple TimedActive Client.cancelTimer
    (fun _ => QuietIn (· ≠ .reconnecting)) fun w => w.session.state ≠ .reconnecting :=
  triple_conseq (triple_and quietIn_cancelTimer (enduring_notReconnecting.cancelTimer))
    (fun _ h => ⟨h, h.2⟩) (fun _ _ h => h.1) fun _ h => h.2

section Harmless

variable (hcalls : env.Harmless)
include hcalls

theorem patient_reconnect {reason : Bytes} :
    Triple TimedActive (Client.reconnect env reason) (fun _ => Patient) Patient := by
  refine triple_bind (triple_conseq quiet_cancelTimer_active (fun _ h => h) (fun _ _ h => h)
    fun _ => patient_of_ne) fun _ => ?_
  refine triple_bind (Q := fun _ => Quiet) (triple_modify fun u hu => quiet_removeHandlers hu.1)
    fun _ => ?_
  refine triple_bind (triple_conseq quiet_closeConn (fun _ h => h) (fun _ _ h => h)
    fun _ => patient_of_quiet) fun _ => ?_
  refine triple_bind (Q := fun _ => Quiet) (triple_modify fun u hu => hu) fun _ => ?_
  refine triple_bind (Q := fun _ => Quiet) (triple_modify fun u hu => hu) fun _ => ?_
  refine triple_get_bind fun w h => triple_at (P := Quiet) ?_ h
  refine triple_bind (triple_conseq (quiet_receptive.passed (passes_trigger hcalls)) (fun _ h => h)
    (fun _ _ h => h) fun _ => patient_of_quiet) fun _ => ?_
  refine triple_get_bind fun w h => triple_at (P := Quiet) ?_ h
  cases w.reconnecttime with
  | none => exact triple_throw fun _ h => patient_of_quiet h
  | some interval => exact triple_modify fun u hu _ i t ht => (callback_of_live hu ht).2

theorem patient_onClosed :
    Triple TimedActive (Client.onClosed env) (fun _ => Patient) Patient := by
  refine triple_get_bind fun w h => triple_ite (fun _ => ?_) fun _ =>
    triple_at (patient_reconnect hcalls) h
  refine triple_bind (Q := fun _ => Patient) (triple_modify fun u hu => patient_of_ne nofun)
    fun _ => ?_
  refine triple_bind (patient_passes (passes_trigger hcalls)) fun _ => ?_
  exact triple_modify fun u => patient_removeHandlers

theorem patient_onReceived {received : Received} :
    Triple (fun w => Timed w ∧ Patient w ∧ (w.session.state = .reconnecting → w.conn = none))
      (Client.onReceived env received) (fun _ => Patient) Patient := by
  refine triple_get_bind fun w ⟨htimed, hpatient, hnone⟩ => ?_
  cases hconn : w.conn with
  | none => exact triple_throw fun u hu => hu ▸ hpatient
  | some conn =>
    have hactive : TimedActive w := by
      refine ⟨htimed, fun hstate => ?_⟩
      cases (hnone hstate).symm.trans hconn
    refine triple_at (P := TimedActive) ?_ hactive
    cases w.recvbuf with
    | none => exact triple_throw fun _ h => patient_of_ne h.2
    | some buf =>
      refine triple_bind (Q := fun _ => TimedActive) (triple_modify fun u hu =>
        ⟨timed_of_same hu.1 rfl rfl rfl rfl, hu.2⟩) fun _ => ?_
      refine triple_bind (triple_conseq (triple_and (timed_readLines hcalls _)
        (enduring_notReconnecting.readLines hcalls _)) (fun _ h => h) (fun _ _ h => h)
        fun _ h => patient_of_ne h.2) fun _ => ?_
      exact triple_ite (fun _ => patient_onClosed hcalls) fun _ =>
        triple_pure fun _ h => patient_of_ne h.2

theorem patient_onSslHandshakeDone : Triple (fun w => w.session.state ≠ .reconnecting)
    (Client.onSslHandshakeDone env) (fun _ => Patient) Patient :=
  patient_active (enduring_notReconnecting.onSslHandshakeDone hcalls)

theorem patient_doSslHandshake :
    Triple TimedActive (Client.doSslHandshake env) (fun _ => Patient) Patient := by
  refine triple_get_bind fun w h => triple_at ?_ h
  cases w.conn with
  | none => exact triple_throw fun _ h => patient_of_ne h.2
  | some conn =>
    refine triple_bind (Q := fun _ => TimedActive) (triple_modify fun u hu =>
      ⟨timed_of_same hu.1 rfl rfl rfl rfl, hu.2⟩) fun _ => ?_
    cases env.dohandshake w with
    | none =>
      exact triple_conseq (patient_onSslHandshakeDone hcalls) (fun _ h => h.2) (fun _ _ h => h)
        fun _ h => h
    | some err =>
      refine triple_ite (fun _ => triple_pure fun _ h => patient_of_ne h.2) fun _ =>
        triple_ite (fun _ => ?_) fun _ => triple_ite (fun _ => patient_reconnect hcalls)
          fun _ => patient_reconnect hcalls
      refine triple_modify fun u hu => patient_of_ne ?_
      rw [state_of_core (core_addWritableHandler u)]
      exact hu.2

theorem patient_onSocketConnected :
    Triple TimedActive (Client.onSocketConnected env) (fun _ => Patient) Patient := by
  refine triple_bind (triple_conseq quiet_cancelTimer_active (fun _ h => h) (fun _ _ h => h)
    fun _ => patient_of_ne) fun _ => triple_ite (fun _ => ?_) fun _ => ?_
  · refine triple_bind (Q := fun _ => Quiet) (triple_modify fun u hu => quiet_removeHandlers hu.1)
      fun _ => ?_
    refine triple_bind (quiet_enter (T := Dials) ⟨nofun, nofun⟩) fun _ => ?_
    refine triple_bind (triple_conseq ((quiet_receptive.inState Dials).passed
      (passes_trigger hcalls)) (fun _ h => h) (fun _ _ h => h) fun _ h => patient_of_quiet h.1)
      fun _ => ?_
    refine triple_bind (Q := fun _ => TimedActive) (triple_modify fun u hu => ?_) fun _ =>
      patient_doSslHandshake hcalls
    exact ⟨timed_arm_of ⟨hu.1, hu.2.1⟩ nofun, hu.2.2⟩
  · exact triple_conseq (patient_onSslHandshakeDone hcalls) (fun _ h => h.2) (fun _ _ h => h)
      fun _ h => h

/-- What is ready in the states of a new connection is not `reconnecting`. -/
theorem patient_onReady {P : World → Prop} {up : Eff World Unit} (hp : ∀ w, P w → Timed w)
    (hup : Triple P up (fun _ => Patient) Patient) :
    Triple P (Client.onReady env up) (fun _ => Patient) Patient := by
  refine triple_get_bind fun w h => ?_
  cases hstate : w.session.state with
  | connecting => exact triple_at (patient_onSocketConnected hcalls) ⟨hp w h, by simp [hstate]⟩
  | sslhandshake => exact triple_at (patient_doSslHandshake hcalls) ⟨hp w h, by simp [hstate]⟩
  | disconnected => exact triple_at hup h
  | registering => exact triple_at hup h
  | connected => exact triple_at hup h
  | reconnecting => exact triple_at hup h

theorem patient_disconnect {arg : Client.QuitArg} :
    Triple Patient (Client.disconnect env arg) (fun _ => Patient) Patient := by
  refine triple_get_bind fun w h => triple_at (P := Patient) ?_ h
  refine triple_ite (fun _ => triple_pure fun _ h => h) fun _ => triple_ite (fun _ => ?_) fun _ => ?_
  · exact triple_bind patient_cancelTimer fun _ => triple_modify fun u hu =>
      patient_of_same hu rfl rfl
  · refine triple_bind (Q := fun _ => Patient) ?_ fun _ => ?_
    · refine triple_get_bind fun w h => triple_at (P := Patient) ?_ h
      refine triple_ite (fun _ => ?_) fun _ => triple_pure fun _ h => h
      refine triple_bind (patient_passes (passes_trigger hcalls)) fun _ => ?_
      exact triple_bind (patient_passes passes_connSend) fun _ => triple_pure fun _ h => h
    refine triple_bind patient_cancelTimer fun _ => ?_
    refine triple_bind (Q := fun _ => Patient) (triple_modify fun u => patient_removeHandlers)
      fun _ => ?_
    refine triple_bind patient_closeConn fun _ => ?_
    refine triple_bind (Q := fun _ => Patient) (triple_modify fun u hu => patient_of_ne nofun)
      fun _ => ?_
    exact patient_passes (passes_trigger hcalls)

theorem patient_connect : Triple (fun w => Patient w ∧ Phase env 0 w ∧ Bounded w)
    (Client.connect env) (fun _ => Patient) Patient := by
  rintro w ⟨hpatient, hphase, hbounded⟩
  by_cases hstate : w.session.state = .disconnected ∨ w.session.state = .reconnecting
  · refine triple_conseq (dialing_connect hcalls) (fun _ h => h) (fun _ u hu => ?_)
      (fun _ h => h.elim) w ⟨hphase.off_of_state hstate, hbounded⟩
    refine patient_of_ne fun hwaiting => ?_
    rcases hu.state with hs | hs
    · cases hs.symm.trans hwaiting
    · cases hs.symm.trans hwaiting
  · suffices h : Triple (· = w) (Client.connect env) (fun _ => Patient) Patient from h w rfl
    refine triple_get_bind fun u hu => ?_
    subst hu
    rw [if_neg hstate]
    exact triple_throw fun v hv => hv ▸ hpatient

/-- Only a Client that is `reconnecting` waits for the timer to connect, and for no other. -/
theorem patient_onTimer {j : Nat} {timer : ClientTimer} (h : SteadyTimed env s)
    (hpatient : Patient s.world) (hdue : s.world.loop.timers.due s.world.now j = some timer) :
    Patient ((Client.onTimer env timer).pcall s.world).2 := by
  obtain ⟨entry, hlive, -, rfl⟩ := Timers.live_of_due hdue
  by_cases hstate : s.world.session.state = .reconnecting
  · rw [hpatient hstate j entry hlive]
    exact triple_after (patient_connect hcalls) ⟨hpatient, h.1.phase, h.1.bounded⟩
  · cases hcallback : entry.callback with
    | reconnect reason => exact triple_after (patient_reconnect hcalls) ⟨h.2, hstate⟩
    | connect => exact absurd (h.2.connect j entry hlive hcallback) hstate
    | ping => exact triple_after (patient_active (enduring_notReconnecting.ping hcalls)) hstate

theorem patient_step (h : SteadyTimed env s) (hpatient : Patient s.world)
    (hstep : s.step env i = some t) : Patient t.world := by
  refine step_rule hcalls hstep (fun _ => hpatient) (fun u _ hloop hu => ?_) (fun received => ?_) ?_
    (fun j timer _ hdue hstate k entry hlive => ?_) (fun _ => ?_) (fun _ _ => ?_) fun m hm => ?_
  · exact patient_of_same hu rfl hloop
  · have hcalled : Triple (fun w => Timed w ∧ Patient w ∧
        (w.session.state = .reconnecting → w.conn = none)) (Client.onReadable env received)
        (fun _ => Patient) Patient :=
      triple_bind (patient_onReady hcalls (fun _ h => h.1) (patient_onReceived hcalls)) fun _ =>
        triple_pure fun _ h => h
    exact triple_after hcalled ⟨h.2, hpatient, h.1.phase.reconnecting⟩
  · have hcalled : Triple (fun w => Timed w ∧ Patient w) (Client.onWritable env) (fun _ => Patient)
        Patient := by
      refine triple_bind (patient_onReady hcalls (fun _ h => h.1) ?_) fun _ => triple_pure fun _ h => h
      exact triple_conseq (patient_passes passes_flush) (fun _ h => h.2) (fun _ _ h => h) fun _ h => h
    exact triple_after hcalled ⟨h.2, hpatient⟩
  · refine patient_onTimer hcalls h hpatient hdue hstate k entry ?_
    have hexpired : Timers.live (Timers.expire _ j) k = some entry := hlive
    rw [Timers.live_expire] at hexpired
    split at hexpired
    · cases hexpired
    · exact hexpired
  · exact triple_after (patient_connect hcalls) ⟨hpatient, h.1.phase, h.1.bounded⟩
  · exact triple_after (patient_disconnect hcalls) hpatient
  · exact triple_after (patient_passes hm) hpatient

/-- A timer that means to give up a connection finds one, and one that means to connect finds a
Client that waits for it. -/
theorem onTimer_returns (hinterval : env.timings.initialReconnectionInterval.isSome) {j : Nat}
    {timer : ClientTimer} (h : SteadyTimed env s) (hpatient : Patient s.world)
    (hdue : s.world.loop.timers.due s.world.now j = some timer) (hne : timer ≠ .ping) :
    ∃ u, Client.onTimer env timer s.world = .ok ⟨⟩ u := by
  obtain ⟨entry, hlive, -, rfl⟩ := Timers.live_of_due hdue
  cases hcallback : entry.callback with
  | ping => exact absurd hcallback hne
  | connect =>
    have hstate := h.2.connect j entry hlive hcallback
    obtain ⟨_, u, hreturn, -⟩ := triple_returns (dialing_connect hcalls)
      ⟨h.1.phase.off_of_state (Or.inr hstate), h.1.bounded⟩
    exact ⟨u, hreturn⟩
  | reconnect reason =>
    have hactive : s.world.session.state ≠ .reconnecting := by
      intro hstate
      cases hcallback.symm.trans (hpatient hstate j entry hlive)
    have hlinked : Linked s.world := by
      rcases h.1.phase.linkedOrOff with hlinked | hoff
      · exact hlinked
      · refine ⟨by simp [h.2.known j entry hlive], ?_⟩
        cases hconn : s.world.conn with
        | some conn => rfl
        | none =>
          have hstate := hoff.state.resolve_right hactive
          cases (h.2.quiet hstate hconn j).symm.trans hlive
    obtain ⟨_, u, hreturn, -⟩ := triple_returns (reconnect_returns hcalls hinterval) hlinked
    exact ⟨u, hreturn⟩

end Harmless

end TuxBot.Irc
