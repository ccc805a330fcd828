import TuxBot.Irc.ClientClosed
import TuxBot.Irc.ClientTimers

/-! How a disconnected Client leaves that state. -/
namespace TuxBot.Irc

open TuxBot.Lua TuxBot.Lua.Eff TuxBot.Machine

variable {env : Env} {w u : World} {k : Nat} {s t : ClientLoop} {i : ClientInput} {nick : Bytes}
  {now : ℚ} {inputs : List ClientInput}

/-! ### Timers along runs -/

theorem timed_new (nick : Bytes) (now : ℚ) : Timed (World.new nick now) :=
  timed_of_quiet fun i => by simp [World.new, EventLoop.new, Timers.live]

theorem timed_expire {j : Nat} (h : Timed w) :
    Timed { w with loop := { w.loop with timers := w.loop.timers.expire j } } := by
  have hlive : ∀ i t, Timers.live (w.loop.timers.expire j) i = some t →
      w.loop.timers.live i = some t := by
    intro i t ht
    rw [Timers.live_expire] at ht
    split at ht
    · cases ht
    · exact ht
  refine ⟨fun i t ht => h.known i t (hlive i t ht), fun i t ht => h.connect i t (hlive i t ht), ?_⟩
  intro hstate hconn i
  show Timers.live (w.loop.timers.expire j) i = none
  rw [Timers.live_expire]
  split
  · rfl
  · exact h.quiet hstate hconn i

theorem Phase.reconnecting {n : Nat} (h : Phase env n w) (hstate : w.session.state = .reconnecting) :
    w.conn = none := (h.off_of_state (Or.inr hstate)).reconnecting hstate

theorem timed_step (hcalls : env.Harmless) (h : Steady env s ∧ Timed s.world)
    (hstep : s.step env i = some t) : Timed t.world := by
  refine step_rule hcalls hstep (fun _ => ?_) (fun u _ hloop hu => ?_) (fun received => ?_) ?_
    (fun j timer _ _ => ?_) (fun _ => ?_) (fun _ _ => ?_) fun m hm => ?_
  · exact timed_of_same h.2 rfl rfl rfl rfl
  · exact timed_of_same hu rfl rfl rfl hloop
  · exact triple_after (timed_onReadable hcalls) ⟨h.2, h.1.phase.reconnecting⟩
  · exact triple_after (timed_onWritable hcalls) h.2
  · exact timed_expire (triple_after (timed_onTimer hcalls) h.2)
  · exact triple_after (timed_connect hcalls) h.2
  · exact triple_after (timed_disconnect hcalls) h.2
  · exact triple_after (timed_receptive.passed hm) h.2

/-! ### A disconnected Client -/

/-- Disconnected, after making `k` sockets. -/
structure Stopped (k : Nat) (w : World) : Prop where
  state : w.session.state = .disconnected
  sockets : w.sockets = k
  quit : w.conn.isSome → w.intentionallyQuit

theorem stopped_of_rests (h : Stopped k w) (hrests : Rests w u) : Stopped k u := by
  refine ⟨hrests.state.trans h.state, hrests.sockets.trans h.sockets, ?_⟩
  rw [hrests.conn]
  exact fun hconn => hrests.quit (h.quit hconn)

theorem stopped_timeless : Timeless (Stopped k) where
  passes w _ hpasses h := stopped_of_rests h (rests_of_core (rests_refl w) hpasses.core)
  recvbuf _ _ h := ⟨h.state, h.sockets, h.quit⟩
  connstate _ _ h := ⟨h.state, h.sockets, h.quit⟩
  isupport _ _ h := ⟨by simpa using h.state, h.sockets, h.quit⟩
  quit _ h := ⟨h.state, h.sockets, fun _ => rfl⟩
  pingtime _ _ h := ⟨h.state, h.sockets, h.quit⟩
  connected _ _ h := ⟨h.state, h.sockets, h.quit⟩
  cancel _ _ h := ⟨h.state, h.sockets, h.quit⟩
  arm _ _ _ h := ⟨h.state, h.sockets, h.quit⟩

theorem stopped_passes {α : Type} {m : Eff World α} (hm : Moves Passes m) :
    Triple (Stopped k) m (fun _ => Stopped k) (Stopped k) := stopped_timeless.passed hm

theorem stopped_idle (h : Stopped k w) : Idle w := by
  intro hup
  simp [h.state] at hup

theorem stopped_onReady {up : Eff World Unit}
    (hup : Triple (Stopped k) up (fun _ => Stopped k) (Stopped k)) :
    Triple (Stopped k) (Client.onReady env up) (fun _ => Stopped k) (Stopped k) :=
  triple_onReady (fun _ h => by simp [h.state]) hup

section Harmless

variable (hcalls : env.Harmless)
include hcalls

/-- A Client that quit stays disconnected when the server closes the socket once more. -/
theorem stopped_onClosed : Triple (fun w => Stopped k w ∧ w.conn.isSome) (Client.onClosed env)
    (fun _ => Stopped k) (Stopped k) := by
  refine triple_get_bind fun w h => ?_
  rw [if_pos (h.1.quit h.2)]
  refine triple_bind (Q := fun _ => Stopped k) (triple_modify fun u hu => ?_) fun _ => ?_
  · subst hu
    exact ⟨rfl, h.1.sockets, h.1.quit⟩
  exact triple_bind (stopped_passes (passes_trigger hcalls)) fun _ => triple_modify fun u hu =>
    of_removeHandlers fun _ _ => ⟨hu.state, hu.sockets, hu.quit⟩

theorem stopped_onReceived {received : Received} :
    Triple (Stopped k) (Client.onReceived env received) (fun _ => Stopped k) (Stopped k) := by
  refine triple_get_bind fun w h => ?_
  cases hconn : w.conn with
  | none => exact triple_throw fun u hu => hu ▸ h
  | some conn =>
    have hsome : w.conn.isSome := by simp [hconn]
    refine triple_at (P := fun w => Stopped k w ∧ w.conn.isSome) ?_ ⟨h, hsome⟩
    cases w.recvbuf with
    | none => exact triple_throw fun _ h => h.1
    | some buf =>
      refine triple_bind (Q := fun _ w => Stopped k w ∧ w.conn.isSome) (triple_modify fun u hu =>
        ⟨⟨hu.1.state, hu.1.sockets, hu.1.quit⟩, hu.2⟩) fun _ => ?_
      refine triple_bind (Q := fun _ w => Stopped k w ∧ w.conn.isSome) ?_ fun _ => ?_
      · intro r hr
        exact triple_conseq (rests_readLines hcalls (stopped_idle hr.1) _) (fun _ h => h)
          (fun _ _ hrests => ⟨stopped_of_rests hr.1 hrests, hrests.conn ▸ hr.2⟩)
          (fun _ => stopped_of_rests hr.1) r (rests_refl r)
      · exact triple_ite (fun _ => stopped_onClosed hcalls) fun _ => triple_pure fun _ h => h.1

theorem stopped_onReadable {r : Received} :
    Triple (Stopped k) (Client.onReadable env r) (fun _ => Stopped k) (Stopped k) :=
  triple_bind (stopped_onReady (stopped_onReceived hcalls)) fun _ => triple_pure fun _ h => h

omit hcalls in
theorem stopped_onWritable :
    Triple (Stopped k) (Client.onWritable env) (fun _ => Stopped k) (Stopped k) :=
  triple_bind (stopped_onReady (stopped_passes passes_flush)) fun _ => triple_pure fun _ h => h

theorem stopped_ping : Triple (Stopped k) (Client.ping env) (fun _ => Stopped k) (Stopped k) :=
  stopped_timeless.ping hcalls

omit hcalls in
theorem stopped_disconnect {arg : Client.QuitArg} :
    Triple (Stopped k) (Client.disconnect env arg) (fun _ => Stopped k) (Stopped k) := by
  refine triple_get_bind fun w h => ?_
  rw [if_pos h.state]
  exact triple_pure fun u hu => hu ▸ h

end Harmless

/-- A disconnected Client stays so, and makes no socket, unless `connect` is called. -/
def LeavesByConnect (env : Env) (s : ClientLoop) (i : ClientInput) : Prop :=
  ∀ t, s.step env i = some t → s.world.session.state = .disconnected → i ≠ .connect →
    t.world.session.state = .disconnected ∧ t.world.sockets = s.world.sockets

/-- The timeout of a connection, armed before the Client was disconnected, runs out. -/
def LateTimeout (s : ClientLoop) (i : ClientInput) : Prop :=
  s.world.session.state = .disconnected ∧ ∃ j reason, i = .fire j ∧
    s.world.loop.timers.due s.world.now j = some (.reconnect reason)

/-- What holds between the steps about timers too. -/
abbrev SteadyTimed (env : Env) (s : ClientLoop) : Prop := Steady env s ∧ Timed s.world

theorem stopped_of_steady (h : Steady env s) (hstate : s.world.session.state = .disconnected) :
    Stopped s.world.sockets s.world :=
  ⟨hstate, rfl, (h.phase.off_of_state (Or.inl hstate)).quit⟩

section Harmless

variable (hcalls : env.Harmless)
include hcalls

/-- The only timer that stirs a disconnected Client is the timeout of a connection. -/
theorem stopped_onTimer {j : Nat} {timer : ClientTimer} (h : SteadyTimed env s)
    (hstopped : Stopped k s.world) (hlate : ¬ LateTimeout s (.fire j))
    (hdue : s.world.loop.timers.due s.world.now j = some timer) :
    Stopped k ((Client.onTimer env timer).pcall s.world).2 := by
  cases timer with
  | reconnect reason => exact absurd ⟨hstopped.state, j, reason, rfl, hdue⟩ hlate
  | connect =>
    obtain ⟨t, hlive, _, hcallback⟩ := Timers.live_of_due hdue
    have hstate := h.2.connect j t hlive hcallback
    rw [hstopped.state] at hstate
    cases hstate
  | ping => exact triple_after (stopped_ping hcalls) hstopped

theorem stopped_step (h : SteadyTimed env s) (hstopped : Stopped k s.world) (hne : i ≠ .connect)
    (hlate : ¬ LateTimeout s i) (hstep : s.step env i = some t) : Stopped k t.world := by
  refine step_rule hcalls hstep (fun _ => ?_) (fun u _ _ hu => ?_) (fun received => ?_) ?_
    (fun j timer hfire hdue => ?_) (absurd · hne) (fun _ _ => ?_) fun m hm => ?_
  · exact ⟨hstopped.state, hstopped.sockets, hstopped.quit⟩
  · exact ⟨hu.state, hu.sockets, hu.quit⟩
  · exact triple_after (stopped_onReadable hcalls) hstopped
  · exact triple_after stopped_onWritable hstopped
  · subst hfire
    have hfired := stopped_onTimer hcalls h hstopped hlate hdue
    exact ⟨hfired.state, hfired.sockets, hfired.quit⟩
  · exact triple_after stopped_disconnect hstopped
  · exact triple_after (stopped_passes hm) hstopped

/-- A late timeout makes a disconnected Client reconnect: it has its timer and its socket still. -/
theorem reconnecting_of_lateTimeout (h : SteadyTimed env s) (hlate : LateTimeout s i) :
    ∃ t, s.step env i = some t ∧ t.world.session.state = .reconnecting := by
  obtain ⟨hstate, j, reason, rfl, hdue⟩ := hlate
  obtain ⟨timer, hlive, _, _⟩ := Timers.live_of_due hdue
  have hlinked : Linked s.world := by
    refine ⟨by simp [h.2.known j timer hlive], ?_⟩
    cases hconn : s.world.conn with
    | none => cases (h.2.quiet hstate hconn j).symm.trans hlive
    | some conn => rfl
  have hreconnect : Triple Linked (Client.onTimer env (.reconnect reason)) (fun _ => Waiting) Waiting :=
    waiting_reconnect hcalls
  have hwaiting := triple_after hreconnect hlinked
  exact ⟨_, by rw [ClientLoop.step, hdue]; rfl, hwaiting.state⟩

theorem leavesByConnect_iff (h : SteadyTimed env s) (hstep : s.step env i = some t) :
    LeavesByConnect env s i ↔ ¬ LateTimeout s i := by
  constructor
  · intro hleaves hlate
    obtain ⟨u, hu, hstate⟩ := reconnecting_of_lateTimeout hcalls h hlate
    obtain ⟨hstate', j, reason, rfl, hdue⟩ := hlate
    have hstays := (hleaves u hu hstate' nofun).1
    rw [hstate] at hstays
    cases hstays
  · intro hlate u hu hstate hne
    have hstopped := stopped_step hcalls h (stopped_of_steady h.1 hstate) hne hlate hu
    exact ⟨hstopped.state, hstopped.sockets⟩

omit hcalls in
theorem steadyTimed_new (nick : Bytes) (now : ℚ) : SteadyTimed env (.new nick now) :=
  ⟨steady_new nick now, timed_new nick now⟩

theorem steadyTimed_step (h : SteadyTimed env s) (hstep : s.step env i = some t) :
    SteadyTimed env t := ⟨steady_step hcalls h.1 hstep, timed_step hcalls h hstep⟩

end Harmless

/-- Along every run, `connect` alone ends the state `disconnected` exactly when no timeout of a
connection that was still armed runs out in that state. -/
theorem leaves_by_connect_iff (hcalls : env.Harmless)
    (hrun : run (ClientLoop.step env) (.new nick now) inputs = some t) :
    Along (ClientLoop.step env) (LeavesByConnect env) (.new nick now) inputs ↔
      Along (ClientLoop.step env) (fun s i => ¬ LateTimeout s i) (.new nick now) inputs :=
  along_congr (I := SteadyTimed env) (fun _ _ _ h hstep => leavesByConnect_iff hcalls h hstep)
    (fun _ _ _ h hstep => steadyTimed_step hcalls h hstep) (steadyTimed_new nick now) hrun

/-- A Client that is disconnected while it registers, and connects again later. -/
theorem leaves_by_connect_again :
    let inputs : List ClientInput := [.connect, .select [] [0], .writable 1, .disconnect .absent,
      .wait 1000, .connect]
    (∃ t, run (ClientLoop.step .silent) (.new "tux" 0) inputs = some t ∧
        t.world.session.state = .connecting) ∧
      Along (ClientLoop.step .silent) (LeavesByConnect .silent) (.new "tux" 0) inputs := by
  refine ⟨⟨_, rfl, rfl⟩, (leaves_by_connect_iff harmless_silent rfl).mpr ?_⟩
  apply along_of_forall
  rintro i hi s ⟨_, j, reason, rfl, _⟩
  simp at hi

/-- The server closes the socket after our own QUIT, while a PONG is awaited. The ping timeout then
makes the disconnected Client reconnect. -/
theorem ping_timeout_reconnects :
    let inputs : List ClientInput := [.connect, .select [] [0], .writable 1, .select [0] [],
      .readable 0 (.short "timeout" ":s 001 tux :hi\r\n"), .sendmessageline "QUIT",
      .select [0] [], .readable 0 (.short "closed" ":tux!t@h QUIT :bye\r\n"), .wait 15]
    (∃ t, run (ClientLoop.step .silent) (.new "tux" 0) (inputs ++ [.fire 2]) = some t ∧
        t.world.session.state = .reconnecting) ∧
      ¬ Along (ClientLoop.step .silent) (LeavesByConnect .silent) (.new "tux" 0)
        (inputs ++ [.fire 2]) := by
  intro inputs
  have hwait : (run (ClientLoop.step .silent) (.new "tux" 0) inputs).map
      (fun s => (s.world.session.state, s.world.loop.timers.due s.world.now 2)) =
      some (.disconnected, some (.reconnect "pingtimeout")) := by decide +kernel
  obtain ⟨s, hrun, hs⟩ := Option.map_eq_some_iff.mp hwait
  obtain ⟨hstate, hdue⟩ := Prod.mk.inj hs
  have hsteady : SteadyTimed .silent s := run_keeps (fun _ _ _ h hstep =>
    steadyTimed_step harmless_silent h hstep) (steadyTimed_new _ _) hrun
  obtain ⟨t, hstep, hreconnecting⟩ := reconnecting_of_lateTimeout harmless_silent hsteady
    ⟨hstate, 2, _, rfl, hdue⟩
  constructor
  · refine ⟨t, ?_, hreconnecting⟩
    rw [run_append, hrun, Option.bind_some, run, hstep]
    rfl
  · intro halong
    have hstays := ((along_append hrun).mp halong).2.1 t hstep hstate (by simp)
    rw [hreconnecting] at hstays
    cases hstays.1

end TuxBot.Irc
