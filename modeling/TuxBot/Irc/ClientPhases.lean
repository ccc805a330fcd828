import TuxBot.Irc.ClientLive
import TuxBot.Irc.ClientSockets

/-! The phases of a Client: off, dialing or live, and the steps between them. -/
namespace TuxBot.Irc

open TuxBot.Lua TuxBot.Lua.Eff

variable {env : Env} {s w u : World} {n : Nat}

/-- Without a connection. The server may have closed the socket after our own QUIT. -/
structure Off (w : World) : Prop where
  state : w.session.state = .disconnected ∨ w.session.state = .reconnecting
  reconnecting : w.session.state = .reconnecting → w.conn = none
  quit : w.conn.isSome → w.intentionallyQuit

/-- A socket that nothing was sent to. -/
def Unused (w : World) : Prop :=
  ∃ c, w.conn = some c ∧ (∀ e ∈ w.wire, e.1 ≠ c) ∧ ∀ e ∈ w.passed, e.1 ≠ c

/-- Dialing, over an unused socket. -/
structure Dialing (n : Nat) (w : World) : Prop where
  state : w.session.state = .connecting ∨ w.session.state = .sslhandshake
  timer : w.timer.isSome
  conn : Unused w
  fresh : n ≤ w.loop.nextKey

inductive Phase (env : Env) (n : Nat) (w : World) : Prop where
  | off (h : Off w)
  | dialing (h : Dialing n w)
  | live (h : Live env False n w)

/-- The Client has a timer and a socket. -/
structure Linked (w : World) : Prop where
  timer : w.timer.isSome
  conn : w.conn.isSome

theorem linked_of_live {due : Prop} (h : Live env due n w) : Linked w := by
  obtain ⟨conn, _, hconn, _⟩ := h.flow
  exact ⟨h.timer, hconn ▸ rfl⟩

theorem linked_of_dialing (h : Dialing n w) : Linked w := by
  obtain ⟨c, hc, _⟩ := h.conn
  exact ⟨h.timer, hc ▸ rfl⟩

/-- What depends on neither the buffers nor the logs. -/
theorem off_of_core (h : Off w) (hcore : u.core = w.core) : Off u := by
  have hstate : u.session.state = w.session.state := congrArg (fun w => w.session.state) hcore
  have hconn : u.conn = w.conn := congrArg (fun w => w.conn) hcore
  have hquit : u.intentionallyQuit = w.intentionallyQuit :=
    congrArg (fun w => w.intentionallyQuit) hcore
  refine ⟨?_, ?_, ?_⟩
  · rw [hstate]
    exact h.state
  · rw [hstate, hconn]
    exact h.reconnecting
  · rw [hconn, hquit]
    exact h.quit

theorem off_timeless : Timeless Off where
  passes _ _ hpasses h := off_of_core h hpasses.core
  recvbuf _ _ h := ⟨h.state, h.reconnecting, h.quit⟩
  connstate _ _ h := ⟨h.state, h.reconnecting, h.quit⟩
  isupport w args h := by
    refine ⟨?_, ?_, h.quit⟩
    · simpa using h.state
    · simpa using h.reconnecting
  quit _ h := ⟨h.state, h.reconnecting, fun _ => rfl⟩
  pingtime _ _ h := ⟨h.state, h.reconnecting, h.quit⟩
  connected _ _ h := ⟨h.state, h.reconnecting, h.quit⟩
  cancel _ _ h := ⟨h.state, h.reconnecting, h.quit⟩
  arm _ _ _ h := ⟨h.state, h.reconnecting, h.quit⟩

theorem linked_of_core (h : Linked w) (hcore : u.core = w.core) : Linked u := by
  have htimer : u.timer = w.timer := congrArg (fun w => w.timer) hcore
  have hconn : u.conn = w.conn := congrArg (fun w => w.conn) hcore
  exact ⟨htimer ▸ h.timer, hconn ▸ h.conn⟩

/-- The Client cannot send. -/
def Idle (w : World) : Prop := ¬ (w.session.state = .connected ∨ w.session.state = .registering)

theorem off_idle (h : Off w) : Idle w := by
  intro hup
  rcases h.state with hs | hs
  · simp [hs] at hup
  · simp [hs] at hup

theorem dialing_idle (h : Dialing n w) : Idle w := by
  intro hup
  rcases h.state with hs | hs
  · simp [hs] at hup
  · simp [hs] at hup

/-! ### A Client that cannot send -/

/-- Nothing happened to the connection and its timers. -/
structure Rests (w u : World) : Prop where
  state : u.session.state = w.session.state
  conn : u.conn = w.conn
  sockets : u.sockets = w.sockets
  timer : u.timer = w.timer
  timers : u.loop.timers = w.loop.timers
  quit : w.intentionallyQuit → u.intentionallyQuit

theorem rests_refl (w : World) : Rests w w := ⟨rfl, rfl, rfl, rfl, rfl, id⟩

theorem rests_of_core (h : Rests s w) (hcore : u.core = w.core) : Rests s u where
  state := (congrArg (fun w => w.session.state) hcore).trans h.state
  conn := (congrArg (fun w => w.conn) hcore).trans h.conn
  sockets := (congrArg (fun w => w.sockets) hcore).trans h.sockets
  timer := (congrArg (fun w => w.timer) hcore).trans h.timer
  timers := (congrArg (fun w => w.loop.timers) hcore).trans h.timers
  quit hq := (congrArg (fun w => w.intentionallyQuit) hcore).trans (h.quit hq)

theorem rests_receptive (s : World) : Receptive (Rests s) where
  passes _ _ hpasses h := rests_of_core h hpasses.core
  recvbuf _ _ h := ⟨h.state, h.conn, h.sockets, h.timer, h.timers, h.quit⟩
  connstate _ _ h := ⟨h.state, h.conn, h.sockets, h.timer, h.timers, h.quit⟩
  isupport w args h := by
    refine ⟨?_, h.conn, h.sockets, h.timer, h.timers, h.quit⟩
    simpa using h.state
  quit _ h := ⟨h.state, h.conn, h.sockets, h.timer, h.timers, fun _ => rfl⟩
  pingtime _ _ h := ⟨h.state, h.conn, h.sockets, h.timer, h.timers, h.quit⟩
  connected _ _ h := ⟨h.state, h.conn, h.sockets, h.timer, h.timers, h.quit⟩

theorem off_of_rests (h : Off s) (hrests : Rests s w) : Off w := by
  refine ⟨?_, ?_, ?_⟩
  · rw [hrests.state]
    exact h.state
  · rw [hrests.state, hrests.conn]
    exact h.reconnecting
  · rw [hrests.conn]
    exact fun hconn => hrests.quit (h.quit hconn)

/-- No line makes a Client that cannot send do anything about its connection. -/
theorem rests_readLines (hcalls : env.Harmless) (hidle : Idle s) (m : Nat) :
    Triple (Rests s) (Client.readLines env m) (fun _ => Rests s) (Rests s) := by
  refine Reads.readLines ((rests_receptive s).reads hcalls ?_ ?_) m
  · rintro msg nick w ⟨hrests, hstate⟩
    rw [hrests.state] at hstate
    exact absurd (Or.inr hstate) hidle
  · intro time
    refine triple_get_bind fun w hw => triple_at ?_ hw
    refine triple_ite (fun hpong => ?_) fun _ => triple_pure fun _ h => h
    rw [hw.state] at hpong
    exact absurd (Or.inl hpong.2) hidle

/-! ### Losing the connection -/

/-- Waiting for the timer to connect again. -/
structure Waiting (w : World) : Prop where
  state : w.session.state = .reconnecting
  conn : w.conn = none

theorem off_of_waiting (h : Waiting w) : Off w :=
  ⟨Or.inr h.state, fun _ => h.conn, fun hconn => by simp [h.conn] at hconn⟩

theorem waiting_of_core (h : Waiting w) (hcore : u.core = w.core) : Waiting u :=
  ⟨(congrArg (fun w => w.session.state) hcore).trans h.state,
    (congrArg (fun w => w.conn) hcore).trans h.conn⟩

theorem linked_cancelTimer : Triple Linked Client.cancelTimer (fun _ => Linked) fun _ => False := by
  refine triple_get_bind fun w h => triple_at ?_ h
  obtain ⟨i, hi⟩ := Option.isSome_iff_exists.mp h.timer
  rw [hi]
  exact triple_modify fun u hu => ⟨hu.timer, hu.conn⟩

theorem linked_removeHandlers (h : Linked w) : Linked w.removeHandlers :=
  of_removeHandlers fun _ _ => ⟨h.timer, h.conn⟩

theorem off_removeHandlers (h : Off w) : Off w.removeHandlers :=
  of_removeHandlers fun _ _ => ⟨h.state, h.reconnecting, h.quit⟩

theorem linked_closeConn {E : World → Prop} :
    Triple Linked Client.closeConn (fun _ w => w.conn = none) E := by
  refine triple_get_bind fun w h => triple_at ?_ h
  obtain ⟨c, hc⟩ := Option.isSome_iff_exists.mp h.conn
  rw [hc]
  exact triple_modify fun u hu => rfl

theorem off_closeConn : Triple Off Client.closeConn (fun _ w => w.conn = none) Off := by
  refine triple_get_bind fun w h => triple_at ?_ h
  cases w.conn with
  | none => exact triple_throw fun _ h => h
  | some c => exact triple_modify fun u hu => rfl

abbrev LinkedOrOff (w : World) : Prop := Linked w ∨ Off w

section Harmless

variable (hcalls : env.Harmless)
include hcalls

/-- From giving up the socket on, `_reconnect` can only raise once it waits. -/
theorem waiting_reconnect_of {P E : World → Prop} {reason : Bytes}
    (hcancel : Triple P Client.cancelTimer (fun _ => P) E)
    (hremove : ∀ w, P w → P w.removeHandlers)
    (hclose : Triple P Client.closeConn (fun _ w => w.conn = none) E)
    (hwait : ∀ w, Waiting w → E w) :
    Triple P (Client.reconnect env reason) (fun _ => Waiting) E := by
  refine triple_bind hcancel fun _ => ?_
  refine triple_bind (Q := fun _ => P) (triple_modify hremove) fun _ => ?_
  refine triple_bind hclose fun _ => ?_
  refine triple_bind (Q := fun _ w => w.conn = none) (triple_modify fun w h => h) fun _ => ?_
  refine triple_bind (Q := fun _ => Waiting) (triple_modify fun w h => ⟨rfl, h⟩) fun _ => ?_
  refine triple_get_bind fun w hw => triple_at ?_ hw
  refine triple_bind (Q := fun _ => Waiting) ?_ fun _ => ?_
  · exact triple_conseq (triple_of_moves (passes_trigger hcalls) fun _ _ hpasses hwait =>
      waiting_of_core hwait hpasses.core) (fun _ h => h) (fun _ _ h => h) hwait
  refine triple_get_bind fun w hw => triple_at ?_ hw
  cases w.reconnecttime with
  | none => exact triple_throw hwait
  | some interval => exact triple_modify fun u hu => ⟨hu.state, hu.conn⟩

/-- A Client with a timer and a socket waits after `_reconnect`, even when it raises. -/
theorem waiting_reconnect {reason : Bytes} :
    Triple Linked (Client.reconnect env reason) (fun _ => Waiting) Waiting :=
  waiting_reconnect_of hcalls
    (triple_conseq linked_cancelTimer (fun _ h => h) (fun _ _ h => h) fun _ h => h.elim)
    (fun _ => linked_removeHandlers) linked_closeConn fun _ h => h

theorem off_reconnect {reason : Bytes} :
    Triple LinkedOrOff (Client.reconnect env reason) (fun _ => Off) Off := by
  refine triple_or ?_ ?_
  · exact triple_conseq (waiting_reconnect hcalls) (fun _ h => h) (fun _ _ => off_of_waiting)
      fun _ => off_of_waiting
  · exact triple_conseq (waiting_reconnect_of hcalls off_timeless.cancelTimer
      (fun _ => off_removeHandlers)
      off_closeConn fun _ => off_of_waiting) (fun _ h => h) (fun _ _ => off_of_waiting) fun _ h => h

/-- A closed socket means to reconnect, or to be disconnected after our own QUIT. -/
theorem off_onClosed : Triple LinkedOrOff (Client.onClosed env) (fun _ => Off) Off := by
  refine triple_get_bind fun w hw => ?_
  refine triple_ite (fun hquit => ?_) fun _ => triple_at (off_reconnect hcalls) hw
  refine triple_bind (Q := fun _ => Off) (triple_modify fun u hu => ?_) fun _ => ?_
  · subst hu
    exact ⟨Or.inl rfl, (fun hstate => by cases hstate), fun _ => hquit⟩
  refine triple_bind (triple_of_moves (passes_trigger hcalls) fun _ _ hpasses hoff =>
    off_of_core hoff hpasses.core) fun _ => ?_
  exact triple_modify fun u hu => off_removeHandlers hu

/-! ### Reading and writing -/

/-- What a live Client receives it reads, and goes on as it takes the end of the result. -/
theorem live_onReceived_then {received : Received} {Q : Unit → World → Prop} {E : World → Prop}
    (hend : Triple (Live env False n)
      (if Client.receivedError received = lit "closed" then Client.onClosed env else pure ()) Q E) :
    Triple (Live env False n) (Client.onReceived env received) Q E := by
  refine triple_get_bind fun w h => triple_at ?_ h
  obtain ⟨conn, _, hconn, _⟩ := h.flow
  obtain ⟨buf, hbuf⟩ := Option.isSome_iff_exists.mp h.recvbuf
  rw [hconn, hbuf]
  refine triple_bind (Q := fun _ => Live env False n) (triple_modify fun u hu =>
    (live_reads hcalls).rest u _ hu) fun _ => ?_
  exact triple_bind (triple_conseq ((live_reads hcalls).readLines _) (fun _ h => h)
    (fun _ _ h => h) fun _ h => h.elim) fun _ => hend

/-- The connection is lost when the result is taken for `closed`. -/
theorem live_onReceived_closed {received : Received}
    (herror : Client.receivedError received = lit "closed") : Triple (Live env False n)
      (Client.onReceived env received) (fun _ => Off) Off := by
  apply live_onReceived_then hcalls
  rw [if_pos herror]
  exact triple_conseq (off_onClosed hcalls) (fun _ h => Or.inl (linked_of_live h)) (fun _ _ h => h)
    fun _ h => h

/-- Otherwise the Client stays live. -/
theorem live_onReceived_open {received : Received}
    (herror : Client.receivedError received ≠ lit "closed") :
    KeepsLive env False n (Client.onReceived env received) := by
  apply live_onReceived_then hcalls
  rw [if_neg herror]
  exact triple_pure fun _ h => h

/-- A Client that is off stays so, whatever it reads from a socket it still has. -/
theorem off_onReceived {received : Received} :
    Triple Off (Client.onReceived env received) (fun _ => Off) Off := by
  refine triple_get_bind fun w h => triple_at ?_ h
  cases w.conn with
  | none => exact triple_throw fun _ h => h
  | some conn =>
    cases w.recvbuf with
    | none => exact triple_throw fun _ h => h
    | some buf =>
      refine triple_bind (Q := fun _ => Off) (triple_modify fun u hu =>
        ⟨hu.state, hu.reconnecting, hu.quit⟩) fun _ => ?_
      refine triple_bind (Q := fun _ => Off) ?_ fun _ => ?_
      · intro s hs
        exact triple_conseq (rests_readLines hcalls (off_idle hs) _) (fun _ h => h)
          (fun _ _ => off_of_rests hs) (fun _ => off_of_rests hs) s (rests_refl s)
      refine triple_ite (fun _ => ?_) fun _ => triple_pure fun _ h => h
      exact triple_conseq (off_onClosed hcalls) (fun _ => Or.inr) (fun _ _ h => h) fun _ h => h

/-! ### Dialing -/

omit hcalls in
theorem dialing_of_core (h : Dialing n w) (hcore : u.core = w.core) (hwire : u.wire = w.wire)
    (hpassed : u.passed = w.passed) (hkey : w.loop.nextKey ≤ u.loop.nextKey) : Dialing n u := by
  have hstate : u.session.state = w.session.state := congrArg (fun w => w.session.state) hcore
  have htimer : u.timer = w.timer := congrArg (fun w => w.timer) hcore
  have hconn : u.conn = w.conn := congrArg (fun w => w.conn) hcore
  refine ⟨?_, ?_, ?_, h.fresh.trans hkey⟩
  · rw [hstate]
    exact h.state
  · rw [htimer]
    exact h.timer
  · obtain ⟨c, hc, hunused⟩ := h.conn
    refine ⟨c, hconn.trans hc, ?_⟩
    rw [hwire, hpassed]
    exact hunused

omit hcalls in
/-- The callbacks of a Client that cannot send note events and set the nick. -/
theorem sends_idle (h : Sends env w u) (hidle : Idle w) :
    ∃ events nick, u = { w with events, session := { w.session with nick } } := by
  induction h with
  | refl => exact ⟨w.events, w.session.nick, rfl⟩
  | send str _ hup ih =>
    obtain ⟨events, nick, rfl⟩ := ih
    exact absurd hup hidle
  | note events nick _ ih =>
    obtain ⟨_, _, rfl⟩ := ih
    exact ⟨events, nick, rfl⟩

theorem idle_trigger {P : World → Prop} {event : ClientEvent} (hidle : ∀ w, P w → Idle w)
    (hnote : ∀ w events nick, P w → P { w with events, session := { w.session with nick } }) :
    Triple P (Client.trigger env event) (fun _ => P) fun _ => False := by
  refine triple_modify fun w h => ?_
  obtain ⟨events, nick, heq⟩ := sends_idle (hcalls event { w with events := w.events ++ [event] })
    (hidle w h)
  rw [heq]
  exact hnote w events nick h

theorem dialing_trigger {event : ClientEvent} :
    Triple (Dialing n) (Client.trigger env event) (fun _ => Dialing n) fun _ => False :=
  idle_trigger hcalls (fun _ h => dialing_idle h) fun _ _ _ h =>
    ⟨h.state, h.timer, h.conn, h.fresh⟩

omit hcalls in
theorem dialing_cancelTimer :
    Triple (Dialing n) Client.cancelTimer (fun _ => Dialing n) fun _ => False := by
  refine triple_get_bind fun w h => triple_at ?_ h
  obtain ⟨i, hi⟩ := Option.isSome_iff_exists.mp h.timer
  rw [hi]
  exact triple_modify fun u hu => ⟨hu.state, hu.timer, hu.conn, hu.fresh⟩

/-- The connection is set up: empty buffers, a fresh state table, and USER and NICK are sent. -/
theorem live_onSslHandshakeDone : Triple (Dialing n) (Client.onSslHandshakeDone env)
    (fun _ => Live env False n) fun _ => False := by
  refine triple_bind dialing_cancelTimer fun _ => ?_
  refine triple_bind (Q := fun _ w => Dialing n w ∧ w.recvbuf.isSome ∧ w.connstate.isSome ∧
    w.sendbuf = some []) (triple_modify fun w h => ?_) fun _ => ?_
  · exact ⟨⟨h.state, h.timer, h.conn, h.fresh⟩, rfl, rfl, rfl⟩
  refine triple_bind (Q := fun _ => Live env False n) (triple_modify fun w h => ?_) fun _ => ?_
  · obtain ⟨hdial, hrecv, hconnstate, hsendbuf⟩ := h
    obtain ⟨c, hc, hwire, hpassed⟩ := hdial.conn
    refine ⟨Or.inr rfl, hdial.timer, hrecv, hconnstate, Or.inr (fun hup => by cases hup), ?_,
      hdial.fresh⟩
    refine ⟨c, [], hc, hsendbuf, fun _ => ?_, fun hne => absurd rfl hne⟩
    simp only [World.enter, traffic_eq_nil hwire, traffic_eq_nil hpassed, List.append_nil]
  refine triple_bind (keepsLive_trigger hcalls) fun _ => ?_
  refine triple_bind (keepsLive_sendmessage hcalls) fun _ => ?_
  refine triple_get_bind fun w h => triple_at ?_ h
  exact triple_bind (keepsLive_sendmessage hcalls) fun _ => keepsLive_arm

/-- A handshake can go on, succeed or fail; only `_reconnect` can raise. -/
theorem phase_doSslHandshake : Triple (Dialing n) (Client.doSslHandshake env)
    (fun _ => Phase env n) Off := by
  have hlost : ∀ reason, Triple (Dialing n) (Client.reconnect env reason)
      (fun _ => Phase env n) Off := by
    intro reason
    exact triple_conseq (off_reconnect hcalls) (fun _ h => Or.inl (linked_of_dialing h))
      (fun _ _ => .off) fun _ h => h
  refine triple_get_bind fun w h => triple_at ?_ h
  obtain ⟨c, hc, _⟩ := h.conn
  rw [hc]
  refine triple_bind (Q := fun _ => Dialing n) (triple_modify fun u hu =>
    ⟨hu.state, hu.timer, hu.conn, hu.fresh⟩) fun _ => ?_
  cases env.dohandshake w with
  | none =>
    exact triple_conseq (live_onSslHandshakeDone hcalls) (fun _ h => h) (fun _ _ => .live)
      fun _ h => h.elim
  | some err =>
    refine triple_ite (fun _ => triple_pure fun _ => .dialing) fun _ => ?_
    refine triple_ite (fun _ => triple_modify fun u hu => .dialing ?_) fun _ => ?_
    · obtain ⟨c, hc, _⟩ := hu.conn
      refine dialing_of_core hu (core_addWritableHandler u) ?_ ?_
        (grows_addWritableHandler u).nextKey
      · rw [addWritableHandler_eq hc]
      · rw [addWritableHandler_eq hc]
    · exact triple_ite (fun _ => hlost _) fun _ => hlost _

omit hcalls in
/-- A new socket is unused. -/
theorem unused_newConn {k handler : Nat} (h : Bounded w) (hk : k = w.sockets) :
    Unused (World.addWritableHandler (World.addReadableHandler
      { w with conn := some k, sockets := k + 1, handler := handler })) := by
  subst hk
  exact ⟨_, rfl, fun e he => (h.wire e he).ne, fun e he => (h.passed e he).ne⟩

omit hcalls in
/-- A computation that only grows keeps what is bounded. -/
theorem bounded_and {α : Type} {P E : World → Prop} {Q : α → World → Prop} {m : Eff World α}
    (h : Triple P m Q E) (hm : Moves Grows m) :
    Triple (fun w => P w ∧ Bounded w) m (fun a w => Q a w ∧ Bounded w) E :=
  triple_conseq (triple_and h (triple_of_moves hm fun _ _ hgrows => hgrows.bounded))
    (fun _ h => h) (fun _ _ h => h) fun _ h => h.1

theorem phase_onSocketConnected : Triple (fun w => Dialing n w ∧ Bounded w)
    (Client.onSocketConnected env) (fun _ => Phase env n) Off := by
  refine triple_bind (triple_conseq (bounded_and dialing_cancelTimer grows_cancelTimer)
    (fun _ h => h) (fun _ _ h => h) fun _ h => h.elim) fun _ => triple_ite (fun _ => ?_) fun _ => ?_
  · refine triple_bind (Q := fun _ w => Unused w ∧ w.timer.isSome ∧ n ≤ w.loop.nextKey)
      (triple_modify fun w h => ?_) fun _ => ?_
    · obtain ⟨hdial, hbounded⟩ := h
      have hgrows := grows_removeHandlers w
      have hsockets := (sockets_removeHandlers (w := w)).symm
      refine ⟨unused_newConn (hgrows.bounded hbounded) hsockets, ?_, ?_⟩
      · exact (linked_removeHandlers (linked_of_dialing hdial)).timer
      · exact hdial.fresh.trans (hgrows.nextKey.trans (grows_newConn hsockets).nextKey)
    refine triple_bind (Q := fun _ => Dialing n) (triple_modify fun w h =>
      ⟨Or.inr rfl, h.2.1, h.1, h.2.2⟩) fun _ => ?_
    refine triple_bind (triple_conseq (dialing_trigger hcalls) (fun _ h => h) (fun _ _ h => h)
      fun _ h => h.elim) fun _ => ?_
    refine triple_bind (Q := fun _ => Dialing n) (triple_modify fun w h =>
      ⟨h.state, rfl, h.conn, h.fresh⟩) fun _ => ?_
    exact phase_doSslHandshake hcalls
  · exact triple_conseq (live_onSslHandshakeDone hcalls) (fun _ h => h.1) (fun _ _ => .live)
      fun _ h => h.elim

omit hcalls in
/-- `connect` cancels the timer there is, if any. -/
theorem bounded_cancelTimerIfAny :
    Triple Bounded Client.cancelTimerIfAny (fun _ => Bounded) fun _ => False := by
  refine triple_get_bind fun w h => triple_ite (fun hsome => ?_) fun _ =>
    triple_pure fun _ hu => hu ▸ h
  refine triple_get_bind fun u hu => ?_
  subst hu
  obtain ⟨i, hi⟩ := Option.isSome_iff_exists.mp hsome
  rw [hi]
  exact triple_modify fun v hv => hv ▸ ⟨h.conn, h.wire, h.passed, h.keys⟩

/-- `connect` makes a socket, and the handlers and the timer for it. -/
theorem dialing_connect : Triple (fun w => Off w ∧ Bounded w) (Client.connect env)
    (fun _ => Dialing 0) fun _ => False := by
  refine triple_get_bind fun w h => ?_
  rw [if_pos h.1.state]
  refine triple_bind (Q := fun _ => Bounded) (triple_modify fun u hu =>
    hu ▸ ⟨h.2.conn, h.2.wire, h.2.passed, h.2.keys⟩) fun _ => ?_
  refine triple_bind bounded_cancelTimerIfAny fun _ => ?_
  refine triple_bind (Q := fun _ => Unused) (triple_modify fun u hu => unused_newConn hu rfl)
    fun _ => ?_
  refine triple_bind (Q := fun _ w => w.session.state = .connecting ∧ Unused w)
    (triple_modify fun u hu => ⟨rfl, hu⟩) fun _ => ?_
  refine triple_bind (idle_trigger hcalls ?_ fun _ _ _ hu => hu) fun _ => ?_
  · intro u hu hup
    simp [hu.1] at hup
  exact triple_modify fun u hu => ⟨Or.inl hu.1, rfl, hu.2, Nat.zero_le _⟩

omit hcalls in
theorem Phase.off_of_state (h : Phase env n w)
    (hstate : w.session.state = .disconnected ∨ w.session.state = .reconnecting) : Off w := by
  cases h with
  | off h => exact h
  | dialing h =>
    rcases h.state with hs | hs
    · simp [hs] at hstate
    · simp [hs] at hstate
  | live h =>
    rcases h.state with hs | hs
    · simp [hs] at hstate
    · simp [hs] at hstate

omit hcalls in
theorem Phase.live_of_state (h : Phase env n w)
    (hstate : w.session.state = .connected ∨ w.session.state = .registering) :
    Live env False n w := by
  cases h with
  | off h => exact absurd hstate (off_idle h)
  | dialing h => exact absurd hstate (dialing_idle h)
  | live h => exact h

omit hcalls in
theorem Phase.linkedOrOff (h : Phase env n w) : LinkedOrOff w := by
  cases h with
  | off h => exact Or.inr h
  | dialing h => exact Or.inl (linked_of_dialing h)
  | live h => exact Or.inl (linked_of_live h)

theorem phase_connect : Triple (fun w => Phase env 0 w ∧ Bounded w) (Client.connect env)
    (fun _ => Phase env 0) (Phase env 0) := by
  rintro w ⟨hphase, hbounded⟩
  by_cases hstate : w.session.state = .disconnected ∨ w.session.state = .reconnecting
  · exact triple_conseq (dialing_connect hcalls) (fun _ h => h) (fun _ _ => .dialing)
      (fun _ h => h.elim) w ⟨hphase.off_of_state hstate, hbounded⟩
  · suffices h : Triple (· = w) (Client.connect env) (fun _ => Phase env 0) (Phase env 0) from h w rfl
    refine triple_get_bind fun u hu => ?_
    subst hu
    rw [if_neg hstate]
    exact triple_throw fun v hv => hv ▸ hphase

theorem linked_sendQuit {arg : Client.QuitArg} :
    Triple Linked (Client.sendQuit env arg) (fun _ => Linked) fun _ => False := by
  refine triple_get_bind fun w h => triple_at ?_ h
  refine triple_ite (fun _ => ?_) fun _ => triple_pure fun _ h => h
  refine triple_bind (Q := fun _ => Linked) (triple_modify fun u hu => ?_) fun _ => ?_
  · exact linked_of_core hu (passes_sends (hcalls _ { u with events := u.events ++ [_] })).core
  refine triple_bind (Q := fun _ => Linked) ?_ fun _ => triple_pure fun _ h => h
  intro u hu
  obtain ⟨c, hc⟩ := Option.isSome_iff_exists.mp hu.conn
  rw [connSend_eq hc]
  exact ⟨hu.timer, hu.conn⟩

/-- `disconnect` ends with the Client off. -/
theorem off_disconnect {arg : Client.QuitArg} :
    Triple (Phase env n) (Client.disconnect env arg) (fun _ => Off) Off := by
  refine triple_get_bind fun w h => ?_
  refine triple_ite (fun hstate => ?_) fun hnot => triple_ite (fun hstate => ?_) fun hnot' => ?_
  · exact triple_pure fun u hu => hu ▸ h.off_of_state (Or.inl hstate)
  · refine triple_at (P := Off) ?_ (h.off_of_state (Or.inr hstate))
    refine triple_bind off_timeless.cancelTimer fun _ => ?_
    exact triple_modify fun u hu => ⟨hu.state, hu.reconnecting, hu.quit⟩
  · refine triple_at (P := Linked) ?_ (h.linkedOrOff.resolve_right fun hoff => ?_)
    · refine triple_bind (triple_conseq (linked_sendQuit hcalls) (fun _ h => h) (fun _ _ h => h)
        fun _ h => h.elim) fun _ => ?_
      refine triple_bind (triple_conseq linked_cancelTimer (fun _ h => h) (fun _ _ h => h)
        fun _ h => h.elim) fun _ => ?_
      refine triple_bind (Q := fun _ => Linked) (triple_modify fun u hu =>
        linked_removeHandlers hu) fun _ => ?_
      refine triple_bind linked_closeConn fun _ => ?_
      refine triple_bind (Q := fun _ => Off) (triple_modify fun u hu => ?_) fun _ => ?_
      · exact ⟨Or.inl rfl, (fun hs => by cases hs), (fun hconn => by simp [World.enter, hu] at hconn)⟩
      exact triple_of_moves (passes_trigger hcalls) fun _ _ hpasses hoff =>
        off_of_core hoff hpasses.core
    · rcases hoff.state with hs | hs
      · exact hnot hs
      · exact hnot' hs

omit hcalls in
/-- Once it is connected, a ready socket is read or written. -/
theorem onReady_eq {up : Eff World Unit} (hconnecting : w.session.state ≠ .connecting)
    (hssl : w.session.state ≠ .sslhandshake) : Client.onReady env up w = up w := by
  rw [Client.onReady, get_bind_eq]
  cases hs : w.session.state with
  | connecting => exact absurd hs hconnecting
  | sslhandshake => exact absurd hs hssl
  | _ => rfl

omit hcalls in
theorem triple_onReady {P : World → Prop} {up : Eff World Unit} {Q : Unit → World → Prop}
    {E : World → Prop} (hstate : ∀ w, P w →
      w.session.state ≠ .connecting ∧ w.session.state ≠ .sslhandshake)
    (hup : Triple P up Q E) : Triple P (Client.onReady env up) Q E := by
  intro w h
  rw [onReady_eq (hstate w h).1 (hstate w h).2]
  exact hup w h

omit hcalls in
theorem live_onReady {due : Prop} {P : World → Prop} {up : Eff World Unit}
    {Q : Unit → World → Prop} {E : World → Prop} (hlive : ∀ w, P w → Live env due n w)
    (hup : Triple P up Q E) : Triple P (Client.onReady env up) Q E := by
  refine triple_onReady (fun w h => ?_) hup
  rcases (hlive w h).state with hs | hs
  · rw [hs]
    exact ⟨nofun, nofun⟩
  · rw [hs]
    exact ⟨nofun, nofun⟩

omit hcalls in
theorem off_onReady {up : Eff World Unit} (hup : Triple Off up (fun _ => Off) Off) :
    Triple Off (Client.onReady env up) (fun _ => Off) Off := by
  refine triple_onReady (fun w h => ?_) hup
  rcases h.state with hs | hs
  · rw [hs]
    exact ⟨nofun, nofun⟩
  · rw [hs]
    exact ⟨nofun, nofun⟩

/-- A ready socket takes dialing further. -/
theorem dialing_onReady {up : Eff World Unit} : Triple (fun w => Dialing n w ∧ Bounded w)
    (Client.onReady env up) (fun _ => Phase env n) Off := by
  refine triple_get_bind fun w h => ?_
  rcases h.1.state with hs | hs
  · rw [hs]
    exact triple_at (phase_onSocketConnected hcalls) h
  · rw [hs]
    exact triple_at (phase_doSslHandshake hcalls) h.1

/-- What a ready socket leads to. -/
theorem phase_onReady {m : Nat} {up : Eff World Unit}
    (hlive : Triple (fun w => Live env False m w ∧ n ≤ w.loop.nextKey) up (fun _ => Phase env n) Off)
    (hoff : Triple Off up (fun _ => Off) Off) :
    Triple (fun w => Phase env m w ∧ n ≤ w.loop.nextKey ∧ Bounded w) (Client.onReady env up)
      (fun _ => Phase env n) Off := by
  rintro w ⟨hphase, hkey, hbounded⟩
  cases hphase with
  | off h =>
    exact triple_conseq (off_onReady hoff) (fun _ h => h) (fun _ _ => .off) (fun _ h => h) w h
  | dialing h =>
    exact dialing_onReady hcalls w ⟨⟨h.state, h.timer, h.conn, hkey⟩, hbounded⟩
  | live h => exact live_onReady (fun _ h => h.1) hlive w ⟨h, hkey⟩

end Harmless

end TuxBot.Irc
