import TuxBot.Irc.ClientDisconnected

/-! What holds of a Client until `_reconnect` is called, and what after it. -/
namespace TuxBot.Irc

open TuxBot.Lua TuxBot.Lua.Eff TuxBot.Machine

variable {env : Env} {w u : World} {P E : World → Prop} {s t : ClientLoop} {i : ClientInput}
  {nick : Bytes} {now : ℚ} {inputs : List ClientInput}

section Harmless

variable (hcalls : env.Harmless)
include hcalls

/-- What a new socket does not matter to, a new attempt keeps. -/
theorem keeps_connect (hendures : Enduring P)
    (hquit : ∀ w, P w → P { w with intentionallyQuit := false })
    (hopen : ∀ w, P w → P (World.addWritableHandler (World.addReadableHandler
      { w with conn := some w.sockets, sockets := w.sockets + 1, handler := w.handler + 1 }))) :
    Triple P (Client.connect env) (fun _ => P) P := by
  refine triple_get_bind fun w h => triple_at (P := P) ?_ h
  refine triple_ite (fun _ => ?_) fun _ => triple_throw fun _ h => h
  refine triple_bind (Q := fun _ => P) (triple_modify hquit) fun _ => ?_
  refine triple_bind (Q := fun _ => P) ?_ fun _ => ?_
  · refine triple_get_bind fun w h => triple_at (P := P) ?_ h
    exact triple_ite (fun _ => hendures.cancelTimer) fun _ => triple_pure fun _ h => h
  refine triple_bind (Q := fun _ => P) (triple_modify hopen) fun _ => ?_
  refine triple_bind (Q := fun _ => P) (triple_modify fun u hu => hendures.enter u _ nofun hu)
    fun _ => ?_
  exact triple_bind (hendures.passed (passes_trigger hcalls)) fun _ => hendures.armed

/-- What neither a socket nor an interval that is forgotten matters to, `disconnect` keeps. -/
theorem keeps_disconnect {arg : Client.QuitArg} (hendures : Enduring P)
    (hforget : ∀ w, P w → P { w with reconnecttime := none })
    (hremove : ∀ w, P w → P w.removeHandlers) (hclose : ∀ w, P w → P { w with conn := none }) :
    Triple P (Client.disconnect env arg) (fun _ => P) P := by
  refine triple_get_bind fun w h => triple_at (P := P) ?_ h
  refine triple_ite (fun _ => triple_pure fun _ h => h) fun _ => triple_ite (fun _ => ?_) fun _ => ?_
  · exact triple_bind hendures.cancelTimer fun _ => triple_modify hforget
  refine triple_bind (Q := fun _ => P) ?_ fun _ => ?_
  · refine triple_get_bind fun w h => triple_at (P := P) ?_ h
    refine triple_ite (fun _ => ?_) fun _ => triple_pure fun _ h => h
    refine triple_bind (hendures.passed (passes_trigger hcalls)) fun _ => ?_
    exact triple_bind (hendures.passed passes_connSend) fun _ => triple_pure fun _ h => h
  refine triple_bind hendures.cancelTimer fun _ => ?_
  refine triple_bind (Q := fun _ => P) (triple_modify hremove) fun _ => ?_
  refine triple_bind (Q := fun _ => P) ?_ fun _ => ?_
  · refine triple_get_bind fun w h => triple_at (P := P) ?_ h
    cases w.conn with
    | none => exact triple_throw fun _ h => h
    | some c => exact triple_modify hclose
  refine triple_bind (Q := fun _ => P) (triple_modify fun u hu => hendures.enter u _ nofun hu)
    fun _ => ?_
  exact hendures.passed (passes_trigger hcalls)

end Harmless

/-- `P` lasts until `_reconnect` is called, which leads to `E`. -/
structure Breaks (env : Env) (P E : World → Prop) : Prop extends Enduring P where
  remove : ∀ w, P w → P w.removeHandlers
  wrap : ∀ w conn sockets, P w → P (World.addWritableHandler (World.addReadableHandler
    { w with conn, sockets }))
  handshake : ∀ w handshakes, P w → P { w with handshakes }
  unbroken : ∀ w, P w → E w
  reconnect : ∀ reason, Triple P (Client.reconnect env reason) (fun _ => E) E

namespace Breaks

variable (h : Breaks env P E)
include h

/-- What leaves the connection alone. -/
theorem calm {α : Type} {m : Eff World α} (hm : Triple P m (fun _ => P) P) :
    Triple P m (fun _ => E) E :=
  triple_conseq hm (fun _ h => h) (fun _ => h.unbroken) h.unbroken

/-- What leaves the connection alone, before something that need not. -/
theorem first {α : Type} {m : Eff World α} (hm : Triple P m (fun _ => P) P) :
    Triple P m (fun _ => P) E :=
  triple_conseq hm (fun _ h => h) (fun _ _ h => h) h.unbroken

variable (hcalls : env.Harmless)
include hcalls

theorem doSslHandshake : Triple P (Client.doSslHandshake env) (fun _ => E) E := by
  refine triple_get_bind fun w hw => triple_at ?_ hw
  cases w.conn with
  | none => exact triple_throw h.unbroken
  | some conn =>
    refine triple_bind (Q := fun _ => P) (triple_modify fun u hu => h.handshake u _ hu) fun _ => ?_
    cases env.dohandshake w with
    | none => exact h.calm (h.onSslHandshakeDone hcalls)
    | some err =>
      refine triple_ite (fun _ => triple_pure h.unbroken) fun _ => triple_ite (fun _ => ?_)
        fun _ => triple_ite (fun _ => h.reconnect _) fun _ => h.reconnect _
      exact triple_modify fun u hu => h.unbroken _ (h.passes u _
        ⟨core_addWritableHandler u, grows_addWritableHandler u⟩ hu)

theorem onSocketConnected : Triple P (Client.onSocketConnected env) (fun _ => E) E := by
  refine triple_bind (h.first h.cancelTimer) fun _ => triple_ite (fun _ => ?_) fun _ =>
    h.calm (h.onSslHandshakeDone hcalls)
  refine triple_bind (Q := fun _ => P) (triple_modify fun u hu => ?_) fun _ => ?_
  · exact h.wrap u.removeHandlers _ _ (h.remove u hu)
  refine triple_bind (Q := fun _ => P) (triple_modify fun u hu => h.enter u _ nofun hu) fun _ => ?_
  refine triple_bind (h.first (h.passed (passes_trigger hcalls))) fun _ => ?_
  exact triple_bind h.armed fun _ => h.doSslHandshake hcalls

theorem onClosed : Triple P (Client.onClosed env) (fun _ => E) E := by
  refine triple_get_bind fun w hw => triple_at (P := P) ?_ hw
  refine triple_ite (fun _ => h.calm ?_) fun _ => h.reconnect _
  refine triple_bind (Q := fun _ => P) (triple_modify fun u hu => h.enter u _ nofun hu) fun _ => ?_
  refine triple_bind (h.passed (passes_trigger hcalls)) fun _ => ?_
  exact triple_modify h.remove

theorem onReceived {received : Received} :
    Triple P (Client.onReceived env received) (fun _ => E) E := by
  refine triple_get_bind fun w hw => triple_at (P := P) ?_ hw
  cases w.conn with
  | none => exact triple_throw h.unbroken
  | some conn =>
    cases w.recvbuf with
    | none => exact triple_throw h.unbroken
    | some buf =>
      refine triple_bind (Q := fun _ => P) (triple_modify fun u hu => h.recvbuf u _ hu) fun _ => ?_
      refine triple_bind (h.first (h.readLines hcalls _)) fun _ => ?_
      exact triple_ite (fun _ => h.onClosed hcalls) fun _ => triple_pure h.unbroken

theorem onReady {up : Eff World Unit} (hup : Triple P up (fun _ => E) E) :
    Triple P (Client.onReady env up) (fun _ => E) E := by
  refine triple_get_bind fun w hw => triple_at (P := P) ?_ hw
  split
  · exact h.onSocketConnected hcalls
  · exact h.doSslHandshake hcalls
  · exact hup

theorem onReadable {received : Received} :
    Triple P (Client.onReadable env received) (fun _ => E) E :=
  triple_bind (h.onReady hcalls (h.onReceived hcalls)) fun _ => triple_pure fun _ h => h

theorem onWritable : Triple P (Client.onWritable env) (fun _ => E) E :=
  triple_bind (h.onReady hcalls (h.calm (h.passed passes_flush))) fun _ => triple_pure fun _ h => h

theorem onTimer {timer : ClientTimer} (hconnect : Triple P (Client.connect env) (fun _ => P) P) :
    Triple P (Client.onTimer env timer) (fun _ => E) E := by
  cases timer with
  | reconnect reason => exact h.reconnect reason
  | connect => exact h.calm hconnect
  | ping => exact h.calm (h.ping hcalls)

end Breaks

/-! ### The timer of a Client that waits to reconnect -/

/-- There has been a timer. -/
abbrev Armed (w : World) : Prop := w.timer.isSome

theorem armed_enduring : Enduring Armed where
  passes w u hpasses h := by
    have hsame : u.timer = w.timer := congrArg (fun w => w.timer) hpasses.core
    rwa [Armed, hsame]
  recvbuf _ _ h := h
  connstate _ _ h := h
  isupport _ _ h := h
  quit _ h := h
  pingtime _ _ h := h
  connected _ _ h := h
  cancel _ _ h := h
  arm _ _ _ _ := rfl
  enter _ _ _ h := h

theorem armed_removeHandlers (h : Armed w) : Armed w.removeHandlers :=
  of_removeHandlers fun _ _ => h

theorem armed_addHandlers (h : Armed w) :
    Armed (World.addWritableHandler (World.addReadableHandler w)) :=
  of_addHandlers fun _ _ => h

theorem armed_reconnect (hcalls : env.Harmless) {reason : Bytes} :
    Triple Armed (Client.reconnect env reason) (fun _ => Armed) Armed := by
  refine triple_bind armed_enduring.cancelTimer fun _ => ?_
  refine triple_bind (Q := fun _ => Armed) (triple_modify fun _ => armed_removeHandlers) fun _ => ?_
  refine triple_bind (Q := fun _ => Armed) ?_ fun _ => ?_
  · refine triple_get_bind fun w hw => triple_at (P := Armed) ?_ hw
    cases w.conn with
    | none => exact triple_throw fun _ h => h
    | some c => exact triple_modify fun _ h => h
  refine triple_bind (Q := fun _ => Armed) (triple_modify fun _ h => h) fun _ => ?_
  refine triple_bind (Q := fun _ => Armed) (triple_modify fun _ h => h) fun _ => ?_
  refine triple_get_bind fun w hw => triple_at (P := Armed) ?_ hw
  refine triple_bind (armed_enduring.passed (passes_trigger hcalls)) fun _ => ?_
  refine triple_get_bind fun w hw => triple_at (P := Armed) ?_ hw
  cases w.reconnecttime with
  | none => exact triple_throw fun _ h => h
  | some interval => exact triple_modify fun _ _ => rfl

theorem armed_breaks (hcalls : env.Harmless) : Breaks env Armed Armed where
  toEnduring := armed_enduring
  remove _ := armed_removeHandlers
  wrap _ _ _ h := armed_addHandlers h
  handshake _ _ h := h
  unbroken _ h := h
  reconnect _ := armed_reconnect hcalls

/-- Nothing has happened to the Client yet. -/
structure Unstarted (w : World) : Prop where
  state : w.session.state = .disconnected
  timer : w.timer = none
  conn : w.conn = none
  timers : w.loop.timers = []

theorem unstarted_passes {α : Type} {m : Eff World α} (hm : Moves Passes m) :
    Triple Unstarted m (fun _ => Unstarted) Unstarted := by
  refine triple_of_moves hm fun w u hpasses h => ?_
  exact ⟨(state_of_core hpasses.core).trans h.state,
    (congrArg (fun w => w.timer) hpasses.core).trans h.timer,
    (congrArg (fun w => w.conn) hpasses.core).trans h.conn,
    (congrArg (fun w => w.loop.timers) hpasses.core).trans h.timers⟩

/-- Without a socket nothing is read. -/
theorem unstarted_onReceived {received : Received} :
    Triple Unstarted (Client.onReceived env received) (fun _ => Unstarted) Unstarted := by
  refine triple_get_bind fun w h => ?_
  rw [h.conn]
  exact triple_throw fun u hu => hu ▸ h

theorem unstarted_onReady {up : Eff World Unit}
    (hup : Triple Unstarted up (fun _ => Unstarted) Unstarted) :
    Triple Unstarted (Client.onReady env up) (fun _ => Unstarted) Unstarted :=
  triple_onReady (fun _ h => by simp [h.state]) hup

section Harmless

variable (hcalls : env.Harmless)
include hcalls

omit hcalls in
/-- The first attempt to connect sets a timer. -/
theorem armed_connect :
    Triple Unstarted (Client.connect env) (fun _ => Armed) fun _ => False := by
  refine triple_get_bind fun w h => ?_
  rw [if_pos (Or.inl h.state)]
  refine triple_bind (Q := fun _ u => u.timer = none) (triple_modify fun u hu => ?_) fun _ => ?_
  · subst hu
    exact h.timer
  refine triple_bind (Q := fun _ _ => True) ?_ fun _ => ?_
  · refine triple_get_bind fun u hu => ?_
    rw [if_neg (by simp [hu])]
    exact triple_pure fun _ _ => trivial
  refine triple_bind (Q := fun _ _ => True) (triple_modify fun _ _ => trivial) fun _ => ?_
  refine triple_bind (Q := fun _ _ => True) (triple_modify fun _ _ => trivial) fun _ => ?_
  refine triple_bind (Q := fun _ _ => True) (triple_modify fun _ _ => trivial) fun _ => ?_
  exact triple_modify fun _ _ => rfl

theorem armed_step (h : Armed s.world) (hstep : s.step env i = some t) : Armed t.world := by
  have hbreaks := armed_breaks hcalls
  have hconnect : Triple Armed (Client.connect env) (fun _ => Armed) Armed :=
    keeps_connect hcalls armed_enduring (fun _ h => h) fun _ h => armed_addHandlers h
  refine step_rule hcalls hstep (fun _ => h) (fun _ _ _ hu => hu) (fun received => ?_) ?_
    (fun j timer _ _ => ?_) (fun _ => ?_) (fun _ _ => ?_) fun m hm => ?_
  · exact triple_after (hbreaks.onReadable hcalls) h
  · exact triple_after (hbreaks.onWritable hcalls) h
  · exact triple_after (hbreaks.onTimer hcalls hconnect) h
  · exact triple_after hconnect h
  · exact triple_after (keeps_disconnect hcalls armed_enduring (fun _ h => h)
      (fun _ => armed_removeHandlers) fun _ h => h) h
  · exact triple_after (armed_enduring.passed hm) h

theorem unstarted_step (h : Unstarted s.world) (hstep : s.step env i = some t) :
    Armed t.world ∨ Unstarted t.world := by
  refine step_rule (Q := fun u => Armed u ∨ Unstarted u) hcalls hstep (fun _ => ?_)
    (fun u _ hloop hu => ?_) (fun received => ?_) ?_ (fun j timer _ hdue => ?_) (fun _ => ?_)
    (fun arg _ => ?_) fun m hm => ?_
  · exact Or.inr ⟨h.state, h.timer, h.conn, h.timers⟩
  · exact hu.imp id fun hu => ⟨hu.state, hu.timer, hu.conn, hloop.trans hu.timers⟩
  · have hcalled : Triple Unstarted (Client.onReadable env received) (fun _ => Unstarted) Unstarted :=
      triple_bind (unstarted_onReady unstarted_onReceived) fun _ => triple_pure fun _ h => h
    exact Or.inr (triple_after hcalled h)
  · have hcalled : Triple Unstarted (Client.onWritable env) (fun _ => Unstarted) Unstarted :=
      triple_bind (unstarted_onReady (unstarted_passes passes_flush)) fun _ =>
        triple_pure fun _ h => h
    exact Or.inr (triple_after hcalled h)
  · obtain ⟨_, hlive, -⟩ := Timers.live_of_due hdue
    exact absurd (Timers.lt_length_of_live hlive) (by simp [h.timers])
  · exact Or.inl (triple_after_return armed_connect h)
  · have hkeeps : Triple Unstarted (Client.disconnect env arg) (fun _ => Unstarted) Unstarted := by
      refine triple_get_bind fun w hw => ?_
      rw [if_pos hw.state]
      exact triple_pure fun u hu => hu ▸ hw
    exact Or.inr (triple_after hkeeps h)
  · exact Or.inr (triple_after (unstarted_passes hm) h)

/-- Only a Client that nothing has happened to yet has no timer. -/
theorem armed_or_unstarted (hrun : run (ClientLoop.step env) (.new nick now) inputs = some s) :
    Armed s.world ∨ Unstarted s.world := by
  refine run_keeps (I := fun s => Armed s.world ∨ Unstarted s.world) (fun s i t h hstep => ?_)
    (Or.inr ⟨rfl, rfl, rfl, rfl⟩) hrun
  rcases h with h | h
  · exact Or.inl (armed_step hcalls h hstep)
  · exact unstarted_step hcalls h hstep

end Harmless

end TuxBot.Irc
