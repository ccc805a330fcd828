import TuxBot.Irc.ClientFrame

/-! Every function of a Client mentions only sockets it made and takes every key once. -/
namespace TuxBot.Irc

open TuxBot.Lua TuxBot.Lua.Eff

variable {env : Env} {w u : World}

theorem grows_removeHandlers (w : World) : Grows w w.removeHandlers := by
  unfold World.removeHandlers
  split
  · refine grows_of_same (Or.inl rfl) rfl rfl rfl ?_ rfl
    intro r hr
    exact List.mem_of_mem_filter hr
  · exact grows_refl w

theorem sockets_removeHandlers : w.removeHandlers.sockets = w.sockets := by
  unfold World.removeHandlers
  split <;> rfl

/-- A new socket with its handlers. -/
theorem grows_newConn {k handler : Nat} (hk : k = w.sockets) : Grows w (World.addWritableHandler
    (World.addReadableHandler
      { w with conn := some k, sockets := k + 1, handler := handler })) := by
  subst hk
  refine grows_trans _ _ _ ?_ (grows_addWritableHandler _)
  refine grows_trans _ _ _ ?_ (grows_addReadableHandler _)
  refine ⟨fun h => ⟨?_, ?_, ?_, h.keys⟩, Nat.le_refl _⟩
  · intro c hc
    obtain rfl := Option.some.inj hc
    exact Nat.lt_succ_self _
  · exact fun e he => Nat.lt_succ_of_lt (h.wire e he)
  · exact fun e he => Nat.lt_succ_of_lt (h.passed e he)

/-- Nothing that `Bounded` reads is changed. -/
theorem grows_same (hconn : u.conn = w.conn) (hsockets : u.sockets = w.sockets)
    (hwire : u.wire = w.wire) (hpassed : u.passed = w.passed)
    (hregs : u.loop.writableHandlers = w.loop.writableHandlers)
    (hkey : u.loop.nextKey = w.loop.nextKey) : Grows w u :=
  grows_of_same (Or.inl hconn) hsockets hwire hpassed (fun _ hr => hregs ▸ hr) hkey

theorem grows_passes {α : Type} {m : Eff World α} (hm : Moves Passes m) : Moves Grows m := by
  intro s
  exact triple_conseq (hm s) (fun _ h => h) (fun _ _ h => h.grows) fun _ h => h.grows

/-! ### Relations along which a Client moves -/

/-- A relation between what a Client was and what it is, kept by the elementary steps of the functions
that connect and disconnect. -/
structure Traced (env : Env) (R : World → World → Prop) : Prop where
  refl : ∀ w, R w w
  trans : ∀ a b c, R a b → R b c → R a c
  /-- The buffers, the timers, the state and the settings do not matter. -/
  same : ∀ w u : World, u.session.nick = w.session.nick → u.events = w.events → u.conn = w.conn →
    u.sockets = w.sockets → u.wire = w.wire → u.passed = w.passed →
    u.loop.writableHandlers = w.loop.writableHandlers → u.loop.nextKey = w.loop.nextKey → R w u
  removed : ∀ w, R w w.removeHandlers
  watched : ∀ w, R w w.addWritableHandler
  opened : ∀ (w : World) (handler : Nat), R w (World.addWritableHandler (World.addReadableHandler
    { w with conn := some w.sockets, sockets := w.sockets + 1, handler }))
  closed : ∀ w : World, R w { w with conn := none }
  statechanged : ∀ state reason interval,
    Moves R (Client.trigger env (.statechanged state reason interval))
  sendmessage : ∀ cmd args, Moves R (Client.sendmessage env cmd args)
  sendQuit : ∀ arg, Moves R (Client.sendQuit env arg)

namespace Traced

variable {R : World → World → Prop} (h : Traced env R)
include h

theorem next {α β : Type} {m : Eff World α} {k : α → Eff World β} (hm : Moves R m)
    (hk : ∀ a, Moves R (k a)) : Moves R (m >>= k) := moves_bind h.trans hm hk

theorem read {α : Type} {k : World → Eff World α} (hk : ∀ w, Moves R (k w)) :
    Moves R (get >>= k) := h.next (moves_get h.refl) hk

theorem returned {α : Type} {a : α} : Moves R (pure a : Eff World α) := moves_pure h.refl

theorem raised {α : Type} {e : String} : Moves R (throw e : Eff World α) := moves_throw h.refl

theorem cancelTimer : Moves R Client.cancelTimer := by
  refine h.read fun w => ?_
  cases w.timer with
  | none => exact h.raised
  | some i => exact moves_modify fun w => h.same w _ rfl rfl rfl rfl rfl rfl rfl rfl

theorem arm {timeout : ℚ} {callback : ClientTimer} : Moves R (Client.arm timeout callback) :=
  moves_modify fun w => h.same w _ rfl rfl rfl rfl rfl rfl rfl rfl

theorem enter {state : ClientState} : Moves R (Client.enter state) :=
  moves_modify fun w => h.same w _ rfl rfl rfl rfl rfl rfl rfl rfl

theorem closeConn : Moves R Client.closeConn := by
  refine h.read fun w => ?_
  cases w.conn with
  | none => exact h.raised
  | some conn => exact moves_modify h.closed

theorem reconnect {reason : Bytes} : Moves R (Client.reconnect env reason) := by
  refine h.next h.cancelTimer fun _ => h.next (moves_modify h.removed) fun _ => ?_
  refine h.next h.closeConn fun _ => h.next (moves_modify fun w => ?_) fun _ => ?_
  · exact h.same w _ rfl rfl rfl rfl rfl rfl rfl rfl
  refine h.next h.enter fun _ => h.read fun _ => ?_
  refine h.next (h.statechanged _ _ _) fun _ => h.read fun w => ?_
  cases w.reconnecttime with
  | none => exact h.raised
  | some interval => exact h.arm

theorem connect : Moves R (Client.connect env) := by
  refine h.read fun w => moves_ite ?_ h.raised
  refine h.next (moves_modify fun w => h.same w _ rfl rfl rfl rfl rfl rfl rfl rfl) fun _ => ?_
  refine h.next (h.read fun _ => moves_ite h.cancelTimer h.returned) fun _ => ?_
  refine h.next (moves_modify fun w => h.opened w _) fun _ => ?_
  exact h.next h.enter fun _ => h.next (h.statechanged _ _ _) fun _ => h.arm

theorem disconnect {arg : Client.QuitArg} : Moves R (Client.disconnect env arg) := by
  refine h.read fun w => moves_ite h.returned (moves_ite ?_ ?_)
  · refine h.next h.cancelTimer fun _ => ?_
    exact moves_modify fun w => h.same w _ rfl rfl rfl rfl rfl rfl rfl rfl
  · refine h.next (h.sendQuit arg) fun _ => h.next h.cancelTimer fun _ => ?_
    refine h.next (moves_modify h.removed) fun _ => h.next h.closeConn fun _ => ?_
    exact h.next h.enter fun _ => h.statechanged _ _ _

theorem onSslHandshakeDone : Moves R (Client.onSslHandshakeDone env) := by
  refine h.next h.cancelTimer fun _ => ?_
  refine h.next (moves_modify fun w => h.same w _ rfl rfl rfl rfl rfl rfl rfl rfl) fun _ => ?_
  refine h.next h.enter fun _ => h.next (h.statechanged _ _ _) fun _ => ?_
  refine h.next (h.sendmessage _ _) fun _ => h.read fun _ => ?_
  exact h.next (h.sendmessage _ _) fun _ => h.arm

theorem doSslHandshake : Moves R (Client.doSslHandshake env) := by
  refine h.read fun w => ?_
  cases w.conn with
  | none => exact h.raised
  | some conn =>
    refine h.next (moves_modify fun w => h.same w _ rfl rfl rfl rfl rfl rfl rfl rfl) fun _ => ?_
    cases env.dohandshake w with
    | none => exact h.onSslHandshakeDone
    | some err =>
      refine moves_ite h.returned (moves_ite (moves_modify h.watched) ?_)
      exact moves_ite h.reconnect h.reconnect

theorem onSocketConnected : Moves R (Client.onSocketConnected env) := by
  refine h.next h.cancelTimer fun _ => moves_ite ?_ h.onSslHandshakeDone
  have hwrap : Moves R Client.wrapConn := moves_modify fun w =>
    h.trans w w.removeHandlers _ (h.removed w) <| by
      rw [← sockets_removeHandlers]
      exact h.opened w.removeHandlers _
  refine h.next hwrap fun _ => h.next h.enter fun _ => ?_
  exact h.next (h.statechanged _ _ _) fun _ => h.next h.arm fun _ => h.doSslHandshake

theorem ping : Moves R (Client.ping env) := by
  refine h.next h.cancelTimer fun _ => ?_
  refine h.next (moves_modify fun w => h.same w _ rfl rfl rfl rfl rfl rfl rfl rfl) fun _ => ?_
  exact h.read fun _ => h.next (h.sendmessage _ _) fun _ => h.arm

theorem onClosed : Moves R (Client.onClosed env) := by
  refine h.read fun w => moves_ite ?_ h.reconnect
  refine h.next h.enter fun _ => h.next (h.statechanged _ _ _) fun _ => ?_
  exact moves_modify h.removed

theorem onReceived {received : Received} (hread : ∀ n, Moves R (Client.readLines env n)) :
    Moves R (Client.onReceived env received) := by
  refine h.read fun w => ?_
  cases w.conn with
  | none => exact h.raised
  | some conn =>
    cases w.recvbuf with
    | none => exact h.raised
    | some buf =>
      refine h.next (moves_modify fun w => h.same w _ rfl rfl rfl rfl rfl rfl rfl rfl) fun _ => ?_
      exact h.next (hread _) fun _ => moves_ite h.onClosed h.returned

theorem onReady {up : Eff World Unit} (hup : Moves R up) : Moves R (Client.onReady env up) := by
  refine h.read fun w => ?_
  cases w.session.state with
  | connecting => exact h.onSocketConnected
  | sslhandshake => exact h.doSslHandshake
  | disconnected => exact hup
  | registering => exact hup
  | connected => exact hup
  | reconnecting => exact hup

theorem onReadable (hread : ∀ n, Moves R (Client.readLines env n)) (received : Received) :
    Moves R (Client.onReadable env received) :=
  h.next (h.onReady (h.onReceived hread)) fun _ => h.returned

theorem onWritable (hflush : Moves R (Client.flush env)) : Moves R (Client.onWritable env) :=
  h.next (h.onReady hflush) fun _ => h.returned

theorem onTimer (timer : ClientTimer) : Moves R (Client.onTimer env timer) := by
  cases timer with
  | reconnect reason => exact h.reconnect
  | connect => exact h.connect
  | ping => exact h.ping

end Traced

/-! ### What every function does to the sockets -/

/-- What has grown from `w` stays so. -/
theorem grows_enduring (w : World) : Enduring (Grows w) where
  passes u v hpasses h := grows_trans w u v h hpasses.grows
  recvbuf u _ h := grows_trans w u _ h (grows_same rfl rfl rfl rfl rfl rfl)
  connstate u _ h := grows_trans w u _ h (grows_same rfl rfl rfl rfl rfl rfl)
  isupport u _ h := grows_trans w u _ h (grows_same rfl rfl rfl rfl rfl rfl)
  quit u h := grows_trans w u _ h (grows_same rfl rfl rfl rfl rfl rfl)
  pingtime u _ h := grows_trans w u _ h (grows_same rfl rfl rfl rfl rfl rfl)
  connected u _ h := grows_trans w u _ h (grows_same rfl rfl rfl rfl rfl rfl)
  cancel u _ h := grows_trans w u _ h (grows_same rfl rfl rfl rfl rfl rfl)
  arm u _ _ h := grows_trans w u _ h (grows_same rfl rfl rfl rfl rfl rfl)
  enter u _ _ h := grows_trans w u _ h (grows_same rfl rfl rfl rfl rfl rfl)

theorem traced_grows (hcalls : env.Harmless) : Traced env Grows where
  refl := grows_refl
  trans := grows_trans
  same _ _ _ _ hconn hsockets hwire hpassed hregs hkey :=
    grows_same hconn hsockets hwire hpassed hregs hkey
  removed := grows_removeHandlers
  watched := grows_addWritableHandler
  opened _ _ := grows_newConn rfl
  closed _ := grows_of_same (Or.inr rfl) rfl rfl rfl (fun _ hr => hr) rfl
  statechanged _ _ _ := grows_passes (passes_trigger hcalls)
  sendmessage _ _ := grows_passes (passes_sendmessage hcalls)
  sendQuit _ := grows_passes (passes_get fun _ => moves_ite (passes_then (passes_trigger hcalls)
    fun _ => passes_then passes_connSend fun _ => passes_pure) passes_pure)

theorem grows_cancelTimer : Moves Grows Client.cancelTimer :=
  (traced_grows harmless_silent).cancelTimer

section Harmless

variable (hcalls : env.Harmless)
include hcalls

theorem grows_connect : Moves Grows (Client.connect env) := (traced_grows hcalls).connect

theorem grows_disconnect {arg : Client.QuitArg} : Moves Grows (Client.disconnect env arg) :=
  (traced_grows hcalls).disconnect

theorem grows_readLines (m : Nat) : Moves Grows (Client.readLines env m) :=
  fun s => triple_at ((grows_enduring s).readLines hcalls m) (grows_refl s)

theorem grows_onReadable (received : Received) : Moves Grows (Client.onReadable env received) :=
  (traced_grows hcalls).onReadable (grows_readLines hcalls) received

theorem grows_onWritable : Moves Grows (Client.onWritable env) :=
  (traced_grows hcalls).onWritable (grows_passes passes_flush)

theorem grows_onTimer (timer : ClientTimer) : Moves Grows (Client.onTimer env timer) :=
  (traced_grows hcalls).onTimer timer

end Harmless

end TuxBot.Irc
