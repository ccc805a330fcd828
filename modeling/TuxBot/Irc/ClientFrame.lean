import TuxBot.Irc.ClientRun

/-! What the functions of a Client leave alone, and which assertions reading messages keeps. -/
namespace TuxBot.Irc

open TuxBot.Lua TuxBot.Lua.Eff

variable {env : Env} {w u : World} {conn : Nat} {str line : Bytes} {P E : World → Prop}

/-- Everything but what sending changes: the send buffer, the registrations for writing, the logs and
the nick. -/
def World.core (w : World) : World :=
  { w with
    session := { w.session with nick := [] }
    loop := { w.loop with writableHandlers := [], nextKey := 0 }
    sendbuf := none
    passed := []
    wire := []
    events := [] }

/-- Sockets and registrations that are mentioned were made. -/
structure Bounded (w : World) : Prop where
  conn : ∀ c, w.conn = some c → c < w.sockets
  wire : ∀ e ∈ w.wire, e.1 < w.sockets
  passed : ∀ e ∈ w.passed, e.1 < w.sockets
  keys : ∀ r ∈ w.loop.writableHandlers, r.key < w.loop.nextKey

/-- What every function does: it mentions what exists, and takes no key twice. -/
structure Grows (w u : World) : Prop where
  bounded : Bounded w → Bounded u
  nextKey : w.loop.nextKey ≤ u.loop.nextKey

theorem grows_refl (w : World) : Grows w w := ⟨id, Nat.le_refl _⟩

theorem grows_trans (a b c : World) (hab : Grows a b) (hbc : Grows b c) : Grows a c :=
  ⟨fun h => hbc.bounded (hab.bounded h), hab.nextKey.trans hbc.nextKey⟩

/-- A step that makes no socket and no registration and logs nothing. -/
theorem grows_of_same (hconn : u.conn = w.conn ∨ u.conn = none) (hsockets : u.sockets = w.sockets)
    (hwire : u.wire = w.wire) (hpassed : u.passed = w.passed)
    (hregs : ∀ r ∈ u.loop.writableHandlers, r ∈ w.loop.writableHandlers)
    (hkey : u.loop.nextKey = w.loop.nextKey) : Grows w u := by
  refine ⟨fun h => ⟨?_, ?_, ?_, ?_⟩, hkey.ge⟩
  · intro c hc
    rw [hsockets]
    rcases hconn with hconn | hconn
    · exact h.conn c (hconn ▸ hc)
    · cases hconn.symm.trans hc
  · rw [hsockets, hwire]
    exact h.wire
  · rw [hsockets, hpassed]
    exact h.passed
  · intro r hr
    rw [hkey]
    exact h.keys r (hregs r hr)

theorem addWritableHandler_eq (hconn : w.conn = some conn) :
    w.addWritableHandler = { w with loop := w.loop.addWritableHandler conn w.handler } := by
  simp [World.addWritableHandler, hconn]

theorem core_addWritableHandler (w : World) : w.addWritableHandler.core = w.core := by
  unfold World.addWritableHandler
  split <;> rfl

theorem grows_addWritableHandler (w : World) : Grows w w.addWritableHandler := by
  cases hconn : w.conn with
  | none =>
    simp only [World.addWritableHandler, hconn]
    exact grows_refl w
  | some conn =>
    rw [addWritableHandler_eq hconn]
    refine ⟨fun h => ⟨h.conn, h.wire, h.passed, ?_⟩, Nat.le_succ _⟩
    intro r hr
    rcases List.mem_cons.mp hr with rfl | hr
    · exact Nat.lt_succ_self _
    · exact Nat.lt_succ_of_lt (h.keys r hr)

theorem grows_addReadableHandler (w : World) : Grows w w.addReadableHandler := by
  unfold World.addReadableHandler
  split
  · refine ⟨fun h => ⟨h.conn, h.wire, h.passed, ?_⟩, Nat.le_succ _⟩
    intro r hr
    exact Nat.lt_succ_of_lt (h.keys r hr)
  · exact grows_refl w

/-- The Client's handlers are removed, and nothing else. -/
theorem of_removeHandlers (h : ∀ loop, loop.timers = w.loop.timers → P { w with loop }) :
    P w.removeHandlers := by
  unfold World.removeHandlers
  split
  · exact h _ rfl
  · exact h w.loop rfl

/-- The Client's handlers are added, and nothing else. -/
theorem of_addHandlers (h : ∀ loop, loop.timers = w.loop.timers → P { w with loop }) :
    P w.addReadableHandler.addWritableHandler := by
  unfold World.addWritableHandler World.addReadableHandler
  split
  · split
    · exact h _ rfl
    · exact h _ rfl
  · split
    · exact h _ rfl
    · exact h w.loop rfl

theorem core_pass (w : World) : (w.pass str).core = w.core := by
  unfold World.pass
  split <;> rfl

theorem grows_pass (w : World) : Grows w (w.pass str) := by
  unfold World.pass
  split
  · rename_i conn hconn
    refine ⟨fun h => ⟨h.conn, h.wire, ?_, h.keys⟩, Nat.le_refl _⟩
    intro e he
    rcases List.mem_append.mp he with he | he
    · exact h.passed e he
    · obtain rfl := List.mem_singleton.mp he
      exact h.conn conn hconn
  · exact grows_refl w

/-! ### Sending and the callbacks -/

/-- A relation between what a Client was and what it is, kept by what sending does. -/
structure Transmits (R : World → World → Prop) : Prop where
  refl : ∀ w, R w w
  trans : ∀ a b c, R a b → R b c → R a c
  passed : ∀ (w : World) str, R w (w.pass str)
  kept : ∀ (w : World) unsent, R w (World.addWritableHandler { w with sendbuf := some unsent })
  accepted : ∀ (w : World) conn data, w.conn = some conn →
    R w { w with wire := w.wire ++ [(conn, data)] }
  cleared : ∀ w : World, R w { w with sendbuf := some [] }

namespace Transmits

variable {R : World → World → Prop} (h : Transmits R)
include h

theorem keepUnsent {unsent : Bytes} : Moves R (Client.keepUnsent unsent) :=
  moves_modify fun w => h.kept w unsent

theorem connSend {data : Bytes} : Moves R (Client.connSend env data) := by
  intro s
  refine triple_get_bind fun w hw => ?_
  subst hw
  cases hconn : w.conn with
  | none => exact triple_throw fun _ hu => hu ▸ h.refl _
  | some conn =>
    exact triple_bind (Q := fun _ => R w) (triple_modify fun u hu => hu ▸ h.accepted w conn _ hconn)
      fun _ => triple_pure fun _ hu => hu

theorem send : Moves R (Client.send env str) := by
  refine moves_bind h.trans (moves_modify fun w => h.passed w str) fun _ => ?_
  refine moves_bind h.trans (moves_get h.refl) fun w => ?_
  cases w.sendbuf with
  | none => exact moves_throw h.refl
  | some buf =>
    cases buf with
    | cons b buf => exact h.keepUnsent
    | nil =>
      refine moves_bind h.trans h.connSend fun result => ?_
      cases result with
      | sent => exact moves_pure h.refl
      | error err bytessent => exact moves_ite h.keepUnsent (moves_pure h.refl)

theorem flush : Moves R (Client.flush env) := by
  have hclear : Moves R (modify fun w => { w with sendbuf := some [] } : Eff World Unit) :=
    moves_modify h.cleared
  refine moves_bind h.trans (moves_get h.refl) fun w => ?_
  cases w.sendbuf with
  | none => exact moves_throw h.refl
  | some buf =>
    cases buf with
    | nil => exact moves_pure h.refl
    | cons b buf =>
      refine moves_bind h.trans h.connSend fun result => ?_
      cases result with
      | sent => exact hclear
      | error err bytessent => exact moves_ite h.keepUnsent hclear

theorem sends (hnote : ∀ (w : World) events nick,
    R w { w with events, session := { w.session with nick } }) (hsends : Sends env w u) : R w u := by
  induction hsends with
  | refl => exact h.refl _
  | send str _ _ ih => exact h.trans _ _ _ ih (moves_pcall h.send _)
  | note events nick _ ih => exact h.trans _ _ _ ih (hnote _ events nick)

end Transmits

/-- What sending and the callbacks do. -/
structure Passes (w u : World) : Prop where
  core : u.core = w.core
  grows : Grows w u

theorem passes_refl (w : World) : Passes w w := ⟨rfl, grows_refl w⟩

theorem passes_trans (a b c : World) (hab : Passes a b) (hbc : Passes b c) : Passes a c :=
  ⟨hbc.core.trans hab.core, grows_trans a b c hab.grows hbc.grows⟩

theorem passes_then {α β : Type} {m : Eff World α} {k : α → Eff World β} (hm : Moves Passes m)
    (hk : ∀ a, Moves Passes (k a)) : Moves Passes (m >>= k) := moves_bind passes_trans hm hk

theorem passes_get {α : Type} {k : World → Eff World α} (hk : ∀ w, Moves Passes (k w)) :
    Moves Passes (get >>= k) := passes_then (moves_get passes_refl) hk

theorem passes_pure {α : Type} {a : α} : Moves Passes (pure a : Eff World α) :=
  moves_pure passes_refl

theorem passes_throw {α : Type} {e : String} : Moves Passes (throw e : Eff World α) :=
  moves_throw passes_refl

/-- A note that nothing of this depends on. -/
theorem passes_note (hcore : u.core = w.core) (hloop : u.loop = w.loop) (hwire : u.wire = w.wire)
    (hpassed : u.passed = w.passed) : Passes w u := by
  refine ⟨hcore, grows_of_same ?_ ?_ hwire hpassed ?_ ?_⟩
  · exact Or.inl (congrArg (fun w => w.conn) hcore)
  · exact congrArg (fun w => w.sockets) hcore
  · exact fun r hr => hloop ▸ hr
  · rw [hloop]

theorem transmits_passes : Transmits Passes where
  refl := passes_refl
  trans := passes_trans
  passed w _ := ⟨core_pass w, grows_pass w⟩
  kept w unsent := passes_trans w { w with sendbuf := some unsent } _ (passes_note rfl rfl rfl rfl)
    ⟨core_addWritableHandler _, grows_addWritableHandler _⟩
  accepted w conn data hconn := by
    refine ⟨rfl, fun h => ⟨h.conn, ?_, h.passed, h.keys⟩, Nat.le_refl _⟩
    intro e he
    rcases List.mem_append.mp he with he | he
    · exact h.wire e he
    · obtain rfl := List.mem_singleton.mp he
      exact h.conn conn hconn
  cleared _ := passes_note rfl rfl rfl rfl

theorem passes_connSend {data : Bytes} : Moves Passes (Client.connSend env data) :=
  transmits_passes.connSend

theorem passes_send : Moves Passes (Client.send env str) := transmits_passes.send

theorem passes_sends (h : Sends env w u) : Passes w u :=
  transmits_passes.sends (fun _ _ _ => passes_note rfl rfl rfl rfl) h

theorem passes_flush : Moves Passes (Client.flush env) := transmits_passes.flush

section Harmless

variable (hcalls : env.Harmless)
include hcalls

theorem passes_trigger {event : ClientEvent} : Moves Passes (Client.trigger env event) :=
  moves_modify fun w => passes_trans w { w with events := w.events ++ [event] } _
    (passes_note rfl rfl rfl rfl) (passes_sends (hcalls event _))

theorem passes_sendmessageline : Moves Passes (Client.sendmessageline env line) := by
  refine passes_get fun w => moves_ite ?_ passes_throw
  exact passes_then (passes_trigger hcalls) fun _ => passes_send

theorem passes_sendmessage {cmd : Bytes} {args : List (Option Bytes)} :
    Moves Passes (Client.sendmessage env cmd args) := passes_sendmessageline hcalls

theorem passes_sendctcpreply {target : Option Bytes} {cmd : Bytes} {arg : Option Bytes} :
    Moves Passes (Client.sendctcpreply env target cmd arg) :=
  passes_then (passes_sendmessage hcalls) fun _ => passes_get fun _ => passes_trigger hcalls

theorem passes_changeNick {nick : Bytes} : Moves Passes (Client.changeNick env nick) := by
  refine passes_get fun w => passes_then (passes_trigger hcalls) fun _ => ?_
  exact moves_modify fun w => passes_note rfl rfl rfl rfl

theorem passes_adoptNick {nick : Bytes} : Moves Passes (Client.adoptNick env nick) :=
  passes_get fun _ => moves_ite passes_pure (passes_changeNick hcalls)

theorem passes_setNick {nick : Bytes} : Moves Passes (Client.setNick env nick) := by
  refine passes_get fun w => moves_ite (passes_sendmessage hcalls) (moves_ite ?_ passes_pure)
  exact passes_then (moves_modify fun w => passes_note rfl rfl rfl rfl) fun _ => passes_throw

theorem passes_onCtcp {msg : Message} : Moves Passes (Client.onCtcp env msg) := by
  refine passes_get fun w => ?_
  split
  · cases ctcpReply env.info.texts (env.date w) _ _ with
    | none => exact passes_pure
    | some reply => exact passes_sendctcpreply hcalls
  · exact passes_throw

end Harmless

/-! ### Reading messages -/

/-- What the handlers of messages keep, the line loop keeps. What raises ends in `E`. -/
structure Reads (env : Env) (P E : World → Prop) : Prop where
  rest : ∀ w buf, P w → P { w with recvbuf := some buf }
  quit : ∀ w, P w → P { w with intentionallyQuit := true }
  isupport : ∀ w args, P w → P { w with session := w.session.onIsupport args }
  trigger : ∀ event, Triple P (Client.trigger env event) (fun _ => P) E
  welcome : ∀ msg nick, Triple (fun w => P w ∧ w.session.state = .registering)
    (Client.onWelcome env msg nick) (fun _ => P) E
  pong : ∀ time, Triple P (Client.onPong env time) (fun _ => P) E
  mode : ∀ change, Triple P (Client.onMode env change) (fun _ => P) E
  reply : ∀ args, Triple (fun w => P w ∧
      (w.session.state = .connected ∨ w.session.state = .registering))
    (Client.sendmessage env "PONG" args) (fun _ => P) E
  nick : ∀ nick, Triple P (Client.changeNick env nick) (fun _ => P) E
  ctcp : ∀ msg, (∃ target command rest, msg.args = target :: command :: rest) →
    Triple P (Client.onCtcp env msg) (fun _ => P) E

theorem Reads.onMessage (h : Reads env P E) {msg : Message}
    (hctcp : msg.cmd = lit ":CTCP" → ∃ target command rest, msg.args = target :: command :: rest) :
    Triple P (Client.onMessage env msg) (fun _ => P) E := by
  have hpass : Triple P (pure () : Eff World Unit) (fun _ => P) E := triple_pure fun _ h => h
  refine triple_get_bind fun w hw => ?_
  refine triple_ite (fun _ => ?_) fun _ => triple_ite (fun _ => ?_) fun _ =>
    triple_ite (fun _ => ?_) fun _ => triple_ite (fun _ => ?_) fun _ =>
    triple_ite (fun _ => ?_) fun _ => triple_ite (fun _ => ?_) fun _ =>
    triple_ite (fun _ => ?_) fun _ => triple_ite (fun hcmd => ?_) fun _ => triple_at hpass hw
  · split
    · exact triple_ite (fun hstate => triple_at (h.welcome msg _) ⟨hw, hstate⟩)
        fun _ => triple_at hpass hw
    · exact triple_at hpass hw
  · exact triple_ite (fun _ => triple_modify fun u hu => hu ▸ h.isupport w msg.args hw)
      fun _ => triple_at hpass hw
  · split
    · exact triple_at (h.pong _) hw
    · exact triple_at hpass hw
  · split
    · exact triple_ite (fun _ => triple_at (h.mode _) hw) fun _ => triple_at hpass hw
    · exact triple_at hpass hw
  · exact triple_ite (fun hstate => triple_at (h.reply _) ⟨hw, hstate⟩)
      fun _ => triple_at hpass hw
  · split
    · exact triple_ite (fun _ => triple_at (h.nick _) hw) fun _ => triple_at hpass hw
    · exact triple_at hpass hw
  · split
    · exact triple_ite (fun _ => triple_modify fun u hu => hu ▸ h.quit w hw)
        fun _ => triple_at hpass hw
    · exact triple_at hpass hw
  · exact triple_at (h.ctcp msg (hctcp hcmd)) hw

theorem Reads.handleLine (h : Reads env P E) :
    Triple P (Client.handleLine env line) (fun _ => P) E := by
  refine triple_get_bind fun w hw => triple_at ?_ hw
  cases hmsg : messageLineToTable w.session.nick w.time (lowlevelDequote line) with
  | none => exact triple_pure fun _ h => h
  | some msg =>
    refine triple_bind (h.trigger _) fun _ => ?_
    refine triple_bind (h.onMessage fun hcmd => ctcp_command hmsg hcmd) fun _ => ?_
    exact h.trigger _

theorem Reads.readLines (h : Reads env P E) (m : Nat) :
    Triple P (Client.readLines env m) (fun _ => P) E := by
  induction m with
  | zero => exact triple_pure fun _ h => h
  | succ m ih =>
    refine triple_get_bind fun w hw => triple_at ?_ hw
    split
    · exact triple_pure fun _ h => h
    · refine triple_bind (Q := fun _ => P) (triple_modify fun u hu => h.rest u _ hu) fun _ => ?_
      exact triple_bind h.handleLine fun _ => ih

/-- An assertion about neither the buffers nor what the server told. -/
structure Receptive (P : World → Prop) : Prop where
  passes : ∀ w u, Passes w u → P w → P u
  recvbuf : ∀ w buf, P w → P { w with recvbuf := buf }
  connstate : ∀ w c, P w → P { w with connstate := c }
  isupport : ∀ w args, P w → P { w with session := w.session.onIsupport args }
  quit : ∀ w, P w → P { w with intentionallyQuit := true }
  pingtime : ∀ w time, P w → P { w with pingtime := time }
  connected : ∀ w time, P w → P { w with timeLastConnected := time }

namespace Receptive

variable (h : Receptive P)
include h

/-- The state is not touched either. -/
theorem inState (S : ClientState → Prop) : Receptive fun w => P w ∧ S w.session.state where
  passes w u hpasses hw := by
    have hstate : u.session.state = w.session.state :=
      congrArg (fun w => w.session.state) hpasses.core
    exact ⟨h.passes w u hpasses hw.1, hstate ▸ hw.2⟩
  recvbuf w _ hw := ⟨h.recvbuf w _ hw.1, hw.2⟩
  connstate w _ hw := ⟨h.connstate w _ hw.1, hw.2⟩
  isupport w args hw := ⟨h.isupport w args hw.1, by simpa using hw.2⟩
  quit w hw := ⟨h.quit w hw.1, hw.2⟩
  pingtime w _ hw := ⟨h.pingtime w _ hw.1, hw.2⟩
  connected w _ hw := ⟨h.connected w _ hw.1, hw.2⟩

theorem passed {α : Type} {m : Eff World α} (hm : Moves Passes m) : Triple P m (fun _ => P) P :=
  triple_of_moves hm h.passes

theorem updateConnstate {f : ConnState → ConnState} :
    Triple P (Client.updateConnstate f) (fun _ => P) P := by
  refine triple_get_bind fun w hw => triple_at ?_ hw
  cases w.connstate with
  | none => exact triple_throw fun _ h => h
  | some c => exact triple_modify fun u hu => h.connstate u _ hu

variable (hcalls : env.Harmless)
include hcalls

theorem noteServeraddress {host : Option Bytes} :
    Triple P (Client.noteServeraddress env host) (fun _ => P) P := by
  cases host with
  | none => exact triple_pure fun _ h => h
  | some host =>
    exact triple_bind h.updateConnstate fun _ => h.passed (passes_trigger hcalls)

theorem onMode {change : Bytes} : Triple P (Client.onMode env change) (fun _ => P) P := by
  refine triple_bind h.updateConnstate fun _ => ?_
  refine triple_get_bind fun w hw => triple_at ?_ hw
  cases w.connstate with
  | none => exact triple_throw fun _ h => h
  | some c => exact h.passed (passes_trigger hcalls)

/-- What such an assertion and the handlers that touch the timer need to be kept while reading. -/
theorem reads_of (hraise : ∀ w, P w → E w)
    (hwelcome : ∀ msg nick, Triple (fun w => P w ∧ w.session.state = .registering)
      (Client.onWelcome env msg nick) (fun _ => P) E)
    (hpong : ∀ time, Triple P (Client.onPong env time) (fun _ => P) E) : Reads env P E := by
  have hkeeps : ∀ {α : Type} {m : Eff World α}, Triple P m (fun _ => P) P →
      Triple P m (fun _ => P) E := fun hm => triple_conseq hm (fun _ hw => hw) (fun _ _ hw => hw) hraise
  exact {
    rest := fun w buf => h.recvbuf w (some buf)
    quit := h.quit
    isupport := h.isupport
    trigger := fun _ => hkeeps (h.passed (passes_trigger hcalls))
    welcome := hwelcome
    pong := hpong
    mode := fun _ => hkeeps (h.onMode hcalls)
    reply := fun _ => triple_conseq (h.passed (passes_sendmessage hcalls)) (fun _ hw => hw.1)
      (fun _ _ hw => hw) hraise
    nick := fun _ => hkeeps (h.passed (passes_changeNick hcalls))
    ctcp := fun _ _ => hkeeps (h.passed (passes_onCtcp hcalls)) }

theorem reads
    (hwelcome : ∀ msg nick, Triple (fun w => P w ∧ w.session.state = .registering)
      (Client.onWelcome env msg nick) (fun _ => P) P)
    (hpong : ∀ time, Triple P (Client.onPong env time) (fun _ => P) P) : Reads env P P :=
  h.reads_of hcalls (fun _ hw => hw) hwelcome hpong

end Receptive

/-- An assertion that is not about timers either. -/
structure Timeless (P : World → Prop) : Prop extends Receptive P where
  cancel : ∀ w i, P w → P { w with loop := w.loop.cancel i }
  arm : ∀ w timeout callback, P w → P (w.arm timeout callback)

/-- An assertion that does not tell apart the states other than `reconnecting`. -/
structure Enduring (P : World → Prop) : Prop extends Timeless P where
  enter : ∀ w state, state ≠ .reconnecting → P w → P (w.enter state)

namespace Timeless

variable (h : Timeless P)
include h

theorem cancelTimer : Triple P Client.cancelTimer (fun _ => P) P := by
  refine triple_get_bind fun w hw => triple_at ?_ hw
  cases w.timer with
  | none => exact triple_throw fun _ hu => hu
  | some i => exact triple_modify fun u hu => h.cancel u i hu

theorem armed {timeout : ℚ} {callback : ClientTimer} {E : World → Prop} :
    Triple P (Client.arm timeout callback) (fun _ => P) E :=
  triple_modify fun u hu => h.arm u _ _ hu

variable (hcalls : env.Harmless)
include hcalls

theorem ping : Triple P (Client.ping env) (fun _ => P) P := by
  refine triple_bind h.cancelTimer fun _ => ?_
  refine triple_bind (Q := fun _ => P) (triple_modify fun u hu => h.pingtime u _ hu) fun _ => ?_
  refine triple_get_bind fun w hw => triple_at ?_ hw
  exact triple_bind (h.passed (passes_sendmessage hcalls)) fun _ => h.armed

end Timeless

theorem enduring_conn (S : Option Nat → Prop) : Enduring fun w => S w.conn where
  passes w u hpasses h := by
    have hsame : u.conn = w.conn := congrArg (fun w => w.conn) hpasses.core
    exact hsame ▸ h
  recvbuf _ _ h := h
  connstate _ _ h := h
  isupport _ _ h := h
  quit _ h := h
  pingtime _ _ h := h
  connected _ _ h := h
  cancel _ _ h := h
  arm _ _ _ h := h
  enter _ _ _ h := h

theorem enduring_notReconnecting : Enduring fun w => w.session.state ≠ .reconnecting where
  passes w u hpasses h := by
    have hsame : u.session.state = w.session.state :=
      congrArg (fun w => w.session.state) hpasses.core
    exact hsame ▸ h
  recvbuf _ _ h := h
  connstate _ _ h := h
  isupport _ _ h := by simpa using h
  quit _ h := h
  pingtime _ _ h := h
  connected _ _ h := h
  cancel _ _ h := h
  arm _ _ _ h := h
  enter _ _ hne _ := hne

namespace Enduring

theorem and {Q : World → Prop} (h : Enduring P) (h' : Enduring Q) :
    Enduring fun w => P w ∧ Q w where
  passes w u hpasses hw := ⟨h.passes w u hpasses hw.1, h'.passes w u hpasses hw.2⟩
  recvbuf w buf hw := ⟨h.recvbuf w buf hw.1, h'.recvbuf w buf hw.2⟩
  connstate w c hw := ⟨h.connstate w c hw.1, h'.connstate w c hw.2⟩
  isupport w args hw := ⟨h.isupport w args hw.1, h'.isupport w args hw.2⟩
  quit w hw := ⟨h.quit w hw.1, h'.quit w hw.2⟩
  pingtime w time hw := ⟨h.pingtime w time hw.1, h'.pingtime w time hw.2⟩
  connected w time hw := ⟨h.connected w time hw.1, h'.connected w time hw.2⟩
  cancel w i hw := ⟨h.cancel w i hw.1, h'.cancel w i hw.2⟩
  arm w timeout callback hw := ⟨h.arm w timeout callback hw.1, h'.arm w timeout callback hw.2⟩
  enter w state hne hw := ⟨h.enter w state hne hw.1, h'.enter w state hne hw.2⟩

variable (h : Enduring P) (hcalls : env.Harmless)
include h hcalls

theorem onSslHandshakeDone : Triple P (Client.onSslHandshakeDone env) (fun _ => P) P := by
  refine triple_bind h.cancelTimer fun _ => ?_
  refine triple_bind (Q := fun _ => P) (triple_modify fun u hu => ?_) fun _ => ?_
  · have hbuf : P { u with sendbuf := some [] } :=
      h.passes u _ (passes_note rfl rfl rfl rfl) hu
    exact h.connstate _ (some ⟨"+", none, none⟩) (h.recvbuf _ (some []) hbuf)
  refine triple_bind (Q := fun _ => P) (triple_modify fun u hu => h.enter u _ nofun hu) fun _ => ?_
  refine triple_bind (h.passed (passes_trigger hcalls)) fun _ => ?_
  refine triple_bind (h.passed (passes_sendmessage hcalls)) fun _ => ?_
  refine triple_get_bind fun w hw => triple_at ?_ hw
  exact triple_bind (h.passed (passes_sendmessage hcalls)) fun _ => h.armed

theorem onWelcome {msg : Message} {nick : Bytes} :
    Triple P (Client.onWelcome env msg nick) (fun _ => P) P := by
  refine triple_bind h.cancelTimer fun _ => ?_
  refine triple_bind (Q := fun _ => P) (triple_modify fun u hu => h.connected u _ hu) fun _ => ?_
  refine triple_bind (h.passed (passes_adoptNick hcalls)) fun _ => ?_
  refine triple_bind (triple_forM (fun line => h.passed (passes_sendmessageline hcalls)) _)
    fun _ => ?_
  refine triple_bind (Q := fun _ => P) (triple_modify fun u hu => h.enter u _ nofun hu) fun _ => ?_
  refine triple_bind (h.passed (passes_trigger hcalls)) fun _ => ?_
  exact triple_bind (h.noteServeraddress hcalls) fun _ => h.ping hcalls

theorem onPong {time : Bytes} : Triple P (Client.onPong env time) (fun _ => P) P := by
  refine triple_get_bind fun w hw => triple_at ?_ hw
  refine triple_ite (fun _ => ?_) fun _ => triple_pure fun _ hu => hu
  cases w.pingtime with
  | none => exact triple_throw fun _ hu => hu
  | some pingtime =>
    refine triple_bind h.updateConnstate fun _ => ?_
    refine triple_bind (h.passed (passes_trigger hcalls)) fun _ => ?_
    exact triple_bind h.cancelTimer fun _ => h.armed

theorem readLines (m : Nat) : Triple P (Client.readLines env m) (fun _ => P) P := by
  refine Reads.readLines (h.reads hcalls (fun msg nick => ?_) fun time => h.onPong hcalls) m
  exact triple_conseq (h.onWelcome hcalls) (fun _ hw => hw.1) (fun _ _ hw => hw) fun _ hw => hw

end Enduring

/-! ### A step of the event loop -/

/-- What a step leaves behind: it changes the time only, or calls the Client, or the Client's handler
or timer, whose registration it may then remove. -/
theorem step_rule (hcalls : env.Harmless) {s t : ClientLoop} {i : ClientInput} {Q : World → Prop}
    (hstep : s.step env i = some t) (hsame : ∀ now, Q { s.world with now })
    (hloop : ∀ u loop, loop.timers = u.loop.timers → Q u → Q { u with loop })
    (hreadable : ∀ received, Q ((Client.onReadable env received).pcall s.world).2)
    (hwritable : Q ((Client.onWritable env).pcall s.world).2)
    (hfire : ∀ j timer, i = .fire j → s.world.loop.timers.due s.world.now j = some timer →
      let u := ((Client.onTimer env timer).pcall s.world).2
      Q { u with loop := { u.loop with timers := u.loop.timers.expire j } })
    (hconnect : i = .connect → Q ((Client.connect env).pcall s.world).2)
    (hdisconnect : ∀ arg, i = .disconnect arg → Q ((Client.disconnect env arg).pcall s.world).2)
    (hpasses : ∀ m : Eff World Unit, Moves Passes m → Q (m.pcall s.world).2) : Q t.world := by
  cases i with
  | select readable writable =>
    cases hstep
    exact hsame s.world.now
  | readable key received =>
    obtain ⟨-, ⟨⟩⟩ := Option.ite_none_right_eq_some.mp hstep
    exact hloop _ _ (EventLoop.afterReadable_timers ..) (hreadable received)
  | writable key =>
    obtain ⟨-, ⟨⟩⟩ := Option.ite_none_right_eq_some.mp hstep
    exact hloop _ _ (EventLoop.afterWritable_timers ..) hwritable
  | fire j =>
    obtain ⟨timer, hdue, rfl⟩ := Option.map_eq_some_iff.mp hstep
    exact hfire j timer rfl hdue
  | wait seconds =>
    obtain ⟨-, ⟨⟩⟩ := Option.ite_none_right_eq_some.mp hstep
    exact hsame _
  | connect =>
    cases hstep
    exact hconnect rfl
  | disconnect arg =>
    cases hstep
    exact hdisconnect arg rfl
  | setNick nick =>
    cases hstep
    exact hpasses _ (passes_setNick hcalls)
  | sendmessageline line =>
    cases hstep
    exact hpasses _ (passes_sendmessageline hcalls)
  | send str =>
    obtain ⟨-, ⟨⟩⟩ := Option.ite_none_right_eq_some.mp hstep
    exact hpasses _ passes_send

end TuxBot.Irc
