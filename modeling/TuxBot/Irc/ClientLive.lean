import TuxBot.Irc.ClientFrame

/-! A registering or connected Client: what it holds, and that reading and sending keep it. -/
namespace TuxBot.Irc

open TuxBot.Lua TuxBot.Lua.Eff

variable {env : Env} {w u : World} {m n : Nat} {due : Prop} {conn : Nat} {str line : Bytes}

/-- The bytes a log has for a socket. -/
def traffic (log : List (Nat × Bytes)) (conn : Nat) : Bytes :=
  log.flatMap fun e => if e.1 = conn then e.2 else []

theorem traffic_snoc (log : List (Nat × Bytes)) (bytes : Bytes) :
    traffic (log ++ [(conn, bytes)]) conn = traffic log conn ++ bytes := by
  simp [traffic]

theorem traffic_eq_nil {log : List (Nat × Bytes)} (h : ∀ e ∈ log, e.1 ≠ conn) :
    traffic log conn = [] := by
  simp only [traffic, List.flatMap_eq_nil_iff]
  intro e he
  rw [if_neg (h e he)]

/-- A plain TCP socket accepts everything or says `timeout`. -/
def Env.Plain (env : Env) : Prop :=
  ∀ w data, env.send w data = .sent ∨ ∃ bytessent, env.send w data = .error "timeout" bytessent

/-- A handler for writing to the current socket is registered under a key from `n` on. -/
def Flushing (n : Nat) (w : World) (conn : Nat) : Prop :=
  ∃ r ∈ w.loop.writableHandlers, r.sock = conn ∧ r.callback = w.handler ∧ n ≤ r.key

/-- What a registering or connected Client has: a timer, a state table, buffers and a socket. All that
was passed on was accepted or is buffered, in order, and what is buffered will be flushed. Once it is
`connected` and not `due` to, it has sent a PING. -/
structure Live (env : Env) (due : Prop) (n : Nat) (w : World) : Prop where
  state : w.session.state = .connected ∨ w.session.state = .registering
  timer : w.timer.isSome
  recvbuf : w.recvbuf.isSome
  connstate : w.connstate.isSome
  pinged : due ∨ (w.session.state = .connected → w.pingtime.isSome)
  flow : ∃ conn buf, w.conn = some conn ∧ w.sendbuf = some buf ∧
    (env.Plain → traffic w.wire conn ++ buf = traffic w.passed conn) ∧
    (buf ≠ [] → Flushing n w conn)
  fresh : n ≤ w.loop.nextKey

/-- `m` keeps a live Client live and returns. -/
abbrev KeepsLive (env : Env) (due : Prop) (n : Nat) {α : Type} (m : Eff World α) : Prop :=
  Triple (Live env due n) m (fun _ => Live env due n) fun _ => False

/-- Liveness reads the core, the flow and the next key. -/
theorem live_of_core (h : Live env due m w) (hcore : u.core = w.core)
    (hflow : ∃ conn buf, u.conn = some conn ∧ u.sendbuf = some buf ∧
      (env.Plain → traffic u.wire conn ++ buf = traffic u.passed conn) ∧
      (buf ≠ [] → Flushing n u conn))
    (hfresh : n ≤ u.loop.nextKey) : Live env due n u := by
  have hstate : u.session.state = w.session.state := congrArg (fun w => w.session.state) hcore
  have htimer : u.timer = w.timer := congrArg (fun w => w.timer) hcore
  have hrecv : u.recvbuf = w.recvbuf := congrArg (fun w => w.recvbuf) hcore
  have hconn : u.connstate = w.connstate := congrArg (fun w => w.connstate) hcore
  have hping : u.pingtime = w.pingtime := congrArg (fun w => w.pingtime) hcore
  refine ⟨?_, ?_, ?_, ?_, ?_, hflow, hfresh⟩
  · rw [hstate]
    exact h.state
  · rw [htimer]
    exact h.timer
  · rw [hrecv]
    exact h.recvbuf
  · rw [hconn]
    exact h.connstate
  · rw [hstate, hping]
    exact h.pinged

/-- A new registration has a key from the next one on. -/
theorem flushing_added (hconn : w.conn = some conn) (hkey : n ≤ w.loop.nextKey) :
    Flushing n w.addWritableHandler conn := by
  rw [addWritableHandler_eq hconn]
  exact ⟨_, List.mem_cons_self, rfl, rfl, hkey⟩

/-- With nothing buffered, all was accepted. -/
theorem live_flushed (h : Live env due m w) (hcore : u.core = w.core) (hconn : u.conn = some conn)
    (hbuf : u.sendbuf = some []) (hfresh : n ≤ u.loop.nextKey)
    (hpath : env.Plain → traffic u.wire conn = traffic u.passed conn) : Live env due n u := by
  refine live_of_core h hcore ⟨conn, [], hconn, hbuf, ?_, fun hne => absurd rfl hne⟩ hfresh
  intro hplain
  rw [List.append_nil, hpath hplain]

/-- Whatever is buffered gets a handler. -/
theorem live_kept {buf : Bytes} (h : Live env due m w) (hcore : u.core = w.core)
    (hconn : u.conn = some conn) (hfresh : n ≤ u.loop.nextKey)
    (hpath : env.Plain → traffic u.wire conn ++ buf = traffic u.passed conn) :
    Live env due n (World.addWritableHandler { u with sendbuf := some buf }) := by
  have hadd := addWritableHandler_eq (w := { u with sendbuf := some buf }) hconn
  refine live_of_core h ?_ ⟨conn, buf, ?_, ?_, ?_, ?_⟩ ?_
  · exact (core_addWritableHandler _).trans hcore
  · rw [hadd]
    exact hconn
  · rw [hadd]
  · rw [hadd]
    exact hpath
  · intro _
    exact flushing_added hconn hfresh
  · rw [hadd]
    exact hfresh.trans (Nat.le_succ _)

/-- What the socket has still to accept, in order. -/
abbrev Owed (env : Env) (conn : Nat) (rest : Bytes) (w : World) : Prop :=
  env.Plain → traffic w.wire conn ++ rest = traffic w.passed conn

/-- What is not sent of `data`. -/
def SendResult.unsent (data : Bytes) : SendResult → Bytes
  | .sent => []
  | .error _ bytessent => data.drop bytessent

theorem accepted_append_unsent (data : Bytes) (result : SendResult) :
    result.accepted data ++ result.unsent data = data := by
  cases result with
  | sent => exact List.append_nil data
  | error err bytessent => exact List.take_append_drop bytessent data

theorem connSend_eq {data : Bytes} (hconn : w.conn = some conn) :
    Client.connSend env data w = .ok (env.send w data)
      { w with wire := w.wire ++ [(conn, (env.send w data).accepted data)] } := by
  rcases w
  simp only at hconn
  subst hconn
  rfl

/-- The socket accepts a first part of what it is owed. -/
theorem owed_connSend {data : Bytes} (hconn : w.conn = some conn) (howed : Owed env conn data w) :
    Triple (· = w) (Client.connSend env data) (fun result u => result = env.send w data ∧
      u = { w with wire := w.wire ++ [(conn, result.accepted data)] } ∧
      Owed env conn (result.unsent data) u) fun _ => False := by
  rintro _ rfl
  rw [connSend_eq hconn]
  refine ⟨rfl, rfl, fun hplain => ?_⟩
  rw [traffic_snoc, List.append_assoc, accepted_append_unsent]
  exact howed hplain

/-- An error other than `timeout` does not come from a plain socket. -/
theorem owed_error {data err : Bytes} {bytessent : Nat}
    (hsend : .error err bytessent = env.send w data) (herr : err ≠ lit "timeout") :
    Owed env conn [] u := by
  intro hplain
  rcases hplain w data with hs | ⟨k, hs⟩
  · cases hsend.trans hs
  · cases hsend.trans hs
    exact absurd rfl herr

theorem pass_eq (hconn : w.conn = some conn) :
    w.pass str = { w with passed := w.passed ++ [(conn, str)] } := by
  simp [World.pass, hconn]

theorem owed_pass {buf : Bytes} (howed : Owed env conn buf w) :
    Owed env conn (buf ++ str) { w with passed := w.passed ++ [(conn, str)] } := by
  intro hplain
  rw [traffic_snoc, ← howed hplain, List.append_assoc]

/-- `conn:send` leaves a rest to keep or nothing: then `done` must make do. -/
theorem live_connSend {data : Bytes} {done : Eff World Unit} (h : Live env due m w)
    (hcore : u.core = w.core) (hconn : u.conn = some conn) (hfresh : n ≤ u.loop.nextKey)
    (hdone : ∀ wire, Owed env conn [] { u with wire } →
      Triple (· = { u with wire }) done (fun _ => Live env due n) fun _ => False)
    (result : SendResult) :
    Triple (fun v => result = env.send u data ∧
        v = { u with wire := u.wire ++ [(conn, result.accepted data)] } ∧
        Owed env conn (result.unsent data) v)
      (match result with
        | .error err bytessent =>
          if err = lit "timeout" then Client.keepUnsent (data.drop bytessent) else done
        | .sent => done) (fun _ => Live env due n) fun _ => False := by
  cases result with
  | sent =>
    rintro v ⟨_, rfl, hrest⟩
    exact hdone _ hrest _ rfl
  | error err bytessent =>
    rintro v ⟨hresult, hv, hrest⟩
    refine triple_ite (P := (· = v)) (fun _ => ?_) (fun herr => ?_) v rfl
    · subst hv
      exact triple_modify fun x hx => hx ▸ live_kept h hcore hconn hfresh hrest
    · subst hv
      exact hdone _ (owed_error hresult herr)

theorem keepsLive_send : KeepsLive env due n (Client.send env str) := by
  intro w h
  suffices hsend : Triple (· = w) (Client.send env str) (fun _ => Live env due n) fun _ => False from
    hsend w rfl
  obtain ⟨conn, buf, hconn, hbuf, hpath, -⟩ := h.flow
  obtain ⟨v, hv, hcore, hvconn, hvbuf, hfresh, howed⟩ : ∃ v, v = w.pass str ∧ v.core = w.core ∧
      v.conn = some conn ∧ v.sendbuf = some buf ∧ n ≤ v.loop.nextKey ∧
      Owed env conn (buf ++ str) v :=
    ⟨_, (pass_eq hconn).symm, rfl, hconn, hbuf, h.fresh, owed_pass hpath⟩
  refine triple_bind (Q := fun _ => (· = v)) (triple_modify fun u hu => hu ▸ hv.symm) fun _ => ?_
  refine triple_get_bind fun u hu => ?_
  subst hu
  rw [hvbuf]
  cases buf with
  | nil =>
    refine triple_bind (owed_connSend hvconn howed) (live_connSend h hcore hvconn hfresh ?_)
    refine fun wire hrest => triple_pure fun x hx => hx ▸ live_flushed h hcore hvconn hvbuf hfresh ?_
    exact fun hplain => (List.append_nil _).symm.trans (hrest hplain)
  | cons b buf => exact triple_modify fun x hx => hx ▸ live_kept h hcore hvconn hfresh howed

/-- Flushing sends the buffer in order, and registers again for what is left of it. -/
theorem live_flush : Triple (fun w => Live env due m w ∧ n ≤ w.loop.nextKey) (Client.flush env)
    (fun _ => Live env due n) fun _ => False := by
  refine triple_get_bind fun w ⟨h, hkey⟩ => ?_
  obtain ⟨conn, buf, hconn, hbuf, hpath, -⟩ := h.flow
  rw [hbuf]
  cases buf with
  | nil =>
    exact triple_pure fun u hu => hu ▸ live_flushed h rfl hconn hbuf hkey fun hplain =>
      (List.append_nil _).symm.trans (hpath hplain)
  | cons b buf =>
    refine triple_bind (owed_connSend hconn hpath) (live_connSend h rfl hconn hkey ?_)
    refine fun wire hrest => triple_modify fun x hx => hx ▸ live_flushed h rfl hconn rfl hkey ?_
    exact fun hplain => (List.append_nil _).symm.trans (hrest hplain)

theorem live_pcall {α : Type} {m : Eff World α} (hm : KeepsLive env due n m)
    (h : Live env due n w) : Live env due n (m.pcall w).2 := triple_after_return hm h

theorem live_sends (hsends : Sends env w u) (h : Live env due n w) : Live env due n u := by
  induction hsends with
  | refl => exact h
  | send str _ _ ih => exact live_pcall keepsLive_send ih
  | note events nick _ ih => exact live_of_core ih rfl ih.flow ih.fresh

section Live

variable (hcalls : env.Harmless)
include hcalls

theorem keepsLive_trigger {event : ClientEvent} : KeepsLive env due n (Client.trigger env event) := by
  refine triple_modify fun w h => live_sends (hcalls event _) ?_
  exact live_of_core h rfl h.flow h.fresh

theorem keepsLive_sendmessageline : KeepsLive env due n (Client.sendmessageline env line) := by
  refine triple_get_bind fun w h => triple_at ?_ h
  rw [if_pos h.state]
  exact triple_bind (keepsLive_trigger hcalls) fun _ => keepsLive_send

theorem keepsLive_sendmessage {cmd : Bytes} {args : List (Option Bytes)} :
    KeepsLive env due n (Client.sendmessage env cmd args) := keepsLive_sendmessageline hcalls

theorem keepsLive_sendctcpreply {target : Option Bytes} {cmd : Bytes} {arg : Option Bytes} :
    KeepsLive env due n (Client.sendctcpreply env target cmd arg) := by
  refine triple_bind (keepsLive_sendmessage hcalls) fun _ => ?_
  exact triple_get_bind fun w h => triple_at (keepsLive_trigger hcalls) h

theorem keepsLive_changeNick {nick : Bytes} : KeepsLive env due n (Client.changeNick env nick) := by
  refine triple_get_bind fun w h => triple_at ?_ h
  refine triple_bind (keepsLive_trigger hcalls) fun _ => triple_modify fun u hu => ?_
  exact live_of_core hu rfl hu.flow hu.fresh

omit hcalls in
theorem keepsLive_cancelTimer : KeepsLive env due n Client.cancelTimer := by
  refine triple_get_bind fun w h => triple_at ?_ h
  obtain ⟨i, hi⟩ := Option.isSome_iff_exists.mp h.timer
  rw [hi]
  exact triple_modify fun u hu => ⟨hu.state, hu.timer, hu.recvbuf, hu.connstate, hu.pinged, hu.flow,
    hu.fresh⟩

omit hcalls in
theorem keepsLive_arm {timeout : ℚ} {callback : ClientTimer} :
    KeepsLive env due n (Client.arm timeout callback) :=
  triple_modify fun _ h => ⟨h.state, rfl, h.recvbuf, h.connstate, h.pinged, h.flow, h.fresh⟩

omit hcalls in
theorem keepsLive_updateConnstate {f : ConnState → ConnState} :
    KeepsLive env due n (Client.updateConnstate f) := by
  refine triple_get_bind fun w h => triple_at ?_ h
  obtain ⟨c, hc⟩ := Option.isSome_iff_exists.mp h.connstate
  rw [hc]
  exact triple_modify fun u hu => ⟨hu.state, hu.timer, hu.recvbuf, rfl, hu.pinged, hu.flow, hu.fresh⟩

/-- A PING is no longer due once it is sent. -/
theorem keepsLive_ping : Triple (Live env True n) (Client.ping env) (fun _ => Live env False n)
    fun _ => False := by
  refine triple_bind keepsLive_cancelTimer fun _ => ?_
  refine triple_bind (Q := fun _ => Live env False n) (triple_modify fun u hu => ?_) fun _ => ?_
  · exact ⟨hu.state, hu.timer, hu.recvbuf, hu.connstate, Or.inr fun _ => rfl, hu.flow, hu.fresh⟩
  · refine triple_get_bind fun w h => triple_at ?_ h
    exact triple_bind (keepsLive_sendmessage hcalls) fun _ => keepsLive_arm

omit hcalls in
theorem live_due (h : Live env False n w) : Live env due n w :=
  ⟨h.state, h.timer, h.recvbuf, h.connstate, Or.inr (h.pinged.resolve_left id), h.flow, h.fresh⟩

theorem keepsLive_adoptNick {nick : Bytes} : KeepsLive env due n (Client.adoptNick env nick) := by
  refine triple_get_bind fun w h => triple_at ?_ h
  exact triple_ite (fun _ => triple_pure fun _ h => h) fun _ => keepsLive_changeNick hcalls

theorem keepsLive_noteServeraddress {host : Option Bytes} :
    KeepsLive env due n (Client.noteServeraddress env host) := by
  cases host with
  | none => exact triple_pure fun _ h => h
  | some host => exact triple_bind keepsLive_updateConnstate fun _ => keepsLive_trigger hcalls

/-- The welcome makes the Client `connected` and sends the first PING. -/
theorem keepsLive_onWelcome {msg : Message} {nick : Bytes} :
    KeepsLive env False n (Client.onWelcome env msg nick) := by
  suffices h : Triple (Live env True n) (Client.onWelcome env msg nick) (fun _ => Live env False n)
      fun _ => False from
    triple_conseq h (fun _ h => live_due h) (fun _ _ h => h) fun _ h => h
  refine triple_bind keepsLive_cancelTimer fun _ => ?_
  refine triple_bind (Q := fun _ => Live env True n) (triple_modify fun u hu => ?_) fun _ => ?_
  · exact ⟨hu.state, hu.timer, hu.recvbuf, hu.connstate, hu.pinged, hu.flow, hu.fresh⟩
  refine triple_bind (keepsLive_adoptNick hcalls) fun _ => ?_
  refine triple_bind (triple_forM (fun line => keepsLive_sendmessageline hcalls) _) fun _ => ?_
  refine triple_bind (Q := fun _ => Live env True n) (triple_modify fun u hu => ?_) fun _ => ?_
  · exact ⟨Or.inl rfl, hu.timer, hu.recvbuf, hu.connstate, Or.inl trivial, hu.flow, hu.fresh⟩
  refine triple_bind (keepsLive_trigger hcalls) fun _ => ?_
  exact triple_bind (keepsLive_noteServeraddress hcalls) fun _ => keepsLive_ping hcalls

/-- A PONG only counts for a `connected` Client, which has sent a PING. -/
theorem keepsLive_onPong {time : Bytes} : KeepsLive env False n (Client.onPong env time) := by
  refine triple_get_bind fun w h => triple_at ?_ h
  refine triple_ite (fun hpong => ?_) fun _ => triple_pure fun _ h => h
  obtain ⟨pingtime, hping⟩ := Option.isSome_iff_exists.mp (h.pinged.resolve_left id hpong.2)
  rw [hping]
  refine triple_bind keepsLive_updateConnstate fun _ => ?_
  refine triple_bind (keepsLive_trigger hcalls) fun _ => ?_
  exact triple_bind keepsLive_cancelTimer fun _ => keepsLive_arm

theorem keepsLive_onMode {change : Bytes} : KeepsLive env due n (Client.onMode env change) := by
  refine triple_bind keepsLive_updateConnstate fun _ => ?_
  refine triple_get_bind fun w h => triple_at ?_ h
  obtain ⟨c, hc⟩ := Option.isSome_iff_exists.mp h.connstate
  rw [hc]
  exact keepsLive_trigger hcalls

theorem keepsLive_onCtcp {msg : Message}
    (hctcp : ∃ target command rest, msg.args = target :: command :: rest) :
    KeepsLive env due n (Client.onCtcp env msg) := by
  obtain ⟨target, command, rest, hargs⟩ := hctcp
  refine triple_get_bind fun w h => triple_at ?_ h
  simp only [hargs]
  cases ctcpReply env.info.texts (env.date w) command rest.head? with
  | none => exact triple_pure fun _ h => h
  | some reply => exact keepsLive_sendctcpreply hcalls

/-- Whatever a live Client reads, it stays live, and nothing raises. -/
theorem live_reads : Reads env (Live env False n) fun _ => False where
  rest _ _ h := ⟨h.state, h.timer, rfl, h.connstate, h.pinged, h.flow, h.fresh⟩
  quit _ h := ⟨h.state, h.timer, h.recvbuf, h.connstate, h.pinged, h.flow, h.fresh⟩
  isupport w args h := by
    refine ⟨?_, h.timer, h.recvbuf, h.connstate, ?_, h.flow, h.fresh⟩
    · simpa using h.state
    · simpa using h.pinged
  trigger _ := keepsLive_trigger hcalls
  welcome _ _ := triple_conseq (keepsLive_onWelcome hcalls) (fun _ h => h.1) (fun _ _ h => h)
    fun _ h => h
  pong _ := keepsLive_onPong hcalls
  mode _ := keepsLive_onMode hcalls
  reply _ := triple_conseq (keepsLive_sendmessage hcalls) (fun _ h => h.1) (fun _ _ h => h)
    fun _ h => h
  nick _ := keepsLive_changeNick hcalls
  ctcp _ hargs := keepsLive_onCtcp hcalls hargs

end Live

end TuxBot.Irc
