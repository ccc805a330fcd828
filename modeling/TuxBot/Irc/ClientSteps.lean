import TuxBot.Irc.ClientPhases

/-! Every step of a run leaves a Client in one of its phases. -/
namespace TuxBot.Irc

open TuxBot.Lua TuxBot.Lua.Eff TuxBot.Machine

variable {env : Env} {w u : World} {n : Nat} {s t : ClientLoop} {i : ClientInput}

/-- What holds between the steps of the event loop. -/
structure Steady (env : Env) (s : ClientLoop) : Prop where
  bounded : Bounded s.world
  phase : Phase env 0 s.world
  pending : ∀ r ∈ s.writables, r.key < s.world.loop.nextKey

theorem steady_new (nick : Bytes) (now : ℚ) : Steady env (.new nick now) := by
  refine ⟨⟨?_, ?_, ?_, ?_⟩, .off ⟨Or.inl rfl, ?_, ?_⟩, ?_⟩ <;>
    simp [ClientLoop.new, World.new, EventLoop.new]

theorem off_passes {α : Type} {m : Eff World α} (hm : Moves Passes m) :
    Triple Off m (fun _ => Off) Off :=
  off_timeless.passed hm

theorem phase_off {α : Type} {P : World → Prop} {m : Eff World α}
    (h : Triple P m (fun _ => Off) Off) : Triple P m (fun _ => Phase env n) (Phase env n) :=
  triple_conseq h (fun _ h => h) (fun _ _ => .off) fun _ => .off

theorem phase_live {α : Type} {P : World → Prop} {m : Eff World α}
    (h : Triple P m (fun _ => Live env False n) fun _ => False) :
    Triple P m (fun _ => Phase env n) (Phase env n) :=
  triple_conseq h (fun _ h => h) (fun _ _ => .live) fun _ h => h.elim

/-- The rule for a computation that treats the phases on their own. -/
theorem phase_cases {α : Type} {m : Eff World α} {Q : α → World → Prop} {E : World → Prop}
    (hoff : Triple Off m Q E) (hdial : Triple (Dialing n) m Q E)
    (hlive : Triple (Live env False n) m Q E) : Triple (Phase env n) m Q E := by
  intro w h
  cases h with
  | off h => exact hoff w h
  | dialing h => exact hdial w h
  | live h => exact hlive w h

/-- A Client that cannot send does not send. -/
theorem dialing_sendmessageline {line : Bytes} :
    Triple (Dialing n) (Client.sendmessageline env line) (fun _ => Dialing n) (Dialing n) := by
  refine triple_get_bind fun w h => triple_at ?_ h
  rw [if_neg (dialing_idle h)]
  exact triple_throw fun _ h => h

theorem dialing_setNick {nick : Bytes} :
    Triple (Dialing n) (Client.setNick env nick) (fun _ => Dialing n) (Dialing n) := by
  refine triple_get_bind fun w h => triple_at ?_ h
  rw [if_neg (dialing_idle h)]
  refine triple_ite (fun _ => ?_) fun _ => triple_pure fun _ h => h
  refine triple_bind (Q := fun _ => Dialing n) (triple_modify fun u hu => ?_) fun _ =>
    triple_throw fun _ h => h
  exact ⟨hu.state, hu.timer, hu.conn, hu.fresh⟩

theorem dialing_ping :
    Triple (Dialing n) (Client.ping env) (fun _ => Dialing n) (Dialing n) := by
  refine triple_bind (triple_conseq dialing_cancelTimer (fun _ h => h) (fun _ _ h => h)
    fun _ h => h.elim) fun _ => ?_
  refine triple_bind (Q := fun _ => Dialing n) (triple_modify fun u hu =>
    ⟨hu.state, hu.timer, hu.conn, hu.fresh⟩) fun _ => ?_
  refine triple_get_bind fun u hu => triple_at ?_ hu
  refine triple_bind dialing_sendmessageline fun _ => ?_
  exact triple_modify fun u hu => ⟨hu.state, rfl, hu.conn, hu.fresh⟩

section Harmless

variable (hcalls : env.Harmless)
include hcalls

theorem phase_sendmessageline {line : Bytes} :
    Triple (Phase env n) (Client.sendmessageline env line) (fun _ => Phase env n) (Phase env n) :=
  phase_cases (phase_off (off_passes (passes_sendmessageline hcalls)))
    (triple_conseq dialing_sendmessageline (fun _ h => h) (fun _ _ => .dialing) fun _ => .dialing)
    (phase_live (keepsLive_sendmessageline hcalls))

theorem keepsLive_setNick {nick : Bytes} : KeepsLive env False n (Client.setNick env nick) := by
  refine triple_get_bind fun w h => triple_at ?_ h
  rw [if_pos h.state]
  exact keepsLive_sendmessage hcalls

theorem phase_setNick {nick : Bytes} :
    Triple (Phase env n) (Client.setNick env nick) (fun _ => Phase env n) (Phase env n) :=
  phase_cases (phase_off (off_passes (passes_setNick hcalls)))
    (triple_conseq dialing_setNick (fun _ h => h) (fun _ _ => .dialing) fun _ => .dialing)
    (phase_live (keepsLive_setNick hcalls))

theorem off_ping : Triple Off (Client.ping env) (fun _ => Off) Off := off_timeless.ping hcalls

/-- A PING that cannot be sent raises, after the timer was cancelled. -/
theorem phase_ping :
    Triple (Phase env n) (Client.ping env) (fun _ => Phase env n) (Phase env n) := by
  refine phase_cases (phase_off (off_ping hcalls)) ?_ (phase_live ?_)
  · exact triple_conseq dialing_ping (fun _ h => h) (fun _ _ => .dialing) fun _ => .dialing
  · exact triple_conseq (keepsLive_ping hcalls) (fun _ => live_due) (fun _ _ h => h) fun _ h => h

theorem phase_onTimer {timer : ClientTimer} : Triple (fun w => Phase env 0 w ∧ Bounded w)
    (Client.onTimer env timer) (fun _ => Phase env 0) (Phase env 0) := by
  cases timer with
  | reconnect reason =>
    exact phase_off (triple_conseq (off_reconnect hcalls) (fun _ h => h.1.linkedOrOff)
      (fun _ _ h => h) fun _ h => h)
  | connect => exact phase_connect hcalls
  | ping => exact triple_conseq (phase_ping hcalls) (fun _ h => h.1) (fun _ _ h => h) fun _ h => h

theorem phase_onReadable {received : Received} : Triple (fun w => Phase env 0 w ∧ Bounded w)
    (Client.onReadable env received) (fun keep w => keep = true ∧ Phase env 0 w) Off := by
  refine triple_bind (triple_conseq (phase_onReady hcalls (m := 0) ?_ (off_onReceived hcalls))
    (fun w h => ⟨h.1, Nat.zero_le _, h.2⟩) (fun _ _ h => h) fun _ h => h)
    fun _ => triple_pure fun _ h => ⟨rfl, h⟩
  by_cases herror : Client.receivedError received = lit "closed"
  · exact triple_conseq (live_onReceived_closed hcalls herror) (fun _ h => h.1) (fun _ _ => .off)
      fun _ h => h
  · exact triple_conseq (live_onReceived_open hcalls herror) (fun _ h => h.1) (fun _ _ => .live)
      fun _ h => h.elim

/-- From the next key on, what is written registers anew. -/
theorem phase_onWritable :
    Triple (fun w => Phase env 0 w ∧ n ≤ w.loop.nextKey ∧ Bounded w) (Client.onWritable env)
      (fun keep w => keep = false ∧ Phase env n w) Off := by
  refine triple_bind (phase_onReady hcalls ?_ (off_passes passes_flush))
    fun _ => triple_pure fun _ h => ⟨rfl, h⟩
  exact triple_conseq live_flush (fun _ h => h) (fun _ _ => .live) fun _ h => h.elim

end Harmless

/-! ### Steps and runs -/

theorem bounded_dropWritable {key : Nat} (h : Bounded w) :
    Bounded { w with loop := w.loop.dropWritable key } :=
  ⟨h.conn, h.wire, h.passed, fun r hr => h.keys r (List.mem_of_mem_filter hr)⟩

/-- Dropping an older key leaves a newer registration. -/
theorem phase_dropWritable {key : Nat} (h : Phase env n w) (hkey : key < n) :
    Phase env 0 { w with loop := w.loop.dropWritable key } := by
  cases h with
  | off h => exact .off ⟨h.state, h.reconnecting, h.quit⟩
  | dialing h => exact .dialing ⟨h.state, h.timer, h.conn, Nat.zero_le _⟩
  | live h =>
    obtain ⟨conn, buf, hconn, hbuf, hpath, hflush⟩ := h.flow
    refine .live ⟨h.state, h.timer, h.recvbuf, h.connstate, h.pinged,
      ⟨conn, buf, hconn, hbuf, hpath, ?_⟩, Nat.zero_le _⟩
    intro hne
    obtain ⟨r, hr, hsock, hcallback, hn⟩ := hflush hne
    refine ⟨r, List.mem_filter.mpr ⟨hr, ?_⟩, hsock, hcallback, Nat.zero_le _⟩
    have hother : r.key ≠ key := by omega
    simpa using hother

theorem off_dropWritable {key : Nat} (h : Off w) : Off { w with loop := w.loop.dropWritable key } :=
  ⟨h.state, h.reconnecting, h.quit⟩

/-- What a call from a steady loop leaves, by a rule about it. -/
theorem steady_pcall {α : Type} {m : Eff World α} {P E : World → Prop} {Q : α → World → Prop}
    (h : Steady env s) (hgrows : Moves Grows m) (hm : Triple P m Q E) (hp : P s.world) :
    ∃ result u, m.pcall s.world = (result, u) ∧ Bounded u ∧ s.world.loop.nextKey ≤ u.loop.nextKey ∧
      ((∃ a, result = some a ∧ Q a u) ∨ (result = none ∧ E u)) := by
  have hmoved := moves_pcall hgrows s.world
  obtain ⟨hok, herr⟩ := triple_pcall hm hp
  cases hr : m.pcall s.world with
  | mk result u =>
    rw [hr] at hmoved
    refine ⟨result, u, rfl, hmoved.bounded h.bounded, hmoved.nextKey, ?_⟩
    cases result with
    | none => exact Or.inr ⟨rfl, herr u hr⟩
    | some a => exact Or.inl ⟨a, rfl, hok a u hr⟩

theorem steady_call {m : Eff World Unit} {P : World → Prop} (h : Steady env s)
    (hgrows : Moves Grows m) (hm : Triple P m (fun _ => Phase env 0) (Phase env 0))
    (hp : P s.world) : Steady env (s.call m) := by
  obtain ⟨result, u, hr, hbounded, hkey, hphase⟩ := steady_pcall h hgrows hm hp
  have hworld : (s.call m).world = u := congrArg Prod.snd hr
  refine ⟨?_, ?_, fun r hpend => ?_⟩
  · rw [hworld]
    exact hbounded
  · rw [hworld]
    rcases hphase with ⟨_, _, hphase⟩ | ⟨_, hphase⟩
    · exact hphase
    · exact hphase
  · rw [hworld]
    exact (h.pending r hpend).trans_le hkey

section Harmless

variable (hcalls : env.Harmless)
include hcalls

/-- A readable handler stays, unless it raised: then its key is looked for among the writable ones. -/
theorem steady_readable {key : Nat} {received : Received} (h : Steady env s)
    (hstep : s.step env (.readable key received) = some t) : Steady env t := by
  obtain ⟨-, ⟨⟩⟩ := Option.ite_none_right_eq_some.mp hstep
  obtain ⟨result, u, hr, hbounded, hkey, hcalled⟩ := steady_pcall h
    (grows_onReadable hcalls received) (phase_onReadable hcalls)
    ⟨h.phase, h.bounded⟩
  rw [hr]
  have hpending : ∀ r ∈ s.writables, r.key < u.loop.nextKey := fun r hpend =>
    (h.pending r hpend).trans_le hkey
  rcases hcalled with ⟨_, rfl, rfl, hphase⟩ | ⟨rfl, hoff⟩
  · exact ⟨hbounded, hphase, hpending⟩
  · exact ⟨bounded_dropWritable hbounded, .off (off_dropWritable hoff), hpending⟩

/-- A writable handler goes; what is left to send has registered one under a newer key. -/
theorem steady_writable {key : Nat} (h : Steady env s)
    (hstep : s.step env (.writable key) = some t) : Steady env t := by
  obtain ⟨⟨r, hr, rfl⟩, ⟨⟩⟩ := Option.ite_none_right_eq_some.mp hstep
  have hold := h.pending r hr
  obtain ⟨result, u, hcall, hbounded, hkey, hcalled⟩ := steady_pcall h (grows_onWritable hcalls)
    (phase_onWritable hcalls (n := s.world.loop.nextKey)) ⟨h.phase, Nat.le_refl _, h.bounded⟩
  rw [hcall]
  have hpending : ∀ p ∈ s.writables.filter (fun p => p.key ≠ r.key), p.key < u.loop.nextKey :=
    fun p hp => (h.pending p (List.mem_of_mem_filter hp)).trans_le hkey
  rcases hcalled with ⟨_, rfl, rfl, hphase⟩ | ⟨rfl, hoff⟩
  · exact ⟨bounded_dropWritable hbounded, phase_dropWritable hphase hold, hpending⟩
  · exact ⟨bounded_dropWritable hbounded, .off (off_dropWritable hoff), hpending⟩

omit hcalls in
/-- The phases depend on neither the clock nor the timers. -/
theorem phase_of_same {loop : EventLoop Nat Nat ClientTimer} {now : ℚ} (h : Phase env n w)
    (hregs : loop.writableHandlers = w.loop.writableHandlers)
    (hkey : loop.nextKey = w.loop.nextKey) : Phase env n { w with now, loop } := by
  cases h with
  | off h => exact .off ⟨h.state, h.reconnecting, h.quit⟩
  | dialing h => exact .dialing ⟨h.state, h.timer, h.conn, h.fresh.trans hkey.ge⟩
  | live h =>
    obtain ⟨conn, buf, hconn, hbuf, hpath, hflush⟩ := h.flow
    refine .live ⟨h.state, h.timer, h.recvbuf, h.connstate, h.pinged,
      ⟨conn, buf, hconn, hbuf, hpath, fun hne => ?_⟩, h.fresh.trans hkey.ge⟩
    obtain ⟨r, hr, hrest⟩ := hflush hne
    exact ⟨r, hregs ▸ hr, hrest⟩

theorem steady_fire {j : Nat} (h : Steady env s) (hstep : s.step env (.fire j) = some t) :
    Steady env t := by
  obtain ⟨timer, hdue, rfl⟩ := Option.map_eq_some_iff.mp hstep
  obtain ⟨result, u, hr, hbounded, hkey, hcalled⟩ := steady_pcall h
    (grows_onTimer hcalls timer) (phase_onTimer hcalls) ⟨h.phase, h.bounded⟩
  have hphase : Phase env 0 u := by
    rcases hcalled with ⟨_, _, hphase⟩ | ⟨_, hphase⟩
    · exact hphase
    · exact hphase
  simp only [hr]
  refine ⟨⟨hbounded.conn, hbounded.wire, hbounded.passed, hbounded.keys⟩,
    phase_of_same hphase rfl rfl, fun r hpend => ?_⟩
  exact (h.pending r hpend).trans_le hkey

theorem steady_step (h : Steady env s) (hstep : s.step env i = some t) : Steady env t := by
  cases i with
  | select readable writable =>
    cases hstep
    exact ⟨h.bounded, h.phase, fun r hr => h.bounded.keys r (List.mem_of_mem_filter hr)⟩
  | readable key received => exact steady_readable hcalls h hstep
  | writable key => exact steady_writable hcalls h hstep
  | fire j => exact steady_fire hcalls h hstep
  | wait seconds =>
    obtain ⟨-, ⟨⟩⟩ := Option.ite_none_right_eq_some.mp hstep
    exact ⟨⟨h.bounded.conn, h.bounded.wire, h.bounded.passed, h.bounded.keys⟩,
      phase_of_same h.phase rfl rfl, h.pending⟩
  | connect =>
    cases hstep
    exact steady_call h (grows_connect hcalls) (phase_connect hcalls) ⟨h.phase, h.bounded⟩
  | disconnect arg =>
    cases hstep
    exact steady_call h (grows_disconnect hcalls) (phase_off (off_disconnect hcalls)) h.phase
  | setNick nick =>
    cases hstep
    exact steady_call h (grows_passes (passes_setNick hcalls)) (phase_setNick hcalls) h.phase
  | sendmessageline line =>
    cases hstep
    exact steady_call h (grows_passes (passes_sendmessageline hcalls))
      (phase_sendmessageline hcalls) h.phase
  | send str =>
    obtain ⟨hup, ⟨⟩⟩ := Option.ite_none_right_eq_some.mp hstep
    exact steady_call h (grows_passes passes_send) (phase_live keepsLive_send)
      (h.phase.live_of_state hup)

theorem steady_run {inputs : List ClientInput} (h : Steady env s)
    (hrun : run (ClientLoop.step env) s inputs = some t) : Steady env t :=
  run_keeps (fun _ _ _ hs hstep => steady_step hcalls hs hstep) h hrun

end Harmless

end TuxBot.Irc
