import TuxBot.Irc.ClientBreaks

/-! What `disconnect` leaves of a Client in the event loop. -/
namespace TuxBot.Irc

open TuxBot.Lua TuxBot.Lua.Eff TuxBot.Machine

variable {env : Env} {w u v : World} {s : ClientLoop} {nick : Bytes} {now : ℚ}
  {inputs : List ClientInput} {str : Bytes} {arg : Client.QuitArg}

/-- No handler is registered. -/
def Bare (w : World) : Prop := w.loop.readableHandlers = [] ∧ w.loop.writableHandlers = []

/-- The last thing that happened was a `statechanged` event with `disconnected`. -/
def NotesDisconnected (env : Env) (u : World) : Prop :=
  ∃ v : World, u = env.callback (.statechanged .disconnected none none)
    { v with events := v.events ++ [.statechanged .disconnected none none] }

/-- What `disconnect` is to make of `w`. -/
structure Disconnected (env : Env) (w u : World) : Prop where
  state : u.session.state = .disconnected
  quiet : Quiet u
  bare : Bare u
  noted : w.session.state ≠ .disconnected → NotesDisconnected env u

/-- Every registered handler belongs to the current socket and the latest `connect`. -/
def Owned (w : World) : Prop :=
  ∀ r ∈ w.loop.readableHandlers ++ w.loop.writableHandlers,
    w.conn = some r.sock ∧ w.handler = r.callback

/-- The states of which `disconnect` leaves nothing: there is no timer for the next attempt, what was
disconnected before left nothing, and no handler of an earlier socket is left. -/
structure Releasable (w : World) : Prop where
  waiting : w.session.state ≠ .reconnecting
  gone : w.session.state = .disconnected → Quiet w ∧ Bare w
  owned : w.session.state ≠ .disconnected → Owned w

/-! ### Sending registers handlers of its own only -/

/-- Whether all handlers are its own is the same before and after. -/
abbrev OwnsAlike (w u : World) : Prop := Owned u ↔ Owned w

theorem ownsAlike_refl (w : World) : OwnsAlike w w := Iff.rfl

theorem ownsAlike_trans (a b c : World) (hab : OwnsAlike a b) (hbc : OwnsAlike b c) :
    OwnsAlike a c := Iff.trans hbc hab

theorem ownsAlike_addWritableHandler (w : World) : OwnsAlike w w.addWritableHandler := by
  cases hconn : w.conn with
  | none =>
    have hsame : w.addWritableHandler = w := by simp [World.addWritableHandler, hconn]
    rw [hsame]
  | some c =>
    rw [addWritableHandler_eq hconn]
    constructor
    · intro h r hr
      refine h r ?_
      rcases List.mem_append.mp hr with hr | hr
      · exact List.mem_append_left _ hr
      · exact List.mem_append_right _ (List.mem_cons_of_mem _ hr)
    · intro h r hr
      rcases List.mem_append.mp hr with hr | hr
      · exact h r (List.mem_append_left _ hr)
      · rcases List.mem_cons.mp hr with rfl | hr
        · exact ⟨hconn, rfl⟩
        · exact h r (List.mem_append_right _ hr)

theorem transmits_ownsAlike : Transmits OwnsAlike where
  refl := ownsAlike_refl
  trans := ownsAlike_trans
  passed w str := by
    unfold World.pass
    split
    · exact Iff.rfl
    · exact Iff.rfl
  kept w unsent := ownsAlike_addWritableHandler { w with sendbuf := some unsent }
  accepted _ _ _ _ := Iff.rfl
  cleared _ := Iff.rfl

theorem ownsAlike_sends (h : Sends env w u) : OwnsAlike w u :=
  transmits_ownsAlike.sends (fun _ _ _ => Iff.rfl) h

section Harmless

variable (hcalls : env.Harmless)
include hcalls

theorem ownsAlike_sendQuit : Moves OwnsAlike (Client.sendQuit env arg) := by
  refine moves_bind ownsAlike_trans (moves_get ownsAlike_refl) fun w => ?_
  refine moves_ite ?_ (moves_pure ownsAlike_refl)
  refine moves_bind ownsAlike_trans (moves_modify fun u => ?_) fun _ => ?_
  · have hsends := ownsAlike_sends (hcalls (.sentmessage (Client.quitLine env arg) none)
      { u with events := u.events ++ [.sentmessage (Client.quitLine env arg) none] })
    exact hsends
  · exact moves_bind ownsAlike_trans transmits_ownsAlike.connSend fun _ => moves_pure ownsAlike_refl

omit hcalls in
/-- The handlers that are left are those that are not its own. -/
theorem bare_removeHandlers (hconn : w.conn.isSome) : Bare w.removeHandlers ↔ Owned w := by
  obtain ⟨c, hc⟩ := Option.isSome_iff_exists.mp hconn
  have hremoved : w.removeHandlers = { w with
      loop := (w.loop.removeReadableHandler c w.handler).removeWritableHandler c w.handler } := by
    simp [World.removeHandlers, hc]
  have hempty : ∀ rs : List (Registration Nat Nat),
      rs.filter (fun r => ¬ (r.sock = c ∧ r.callback = w.handler)) = [] ↔
        ∀ r ∈ rs, w.conn = some r.sock ∧ w.handler = r.callback := by
    intro rs
    rw [List.filter_eq_nil_iff]
    refine forall₂_congr fun r _ => ?_
    rw [decide_eq_true_iff, not_not, hc, Option.some_inj]
    exact and_congr eq_comm eq_comm
  have hboth : Bare w.removeHandlers ↔
      (∀ r ∈ w.loop.readableHandlers, w.conn = some r.sock ∧ w.handler = r.callback) ∧
        ∀ r ∈ w.loop.writableHandlers, w.conn = some r.sock ∧ w.handler = r.callback := by
    rw [hremoved]
    exact and_congr (hempty w.loop.readableHandlers) (hempty w.loop.writableHandlers)
  rw [hboth, Owned, List.forall_mem_append]

omit hcalls in
/-- `_timer` was the only timer. -/
theorem released_cancelTimer : Triple (fun v => Timed v ∧ Linked v ∧ OwnsAlike w v)
    Client.cancelTimer (fun _ v => Quiet v ∧ Linked v ∧ OwnsAlike w v) fun _ => False := by
  refine triple_get_bind fun v h => ?_
  obtain ⟨i, hi⟩ := Option.isSome_iff_exists.mp h.2.1.timer
  rw [hi]
  exact triple_modify fun u hu => hu ▸ ⟨quiet_cancel h.1 hi, ⟨h.2.1.timer, h.2.1.conn⟩, h.2.2⟩

/-- A disconnected Client notes it. -/
theorem disconnected_trigger {P : Prop} :
    Triple (fun v => v.session.state = .disconnected ∧ Quiet v ∧ (Bare v ↔ P))
      (Client.trigger env (.statechanged .disconnected none none))
      (fun _ u => u.session.state = .disconnected ∧ Quiet u ∧ (Bare u ↔ P) ∧
        NotesDisconnected env u) fun _ => False := by
  refine triple_modify fun v h => ?_
  have hidle : Idle v := by simp [Idle, h.1]
  obtain ⟨events, nick, hnote⟩ := sends_idle (hcalls (.statechanged .disconnected none none)
    { v with events := v.events ++ [.statechanged .disconnected none none] }) hidle
  have hlast : NotesDisconnected env (env.callback (.statechanged .disconnected none none)
      { v with events := v.events ++ [.statechanged .disconnected none none] }) := ⟨v, rfl⟩
  refine ⟨?_, ?_, ?_, hlast⟩
  · rw [hnote]
    exact h.1
  · rw [hnote]
    exact h.2.1
  · rw [hnote]
    exact h.2.2

/-- With a timer and a socket `disconnect` returns, and leaves the handlers that were not its own. -/
theorem disconnect_linked (arg : Client.QuitArg) (htimed : Timed w) (hlinked : Linked w)
    (hdisconnected : w.session.state ≠ .disconnected)
    (hreconnecting : w.session.state ≠ .reconnecting) :
    ∃ u, Client.disconnect env arg w = .ok ⟨⟩ u ∧ u.session.state = .disconnected ∧ Quiet u ∧
      (Bare u ↔ Owned w) ∧ NotesDisconnected env u := by
  suffices h : Triple (· = w) (Client.disconnect env arg) (fun _ u =>
      u.session.state = .disconnected ∧ Quiet u ∧ (Bare u ↔ Owned w) ∧ NotesDisconnected env u)
      fun _ => False by
    obtain ⟨_, u, hu⟩ := triple_returns h rfl
    exact ⟨u, hu⟩
  refine triple_get_bind fun v hv => ?_
  subst v
  rw [if_neg hdisconnected, if_neg hreconnecting]
  refine triple_bind (Q := fun _ v => Timed v ∧ Linked v ∧ OwnsAlike w v) ?_ fun _ => ?_
  · intro v hv
    subst v
    have hquit : Triple _ (Client.sendQuit env arg) _ _ :=
      triple_and (triple_and (timed_sendQuit hcalls) (linked_sendQuit hcalls))
        (ownsAlike_sendQuit hcalls w)
    exact triple_conseq hquit (fun _ h => h) (fun _ _ h => ⟨h.1.1, h.1.2, h.2⟩)
      (fun _ h => h.1.2.elim) w ⟨⟨htimed, hlinked⟩, rfl⟩
  refine triple_bind released_cancelTimer fun _ => ?_
  refine triple_bind (Q := fun _ v => Quiet v ∧ Linked v ∧ (Bare v ↔ Owned w))
    (triple_modify fun v hv => ?_) fun _ => ?_
  · exact ⟨quiet_removeHandlers hv.1, linked_removeHandlers hv.2.1,
      (bare_removeHandlers hv.2.1.conn).trans hv.2.2⟩
  refine triple_bind (Q := fun _ v => Quiet v ∧ (Bare v ↔ Owned w)) ?_ fun _ => ?_
  · refine triple_get_bind fun v hv => ?_
    obtain ⟨c, hc⟩ := Option.isSome_iff_exists.mp hv.2.1.conn
    rw [hc]
    exact triple_modify fun u hu => hu ▸ ⟨hv.1, hv.2.2⟩
  refine triple_bind (Q := fun _ v => v.session.state = .disconnected ∧ Quiet v ∧
    (Bare v ↔ Owned w)) (triple_modify fun v hv => ⟨rfl, hv.1, hv.2⟩) fun _ => ?_
  exact disconnected_trigger hcalls

end Harmless

/-- A Client that waits to reconnect is not disconnected, and one that already is stays as it was. -/
theorem disconnect_off (h : Off w) :
    (∃ u, Client.disconnect env arg w = .ok ⟨⟩ u ∧ Disconnected env w u) ↔ Releasable w := by
  rcases h.state with hstate | hstate
  · have hreturn : Client.disconnect env arg w = .ok ⟨⟩ w := by
      rw [Client.disconnect, get_bind_eq, if_pos hstate]
      rfl
    rw [hreturn]
    constructor
    · rintro ⟨u, hu, hdone⟩
      cases hu
      refine ⟨?_, fun _ => ⟨hdone.quiet, hdone.bare⟩, fun hne => absurd hstate hne⟩
      simp [hstate]
    · intro hready
      obtain ⟨hquiet, hbare⟩ := hready.gone hstate
      exact ⟨w, rfl, hstate, hquiet, hbare, fun hne => absurd hstate hne⟩
  · refine iff_of_false ?_ fun hready => hready.waiting hstate
    rintro ⟨u, hu, hdone⟩
    have hkeeps : Triple (fun w => w.session.state = .reconnecting) (Client.disconnect env arg)
        (fun _ w => w.session.state = .reconnecting) fun _ => True := by
      refine triple_get_bind fun v hv => ?_
      rw [if_neg (by simp [hv]), if_pos hv]
      refine triple_bind (Q := fun _ w => w.session.state = .reconnecting) ?_ fun _ =>
        triple_modify fun x hx => hx
      refine triple_get_bind fun x hx => ?_
      subst hx
      cases x.timer with
      | none => exact triple_throw fun _ _ => trivial
      | some i => exact triple_modify fun y hy => hy ▸ hv
    have hstays := hkeeps w hstate
    rw [hu] at hstays
    cases hstays.symm.trans hdone.state

/-- `disconnect` does not raise, whenever it is called. -/
theorem disconnect_returns (hcalls : env.Harmless)
    (hrun : run (ClientLoop.step env) (.new nick now) inputs = some s) (arg : Client.QuitArg) :
    ∃ u, Client.disconnect env arg s.world = .ok ⟨⟩ u := by
  have hsteady : SteadyTimed env s := run_keeps (fun _ _ _ h hstep =>
    steadyTimed_step hcalls h hstep) (steadyTimed_new nick now) hrun
  by_cases hdisconnected : s.world.session.state = .disconnected
  · exact ⟨s.world, by rw [Client.disconnect, get_bind_eq, if_pos hdisconnected]; rfl⟩
  by_cases hreconnecting : s.world.session.state = .reconnecting
  · rcases armed_or_unstarted hcalls hrun with harmed | hunstarted
    · obtain ⟨i, hi⟩ := Option.isSome_iff_exists.mp harmed
      refine ⟨{ s.world with loop := s.world.loop.cancel i, reconnecttime := none }, ?_⟩
      rw [Client.disconnect, get_bind_eq, if_neg hdisconnected, if_pos hreconnecting,
        Client.cancelTimer, bind_assoc, get_bind_eq, hi]
      rfl
    · exact absurd hunstarted.state hdisconnected
  rcases hsteady.1.phase.linkedOrOff with hlinked | hoff
  · obtain ⟨u, hu, -⟩ :=
      disconnect_linked hcalls arg hsteady.2 hlinked hdisconnected hreconnecting
    exact ⟨u, hu⟩
  · rcases hoff.state with hstate | hstate
    · exact absurd hstate hdisconnected
    · exact absurd hstate hreconnecting

/-- In every run, and for every argument, `disconnect` leaves nothing of the Client exactly in the
states that are releasable. -/
theorem disconnect_releases_iff (hcalls : env.Harmless)
    (hrun : run (ClientLoop.step env) (.new nick now) inputs = some s) (arg : Client.QuitArg) :
    (∃ u, Client.disconnect env arg s.world = .ok ⟨⟩ u ∧ Disconnected env s.world u) ↔
      Releasable s.world := by
  have hsteady : SteadyTimed env s := run_keeps (fun _ _ _ h hstep =>
    steadyTimed_step hcalls h hstep) (steadyTimed_new nick now) hrun
  rcases hsteady.1.phase.linkedOrOff with hlinked | hoff
  swap
  · exact disconnect_off hoff
  by_cases hstate : s.world.session.state = .disconnected ∨ s.world.session.state = .reconnecting
  · exact disconnect_off (hsteady.1.phase.off_of_state hstate)
  obtain ⟨hdisconnected, hreconnecting⟩ := not_or.mp hstate
  obtain ⟨u, hu, hdone, hquiet, hbare, hnoted⟩ :=
    disconnect_linked hcalls arg hsteady.2 hlinked hdisconnected hreconnecting
  constructor
  · rintro ⟨v, hv, hdisconnect⟩
    cases hu.symm.trans hv
    exact ⟨hreconnecting, fun h => absurd h hdisconnected, fun _ => hbare.mp hdisconnect.bare⟩
  · intro hready
    exact ⟨u, hu, hdone, hquiet, hbare.mpr (hready.owned hdisconnected), fun _ => hnoted⟩

/-- Disconnecting in the middle of registering. -/
theorem disconnect_releases_registering :
    ∃ s, run (ClientLoop.step .silent) (.new "tux" 0) [.connect, .select [] [0], .writable 1] =
        some s ∧ s.world.session.state = .registering ∧
      ∃ u, Client.disconnect .silent .value s.world = .ok ⟨⟩ u ∧ Disconnected .silent s.world u := by
  obtain ⟨s, hrun, hs⟩ : ∃ s, run (ClientLoop.step .silent) (.new "tux" 0)
      [.connect, .select [] [0], .writable 1] = some s ∧ s.world.session.state = .registering ∧
      Owned s.world := ⟨_, rfl, rfl, by unfold Owned; decide +kernel⟩
  refine ⟨s, hrun, hs.1, (disconnect_releases_iff harmless_silent hrun .value).mpr ?_⟩
  exact ⟨by simp [hs.1], fun h => by simp [hs.1] at h, fun _ => hs.2⟩

/-- The connection timed out. Disconnecting while the Client waits for the next attempt leaves it
`reconnecting`. -/
theorem disconnect_keeps_reconnecting :
    ∃ s, run (ClientLoop.step .silent) (.new "tux" 0) [.connect, .wait 60, .fire 0] = some s ∧
      ¬ ∃ u, Client.disconnect .silent .absent s.world = .ok ⟨⟩ u ∧
        Disconnected .silent s.world u := by
  obtain ⟨s, hrun, hstate⟩ := Option.map_eq_some_iff.mp (by decide +kernel :
    (run (ClientLoop.step .silent) (.new "tux" 0) [.connect, .wait 60, .fire 0]).map
      (fun s => s.world.session.state) = some .reconnecting)
  have hsteady := steady_run harmless_silent (steady_new "tux" 0) hrun
  have hoff := hsteady.phase.off_of_state (Or.inr hstate)
  exact ⟨s, hrun, fun hdone => ((disconnect_off hoff).mp hdone).waiting hstate⟩

end TuxBot.Irc
