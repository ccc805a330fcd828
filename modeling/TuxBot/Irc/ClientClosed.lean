import TuxBot.Irc.ClientSteps

/-! Which results of `receive` end a connection. -/
namespace TuxBot.Irc

open TuxBot.Lua TuxBot.Lua.Eff TuxBot.Machine

variable {env : Env} {s t : ClientLoop} {key : Nat} {received : Received} {nick : Bytes} {now : ℚ}
  {inputs : List ClientInput}

/-- The Client is `registering` or `connected`. -/
def ClientLoop.Up (s : ClientLoop) : Prop :=
  s.world.session.state = .connected ∨ s.world.session.state = .registering

/-- The Client is `reconnecting` or `disconnected`. -/
def ClientLoop.Down (s : ClientLoop) : Prop :=
  s.world.session.state = .reconnecting ∨ s.world.session.state = .disconnected

/-- If the input makes `_on_readable` give up a connection, `receive` reported `closed`. -/
def GivesUpOnClosed (env : Env) (s : ClientLoop) (i : ClientInput) : Prop :=
  ∀ key received t, i = .readable key received → s.Up → s.step env i = some t → t.Down →
    received.closed

/-- The input makes `_on_readable` receive a full block while the connection is up. -/
def ReceivesBlock (s : ClientLoop) (i : ClientInput) : Prop :=
  s.Up ∧ ∃ key data, i = .readable key (.block data)

theorem live_of_up (h : Steady env s) (hup : s.Up) : Live env False 0 s.world :=
  h.phase.live_of_state hup

/-- Whatever lines a result completes, only its end decides whether the connection is given up. -/
theorem down_onReadable (hcalls : env.Harmless) {w : World} (h : Live env False 0 w) :
    let u := ((Client.onReadable env received).pcall w).2
    u.session.state = .reconnecting ∨ u.session.state = .disconnected ↔
      Client.receivedError received = lit "closed" := by
  by_cases herror : Client.receivedError received = lit "closed"
  · have hoff : Triple (Live env False 0) (Client.onReadable env received) (fun _ => Off) Off :=
      triple_bind (live_onReady (fun _ h => h) (live_onReceived_closed hcalls herror)) fun _ =>
        triple_pure fun _ h => h
    simp only [herror, iff_true]
    exact (triple_after hoff h).state.symm
  · have hlive : KeepsLive env False 0 (Client.onReadable env received) :=
      triple_bind (live_onReady (fun _ h => h) (live_onReceived_open hcalls herror)) fun _ =>
        triple_pure fun _ h => h
    simp only [herror, iff_false]
    intro hdown
    rcases (live_pcall hlive h).state with hs | hs
    · simp [hs] at hdown
    · simp [hs] at hdown

theorem down_readable_iff (hcalls : env.Harmless) (h : Steady env s) (hup : s.Up)
    (hstep : s.step env (.readable key received) = some t) :
    t.Down ↔ Client.receivedError received = lit "closed" := by
  obtain ⟨-, ⟨⟩⟩ := Option.ite_none_right_eq_some.mp hstep
  exact down_onReadable hcalls (live_of_up h hup)

theorem receivedError_closed : (Client.receivedError received = lit "closed" → received.closed) ↔
    ¬ ∃ data, received = .block data := by
  cases received with
  | block data => simp [Client.receivedError, Received.closed]
  | short err part => simp [Client.receivedError, Received.closed]

/-- A connection is given up in a call that saw no `closed` exactly when a full block is received. -/
theorem gives_up_on_closed_iff (hcalls : env.Harmless)
    (hrun : run (ClientLoop.step env) (.new nick now) inputs = some t) :
    Along (ClientLoop.step env) (GivesUpOnClosed env) (.new nick now) inputs ↔
      Along (ClientLoop.step env) (fun s i => ¬ ReceivesBlock s i) (.new nick now) inputs := by
  refine along_congr (I := Steady env) ?_ (fun _ _ _ hs hstep => steady_step hcalls hs hstep)
    (steady_new nick now) hrun
  intro s i t h hstep
  constructor
  · rintro hgives ⟨hup, key, data, rfl⟩
    have hclosed := hgives key _ t rfl hup hstep ((down_readable_iff hcalls h hup hstep).mpr rfl)
    cases hclosed
  · rintro hblock key received u rfl hup hu hdown
    apply receivedError_closed.mpr
    · rintro ⟨data, rfl⟩
      exact hblock ⟨hup, key, data, rfl⟩
    · exact (down_readable_iff hcalls h hup hu).mp hdown

/-- A connection that times out once and is then closed. -/
theorem gives_up_on_closed_once :
    let inputs : List ClientInput := [.connect, .select [] [0], .writable 1, .select [0] [],
      .readable 0 (.short "timeout" "a"), .select [0] [], .readable 0 (.short "closed" "")]
    (∃ t, run (ClientLoop.step .silent) (.new "tux" 0) inputs = some t ∧ t.Down) ∧
      Along (ClientLoop.step .silent) (GivesUpOnClosed .silent) (.new "tux" 0) inputs := by
  refine ⟨⟨_, rfl, Or.inl rfl⟩, (gives_up_on_closed_iff harmless_silent rfl).mpr ?_⟩
  apply along_of_forall
  rintro i hi s ⟨hup, key, data, rfl⟩
  simp at hi

/-- A burst of 8192 bytes ends a connection whose registration has just begun. -/
theorem full_block_gives_up :
    let inputs : List ClientInput := [.connect, .select [] [0], .writable 1, .select [0] []]
    let burst : ClientInput := .readable 0 (.block (List.replicate 8192 97))
    (∃ t, run (ClientLoop.step .silent) (.new "tux" 0) (inputs ++ [burst]) = some t) ∧
      ¬ Along (ClientLoop.step .silent) (GivesUpOnClosed .silent) (.new "tux" 0)
        (inputs ++ [burst]) := by
  intro inputs burst
  obtain ⟨s, hrun, hup, hkey⟩ : ∃ s, run (ClientLoop.step .silent) (.new "tux" 0) inputs = some s ∧
      s.Up ∧ ∃ r ∈ s.readables, r.key = 0 := ⟨_, rfl, Or.inr rfl, _, List.mem_cons_self, rfl⟩
  have hsteady : Steady .silent s := steady_run harmless_silent (steady_new _ _) hrun
  obtain ⟨t, hstep⟩ : ∃ t, s.step .silent burst = some t := ⟨_, if_pos hkey⟩
  constructor
  · refine ⟨t, ?_⟩
    rw [run_append, hrun, Option.bind_some, run, hstep]
    rfl
  · intro halong
    have hgives := ((along_append hrun).mp halong).2.1
    have hdown := (down_readable_iff harmless_silent hsteady hup hstep).mpr rfl
    cases hgives 0 _ t rfl hup hstep hdown

end TuxBot.Irc
