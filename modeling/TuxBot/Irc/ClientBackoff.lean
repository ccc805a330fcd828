import TuxBot.Irc.ClientBreaks

/-! The intervals between the attempts to reconnect. -/
namespace TuxBot.Irc

open TuxBot.Lua TuxBot.Lua.Eff TuxBot.Machine

variable {env : Env} {w u : World} {s t : ClientLoop} {i : ClientInput} {nick : Bytes} {now : ℚ}
  {inputs : List ClientInput} {r : Option ℚ} {n : ℚ}

/-- A step in which `_reconnect` chose the interval `d`. -/
structure Reconnects (s t : ClientLoop) (d : ℚ) : Prop where
  before : s.world.session.state ≠ .reconnecting
  after : t.world.session.state = .reconnecting
  delay : t.world.reconnecttime = some d

/-- The interval is as it was at first, and so is the time. -/
abbrev Paced (r : Option ℚ) (n : ℚ) (w : World) : Prop := w.reconnecttime = r ∧ w.now = n

/-- `_reconnect` has not been called. -/
abbrev Unbroken (r : Option ℚ) (n : ℚ) (w : World) : Prop :=
  Paced r n w ∧ w.session.state ≠ .reconnecting

/-- `_reconnect` has been called, and has chosen the interval that follows `r`. -/
structure Broken (timings : Timings) (r : Option ℚ) (n : ℚ) (w : World) : Prop where
  state : w.session.state = .reconnecting
  now : w.now = n
  delay : w.reconnecttime = Client.nextReconnecttime timings { w with reconnecttime := r }

theorem enduring_interval (S : Option ℚ → ℚ → Prop) :
    Enduring fun w => S w.reconnecttime w.now where
  passes w u hpasses h := by
    have htime : u.reconnecttime = w.reconnecttime :=
      congrArg (fun w => w.reconnecttime) hpasses.core
    have hnow : u.now = w.now := congrArg (fun w => w.now) hpasses.core
    rw [htime, hnow]
    exact h
  recvbuf _ _ h := h
  connstate _ _ h := h
  isupport _ _ h := h
  quit _ h := h
  pingtime _ _ h := h
  connected _ _ h := h
  cancel _ _ h := h
  arm _ _ _ h := h
  enter _ _ _ h := h

theorem paced_enduring (r : Option ℚ) (n : ℚ) : Enduring (Paced r n) :=
  enduring_interval fun interval now => interval = r ∧ now = n

theorem unbroken_enduring (r : Option ℚ) (n : ℚ) : Enduring (Unbroken r n) :=
  (paced_enduring r n).and enduring_notReconnecting

theorem broken_of_core {timings : Timings} (h : Broken timings r n w) (hcore : u.core = w.core) :
    Broken timings r n u := by
  have hstate : u.session.state = w.session.state := state_of_core hcore
  have hnow : u.now = w.now := congrArg (fun w => w.now) hcore
  have htime : u.reconnecttime = w.reconnecttime := congrArg (fun w => w.reconnecttime) hcore
  have hnext : Client.nextReconnecttime timings { u with reconnecttime := r } =
      Client.nextReconnecttime timings { w with reconnecttime := r } := by
    have hsame := congrArg (fun w : World =>
      Client.nextReconnecttime timings { w with reconnecttime := r }) hcore
    exact hsame
  exact ⟨hstate.trans h.state, hnow.trans h.now, htime.trans (h.delay.trans hnext.symm)⟩

/-- What a call leaves of a Client that was not reconnecting. -/
abbrev Paces (timings : Timings) (r : Option ℚ) (n : ℚ) (w : World) : Prop :=
  Unbroken r n w ∨ Broken timings r n w

theorem unbroken_removeHandlers (h : Unbroken r n w) : Unbroken r n w.removeHandlers :=
  of_removeHandlers fun _ _ => h

theorem unbroken_addHandlers (h : Unbroken r n w) :
    Unbroken r n (World.addWritableHandler (World.addReadableHandler w)) :=
  of_addHandlers fun _ _ => h

section Harmless

variable (hcalls : env.Harmless)
include hcalls

/-- The interval is chosen once the socket is given up, and nothing after that changes it. -/
theorem paces_reconnect {reason : Bytes} : Triple (Unbroken r n) (Client.reconnect env reason)
    (fun _ => Paces env.timings r n) (Paces env.timings r n) := by
  have hraise : ∀ {α : Type} {m : Eff World α},
      Triple (Unbroken r n) m (fun _ => Unbroken r n) (Unbroken r n) →
        Triple (Unbroken r n) m (fun _ => Unbroken r n) (Paces env.timings r n) := fun hm =>
    triple_conseq hm (fun _ h => h) (fun _ _ h => h) fun _ => Or.inl
  refine triple_bind (hraise (unbroken_enduring r n).cancelTimer) fun _ => ?_
  refine triple_bind (Q := fun _ => Unbroken r n) (triple_modify fun u =>
    unbroken_removeHandlers) fun _ => ?_
  refine triple_bind (Q := fun _ => Unbroken r n) ?_ fun _ => ?_
  · refine hraise (triple_get_bind fun w h => triple_at ?_ h)
    cases w.conn with
    | none => exact triple_throw fun _ h => h
    | some c => exact triple_modify fun u hu => hu
  refine triple_bind (Q := fun _ u => u.now = n ∧ u.reconnecttime =
    Client.nextReconnecttime env.timings { u with reconnecttime := r }) (triple_modify fun u hu => ?_)
    fun _ => ?_
  · obtain ⟨⟨rfl, rfl⟩, -⟩ := hu
    exact ⟨rfl, rfl⟩
  refine triple_bind (Q := fun _ => Broken env.timings r n) (triple_modify fun u hu =>
    ⟨rfl, hu.1, hu.2⟩) fun _ => ?_
  refine triple_get_bind fun w hw => triple_at ?_ hw
  refine triple_bind (Q := fun _ => Broken env.timings r n) (triple_modify fun u hu => ?_) fun _ => ?_
  · exact broken_of_core hu (passes_trigger hcalls u u rfl).core
  refine triple_get_bind fun w hw => triple_at ?_ hw
  cases w.reconnecttime with
  | none => exact triple_throw fun _ => Or.inr
  | some interval => exact triple_modify fun u hu => Or.inr ⟨hu.state, hu.now, hu.delay⟩

theorem paces_breaks : Breaks env (Unbroken r n) (Paces env.timings r n) where
  toEnduring := unbroken_enduring r n
  remove _ := unbroken_removeHandlers
  wrap _ _ _ h := unbroken_addHandlers h
  handshake _ _ h := h
  unbroken _ := Or.inl
  reconnect _ := paces_reconnect hcalls

/-! ### Steps -/

/-- What a step makes of the interval. -/
def PacedStep (env : Env) (s t : ClientLoop) : Prop :=
  t.world.reconnecttime = s.world.reconnecttime ∧
      (t.world.session.state = .reconnecting → s.world.session.state = .reconnecting) ∨
    s.world.session.state ≠ .reconnecting ∧
      Broken env.timings s.world.reconnecttime s.world.now t.world

omit hcalls in
theorem pacedStep_of_paces (hstate : s.world.session.state ≠ .reconnecting)
    (h : Paces env.timings s.world.reconnecttime s.world.now t.world) : PacedStep env s t := by
  rcases h with h | h
  · exact Or.inl ⟨h.1.1, fun hreconnecting => absurd hreconnecting h.2⟩
  · exact Or.inr ⟨hstate, h⟩

/-- Without a socket nothing can be read, written or given up. -/
abbrev Detached (r : Option ℚ) (n : ℚ) (w : World) : Prop := Paced r n w ∧ w.conn = none

omit hcalls in
theorem detached_enduring (r : Option ℚ) (n : ℚ) : Enduring (Detached r n) :=
  (paced_enduring r n).and (enduring_conn (· = none))

omit hcalls in
theorem detached_onReady {up : Eff World Unit}
    (hup : Triple (Detached r n) up (fun _ => Detached r n) (Detached r n)) :
    Triple (fun w => Detached r n w ∧ w.session.state = .reconnecting) (Client.onReady env up)
      (fun _ => Detached r n) (Detached r n) :=
  triple_onReady (fun _ h => by simp [h.2])
    (triple_conseq hup (fun _ h => h.1) (fun _ _ h => h) fun _ h => h)

omit hcalls in
theorem detached_onReceived {received : Received} : Triple (Detached r n)
    (Client.onReceived env received) (fun _ => Detached r n) (Detached r n) := by
  refine triple_get_bind fun w h => ?_
  rw [h.2]
  exact triple_throw fun u hu => hu ▸ h

omit hcalls in
theorem detached_onReadable {received : Received} :
    Triple (fun w => Detached r n w ∧ w.session.state = .reconnecting)
      (Client.onReadable env received) (fun _ => Detached r n) (Detached r n) :=
  triple_bind (detached_onReady detached_onReceived) fun _ => triple_pure fun _ h => h

omit hcalls in
theorem detached_onWritable :
    Triple (fun w => Detached r n w ∧ w.session.state = .reconnecting)
      (Client.onWritable env) (fun _ => Detached r n) (Detached r n) :=
  triple_bind (detached_onReady ((detached_enduring r n).passed passes_flush)) fun _ =>
    triple_pure fun _ h => h

omit hcalls in
theorem detached_reconnect {reason : Bytes} : Triple (Detached r n) (Client.reconnect env reason)
    (fun _ => Detached r n) (Detached r n) := by
  refine triple_bind (detached_enduring r n).cancelTimer fun _ => ?_
  refine triple_bind (Q := fun _ => Detached r n) (triple_modify fun u hu => ?_) fun _ => ?_
  · have hsame : u.removeHandlers = u := by simp [World.removeHandlers, hu.2]
    exact hsame.symm ▸ hu
  refine triple_bind (Q := fun _ _ => False) ?_ fun _ => fun _ h => h.elim
  refine triple_get_bind fun w h => ?_
  rw [h.2]
  exact triple_throw fun u hu => hu ▸ h

theorem detached_onTimer {timer : ClientTimer} : Triple (Detached r n) (Client.onTimer env timer)
    (fun _ => Paced r n) (Paced r n) := by
  cases timer with
  | reconnect reason =>
    exact triple_conseq detached_reconnect (fun _ h => h) (fun _ _ h => h.1) fun _ h => h.1
  | connect =>
    exact triple_conseq (keeps_connect hcalls (paced_enduring r n) (fun _ h => h) fun _ h => h)
      (fun _ h => h.1) (fun _ _ h => h) fun _ h => h
  | ping =>
    exact triple_conseq ((paced_enduring r n).ping hcalls) (fun _ h => h.1) (fun _ _ h => h)
      fun _ h => h

/-- Of the steps of a Client that is reconnecting, only `disconnect` touches the interval. -/
theorem reconnecttime_step (h : Steady env s) (hstate : s.world.session.state = .reconnecting)
    (hne : ∀ arg, i ≠ .disconnect arg) (hstep : s.step env i = some t) :
    t.world.reconnecttime = s.world.reconnecttime := by
  have hdetached : Detached s.world.reconnecttime s.world.now s.world :=
    ⟨⟨rfl, rfl⟩, h.phase.reconnecting hstate⟩
  have hendures := detached_enduring s.world.reconnecttime s.world.now
  refine step_rule (Q := fun u => u.reconnecttime = s.world.reconnecttime) hcalls hstep (fun _ => rfl)
    (fun _ _ _ hu => hu) (fun received => ?_) ?_ (fun j timer _ _ => ?_) (fun _ => ?_)
    (fun arg harg => absurd harg (hne arg)) fun m hm => ?_
  · exact (triple_after (m := Client.onReadable env received) detached_onReadable ⟨hdetached, hstate⟩).1.1
  · exact (triple_after (m := Client.onWritable env) detached_onWritable ⟨hdetached, hstate⟩).1.1
  · exact (triple_after (detached_onTimer hcalls) hdetached).1
  · exact (triple_after (keeps_connect hcalls (paced_enduring _ _) (fun _ h => h) fun _ h => h)
      hdetached.1).1
  · exact (triple_after (hendures.passed hm) hdetached).1.1

/-- A step leaves the interval alone, or is one in which `_reconnect` chooses the next. -/
theorem pacedStep (h : Steady env s) (hne : ∀ arg, i ≠ .disconnect arg)
    (hstep : s.step env i = some t) : PacedStep env s t := by
  by_cases hstate : s.world.session.state = .reconnecting
  · exact Or.inl ⟨reconnecttime_step hcalls h hstate hne hstep, fun _ => hstate⟩
  have hunbroken : Unbroken s.world.reconnecttime s.world.now s.world := ⟨⟨rfl, rfl⟩, hstate⟩
  have hendures := unbroken_enduring s.world.reconnecttime s.world.now
  have hbreaks := paces_breaks hcalls (r := s.world.reconnecttime) (n := s.world.now)
  have hconnect := keeps_connect hcalls hendures (fun _ h => h) fun _ h => h
  have hloop : ∀ (u : World) (loop : EventLoop Nat Nat ClientTimer),
      PacedStep env s { t with world := u } → PacedStep env s { t with world := { u with loop } } := by
    rintro u loop (hu | ⟨-, hu⟩)
    · exact Or.inl hu
    · exact Or.inr ⟨hstate, hu.state, hu.now, hu.delay⟩
  refine step_rule (Q := fun u => PacedStep env s { t with world := u }) hcalls hstep
    (fun _ => Or.inl ⟨rfl, id⟩) (fun u loop _ => hloop u loop) (fun received => ?_) ?_
    (fun j timer _ _ => hloop _ _ ?_) (fun _ => ?_) (fun arg harg => absurd harg (hne arg))
    fun m hm => ?_
  · exact pacedStep_of_paces hstate (triple_after (hbreaks.onReadable hcalls) hunbroken)
  · exact pacedStep_of_paces hstate (triple_after (hbreaks.onWritable hcalls) hunbroken)
  · exact pacedStep_of_paces hstate (triple_after (hbreaks.onTimer hcalls hconnect) hunbroken)
  · exact pacedStep_of_paces hstate (Or.inl (triple_after hconnect hunbroken))
  · exact pacedStep_of_paces hstate (Or.inl (triple_after (hendures.passed hm) hunbroken))

end Harmless

/-! ### The interval that follows an interval -/

/-- The settings the intervals are made of are sensible. -/
structure Timings.Sensible (timings : Timings) (initial : ℚ) : Prop where
  first : timings.initialReconnectionInterval = some initial
  pos : 0 < initial
  max : initial ≤ timings.maxReconnectionInterval
  scale : 1 ≤ timings.reconnectionIntervalScale

/-- The last welcome, noted at `connected`, is longer ago than a connection must last for the
intervals to begin anew. -/
def Outlived (timings : Timings) (connected : Option Int) (time : Int) : Prop :=
  ∃ c, connected = some c ∧ timings.reconnectionIntervalResetTime < ((time - c : Int) : ℚ)

/-- An interval between those of the settings. -/
def InRange (timings : Timings) (w : World) : Prop :=
  ∀ d, w.reconnecttime = some d → 0 < d ∧ d ≤ timings.maxReconnectionInterval

variable {timings : Timings} {initial d d' : ℚ}

theorem nextReconnecttime_outlived (h : Outlived timings w.timeLastConnected w.time) :
    Client.nextReconnecttime timings { w with reconnecttime := some d } =
      timings.initialReconnectionInterval := by
  obtain ⟨c, hc, hlong⟩ := h
  simp only [Client.nextReconnecttime, hc]
  exact if_pos hlong

theorem nextReconnecttime_scaled (h : ¬ Outlived timings w.timeLastConnected w.time) :
    Client.nextReconnecttime timings { w with reconnecttime := some d } =
      some (min timings.maxReconnectionInterval (d * timings.reconnectionIntervalScale)) := by
  have hscaled : (if d * timings.reconnectionIntervalScale > timings.maxReconnectionInterval then
      timings.maxReconnectionInterval else d * timings.reconnectionIntervalScale) =
      min timings.maxReconnectionInterval (d * timings.reconnectionIntervalScale) := by
    split
    · rename_i hlt
      exact (min_eq_left hlt.le).symm
    · rename_i hge
      exact (min_eq_right (not_lt.mp hge)).symm
  cases hconnected : w.timeLastConnected with
  | none => simp only [Client.nextReconnecttime, hscaled]
  | some c =>
    simp only [Client.nextReconnecttime, hscaled]
    exact if_neg fun hlong => h ⟨c, hconnected, hlong⟩

/-- The scaled interval is in range and no shorter. -/
theorem scaled_bounds (h : timings.Sensible initial) (hpos : 0 < d)
    (hmax : d ≤ timings.maxReconnectionInterval) :
    d ≤ min timings.maxReconnectionInterval (d * timings.reconnectionIntervalScale) :=
  le_min hmax (le_mul_of_one_le_right hpos.le h.scale)

theorem inRange_next (h : timings.Sensible initial) (hw : InRange timings w) (hd : d' ∈
    Client.nextReconnecttime timings w) : 0 < d' ∧ d' ≤ timings.maxReconnectionInterval := by
  cases hr : w.reconnecttime with
  | none =>
    have hfirst : Client.nextReconnecttime timings w = some initial := by
      simp only [Client.nextReconnecttime, hr, h.first]
    rw [hfirst] at hd
    exact Option.mem_some_iff.mp hd ▸ ⟨h.pos, h.max⟩
  | some d =>
    obtain ⟨hpos, hmax⟩ := hw d hr
    have hsame : { w with reconnecttime := some d } = w := by rw [← hr]
    rw [← hsame] at hd
    by_cases hout : Outlived timings w.timeLastConnected w.time
    · rw [nextReconnecttime_outlived hout, h.first] at hd
      exact Option.mem_some_iff.mp hd ▸ ⟨h.pos, h.max⟩
    · rw [nextReconnecttime_scaled hout] at hd
      have hge := scaled_bounds h hpos hmax
      exact Option.mem_some_iff.mp hd ▸ ⟨hpos.trans_le hge, min_le_left _ _⟩

section Runs

variable (hcalls : env.Harmless)
include hcalls

/-- `disconnect` does not begin to reconnect. -/
theorem notReconnecting_disconnect {arg : Client.QuitArg}
    (hstate : s.world.session.state ≠ .reconnecting)
    (hstep : s.step env (.disconnect arg) = some t) : t.world.session.state ≠ .reconnecting := by
  cases hstep
  refine triple_after (keeps_disconnect hcalls enduring_notReconnecting (fun w hw => hw)
    (fun w hw => ?_) fun w hw => hw) hstate
  exact of_removeHandlers (P := fun u => u.session.state ≠ .reconnecting) fun _ _ => hw

/-- The interval a step chooses is the one that follows. -/
theorem broken_of_reconnects (h : Steady env s) (hstep : s.step env i = some t)
    (hreconnects : Reconnects s t d) :
    Broken env.timings s.world.reconnecttime s.world.now t.world := by
  have hne : ∀ arg, i ≠ .disconnect arg := by
    rintro arg rfl
    exact notReconnecting_disconnect hcalls hreconnects.before hstep hreconnects.after
  rcases pacedStep hcalls h hne hstep with hkept | hbroken
  · exact absurd (hkept.2 hreconnects.after) hreconnects.before
  · exact hbroken.2

variable (hsensible : env.timings.Sensible initial)
include hsensible

theorem inRange_step (h : Steady env s) (hrange : InRange env.timings s.world)
    (hstep : s.step env i = some t) : InRange env.timings t.world := by
  by_cases hne : ∀ arg, i ≠ .disconnect arg
  · rcases pacedStep hcalls h hne hstep with hkept | hbroken
    · unfold InRange
      rw [hkept.1]
      exact hrange
    · intro d hd
      have hnext := hbroken.2.delay.symm.trans hd
      exact inRange_next hsensible (w := { t.world with
        reconnecttime := s.world.reconnecttime }) hrange hnext
  · obtain ⟨arg, hi⟩ := not_forall.mp hne
    obtain rfl := not_not.mp hi
    cases hstep
    have hendures : Enduring (InRange env.timings) := enduring_interval fun interval _ =>
      ∀ d, interval = some d → 0 < d ∧ d ≤ env.timings.maxReconnectionInterval
    refine triple_after (keeps_disconnect hcalls hendures (fun w _ d hd => ?_)
      (fun w hw => of_removeHandlers fun _ _ => hw) fun w hw => hw) hrange
    cases hd

/-- Neither a call of `disconnect` nor a step in which `_reconnect` chooses an interval. -/
def KeepsInterval (env : Env) (s : ClientLoop) (i : ClientInput) : Prop :=
  (∀ arg, i ≠ .disconnect arg) ∧ ∀ t d, s.step env i = some t → ¬ Reconnects s t d

theorem reconnecttime_keeps (h : Steady env s) (hinterval : s.world.reconnecttime = some d)
    (hkeeps : KeepsInterval env s i) (hstep : s.step env i = some t) :
    t.world.reconnecttime = some d := by
  rcases pacedStep hcalls h hkeeps.1 hstep with hkept | hbroken
  · exact hkept.1.trans hinterval
  · exfalso
    have hdelay := hbroken.2.delay
    rw [hinterval] at hdelay
    by_cases hout : Outlived env.timings t.world.timeLastConnected t.world.time
    · rw [nextReconnecttime_outlived hout, hsensible.first] at hdelay
      exact hkeeps.2 t _ hstep ⟨hbroken.1, hbroken.2.state, hdelay⟩
    · rw [nextReconnecttime_scaled hout] at hdelay
      exact hkeeps.2 t _ hstep ⟨hbroken.1, hbroken.2.state, hdelay⟩

end Runs

/-- In every run, let `_reconnect` choose `d` and, with no `disconnect` between, `d'` the next time.
A welcome between would have noted its time. Then `d'` is `d` scaled, up to the maximum, and no
shorter, exactly when the last welcome was not too long ago or this is the initial interval anyway. -/
theorem backoff_iff (hcalls : env.Harmless) (hsensible : env.timings.Sensible initial)
    {before between : List ClientInput} {s s₁ s₂ s₃ : ClientLoop} {i j : ClientInput}
    (hrun : run (ClientLoop.step env) (.new nick now) before = some s)
    (hfirst : s.step env i = some s₁) (hreconnects : Reconnects s s₁ d)
    (hbetween : run (ClientLoop.step env) s₁ between = some s₂)
    (hkeeps : Along (ClientLoop.step env) (KeepsInterval env) s₁ between)
    (hsecond : s₂.step env j = some s₃) (hreconnects' : Reconnects s₂ s₃ d')
    (hwelcome : s₃.world.timeLastConnected = s₁.world.timeLastConnected) :
    d' = min env.timings.maxReconnectionInterval (d * env.timings.reconnectionIntervalScale) ∧
        d ≤ d' ↔
      ¬ Outlived env.timings s₁.world.timeLastConnected s₂.world.time ∨
        initial = min env.timings.maxReconnectionInterval
          (d * env.timings.reconnectionIntervalScale) := by
  have hsteady := steady_run hcalls (steady_new nick now) hrun
  have hsteady₁ := steady_step hcalls hsteady hfirst
  have hrange : InRange env.timings s₁.world := by
    have hnew : InRange env.timings (ClientLoop.new nick now).world := fun d hd => by cases hd
    have hinvariant : Steady env s ∧ InRange env.timings s.world := run_keeps
      (I := fun s => Steady env s ∧ InRange env.timings s.world) (fun s i t h hstep =>
        ⟨steady_step hcalls h.1 hstep, inRange_step hcalls hsensible h.1 h.2 hstep⟩)
      ⟨steady_new nick now, hnew⟩ hrun
    exact inRange_step hcalls hsensible hinvariant.1 hinvariant.2 hfirst
  obtain ⟨hpos, hmax⟩ := hrange d hreconnects.delay
  obtain ⟨hsteady₂, hinterval⟩ : Steady env s₂ ∧ s₂.world.reconnecttime = some d :=
    run_keeps_along (I := fun s => Steady env s ∧ s.world.reconnecttime = some d)
      (fun s i t h hd hstep => ⟨steady_step hcalls h.1 hstep,
        reconnecttime_keeps hcalls hsensible h.1 h.2 hd hstep⟩)
      ⟨hsteady₁, hreconnects.delay⟩ hkeeps hbetween
  have hbroken := broken_of_reconnects hcalls hsteady₂ hsecond hreconnects'
  have hdelay := hbroken.delay.symm.trans hreconnects'.delay
  have htime : s₃.world.time = s₂.world.time := congrArg Int.floor hbroken.now
  rw [hinterval] at hdelay
  rw [← hwelcome, ← htime]
  by_cases hout : Outlived env.timings s₃.world.timeLastConnected s₃.world.time
  · rw [nextReconnecttime_outlived hout, hsensible.first] at hdelay
    obtain rfl := Option.some.inj hdelay
    constructor
    · rintro ⟨hscaled, -⟩
      exact Or.inr hscaled
    · rintro (hnot | hscaled)
      · exact absurd hout hnot
      · exact ⟨hscaled, hscaled ▸ scaled_bounds hsensible hpos hmax⟩
  · rw [nextReconnecttime_scaled hout] at hdelay
    obtain rfl := Option.some.inj hdelay
    exact iff_of_true ⟨rfl, scaled_bounds hsensible hpos hmax⟩ (Or.inl hout)

/-- An attempt after `d` seconds that times out: the timer `k` connects, the next one gives up. -/
def attempt (d : ℚ) (k : Nat) : List ClientInput := [.wait d, .fire k, .wait 60]

theorem keepsInterval_wait {seconds : ℚ} : KeepsInterval env s (.wait seconds) := by
  refine ⟨nofun, fun t d hstep hreconnects => ?_⟩
  obtain ⟨-, ⟨⟩⟩ := Option.ite_none_right_eq_some.mp hstep
  exact hreconnects.before hreconnects.after

/-- The interval is kept until the attempt times out. -/
theorem along_attempt {k : Nat} (hstate : s.world.session.state = .reconnecting) :
    Along (ClientLoop.step env) (KeepsInterval env) s (attempt d k) := by
  refine ⟨keepsInterval_wait, fun a ha => ⟨⟨nofun, fun t d _ hreconnects => ?_⟩, fun b _ =>
    ⟨keepsInterval_wait, fun _ _ => trivial⟩⟩⟩
  obtain ⟨-, ⟨⟩⟩ := Option.ite_none_right_eq_some.mp ha
  exact hreconnects.before hstate

/-- What the theorem reads of a loop. -/
def ClientLoop.pace (s : ClientLoop) : ClientState × Option ℚ × Option Int :=
  (s.world.session.state, s.world.reconnecttime, s.world.timeLastConnected)

/-- Two attempts of which the paces are known. -/
theorem attempts_of_pace (env : Env) (start : ClientLoop) (before : List ClientInput) (i j : ClientInput) (k : Nat)
    (d d' : ℚ) (connected : Option Int)
    (hs : (run (ClientLoop.step env) start before).map
      (fun s => decide (s.world.session.state = .reconnecting)) = some false)
    (hs₁ : (run (ClientLoop.step env) start (before ++ [i])).map ClientLoop.pace =
      some (.reconnecting, some d, connected))
    (hs₂ : (run (ClientLoop.step env) start (before ++ [i] ++ attempt d k)).map
      (fun s => decide (s.world.session.state = .reconnecting)) = some false)
    (hs₃ : (run (ClientLoop.step env) start (before ++ [i] ++ attempt d k ++ [j])).map
      ClientLoop.pace = some (.reconnecting, some d', connected)) :
    ∃ s s₁ s₂ s₃, run (ClientLoop.step env) start before = some s ∧
      s.step env i = some s₁ ∧ Reconnects s s₁ d ∧
      run (ClientLoop.step env) s₁ (attempt d k) = some s₂ ∧
      Along (ClientLoop.step env) (KeepsInterval env) s₁ (attempt d k) ∧
      s₂.step env j = some s₃ ∧ Reconnects s₂ s₃ d' ∧
      s₁.world.timeLastConnected = connected ∧ s₃.world.timeLastConnected = connected := by
  obtain ⟨s₃, hrun₃, hpace₃⟩ := Option.map_eq_some_iff.mp hs₃
  obtain ⟨s₂, hrun₂, hsecond⟩ := run_snoc hrun₃
  obtain ⟨s₁, hrun₁, hbetween⟩ := Option.bind_eq_some_iff.mp (run_append.symm.trans hrun₂)
  obtain ⟨s, hrun, hfirst⟩ := run_snoc hrun₁
  rw [hrun, Option.map_some] at hs
  rw [hrun₁, Option.map_some] at hs₁
  rw [hrun₂, Option.map_some] at hs₂
  simp only [ClientLoop.pace, Option.some.injEq, Prod.mk.injEq] at hs₁ hpace₃
  exact ⟨s, s₁, s₂, s₃, hrun, hfirst, ⟨of_decide_eq_false (Option.some.inj hs), hs₁.1, hs₁.2.1⟩,
    hbetween, along_attempt hs₁.1, hsecond,
    ⟨of_decide_eq_false (Option.some.inj hs₂), hpace₃.1, hpace₃.2.1⟩, hs₁.2.2, hpace₃.2.2⟩

/-- Two attempts of a new Client that time out: 5 seconds, then 6. -/
theorem backoff_timeouts :
    ∃ s₁ s₂ s₃, run (ClientLoop.step .silent) (.new "tux" 0) ([.connect, .wait 60] ++ [.fire 0]) =
        some s₁ ∧
      run (ClientLoop.step .silent) s₁ (attempt 5 1) = some s₂ ∧ s₂.step .silent (.fire 2) = some s₃ ∧
      Reconnects s₂ s₃ 6 ∧ (6 : ℚ) = min Env.silent.timings.maxReconnectionInterval
        (5 * Env.silent.timings.reconnectionIntervalScale) ∧ (5 : ℚ) ≤ 6 := by
  obtain ⟨s, s₁, s₂, s₃, hrun, hfirst, hreconnects, hbetween, hkeeps, hsecond, hreconnects', hc, hc'⟩ :=
    attempts_of_pace .silent (.new "tux" 0) [.connect, .wait 60] (.fire 0) (.fire 2) 1 5 6 none
      (by decide +kernel) (by decide +kernel) (by decide +kernel) (by decide +kernel)
  have hsensible : Env.silent.timings.Sensible 5 := ⟨rfl, by decide +kernel, by decide +kernel,
    by decide +kernel⟩
  refine ⟨s₁, s₂, s₃, ?_, hbetween, hsecond, hreconnects', ?_⟩
  · rw [run_append, hrun, Option.bind_some, run, hfirst]
    rfl
  refine (backoff_iff harmless_silent hsensible hrun hfirst hreconnects hbetween hkeeps hsecond
    hreconnects' (hc'.trans hc.symm)).mpr (Or.inl ?_)
  rintro ⟨c, hsome, -⟩
  cases hc.symm.trans hsome

/-- The server closes the connection at once and is away for six minutes. The attempt after 10.4
seconds times out more than five minutes after the welcome, so the next one follows after 5. -/
theorem backoff_shortens :
    let before := [.connect, .select [] [0], .writable 1, .select [0] [],
        .readable 0 (.short "timeout" ":s 001 tux :hi\r\n"), .select [0] [],
        .readable 0 (.short "closed" "")] ++ attempt 5 3 ++ [.fire 4] ++ attempt 6 5 ++ [.fire 6] ++
      attempt (36 / 5) 7 ++ [.fire 8] ++ attempt (216 / 25) 9
    ∃ s s₁ s₂ s₃, run (ClientLoop.step .silent) (.new "tux" 0) before = some s ∧
      s.step .silent (.fire 10) = some s₁ ∧ Reconnects s s₁ (1296 / 125) ∧
      run (ClientLoop.step .silent) s₁ (attempt (1296 / 125) 11) = some s₂ ∧
      Along (ClientLoop.step .silent) (KeepsInterval .silent) s₁ (attempt (1296 / 125) 11) ∧
      s₂.step .silent (.fire 12) = some s₃ ∧ Reconnects s₂ s₃ 5 ∧
      s₁.world.timeLastConnected = some 0 ∧ s₃.world.timeLastConnected = some 0 ∧
      ¬ ((5 : ℚ) = min Env.silent.timings.maxReconnectionInterval
        (1296 / 125 * Env.silent.timings.reconnectionIntervalScale)) ∧ ¬ (1296 / 125 : ℚ) ≤ 5 := by
  intro before
  obtain ⟨s, s₁, s₂, s₃, hrun, hfirst, hreconnects, hbetween, hkeeps, hsecond, hreconnects', hc, hc'⟩ :=
    attempts_of_pace .silent (.new "tux" 0) before (.fire 10) (.fire 12) 11 (1296 / 125) 5 (some 0)
      (by decide +kernel) (by decide +kernel) (by decide +kernel) (by decide +kernel)
  exact ⟨s, s₁, s₂, s₃, hrun, hfirst, hreconnects, hbetween, hkeeps, hsecond, hreconnects', hc, hc',
    by decide +kernel, by decide +kernel⟩

end TuxBot.Irc
