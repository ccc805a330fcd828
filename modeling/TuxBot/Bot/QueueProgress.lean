import TuxBot.Bot.QueuePacing

/-! The send queue never stalls: a live timer stands for every entry that waits. -/
namespace TuxBot.Bot

open TuxBot.Machine

variable {b u : State} {c client : Nat} {q : Queue} {a : Action}

/-- A timer that is going to try the queue when it may go on. -/
def Armed (c : Nat) (b : State) : Prop :=
  ∀ q, b.queueOf c = some q → q.items ≠ [] ∨ b.now < q.nextItemTime →
    ∃ i t, b.timers.live i = some t ∧ t.callback = c ∧ q.nextItemTime ≤ t.time

/-- Either a function of the queue runs, whose return arms a timer, or one is armed. -/
def Tended (c : Nat) (b : State) : Prop := (∃ s ∈ b.running, s.client = c) ∨ Armed c b

/-- The queue may go on at once. -/
def Free (c : Nat) (b : State) : Prop := ∀ q, b.queueOf c = some q → q.nextItemTime ≤ b.now

theorem tended_init (config : Config) (now : ℚ) : Tended c (State.init config now) := by
  right
  intro q hq
  simp [State.init, State.queueOf] at hq

/-- An attempt on a queue that may go on starts its head, unless it is empty. -/
theorem tended_runNextQueued (h : Tended c b ∨ client = c ∧ Free c b) :
    Tended c (b.runNextQueued client) := by
  rcases b.runNextQueued_cases client with he | ⟨q, item, items, hq, hnow, hitems⟩
  · rw [he]
    rcases h with h | ⟨rfl, hfree⟩
    · exact h
    · right
      intro q hq hwork
      have hnow := hfree q hq
      rcases hwork with hwork | hwork
      · obtain ⟨item, items, hitems⟩ := List.exists_cons_of_ne_nil hwork
        have hstart := State.runNextQueued_start hq hnow hitems
        have hlen := congrArg (fun s => s.running.length) (he.symm.trans hstart)
        simp at hlen
      · exact absurd hnow (not_le.mpr hwork)
  · rw [State.runNextQueued_start hq hnow hitems]
    by_cases hc : client = c
    · exact Or.inl ⟨_, List.mem_cons_self, hc⟩
    · rcases h with (⟨s, hs, hsc⟩ | harmed) | ⟨hc', -⟩
      · exact Or.inl ⟨s, List.mem_cons_of_mem _ hs, hsc⟩
      · right
        intro r hr
        exact harmed r ((State.queueOf_setQueue_ne hq hc).symm.trans hr)
      · exact absurd hc' hc

theorem tended_queue {interval : Option ℚ} {func : Nat} (h : Tended c b) :
    Tended c (b.queue client interval func) := by
  cases hq : b.queueOf client with
  | none => simpa [State.queue, hq] using h
  | some q =>
    by_cases hlen : q.items.length < b.config.maxQueueSize
    · obtain ⟨v, item, he, hv, rfl⟩ := queue_accepted interval func hq hlen
      rw [he]
      apply tended_runNextQueued
      rcases h with h | harmed
      · exact Or.inl (Or.inl h)
      · by_cases hc : client = c
        · subst hc
          rcases le_or_gt q.nextItemTime b.now with hnow | hnow
          · refine Or.inr ⟨rfl, fun r hr => ?_⟩
            obtain rfl := Option.some.inj (hv.symm.trans hr)
            exact hnow
          · -- the entry waits for the timer that is armed already
            refine Or.inl (Or.inr fun r hr _ => ?_)
            obtain rfl := Option.some.inj (hv.symm.trans hr)
            exact harmed q hq (Or.inr hnow)
        · refine Or.inl (Or.inr fun r hr => ?_)
          exact harmed r ((State.queueOf_setQueue_ne hq hc).symm.trans hr)
    · simpa [State.queue, hq, hlen] using h

/-- The return of a function arms a timer for its queue and keeps those of the others. -/
theorem tended_finish {lag : ℚ} (h : Tended c b) (hlag : 0 ≤ lag) (hu : b.finish lag = some u) :
    Tended c u := by
  obtain ⟨s, hends⟩ := State.ends_finish hlag hu
  by_cases hc : c = s.client
  · subst hc
    refine Or.inr fun r hr _ => ?_
    rw [hends.own] at hr
    obtain ⟨q, hq, rfl⟩ := Option.map_eq_some_iff.mp hr
    exact hends.armed (Option.isSome_of_mem hq)
  · rcases h with ⟨e, he, hec⟩ | harmed
    · rcases List.mem_cons.mp (hends.running ▸ he) with rfl | he
      · exact absurd hec.symm hc
      · exact Or.inl ⟨e, he, hec⟩
    · refine Or.inr fun r hr hwork => ?_
      have hwork' : r.items ≠ [] ∨ b.now < r.nextItemTime := hwork.imp_right hends.now.trans_lt
      obtain ⟨i, t, hlive, hcb, htime⟩ := harmed r (hends.others c hc ▸ hr) hwork'
      exact ⟨i, t, hends.kept i t hlive, hcb, htime⟩

/-- A timer that fires too early was not the one that the queue waits for. -/
theorem tended_fire {i : Nat} (h : Tended c b) (hempty : b.running = [])
    (hdue : b.timers.due b.now i = some client) :
    Tended c ({ b with timers := b.timers.expire i }.runNextQueued client) := by
  apply tended_runNextQueued
  obtain ⟨t, hlive, htime, hcb⟩ := Timers.live_of_due hdue
  rcases h with ⟨s, hs, -⟩ | harmed
  · simp [hempty] at hs
  by_cases hfree : client = c ∧ Free c { b with timers := b.timers.expire i }
  · exact Or.inr hfree
  · refine Or.inl (Or.inr fun q hq hwork => ?_)
    obtain ⟨j, r, hr, hrc, hrt⟩ := harmed q hq hwork
    have hne : j ≠ i := by
      rintro rfl
      obtain rfl := Option.some.inj (hlive.symm.trans hr)
      refine hfree ⟨hcb.symm.trans hrc, fun q' hq' => ?_⟩
      obtain rfl := Option.some.inj (hq.symm.trans hq')
      exact hrt.trans htime
    exact ⟨j, r, Timers.live_expire.trans ((if_neg hne).trans hr), hrc, hrt⟩

/-- Every step leaves each queue tended. -/
theorem tended_step (h : Tended c b) (hs : step b a = some u) : Tended c u := by
  cases a with
  | wait d =>
    obtain ⟨hd, rfl⟩ : 0 ≤ d ∧ { b with now := b.now + d } = u := by simpa [step] using hs
    refine h.imp_right fun harmed q hq hwork => harmed q hq (hwork.imp_right fun hlt => ?_)
    have hlt' : b.now + d < q.nextItemTime := hlt
    linarith
  | queue client interval func =>
    obtain rfl : b.queue client interval func = u := by simpa [step] using hs
    exact tended_queue h
  | finish lag =>
    obtain ⟨hlag, hu⟩ : 0 ≤ lag ∧ b.finish lag = some u := by simpa [step] using hs
    exact tended_finish h hlag hu
  | fire i =>
    obtain ⟨hempty, client, hdue, rfl⟩ : b.running = [] ∧ ∃ client,
        b.timers.due b.now i = some client ∧
        { b with timers := b.timers.expire i }.runNextQueued client = u := by
      simpa [step] using hs
    exact tended_fire h hempty hdue
  | add =>
    obtain rfl : { b with clients := b.clients ++ [some ⟨[], b.now⟩] } = u := by
      simpa [step] using hs
    refine h.imp_right fun harmed q hq hwork => ?_
    rcases lt_or_ge c b.clients.length with hlt | hge
    · exact harmed q (by simpa [State.queueOf, List.getElem?_append_left hlt] using hq) hwork
    · have hbound := State.lt_length_of_queueOf hq
      simp only [List.length_append, List.length_singleton] at hbound
      obtain rfl : c = b.clients.length := by omega
      obtain rfl : (⟨[], b.now⟩ : Queue) = q := by simpa [State.queueOf] using hq
      simp at hwork
  | remove client =>
    obtain rfl : { b with clients := b.clients.set client none } = u := by simpa [step] using hs
    refine h.imp_right fun harmed q hq hwork => ?_
    by_cases hne : client = c
    · subst hne
      have hbound := State.lt_length_of_queueOf hq
      simp only [List.length_set] at hbound
      simp [State.queueOf, hbound] at hq
    · exact harmed q (by simpa [State.queueOf, hne] using hq) hwork
  | reload config =>
    obtain rfl : { b with config } = u := by simpa [step] using hs
    exact h

/-- Whenever control is back in the event loop and entries wait, a live timer of the queue runs out
no sooner than `next_item_time`, and starts the head entry when it fires. -/
theorem queue_never_stalls (config : Config) (now : ℚ) (c : Nat) (actions : List Action)
    (b : State) (q : Queue) (item : Item) (items : List Item)
    (hrun : run step (State.init config now) actions = some b) (hrest : b.running = [])
    (hq : b.queueOf c = some q) (hitems : q.items = item :: items) :
    ∃ i t, b.timers.live i = some t ∧ t.callback = c ∧ q.nextItemTime ≤ t.time ∧
      ∀ d, 0 ≤ d → t.time ≤ b.now + d → ∃ u, run step b [.wait d, .fire i] = some u ∧
        u.starts = b.starts ++ [⟨c, item, b.now + d⟩] := by
  have hb : Tended c b :=
    run_keeps (fun _ _ _ h hs => tended_step h hs) (tended_init config now) hrun
  rcases hb with ⟨s, hs, -⟩ | harmed
  · simp [hrest] at hs
  obtain ⟨i, t, hlive, hcb, htime⟩ := harmed q hq (Or.inl (by simp [hitems]))
  refine ⟨i, t, hlive, hcb, htime, fun d hd hdue => ?_⟩
  have hcall : b.timers.due (b.now + d) i = some c := by simp [Timers.due, hlive, hdue, hcb]
  have hstart := State.runNextQueued_start
    (b := { b with now := b.now + d, timers := b.timers.expire i }) (c := c) hq
    (htime.trans hdue) hitems
  refine ⟨_, ?_, congrArg State.starts hstart⟩
  simp [run, step, hd, hrest, hcall]

/-- The inner function sets `next_item_time` to 1, the outer one to 2/5: its timer, the second, is
the one the third entry waits for. -/
theorem queue_never_stalls_nested : ∃ b q,
    run step (State.init ⟨2 / 5, 40⟩ 0) [.add, .queue 0 none 0, .queue 0 (some 1) 1, .finish 0,
      .finish 0, .queue 0 none 2] = some b ∧ b.queueOf 0 = some q ∧ q.items = [⟨2 / 5, 2⟩] ∧
      ∃ i t, b.timers.live i = some t ∧ t.callback = 0 ∧ q.nextItemTime ≤ t.time := by
  obtain ⟨b, hrun, hb⟩ := Option.map_eq_some_iff.mp
    (by decide +kernel : (run step (State.init ⟨2 / 5, 40⟩ 0) [.add, .queue 0 none 0,
      .queue 0 (some 1) 1, .finish 0, .finish 0, .queue 0 none 2]).map
        (fun b => (b.queueOf 0, b.running)) = some (some ⟨[⟨2 / 5, 2⟩], 2 / 5⟩, []))
  obtain ⟨hq, hrest⟩ := Prod.mk.inj hb
  obtain ⟨i, t, hlive, hcb, htime, -⟩ :=
    queue_never_stalls _ _ 0 _ b _ ⟨2 / 5, 2⟩ [] hrun hrest hq rfl
  exact ⟨b, _, hrun, hq, rfl, i, t, hlive, hcb, htime⟩

end TuxBot.Bot
