import TuxBot.Bot.Queue

/-! When the send queue keeps its pace, and the nested call that breaks it. -/
namespace TuxBot.Bot

open TuxBot.Machine

variable {b u : State} {c client : Nat} {q q' : Queue} {s s' : Start} {a : Action}

namespace State

theorem lt_length_of_queueOf (h : b.queueOf c = some q) : c < b.clients.length := by
  by_contra hc
  simp [queueOf, List.getElem?_eq_none (by omega : b.clients.length ≤ c)] at h

theorem queueOf_setQueue (h : b.queueOf c = some q) :
    (b.setQueue c q').queueOf client = if client = c then some q' else b.queueOf client := by
  have hc := lt_length_of_queueOf h
  by_cases hne : client = c
  · subst hne
    simp [queueOf, setQueue, hc]
  · have hne' : ¬ c = client := fun he => hne he.symm
    simp [queueOf, setQueue, hne, hne']

theorem queueOf_setQueue_ne (h : b.queueOf c = some q) (hne : c ≠ client) :
    (b.setQueue c q').queueOf client = b.queueOf client :=
  (queueOf_setQueue h).trans (if_neg hne.symm)

/-- With the time come and an item waiting, the item is started. -/
theorem runNextQueued_start {item : Item} {items : List Item} (hq : b.queueOf c = some q)
    (hnow : q.nextItemTime ≤ b.now) (hitems : q.items = item :: items) :
    b.runNextQueued c = { b.setQueue c { q with items } with
      running := ⟨c, item, b.now⟩ :: b.running
      starts := b.starts ++ [⟨c, item, b.now⟩] } := by
  simp [runNextQueued, hq, not_lt.mpr hnow, hitems]

/-- Otherwise nothing happens. -/
theorem runNextQueued_cases (b : State) (c : Nat) : b.runNextQueued c = b ∨
    ∃ q item items, b.queueOf c = some q ∧ q.nextItemTime ≤ b.now ∧ q.items = item :: items := by
  unfold runNextQueued
  cases hq : b.queueOf c with
  | none => exact Or.inl rfl
  | some q =>
    by_cases hnow : b.now < q.nextItemTime
    · exact Or.inl (if_pos hnow)
    · cases hitems : q.items with
      | nil => simp [hnow, hitems]
      | cons item items => exact Or.inr ⟨q, item, items, rfl, not_lt.mp hnow, hitems⟩

/-- What the start of `s` does to the state. -/
structure Begins (b : State) (s : Start) (u : State) : Prop where
  starts : u.starts = b.starts ++ [s]
  running : u.running = s :: b.running
  now : u.now = b.now
  clients : u.clients.length = b.clients.length
  time : s.time = b.now
  due : ∃ q, b.queueOf s.client = some q ∧ q.nextItemTime ≤ b.now
  queues : ∀ c r, u.queueOf c = some r → ∃ q, b.queueOf c = some q ∧ q.nextItemTime = r.nextItemTime

/-- What the return of `s` does to the state; the queue of a removed client is none before and
after. -/
structure Ends (b : State) (s : Start) (u : State) : Prop where
  running : b.running = s :: u.running
  starts : u.starts = b.starts
  accepted : u.accepted = b.accepted
  now : b.now ≤ u.now
  clients : u.clients.length = b.clients.length
  own : u.queueOf s.client =
    (b.queueOf s.client).map fun q => { q with nextItemTime := b.now + s.item.interval }
  others : ∀ c ≠ s.client, u.queueOf c = b.queueOf c
  armed : (b.queueOf s.client).isSome →
    ∃ i t, u.timers.live i = some t ∧ t.callback = s.client ∧ b.now + s.item.interval ≤ t.time
  kept : ∀ i t, b.timers.live i = some t → u.timers.live i = some t

/-- With other items in one queue, the time of each is what it was. -/
theorem nextItemTime_setQueue {r : Queue} (items : List Item) (hq : b.queueOf c = some q)
    (hr : (b.setQueue c { q with items }).queueOf client = some r) :
    ∃ q, b.queueOf client = some q ∧ q.nextItemTime = r.nextItemTime := by
  rw [queueOf_setQueue hq] at hr
  split at hr
  · rename_i hc
    obtain rfl := Option.some.inj hr
    exact ⟨q, hc ▸ hq, rfl⟩
  · exact ⟨r, hr, rfl⟩

theorem begins_runNextQueued (b : State) (c : Nat) :
    b.runNextQueued c = b ∨ ∃ s, s.client = c ∧ b.Begins s (b.runNextQueued c) := by
  refine (b.runNextQueued_cases c).imp_right ?_
  rintro ⟨q, item, items, hq, hnow, hitems⟩
  refine ⟨⟨c, item, b.now⟩, rfl, ?_⟩
  rw [runNextQueued_start hq hnow hitems]
  exact ⟨rfl, rfl, rfl, by simp [setQueue], rfl, ⟨q, hq, hnow⟩,
    fun _ _ hr => nextItemTime_setQueue items hq hr⟩

theorem ends_finish {lag : ℚ} (hlag : 0 ≤ lag) (hu : b.finish lag = some u) : ∃ s, b.Ends s u := by
  unfold finish at hu
  split at hu
  · cases hu
  rename_i s running hrunning
  refine ⟨s, ?_⟩
  split at hu
  · -- the client was removed, and the return raises
    rename_i hnone
    obtain rfl := Option.some.inj hu
    refine ⟨hrunning, rfl, rfl, le_rfl, rfl, ?_, fun _ _ => rfl, ?_, fun _ _ h => h⟩
    · rw [hnone]
      exact hnone
    · rw [hnone]
      exact nofun
  · rename_i q hq
    obtain rfl := Option.some.inj hu
    refine ⟨hrunning, rfl, rfl, ?_, by simp [setQueue], ?_, fun c hc => ?_, fun _ => ?_,
      fun i t ht => ?_⟩
    · show b.now ≤ b.now + lag
      linarith
    · rw [hq]
      exact (queueOf_setQueue hq).trans (if_pos rfl)
    · exact queueOf_setQueue_ne hq hc.symm
    · refine ⟨b.timers.length, _, Timers.live_timer.trans (if_pos rfl), rfl, ?_⟩
      show b.now + s.item.interval ≤ b.now + lag + s.item.interval
      linarith
    · have hi := Timers.lt_length_of_live ht
      exact Timers.live_timer.trans ((if_neg hi.ne).trans ht)

end State

theorem paced_snoc {starts : List Start} : Paced c (starts ++ [s]) ↔
    Paced c starts ∧ (s.client = c → ∀ s' ∈ starts, s'.client = c → s'.free ≤ s.time) := by
  by_cases hc : s.client = c
  · have hlast : List.filter (·.client = c) [s] = [s] := by simp [hc]
    simp only [Paced, List.filter_append, hlast, List.pairwise_append]
    simp [hc]
  · simp [Paced, List.filter_append, hc]

/-- What holds of the log of starts in every run. -/
structure Logged (b : State) : Prop where
  past : ∀ s ∈ b.starts, s.time ≤ b.now
  known : ∀ s ∈ b.starts, s.client < b.clients.length
  running : ∀ s ∈ b.running, s ∈ b.starts

/-- A function that was started keeps the queue busy until its interval is over: it runs, or its
time has come, or `next_item_time` waits for it. -/
def Guarded (c : Nat) (b : State) : Prop :=
  ∀ s ∈ b.starts, s.client = c →
    s ∈ b.running ∨ s.free ≤ b.now ∨ ∀ q, b.queueOf c = some q → s.free ≤ q.nextItemTime

/-- While a function of the queue runs it runs alone, and `next_item_time` is in the past. -/
def Alone (c : Nat) (b : State) : Prop :=
  (b.running.Pairwise fun s s' => s.client = c → s'.client ≠ c) ∧
  ∀ s ∈ b.running, s.client = c → ∀ q, b.queueOf c = some q → q.nextItemTime ≤ b.now

structure Pacing (c : Nat) (b : State) : Prop where
  logged : Logged b
  guarded : Guarded c b
  alone : Alone c b
  paced : Paced c b.starts

theorem pacing_init (config : Config) (now : ℚ) : Pacing c (State.init config now) := by
  refine ⟨⟨?_, ?_, ?_⟩, ?_, ⟨?_, ?_⟩, ?_⟩ <;> simp [State.init, Guarded, Paced]

/-- Steps that start nothing. -/
theorem logged_of_eq (h : Logged b) (hs : u.starts = b.starts) (hr : u.running ⊆ b.running)
    (hl : b.clients.length ≤ u.clients.length) (hn : b.now ≤ u.now) : Logged u where
  past s hm := (h.past s (hs ▸ hm)).trans hn
  known s hm := (h.known s (hs ▸ hm)).trans_le hl
  running s hm := hs ▸ h.running s (hr hm)

/-- What guards the queue against a start of old goes on guarding it. -/
theorem guard_mono (hr : s ∈ b.running → s ∈ u.running) (hn : b.now ≤ u.now)
    (hq : ∀ r, u.queueOf c = some r → ∃ q, b.queueOf c = some q ∧ q.nextItemTime = r.nextItemTime)
    (h : s ∈ b.running ∨ s.free ≤ b.now ∨ ∀ q, b.queueOf c = some q → s.free ≤ q.nextItemTime) :
    s ∈ u.running ∨ s.free ≤ u.now ∨ ∀ q, u.queueOf c = some q → s.free ≤ q.nextItemTime := by
  rcases h with hm | hf | hf
  · exact Or.inl (hr hm)
  · exact Or.inr (Or.inl (hf.trans hn))
  · refine Or.inr (Or.inr fun r hu => ?_)
    obtain ⟨q, hbefore, htime⟩ := hq r hu
    exact htime ▸ hf q hbefore

/-- Steps that only move the clock on or change other fields keep the pace. -/
theorem pacing_of_eq (h : Pacing c b) (hs : u.starts = b.starts) (hr : u.running = b.running)
    (hl : b.clients.length ≤ u.clients.length) (hn : b.now ≤ u.now)
    (hq : c < b.clients.length → ∀ r, u.queueOf c = some r →
      ∃ r', b.queueOf c = some r' ∧ r'.nextItemTime = r.nextItemTime) : Pacing c u := by
  have hlogged := logged_of_eq h.logged hs (fun _ hm => hr ▸ hm) hl hn
  refine ⟨hlogged, ?_, ⟨hr ▸ h.alone.1, ?_⟩, hs ▸ h.paced⟩
  · intro s hm hc
    rw [hs] at hm
    exact guard_mono (fun hrun => hr ▸ hrun) hn (hq (hc ▸ h.logged.known s hm)) (h.guarded s hm hc)
  · intro s hm hc r hu
    rw [hr] at hm
    obtain ⟨q, hbefore, htime⟩ := hq (hc ▸ h.logged.known s (h.logged.running s hm)) r hu
    exact htime ▸ (h.alone.2 s hm hc q hbefore).trans hn

theorem logged_begins (h : Logged b) (hu : b.Begins s u) : Logged u where
  past := by
    rw [hu.starts, hu.now]
    exact List.forall_mem_append.mpr ⟨h.past, List.forall_mem_singleton.mpr hu.time.le⟩
  known := by
    obtain ⟨q, hq, -⟩ := hu.due
    rw [hu.starts, hu.clients]
    exact List.forall_mem_append.mpr
      ⟨h.known, List.forall_mem_singleton.mpr (State.lt_length_of_queueOf hq)⟩
  running := by
    rw [hu.starts, hu.running]
    exact List.forall_mem_cons.mpr
      ⟨List.mem_concat_self, fun s' hm => List.mem_append_left _ (h.running s' hm)⟩

theorem guarded_begins (h : Guarded c b) (hu : b.Begins s u) : Guarded c u := by
  intro s' hm hc
  rw [hu.starts] at hm
  rcases List.mem_append.mp hm with hm | hm
  · refine guard_mono (fun hrun => ?_) hu.now.ge (hu.queues c) (h s' hm hc)
    rw [hu.running]
    exact List.mem_cons_of_mem s hrun
  · left
    rw [hu.running, List.mem_singleton.mp hm]
    exact List.mem_cons_self

theorem alone_begins (h : Alone c b) (hidle : s.client = c → ∀ s' ∈ b.running, s'.client ≠ c)
    (hu : b.Begins s u) : Alone c u := by
  refine ⟨?_, fun s' hm hc r hr => ?_⟩
  · rw [hu.running]
    exact List.pairwise_cons.mpr ⟨fun s' hm hc => hidle hc s' hm, h.1⟩
  · obtain ⟨q, hq, htime⟩ := hu.queues c r hr
    rw [← htime, hu.now]
    rw [hu.running] at hm
    rcases List.mem_cons.mp hm with rfl | hm
    · obtain ⟨q', hq', hdue⟩ := hu.due
      rw [hc, hq] at hq'
      exact Option.some.inj hq' ▸ hdue
    · exact h.2 s' hm hc q hq

theorem paced_begins (h : Pacing c b) (hidle : s.client = c → ∀ s' ∈ b.running, s'.client ≠ c)
    (hu : b.Begins s u) : Paced c u.starts := by
  rw [hu.starts]
  refine paced_snoc.mpr ⟨h.paced, fun hc s' hm hc' => ?_⟩
  rw [hu.time]
  obtain ⟨q, hq, hdue⟩ := hu.due
  rcases h.guarded s' hm hc' with hrun | hfree | hfree
  · exact absurd hc' (hidle hc s' hrun)
  · exact hfree
  · exact (hfree q (hc ▸ hq)).trans hdue

/-- Starting the next item keeps the pace when no function of that queue runs. -/
theorem pacing_runNextQueued (h : Pacing c b)
    (hidle : client = c → ∀ s ∈ b.running, s.client ≠ c) :
    Pacing c (b.runNextQueued client) := by
  rcases b.begins_runNextQueued client with he | ⟨s, rfl, hu⟩
  · rwa [he]
  · exact ⟨logged_begins h.logged hu, guarded_begins h.guarded hu, alone_begins h.alone hidle hu,
      paced_begins h hidle hu⟩

theorem logged_ends (h : Logged b) (hu : b.Ends s u) : Logged u :=
  logged_of_eq h hu.starts (by simp [hu.running]) hu.clients.ge hu.now

/-- Behind the function that returns, no other of its queue runs. -/
theorem alone_ends (h : Alone c b) (hu : b.Ends s u) : Alone c u := by
  obtain ⟨hfirst, hothers⟩ := List.pairwise_cons.mp (hu.running ▸ h.1)
  refine ⟨hothers, fun s' hm hc r hr => ?_⟩
  have hne : c ≠ s.client := fun he => hfirst s' hm he.symm hc
  rw [hu.others c hne] at hr
  exact (h.2 s' (by simp [hu.running, hm]) hc r hr).trans hu.now

/-- `next_item_time` then guards the queue of the function. -/
theorem guarded_ends (h : Pacing c b) (hu : b.Ends s u) : Guarded c u := by
  intro s' hm hc
  rw [hu.starts] at hm
  have hguard := h.guarded s' hm hc
  rw [hu.running, List.mem_cons] at hguard
  by_cases hown : c = s.client
  · subst hown
    cases hq : b.queueOf s.client with
    | none =>
      refine Or.inr (Or.inr fun r hr => ?_)
      rw [hu.own, hq] at hr
      cases hr
    | some q =>
      have hpast : q.nextItemTime ≤ b.now := h.alone.2 s (by simp [hu.running]) rfl q hq
      rcases hguard with (rfl | hrun) | hfree | hfree
      · refine Or.inr (Or.inr fun r hr => ?_)
        rw [hu.own, hq] at hr
        obtain rfl := Option.some.inj hr
        exact add_le_add_left (h.logged.past s' hm) _
      · exact Or.inl hrun
      · exact Or.inr (Or.inl (hfree.trans hu.now))
      · exact Or.inr (Or.inl (((hfree q hq).trans hpast).trans hu.now))
  · refine guard_mono (b := b) (fun hrun => ?_) hu.now (fun r hr => ⟨r, hu.others c hown ▸ hr, rfl⟩)
      (h.guarded s' hm hc)
    rw [hu.running] at hrun
    rcases List.mem_cons.mp hrun with rfl | hrun
    · exact absurd hc.symm hown
    · exact hrun

/-- A return moves the guard of the function to `next_item_time`. -/
theorem pacing_finish {lag : ℚ} (h : Pacing c b) (hlag : 0 ≤ lag) (hu : b.finish lag = some u) :
    Pacing c u := by
  obtain ⟨s, hends⟩ := State.ends_finish hlag hu
  exact ⟨logged_ends h.logged hends, guarded_ends h hends, alone_ends h.alone hends,
    hends.starts ▸ h.paced⟩

/-- The call that is put into the queue, before it is tried at once. -/
theorem queue_accepted (interval : Option ℚ) (func : Nat) (hq : b.queueOf c = some q)
    (hlen : q.items.length < b.config.maxQueueSize) : ∃ v item, b.queue c interval func =
      v.runNextQueued c ∧ v.queueOf c = some { q with items := q.items ++ [item] } ∧
      v = { b.setQueue c { q with items := q.items ++ [item] } with
        accepted := b.accepted ++ [(c, item)] } := by
  refine ⟨_, ⟨interval.getD b.config.defaultMinQueueInterval, func⟩, ?_, ?_, rfl⟩
  · simp [State.queue, hq, hlen]
  · exact (State.queueOf_setQueue hq).trans (if_pos rfl)

theorem pacing_queue {interval : Option ℚ} {func : Nat} (h : Pacing c b)
    (hw : Waits c b (.queue client interval func)) : Pacing c (b.queue client interval func) := by
  cases hq : b.queueOf client with
  | none => simpa [State.queue, hq] using h
  | some q =>
    by_cases hlen : q.items.length < b.config.maxQueueSize
    · obtain ⟨v, item, he, -, rfl⟩ := queue_accepted interval func hq hlen
      rw [he]
      apply pacing_runNextQueued
      · exact pacing_of_eq (b := b) h rfl rfl (by simp [State.setQueue]) le_rfl fun _ _ hr =>
          State.nextItemTime_setQueue (q.items ++ [item]) hq hr
      · intro hc
        exact hw hc ⟨q, hq, hlen⟩
    · simpa [State.queue, hq, hlen] using h

/-- One step keeps the pace of a queue that is not called from inside its own functions. -/
theorem pacing_step (h : Pacing c b) (hw : Waits c b a) (hs : step b a = some u) :
    Pacing c u := by
  cases a with
  | wait d =>
    by_cases hd : 0 ≤ d
    · obtain rfl : { b with now := b.now + d } = u := by simpa [step, hd] using hs
      refine pacing_of_eq h rfl rfl le_rfl ?_ fun _ r hr => ⟨r, hr, rfl⟩
      show b.now ≤ b.now + d
      linarith
    · simp [step, hd] at hs
  | queue client interval func =>
    obtain rfl : b.queue client interval func = u := by simpa [step] using hs
    exact pacing_queue h hw
  | finish lag =>
    by_cases hlag : 0 ≤ lag
    · exact pacing_finish h hlag (by simpa [step, hlag] using hs)
    · simp [step, hlag] at hs
  | fire i =>
    by_cases hempty : b.running = []
    · obtain ⟨client, -, rfl⟩ : ∃ client, b.timers.due b.now i = some client ∧
          { b with timers := b.timers.expire i }.runNextQueued client = u := by
        simpa [step, hempty] using hs
      apply pacing_runNextQueued
      · exact pacing_of_eq (b := b) h rfl rfl le_rfl le_rfl fun _ r hr => ⟨r, hr, rfl⟩
      · intro _ s hm
        simp [hempty] at hm
    · simp [step, hempty] at hs
  | add =>
    obtain rfl : { b with clients := b.clients ++ [some ⟨[], b.now⟩] } = u := by
      simpa [step] using hs
    refine pacing_of_eq h rfl rfl (by simp) le_rfl ?_
    intro hc r hr
    exact ⟨r, by simpa [State.queueOf, List.getElem?_append_left hc] using hr, rfl⟩
  | remove client =>
    obtain rfl : { b with clients := b.clients.set client none } = u := by simpa [step] using hs
    refine pacing_of_eq h rfl rfl (by simp) le_rfl ?_
    intro hlen r hr
    by_cases hc : client = c
    · subst hc
      simp [State.queueOf, hlen] at hr
    · exact ⟨r, by simpa [State.queueOf, hc] using hr, rfl⟩
  | reload config =>
    obtain rfl : { b with config } = u := by simpa [step] using hs
    exact pacing_of_eq h rfl rfl le_rfl le_rfl fun _ r hr => ⟨r, hr, rfl⟩

/-- A call accepted from inside a function of the same queue starts the next one at once: too early,
unless the interval of the running function is already over. -/
theorem not_paced_of_nested {interval : Option ℚ} {func : Nat} (h : Pacing c b)
    (ha : b.Accepts c) (hs : s ∈ b.running) (hc : s.client = c) (hearly : b.now < s.free) :
    ¬ Paced c (b.queue c interval func).starts := by
  obtain ⟨q, hq, hlen⟩ := ha
  have hnow := h.alone.2 s hs hc q hq
  obtain ⟨v, item, he, hv, rfl⟩ := queue_accepted interval func hq hlen
  have hstart : ∃ e, e.client = c ∧ e.time = b.now ∧
      (b.queue c interval func).starts = b.starts ++ [e] := by
    obtain ⟨first, items, hitems⟩ : ∃ first items, q.items ++ [item] = first :: items := by
      cases q.items <;> exact ⟨_, _, rfl⟩
    refine ⟨⟨c, first, b.now⟩, rfl, rfl, ?_⟩
    rw [he, State.runNextQueued_start hv hnow hitems]
    rfl
  obtain ⟨e, hec, het, hstarts⟩ := hstart
  rw [hstarts, paced_snoc]
  rintro ⟨-, hpaced⟩
  have hfree := hpaced hec s (h.logged.running s hs) hc
  linarith

/-- The send queue of a client keeps its pace in every run in which it is never called from inside
one of its own functions. In any state of such a run, a call from inside a function whose interval
is not over breaks the pace. -/
theorem queue_paced (config : Config) (now : ℚ) (c : Nat) (actions : List Action) (b : State)
    (hrun : run step (State.init config now) actions = some b)
    (hwaits : Along step (Waits c) (State.init config now) actions) :
    Paced c b.starts ∧ ∀ interval func, b.Accepts c →
      (∃ s ∈ b.running, s.client = c ∧ b.now < s.free) →
      ¬ Paced c (b.queue c interval func).starts := by
  have hb : Pacing c b :=
    run_keeps_along (fun _ _ _ h hw hs => pacing_step h hw hs) (pacing_init config now) hwaits hrun
  refine ⟨hb.paced, ?_⟩
  rintro interval func ha ⟨s, hs, hc, hearly⟩
  exact not_paced_of_nested hb ha hs hc hearly

/-- Two calls from a handler: the second function waits for the timer of the first. -/
theorem queue_paced_two_calls :
    Paced 0 [⟨0, ⟨2 / 5, 0⟩, 0⟩, ⟨0, ⟨2 / 5, 1⟩, 1 / 2⟩] :=
  (queue_paced ⟨2 / 5, 40⟩ 0 0
    [.add, .queue 0 none 0, .finish 0, .queue 0 none 1, .wait (1 / 2), .fire 0]
    ⟨⟨2 / 5, 40⟩, 1 / 2, [some ⟨[], 2 / 5⟩], [⟨2 / 5, true, false, 0⟩],
      [⟨0, ⟨2 / 5, 1⟩, 1 / 2⟩], [(0, ⟨2 / 5, 0⟩), (0, ⟨2 / 5, 1⟩)],
      [⟨0, ⟨2 / 5, 0⟩, 0⟩, ⟨0, ⟨2 / 5, 1⟩, 1 / 2⟩]⟩
    (by decide +kernel)
    (by
      simp [Along, step, Waits, State.init, State.queue, State.queueOf, State.setQueue,
        State.runNextQueued, State.finish])).1

/-- `send_multiline` with two lines: the first function queues the second, which starts at once. -/
theorem nested_queue_not_paced : ∃ b,
    run step (State.init ⟨2 / 5, 40⟩ 0) [.add, .queue 0 none 0, .queue 0 none 1] = some b ∧
      ¬ Paced 0 b.starts := by
  refine ⟨⟨⟨2 / 5, 40⟩, 0, [some ⟨[], 0⟩], [], [⟨0, ⟨2 / 5, 1⟩, 0⟩, ⟨0, ⟨2 / 5, 0⟩, 0⟩],
    [(0, ⟨2 / 5, 0⟩), (0, ⟨2 / 5, 1⟩)], [⟨0, ⟨2 / 5, 0⟩, 0⟩, ⟨0, ⟨2 / 5, 1⟩, 0⟩]⟩, ?_, ?_⟩
  · decide +kernel
  · unfold Paced
    decide +kernel

end TuxBot.Bot
