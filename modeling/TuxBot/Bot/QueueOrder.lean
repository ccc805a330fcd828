import TuxBot.Bot.QueuePacing

/-! The send queue as a first-in first-out queue: nothing is lost, repeated or reordered. -/
namespace TuxBot.Bot

open TuxBot.Machine

variable {b u : State} {c client : Nat} {q q' : Queue} {a : Action}

namespace State

/-- The functions of the client's queue that were started, in the order of their starts. -/
def startedOf (b : State) (c : Nat) : List Item :=
  (b.starts.filter (·.client = c)).map Start.item

/-- The calls accepted for the client, in the order of their acceptance. -/
def acceptedOf (b : State) (c : Nat) : List Item :=
  (b.accepted.filter (·.1 = c)).map Prod.snd

end State

/-- What was accepted for a client was either started or still waits, in the same order. -/
structure Balanced (b : State) : Prop where
  started : ∀ s ∈ b.starts, s.client < b.clients.length
  accepted : ∀ p ∈ b.accepted, p.1 < b.clients.length
  balance : ∀ c q, b.queueOf c = some q → b.startedOf c ++ q.items = b.acceptedOf c

theorem balanced_init (config : Config) (now : ℚ) : Balanced (State.init config now) := by
  constructor
  · intro s hs
    simp [State.init] at hs
  · intro p hp
    simp [State.init] at hp
  · intro c q hq
    simp [State.init, State.queueOf] at hq

/-- Steps that start and accept nothing, and leave every queue of old with its items. -/
theorem balanced_of_eq (h : Balanced b) (hs : u.starts = b.starts) (ha : u.accepted = b.accepted)
    (hl : b.clients.length ≤ u.clients.length)
    (hq : ∀ c q, u.queueOf c = some q → (∃ r, b.queueOf c = some r ∧ r.items = q.items) ∨
      b.clients.length ≤ c ∧ q.items = []) : Balanced u := by
  constructor
  · rw [hs]
    exact fun s hm => (h.started s hm).trans_le hl
  · rw [ha]
    exact fun p hm => (h.accepted p hm).trans_le hl
  · intro c q hu
    have hstarted : u.startedOf c = b.startedOf c := by rw [State.startedOf, hs, State.startedOf]
    have haccepted : u.acceptedOf c = b.acceptedOf c := by
      rw [State.acceptedOf, ha, State.acceptedOf]
    rw [hstarted, haccepted]
    rcases hq c q hu with ⟨r, hr, hitems⟩ | ⟨hc, hitems⟩
    · rw [← hitems]
      exact h.balance c r hr
    · -- a client that is new has no history
      have hnone : b.starts.filter (·.client = c) = [] := by
        rw [List.filter_eq_nil_iff]
        intro s hm
        have hlt := h.started s hm
        simp only [decide_eq_true_eq]
        omega
      have hnone' : b.accepted.filter (·.1 = c) = [] := by
        rw [List.filter_eq_nil_iff]
        intro p hm
        have hlt := h.accepted p hm
        simp only [decide_eq_true_eq]
        omega
      rw [State.startedOf, State.acceptedOf, hnone, hnone', hitems]
      rfl

/-- Starting the head entry moves it from the queue to the log of starts. -/
theorem balanced_runNextQueued (h : Balanced b) : Balanced (b.runNextQueued client) := by
  rcases b.runNextQueued_cases client with he | ⟨q, item, items, hq, hnow, hitems⟩
  · rwa [he]
  have hlen : (b.setQueue client { q with items }).clients.length = b.clients.length := by
    simp [State.setQueue]
  rw [State.runNextQueued_start hq hnow hitems]
  constructor
  · intro s hs
    rcases List.mem_append.mp hs with hs | hs
    · exact hlen ▸ h.started s hs
    · obtain rfl := List.mem_singleton.mp hs
      exact hlen ▸ State.lt_length_of_queueOf hq
  · intro p hp
    exact hlen ▸ h.accepted p hp
  · intro c r hr
    have hset := State.queueOf_setQueue hq ▸ hr
    by_cases hc : c = client
    · subst hc
      obtain rfl : { q with items } = r := by simpa using hset
      have hbal := h.balance c q hq
      rw [hitems] at hbal
      simpa [State.startedOf, State.acceptedOf, State.setQueue] using hbal
    · rw [if_neg hc] at hset
      have hne : ¬ client = c := fun he => hc he.symm
      simpa [State.startedOf, State.acceptedOf, State.setQueue, hne] using h.balance c r hset

/-- An accepted call adds its entry to the log and at the end of the queue. -/
theorem balanced_queue {interval : Option ℚ} {func : Nat} (h : Balanced b) :
    Balanced (b.queue client interval func) := by
  cases hq : b.queueOf client with
  | none => simpa [State.queue, hq] using h
  | some q =>
    by_cases hlen : q.items.length < b.config.maxQueueSize
    · obtain ⟨v, item, he, hv, rfl⟩ := queue_accepted interval func hq hlen
      rw [he]
      apply balanced_runNextQueued
      constructor
      · intro s hs
        simpa [State.setQueue] using h.started s hs
      · intro p hp
        have hlt := State.lt_length_of_queueOf hq
        rcases List.mem_append.mp hp with hp | hp
        · simpa [State.setQueue] using h.accepted p hp
        · obtain rfl := List.mem_singleton.mp hp
          simpa [State.setQueue] using hlt
      · intro c r hr
        have hset := State.queueOf_setQueue hq ▸ hr
        by_cases hc : c = client
        · subst hc
          obtain rfl := by simpa using hset
          have hbal := h.balance c q hq
          simp only [State.startedOf, State.acceptedOf] at hbal
          simp [State.startedOf, State.acceptedOf, State.setQueue, ← hbal]
        · rw [if_neg hc] at hset
          have hne : ¬ client = c := fun he => hc he.symm
          simpa [State.startedOf, State.acceptedOf, State.setQueue, hne] using h.balance c r hset
    · simpa [State.queue, hq, hlen] using h

theorem balanced_finish {lag : ℚ} (h : Balanced b) (hlag : 0 ≤ lag) (hu : b.finish lag = some u) :
    Balanced u := by
  obtain ⟨s, hends⟩ := State.ends_finish hlag hu
  refine balanced_of_eq h hends.starts hends.accepted hends.clients.ge fun c r hr => Or.inl ?_
  by_cases hc : c = s.client
  · rw [hc, hends.own] at hr
    obtain ⟨q, hq, rfl⟩ := Option.map_eq_some_iff.mp hr
    exact ⟨q, hc ▸ hq, rfl⟩
  · exact ⟨r, hends.others c hc ▸ hr, rfl⟩

/-- One step of the bot keeps every queue in balance. -/
theorem balanced_step (h : Balanced b) (hs : step b a = some u) : Balanced u := by
  cases a with
  | wait d =>
    obtain ⟨-, rfl⟩ : 0 ≤ d ∧ { b with now := b.now + d } = u := by simpa [step] using hs
    exact balanced_of_eq (b := b) h rfl rfl le_rfl fun c q hc => Or.inl ⟨q, hc, rfl⟩
  | queue client interval func =>
    obtain rfl : b.queue client interval func = u := by simpa [step] using hs
    exact balanced_queue h
  | finish lag =>
    obtain ⟨hlag, hu⟩ : 0 ≤ lag ∧ b.finish lag = some u := by simpa [step] using hs
    exact balanced_finish h hlag hu
  | fire i =>
    obtain ⟨-, client, -, rfl⟩ : b.running = [] ∧ ∃ client, b.timers.due b.now i = some client ∧
        { b with timers := b.timers.expire i }.runNextQueued client = u := by
      simpa [step] using hs
    apply balanced_runNextQueued
    exact balanced_of_eq (b := b) h rfl rfl le_rfl fun c q hc => Or.inl ⟨q, hc, rfl⟩
  | add =>
    obtain rfl : { b with clients := b.clients ++ [some ⟨[], b.now⟩] } = u := by
      simpa [step] using hs
    refine balanced_of_eq (b := b) h rfl rfl (by simp) ?_
    intro c q hc
    rcases lt_or_ge c b.clients.length with hlt | hge
    · exact Or.inl ⟨q, by simpa [State.queueOf, List.getElem?_append_left hlt] using hc, rfl⟩
    · have hnew : c = b.clients.length := by
        have hbound := State.lt_length_of_queueOf hc
        simp only [List.length_append, List.length_singleton] at hbound
        omega
      subst hnew
      obtain rfl : (⟨[], b.now⟩ : Queue) = q := by simpa [State.queueOf] using hc
      exact Or.inr ⟨le_rfl, rfl⟩
  | remove client =>
    obtain rfl : { b with clients := b.clients.set client none } = u := by simpa [step] using hs
    refine balanced_of_eq (b := b) h rfl rfl (by simp) ?_
    intro c q hc
    by_cases hne : client = c
    · subst hne
      have hbound := State.lt_length_of_queueOf hc
      simp only [List.length_set] at hbound
      simp [State.queueOf, hbound] at hc
    · exact Or.inl ⟨q, by simpa [State.queueOf, hne] using hc, rfl⟩
  | reload config =>
    obtain rfl : { b with config } = u := by simpa [step] using hs
    exact balanced_of_eq (b := b) h rfl rfl le_rfl fun c q hc => Or.inl ⟨q, hc, rfl⟩

/-- A call finds room and its entry is accepted, or finds none and nothing happens. -/
theorem queue_decides (interval : Option ℚ) (func : Nat) (hq : b.queueOf c = some q) :
    (q.items.length < b.config.maxQueueSize ∧ (b.queue c interval func).accepted = b.accepted ++
      [(c, ⟨interval.getD b.config.defaultMinQueueInterval, func⟩)]) ∨
    (b.config.maxQueueSize ≤ q.items.length ∧ b.queue c interval func = b) := by
  rcases lt_or_ge q.items.length b.config.maxQueueSize with hlen | hlen
  · refine Or.inl ⟨hlen, ?_⟩
    have hstart : ∀ v : State, (v.runNextQueued c).accepted = v.accepted := by
      intro v
      rcases v.runNextQueued_cases c with he | ⟨r, item, items, hr, hnow, hitems⟩
      · rw [he]
      · rw [State.runNextQueued_start hr hnow hitems]
        rfl
    simp [State.queue, hq, hlen, hstart]
  · exact Or.inr ⟨hlen, by simp [State.queue, hq, hlen]⟩

/-- In every state of every run, the functions of a client's queue were started in the order of
their acceptance, each once, and the others wait in the queue; a call is refused exactly when the
queue is full. -/
theorem queue_fifo (config : Config) (now : ℚ) (c : Nat) (actions : List Action) (b : State)
    (q : Queue) (hrun : run step (State.init config now) actions = some b)
    (hq : b.queueOf c = some q) :
    b.startedOf c ++ q.items = b.acceptedOf c ∧ b.startedOf c <+: b.acceptedOf c ∧
    (∀ item, (b.startedOf c).count item + q.items.count item = (b.acceptedOf c).count item) ∧
    ∀ interval func, (b.queue c interval func = b ↔ b.config.maxQueueSize ≤ q.items.length) ∧
      (q.items.length < b.config.maxQueueSize → (b.queue c interval func).acceptedOf c =
        b.acceptedOf c ++ [⟨interval.getD b.config.defaultMinQueueInterval, func⟩]) := by
  have hb : Balanced b :=
    run_keeps (fun _ _ _ h hs => balanced_step h hs) (balanced_init config now) hrun
  have hbal := hb.balance c q hq
  refine ⟨hbal, ⟨q.items, hbal⟩, ?_, ?_⟩
  · intro item
    rw [← hbal, List.count_append]
  · intro interval func
    rcases queue_decides interval func hq with ⟨hlen, haccepted⟩ | ⟨hlen, he⟩
    · refine ⟨⟨fun he => ?_, fun hfull => absurd hlen (by omega)⟩, fun _ => ?_⟩
      · have hsame := congrArg (fun s => s.accepted.length) he
        simp [haccepted] at hsame
      · simp [State.acceptedOf, haccepted]
    · exact ⟨⟨fun _ => hlen, fun _ => he⟩, fun hroom => absurd hroom (by omega)⟩

/-- A function that queues two more: the first of them is started inside it, the second waits. -/
theorem queue_fifo_nested : ∃ b q,
    run step (State.init ⟨2 / 5, 2⟩ 0) [.add, .queue 0 none 0, .queue 0 (some 1) 1, .finish 0,
      .queue 0 none 2] = some b ∧ b.queueOf 0 = some q ∧ b.startedOf 0 ++ q.items = b.acceptedOf 0 ∧
      b.startedOf 0 = [⟨2 / 5, 0⟩, ⟨1, 1⟩] ∧ q.items = [⟨2 / 5, 2⟩] := by
  obtain ⟨b, hrun, hb⟩ := Option.map_eq_some_iff.mp
    (by decide +kernel : (run step (State.init ⟨2 / 5, 2⟩ 0) [.add, .queue 0 none 0,
      .queue 0 (some 1) 1, .finish 0, .queue 0 none 2]).map (fun b => (b.queueOf 0, b.startedOf 0)) =
        some (some ⟨[⟨2 / 5, 2⟩], 1⟩, [⟨2 / 5, 0⟩, ⟨1, 1⟩]))
  obtain ⟨hq, hstarted⟩ := Prod.mk.inj hb
  exact ⟨b, _, hrun, hq, (queue_fifo _ _ 0 _ b _ hrun hq).1, hstarted, rfl⟩

end TuxBot.Bot
