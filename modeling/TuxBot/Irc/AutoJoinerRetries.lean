import TuxBot.Irc.AutoJoinerJoins

/-! How the AutoJoiner retries a channel, and what that does to the others. -/
namespace TuxBot.Irc

open TuxBot.Lua TuxBot.Machine TuxBot.Retry AutoJoiner Wishes

variable {o : RejoinOptions} {j t : AutoJoiner} {w : Wishes Bytes ℚ} {msg : Message}
  {channel name c x : Bytes} {interval last : Option ℚ} {i : Nat}

theorem nextInterval_eq_delay (o : RejoinOptions) (interval : Option ℚ) :
    nextInterval o interval = o.delay interval := by
  cases interval with
  | none => rfl
  | some v =>
    simp only [nextInterval, RejoinOptions.delay, Option.some.injEq, mul_comm v]
    rcases lt_or_ge o.maxRejoinInterval (o.rejoinIntervalScale * v) with h | h
    · rw [if_pos h, min_eq_left h.le]
    · rw [if_neg h.not_gt, min_eq_right h]

/-! The handlers and the timers. -/

theorem live_cancelTimer : (j.cancelTimer channel).timers.live i =
    if (j.rejoining channel).bind RejoinInfo.timer = some i then none else j.timers.live i := by
  unfold cancelTimer
  cases h : (j.rejoining channel).bind RejoinInfo.timer with
  | none => simp
  | some k => simp [Timers.live_cancel, eq_comm]

@[simp] theorem length_cancelTimer : (j.cancelTimer channel).timers.length = j.timers.length := by
  unfold cancelTimer
  split <;> simp

@[simp] theorem cancelTimer_now : (j.cancelTimer channel).now = j.now := by
  unfold cancelTimer
  split <;> rfl

theorem live_arm {delay : ℚ} : (j.arm channel name (some delay)).timers.live i =
    if i = j.timers.length then some ⟨j.now + delay, true, true, name⟩ else j.timers.live i :=
  Timers.live_timer

theorem length_arm {delay : ℚ} :
    (j.arm channel name (some delay)).timers.length = j.timers.length + 1 := by
  simp [arm, setRejoining]

/-- What holds of the entries and the timers while every reply finds the entry of its channel: the
interval of an entry is the delay last armed; a channel in `on_channels` has none; the timer of an
entry is one for its channel; and every live timer is that of its channel's entry. -/
structure Tended (o : RejoinOptions) (q : AutoJoiner × Wishes Bytes ℚ) : Prop where
  delay : ∀ c r, q.1.rejoiningChannels.lookup c = some r → q.2.want c = some r.interval
  idle : ∀ c ∈ q.1.onChannels, ∀ r, q.1.rejoiningChannels.lookup c = some r → r = ⟨none, none⟩
  timed : ∀ c r i, q.1.rejoiningChannels.lookup c = some r → r.timer = some i →
    r.interval.isSome ∧ i < q.1.timers.length ∧
      ∀ x, q.1.timers.live i = some x → q.1.session.mapping.lower x.callback = c
  owned : ∀ i x, q.1.timers.live i = some x → ∃ r,
    q.1.rejoiningChannels.lookup (q.1.session.mapping.lower x.callback) = some r ∧ r.timer = some i
  unset : o.initialRejoinInterval = none → ∀ c r, q.1.rejoiningChannels.lookup c = some r →
    r.interval = none

/-- A channel's entry goes, and its timer is cancelled. -/
theorem tended_clear {v : Wishes Bytes ℚ} (h : Tended o (j, w))
    (hmap : t.session.mapping = j.session.mapping)
    (hlookup : ∀ x, t.rejoiningChannels.lookup x =
      if x = c then none else j.rejoiningChannels.lookup x)
    (hlive : ∀ i, t.timers.live i = if (j.rejoiningChannels.lookup c).bind RejoinInfo.timer = some i
      then none else j.timers.live i)
    (hlength : t.timers.length = j.timers.length)
    (hon : ∀ x ∈ t.onChannels, x ≠ c → x ∈ j.onChannels)
    (hwant : ∀ x, x ≠ c → v.want x = w.want x) : Tended o (t, v) := by
  have hentry : ∀ x r, t.rejoiningChannels.lookup x = some r →
      x ≠ c ∧ j.rejoiningChannels.lookup x = some r := by
    intro x r hr
    rw [hlookup] at hr
    split at hr
    · cases hr
    · exact ⟨‹_›, hr⟩
  have htimer : ∀ i x, t.timers.live i = some x → j.timers.live i = some x ∧
      (j.rejoiningChannels.lookup c).bind RejoinInfo.timer ≠ some i := by
    intro i x hx
    rw [hlive] at hx
    split at hx
    · cases hx
    · exact ⟨hx, ‹_›⟩
  refine ⟨?_, ?_, ?_, ?_, ?_⟩
  · intro x r hr
    obtain ⟨hne, hr⟩ := hentry x r hr
    exact (hwant x hne).trans (h.delay x r hr)
  · intro x hx r hr
    obtain ⟨hne, hr⟩ := hentry x r hr
    exact h.idle x (hon x hx hne) r hr
  · intro x r i hr hi
    obtain ⟨hne, hr⟩ := hentry x r hr
    obtain ⟨hsome, hlt, hcall⟩ := h.timed x r i hr hi
    refine ⟨hsome, hlength.symm ▸ hlt, ?_⟩
    intro y hy
    rw [hmap]
    exact hcall y (htimer i y hy).1
  · intro i x hx
    obtain ⟨hx, hne⟩ := htimer i x hx
    obtain ⟨r, hr, hi⟩ := h.owned i x hx
    refine ⟨r, ?_, hi⟩
    rw [hmap, hlookup, if_neg]
    · exact hr
    · intro hc
      rw [hc] at hr
      exact hne (by simp [hr, hi])
  · intro hunset x r hr
    exact h.unset hunset x r (hentry x r hr).2

/-- A channel's entry is replaced by one with a new timer, and the old timer is cancelled. -/
theorem tended_arm {v : Wishes Bytes ℚ} {delay : ℚ} (h : Tended o (j, w))
    (hmap : t.session.mapping = j.session.mapping) (hname : j.session.mapping.lower name = c)
    (hset : o.initialRejoinInterval.isSome)
    (hlookup : ∀ x, t.rejoiningChannels.lookup x =
      if x = c then some ⟨some delay, some j.timers.length⟩ else j.rejoiningChannels.lookup x)
    (hlive : ∀ i, t.timers.live i =
      if i = j.timers.length then some ⟨j.now + delay, true, true, name⟩
      else if (j.rejoiningChannels.lookup c).bind RejoinInfo.timer = some i then none
      else j.timers.live i)
    (hlength : t.timers.length = j.timers.length + 1)
    (hon : ∀ x ∈ t.onChannels, x ≠ c ∧ x ∈ j.onChannels)
    (hwant : ∀ x, v.want x = if x = c then some (some delay) else w.want x) : Tended o (t, v) := by
  refine ⟨?_, ?_, ?_, ?_, ?_⟩
  · intro x r hr
    rw [hlookup] at hr
    change v.want x = _
    rw [hwant]
    split at hr
    · rename_i hx
      obtain rfl := Option.some.inj hr
      rw [if_pos hx]
    · rename_i hx
      rw [if_neg hx]
      exact h.delay x r hr
  · intro x hx r hr
    obtain ⟨hne, hx⟩ := hon x hx
    rw [hlookup, if_neg hne] at hr
    exact h.idle x hx r hr
  · intro x r i hr hi
    rw [hlookup] at hr
    split at hr
    · rename_i hx
      obtain rfl := Option.some.inj hr
      obtain rfl := Option.some.inj hi
      refine ⟨rfl, by simp [hlength], ?_⟩
      intro y hy
      rw [hlive, if_pos rfl] at hy
      obtain rfl := Option.some.inj hy
      rw [hmap, hx]
      exact hname
    · rename_i hx
      obtain ⟨hsome, hlt, hcall⟩ := h.timed x r i hr hi
      have hlt : i < j.timers.length := hlt
      refine ⟨hsome, hlength.symm ▸ Nat.lt_succ_of_lt hlt, ?_⟩
      intro y hy
      rw [hlive, if_neg hlt.ne] at hy
      rw [hmap]
      split at hy
      · cases hy
      · exact hcall y hy
  · intro i x hx
    rw [hlive] at hx
    rw [hmap, hlookup]
    split at hx
    · rename_i hi
      obtain rfl := Option.some.inj hx
      exact ⟨_, if_pos hname, by rw [hi]⟩
    · split at hx
      · cases hx
      · rename_i hne
        obtain ⟨r, hr, hi⟩ := h.owned i x hx
        refine ⟨r, ?_, hi⟩
        rw [if_neg]
        · exact hr
        · intro hc
          rw [hc] at hr
          exact hne (by simp [hr, hi])
  · intro hunset
    simp [hunset] at hset

theorem tended_onJoin (h : Tended o (j, w)) :
    Tended o (j.onJoin channel, w.next o.delay (.gained (j.session.mapping.lower channel))) := by
  apply tended_clear h (by rw [onJoin_session]) (fun _ => lookup_onJoin)
  · intro i
    rw [onJoin_eq]
    exact live_cancelTimer
  · rw [onJoin_eq]
    exact length_cancelTimer
  · intro x hx hne
    exact (mem_onJoin.mp hx).resolve_left hne
  · intro x hne
    simp [next, hne]

theorem tended_onPart (h : Tended o (j, w)) :
    Tended o (j.onPart channel, w.next o.delay (.left (j.session.mapping.lower channel))) := by
  apply tended_clear h (by rw [onPart_session]) (fun _ => lookup_onPart)
  · exact fun i => live_cancelTimer
  · exact length_cancelTimer
  · intro x hx _
    exact (mem_onPart.mp hx).2
  · intro x hne
    simp [next, hne]

theorem tended_onRefusal (h : Tended o (j, w)) :
    Tended o (j.onRefusal channel,
      w.next o.delay (.refused (j.session.mapping.lower channel))) := by
  apply tended_clear h (by rw [onRefusal_session]) (fun _ => lookup_onRefusal)
  · exact fun i => live_cancelTimer
  · exact length_cancelTimer
  · intro x hx _
    rwa [onRefusal_onChannels] at hx
  · intro x hne
    simp [next, hne]

/-- What a KICK and a retry do to a channel that is to be tried again after `delay`. -/
def rearm (j : AutoJoiner) (channel name : Bytes) (delay : ℚ) : AutoJoiner :=
  ((j.removeOn channel).cancelTimer channel).arm channel name (some delay)

theorem lookup_rearm {delay : ℚ} : (rearm j channel name delay).rejoiningChannels.lookup x =
    if x = j.session.mapping.lower channel then some ⟨some delay, some j.timers.length⟩
    else j.rejoiningChannels.lookup x := by
  have hlength : (j.removeOn channel).timers.length = j.timers.length := rfl
  simp [rearm, lookup_arm, hlength]

theorem live_rearm {delay : ℚ} : (rearm j channel name delay).timers.live i =
    if i = j.timers.length then some ⟨j.now + delay, true, true, name⟩
    else if (j.rejoining channel).bind RejoinInfo.timer = some i then none
    else j.timers.live i := by
  have hlength : (j.removeOn channel).timers.length = j.timers.length := rfl
  have hnow : (j.removeOn channel).now = j.now := rfl
  rw [rearm, live_arm, live_cancelTimer, length_cancelTimer, cancelTimer_now, hlength, hnow]
  rfl

theorem tended_rearm {v : Wishes Bytes ℚ} {delay : ℚ} (h : Tended o (j, w))
    (hset : o.initialRejoinInterval.isSome)
    (hname : j.session.mapping.lower name = j.session.mapping.lower channel)
    (hwant : v.want = Function.update w.want (j.session.mapping.lower channel) (some (some delay))) :
    Tended o (rearm j channel name delay, v) := by
  have hsession : (rearm j channel name delay).session.mapping = j.session.mapping := by simp [rearm]
  apply tended_arm h hsession hname hset (fun _ => lookup_rearm) (fun _ => live_rearm)
  · rw [rearm, length_arm, length_cancelTimer]
    rfl
  · intro x hx
    simpa [rearm] using hx
  · intro x
    rw [hwant, Function.update_apply]

theorem tended_onKick (h : Tended o (j, w)) (hset : o.initialRejoinInterval.isSome) :
    Tended o (j.onKick o channel,
      w.next o.delay (.expelled (j.session.mapping.lower channel))) := by
  obtain ⟨delay, hdelay⟩ := Option.isSome_iff_exists.mp hset
  rw [onKick, hdelay]
  apply tended_rearm h hset rfl
  simp [next, RejoinOptions.delay, hdelay]

/-- Where the first argument names the channel, a retry finds the entry with the last delay. -/
theorem onRetry_eq (name : Bytes) (h : Tended o (j, w)) (hset : o.initialRejoinInterval.isSome)
    (hlast : w.want (j.session.mapping.lower channel) = some last)
    (hagrees : (j.rejoining channel).isSome) : ∃ delay, o.delay last = some delay ∧
      j.onRetry o channel name = rearm j channel name delay := by
  obtain ⟨r, hr⟩ := Option.isSome_iff_exists.mp hagrees
  obtain rfl : last = r.interval := by
    have hwant := h.delay _ r hr
    exact Option.some.inj (hlast.symm.trans hwant)
  obtain ⟨delay, hdelay⟩ : ∃ delay, o.delay r.interval = some delay := by
    obtain ⟨first, hfirst⟩ := Option.isSome_iff_exists.mp hset
    cases r.interval with
    | none => exact ⟨first, hfirst⟩
    | some v => exact ⟨_, rfl⟩
  refine ⟨delay, hdelay, ?_⟩
  simp [onRetry, rearm, nextInterval_eq_delay, hr, hdelay]

theorem tended_onRetry (h : Tended o (j, w)) (hset : o.initialRejoinInterval.isSome)
    (hname : j.session.mapping.lower name = j.session.mapping.lower channel)
    (hentry : (j.rejoining channel).isSome) : Tended o (j.onRetry o channel name,
      w.next o.delay (.deferred (j.session.mapping.lower channel))) := by
  obtain ⟨r, hr⟩ := Option.isSome_iff_exists.mp hentry
  have hlast := h.delay _ r hr
  obtain ⟨delay, hdelay, heq⟩ := onRetry_eq name h hset hlast hentry
  rw [heq]
  apply tended_rearm h hset hname
  have hwant : w.want (j.session.mapping.lower channel) = some r.interval := hlast
  simp [next, hwant, hdelay]

/-- The condition on an input: as before; a channel is only tried again when an interval is set and
the reply names the channel in its first argument too; and `addchannel` is not called for a channel
that was already tried again. -/
def Independent (o : RejoinOptions) (q : AutoJoiner × Wishes Bytes ℚ) : JoinerInput → Prop
  | .message msg => Understood o q msg ∧
    match joinerEvent q.1.session msg with
    | .expelled _ => o.initialRejoinInterval.isSome
    | .deferred c => c ∈ q.2.wanted →
      q.1.listening ∧ q.1.named msg = c ∧ o.initialRejoinInterval.isSome
    | _ => True
  | .addchannel chan => (q.2.want (q.1.session.mapping.lower chan)).join = none
  | _ => True

theorem tended_wishes {v : Wishes Bytes ℚ} (h : Tended o (j, w)) (hwant : v.want = w.want) :
    Tended o (j, v) :=
  ⟨fun c r hr => (congrFun hwant c).trans (h.delay c r hr), h.idle, h.timed, h.owned, h.unset⟩

theorem tended_session {s : Session} (h : Tended o (j, w))
    (hmap : s.mapping = j.session.mapping) : Tended o ({ j with session := s }, w) := by
  refine ⟨h.delay, h.idle, ?_, ?_, h.unset⟩
  · intro c r i hr hi
    obtain ⟨hsome, hlt, hcall⟩ := h.timed c r i hr hi
    refine ⟨hsome, hlt, ?_⟩
    intro x hx
    change s.mapping.lower x.callback = c
    rw [hmap]
    exact hcall x hx
  · intro i x hx
    change ∃ r, j.rejoiningChannels.lookup (s.mapping.lower x.callback) = some r ∧ _
    rw [hmap]
    exact h.owned i x hx

theorem next_deferred_of_not_mem {delay : Option ℚ → Option ℚ} (h : c ∉ w.wanted) :
    (w.next delay (.deferred c)).want = w.want := by
  rw [not_mem_wanted_iff] at h
  simp only [next, h, Option.map_none]
  exact Function.update_eq_self_iff.mpr h.symm

theorem tended_onMessage (h : Tended o (j, w)) (ha : Agrees (j, w))
    (hi : Independent o (j, w) (.message msg)) :
    Tended o (j.onMessage o msg, w.next o.delay (joinerEvent j.session msg)) := by
  obtain ⟨⟨-, hu⟩, hi⟩ := hi
  rcases onMessage_cases o j msg with ⟨channel, he, hj⟩ | ⟨channel, he, hj⟩ | ⟨channel, he, hj⟩ |
    ⟨first, second, he, hnamed, hj⟩ | ⟨first, second, he, hnamed, hj⟩ | ⟨he, hj⟩
  · rw [he, hj]
    exact tended_onJoin h
  · rw [he, hj]
    exact tended_onPart h
  · rw [he] at hi ⊢
    rw [hj]
    exact tended_onKick h hi
  · rw [he] at hi ⊢
    rw [hj]
    split
    · rename_i hsecond
      obtain ⟨-, hfirst, hset⟩ := hi ((ha.wanted _).mp hsecond)
      rw [hnamed] at hfirst
      rw [← hfirst]
      apply tended_onRetry h hset hfirst.symm
      rw [AutoJoiner.rejoining, Table.get, hfirst]
      exact hsecond
    · rename_i hsecond
      exact tended_wishes h (next_deferred_of_not_mem fun hc => hsecond ((ha.wanted _).mpr hc))
  · rw [he] at hu ⊢
    rw [hj]
    split
    · rename_i hsecond
      obtain ⟨-, hfirst, -⟩ := hu ((ha.wanted _).mp hsecond)
      rw [hnamed] at hfirst
      rw [← hfirst]
      exact tended_onRefusal h
    · rename_i hsecond
      rw [next_refused_of_not_mem fun hc => hsecond ((ha.wanted _).mpr hc)]
      exact h
  · rw [he, hj]
    exact h

theorem tended_unheard (h : Tended o (j, w)) (hi : Independent o (j, w) (.message msg))
    (hlisten : ¬ j.listening) :
    Tended o (j, w.next o.delay (joinerEvent j.session msg)) := by
  obtain ⟨⟨-, hu⟩, hi⟩ := hi
  rcases onMessage_cases o j msg with ⟨channel, he, -⟩ | ⟨channel, he, -⟩ | ⟨channel, he, -⟩ |
    ⟨first, second, he, -, -⟩ | ⟨first, second, he, -, -⟩ | ⟨he, -⟩
  · rw [he] at hu
    exact absurd hu hlisten
  · rw [he] at hu
    exact absurd hu hlisten
  · rw [he] at hu
    exact absurd hu.1 hlisten
  · rw [he] at hi ⊢
    exact tended_wishes h (next_deferred_of_not_mem fun hc => hlisten (hi hc).1)
  · rw [he] at hu ⊢
    rw [next_refused_of_not_mem fun hc => hlisten (hu hc).1]
    exact h
  · rw [he]
    exact h

/-- No delay is armed for a channel that `on_channels` has. -/
theorem want_lost (h : Tended o (j, w)) (ha : Agrees (j, w)) (hon : c ∈ j.onChannels) :
    (w.next o.delay .lost).want c = some none := by
  cases hr : j.rejoiningChannels.lookup c with
  | none =>
    have hnot : c ∉ w.wanted := by
      rw [← ha.wanted]
      simp [hr]
    have hheld : w.held c := (ha.held c hnot).mp hon
    simp [next, hheld, not_mem_wanted_iff.mp hnot]
  | some r =>
    obtain rfl := h.idle c hon r hr
    have hwant : w.want c = some none := h.delay c _ hr
    simp [next, hwant]

/-- Channels without a timer get entries without one. -/
theorem tended_bare {v : Wishes Bytes ℚ} {bare : Bytes → Prop} [DecidablePred bare]
    {rejoiningChannels : Table RejoinInfo} (h : Tended o (j, w))
    (hlookup : ∀ x, rejoiningChannels.lookup x =
      if bare x then some ⟨none, none⟩ else j.rejoiningChannels.lookup x)
    (hbare : ∀ x r, bare x → j.rejoiningChannels.lookup x = some r → r.timer = none)
    (hwant : ∀ x, bare x → v.want x = some none)
    (hdelay : ∀ x r, w.want x = some r → ¬ bare x → v.want x = some r) :
    Tended o ({ j with rejoiningChannels }, v) := by
  have hentry : ∀ x r, rejoiningChannels.lookup x = some r →
      bare x ∧ r = ⟨none, none⟩ ∨ ¬ bare x ∧ j.rejoiningChannels.lookup x = some r := by
    intro x r hr
    rw [hlookup] at hr
    split at hr
    · exact Or.inl ⟨‹_›, (Option.some.inj hr).symm⟩
    · exact Or.inr ⟨‹_›, hr⟩
  refine ⟨?_, ?_, ?_, ?_, ?_⟩
  · intro x r hr
    rcases hentry x r hr with ⟨hx, rfl⟩ | ⟨hx, hr⟩
    · exact hwant x hx
    · exact hdelay x _ (h.delay x r hr) hx
  · intro x hx r hr
    rcases hentry x r hr with ⟨-, rfl⟩ | ⟨-, hr⟩
    · rfl
    · exact h.idle x hx r hr
  · intro x r i hr hi
    rcases hentry x r hr with ⟨-, rfl⟩ | ⟨-, hr⟩
    · cases hi
    · exact h.timed x r i hr hi
  · intro i x hx
    obtain ⟨r, hr, hi⟩ := h.owned i x hx
    refine ⟨r, ?_, hi⟩
    rw [hlookup, if_neg]
    · exact hr
    · intro hc
      cases (hbare _ r hc hr).symm.trans hi
  · intro hunset x r hr
    rcases hentry x r hr with ⟨-, rfl⟩ | ⟨-, hr⟩
    · rfl
    · exact h.unset hunset x r hr

/-- The channels of `on_channels` get entries without a timer, as those wanted among them had. -/
theorem tended_onStatechanged {state : ClientState} (hstate : j.session.state = state)
    (h : Tended o (j, w)) (ha : Agrees (j, w)) : Tended o (j.onStatechanged state, w.next o.delay
      (if state = .disconnected ∨ state = .reconnecting then .lost else .other)) := by
  unfold onStatechanged
  by_cases hconn : state = .connected
  · rw [if_pos hconn, foldl_join (hstate.trans hconn), hconn]
    exact ⟨h.delay, h.idle, h.timed, h.owned, h.unset⟩
  rw [if_neg hconn]
  by_cases hlost : state = .disconnected ∨ state = .reconnecting
  · obtain ⟨rejoiningChannels, heq, hlookup⟩ := foldl_setRejoining j.onChannels.keys ha.folded
    rw [if_pos hlost, if_pos hlost, heq]
    have hbare : Tended o ({ j with rejoiningChannels }, w.next o.delay .lost) := by
      refine tended_bare h hlookup (fun c r hc hr => ?_) (fun c hc => ?_) fun c r hwant hc => ?_
      · rw [h.idle c (AList.mem_keys.mp hc) r hr]
      · exact want_lost h ha (AList.mem_keys.mp hc)
      · simp [next, hwant]
    exact ⟨hbare.delay, hbare.idle, hbare.timed, hbare.owned, hbare.unset⟩
  · rw [if_neg hlost, if_neg hlost]
    exact h

theorem tended_addchannel (h : Tended o (j, w))
    (hi : (w.want (j.session.mapping.lower channel)).join = none) :
    Tended o (j.addchannel channel,
      w.next o.delay (.add (j.session.mapping.lower channel))) := by
  have hbare : ∀ r, j.rejoiningChannels.lookup (j.session.mapping.lower channel) = some r →
      r.timer = none := by
    intro r hr
    have hwant : w.want (j.session.mapping.lower channel) = some r.interval := h.delay _ r hr
    cases ht : r.timer with
    | none => rfl
    | some i =>
      have hsome := (h.timed _ r i hr ht).1
      rw [hwant] at hi
      simp only [Option.join_some] at hi
      simp [hi] at hsome
  have hadded : Tended o (j.setRejoining channel ⟨none, none⟩,
      w.next o.delay (.add (j.session.mapping.lower channel))) := by
    have hlookup : ∀ x, (j.setRejoining channel ⟨none, none⟩).rejoiningChannels.lookup x =
        if x = j.session.mapping.lower channel then some ⟨none, none⟩
        else j.rejoiningChannels.lookup x := fun _ => Table.lookup_set
    refine tended_bare h hlookup (fun c r hc hr => hbare r (hc ▸ hr)) (fun c hc => ?_)
      fun c r hwant hc => ?_
    · simp [next, hc, hi]
    · simpa [next, hc] using hwant
  obtain ⟨sent, hsent⟩ := join_eq (j.setRejoining channel ⟨none, none⟩) channel
  rw [addchannel, hsent]
  exact ⟨hadded.delay, hadded.idle, hadded.timed, hadded.owned, hadded.unset⟩

theorem tended_fire (h : Tended o (j, w)) : Tended o ({ j with timers := j.timers.expire i }, w) := by
  have hlive : ∀ k x, (j.timers.expire i).live k = some x → j.timers.live k = some x := by
    intro k x hx
    rw [Timers.live_expire] at hx
    split at hx
    · cases hx
    · exact hx
  refine ⟨h.delay, h.idle, ?_, ?_, h.unset⟩
  · intro c r k hr hk
    obtain ⟨hsome, hlt, hcall⟩ := h.timed c r k hr hk
    refine ⟨hsome, by simpa using hlt, ?_⟩
    intro x hx
    exact hcall x (hlive k x hx)
  · intro k x hx
    exact h.owned k x (hlive k x hx)

theorem tended_hear (h : Tended o (j, w)) (ha : Agrees (j, w))
    (hi : Independent o (j, w) (.message msg)) :
    Tended o (j.hear o msg, w.next o.delay (joinerEvent j.session msg)) := by
  have hheard : Tended o (if j.listening then j.onMessage o msg else j,
      w.next o.delay (joinerEvent j.session msg)) := by
    by_cases hlisten : j.listening
    · rw [if_pos hlisten]
      exact tended_onMessage h ha hi
    · rw [if_neg hlisten]
      exact tended_unheard h hi hlisten
  exact tended_session hheard (by rw [heard_session]; exact hi.1.1)

theorem tended_step {q q' : AutoJoiner × Wishes Bytes ℚ} {input : JoinerInput} (h : Tended o q)
    (ha : Agrees q) (hi : Independent o q input) (hstep : joinerStep o q input = some q') :
    Tended o q' := by
  obtain ⟨j, w⟩ := q
  obtain ⟨t, v⟩ := q'
  obtain ⟨ht, hv⟩ := joinerStep_some hstep
  simp only at ht hv
  subst hv
  cases input with
  | message msg =>
    have hheard := tended_hear h ha hi
    rcases step_message ht with ⟨-, rfl⟩ | ⟨hconn, rfl⟩
    · exact hheard
    · exact tended_onStatechanged (o := o) hconn hheard (agrees_hear ha hi.1)
  | state state =>
    obtain rfl := Option.some.inj ht
    exact tended_onStatechanged rfl ⟨h.delay, h.idle, h.timed, h.owned, h.unset⟩
      ⟨ha.wanted, ha.held, ha.folded⟩
  | setNick nick =>
    obtain rfl := Option.some.inj ht
    exact tended_session h rfl
  | addchannel chan =>
    obtain rfl := Option.some.inj ht
    exact tended_addchannel h hi
  | wait seconds =>
    simp only [AutoJoiner.step] at ht
    split at ht
    · obtain rfl := Option.some.inj ht
      exact ⟨h.delay, h.idle, h.timed, h.owned, h.unset⟩
    · cases ht
  | fire i =>
    obtain ⟨channel, -, rfl⟩ := Option.map_eq_some_iff.mp ht
    obtain ⟨sent, hsent⟩ := timerCb_eq j channel
    have hfired := tended_fire (i := i) h
    rw [hsent]
    exact ⟨hfired.delay, hfired.idle, hfired.timed, hfired.owned, hfired.unset⟩

/-- What a refusal of `c` that may be retried is to do, when `last` was the delay last armed. -/
structure Retried (o : RejoinOptions) (j t : AutoJoiner) (c : Bytes) (last : Option ℚ) : Prop where
  /-- One timer is armed. It joins `c` after the delay that follows `last`. -/
  armed : ∃ name delay, j.session.mapping.lower name = c ∧ o.delay last = some delay ∧
    t.timers.live j.timers.length = some ⟨j.now + delay, true, true, name⟩
  single : ∀ i x, t.timers.live i = some x → i = j.timers.length ∨ j.timers.live i = some x
  /-- Only timers of `c` are cancelled. -/
  kept : ∀ i x, j.timers.live i = some x → j.session.mapping.lower x.callback ≠ c →
    t.timers.live i = some x
  untouched : ∀ x, x ≠ c → t.rejoiningChannels.lookup x = j.rejoiningChannels.lookup x
  /-- `c` has no other live timer. -/
  alone : ∀ i x, t.timers.live i = some x → j.session.mapping.lower x.callback = c →
    i = j.timers.length

theorem retried_rearm {delay : ℚ} (h : Tended o (j, w)) (hdelay : o.delay last = some delay)
    (hname : j.session.mapping.lower name = j.session.mapping.lower channel)
    (htimers : t.timers = (rearm j channel name delay).timers)
    (hchannels : t.rejoiningChannels = (rearm j channel name delay).rejoiningChannels) :
    Retried o j t (j.session.mapping.lower channel) last := by
  have hlive : ∀ i, t.timers.live i = if i = j.timers.length then
      some ⟨j.now + delay, true, true, name⟩
      else if (j.rejoining channel).bind RejoinInfo.timer = some i then none
      else j.timers.live i := by
    intro i
    rw [htimers]
    exact live_rearm
  refine ⟨⟨name, delay, hname, hdelay, ?_⟩, ?_, ?_, ?_, ?_⟩
  · rw [hlive, if_pos rfl]
  · intro i x hx
    rw [hlive] at hx
    split at hx
    · exact Or.inl ‹_›
    · split at hx
      · cases hx
      · exact Or.inr hx
  · intro i x hx hne
    have hlt : i < j.timers.length := Timers.lt_length_of_live hx
    rw [hlive, if_neg hlt.ne, if_neg]
    · exact hx
    · intro hi
      obtain ⟨r, hr, hi⟩ := Option.bind_eq_some_iff.mp hi
      exact hne ((h.timed _ r i hr hi).2.2 x hx)
  · intro x hne
    rw [hchannels, lookup_rearm, if_neg hne]
  · intro i x hx hc
    rw [hlive] at hx
    split at hx
    · assumption
    · split at hx
      · cases hx
      · rename_i hne
        obtain ⟨r, hr, hi⟩ := h.owned i x hx
        simp only at hr
        rw [hc] at hr
        exact absurd (Option.bind_eq_some_iff.mpr ⟨r, hr, hi⟩) hne

/-- The timers and entries after a message are those its handler leaves. -/
theorem step_message_tables (h : j.step o (.message msg) = some t) :
    t.timers = (if j.listening then j.onMessage o msg else j).timers ∧
    t.rejoiningChannels = (if j.listening then j.onMessage o msg else j).rejoiningChannels := by
  rcases step_message h with ⟨-, rfl⟩ | ⟨hconn, rfl⟩
  · exact ⟨rfl, rfl⟩
  · have hstate : (j.hear o msg).session.state = .connected := hconn
    rw [onStatechanged, if_pos rfl, foldl_join hstate]
    exact ⟨rfl, rfl⟩

/-- The message is the reply of a wanted channel. -/
theorem onMessage_deferred (he : joinerEvent j.session msg = .deferred c)
    (hentry : (j.rejoiningChannels.lookup c).isSome) : ∃ first second,
      j.named msg = j.session.mapping.lower first ∧ j.session.mapping.lower second = c ∧
        j.onMessage o msg = j.onRetry o first second := by
  rcases onMessage_cases o j msg with ⟨channel, he', -⟩ | ⟨channel, he', -⟩ | ⟨channel, he', -⟩ |
    ⟨first, second, he', hnamed, hj⟩ | ⟨first, second, he', -, -⟩ | ⟨he', -⟩ <;> rw [he] at he'
  case inr.inr.inr.inl =>
    obtain rfl := Event.deferred.inj he'
    exact ⟨first, second, hnamed, rfl, hj.trans (if_pos hentry)⟩
  all_goals cases he'

theorem retried_iff (h : Tended o (j, w)) (ha : Agrees (j, w))
    (he : joinerEvent j.session msg = .deferred c) (hlast : w.want c = some last)
    (hstep : j.step o (.message msg) = some t) : Retried o j t c last ↔
      j.listening ∧ j.named msg = c ∧ o.initialRejoinInterval.isSome := by
  obtain ⟨htimers, hchannels⟩ := step_message_tables hstep
  have hentry : (j.rejoiningChannels.lookup c).isSome := by
    rw [ha.wanted, mem_wanted_iff]
    exact ⟨last, hlast⟩
  obtain ⟨first, second, hnamed, rfl, hj⟩ := onMessage_deferred (o := o) he hentry
  have hnone : ¬ ∃ x, j.timers.live j.timers.length = some x := by
    rintro ⟨x, hx⟩
    exact absurd (Timers.lt_length_of_live hx) (Nat.lt_irrefl _)
  constructor
  · rintro ⟨⟨name, delay, -, -, harmed⟩, -, -, huntouched, -⟩
    have hlisten : j.listening := by
      by_contra hoff
      rw [if_neg hoff] at htimers
      rw [htimers] at harmed
      exact hnone ⟨_, harmed⟩
    rw [if_pos hlisten, hj] at htimers hchannels
    cases hnext : nextInterval o ((j.rejoining first).bind RejoinInfo.interval) with
    | none =>
      -- Nothing is armed without an interval.
      simp only [onRetry, hnext, arm] at htimers
      rw [htimers, live_cancelTimer] at harmed
      split at harmed
      · cases harmed
      · exact absurd ⟨_, harmed⟩ hnone
    | some d =>
      have hset : o.initialRejoinInterval.isSome := by
        by_contra hunset
        have hunset := Option.not_isSome_iff_eq_none.mp hunset
        cases hr : j.rejoining first with
        | none => simp [hr, nextInterval, hunset] at hnext
        | some r => simp [hr, h.unset hunset _ r hr, nextInterval, hunset] at hnext
      refine ⟨hlisten, ?_, hset⟩
      by_contra hne
      have hsame := huntouched (j.session.mapping.lower first) (hnamed ▸ hne)
      rw [hchannels, onRetry, hnext] at hsame
      have hstored : (rearm j first second d).rejoiningChannels.lookup
          (j.session.mapping.lower first) = _ := lookup_rearm
      rw [if_pos rfl] at hstored
      have hold := hsame.symm.trans hstored
      exact absurd (h.timed _ _ _ hold rfl).2.1 (Nat.lt_irrefl _)
  · rintro ⟨hlisten, hfirst, hset⟩
    rw [if_pos hlisten, hj] at htimers hchannels
    rw [hnamed] at hfirst
    rw [← hfirst] at hlast hentry ⊢
    obtain ⟨delay, hdelay, heq⟩ := onRetry_eq second h hset hlast hentry
    rw [heq] at htimers hchannels
    exact retried_rearm h hdelay hfirst.symm htimers hchannels

theorem tended_start (s : Session) (autojoin : List Bytes) :
    Tended o (joinerStart s autojoin) := by
  have hentry : ∀ c r, (joinerStart s autojoin).1.rejoiningChannels.lookup c = some r →
      c ∈ autojoin.map s.mapping.lower ∧ r = ⟨none, none⟩ := by
    intro c r hr
    rw [joinerStart, new, lookup_autojoin] at hr
    split at hr
    · exact ⟨‹_›, (Option.some.inj hr).symm⟩
    · cases hr
  refine ⟨?_, ?_, ?_, ?_, ?_⟩
  · intro c r hr
    obtain ⟨hc, rfl⟩ := hentry c r hr
    exact if_pos hc
  · intro c hc
    cases AList.notMem_empty c hc
  · intro c r i hr hi
    obtain ⟨-, rfl⟩ := hentry c r hr
    cases hi
  · intro i x hx
    cases hx
  · intro _ c r hr
    obtain ⟨-, rfl⟩ := hentry c r hr
    rfl

/-- In a run that meets the condition, a refusal that may be retried is retried, each channel for
itself, exactly when its message meets the condition; no channel has two live timers; and a timer
that runs out joins its channel if it is still wanted. -/
theorem retries_independent (o : RejoinOptions) (s : Session) (autojoin : List Bytes)
    (inputs : List JoinerInput) (q : AutoJoiner × Wishes Bytes ℚ)
    (hind : Along (joinerStep o) (Independent o) (joinerStart s autojoin) inputs)
    (hrun : run (joinerStep o) (joinerStart s autojoin) inputs = some q) :
    (∀ msg c last t, joinerEvent q.1.session msg = .deferred c → q.2.want c = some last →
      q.1.step o (.message msg) = some t →
      (Retried o q.1 t c last ↔
        q.1.listening ∧ q.1.named msg = c ∧ o.initialRejoinInterval.isSome)) ∧
    (∀ i k x y, q.1.timers.live i = some x → q.1.timers.live k = some y →
      q.1.session.mapping.lower x.callback = q.1.session.mapping.lower y.callback → i = k) ∧
    (∀ i name, q.1.timers.due q.1.now i = some name →
      q.1.session.mapping.lower name ∈ q.2.wanted →
      q.1.session.state = .connected ∨ q.1.session.state = .registering →
      ∃ t, q.1.step o (.fire i) = some t ∧ t.sent = q.1.sent ++ [(lit "JOIN", [name])]) := by
  obtain ⟨ha, h⟩ : Agrees q ∧ Tended o q := by
    apply run_keeps_along (D := Independent o) ?_ ⟨agrees_start s autojoin, tended_start s autojoin⟩
      hind hrun
    rintro q i q' ⟨ha, h⟩ hi hstep
    refine ⟨agrees_step ha ?_ hstep, tended_step h ha hi hstep⟩
    cases i with
    | message msg => exact hi.1
    | _ => trivial
  refine ⟨?_, ?_, ?_⟩
  · intro msg c last t he hlast hstep
    exact retried_iff h ha he hlast hstep
  · intro i k x y hx hy hsame
    obtain ⟨r, hr, hi⟩ := h.owned i x hx
    obtain ⟨r', hr', hk⟩ := h.owned k y hy
    rw [hsame, hr'] at hr
    obtain rfl := Option.some.inj hr
    exact Option.some.inj (hi.symm.trans hk)
  · intro i name hdue hwanted hstate
    have hentry : (q.1.rejoining name).isSome := (ha.wanted _).mpr hwanted
    refine ⟨_, by simp only [AutoJoiner.step, hdue, Option.map_some]; rfl, ?_⟩
    simp [timerCb, hentry, join, hstate]

/-- Refusals of `#a` and then of `#b`, each of which names its channel twice: `#b` starts from 3
seconds, and the timer of `#a` stays. -/
theorem retries_independent_twice : ∃ (q : AutoJoiner × Wishes Bytes ℚ) (t : AutoJoiner),
    q.2.want (lit "#a") = some (some 3) ∧ q.2.want (lit "#b") = some none ∧
      Retried .default q.1 t (lit "#b") none ∧
      (q.1.timers.live 0).map Timer.callback = some (lit "#a") ∧
      t.timers.live 0 = q.1.timers.live 0 := by
  let s : Session := ⟨.registering, "bot", .rfc1459, .default⟩
  let refusal (name : Bytes) := heard "irc" "471" [name, name, "Cannot join channel"]
  refine ⟨_, _, ?_, ?_, ((retries_independent .default s ["#a", "#b"]
    [.state .connected, .message (refusal "#a")] _ ?_ rfl).1 (refusal "#b") (lit "#b") none _
    ?_ ?_ rfl).mpr ?_, ?_, ?_⟩
  · decide +kernel
  · decide +kernel
  · refine along_cons trivial rfl (along_cons ⟨⟨by decide +kernel, ?_⟩, ?_⟩ rfl trivial)
    · exact fun _ _ => by decide +kernel
    · exact fun _ => by decide +kernel
  · decide +kernel
  · decide +kernel
  · decide +kernel
  · decide +kernel
  · decide +kernel

/-- 471 replies for two channels, as a server sends them: both use the entry of the bot's nick, so
that the second cancels the timer of the first channel. -/
theorem second_refusal_cancels_first : ∃ q t, run (joinerStep .default)
      (joinerStart ⟨.registering, "bot", .rfc1459, .default⟩ ["#a", "#b"])
      [.state .connected, .message (heard "irc" "471" ["bot", "#a", "Cannot join channel"])] =
        some q ∧
    joinerEvent q.1.session (heard "irc" "471" ["bot", "#b", "Cannot join channel"]) =
      .deferred (lit "#b") ∧
    q.2.want (lit "#b") = some none ∧
    q.1.step .default (.message (heard "irc" "471" ["bot", "#b", "Cannot join channel"])) =
      some t ∧
    ¬ Retried .default q.1 t (lit "#b") none := by
  refine ⟨_, _, rfl, by decide +kernel, by decide +kernel, rfl, ?_⟩
  intro h
  have hkept := h.kept 0 ⟨3, true, true, lit "#a"⟩ (by decide +kernel) (by decide +kernel)
  revert hkept
  decide +kernel

end TuxBot.Irc
