import TuxBot.Irc.AutoJoiner
import TuxBot.Irc.Retry

/-! Which channels the AutoJoiner joins on entering `connected`. -/
namespace TuxBot.Irc

open TuxBot.Lua TuxBot.Machine TuxBot.Retry

variable {o : RejoinOptions} {j t : AutoJoiner} {w : Wishes Bytes ℚ} {msg : Message}
  {channel name c x : Bytes} {interval : Option ℚ}

/-- What a message means to the wanted channels: a command names the channel first, a numeric reply
second. -/
def joinerEvent (s : Session) (msg : Message) : Event Bytes :=
  match msg.args with
  | channel :: args =>
    if msg.cmd = lit "JOIN" ∧ s.own msg.sender then .gained (s.mapping.lower channel)
    else if msg.cmd = lit "PART" ∧ s.own msg.sender then .left (s.mapping.lower channel)
    else
      match args with
      | second :: _ =>
        if msg.cmd = lit "KICK" ∧ s.mapping.nameeq second s.nick then
          .expelled (s.mapping.lower channel)
        else if msg.cmd ∈ retryReplies then .deferred (s.mapping.lower second)
        else if msg.cmd ∈ refusalReplies then .refused (s.mapping.lower second)
        else .other
      | [] => .other
  | [] => .other

def inputEvent (s : Session) : JoinerInput → Event Bytes
  | .message msg => joinerEvent s msg
  | .state state => if state = .disconnected ∨ state = .reconnecting then .lost else .other
  | .addchannel chan => .add (s.mapping.lower chan)
  | _ => .other

/-- The delay after the one last armed. -/
def RejoinOptions.delay (o : RejoinOptions) : Option ℚ → Option ℚ
  | some last => some (min o.maxRejoinInterval (o.rejoinIntervalScale * last))
  | none => o.initialRejoinInterval

/-- The AutoJoiner beside the channels wanted and held so far. -/
def joinerStep (o : RejoinOptions) (q : AutoJoiner × Wishes Bytes ℚ) (i : JoinerInput) :
    Option (AutoJoiner × Wishes Bytes ℚ) :=
  (q.1.step o i).map fun j => (j, q.2.next o.delay (inputEvent q.1.session i))

def joinerStart (s : Session) (autojoin : List Bytes) : AutoJoiner × Wishes Bytes ℚ :=
  (.new s autojoin, .start (autojoin.map s.mapping.lower))

namespace AutoJoiner

/-- The channel that `_on_message` looks up: always the first argument. -/
def named (j : AutoJoiner) (msg : Message) : Bytes := j.session.mapping.lower (msg.args.headD [])

/-- What a message can do, by what it means. -/
theorem onMessage_cases (o : RejoinOptions) (j : AutoJoiner) (msg : Message) :
    (∃ channel, joinerEvent j.session msg = .gained (j.session.mapping.lower channel) ∧
      j.onMessage o msg = j.onJoin channel) ∨
    (∃ channel, joinerEvent j.session msg = .left (j.session.mapping.lower channel) ∧
      j.onMessage o msg = j.onPart channel) ∨
    (∃ channel, joinerEvent j.session msg = .expelled (j.session.mapping.lower channel) ∧
      j.onMessage o msg = j.onKick o channel) ∨
    (∃ first second, joinerEvent j.session msg = .deferred (j.session.mapping.lower second) ∧
      j.named msg = j.session.mapping.lower first ∧ j.onMessage o msg =
        if (j.rejoining second).isSome then j.onRetry o first second else j) ∨
    (∃ first second, joinerEvent j.session msg = .refused (j.session.mapping.lower second) ∧
      j.named msg = j.session.mapping.lower first ∧ j.onMessage o msg =
        if (j.rejoining second).isSome then j.onRefusal first else j) ∨
    (joinerEvent j.session msg = .other ∧ j.onMessage o msg = j) := by
  unfold joinerEvent onMessage named
  cases hargs : msg.args with
  | nil =>
    refine Or.inr (Or.inr (Or.inr (Or.inr (Or.inr ⟨rfl, ?_⟩))))
    split
    · rfl
    · split <;> rfl
  | cons channel args =>
    by_cases hjoin : msg.cmd = lit "JOIN" ∧ j.session.own msg.sender
    · refine Or.inl ⟨channel, ?_⟩
      simp only [if_pos hjoin, and_self]
    by_cases hpart : msg.cmd = lit "PART" ∧ j.session.own msg.sender
    · refine Or.inr (Or.inl ⟨channel, ?_⟩)
      simp only [if_neg hjoin, if_pos hpart, and_self]
    simp only [if_neg hjoin, if_neg hpart]
    cases args with
    | nil => exact Or.inr (Or.inr (Or.inr (Or.inr (Or.inr ⟨rfl, rfl⟩))))
    | cons second rest =>
      by_cases hkick : msg.cmd = lit "KICK" ∧ j.session.mapping.nameeq second j.session.nick
      · refine Or.inr (Or.inr (Or.inl ⟨channel, ?_⟩))
        simp only [if_pos hkick, and_self]
      simp only [if_neg hkick]
      by_cases hretry : msg.cmd ∈ retryReplies
      · have hno : msg.cmd ∉ refusalReplies := (by decide : ∀ cmd ∈ retryReplies,
          cmd ∉ refusalReplies) msg.cmd hretry
        refine Or.inr (Or.inr (Or.inr (Or.inl ⟨channel, second, if_pos hretry, rfl, ?_⟩)))
        simp [hretry, hno]
      by_cases hrefusal : msg.cmd ∈ refusalReplies
      · refine Or.inr (Or.inr (Or.inr (Or.inr (Or.inl ⟨channel, second, ?_, rfl, ?_⟩))))
        · rw [if_neg hretry, if_pos hrefusal]
        · simp [hretry, hrefusal]
      · refine Or.inr (Or.inr (Or.inr (Or.inr (Or.inr ⟨?_, ?_⟩))))
        · rw [if_neg hretry, if_neg hrefusal]
        · simp [hretry, hrefusal]

/-! The handlers, table by table. -/

@[simp] theorem cancelTimer_session : (j.cancelTimer channel).session = j.session := by
  unfold cancelTimer
  split <;> rfl

@[simp] theorem cancelTimer_rejoiningChannels :
    (j.cancelTimer channel).rejoiningChannels = j.rejoiningChannels := by
  unfold cancelTimer
  split <;> rfl

@[simp] theorem cancelTimer_onChannels : (j.cancelTimer channel).onChannels = j.onChannels := by
  unfold cancelTimer
  split <;> rfl

@[simp] theorem arm_session : (j.arm channel name interval).session = j.session := by
  cases interval <;> rfl

@[simp] theorem arm_onChannels : (j.arm channel name interval).onChannels = j.onChannels := by
  cases interval <;> rfl

theorem lookup_arm : (j.arm channel name interval).rejoiningChannels.lookup x =
    if x = j.session.mapping.lower channel ∧ interval.isSome then
      some ⟨interval, some j.timers.length⟩
    else j.rejoiningChannels.lookup x := by
  cases interval with
  | none => simp [arm]
  | some delay => simp [arm, setRejoining, Table.lookup_set]

@[simp] theorem removeOn_session : (j.removeOn channel).session = j.session := rfl

@[simp] theorem removeOn_rejoiningChannels :
    (j.removeOn channel).rejoiningChannels = j.rejoiningChannels := rfl

@[simp] theorem mem_removeOn : x ∈ (j.removeOn channel).onChannels ↔
    x ≠ j.session.mapping.lower channel ∧ x ∈ j.onChannels := AList.mem_erase

@[simp] theorem setOn_session : (j.setOn channel).session = j.session := rfl

@[simp] theorem setOn_rejoiningChannels :
    (j.setOn channel).rejoiningChannels = j.rejoiningChannels := rfl

@[simp] theorem mem_setOn : x ∈ (j.setOn channel).onChannels ↔
    x = j.session.mapping.lower channel ∨ x ∈ j.onChannels := AList.mem_insert _

/-- There is nothing to cancel or to remove where there is no entry. -/
theorem onJoin_eq : j.onJoin channel =
    ((j.setOn channel).cancelTimer channel).removeRejoining channel := by
  unfold onJoin
  split
  · rfl
  · rename_i hnone
    have hget : (j.setOn channel).rejoining channel = none := Option.not_isSome_iff_eq_none.mp hnone
    have herase : j.rejoiningChannels.erase (j.session.mapping.lower channel) =
        j.rejoiningChannels := by
      apply AList.ext
      exact List.kerase_of_notMem_keys (AList.lookup_eq_none.mp hget)
    simp [cancelTimer, hget, removeRejoining, Table.remove, herase]
    rfl

theorem lookup_onJoin : (j.onJoin channel).rejoiningChannels.lookup x =
    if x = j.session.mapping.lower channel then none else j.rejoiningChannels.lookup x := by
  simp [onJoin_eq, removeRejoining, Table.lookup_remove]

theorem mem_onJoin : x ∈ (j.onJoin channel).onChannels ↔
    x = j.session.mapping.lower channel ∨ x ∈ j.onChannels := by
  simp [onJoin_eq, removeRejoining]

theorem lookup_onPart : (j.onPart channel).rejoiningChannels.lookup x =
    if x = j.session.mapping.lower channel then none else j.rejoiningChannels.lookup x := by
  simp [onPart, removeRejoining, Table.lookup_remove]

theorem mem_onPart : x ∈ (j.onPart channel).onChannels ↔
    x ≠ j.session.mapping.lower channel ∧ x ∈ j.onChannels := by
  simp [onPart, removeRejoining]

theorem lookup_onRefusal : (j.onRefusal channel).rejoiningChannels.lookup x =
    if x = j.session.mapping.lower channel then none else j.rejoiningChannels.lookup x := by
  simp [onRefusal, removeRejoining, Table.lookup_remove]

@[simp] theorem onJoin_session : (j.onJoin channel).session = j.session := by
  simp [onJoin_eq, removeRejoining]

@[simp] theorem onPart_session : (j.onPart channel).session = j.session := by
  simp [onPart, removeRejoining]

@[simp] theorem onRefusal_session : (j.onRefusal channel).session = j.session := by
  simp [onRefusal, removeRejoining]

@[simp] theorem onRefusal_onChannels : (j.onRefusal channel).onChannels = j.onChannels := by
  simp [onRefusal, removeRejoining]

/-- Sending a JOIN adds to what was sent and changes nothing else. -/
theorem join_eq (j : AutoJoiner) (channel : Bytes) : ∃ sent, j.join channel = { j with sent } := by
  unfold join
  split
  · exact ⟨_, rfl⟩
  · exact ⟨j.sent, rfl⟩

theorem timerCb_eq (j : AutoJoiner) (channel : Bytes) :
    ∃ sent, j.timerCb channel = { j with sent } := by
  unfold timerCb
  split
  · exact join_eq j channel
  · exact ⟨j.sent, rfl⟩

/-- The JOINs sent on entering `connected`: one for each key. -/
theorem foldl_join (hstate : j.session.state = .connected) (cs : List Bytes) :
    cs.foldl join j = { j with sent := j.sent ++ cs.map fun c => (lit "JOIN", [c]) } := by
  induction cs generalizing j with
  | nil => simp
  | cons c cs ih =>
    have hjoin : j.join c = { j with sent := j.sent ++ [(lit "JOIN", [c])] } := by
      simp [join, hstate]
    rw [List.foldl_cons, hjoin, ih (by exact hstate)]
    simp

/-- The entries made on losing the connection. -/
theorem foldl_setRejoining (cs : List Bytes)
    (hfold : ∀ c ∈ cs, j.session.mapping.lower c = c) :
    ∃ rejoiningChannels : Table RejoinInfo,
      cs.foldl (fun j k => j.setRejoining k ⟨none, none⟩) j = { j with rejoiningChannels } ∧
      ∀ x, rejoiningChannels.lookup x =
        if x ∈ cs then some ⟨none, none⟩ else j.rejoiningChannels.lookup x := by
  induction cs generalizing j with
  | nil => exact ⟨j.rejoiningChannels, rfl, by simp⟩
  | cons c cs ih =>
    obtain ⟨rejoiningChannels, heq, hlookup⟩ :=
      ih (j := j.setRejoining c ⟨none, none⟩) fun d hd => hfold d (List.mem_cons_of_mem c hd)
    refine ⟨rejoiningChannels, heq, ?_⟩
    intro x
    have hc := hfold c List.mem_cons_self
    rw [hlookup, setRejoining, Table.lookup_set, hc]
    by_cases hx : x ∈ cs <;> simp [hx]

@[simp] theorem onMessage_session : (j.onMessage o msg).session = j.session := by
  rcases onMessage_cases o j msg with ⟨channel, -, hj⟩ | ⟨channel, -, hj⟩ | ⟨channel, -, hj⟩ |
    ⟨first, second, -, -, hj⟩ | ⟨first, second, -, -, hj⟩ | ⟨-, hj⟩
  · simp [hj]
  · simp [hj]
  · simp [hj, onKick]
  · rw [hj]
    split <;> simp [onRetry]
  · rw [hj]
    split <;> simp
  · rw [hj]

theorem heard_session : (if j.listening then j.onMessage o msg else j).session = j.session := by
  split
  · exact onMessage_session
  · rfl

end AutoJoiner

/-- The table of channels to rejoin holds the wanted channels, and the other channels that
`on_channels` has are those held. -/
structure Agrees (q : AutoJoiner × Wishes Bytes ℚ) : Prop where
  wanted : ∀ c, (q.1.rejoiningChannels.lookup c).isSome ↔ c ∈ q.2.wanted
  held : ∀ c, c ∉ q.2.wanted → (c ∈ q.1.onChannels ↔ q.2.held c)
  folded : ∀ c ∈ q.1.onChannels, q.1.session.mapping.lower c = c

/-- The condition on a message: it keeps the case mapping; it comes before 001 only if it says nothing
of a channel; a reply about a wanted channel names that channel, or for 471, 474 and 437 a wanted
one, in its first argument; and a channel that is refused for good is in `on_channels` only if it is
held. -/
def Understood (o : RejoinOptions) (q : AutoJoiner × Wishes Bytes ℚ) (msg : Message) : Prop :=
  (q.1.session.receive msg).mapping = q.1.session.mapping ∧
  match joinerEvent q.1.session msg with
  | .gained _ | .left _ => q.1.listening
  | .expelled c => q.1.listening ∧ (o.initialRejoinInterval.isSome ∨ c ∈ q.2.wanted)
  | .deferred c => c ∈ q.2.wanted → q.1.listening → q.1.named msg ∈ q.2.wanted
  | .refused c => c ∈ q.2.wanted →
    q.1.listening ∧ q.1.named msg = c ∧ (c ∈ q.1.onChannels ↔ q.2.held c)
  | _ => True

open AutoJoiner Wishes

/-! The handlers keep the tables in agreement. -/

theorem agrees_onJoin (h : Agrees (j, w)) :
    Agrees (j.onJoin channel, w.next o.delay (.gained (j.session.mapping.lower channel))) := by
  refine ⟨?_, ?_, ?_⟩ <;> intro c
  · rw [lookup_onJoin, mem_wanted_gained, ← h.wanted]
    by_cases hc : c = j.session.mapping.lower channel <;> simp [hc]
  · rw [mem_wanted_gained, mem_onJoin]
    intro hc
    by_cases hch : c = j.session.mapping.lower channel
    · simp [hch, next]
    · simpa [hch, next] using h.held c (by tauto)
  · rw [mem_onJoin, onJoin_session]
    rintro (rfl | hc)
    · simp
    · exact h.folded c hc

theorem agrees_onPart (h : Agrees (j, w)) :
    Agrees (j.onPart channel, w.next o.delay (.left (j.session.mapping.lower channel))) := by
  refine ⟨?_, ?_, ?_⟩ <;> intro c
  · rw [lookup_onPart, mem_wanted_left, ← h.wanted]
    by_cases hc : c = j.session.mapping.lower channel <;> simp [hc]
  · rw [mem_wanted_left, mem_onPart]
    intro hc
    by_cases hch : c = j.session.mapping.lower channel
    · simp [hch, next]
    · simpa [hch, next] using h.held c (by tauto)
  · rw [mem_onPart, onPart_session]
    rintro ⟨-, hc⟩
    exact h.folded c hc

/-- Without an interval a KICK stores no entry, so there must be one. -/
theorem agrees_onKick (h : Agrees (j, w))
    (hset : o.initialRejoinInterval.isSome ∨ j.session.mapping.lower channel ∈ w.wanted) :
    Agrees (j.onKick o channel,
      w.next o.delay (.expelled (j.session.mapping.lower channel))) := by
  refine ⟨?_, ?_, ?_⟩ <;> intro c
  · simp only [onKick, lookup_arm, mem_wanted_expelled, cancelTimer_session, removeOn_session,
      cancelTimer_rejoiningChannels, removeOn_rejoiningChannels]
    have hwanted := h.wanted c
    by_cases hc : c = j.session.mapping.lower channel
    · subst hc
      by_cases hi : o.initialRejoinInterval.isSome
      · simp [hi]
      · simpa [hi] using hwanted.mpr (hset.resolve_left hi)
    · simpa [hc] using hwanted
  · simp only [mem_wanted_expelled, onKick, arm_onChannels, cancelTimer_onChannels, mem_removeOn]
    intro hc
    have hch : c ≠ j.session.mapping.lower channel := fun hch => hc (Or.inl hch)
    simpa [hch, next] using h.held c fun hw => hc (Or.inr hw)
  · simp only [onKick, arm_onChannels, cancelTimer_onChannels, mem_removeOn, arm_session,
      cancelTimer_session, removeOn_session]
    rintro ⟨-, hc⟩
    exact h.folded c hc

theorem agrees_onRetry (h : Agrees (j, w)) (hfirst : j.session.mapping.lower channel ∈ w.wanted) :
    Agrees (j.onRetry o channel name, w.next o.delay (.deferred c)) := by
  refine ⟨?_, ?_, ?_⟩ <;> intro d
  · simp only [onRetry, lookup_arm, mem_wanted_deferred, cancelTimer_session, removeOn_session,
      cancelTimer_rejoiningChannels, removeOn_rejoiningChannels]
    split
    · rename_i hd
      simpa [hd.1] using hfirst
    · exact h.wanted d
  · simp only [mem_wanted_deferred, onRetry, arm_onChannels, cancelTimer_onChannels, mem_removeOn]
    intro hd
    have hch : d ≠ j.session.mapping.lower channel := fun hch => hd (hch ▸ hfirst)
    simpa [hch, next] using h.held d hd
  · simp only [onRetry, arm_onChannels, cancelTimer_onChannels, mem_removeOn, arm_session,
      cancelTimer_session, removeOn_session]
    rintro ⟨-, hd⟩
    exact h.folded d hd

theorem agrees_onRefusal (h : Agrees (j, w))
    (hon : j.session.mapping.lower channel ∈ j.onChannels ↔
      w.held (j.session.mapping.lower channel)) :
    Agrees (j.onRefusal channel,
      w.next o.delay (.refused (j.session.mapping.lower channel))) := by
  refine ⟨?_, ?_, ?_⟩ <;> intro c
  · rw [lookup_onRefusal, mem_wanted_refused, ← h.wanted]
    by_cases hc : c = j.session.mapping.lower channel <;> simp [hc]
  · rw [mem_wanted_refused, onRefusal_onChannels]
    intro hc
    by_cases hch : c = j.session.mapping.lower channel
    · rw [hch]
      exact hon
    · exact h.held c (by tauto)
  · rw [onRefusal_onChannels, onRefusal_session]
    exact h.folded c

theorem agrees_deferred (h : Agrees (j, w)) : Agrees (j, w.next o.delay (.deferred c)) :=
  ⟨fun d => by rw [mem_wanted_deferred]; exact h.wanted d,
    fun d hd => h.held d (by rwa [mem_wanted_deferred] at hd), h.folded⟩

theorem agrees_onMessage (h : Agrees (j, w)) (hu : Understood o (j, w) msg)
    (hlisten : j.listening) :
    Agrees (j.onMessage o msg, w.next o.delay (joinerEvent j.session msg)) := by
  obtain ⟨-, hu⟩ := hu
  rcases onMessage_cases o j msg with ⟨channel, he, hj⟩ | ⟨channel, he, hj⟩ | ⟨channel, he, hj⟩ |
    ⟨first, second, he, hnamed, hj⟩ | ⟨first, second, he, hnamed, hj⟩ | ⟨he, hj⟩
  · rw [he, hj]
    exact agrees_onJoin h
  · rw [he, hj]
    exact agrees_onPart h
  · rw [he] at hu ⊢
    rw [hj]
    exact agrees_onKick h hu.2
  · rw [he] at hu ⊢
    rw [hj]
    split
    · rename_i hsecond
      apply agrees_onRetry h
      rw [← hnamed]
      exact hu ((h.wanted _).mp hsecond) hlisten
    · exact agrees_deferred h
  · rw [he] at hu ⊢
    rw [hj]
    split
    · rename_i hsecond
      obtain ⟨-, hfirst, hon⟩ := hu ((h.wanted _).mp hsecond)
      rw [hnamed] at hfirst
      rw [← hfirst] at hon ⊢
      exact agrees_onRefusal h hon
    · rename_i hsecond
      rw [next_refused_of_not_mem fun hc => hsecond ((h.wanted _).mpr hc)]
      exact h
  · rw [he, hj]
    exact h

/-- A message that is not heard must not mean anything. -/
theorem agrees_unheard (h : Agrees (j, w)) (hu : Understood o (j, w) msg) (hlisten : ¬ j.listening) :
    Agrees (j, w.next o.delay (joinerEvent j.session msg)) := by
  obtain ⟨-, hu⟩ := hu
  rcases onMessage_cases o j msg with ⟨channel, he, -⟩ | ⟨channel, he, -⟩ | ⟨channel, he, -⟩ |
    ⟨first, second, he, -, -⟩ | ⟨first, second, he, -, -⟩ | ⟨he, -⟩
  · rw [he] at hu
    exact absurd hu hlisten
  · rw [he] at hu
    exact absurd hu hlisten
  · rw [he] at hu
    exact absurd hu.1 hlisten
  · rw [he]
    exact agrees_deferred h
  · rw [he] at hu ⊢
    rw [next_refused_of_not_mem fun hc => hlisten (hu hc).1]
    exact h
  · rw [he]
    exact h

theorem agrees_onStatechanged {state : ClientState} (hstate : j.session.state = state)
    (h : Agrees (j, w)) : Agrees (j.onStatechanged state, w.next o.delay
      (if state = .disconnected ∨ state = .reconnecting then .lost else .other)) := by
  unfold onStatechanged
  by_cases hconn : state = .connected
  · rw [if_pos hconn, foldl_join (hstate.trans hconn), hconn]
    exact ⟨h.wanted, h.held, h.folded⟩
  · rw [if_neg hconn]
    by_cases hlost : state = .disconnected ∨ state = .reconnecting
    · obtain ⟨rejoiningChannels, heq, hlookup⟩ := foldl_setRejoining j.onChannels.keys h.folded
      rw [if_pos hlost, if_pos hlost, heq]
      refine ⟨?_, ?_, h.folded⟩ <;> intro c
      · have hwanted := h.wanted c
        have hheld := h.held c
        rw [mem_wanted_lost, hlookup]
        by_cases hon : c ∈ j.onChannels.keys
        · have hor : w.held c ∨ c ∈ w.wanted := by
            by_cases hw : c ∈ w.wanted
            · exact Or.inr hw
            · exact Or.inl ((hheld hw).mp (AList.mem_keys.mpr hon))
          rw [if_pos hon]
          exact iff_of_true rfl hor
        · rw [if_neg hon, hwanted]
          refine ⟨Or.inr, ?_⟩
          rintro (hh | hw)
          · by_contra hw
            exact hon (AList.mem_keys.mp ((hheld hw).mpr hh))
          · exact hw
      · rw [mem_wanted_lost]
        intro hc
        have hheld := h.held c fun hw => hc (Or.inr hw)
        have hnot : c ∉ j.onChannels := fun hon => hc (Or.inl (hheld.mp hon))
        simpa [next] using hnot
    · rw [if_neg hlost, if_neg hlost]
      exact h

/-- The condition on an input. -/
def Sound (o : RejoinOptions) (q : AutoJoiner × Wishes Bytes ℚ) : JoinerInput → Prop
  | .message msg => Understood o q msg
  | _ => True

theorem agrees_session {s : Session} (h : Agrees (j, w)) (hmap : s.mapping = j.session.mapping) :
    Agrees ({ j with session := s }, w) := by
  obtain ⟨hwanted, hheld, hfolded⟩ := h
  simp only [← hmap] at hfolded
  exact ⟨hwanted, hheld, hfolded⟩

theorem agrees_hear (h : Agrees (j, w)) (hu : Understood o (j, w) msg) :
    Agrees (j.hear o msg, w.next o.delay (joinerEvent j.session msg)) := by
  have hheard : Agrees (if j.listening then j.onMessage o msg else j,
      w.next o.delay (joinerEvent j.session msg)) := by
    by_cases hlisten : j.listening
    · rw [if_pos hlisten]
      exact agrees_onMessage h hu hlisten
    · rw [if_neg hlisten]
      exact agrees_unheard h hu hlisten
  exact agrees_session hheard (by rw [heard_session]; exact hu.1)

/-- What a message does after it is heard: nothing more, or it has made us `connected`. -/
theorem step_message (h : j.step o (.message msg) = some t) :
    ((j.session.receive msg).state = j.session.state ∧ t = j.hear o msg) ∨
    ((j.session.receive msg).state = .connected ∧
      t = (j.hear o msg).onStatechanged .connected) := by
  obtain rfl := Option.some.inj h
  split
  · rename_i hsame
    exact Or.inl ⟨hsame, rfl⟩
  · rename_i hchanged
    have hconn := ((j.session.receive_state msg).resolve_left hchanged).2
    refine Or.inr ⟨hconn, ?_⟩
    rw [show (j.hear o msg).session.state = .connected from hconn]

theorem joinerStep_some {q q' : AutoJoiner × Wishes Bytes ℚ} {i : JoinerInput}
    (h : joinerStep o q i = some q') : q.1.step o i = some q'.1 ∧
      q'.2 = q.2.next o.delay (inputEvent q.1.session i) := by
  obtain ⟨t, ht, rfl⟩ := Option.map_eq_some_iff.mp h
  exact ⟨ht, rfl⟩

theorem agrees_step {q q' : AutoJoiner × Wishes Bytes ℚ} {i : JoinerInput} (h : Agrees q)
    (hs : Sound o q i) (hstep : joinerStep o q i = some q') : Agrees q' := by
  obtain ⟨j, w⟩ := q
  obtain ⟨t, v⟩ := q'
  obtain ⟨ht, hv⟩ := joinerStep_some hstep
  simp only at ht hv
  subst hv
  cases i with
  | message msg =>
    have hheard := agrees_hear h hs
    rcases step_message ht with ⟨-, rfl⟩ | ⟨hconn, rfl⟩
    · exact hheard
    · exact agrees_onStatechanged (o := o) hconn hheard
  | state state =>
    obtain rfl := Option.some.inj ht
    exact agrees_onStatechanged rfl ⟨h.wanted, h.held, h.folded⟩
  | setNick nick =>
    obtain rfl := Option.some.inj ht
    exact ⟨h.wanted, h.held, h.folded⟩
  | addchannel chan =>
    obtain rfl := Option.some.inj ht
    obtain ⟨sent, hsent⟩ := join_eq (j.setRejoining chan ⟨none, none⟩) chan
    have hadded : Agrees (j.setRejoining chan ⟨none, none⟩,
        w.next o.delay (.add (j.session.mapping.lower chan))) := by
      refine ⟨?_, ?_, h.folded⟩ <;> intro c
      · rw [mem_wanted_add, setRejoining, Table.lookup_set, ← h.wanted]
        by_cases hc : c = j.session.mapping.lower chan <;> simp [hc]
      · rw [mem_wanted_add]
        exact fun hc => h.held c fun hw => hc (Or.inr hw)
    rw [addchannel, hsent]
    exact ⟨hadded.wanted, hadded.held, hadded.folded⟩
  | wait seconds =>
    simp only [AutoJoiner.step] at ht
    split at ht
    · obtain rfl := Option.some.inj ht
      exact ⟨h.wanted, h.held, h.folded⟩
    · cases ht
  | fire i =>
    obtain ⟨channel, -, rfl⟩ := Option.map_eq_some_iff.mp ht
    obtain ⟨sent, hsent⟩ := timerCb_eq j channel
    rw [hsent]
    exact ⟨h.wanted, h.held, h.folded⟩

/-- The welcome means nothing to the channels. -/
theorem onMessage_welcome (h : msg.cmd = lit "001") : j.onMessage o msg = j := by
  have hnames : lit "001" ≠ lit "JOIN" ∧ lit "001" ≠ lit "PART" ∧ lit "001" ≠ lit "KICK" ∧
      lit "001" ∉ retryReplies ∧ lit "001" ∉ refusalReplies := by decide
  unfold onMessage
  cases msg.args with
  | nil => simp [h, hnames]
  | cons first args => cases args <;> simp [h, hnames]

theorem onStatechanged_connected (h : j.session.state = .connected) :
    (j.onStatechanged .connected).sent =
      j.sent ++ j.rejoiningChannels.keys.map fun c => (lit "JOIN", [c]) := by
  simp [onStatechanged, foldl_join h]

theorem onStatechanged_session (state : ClientState) (h : j.session.state = state) :
    (j.onStatechanged state).session = j.session := by
  unfold onStatechanged
  split
  · rename_i hconn
    rw [foldl_join (h.trans hconn)]
  · split
    · exact List.foldlRecOn (motive := fun k : AutoJoiner => k.session = j.session)
        j.onChannels.keys _ rfl fun k hk c _ => hk
    · rfl

/-- Entering `connected` sends a JOIN for each key of the table. -/
theorem sent_entering {i : JoinerInput} (hstep : j.step o i = some t)
    (hfrom : j.session.state ≠ .connected) (hto : t.session.state = .connected) :
    t.sent = j.sent ++ j.rejoiningChannels.keys.map fun c => (lit "JOIN", [c]) := by
  cases i with
  | message msg =>
    rcases step_message hstep with ⟨hsame, rfl⟩ | ⟨hconn, rfl⟩
    · exact absurd (hsame.symm.trans hto) hfrom
    · have hcmd : msg.cmd = lit "001" := by
        rcases j.session.receive_state msg with hsame | ⟨hcmd, -⟩
        · exact absurd (hsame.symm.trans hconn) hfrom
        · exact hcmd
      have hheard : j.hear o msg = { j with session := j.session.receive msg } := by
        simp [hear, onMessage_welcome hcmd]
      rw [hheard, onStatechanged_connected hconn]
  | state state =>
    obtain rfl := Option.some.inj hstep
    by_cases hconn : state = .connected
    · subst hconn
      rw [onStatechanged_connected rfl]
    · rw [onStatechanged_session state rfl] at hto
      exact absurd hto hconn
  | setNick nick =>
    obtain rfl := Option.some.inj hstep
    exact absurd hto hfrom
  | addchannel chan =>
    obtain rfl := Option.some.inj hstep
    obtain ⟨sent, hsent⟩ := join_eq (j.setRejoining chan ⟨none, none⟩) chan
    rw [addchannel, hsent] at hto
    exact absurd hto hfrom
  | wait seconds =>
    simp only [AutoJoiner.step] at hstep
    split at hstep
    · obtain rfl := Option.some.inj hstep
      exact absurd hto hfrom
    · cases hstep
  | fire i =>
    obtain ⟨channel, -, rfl⟩ := Option.map_eq_some_iff.mp hstep
    obtain ⟨sent, hsent⟩ := timerCb_eq j channel
    rw [hsent] at hto
    exact absurd hto hfrom

theorem lookup_autojoin (s : Session) (autojoin : List Bytes) (t : Table RejoinInfo) (x : Bytes) :
    (autojoin.foldl (fun t i => t.set s.mapping.lower i ⟨none, none⟩) t).lookup x =
      if x ∈ autojoin.map s.mapping.lower then some ⟨none, none⟩ else t.lookup x := by
  induction autojoin generalizing t with
  | nil => simp
  | cons i autojoin ih =>
    rw [List.foldl_cons, ih, Table.lookup_set]
    by_cases hx : x ∈ autojoin.map s.mapping.lower <;> simp [hx]

theorem agrees_start (s : Session) (autojoin : List Bytes) : Agrees (joinerStart s autojoin) := by
  refine ⟨?_, ?_, ?_⟩ <;> intro c
  · rw [joinerStart, new, lookup_autojoin, mem_wanted_start]
    split <;> simp_all
  · intro _
    simp [joinerStart, new, start]
  · intro hc
    cases AList.notMem_empty c hc

/-- What is sent from `q` to `t` is one JOIN for each wanted channel. -/
def JoinsWanted (q : AutoJoiner × Wishes Bytes ℚ) (t : AutoJoiner) : Prop :=
  ∃ cs : List Bytes, t.sent = q.1.sent ++ cs.map (fun c => (lit "JOIN", [c])) ∧ cs.Nodup ∧
    ∀ c, c ∈ cs ↔ c ∈ q.2.wanted

theorem wanted_of_sent {q : AutoJoiner × Wishes Bytes ℚ} (h : JoinsWanted q t)
    (hc : (lit "JOIN", [c]) ∈ t.sent) : (lit "JOIN", [c]) ∈ q.1.sent ∨ c ∈ q.2.wanted := by
  obtain ⟨cs, hsent, -, hcs⟩ := h
  rw [hsent] at hc
  rcases List.mem_append.mp hc with hold | hnew
  · exact Or.inl hold
  · obtain ⟨d, hd, he⟩ := List.mem_map.mp hnew
    obtain rfl := (List.cons.inj (Prod.mk.inj he).2).1
    exact Or.inr ((hcs d).mp hd)

/-- In a run whose messages all meet the condition, entering `connected` sends a JOIN for exactly the
wanted channels. -/
theorem joins_wanted (s : Session) (autojoin : List Bytes) (inputs : List JoinerInput)
    (input : JoinerInput) (q : AutoJoiner × Wishes Bytes ℚ) (t : AutoJoiner)
    (hsound : Along (joinerStep o) (Sound o) (joinerStart s autojoin) inputs)
    (hrun : run (joinerStep o) (joinerStart s autojoin) inputs = some q)
    (hstep : q.1.step o input = some t) (hfrom : q.1.session.state ≠ .connected)
    (hto : t.session.state = .connected) : JoinsWanted q t := by
  have hagrees : Agrees q :=
    run_keeps_along (fun _ _ _ h hs hstep => agrees_step h hs hstep) (agrees_start s autojoin)
      hsound hrun
  refine ⟨q.1.rejoiningChannels.keys, sent_entering hstep hfrom hto,
    AList.keys_nodup q.1.rejoiningChannels, ?_⟩
  intro c
  rw [← AList.mem_keys, ← AList.lookup_isSome]
  exact hagrees.wanted c

/-- `#a` is wanted from the start, and `#b` since the connection on which we joined it was lost. -/
theorem joins_wanted_reconnect : ∃ q t, lit "#a" ∈ q.2.wanted ∧ lit "#b" ∈ q.2.wanted ∧
    JoinsWanted q t ∧ t.session.state = .connected := by
  let s : Session := ⟨.connecting, "bot", .rfc1459, .default⟩
  let welcome := JoinerInput.message (heard "irc" "001" ["bot", "Welcome"])
  refine ⟨_, _, ?_, ?_, joins_wanted (o := .default) s ["#a"] [.state .registering, welcome,
    .message (heard "bot" "JOIN" ["#b"]), .state .reconnecting, .state .registering] welcome _ _
    ?_ rfl rfl ?_ ?_, ?_⟩
  · decide +kernel
  · decide +kernel
  · refine along_cons trivial rfl (along_cons ?_ rfl (along_cons ?_ rfl
      (along_cons trivial rfl (along_cons trivial rfl trivial))))
    · exact ⟨by decide +kernel, trivial⟩
    · exact ⟨by decide +kernel, rfl⟩
  · decide +kernel
  · decide +kernel
  · decide +kernel

/-- A 471 reply names the bot, then the channel. The bot's own nick gets the entry, and a JOIN on the
next connection. -/
theorem refused_nick_joined : ∃ q t, run (joinerStep .default)
      (joinerStart ⟨.connecting, "bot", .rfc1459, .default⟩ ["#a"])
      [.state .registering, .message (heard "irc" "001" ["bot", "Welcome"]),
        .message (heard "irc" "471" ["bot", "#a", "Cannot join channel"]), .state .reconnecting,
        .state .registering] = some q ∧
    q.1.step .default (.message (heard "irc" "001" ["bot", "Welcome"])) = some t ∧
    q.1.session.state ≠ .connected ∧ t.session.state = .connected ∧ ¬ JoinsWanted q t := by
  refine ⟨_, _, rfl, rfl, by decide +kernel, by decide +kernel, ?_⟩
  intro hjoins
  rcases wanted_of_sent hjoins (c := lit "bot") (by decide +kernel) with hold | hwanted
  · revert hold
    decide +kernel
  · revert hwanted
    decide +kernel

end TuxBot.Irc
