import TuxBot.Irc.AutoJoinerJoins
import TuxBot.Irc.TrackerMembership

/-! Where the bot is, as the AutoJoiner and the ChannelTracker of one Client have it. -/
namespace TuxBot.Irc

open TuxBot.Lua TuxBot.Machine

variable {o : TrackerOptions} {r : RejoinOptions} {s : Session} {t : Tracker} {msg : Message}
  {name nick : Bytes}

/-- The AutoJoiner and the ChannelTracker; the Client's session is that of the AutoJoiner. -/
structure Presence where
  joiner : AutoJoiner
  tracker : Tracker

/-- What can happen to the Client, and a collection. -/
inductive PresenceInput where
  | client (input : JoinerInput)
  | collect (keys : List Bytes)

/-- What the tracker sees of it. -/
def JoinerInput.tracked : JoinerInput → Option TrackingInput
  | .message msg => some (.message msg)
  | .state st => some (.state st)
  | .setNick nick => some (.setNick nick)
  | .addchannel _ | .wait _ | .fire _ => none

namespace Presence

def tracking (p : Presence) : Tracking := ⟨p.joiner.session, p.tracker⟩

def new (s : Session) (autojoin : List Bytes) : Presence :=
  ⟨.new { s with state := .disconnected } autojoin, .new⟩

/-- The message keeps the case mapping, and a JOIN has a valid channel name. -/
def Admits (p : Presence) : JoinerInput → Prop
  | .message msg => (p.joiner.session.receive msg).mapping = p.joiner.session.mapping ∧
      (msg.cmd = lit "JOIN" → ∀ name ∈ msg.args.head?, ischanname name = true)
  | _ => True

instance decidableAdmits (p : Presence) : ∀ i, Decidable (p.Admits i)
  | .message _ => inferInstanceAs (Decidable (_ ∧ (_ → ∀ name ∈ _, _)))
  | .state _ | .setNick _ | .addchannel _ | .wait _ | .fire _ => isTrue trivial

def step (o : TrackerOptions) (r : RejoinOptions) (p : Presence) : PresenceInput → Option Presence
  | .client i =>
    if p.Admits i then do
      let joiner ← p.joiner.step r i
      match i.tracked with
      | some seen => (p.tracking.step o seen).map fun k => ⟨joiner, k.tracker⟩
      | none => some ⟨joiner, p.tracker⟩
    else none
  | .collect keys => (p.tracking.step o (.collect keys)).map fun k => ⟨p.joiner, k.tracker⟩

/-- While the Client is connected, `on_channels` and `chanstates` have the same keys. -/
def Agree (p : Presence) : Prop :=
  p.joiner.session.state = .connected → ∀ c, c ∈ p.joiner.onChannels ↔ c ∈ p.tracker.chanstates

/-- A 471, 474 or 437 that is handled does not have a channel we are on for its first argument, which
is the nick of the bot. -/
def Addressed (p : Presence) (msg : Message) : Prop :=
  match msg.args with
  | first :: second :: _ =>
    msg.cmd ∈ retryReplies → (p.joiner.rejoining second).isSome →
      p.joiner.session.mapping.lower first ∉ p.joiner.onChannels
  | _ => True

/-- When the Client becomes connected, `on_channels` is empty. -/
def Cleared (p : Presence) : PresenceInput → Prop
  | .client (.message msg) => p.Admits (.message msg) →
    if (p.joiner.session.receive msg).state = p.joiner.session.state then
      p.joiner.session.state = .connected → p.Addressed msg
    else ∀ c, c ∉ p.joiner.onChannels
  | .client (.state .connected) => ∀ c, c ∉ p.joiner.onChannels
  | _ => True

end Presence

/-! What the tracker tracks, whatever the index has. -/

theorem isSome_roster {c : Bytes} : (t.roster c).isSome ↔ c ∈ t.chanstates := by
  rw [Tracker.roster, Option.isSome_map, AList.lookup_isSome]

/-- A NICK message renames members, if it is followed at all. -/
theorem isSome_roster_onNick {c : Bytes} :
    ((t.onNick s msg).roster c).isSome = (t.roster c).isSome := by
  unfold Tracker.onNick
  split
  · split
    · rfl
    · simp [Tracker.roster, Table.lookup_mapVals]
  · rfl

theorem isSome_roster_msghandler {c : Bytes} (hu : t.unknownprefixes.isSome) :
    ((t.msghandler o s msg).roster c).isSome =
      (t.roster.next (membershipEvent s msg) c).isSome := by
  by_cases hnick : msg.cmd = lit "NICK"
  · have hhandler : t.msghandler o s msg =
        ((t.refresh s msg.sender).trigger (.receivedmessage msg)).onNick s msg := by
      simp only [Tracker.msghandler, Tracker.dispatch, hnick]
      rfl
    have hevent : membershipEvent s msg = nickEvent s msg := by
      simp only [membershipEvent, hnick]
      rfl
    rw [hhandler, isSome_roster_onNick, roster_trigger, roster_refresh, hevent]
    unfold nickEvent
    split
    · exact (Membership.isSome_next _ (by simp) (by simp)).symm
    · rfl
  · rw [(roster_msghandler_iff hu).mpr fun h => absurd h hnick]

/-- A message brings us into a channel, takes us out of one or does neither, to both alike. -/
def MovesAlike (s : Session) (msg : Message) : Prop :=
  match joinerEvent s msg with
  | .gained c => ∃ n, membershipEvent s msg = .start c n
  | .left c | .expelled c => membershipEvent s msg = .leave c
  | _ => ∀ c, membershipEvent s msg ≠ .leave c ∧ ∀ n, membershipEvent s msg ≠ .start c n

theorem commands_distinct : lit "JOIN" ≠ lit "PART" ∧ lit "JOIN" ≠ lit "KICK" ∧
    lit "PART" ≠ lit "KICK" := by decide

theorem not_reply (msg : Message) (h : msg.cmd ∈ [lit "JOIN", lit "PART", lit "KICK"]) :
    msg.cmd ∉ retryReplies ∧ msg.cmd ∉ refusalReplies :=
  (by decide : ∀ cmd ∈ [lit "JOIN", lit "PART", lit "KICK"],
    cmd ∉ retryReplies ∧ cmd ∉ refusalReplies) msg.cmd h

theorem movesAlike_join (h : msg.cmd = lit "JOIN")
    (hvalid : ∀ name ∈ msg.args.head?, ischanname name = true) : MovesAlike s msg := by
  obtain ⟨hjp, hjk, -⟩ := commands_distinct
  have hevent : membershipEvent s msg = joinEvent s msg := if_pos h
  have hreply := not_reply msg (by simp [h])
  rw [h] at hreply
  cases hargs : msg.args with
  | nil => simp [MovesAlike, joinerEvent, hevent, joinEvent, hargs]
  | cons name args =>
    have hname := hvalid name (by simp [hargs])
    cases hnick : msg.sender.nick with
    | none =>
      cases args <;> simp [MovesAlike, joinerEvent, hevent, joinEvent, hargs, hnick, Session.own, h,
        hjp, hjk, hreply]
    | some nick =>
      by_cases hown : s.mapping.lower nick = s.mapping.lower s.nick
      · simp [MovesAlike, joinerEvent, hevent, joinEvent, hargs, hnick, Session.own, h, hown, hname]
      · have hother : ¬ s.mapping.lower s.nick = s.mapping.lower nick := fun he => hown he.symm
        cases args <;> simp [MovesAlike, joinerEvent, hevent, joinEvent, hargs, hnick, Session.own, h,
          hjp, hjk, hreply, hown, hother, hname]

theorem movesAlike_part (h : msg.cmd = lit "PART") : MovesAlike s msg := by
  obtain ⟨hjp, -, hpk⟩ := commands_distinct
  have hevent : membershipEvent s msg = partEvent s msg := by simp [membershipEvent, h, hjp.symm]
  have hreply := not_reply msg (by simp [h])
  rw [h] at hreply
  cases hargs : msg.args with
  | nil => simp [MovesAlike, joinerEvent, hevent, partEvent, hargs]
  | cons name args =>
    cases hnick : msg.sender.nick with
    | none =>
      cases args <;> simp [MovesAlike, joinerEvent, hevent, partEvent, hargs, hnick, Session.own, h,
        hpk, hreply]
    | some nick =>
      by_cases hown : s.mapping.lower nick = s.mapping.lower s.nick
      · simp [MovesAlike, joinerEvent, hevent, partEvent, departure, hargs, hnick, Session.own, h,
          hjp.symm, hown]
      · have hother : ¬ s.mapping.lower s.nick = s.mapping.lower nick := fun he => hown he.symm
        cases args <;> simp [MovesAlike, joinerEvent, hevent, partEvent, departure, hargs, hnick,
          Session.own, h, hpk, hjp.symm, hreply, hown, hother]

theorem movesAlike_kick (h : msg.cmd = lit "KICK") : MovesAlike s msg := by
  obtain ⟨-, hjk, hpk⟩ := commands_distinct
  have hevent : membershipEvent s msg = kickEvent s msg := by
    simp [membershipEvent, h, hjk.symm, hpk.symm]
  have hreply := not_reply msg (by simp [h])
  rw [h] at hreply
  rcases hargs : msg.args with _ | ⟨name, _ | ⟨nick, args⟩⟩
  · simp [MovesAlike, joinerEvent, hevent, kickEvent, hargs]
  · simp [MovesAlike, joinerEvent, hevent, kickEvent, hargs, h, hjk.symm, hpk.symm]
  · by_cases hown : s.mapping.lower nick = s.mapping.lower s.nick
    · simp [MovesAlike, joinerEvent, hevent, kickEvent, departure, hargs, h, hjk.symm, hpk.symm, hown]
    · have hother : ¬ s.mapping.lower s.nick = s.mapping.lower nick := fun he => hown he.symm
      simp [MovesAlike, joinerEvent, hevent, kickEvent, departure, hargs, h, hpk.symm, hjk.symm,
        hreply, hown, hother]

theorem movesAlike_message (hvalid : msg.cmd = lit "JOIN" → ∀ name ∈ msg.args.head?,
    ischanname name = true) : MovesAlike s msg := by
  by_cases hjoin : msg.cmd = lit "JOIN"
  · exact movesAlike_join hjoin (hvalid hjoin)
  by_cases hpart : msg.cmd = lit "PART"
  · exact movesAlike_part hpart
  by_cases hkick : msg.cmd = lit "KICK"
  · exact movesAlike_kick hkick
  have htracker : ∀ c, membershipEvent s msg ≠ .leave c ∧
      ∀ n, membershipEvent s msg ≠ .start c n := by
    intro c
    unfold membershipEvent quitEvent nickEvent namesEvent
    simp only [hjoin, hpart, hkick, if_false]
    repeat' split
    all_goals simp
  have hjoiner : ∀ c, joinerEvent s msg ≠ .gained c ∧ joinerEvent s msg ≠ .left c ∧
      joinerEvent s msg ≠ .expelled c := by
    intro c
    unfold joinerEvent
    simp only [hjoin, hpart, hkick, false_and, if_false]
    repeat' split
    all_goals simp
  unfold MovesAlike
  split
  · exact absurd ‹_› (hjoiner _).1
  · exact absurd ‹_› (hjoiner _).2.1
  · exact absurd ‹_› (hjoiner _).2.2
  · exact htracker

namespace Presence

variable {p q : Presence}

theorem isSome_next_start {c n x : Bytes} {rs : Membership.Roster Bytes Bytes} :
    (rs.next (.start c n) x).isSome ↔ x = c ∨ (rs x).isSome := by
  by_cases hx : x = c <;> simp [Membership.Roster.next, hx]

theorem isSome_next_leave {c x : Bytes} {rs : Membership.Roster Bytes Bytes} :
    (rs.next (.leave c) x).isSome ↔ x ≠ c ∧ (rs x).isSome := by
  by_cases hx : x = c <;> simp [Membership.Roster.next, hx]

theorem joinerEvent_deferred {c : Bytes} (h : joinerEvent s msg = .deferred c) :
    msg.cmd ∈ retryReplies ∧ ∃ first second args, msg.args = first :: second :: args ∧
      c = s.mapping.lower second := by
  unfold joinerEvent at h
  split at h
  · rename_i first args hargs
    split at h
    · cases h
    split at h
    · cases h
    split at h
    · rename_i second rest
      split at h
      · cases h
      split at h
      · rename_i hretry
        cases h
        exact ⟨hretry, first, second, rest, hargs, rfl⟩
      split at h <;> cases h
    · cases h
  · cases h

theorem addressed_of_not_deferred (h : ∀ c, joinerEvent p.joiner.session msg ≠ .deferred c) :
    p.Addressed msg := by
  unfold Addressed
  split
  · rename_i first second args hargs
    intro hretry
    have hcmd : msg.cmd ∉ [lit "JOIN", lit "PART", lit "KICK"] := fun hmem => (not_reply msg hmem).1 hretry
    obtain ⟨hjoin, hpart, hkick⟩ : msg.cmd ≠ lit "JOIN" ∧ msg.cmd ≠ lit "PART" ∧
      msg.cmd ≠ lit "KICK" := by simpa using hcmd
    refine absurd ?_ (h (p.joiner.session.mapping.lower second))
    simp [joinerEvent, hargs, hjoin, hpart, hkick, hretry]
  · trivial

theorem addressed_iff {first second : Bytes}
    (h : joinerEvent p.joiner.session msg = .deferred (p.joiner.session.mapping.lower second))
    (hnamed : p.joiner.named msg = p.joiner.session.mapping.lower first) :
    p.Addressed msg ↔ ((p.joiner.rejoining second).isSome →
      p.joiner.session.mapping.lower first ∉ p.joiner.onChannels) := by
  obtain ⟨hretry, first', second', args, hargs, hsecond⟩ := joinerEvent_deferred h
  have hfirst : p.joiner.session.mapping.lower first' = p.joiner.session.mapping.lower first := by
    rw [← hnamed, AutoJoiner.named, hargs]
    rfl
  have hentry : p.joiner.rejoining second' = p.joiner.rejoining second :=
    congrArg (fun x => (p.joiner.rejoiningChannels.lookup x : Option RejoinInfo)) hsecond.symm
  simp only [Addressed, hargs, hretry, forall_true_left, hfirst, hentry]

/-- A message that is heard keeps the two in agreement exactly when it is addressed as it should be. -/
theorem onMessage_iff (hvalid : msg.cmd = lit "JOIN" → ∀ name ∈ msg.args.head?,
      ischanname name = true)
    (hagree : ∀ c, c ∈ p.joiner.onChannels ↔ (p.tracker.roster c).isSome) :
    (∀ c, c ∈ (p.joiner.onMessage r msg).onChannels ↔
      (p.tracker.roster.next (membershipEvent p.joiner.session msg) c).isSome) ↔
    p.Addressed msg := by
  have hmoves : MovesAlike p.joiner.session msg := movesAlike_message hvalid
  unfold MovesAlike at hmoves
  rcases AutoJoiner.onMessage_cases r p.joiner msg with ⟨channel, he, hj⟩ | ⟨channel, he, hj⟩ |
    ⟨channel, he, hj⟩ | ⟨first, second, he, hnamed, hj⟩ | ⟨first, second, he, -, hj⟩ | ⟨he, hj⟩
  · rw [he] at hmoves
    obtain ⟨n, hstart⟩ := hmoves
    refine iff_of_true (fun c => ?_) (addressed_of_not_deferred (by simp [he]))
    rw [hj, AutoJoiner.mem_onJoin, hstart, isSome_next_start, hagree]
  · rw [he] at hmoves
    refine iff_of_true (fun c => ?_) (addressed_of_not_deferred (by simp [he]))
    rw [hj, AutoJoiner.mem_onPart, hmoves, isSome_next_leave, hagree]
  · rw [he] at hmoves
    refine iff_of_true (fun c => ?_) (addressed_of_not_deferred (by simp [he]))
    rw [hj, hmoves, isSome_next_leave, ← hagree]
    simp [AutoJoiner.onKick]
  · rw [he] at hmoves
    have hstay := fun c => Membership.isSome_next (r := p.tracker.roster) (c := c)
      (membershipEvent p.joiner.session msg) (hmoves c).2 (hmoves c).1
    rw [addressed_iff he hnamed, hj]
    simp only [hstay, ← hagree]
    by_cases hwanted : (p.joiner.rejoining second).isSome
    · simp only [hwanted, if_true, AutoJoiner.onRetry, AutoJoiner.arm_onChannels,
        AutoJoiner.cancelTimer_onChannels, AutoJoiner.mem_removeOn, forall_true_left]
      exact ⟨fun h hon => ((h _).mpr hon).1 rfl,
        fun h c => ⟨And.right, fun hon => ⟨fun hc => h (hc ▸ hon), hon⟩⟩⟩
    · simp [hwanted]
  · rw [he] at hmoves
    refine iff_of_true (fun c => ?_) (addressed_of_not_deferred (by simp [he]))
    rw [Membership.isSome_next _ (hmoves c).2 (hmoves c).1, ← hagree, hj]
    split <;> simp
  · rw [he] at hmoves
    refine iff_of_true (fun c => ?_) (addressed_of_not_deferred (by simp [he]))
    rw [Membership.isSome_next _ (hmoves c).2 (hmoves c).1, ← hagree, hj]

theorem onMessage_listening (j : AutoJoiner) :
    (j.onMessage r msg).listening = j.listening := by
  have hcancel (k : AutoJoiner) (c : Bytes) : (k.cancelTimer c).listening = k.listening := by
    unfold AutoJoiner.cancelTimer
    split <;> rfl
  have harm (k : AutoJoiner) (c n : Bytes) (interval : Option ℚ) :
      (k.arm c n interval).listening = k.listening := by
    cases interval <;> rfl
  rcases AutoJoiner.onMessage_cases r j msg with ⟨channel, -, hj⟩ | ⟨channel, -, hj⟩ |
    ⟨channel, -, hj⟩ | ⟨first, second, -, -, hj⟩ | ⟨first, second, -, -, hj⟩ | ⟨-, hj⟩
  · rw [hj, AutoJoiner.onJoin_eq]
    exact hcancel (j.setOn channel) channel
  · rw [hj]
    exact hcancel (j.removeOn channel) channel
  · rw [hj, AutoJoiner.onKick, harm]
    exact hcancel (j.removeOn channel) channel
  · rw [hj]
    split
    · rw [AutoJoiner.onRetry, harm]
      exact hcancel (j.removeOn first) first
    · rfl
  · rw [hj]
    split
    · exact hcancel j first
    · rfl
  · rw [hj]

/-- A connected Client has been seen to become so by both, and they agree. -/
structure Present (p : Presence) : Prop where
  agree : p.Agree
  listening : p.joiner.session.state = .connected → p.joiner.listening
  unknown : p.joiner.session.state = .connected → p.tracker.unknownprefixes.isSome

theorem onStatechanged_onChannels (j : AutoJoiner) (state : ClientState) :
    (j.onStatechanged state).onChannels = j.onChannels := by
  unfold AutoJoiner.onStatechanged
  split
  · refine List.foldlRecOn (motive := fun k : AutoJoiner => k.onChannels = j.onChannels)
      j.rejoiningChannels.keys _ rfl fun k hk c _ => ?_
    obtain ⟨sent, hsent⟩ := AutoJoiner.join_eq k c
    rw [hsent]
    exact hk
  · split
    · exact List.foldlRecOn (motive := fun k : AutoJoiner => k.onChannels = j.onChannels)
        j.onChannels.keys _ rfl fun k hk c _ => hk
    · rfl

theorem step_client {i : JoinerInput} (h : p.step o r (.client i) = some q) :
    p.Admits i ∧ ∃ joiner, p.joiner.step r i = some joiner ∧
      (match i.tracked with
      | some seen => (p.tracking.step o seen).map fun k => ⟨joiner, k.tracker⟩
      | none => some ⟨joiner, p.tracker⟩) = some q := by
  rw [step] at h
  obtain ⟨hadmits, h⟩ := Option.ite_none_right_eq_some.mp h
  exact ⟨hadmits, Option.bind_eq_some_iff.mp h⟩

/-- The two after a message: it is heard, and a welcome makes us connected. -/
theorem step_message (h : p.step o r (.client (.message msg)) = some q) :
    p.Admits (.message msg) ∧
    (((p.joiner.session.receive msg).state = p.joiner.session.state ∧
      q = ⟨p.joiner.hear r msg, p.tracker.msghandler o p.joiner.session msg⟩) ∨
    ((p.joiner.session.receive msg).state ≠ p.joiner.session.state ∧
      (p.joiner.session.receive msg).state = .connected ∧
      q = ⟨(p.joiner.hear r msg).onStatechanged .connected,
        (p.tracker.msghandler o p.joiner.session msg).statehandler .connected⟩)) := by
  obtain ⟨hadmits, joiner, hjoiner, h⟩ := step_client h
  refine ⟨hadmits, ?_⟩
  by_cases hsame : (p.joiner.session.receive msg).state = p.joiner.session.state
  · have hheard : joiner = p.joiner.hear r msg := by
      rw [← Option.some.inj hjoiner]
      exact if_pos hsame
    have htracked : p.tracking.step o (.message msg) = some ⟨p.joiner.session.receive msg,
        p.tracker.msghandler o p.joiner.session msg⟩ :=
      congrArg (fun t => some (Tracking.mk _ t)) (if_pos hsame)
    simp only [JoinerInput.tracked, htracked, Option.map_some, Option.some.injEq] at h
    exact Or.inl ⟨hsame, by rw [← h, hheard]⟩
  · have hconn := ((p.joiner.session.receive_state msg).resolve_left hsame).2
    have hheard : joiner = (p.joiner.hear r msg).onStatechanged .connected := by
      rw [← Option.some.inj hjoiner]
      refine (if_neg hsame).trans ?_
      rw [show (p.joiner.hear r msg).session.state = .connected from hconn]
    have htracked : p.tracking.step o (.message msg) = some ⟨p.joiner.session.receive msg,
        (p.tracker.msghandler o p.joiner.session msg).statehandler .connected⟩ := by
      rw [← hconn]
      exact congrArg (fun t => some (Tracking.mk _ t)) (if_neg hsame)
    simp only [JoinerInput.tracked, htracked, Option.map_some, Option.some.injEq] at h
    exact Or.inr ⟨hsame, hconn, by rw [← h, hheard]⟩

theorem agree_entered (h : p.joiner.session.state = .connected)
    (hchans : p.tracker.chanstates = ∅) : p.Agree ↔ ∀ c, c ∉ p.joiner.onChannels := by
  have hnone : ∀ c, c ∉ p.tracker.chanstates := by
    rw [hchans]
    exact fun c => AList.notMem_empty c
  simp [Agree, h, hnone]

/-- A message keeps the two in agreement, or makes them agree, exactly under its condition. -/
theorem cleared_message (hp : Present p) (h : p.step o r (.client (.message msg)) = some q) :
    p.Cleared (.client (.message msg)) ↔ q.Agree := by
  obtain ⟨hadmits, ⟨hsame, rfl⟩ | ⟨hchanged, hconn, rfl⟩⟩ := step_message h
  · have hvalid := hadmits.2
    simp only [Cleared, hadmits, forall_true_left, if_pos hsame]
    by_cases hstate : p.joiner.session.state = .connected
    · have hroster : ∀ c, c ∈ p.joiner.onChannels ↔ (p.tracker.roster c).isSome := fun c =>
        (hp.agree hstate c).trans isSome_roster.symm
      have hheard : (p.joiner.hear r msg).onChannels = (p.joiner.onMessage r msg).onChannels := by
        simp [AutoJoiner.hear, hp.listening hstate]
      have hconnected : (p.joiner.hear r msg).session.state = .connected := hsame.trans hstate
      simp only [hstate, forall_true_left, ← onMessage_iff (r := r) hvalid hroster, Agree,
        hconnected, hheard, ← isSome_roster, isSome_roster_msghandler (hp.unknown hstate)]
    · refine iff_of_true (fun hconn => absurd hconn hstate) fun hconn => absurd ?_ hstate
      exact hsame.symm.trans hconn
  · simp only [Cleared, hadmits, forall_true_left, if_neg hchanged]
    have hwelcome := ((p.joiner.session.receive_state msg).resolve_left hchanged).1
    have hon : ((p.joiner.hear r msg).onStatechanged .connected).onChannels = p.joiner.onChannels := by
      simp [onStatechanged_onChannels, AutoJoiner.hear, onMessage_welcome hwelcome]
    rw [agree_entered _ rfl, hon]
    rw [onStatechanged_session .connected hconn]
    exact hconn

/-- What the two are does not depend on the rest. -/
theorem present_of_eq (hp : Present p)
    (hstate : q.joiner.session.state = p.joiner.session.state)
    (hon : q.joiner.onChannels = p.joiner.onChannels)
    (hlistening : q.joiner.listening = p.joiner.listening)
    (hchans : q.tracker.chanstates = p.tracker.chanstates)
    (hunknown : q.tracker.unknownprefixes = p.tracker.unknownprefixes) : Present q := by
  obtain ⟨hagree, hlisten, hu⟩ := hp
  unfold Agree at hagree
  rw [← hstate, ← hon, ← hchans] at hagree
  exact ⟨hagree, by rwa [hstate, hlistening], by rwa [hstate, hunknown]⟩

theorem step_state {state : ClientState} (h : p.step o r (.client (.state state)) = some q) :
    q = ⟨{ p.joiner with session := p.joiner.session.enter state }.onStatechanged state,
      p.tracker.statehandler state⟩ :=
  (Option.some.inj h).symm

/-- Nothing but messages and states of the Client matters. -/
theorem present_other {i : PresenceInput} (hp : Present p) (h : p.step o r i = some q)
    (hmessage : ∀ msg, i ≠ .client (.message msg)) (hstate : ∀ state, i ≠ .client (.state state)) :
    Present q := by
  cases i with
  | collect keys =>
    obtain rfl := Option.some.inj h
    exact present_of_eq hp rfl rfl rfl rfl rfl
  | client i =>
    cases i with
    | message msg => exact absurd rfl (hmessage msg)
    | state state => exact absurd rfl (hstate state)
    | setNick nick =>
      obtain rfl := Option.some.inj h
      exact present_of_eq hp rfl rfl rfl rfl rfl
    | addchannel chan =>
      obtain ⟨sent, hsent⟩ := AutoJoiner.join_eq (p.joiner.setRejoining chan ⟨none, none⟩) chan
      obtain rfl := Option.some.inj h
      rw [AutoJoiner.addchannel, hsent]
      exact present_of_eq hp rfl rfl rfl rfl rfl
    | wait seconds =>
      obtain ⟨-, joiner, hjoiner, h⟩ := step_client h
      obtain ⟨-, ⟨⟩⟩ := Option.ite_none_right_eq_some.mp hjoiner
      obtain rfl := Option.some.inj h
      exact present_of_eq hp rfl rfl rfl rfl rfl
    | fire k =>
      obtain ⟨-, joiner, hjoiner, h⟩ := step_client h
      obtain ⟨channel, -, rfl⟩ := Option.map_eq_some_iff.mp hjoiner
      obtain ⟨sent, hsent⟩ := AutoJoiner.timerCb_eq p.joiner channel
      obtain rfl := Option.some.inj h
      rw [hsent]
      exact present_of_eq hp rfl rfl rfl rfl rfl

theorem cleared_iff {i : PresenceInput} (hp : Present p) (h : p.step o r i = some q) :
    p.Cleared i ↔ q.Agree := by
  match i with
  | .client (.message msg) => exact cleared_message hp h
  | .client (.state state) =>
    obtain rfl := step_state h
    have hsession := onStatechanged_session (j := { p.joiner with
      session := p.joiner.session.enter state }) state rfl
    by_cases hconn : state = .connected
    · subst hconn
      rw [agree_entered (by rw [hsession]; rfl) rfl, onStatechanged_onChannels]
      rfl
    · refine iff_of_true ?_ fun hagain => absurd ?_ hconn
      · cases state <;> trivial
      · rw [hsession] at hagain
        exact hagain
  | .client (.setNick _) | .client (.addchannel _) | .client (.wait _) | .client (.fire _)
  | .collect _ => exact iff_of_true trivial (present_other hp h (by simp) (by simp)).agree

theorem present_step {i : PresenceInput} (hp : Present p) (h : p.step o r i = some q)
    (hagree : q.Agree) : Present q := by
  match i with
  | .client (.message msg) =>
    obtain ⟨-, ⟨hsame, rfl⟩ | ⟨-, hconn, rfl⟩⟩ := step_message h
    · refine ⟨hagree, fun hc => ?_, fun hc => ?_⟩
      · simp only [AutoJoiner.hear, hp.listening (hsame.symm.trans hc), if_true, onMessage_listening]
      · exact unknownprefixes_msghandler (hp.unknown (hsame.symm.trans hc))
    · exact ⟨hagree, fun _ => by simp [AutoJoiner.onStatechanged], fun _ => rfl⟩
  | .client (.state state) =>
    obtain rfl := step_state h
    have hsession := onStatechanged_session (j := { p.joiner with
      session := p.joiner.session.enter state }) state rfl
    refine ⟨hagree, fun hc => ?_, fun hc => ?_⟩
    all_goals
      rw [hsession] at hc
      obtain rfl : state = .connected := hc
    · simp [AutoJoiner.onStatechanged]
    · rfl
  | .client (.setNick _) | .client (.addchannel _) | .client (.wait _) | .client (.fire _)
  | .collect _ => exact present_other hp h (by simp) (by simp)

theorem present_new (s : Session) (autojoin : List Bytes) : Present (new s autojoin) := by
  have hstate : ¬ (new s autojoin).joiner.session.state = .connected := by
    simp [new, AutoJoiner.new]
  exact ⟨fun h => absurd h hstate, fun h => absurd h hstate, fun h => absurd h hstate⟩

/-- In every run under one case mapping, in which every JOIN names a valid channel, `on_channels` and
`chanstates` have the same keys in every state with the Client connected exactly when `on_channels`
is empty each time the Client becomes connected, and every refusal is addressed to the bot. -/
theorem presence_agrees_iff (o : TrackerOptions) (r : RejoinOptions) (s : Session)
    (autojoin : List Bytes) (inputs : List PresenceInput) :
    Along (step o r) (fun p i => ∀ q, p.step o r i = some q → q.Agree) (new s autojoin) inputs ↔
      Along (step o r) Cleared (new s autojoin) inputs := by
  refine (along_iff (I := Present) (fun p i q hp h => cleared_iff hp h)
    (fun p i q hp h hagree => present_step hp h hagree) ?_ (present_new s autojoin)).symm
  intro p i hp hnone
  match i with
  | .client (.message msg) =>
    intro hadmits
    rw [step, if_pos hadmits] at hnone
    cases hnone
  | .client (.state state) => cases hnone
  | .client (.setNick _) | .client (.addchannel _) | .client (.wait _) | .client (.fire _)
  | .collect _ => trivial

/-- The bot joins `#a`, and `#a` is full when it comes back: it is still in `on_channels`. -/
theorem still_on_after_reconnect : ∃ q, run (step .default .default)
      (new ⟨.disconnected, "bot", .rfc1459, .default⟩ [])
      ([.state .registering, .message (heard "irc" "001" ["bot", "Welcome"]),
        .message (heard "bot" "JOIN" ["#a"]), .state .reconnecting, .state .registering,
        .message (heard "irc" "001" ["bot", "Welcome"]),
        .message (heard "irc" "471" ["bot", "#a", "Cannot join channel (+l)"])].map .client) =
      some q ∧ q.joiner.session.state = .connected ∧ ¬ q.Agree := by
  refine ⟨_, rfl, by decide +kernel, fun hagree => ?_⟩
  have hboth := hagree (by decide +kernel) (lit "#a")
  revert hboth
  decide +kernel

end Presence

end TuxBot.Irc
