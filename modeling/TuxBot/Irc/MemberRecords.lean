import TuxBot.Irc.ModeParams
import TuxBot.Irc.TrackerRecords

/-! Which prefix record each member has after a message, and what becomes of the records. -/
namespace TuxBot.Irc

open TuxBot.Lua Tracker

/-- The record of the member under `k`. -/
def Chan.recordOf (chan : Chan) (k : Bytes) : Option Nat :=
  (chan.members.lookup k).map Member.record

/-- The record of the member under `k` in the channel `c`. -/
def Tracker.recordOf (t : Tracker) (c k : Bytes) : Option Nat :=
  (t.chanstates.lookup c).bind fun chan => chan.recordOf k

/-- The members and the index refer to records that there are. -/
structure Refers (t : Tracker) : Prop where
  members : ∀ c k r, t.recordOf c k = some r → r < t.records.length
  index : ∀ k r, t.memberprefixes.lookup k = some r → r < t.records.length

/-- The members stay with their records, and new records follow the old ones. -/
structure Keeps (t u : Tracker) : Prop where
  members : ∀ c k r, t.recordOf c k = some r → u.recordOf c k = some r
  records : t.records <+: u.records

variable {o : TrackerOptions} {s : Session} {t u v : Tracker} {msg : Message} {chan chan' : Chan}
  {c k name nick old new how : Bytes} {r : Nat} {p : Prefix}

theorem keeps_refl (t : Tracker) : Keeps t t := ⟨fun _ _ _ h => h, List.prefix_refl t.records⟩

theorem keeps_trans (h : Keeps t u) (h' : Keeps u v) : Keeps t v := by
  refine ⟨?_, h.records.trans h'.records⟩
  intro c k r hr
  exact h'.members c k r (h.members c k r hr)

theorem getElem?_of_prefix (h : t.records <+: u.records) (hp : t.records[r]? = some p) :
    u.records[r]? = some p := by
  obtain ⟨hr, rfl⟩ := List.getElem?_eq_some_iff.mp hp
  exact List.prefix_iff_getElem?.mp h r hr

/-! ### Writing channels and records -/

theorem recordOf_of_chan (h : t.chan s name = some chan) :
    t.recordOf (s.mapping.lower name) k = chan.recordOf k := by
  have hlookup : t.chanstates.lookup (s.mapping.lower name) = some chan := h
  rw [Tracker.recordOf, hlookup, Option.bind_some]

theorem recordOf_setChan : (t.setChan s name chan).recordOf c k =
    if c = s.mapping.lower name then chan.recordOf k else t.recordOf c k := by
  rw [Tracker.recordOf, setChan, Table.lookup_set]
  split
  · rfl
  · rfl

theorem recordOf_congr (h : u.chanstates = t.chanstates) : u.recordOf c k = t.recordOf c k := by
  rw [Tracker.recordOf, Tracker.recordOf, h]

theorem Chan.recordOf_set {fold : Bytes → Bytes} {m : Member} :
    ({ chan with members := chan.members.set fold nick m } : Chan).recordOf k =
      if k = fold nick then some m.record else chan.recordOf k := by
  rw [Chan.recordOf, Table.lookup_set]
  split
  · rfl
  · rfl

/-- A member of a channel gets another mode. -/
theorem Chan.recordOf_setMode {fold : Bytes → Bytes} {m : Member} (mode : Bytes)
    (h : chan.members.get fold nick = some m) :
    ({ chan with members := chan.members.set fold nick { m with mode } } : Chan).recordOf k =
      chan.recordOf k := by
  rw [Chan.recordOf_set]
  split
  · subst k
    have hlookup : chan.members.lookup (fold nick) = some m := h
    rw [Chan.recordOf, hlookup, Option.map_some]
  · rfl

theorem Chan.recordOf_remove {fold : Bytes → Bytes} :
    ({ chan with members := chan.members.remove fold nick } : Chan).recordOf k =
      if k = fold nick then none else chan.recordOf k := by
  rw [Chan.recordOf, Table.lookup_remove]
  split
  · rfl
  · rfl

theorem Chan.recordOf_moveKey {fold : Bytes → Bytes} :
    ({ chan with members := moveKey fold chan.members old new } : Chan).recordOf k =
      if (chan.recordOf (fold old)).isSome then
        if k = fold new then chan.recordOf (fold old)
        else if k = fold old then none else chan.recordOf k
      else chan.recordOf k := by
  unfold Chan.recordOf moveKey
  cases hget : chan.members.get fold old with
  | none =>
    have hlookup : chan.members.lookup (fold old) = none := hget
    simp [hlookup]
  | some m =>
    have hlookup : chan.members.lookup (fold old) = some m := hget
    simp only [hlookup, Option.map_some, Option.isSome_some, if_true, Table.lookup_set,
      Table.lookup_remove]
    split
    · rfl
    · split <;> rfl

/-- A channel whose members have records that there are. -/
theorem refers_setChan (h : Refers t) (hchan : ∀ k r, chan.recordOf k = some r → r < t.records.length) :
    Refers (t.setChan s name chan) := by
  refine ⟨?_, h.index⟩
  intro c k r hr
  rw [recordOf_setChan] at hr
  split at hr
  · exact hchan k r hr
  · exact h.members c k r hr

/-- A channel written back with the same records. -/
theorem keeps_setChan (h : Refers t) (hc : t.chan s name = some chan)
    (hsame : ∀ k, chan'.recordOf k = chan.recordOf k) :
    Refers (t.setChan s name chan') ∧ Keeps t (t.setChan s name chan') := by
  constructor
  · apply refers_setChan h
    intro k r hr
    rw [hsame, ← recordOf_of_chan hc] at hr
    exact h.members _ k r hr
  · refine ⟨?_, List.prefix_refl _⟩
    intro c k r hr
    rw [recordOf_setChan]
    split
    · subst c
      rw [hsame, ← recordOf_of_chan hc]
      exact hr
    · exact hr

/-- The record of an entry is what the index has, or the new one. -/
theorem keeps_indexed (nick : Bytes) (p : Prefix) (h : Refers t) :
    Refers (t.indexed s nick p).2 ∧ Keeps t (t.indexed s nick p).2 ∧
      (t.indexed s nick p).1 < (t.indexed s nick p).2.records.length := by
  unfold indexed
  cases hget : t.memberprefixes.get s.mapping.lower nick with
  | some r => exact ⟨h, keeps_refl t, h.index _ r hget⟩
  | none =>
    have hlength : (t.records ++ [p]).length = t.records.length + 1 := by simp
    refine ⟨⟨?_, ?_⟩, ⟨fun _ _ _ hr => hr, List.prefix_append _ _⟩, by simp⟩
    · intro c k r hr
      have hlt := h.members c k r hr
      simp only [hlength]
      omega
    · intro k r hk
      rw [Table.lookup_set] at hk
      simp only [hlength]
      split at hk
      · cases hk
        omega
      · have hlt := h.index k r hk
        omega

/-! ### The handlers that keep every record -/

theorem keeps_log {log : List TrackerEvent} (h : Refers u ∧ Keeps t u) :
    Refers { u with log } ∧ Keeps t { u with log } :=
  ⟨⟨h.1.members, h.1.index⟩, ⟨h.2.members, h.2.records⟩⟩

theorem keeps_unknownprefixes {unknownprefixes : Option (Table Unit)} (h : Refers u ∧ Keeps t u) :
    Refers { u with unknownprefixes } ∧ Keeps t { u with unknownprefixes } :=
  ⟨⟨h.1.members, h.1.index⟩, ⟨h.2.members, h.2.records⟩⟩

theorem keeps_onMode (h : Refers t) : Refers (t.onMode s msg) ∧ Keeps t (t.onMode s msg) := by
  unfold onMode
  split
  · split
    · exact ⟨h, keeps_refl t⟩
    · rename_i chan hchan
      apply keeps_log
      apply keeps_setChan h hchan
      intro k
      rw [scan_reads s msg.args _ msg.args.length ⟨chan, 2, true, []⟩ (by simp) (by simp)]
      exact foldl_records s chan k _
  · exact ⟨h, keeps_refl t⟩

theorem keeps_setTopic {topic : Bytes} {changed : Bool} (h : Refers t) :
    Refers (t.setTopic s name topic changed) ∧ Keeps t (t.setTopic s name topic changed) := by
  unfold setTopic
  split
  · exact ⟨h, keeps_refl t⟩
  · rename_i chan hchan
    exact keeps_log (keeps_setChan h hchan fun _ => rfl)

theorem keeps_on324 (h : Refers t) : Refers (t.on324 s msg) ∧ Keeps t (t.on324 s msg) := by
  unfold on324
  split
  · split
    · exact ⟨h, keeps_refl t⟩
    · rename_i chan hchan
      exact keeps_log (keeps_setChan h hchan fun _ => rfl)
  · exact ⟨h, keeps_refl t⟩

/-- A member that is new to a channel, with a record that there is. -/
theorem keeps_addMember {m : Member} (h : Refers t) (hc : t.chan s name = some chan)
    (hnew : chan.members.get s.mapping.lower nick = none) (hm : m.record < t.records.length) :
    Refers (t.setChan s name { chan with members := chan.members.set s.mapping.lower nick m }) ∧
      Keeps t (t.setChan s name
        { chan with members := chan.members.set s.mapping.lower nick m }) := by
  constructor
  · apply refers_setChan h
    intro k r hr
    rw [Chan.recordOf_set] at hr
    split at hr
    · cases hr
      exact hm
    · rw [← recordOf_of_chan hc] at hr
      exact h.members _ k r hr
  · refine ⟨?_, List.prefix_refl _⟩
    intro c k r hr
    rw [recordOf_setChan]
    split
    · subst c
      rw [recordOf_of_chan hc] at hr
      rw [Chan.recordOf_set]
      split
      · subst k
        have hnone : chan.members.lookup (s.mapping.lower nick) = none := hnew
        rw [Chan.recordOf, hnone] at hr
        cases hr
      · exact hr
    · exact hr

theorem keeps_addNames (names : List Bytes) (h : Refers u ∧ Keeps t u) :
    Refers (addNames s name names u) ∧ Keeps t (addNames s name names u) := by
  induction names generalizing u with
  | nil => exact h
  | cons member names ih =>
    cases hchan : u.chan s name with
    | none => simpa [addNames, hchan] using h
    | some chan =>
      generalize hnick : (splitName s.isupport member).1 = nick
      cases hget : chan.members.get s.mapping.lower nick with
      | some m =>
        obtain ⟨hset, hkeep⟩ := keeps_setChan h.1 hchan fun k =>
          Chan.recordOf_setMode (splitName s.isupport member).2 hget
        simp only [addNames, hchan, hnick, hget]
        exact ih ⟨hset, keeps_trans h.2 hkeep⟩
      | none =>
        by_cases hok : isnick nick
        · obtain ⟨hindexed, hkeep, hlt⟩ :=
            keeps_indexed (s := s) nick ⟨nick, none, none, none⟩ h.1
          have hchan' : (u.indexed s nick ⟨nick, none, none, none⟩).2.chan s name = some chan := by
            rwa [Tracker.chan, chanstates_indexed]
          have hadd (m : Member) (hr : m.record =
              (u.indexed s nick ⟨nick, none, none, none⟩).1) :
              let added := (u.indexed s nick ⟨nick, none, none, none⟩).2.setChan s name
                { chan with members := chan.members.set s.mapping.lower nick m }
              Refers added ∧ Keeps t added := by
            obtain ⟨hadded, hsame⟩ := keeps_addMember hindexed hchan' hget (hr ▸ hlt)
            exact ⟨hadded, keeps_trans (keeps_trans h.2 hkeep) hsame⟩
          simp only [addNames, hchan, hnick, hget, hok, if_true]
          split
          · exact keeps_log (hadd _ rfl)
          · exact ih (keeps_unknownprefixes (keeps_log (hadd _ rfl)))
        · simp only [addNames, hchan, hnick, hget, hok]
          exact ih h

/-- The messages that give no member another record. -/
def KeepsMembers (cmd : Bytes) : Prop :=
  cmd ≠ lit "JOIN" ∧ cmd ≠ lit "PART" ∧ cmd ≠ lit "KICK" ∧ cmd ≠ lit "QUIT" ∧ cmd ≠ lit "NICK"

theorem keeps_dispatch (h : Refers t) (hkeeps : KeepsMembers msg.cmd) :
    Refers (dispatch o t s msg) ∧ Keeps t (dispatch o t s msg) := by
  obtain ⟨hjoin, hpart, hkick, hquit, hnick⟩ := hkeeps
  refine dispatch_cases (P := fun u => Refers u ∧ Keeps t u) ⟨h, keeps_refl t⟩ (absurd · hjoin) ?_
    (absurd · hquit) (absurd · hnick) (fun _ _ _ => keeps_setTopic h)
    (keeps_onMode h) (fun _ names => keeps_addNames names ⟨h, keeps_refl t⟩) (keeps_on324 h)
  rintro (hcmd | hcmd)
  · exact absurd hcmd hpart
  · exact absurd hcmd hkick

/-! ### The handlers that do not -/

/-- Our own JOIN makes a channel with ourselves in it. -/
theorem recordOf_joinOwn : (t.joinOwn o s name p).recordOf c k =
    if c = s.mapping.lower name then
      if k = s.mapping.lower s.nick then some (t.indexed s s.nick p).1 else none
    else t.recordOf c k := by
  rw [Tracker.recordOf, chanstates_joinOwn, Table.lookup_set]
  split
  · rw [Option.bind_some, Chan.recordOf, Table.lookup_set]
    split
    · rfl
    · rfl
  · rfl

/-- The JOIN of another gives the member the record of the message. -/
theorem recordOf_joinOther (hc : t.chan s name = some chan) :
    (t.joinOther s name p).recordOf c k =
      if c = s.mapping.lower name ∧ k = s.mapping.lower p.nick then some t.records.length
      else t.recordOf c k := by
  rw [Tracker.recordOf, chanstates_joinOther hc, Table.lookup_set]
  by_cases hname : c = s.mapping.lower name
  · subst c
    rw [if_pos rfl, Option.bind_some, Chan.recordOf_set, recordOf_of_chan hc]
    simp only [true_and]
  · rw [if_neg hname, if_neg fun h => hname h.1]
    rfl

theorem refers_congr (h : Refers u) (hc : v.chanstates = u.chanstates)
    (hr : v.records.length = u.records.length) (hi : v.memberprefixes = u.memberprefixes) :
    Refers v := by
  refine ⟨?_, ?_⟩
  · intro c k r hk
    rw [recordOf_congr hc] at hk
    rw [hr]
    exact h.members c k r hk
  · rw [hr, hi]
    exact h.index

theorem refers_joinOwn (h : Refers t) : Refers (t.joinOwn o s name p) := by
  obtain ⟨hindexed, hkeep, hlt⟩ := keeps_indexed (s := s) s.nick p h
  refine ⟨?_, ?_⟩
  · intro c k r hr
    rw [joinOwn_tables.1]
    rw [recordOf_joinOwn] at hr
    split at hr
    · split at hr
      · cases hr
        exact hlt
      · cases hr
    · exact hindexed.members c k r (hkeep.members c k r hr)
  · rw [joinOwn_tables.1, joinOwn_tables.2]
    exact hindexed.index

theorem refers_joinOther (h : Refers t) : Refers (t.joinOther s name p) := by
  cases hc : t.chan s name with
  | none => simpa only [joinOther, hc] using h
  | some chan =>
    have hlength : (t.joinOther s name p).records.length = t.records.length + 1 := by
      simp [records_joinOther hc]
    refine ⟨?_, ?_⟩
    · intro c k r hr
      rw [hlength]
      rw [recordOf_joinOther hc] at hr
      split at hr
      · cases hr
        omega
      · have hlt := h.members c k r hr
        omega
    · intro k r hk
      have hindex : k = s.mapping.lower p.nick ∧ r = t.records.length ∨
          t.memberprefixes.lookup k = some r := by
        simp only [joinOther, hc, trigger, setChan] at hk
        split at hk
        · rw [Table.lookup_set] at hk
          split at hk
          · cases hk
            exact Or.inl ⟨‹_›, rfl⟩
          · exact Or.inr hk
        · exact Or.inr hk
      rw [hlength]
      rcases hindex with ⟨-, rfl⟩ | hk
      · omega
      · have hlt := h.index k r hk
        omega

theorem recordOf_remove :
    ({ t with chanstates := t.chanstates.remove s.mapping.lower name } : Tracker).recordOf c k =
      if c = s.mapping.lower name then none else t.recordOf c k := by
  rw [Tracker.recordOf, Table.lookup_remove]
  split
  · rfl
  · rfl

/-- The one who leaves is gone from the channel, and everyone is when it is ourselves. -/
theorem recordOf_leave : (t.leave s name nick how).recordOf c k =
    if c = s.mapping.lower name ∧
      (k = s.mapping.lower nick ∨ s.mapping.lower s.nick = s.mapping.lower nick) then none
    else t.recordOf c k := by
  cases hc : t.chan s name with
  | none =>
    simp only [leave, hc]
    split
    · rename_i hleft
      have hlookup : t.chanstates.lookup (s.mapping.lower name) = none := hc
      rw [Tracker.recordOf, hleft.1, hlookup, Option.bind_none]
    · rfl
  | some chan =>
    simp only [leave, hc, CaseMapping.nameeq_iff]
    by_cases hown : s.mapping.lower s.nick = s.mapping.lower nick
    · simp only [hown, if_true, or_true, and_true]
      exact recordOf_remove
    · simp only [hown, if_false, or_false]
      refine Eq.trans recordOf_setChan ?_
      rw [Chan.recordOf_remove]
      by_cases hname : c = s.mapping.lower name
      · subst c
        simp only [if_true, true_and]
        rw [recordOf_of_chan hc]
      · simp only [hname, if_false, false_and]

theorem leave_tables : (t.leave s name nick how).records = t.records ∧
    (t.leave s name nick how).memberprefixes = t.memberprefixes := by
  unfold leave
  split
  · exact ⟨rfl, rfl⟩
  · split
    · exact ⟨rfl, rfl⟩
    · exact ⟨rfl, rfl⟩

theorem recordOf_mapVals {f : Bytes → Chan → Chan} :
    ({ t with chanstates := t.chanstates.mapVals f } : Tracker).recordOf c k =
      (t.chanstates.lookup c).bind fun chan => (f c chan).recordOf k := by
  rw [Tracker.recordOf, Table.lookup_mapVals, Option.bind_map]
  rfl

/-- Someone else who quits is gone from all channels. -/
theorem recordOf_onQuit (hnick : msg.sender.nick = some nick) : (t.onQuit s msg).recordOf c k =
    if k = s.mapping.lower nick ∧ s.mapping.lower s.nick ≠ s.mapping.lower nick then none
    else t.recordOf c k := by
  simp only [onQuit, hnick, CaseMapping.nameeq_iff]
  by_cases hown : s.mapping.lower s.nick = s.mapping.lower nick
  · simp only [hown, if_true, ne_eq, not_true_eq_false, and_false, if_false]
  · simp only [hown, if_false, ne_eq, not_false_eq_true, and_true]
    refine Eq.trans recordOf_mapVals ?_
    simp only [Chan.recordOf_remove]
    split
    · cases t.chanstates.lookup c <;> rfl
    · rfl

theorem onQuit_tables : (t.onQuit s msg).records = t.records ∧
    (t.onQuit s msg).memberprefixes = t.memberprefixes := by
  unfold onQuit
  split
  · split
    · exact ⟨rfl, rfl⟩
    · exact ⟨rfl, rfl⟩
  · exact ⟨rfl, rfl⟩

theorem onNick_eq {args : List Bytes} (hargs : msg.args = new :: args)
    (hold : msg.sender.nick = some old) (hget : t.memberprefixes.get s.mapping.lower old = some r) :
    t.onNick s msg = { t with
      memberprefixes := moveKey s.mapping.lower t.memberprefixes old new
      records := t.records.modify r fun p => p.rename new
      chanstates := t.chanstates.mapVals fun _ chan =>
        { chan with members := moveKey s.mapping.lower chan.members old new }
      log := t.log ++ (t.channelsOf s old).map fun name => .membernick name old new } := by
  simp only [onNick, hargs, hold, hget]

theorem onNick_unindexed (h : ∀ nick ∈ msg.sender.nick,
    t.memberprefixes.get s.mapping.lower nick = none) : t.onNick s msg = t := by
  unfold onNick
  split
  · rename_i hnick
    rw [h _ hnick]
  · rfl

/-- A change of nick moves the member in every channel. -/
theorem recordOf_onNick {args : List Bytes} (hargs : msg.args = new :: args)
    (hold : msg.sender.nick = some old) (hget : t.memberprefixes.get s.mapping.lower old = some r) :
    (t.onNick s msg).recordOf c k =
      if (t.recordOf c (s.mapping.lower old)).isSome then
        if k = s.mapping.lower new then t.recordOf c (s.mapping.lower old)
        else if k = s.mapping.lower old then none else t.recordOf c k
      else t.recordOf c k := by
  rw [onNick_eq hargs hold hget]
  refine Eq.trans recordOf_mapVals ?_
  simp only [Chan.recordOf_moveKey, Tracker.recordOf]
  rcases Option.eq_none_or_eq_some (t.chanstates.lookup c) with hc | ⟨chan, hc⟩
  · simp [hc]
  · simp [hc]

theorem refers_onNick (h : Refers t) : Refers (t.onNick s msg) := by
  rcases hargs : msg.args with _ | ⟨new, args⟩
  · simpa only [onNick, hargs] using h
  · cases hold : msg.sender.nick with
    | none => simpa only [onNick, hargs, hold] using h
    | some old =>
      cases hget : t.memberprefixes.get s.mapping.lower old with
      | none =>
        rw [onNick_unindexed (by simpa [hold] using hget)]
        exact h
      | some r =>
        have hlength : (t.onNick s msg).records.length = t.records.length := by
          simp [onNick_eq hargs hold hget]
        refine ⟨?_, ?_⟩
        · intro c k r' hr
          rw [hlength]
          rw [recordOf_onNick hargs hold hget] at hr
          split at hr
          · split at hr
            · exact h.members c _ r' hr
            · split at hr
              · cases hr
              · exact h.members c k r' hr
          · exact h.members c k r' hr
        · intro k r' hk
          rw [hlength]
          have hmoved : (moveKey s.mapping.lower t.memberprefixes old new).lookup k = some r' := by
            rwa [onNick_eq hargs hold hget] at hk
          rcases lookup_moveKey hmoved with ⟨-, hr⟩ | ⟨hr, -⟩
          · exact h.index _ r' hr
          · exact h.index k r' hr

theorem refers_leave (h : Refers t) : Refers (t.leave s name nick how) := by
  refine ⟨?_, ?_⟩
  · intro c k r hr
    rw [leave_tables.1]
    rw [recordOf_leave] at hr
    split at hr
    · cases hr
    · exact h.members c k r hr
  · rw [leave_tables.1, leave_tables.2]
    exact h.index

theorem refers_onQuit (h : Refers t) : Refers (t.onQuit s msg) := by
  refine ⟨?_, ?_⟩
  · intro c k r hr
    rw [onQuit_tables.1]
    cases hnick : msg.sender.nick with
    | none =>
      simp only [onQuit, hnick] at hr
      exact h.members c k r hr
    | some nick =>
      rw [recordOf_onQuit hnick] at hr
      split at hr
      · cases hr
      · exact h.members c k r hr
  · rw [onQuit_tables.1, onQuit_tables.2]
    exact h.index

theorem refers_onJoin (h : Refers t) : Refers (t.onJoin o s msg) := by
  unfold onJoin
  split
  · simp only
    split
    · split
      · exact refers_joinOwn h
      · exact refers_joinOther h
    · exact h
  · exact h

theorem refers_dispatch (h : Refers t) : Refers (dispatch o t s msg) := by
  exact dispatch_cases h (fun _ => refers_onJoin h) (fun _ _ _ _ => refers_leave h)
    (fun _ => refers_onQuit h) (fun _ => refers_onNick h)
    (fun _ _ _ => (keeps_setTopic h).1) (keeps_onMode h).1
    (fun _ names => (keeps_addNames names ⟨h, keeps_refl t⟩).1) (keeps_on324 h).1

theorem refers_msghandler (h : Refers t) : Refers (t.msghandler o s msg) := by
  apply refers_dispatch
  exact refers_congr h chanstates_refresh length_refresh memberprefixes_refresh

theorem refers_statehandler {state : ClientState} (h : Refers t) :
    Refers (t.statehandler state) := by
  unfold statehandler
  split
  · refine ⟨?_, h.index⟩
    intro c k r hr
    cases hr
  · exact h

theorem refers_collect {keys : List Bytes} (h : Refers t) : Refers (t.collect keys) := by
  refine ⟨h.members, ?_⟩
  intro k r hk
  exact h.index k r ((lookup_collect keys).1 k r hk)

theorem refers_step {q q' : Tracking} {i : TrackingInput} (h : Refers q.tracker)
    (hstep : q.step o i = some q') : Refers q'.tracker := by
  cases i with
  | message msg =>
    obtain rfl := Option.some.inj hstep
    simp only
    split
    · exact refers_msghandler h
    · exact refers_statehandler (refers_msghandler h)
  | state state =>
    obtain rfl := Option.some.inj hstep
    exact refers_statehandler h
  | setNick nick =>
    obtain rfl := Option.some.inj hstep
    exact h
  | collect keys =>
    obtain rfl := Option.some.inj hstep
    exact refers_collect h

end TuxBot.Irc
