import TuxBot.Irc.MemberRecords

/-! Whether the prefix records of a member show the address that its messages come from. -/
namespace TuxBot.Irc

open TuxBot.Lua TuxBot.Machine Tracker

/-- `nick!user@host` -/
def addressText (nick user host : Bytes) : Bytes := nick ++ lit "!" ++ user ++ lit "@" ++ host

/-- The sender of a message from `nick!user@host`. -/
def senderAt (nick user host : Bytes) : Sender :=
  ⟨some nick, some user, some host, some (addressText nick user host)⟩

/-- The nick of the sender after the message. -/
def Message.nickAfter (msg : Message) (nick : Bytes) : Bytes :=
  if msg.cmd = lit "NICK" then msg.args.head?.getD nick else nick

/-- The record shows the address. -/
def Prefix.Shows (p : Prefix) (nick user host : Bytes) : Prop :=
  p.user = some user ∧ p.host = some host ∧ p.str = some (addressText nick user host)

/-- The record of the sender in a channel: under the new nick if the member has moved there. -/
def Tracker.recordAfter (t : Tracker) (s : Session) (c old new : Bytes) : Option Nat :=
  (t.recordOf c (s.mapping.lower old)).or (t.recordOf c (s.mapping.lower new))

/-- If the sender still is a member of the channel after the message, the record shows the address that
the message came from, with the nick of then. -/
def MemberShows (s : Session) (u : Tracker) (msg : Message) (nick user host c : Bytes) : Prop :=
  ∀ r, u.recordAfter s c nick (msg.nickAfter nick) = some r →
    ∃ p, u.records[r]? = some p ∧ p.Shows (msg.nickAfter nick) user host

/-- So it is after a message from `nick!user@host`, for all channels that had the sender before. -/
def AddressKept (o : TrackerOptions) (q : Tracking) : TrackingInput → Prop
  | .message msg => ∀ nick user host, msg.sender = senderAt nick user host →
    ∀ q', q.step o (.message msg) = some q' → ∀ c,
      (q.tracker.recordOf c (q.session.mapping.lower nick)).isSome →
        MemberShows q.session q'.tracker msg nick user host c
  | _ => True

/-- The welcome that completes the registration and empties the tracker. -/
def Welcomes (s : Session) (msg : Message) : Prop :=
  msg.cmd = lit "001" ∧ s.state = .registering ∧ msg.args ≠ []

/-- The message does not end the membership of its sender, who is `k` in the channel `c`. -/
structure Outlives (s : Session) (msg : Message) (c k : Bytes) : Prop where
  welcome : ¬ Welcomes s msg
  part : msg.cmd = lit "PART" → ∀ name ∈ msg.args.head?, c ≠ s.mapping.lower name
  kick : msg.cmd = lit "KICK" → ∀ name target args, msg.args = name :: target :: args →
    c = s.mapping.lower name →
      k ≠ s.mapping.lower target ∧ s.mapping.lower s.nick ≠ s.mapping.lower target
  quit : msg.cmd = lit "QUIT" → s.mapping.lower s.nick = k

/-- A JOIN of the channel `c`. -/
def Rejoins (s : Session) (msg : Message) (c : Bytes) : Prop :=
  msg.cmd = lit "JOIN" ∧ ∃ name ∈ msg.args.head?, ischanname name ∧ c = s.mapping.lower name

/-- What the message makes of a record: NICK renames the one that the index has for the sender. -/
def Tracker.renamed (t : Tracker) (s : Session) (msg : Message) (nick : Bytes) (r : Nat)
    (p : Prefix) : Prefix :=
  if msg.cmd = lit "NICK" ∧ msg.args ≠ [] ∧ t.memberprefixes.get s.mapping.lower nick = some r then
    p.rename (msg.nickAfter nick)
  else p

/-- The record has the user and the host already, or gets them as the indexed record of the sender;
and its text is the address, after the change of nick if there is one. -/
def RecordReady (s : Session) (t : Tracker) (msg : Message) (nick user host : Bytes) (r : Nat) :
    Prop :=
  ∃ p, t.records[r]? = some p ∧
    ((t.memberprefixes.get s.mapping.lower nick = some r ∧ s.mapping.nameeq nick p.nick ∧
        p.host ≠ some host) ∨
      (p.host = some host ∧ p.user = some user)) ∧
    (t.renamed s msg nick r p).str = some (addressText (msg.nickAfter nick) user host)

/-- The record of the membership is ready for the address, or the indexed one that we get when we join
the channel again. -/
def MemberReady (s : Session) (t : Tracker) (msg : Message) (nick user host c : Bytes) (r : Nat) :
    Prop :=
  (¬ Rejoins s msg c → RecordReady s t msg nick user host r) ∧
    (Rejoins s msg c → s.mapping.lower s.nick = s.mapping.lower nick →
      ∀ r', t.memberprefixes.get s.mapping.lower s.nick = some r' →
        RecordReady s t msg nick user host r')

/-- So it is for each membership of the sender that the message leaves. -/
def AddressReady (q : Tracking) : TrackingInput → Prop
  | .message msg => ∀ nick user host, msg.sender = senderAt nick user host → ∀ c r,
    q.tracker.recordOf c (q.session.mapping.lower nick) = some r →
      Outlives q.session msg c (q.session.mapping.lower nick) →
        MemberReady q.session q.tracker msg nick user host c r
  | _ => True

variable {o : TrackerOptions} {s : Session} {t u : Tracker} {msg : Message}
  {c k name nick user host : Bytes} {r : Nat} {p : Prefix}

theorem nickAfter_of_ne (h : msg.cmd ≠ lit "NICK") : msg.nickAfter nick = nick := by
  rw [Message.nickAfter, if_neg h]

theorem renamed_of_ne (h : msg.cmd ≠ lit "NICK") : t.renamed s msg nick r p = p := by
  rw [Tracker.renamed, if_neg (fun hnick => h hnick.1)]

/-- Only NICK has two nicks to look for. -/
theorem recordAfter_of_ne (h : msg.cmd ≠ lit "NICK") :
    t.recordAfter s c nick (msg.nickAfter nick) = t.recordOf c (s.mapping.lower nick) := by
  rw [nickAfter_of_ne h, Tracker.recordAfter, Option.or_self]

/-! ### What a message does to a membership of its sender -/

theorem records_refresh : (t.refresh s (senderAt nick user host)).records[r]? =
    (t.records[r]?).map fun p =>
      if t.memberprefixes.get s.mapping.lower nick = some r ∧ s.mapping.nameeq nick p.nick ∧
          p.host ≠ some host then
        { p with host := some host, user := some user }
      else p := by
  simp only [refresh, senderAt]
  cases hget : t.memberprefixes.get s.mapping.lower nick with
  | none => simp
  | some r' =>
    simp only [List.getElem?_modify, Option.some.injEq]
    by_cases hr : r' = r
    · simp [hr]
    · simp [hr]

theorem renamed_address : (t.renamed s msg nick r p).user = p.user ∧
    (t.renamed s msg nick r p).host = p.host := by
  unfold Tracker.renamed
  split
  · exact ⟨rfl, rfl⟩
  · exact ⟨rfl, rfl⟩

theorem renamed_str {p' : Prefix} (h : p'.str = p.str) :
    (t.renamed s msg nick r p').str = (t.renamed s msg nick r p).str := by
  unfold Tracker.renamed
  split
  · simp only [Prefix.rename, h]
  · exact h

/-- A record is ready when it shows the address after the start of the handler and the change of
nick. -/
theorem recordReady_iff : RecordReady s t msg nick user host r ↔
    ∃ p, (t.refresh s (senderAt nick user host)).records[r]? = some p ∧
      (t.renamed s msg nick r p).Shows (msg.nickAfter nick) user host := by
  unfold RecordReady
  rw [records_refresh]
  cases hp : t.records[r]? with
  | none => simp
  | some p =>
    simp only [Option.map_some, Option.some.injEq, exists_eq_left', Prefix.Shows,
      renamed_address]
    split
    · rename_i hindexed
      have hstr : (t.renamed s msg nick r { p with host := some host, user := some user }).str =
          (t.renamed s msg nick r p).str := renamed_str rfl
      rw [hstr]
      simp [hindexed]
    · rename_i hother
      rw [or_iff_right hother, and_assoc, and_left_comm]

/-- A membership that the message leaves keeps its record, and the record is renamed or stays. -/
def Follows (s : Session) (t u : Tracker) (msg : Message) (nick c : Bytes) (r : Nat) : Prop :=
  u.recordAfter s c nick (msg.nickAfter nick) = some r ∧
    ∀ p, t.records[r]? = some p → u.records[r]? = some (t.renamed s msg nick r p)

/-- So it is with the messages that move no member and only add records. -/
theorem follows_of_records (hcmd : msg.cmd ≠ lit "NICK")
    (hr : u.recordOf c (s.mapping.lower nick) = some r) (hrecords : t.records <+: u.records) :
    Follows s t u msg nick c r := by
  refine ⟨(recordAfter_of_ne hcmd).trans hr, ?_⟩
  intro p hp
  rw [renamed_of_ne hcmd]
  exact getElem?_of_prefix hrecords hp

theorem follows_join (h : Refers t) (hcmd : msg.cmd = lit "JOIN")
    (hr : t.recordOf c (s.mapping.lower nick) = some r) (hjoin : ¬ Rejoins s msg c) :
    Follows s t (t.onJoin o s msg) msg nick c r := by
  have hnick : msg.cmd ≠ lit "NICK" := by
    rw [hcmd]
    decide
  have hsame : Follows s t t msg nick c r := follows_of_records hnick hr (List.prefix_refl _)
  unfold onJoin
  split
  · rename_i name args sender hargs hsender
    simp only
    split
    · rename_i hchan
      have hne : c ≠ s.mapping.lower name := by
        rintro rfl
        exact hjoin ⟨hcmd, name, by simp [hargs], hchan, rfl⟩
      split
      · apply follows_of_records hnick
        · rwa [recordOf_joinOwn, if_neg hne]
        · rw [joinOwn_tables.1]
          exact (keeps_indexed s.nick _ h).2.1.records
      · apply follows_of_records hnick
        · cases hc : t.chan s name with
          | none => simpa only [joinOther, hc] using hr
          | some chan => rwa [recordOf_joinOther hc, if_neg fun hboth => hne hboth.1]
        · cases hc : t.chan s name with
          | none => simp only [joinOther, hc, List.prefix_refl]
          | some chan =>
            rw [records_joinOther hc]
            exact List.prefix_append _ _
    · exact hsame
  · exact hsame

/-- PART ends the membership in the channel it names. -/
theorem part_departs (hcmd : msg.cmd = lit "PART") (hsender : msg.sender.nick = some nick) :
    (Outlives s msg c (s.mapping.lower nick) → (t.onPart s msg).recordOf c (s.mapping.lower nick) =
      t.recordOf c (s.mapping.lower nick)) ∧
    (¬ Outlives s msg c (s.mapping.lower nick) →
      (t.onPart s msg).recordOf c (s.mapping.lower nick) = none) := by
  have hout : Outlives s msg c (s.mapping.lower nick) ↔
      ∀ name ∈ msg.args.head?, c ≠ s.mapping.lower name := by
    refine ⟨fun h => h.part hcmd, fun h => ⟨fun hw => ?_, fun _ => h, fun hk => ?_, fun hq => ?_⟩⟩
    · exact absurd (hcmd.symm.trans hw.1) (by decide)
    · exact absurd (hcmd.symm.trans hk) (by decide)
    · exact absurd (hcmd.symm.trans hq) (by decide)
  rw [hout]
  cases hargs : msg.args with
  | nil => simp [onPart, hargs]
  | cons name args =>
    simp only [onPart, hargs, hsender, recordOf_leave, true_or, and_true, List.head?_cons,
      Option.mem_some_iff, forall_eq', ne_eq]
    exact ⟨fun hne => if_neg hne, fun heq => if_pos (not_not.mp heq)⟩

/-- KICK ends that of the nick it names, and every one in the channel when the nick is ours. -/
theorem kick_departs (hcmd : msg.cmd = lit "KICK") :
    (Outlives s msg c k → (t.onKick s msg).recordOf c k = t.recordOf c k) ∧
    (¬ Outlives s msg c k → (t.onKick s msg).recordOf c k = none) := by
  have hout : Outlives s msg c k ↔ ∀ name target args, msg.args = name :: target :: args →
      c = s.mapping.lower name →
        k ≠ s.mapping.lower target ∧ s.mapping.lower s.nick ≠ s.mapping.lower target := by
    refine ⟨fun h => h.kick hcmd, fun h => ⟨fun hw => ?_, fun hp => ?_, fun _ => h, fun hq => ?_⟩⟩
    · exact absurd (hcmd.symm.trans hw.1) (by decide)
    · exact absurd (hcmd.symm.trans hp) (by decide)
    · exact absurd (hcmd.symm.trans hq) (by decide)
  rw [hout]
  rcases hargs : msg.args with _ | ⟨name, _ | ⟨target, args⟩⟩
  · simp [onKick, hargs]
  · simp [onKick, hargs]
  · simp only [onKick, hargs, recordOf_leave, List.cons.injEq]
    constructor
    · intro h
      rw [if_neg]
      rintro ⟨hname, hk | hown⟩
      · exact (h name target args ⟨rfl, rfl, rfl⟩ hname).1 hk
      · exact (h name target args ⟨rfl, rfl, rfl⟩ hname).2 hown
    · intro h
      rw [if_pos]
      by_contra hnot
      refine h ?_
      rintro _ _ _ ⟨rfl, rfl, rfl⟩ hname
      exact not_or.mp fun hboth => hnot ⟨hname, hboth⟩

/-- QUIT ends all of someone else. -/
theorem quit_departs (hcmd : msg.cmd = lit "QUIT") (hsender : msg.sender.nick = some nick) :
    (Outlives s msg c (s.mapping.lower nick) → (t.onQuit s msg).recordOf c (s.mapping.lower nick) =
      t.recordOf c (s.mapping.lower nick)) ∧
    (¬ Outlives s msg c (s.mapping.lower nick) →
      (t.onQuit s msg).recordOf c (s.mapping.lower nick) = none) := by
  have hout : Outlives s msg c (s.mapping.lower nick) ↔
      s.mapping.lower s.nick = s.mapping.lower nick := by
    refine ⟨fun h => h.quit hcmd, fun h => ⟨fun hw => ?_, fun hp => ?_, fun hk => ?_, fun _ => h⟩⟩
    · exact absurd (hcmd.symm.trans hw.1) (by decide)
    · exact absurd (hcmd.symm.trans hp) (by decide)
    · exact absurd (hcmd.symm.trans hk) (by decide)
  rw [hout, recordOf_onQuit hsender]
  constructor
  · intro hown
    rw [if_neg fun h => h.2 hown]
  · intro hother
    rw [if_pos ⟨rfl, hother⟩]

theorem follows_nick (hcmd : msg.cmd = lit "NICK") (hsender : msg.sender.nick = some nick)
    (hr : t.recordOf c (s.mapping.lower nick) = some r) :
    Follows s t (t.onNick s msg) msg nick c r := by
  have hstay (hsame : t.onNick s msg = t) (hrenamed : ∀ p, t.renamed s msg nick r p = p) :
      Follows s t (t.onNick s msg) msg nick c r := by
    rw [hsame]
    refine ⟨by rw [Tracker.recordAfter, hr, Option.some_or], ?_⟩
    intro p hp
    rwa [hrenamed]
  rcases hargs : msg.args with _ | ⟨new, args⟩
  · apply hstay
    · simp only [onNick, hargs]
    · intro p
      simp [Tracker.renamed, hargs]
  · cases hget : t.memberprefixes.get s.mapping.lower nick with
    | none =>
      apply hstay
      · exact onNick_unindexed (by simpa [hsender] using hget)
      · intro p
        simp [Tracker.renamed, hget]
    | some r' =>
      have hnew : msg.nickAfter nick = new := by
        rw [Message.nickAfter, if_pos hcmd, hargs]
        rfl
      constructor
      · rw [hnew, Tracker.recordAfter]
        simp only [recordOf_onNick hargs hsender hget, hr, Option.isSome_some, if_true]
        by_cases hsame : s.mapping.lower nick = s.mapping.lower new
        · simp [hsame]
        · simp [hsame]
      · intro p hp
        rw [onNick_eq hargs hsender hget]
        simp only [List.getElem?_modify, hp, Option.map_eq_map, Option.map_some, Tracker.renamed,
          hcmd, hargs, hget, hnew, Option.some.injEq]
        by_cases hindexed : r' = r
        · simp [hindexed]
        · simp [hindexed]

theorem follows_dispatch (h : Refers t) (hsender : msg.sender.nick = some nick)
    (hr : t.recordOf c (s.mapping.lower nick) = some r)
    (hout : Outlives s msg c (s.mapping.lower nick)) (hjoin : ¬ Rejoins s msg c) :
    Follows s t (dispatch o t s msg) msg nick c r := by
  by_cases hkeeps : KeepsMembers msg.cmd
  · obtain ⟨-, hkeep⟩ := keeps_dispatch (o := o) (s := s) h hkeeps
    exact follows_of_records hkeeps.2.2.2.2 (hkeep.members _ _ r hr) hkeep.records
  · have hdeparts {u : Tracker} (hnick : msg.cmd ≠ lit "NICK")
        (hsame : u.recordOf c (s.mapping.lower nick) = t.recordOf c (s.mapping.lower nick))
        (hrecords : u.records = t.records) : Follows s t u msg nick c r := by
      exact follows_of_records hnick (hsame.trans hr) (hrecords ▸ List.prefix_refl _)
    by_cases hcmd : msg.cmd = lit "JOIN"
    · rw [dispatch_join hcmd]
      exact follows_join h hcmd hr hjoin
    · by_cases hpart : msg.cmd = lit "PART"
      · rw [dispatch_part hpart]
        refine hdeparts (by rw [hpart]; decide) ((part_departs hpart hsender).1 hout) ?_
        unfold onPart
        split
        · exact leave_tables.1
        · rfl
      · by_cases hkick : msg.cmd = lit "KICK"
        · rw [dispatch_kick hkick]
          refine hdeparts (by rw [hkick]; decide) ((kick_departs hkick).1 hout) ?_
          unfold onKick
          split
          · exact leave_tables.1
          · rfl
        · by_cases hquit : msg.cmd = lit "QUIT"
          · rw [dispatch_quit hquit]
            exact hdeparts (by rw [hquit]; decide) ((quit_departs hquit hsender).1 hout)
              onQuit_tables.1
          · by_cases hnick : msg.cmd = lit "NICK"
            · rw [dispatch_nick hnick]
              exact follows_nick hnick hsender hr
            · exact absurd ⟨hcmd, hpart, hkick, hquit, hnick⟩ hkeeps

theorem gone_dispatch (hsender : msg.sender.nick = some nick) (hwelcome : ¬ Welcomes s msg)
    (hout : ¬ Outlives s msg c (s.mapping.lower nick)) :
    (dispatch o t s msg).recordAfter s c nick (msg.nickAfter nick) = none := by
  by_cases hpart : msg.cmd = lit "PART"
  · rw [recordAfter_of_ne (by rw [hpart]; decide), dispatch_part hpart]
    exact (part_departs hpart hsender).2 hout
  · by_cases hkick : msg.cmd = lit "KICK"
    · rw [recordAfter_of_ne (by rw [hkick]; decide), dispatch_kick hkick]
      exact (kick_departs hkick).2 hout
    · by_cases hquit : msg.cmd = lit "QUIT"
      · rw [recordAfter_of_ne (by rw [hquit]; decide), dispatch_quit hquit]
        exact (quit_departs hquit hsender).2 hout
      · exact absurd ⟨hwelcome, fun h => absurd h hpart, fun h => absurd h hkick,
          fun h => absurd h hquit⟩ hout

/-- A member who joins the channel again gets the record of the message, and we get the indexed
one. -/
theorem rejoins_dispatch (hsender : msg.sender = senderAt nick user host)
    (hr : t.recordOf c (s.mapping.lower nick) = some r) (hjoin : Rejoins s msg c) :
    let p : Prefix := ⟨nick, some user, some host, some (addressText nick user host)⟩
    (s.mapping.lower s.nick = s.mapping.lower nick →
      (dispatch o t s msg).recordOf c (s.mapping.lower nick) = some (t.indexed s s.nick p).1 ∧
        (dispatch o t s msg).records = (t.indexed s s.nick p).2.records) ∧
    (s.mapping.lower s.nick ≠ s.mapping.lower nick →
      (dispatch o t s msg).recordOf c (s.mapping.lower nick) = some t.records.length ∧
        (dispatch o t s msg).records = t.records ++ [p]) := by
  intro p
  obtain ⟨hcmd, name, hname, hchan, rfl⟩ := hjoin
  obtain ⟨args, hargs⟩ := List.head?_eq_some_iff.mp hname
  have hjoined : dispatch o t s msg =
      if s.mapping.nameeq s.nick nick then t.joinOwn o s name p else t.joinOther s name p := by
    rw [dispatch_join hcmd, onJoin, hargs, hsender]
    exact if_pos hchan
  rw [hjoined]
  simp only [CaseMapping.nameeq_iff]
  constructor
  · intro hown
    rw [if_pos hown]
    refine ⟨?_, joinOwn_tables.1⟩
    rw [recordOf_joinOwn, if_pos rfl, if_pos hown.symm]
  · intro hother
    rw [if_neg hother]
    cases hc : t.chan s name with
    | none =>
      have hlookup : t.chanstates.lookup (s.mapping.lower name) = none := hc
      rw [Tracker.recordOf, hlookup] at hr
      cases hr
    | some chan =>
      refine ⟨?_, records_joinOther hc⟩
      rw [recordOf_joinOther hc, if_pos ⟨rfl, rfl⟩]

/-! ### Every message and every run -/

theorem receive_state_iff : (s.receive msg).state = s.state ↔ ¬ Welcomes s msg := by
  unfold Session.receive Welcomes
  split
  · rename_i hboth
    cases hargs : msg.args with
    | nil => simp
    | cons nick args => simp [hboth]
  · rename_i hnot
    refine iff_of_true ?_ fun h => hnot ⟨h.1, h.2.1⟩
    split
    · exact s.onIsupport_state msg.args
    · split
      · unfold Session.onNick
        repeat' split
        all_goals rfl
      · rfl

/-- The tracker after a message: the handlers have run, and the welcome empties it. -/
theorem tracker_step {q q' : Tracking} (hstep : q.step o (.message msg) = some q') :
    (¬ Welcomes q.session msg → q'.tracker = q.tracker.msghandler o q.session msg) ∧
    (Welcomes q.session msg → q'.tracker.chanstates = ∅) := by
  have htracker : q'.tracker =
      if (q.session.receive msg).state = q.session.state then q.tracker.msghandler o q.session msg
      else (q.tracker.msghandler o q.session msg).statehandler (q.session.receive msg).state := by
    rw [← Option.some.inj hstep]
  constructor
  · intro hnot
    rw [htracker, if_pos (receive_state_iff.mpr hnot)]
  · intro hwelcome
    have hstate : (q.session.receive msg).state = .connected := by
      rcases q.session.receive_state msg with hsame | ⟨-, hstate⟩
      · exact absurd hwelcome (receive_state_iff.mp hsame)
      · exact hstate
    rw [htracker, if_neg (mt receive_state_iff.mp (not_not.mpr hwelcome)), statehandler,
      if_pos hstate]

theorem memberShows_of_record (h : u.recordAfter s c nick (msg.nickAfter nick) = some r)
    (hp : u.records[r]? = some p) :
    MemberShows s u msg nick user host c ↔ p.Shows (msg.nickAfter nick) user host := by
  simp [MemberShows, h, hp]

/-- The handlers read `t`, which is the tracker with the sender's address read. -/
theorem memberShows_dispatch (h : Refers t) (hsender : msg.sender = senderAt nick user host)
    (hr : t.recordOf c (s.mapping.lower nick) = some r)
    (hready : ∀ r, RecordReady s u msg nick user host r ↔ ∃ p, t.records[r]? = some p ∧
      (t.renamed s msg nick r p).Shows (msg.nickAfter nick) user host)
    (hindex : t.memberprefixes = u.memberprefixes) (hwelcome : ¬ Welcomes s msg) :
    MemberShows s (dispatch o t s msg) msg nick user host c ↔
      (Outlives s msg c (s.mapping.lower nick) → MemberReady s u msg nick user host c r) := by
  have hnick : msg.sender.nick = some nick := by
    rw [hsender]
    rfl
  by_cases hout : Outlives s msg c (s.mapping.lower nick)
  · simp only [hout, true_implies]
    by_cases hjoin : Rejoins s msg c
    · have hcmd : msg.cmd ≠ lit "NICK" := by
        rw [hjoin.1]
        decide
      have hafter : (dispatch o t s msg).recordAfter s c nick (msg.nickAfter nick) =
          (dispatch o t s msg).recordOf c (s.mapping.lower nick) := recordAfter_of_ne hcmd
      obtain ⟨hours, hother⟩ := rejoins_dispatch (o := o) hsender hr hjoin
      by_cases hown : s.mapping.lower s.nick = s.mapping.lower nick
      · obtain ⟨hrecord, hrecords⟩ := hours hown
        have hget' : u.memberprefixes.get s.mapping.lower s.nick =
            t.memberprefixes.get s.mapping.lower s.nick := by rw [hindex]
        cases hget : t.memberprefixes.get s.mapping.lower s.nick with
        | none =>
          simp only [indexed, hget] at hrecord hrecords
          refine iff_of_true ?_ ⟨fun hnot => absurd hjoin hnot, fun _ _ r' hr' => ?_⟩
          · refine (memberShows_of_record (hafter.trans hrecord)
              (hrecords ▸ List.getElem?_concat_length)).mpr ?_
            rw [nickAfter_of_ne hcmd]
            exact ⟨rfl, rfl, rfl⟩
          · cases (hget'.trans hget).symm.trans hr'
        | some r' =>
          simp only [indexed, hget] at hrecord hrecords
          obtain ⟨p, hp⟩ : ∃ p, t.records[r']? = some p :=
            ⟨_, List.getElem?_eq_getElem (h.index _ r' hget)⟩
          rw [memberShows_of_record (hafter.trans hrecord) (hrecords ▸ hp)]
          simp [MemberReady, hjoin, hown, hready, hp, hget', hget, renamed_of_ne hcmd]
      · obtain ⟨hrecord, hrecords⟩ := hother hown
        refine iff_of_true ?_ ⟨fun hnot => absurd hjoin hnot, fun _ h => absurd h hown⟩
        refine (memberShows_of_record (hafter.trans hrecord)
          (hrecords ▸ List.getElem?_concat_length)).mpr ?_
        rw [nickAfter_of_ne hcmd]
        exact ⟨rfl, rfl, rfl⟩
    · obtain ⟨hafter, hrecords⟩ := follows_dispatch (o := o) h hnick hr hout hjoin
      have hp := List.getElem?_eq_getElem (h.members _ _ r hr)
      rw [memberShows_of_record hafter (hrecords _ hp)]
      simp [MemberReady, hjoin, hready, hp]
  · have hgone := gone_dispatch (o := o) (t := t) hnick hwelcome hout
    refine iff_of_true ?_ fun h => absurd h hout
    intro r' hr'
    cases hgone.symm.trans hr'

/-- One membership of the sender shows the address after the message exactly when it was ready. -/
theorem member_iff {q q' : Tracking} (h : Refers q.tracker)
    (hstep : q.step o (.message msg) = some q') (hsender : msg.sender = senderAt nick user host)
    (hr : q.tracker.recordOf c (q.session.mapping.lower nick) = some r) :
    MemberShows q.session q'.tracker msg nick user host c ↔
      (Outlives q.session msg c (q.session.mapping.lower nick) →
        MemberReady q.session q.tracker msg nick user host c r) := by
  obtain ⟨hhandled, hempty⟩ := tracker_step hstep
  by_cases hwelcome : Welcomes q.session msg
  · refine iff_of_true ?_ fun hout => absurd hwelcome hout.welcome
    intro r' hr'
    simp [Tracker.recordAfter, Tracker.recordOf, hempty hwelcome] at hr'
  · rw [hhandled hwelcome, msghandler]
    have hread : Refers ((q.tracker.refresh q.session msg.sender).trigger (.receivedmessage msg)) :=
      refers_congr h chanstates_refresh length_refresh memberprefixes_refresh
    apply memberShows_dispatch hread hsender
    · exact (recordOf_congr chanstates_refresh).trans hr
    · intro r'
      rw [recordReady_iff, hsender]
      simp only [Tracker.renamed, trigger, memberprefixes_refresh]
    · exact memberprefixes_refresh
    · exact hwelcome

theorem address_step_iff {q : Tracking} (h : Refers q.tracker) (i : TrackingInput) :
    AddressKept o q i ↔ AddressReady q i := by
  cases i with
  | message msg =>
    obtain ⟨q', hstep⟩ : ∃ q', q.step o (.message msg) = some q' := ⟨_, rfl⟩
    constructor
    · intro hkept nick user host hsender c r hr
      refine (member_iff h hstep hsender hr).mp ?_
      exact hkept nick user host hsender q' hstep c (Option.isSome_of_mem hr)
    · intro hready nick user host hsender q'' hstep' c hin
      obtain ⟨r, hr⟩ := Option.isSome_iff_exists.mp hin
      exact (member_iff h hstep' hsender hr).mpr (hready nick user host hsender c r hr)
  | state state => exact Iff.rfl
  | setNick nick => exact Iff.rfl
  | collect keys => exact Iff.rfl

theorem exists_run (o : TrackerOptions) (q : Tracking) (inputs : List TrackingInput) :
    ∃ q', run (Tracking.step o) q inputs = some q' := by
  induction inputs generalizing q with
  | nil => exact ⟨q, rfl⟩
  | cons i inputs ih =>
    obtain ⟨u, hu⟩ : ∃ u, q.step o i = some u := by
      cases i
      all_goals exact ⟨_, rfl⟩
    obtain ⟨q', hq'⟩ := ih u
    exact ⟨q', by rw [run, hu, Option.bind_some, hq']⟩

/-- In every run the members show the addresses of their messages exactly when, at each message, the
records of its sender's memberships were ready. -/
theorem addresses_kept_iff (o : TrackerOptions) (s : Session) (inputs : List TrackingInput) :
    Along (Tracking.step o) (AddressKept o) ⟨s, .new⟩ inputs ↔
      Along (Tracking.step o) AddressReady ⟨s, .new⟩ inputs := by
  obtain ⟨q, hrun⟩ := exists_run o ⟨s, .new⟩ inputs
  have hstart : Refers Tracker.new := by
    refine ⟨?_, ?_⟩
    · intro c k r hr
      cases hr
    · intro k r hr
      cases hr
  exact along_congr (I := fun q => Refers q.tracker) (fun q i q' h _ => address_step_iff h i)
    (fun q i q' h hstep => refers_step h hstep) hstart hrun

def addressSession : Session := ⟨.connected, "TuxBot", .rfc1459, .default⟩

/-- A message of Ann from the host. -/
def fromAnn (host cmd : Bytes) (args : List Bytes) : Message :=
  ⟨0, [], senderAt "Ann" "ann" host, cmd, args⟩

/-- Ann joins from one host and speaks from another: her record gets the new host and the old text. -/
theorem old_text_stays : ∃ q, run (Tracking.step .default) ⟨addressSession, .new⟩
      [.message (heard "TuxBot" "JOIN" ["#tux"]), .message (fromAnn "one" "JOIN" ["#tux"])] = some q ∧
    ¬ AddressKept .default q (.message (fromAnn "two" "PRIVMSG" ["#tux", "hi"])) := by
  generalize hr : run (Tracking.step .default) _ _ = result
  have hview : (result.bind fun q =>
      (q.step .default (.message (fromAnn "two" "PRIVMSG" ["#tux", "hi"]))).bind fun q' =>
        (q'.tracker.recordAfter q.session "#tux" "Ann" "Ann").bind fun r =>
          (q'.tracker.records[r]?).map fun p =>
            ((q.tracker.recordOf "#tux" (q.session.mapping.lower "Ann")).isSome, p.host, p.str)) =
      some (true, some (lit "two"), some (lit "Ann!ann@one")) := by
    rw [← hr]
    decide +kernel
  obtain ⟨q, rfl, hq⟩ := Option.bind_eq_some_iff.mp hview
  obtain ⟨q', hstep, hq'⟩ := Option.bind_eq_some_iff.mp hq
  obtain ⟨r, hrecord, hp⟩ := Option.bind_eq_some_iff.mp hq'
  obtain ⟨p, hp, hshown⟩ := Option.map_eq_some_iff.mp hp
  obtain ⟨hin, hrest⟩ := Prod.mk.inj hshown
  obtain ⟨-, hstr⟩ := Prod.mk.inj hrest
  refine ⟨q, rfl, fun hkept => ?_⟩
  obtain ⟨p', hp', -, -, htext⟩ := hkept "Ann" "ann" "two" rfl q' hstep "#tux" hin r hrecord
  obtain rfl := Option.some.inj (hp.symm.trans hp')
  exact absurd (hstr.symm.trans htext) (by decide)

end TuxBot.Irc
