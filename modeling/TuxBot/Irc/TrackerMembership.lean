import TuxBot.Irc.ChannelTracker
import TuxBot.Irc.Membership

/-! The ChannelTracker against the reference of sets: who is where. -/
namespace TuxBot.Irc

open TuxBot.Lua TuxBot.Membership TuxBot.Machine

variable {o : TrackerOptions} {s : Session} {t : Tracker} {msg : Message} {chan : Chan}
  {name nick old new : Bytes}

/-- The keys of a members table. -/
def Chan.nicks (chan : Chan) : Set Bytes := {n | n ∈ chan.members}

/-- The tracked channels and the keys of their members tables. -/
def Tracker.roster (t : Tracker) : Roster Bytes Bytes := fun c =>
  (t.chanstates.lookup c).map Chan.nicks

/-- The valid nicks of a NAMES reply. -/
def validNames (s : Session) (names : List Bytes) : List Bytes :=
  names.filterMap fun member =>
    let nick := (Tracker.splitName s.isupport member).1
    if isnick nick then some (s.mapping.lower nick) else none

/-- Someone leaves one channel; we stop tracking it when it is us. -/
def departure (s : Session) (name nick : Bytes) : Event Bytes Bytes :=
  if s.mapping.nameeq s.nick nick then .leave (s.mapping.lower name)
  else .remove (s.mapping.lower name) (s.mapping.lower nick)

def joinEvent (s : Session) (msg : Message) : Event Bytes Bytes :=
  match msg.args, msg.sender.nick with
  | name :: _, some nick =>
    if ischanname name then
      if s.mapping.nameeq s.nick nick then .start (s.mapping.lower name) (s.mapping.lower s.nick)
      else .add (s.mapping.lower name) [s.mapping.lower nick]
    else .other
  | _, _ => .other

def partEvent (s : Session) (msg : Message) : Event Bytes Bytes :=
  match msg.args, msg.sender.nick with
  | name :: _, some nick => departure s name nick
  | _, _ => .other

def kickEvent (s : Session) (msg : Message) : Event Bytes Bytes :=
  match msg.args with
  | name :: nick :: _ => departure s name nick
  | _ => .other

def quitEvent (s : Session) (msg : Message) : Event Bytes Bytes :=
  match msg.sender.nick with
  | some nick => if s.mapping.nameeq s.nick nick then .other else .quit (s.mapping.lower nick)
  | none => .other

def nickEvent (s : Session) (msg : Message) : Event Bytes Bytes :=
  match msg.args, msg.sender.nick with
  | new :: _, some old => .rename (s.mapping.lower old) (s.mapping.lower new)
  | _, _ => .other

def namesEvent (s : Session) (msg : Message) : Event Bytes Bytes :=
  match msg.args with
  | _ :: _ :: name :: names :: _ => .add (s.mapping.lower name) (validNames s (words names))
  | _ => .other

/-- What a message says about membership, in folded names. -/
def membershipEvent (s : Session) (msg : Message) : Event Bytes Bytes :=
  if msg.cmd = lit "JOIN" then joinEvent s msg
  else if msg.cmd = lit "PART" then partEvent s msg
  else if msg.cmd = lit "KICK" then kickEvent s msg
  else if msg.cmd = lit "QUIT" then quitEvent s msg
  else if msg.cmd = lit "NICK" then nickEvent s msg
  else if msg.cmd = lit "353" then namesEvent s msg
  else .other

section Nicks

variable {fold : Bytes → Bytes} {members : Table Member} {m : Member}

theorem nicks_set : {n | n ∈ members.set fold nick m} = {n | n ∈ members} ∪ {fold nick} := by
  ext n
  simp [Table.set, AList.mem_insert]

theorem nicks_set_of_mem (h : fold nick ∈ members) :
    {n | n ∈ members.set fold nick m} = {n | n ∈ members} := by
  ext n
  simp only [Table.set, AList.mem_insert, Set.mem_ofPred_eq]
  constructor
  · rintro (rfl | hn)
    · exact h
    · exact hn
  · exact Or.inr

theorem nicks_remove : {n | n ∈ members.remove fold nick} = {n | n ∈ members} \ {fold nick} := by
  ext n
  simp [Table.remove, AList.mem_erase, and_comm]

theorem nicks_moveKey : {n | n ∈ Tracker.moveKey fold members old new} =
    replace (fold old) (fold new) '' {n | n ∈ members} := by
  unfold Tracker.moveKey
  cases h : members.get fold old with
  | none =>
    have hout : fold old ∉ {n | n ∈ members} := AList.lookup_eq_none.mp h
    simp [image_replace_of_not_mem hout]
  | some m =>
    have hin : fold old ∈ {n | n ∈ members} := by
      have hsome : (members.lookup (fold old)).isSome := Option.isSome_of_mem h
      exact AList.lookup_isSome.mp hsome
    simp only [nicks_set, nicks_remove, image_replace hin]
    exact Set.union_singleton

end Nicks

theorem roster_setChan : (t.setChan s name chan).roster =
    Function.update t.roster (s.mapping.lower name) (some chan.nicks) := by
  funext c
  by_cases hc : c = s.mapping.lower name
  · subst hc
    simp [Tracker.roster, Tracker.setChan, Table.lookup_set]
  · simp [Tracker.roster, Tracker.setChan, Table.lookup_set, hc]

theorem roster_of_chan (h : t.chan s name = some chan) :
    t.roster (s.mapping.lower name) = some chan.nicks := by
  have hl : t.chanstates.lookup (s.mapping.lower name) = some chan := h
  simp [Tracker.roster, hl]

theorem roster_of_no_chan (h : t.chan s name = none) :
    t.roster (s.mapping.lower name) = none := by
  have hl : t.chanstates.lookup (s.mapping.lower name) = none := h
  simp [Tracker.roster, hl]

/-- A channel written back with the same members leaves the roster as it was. -/
theorem roster_setChan_of_nicks {chan' : Chan} (h : t.chan s name = some chan)
    (hn : chan'.nicks = chan.nicks) : (t.setChan s name chan').roster = t.roster := by
  rw [roster_setChan, hn, ← roster_of_chan h, Function.update_eq_self]

theorem roster_indexed {p : Prefix} : (t.indexed s nick p).2.roster = t.roster := by
  unfold Tracker.roster
  rw [Tracker.chanstates_indexed]

theorem roster_refresh {sender : Sender} : (t.refresh s sender).roster = t.roster := by
  unfold Tracker.roster
  rw [Tracker.chanstates_refresh]

theorem roster_announce {setting : Bool} {cmd : Bytes} :
    (t.announce s setting cmd name).roster = t.roster := by
  unfold Tracker.roster
  rw [Tracker.announce_tables.1]

theorem roster_trigger {event : TrackerEvent} : (t.trigger event).roster = t.roster := rfl

theorem roster_joinOwn {p : Prefix} : (t.joinOwn o s name p).roster =
    t.roster.next (.start (s.mapping.lower name) (s.mapping.lower s.nick)) := by
  have hself (m : Member) : {n | n ∈ Table.set s.mapping.lower (∅ : Table Member) s.nick m} =
      {s.mapping.lower s.nick} := by
    rw [nicks_set]
    ext n
    simp
  simp only [Tracker.joinOwn, roster_announce, roster_trigger, roster_setChan, roster_indexed,
    Roster.next, Chan.nicks, hself]

theorem roster_joinOther {p : Prefix} : (t.joinOther s name p).roster =
    t.roster.next (.add (s.mapping.lower name) [s.mapping.lower p.nick]) := by
  unfold Tracker.joinOther
  cases h : t.chan s name with
  | none => simp [Roster.next, roster_of_no_chan h]
  | some chan =>
    simp only [Roster.next, roster_of_chan h, Option.map_some, roster_trigger, roster_setChan,
      Chan.nicks, nicks_set, List.mem_singleton]
    rfl

theorem roster_leave {how : Bytes} :
    (t.leave s name nick how).roster = t.roster.next (departure s name nick) := by
  unfold Tracker.leave departure
  by_cases hown : s.mapping.nameeq s.nick nick = true
  · rw [if_pos hown]
    cases h : t.chan s name with
    | none => rw [Roster.next, ← roster_of_no_chan h, Function.update_eq_self]
    | some chan =>
      simp only [hown, if_true, Roster.next]
      funext c
      by_cases hc : c = s.mapping.lower name
      · subst hc
        simp [Tracker.roster, Tracker.trigger, Table.lookup_remove]
      · simp [Tracker.roster, Tracker.trigger, Table.lookup_remove, hc]
  · rw [if_neg hown]
    cases h : t.chan s name with
    | none =>
      have hnone := roster_of_no_chan h
      rw [Roster.next, hnone, Option.map_none, ← hnone, Function.update_eq_self]
    | some chan =>
      simp only [hown, Roster.next, roster_of_chan h, Option.map_some]
      simp only [Bool.false_eq_true, if_false, roster_trigger, roster_setChan, Chan.nicks,
        nicks_remove]

theorem roster_onJoin :
    (t.onJoin o s msg).roster = t.roster.next (joinEvent s msg) := by
  unfold Tracker.onJoin joinEvent
  cases msg.args with
  | nil => rfl
  | cons name args =>
    cases msg.sender.nick with
    | none => rfl
    | some nick =>
      by_cases hchan : ischanname name
      · by_cases hown : s.mapping.nameeq s.nick nick
        · simp only [hchan, hown, if_true]
          exact roster_joinOwn
        · simp only [hchan, hown, if_true]
          exact roster_joinOther
      · simp only [hchan]
        rfl

theorem roster_onPart : (t.onPart s msg).roster = t.roster.next (partEvent s msg) := by
  unfold Tracker.onPart partEvent
  cases msg.args with
  | nil => rfl
  | cons name args =>
    cases msg.sender.nick with
    | none => rfl
    | some nick => exact roster_leave

theorem roster_onKick : (t.onKick s msg).roster = t.roster.next (kickEvent s msg) := by
  unfold Tracker.onKick kickEvent
  match msg.args with
  | [] => rfl
  | [_] => rfl
  | name :: nick :: _ => exact roster_leave

theorem roster_onQuit : (t.onQuit s msg).roster = t.roster.next (quitEvent s msg) := by
  unfold Tracker.onQuit quitEvent
  cases msg.sender.nick with
  | none => rfl
  | some nick =>
    by_cases hown : s.mapping.nameeq s.nick nick
    · simp only [hown]
      rfl
    · simp only [hown]
      funext c
      simp [Tracker.roster, Table.lookup_mapVals, Roster.next, Chan.nicks, nicks_remove,
        Option.map_map, Function.comp_def]

/-- The rename reaches every channel when the index knows the old nick. -/
theorem roster_onNick {args : List Bytes} {record : Nat} (hargs : msg.args = new :: args)
    (hold : msg.sender.nick = some old)
    (hindex : t.memberprefixes.get s.mapping.lower old = some record) :
    (t.onNick s msg).roster =
      t.roster.next (.rename (s.mapping.lower old) (s.mapping.lower new)) := by
  funext c
  simp [Tracker.onNick, hargs, hold, hindex, Tracker.roster, Table.lookup_mapVals, Roster.next,
    Chan.nicks, nicks_moveKey, Option.map_map, Function.comp_def]

theorem nicks_letter {args : List Bytes} {m : Tracker.ModeScan} {char : UInt8} :
    (m.letter s args name char).chan.nicks = m.chan.nicks := by
  unfold Tracker.ModeScan.letter
  simp only
  split
  · split
    · rfl
    · split
      · rfl
      · rename_i member hget
        apply nicks_set_of_mem
        have hsome : (m.chan.members.lookup _).isSome := Option.isSome_of_mem hget
        exact AList.lookup_isSome.mp hsome
  · rfl

theorem nicks_char {args : List Bytes} {m : Tracker.ModeScan} {char : UInt8} :
    (m.char s args name char).chan.nicks = m.chan.nicks := by
  unfold Tracker.ModeScan.char
  split
  · rfl
  · split
    · rfl
    · split
      · exact nicks_letter
      · rfl

theorem nicks_foldl_char {args : List Bytes} (arg : Bytes) (m : Tracker.ModeScan) :
    (arg.foldl (Tracker.ModeScan.char s args name) m).chan.nicks = m.chan.nicks := by
  induction arg generalizing m with
  | nil => rfl
  | cons c arg ih => rw [List.foldl_cons, ih, nicks_char]

/-- MODE changes modes only. -/
theorem nicks_scan {args : List Bytes} (n : Nat) (m : Tracker.ModeScan) :
    (m.scan s args name n).chan.nicks = m.chan.nicks := by
  induction n generalizing m with
  | zero => rfl
  | succ n ih =>
    unfold Tracker.ModeScan.scan
    split
    · rfl
    · rw [ih, nicks_foldl_char]

theorem roster_onMode : (t.onMode s msg).roster = t.roster := by
  unfold Tracker.onMode
  split
  · split
    · rfl
    · rename_i chan h
      exact roster_setChan_of_nicks h (nicks_scan _ _)
  · rfl

theorem roster_setTopic {topic : Bytes} {changed : Bool} :
    (t.setTopic s name topic changed).roster = t.roster := by
  unfold Tracker.setTopic
  split
  · rfl
  · rename_i chan h
    exact roster_setChan_of_nicks h rfl

theorem roster_on324 : (t.on324 s msg).roster = t.roster := by
  unfold Tracker.on324
  split
  · split
    · rfl
    · rename_i chan h
      exact roster_setChan_of_nicks h rfl
  · rfl

theorem validNames_cons (member : Bytes) (names : List Bytes) : validNames s (member :: names) =
    if isnick (Tracker.splitName s.isupport member).1 then
      s.mapping.lower (Tracker.splitName s.isupport member).1 :: validNames s names
    else validNames s names := by
  simp only [validNames, List.filterMap_cons]
  split <;> simp_all

/-- A name that the channel has already gets its mode anew. -/
theorem addNames_member {m : Member} {nick mode member : Bytes} (names : List Bytes)
    (hchan : t.chan s name = some chan) (hsplit : Tracker.splitName s.isupport member = (nick, mode))
    (hget : chan.members.get s.mapping.lower nick = some m) :
    ∃ t', Tracker.addNames s name (member :: names) t = Tracker.addNames s name names t' ∧
      t'.unknownprefixes = t.unknownprefixes ∧ t'.roster = t.roster := by
  have hin : s.mapping.lower nick ∈ chan.members :=
    AList.lookup_isSome.mp (Option.isSome_of_mem hget)
  let members := chan.members.set s.mapping.lower nick { m with mode }
  have hsame : ({ chan with members } : Chan).nicks = chan.nicks := nicks_set_of_mem hin
  refine ⟨t.setChan s name { chan with members }, ?_, rfl, roster_setChan_of_nicks hchan hsame⟩
  simp only [Tracker.addNames, hsplit, hchan, hget, members]

/-- A valid nick that the channel has not is added. -/
theorem addNames_new {nick mode member : Bytes} (names : List Bytes)
    (hu : t.unknownprefixes.isSome) (hchan : t.chan s name = some chan)
    (hsplit : Tracker.splitName s.isupport member = (nick, mode))
    (hget : chan.members.get s.mapping.lower nick = none) (hok : isnick nick) :
    ∃ t', Tracker.addNames s name (member :: names) t = Tracker.addNames s name names t' ∧
      t'.unknownprefixes.isSome ∧
      t'.roster = t.roster.next (.add (s.mapping.lower name) [s.mapping.lower nick]) := by
  obtain ⟨known, hknown⟩ := Option.isSome_iff_exists.mp hu
  generalize hindex : t.indexed s nick ⟨nick, none, none, none⟩ = r
  have hroster : r.2.roster = t.roster := hindex ▸ roster_indexed
  have hsome : r.2.unknownprefixes = some known := by
    rw [← hindex, ← hknown]
    unfold Tracker.indexed
    split <;> rfl
  let members := chan.members.set s.mapping.lower nick ⟨r.1, mode⟩
  let added := (r.2.setChan s name { chan with members }).trigger (.memberadded name nick "NAMES")
  have hadded : added.roster =
      t.roster.next (.add (s.mapping.lower name) [s.mapping.lower nick]) := by
    simp only [added, roster_trigger, roster_setChan, hroster, Roster.next, roster_of_chan hchan,
      Option.map_some, Chan.nicks, members, nicks_set, List.mem_singleton]
    rfl
  refine ⟨{ added with unknownprefixes := some (known.set s.mapping.lower nick ()) }, ?_, rfl, hadded⟩
  simp only [Tracker.addNames, hsplit, hchan, hget, hok, if_true, hindex]
  simp only [Tracker.trigger, Tracker.setChan, hsome]
  rfl

/-- The names are taken one by one: a new valid nick is added to the channel, any other leaves the
members as they are. -/
theorem roster_addNames (names : List Bytes) (hu : t.unknownprefixes.isSome) :
    (Tracker.addNames s name names t).roster =
        t.roster.next (.add (s.mapping.lower name) (validNames s names)) ∧
      (Tracker.addNames s name names t).unknownprefixes.isSome := by
  induction names generalizing t with
  | nil => exact ⟨next_add_nil.symm, hu⟩
  | cons member names ih =>
    cases hchan : t.chan s name with
    | none =>
      simp only [Tracker.addNames, hchan]
      exact ⟨(next_add_none (roster_of_no_chan hchan) _).symm, hu⟩
    | some chan =>
      rw [validNames_cons]
      rcases hsplit : Tracker.splitName s.isupport member with ⟨nick, mode⟩
      cases hget : chan.members.get s.mapping.lower nick with
      | some m =>
        obtain ⟨t', hloop, hsame, hroster⟩ := addNames_member names hchan hsplit hget
        obtain ⟨hrest, hsome⟩ := ih (t := t') (hsame ▸ hu)
        rw [hloop, hrest, hroster]
        refine ⟨?_, hsome⟩
        split
        · have hmem : ∀ S, t.roster (s.mapping.lower name) = some S → s.mapping.lower nick ∈ S := by
            intro S hS
            rw [roster_of_chan hchan] at hS
            exact Option.some.inj hS ▸ AList.lookup_isSome.mp (Option.isSome_of_mem hget)
          rw [next_add_cons, next_add_of_mem hmem]
        · rfl
      | none =>
        by_cases hok : isnick nick
        · obtain ⟨t', hloop, hsome, hroster⟩ := addNames_new names hu hchan hsplit hget hok
          rw [hloop, if_pos hok, next_add_cons, ← hroster]
          exact ih hsome
        · rw [if_neg hok]
          simp only [Tracker.addNames, hchan, hsplit, hget, hok]
          exact ih hu

/-- A NICK message can be followed: the index has the old nick, or there is nothing to follow. -/
def NickIndexed (s : Session) (t : Tracker) (msg : Message) : Prop :=
  msg.cmd = lit "NICK" → ∀ new ∈ msg.args.head?, ∀ old ∈ msg.sender.nick,
    (t.memberprefixes.get s.mapping.lower old).isSome ∨
    s.mapping.lower new = s.mapping.lower old ∨
    ∀ c chan, t.chanstates.lookup c = some chan → s.mapping.lower old ∉ chan.members

theorem roster_onNick_iff {args : List Bytes} (hcmd : msg.cmd = lit "NICK")
    (hargs : msg.args = new :: args) (hold : msg.sender.nick = some old) :
    (t.onNick s msg).roster = t.roster.next (.rename (s.mapping.lower old) (s.mapping.lower new)) ↔
      NickIndexed s t msg := by
  cases hindex : t.memberprefixes.get s.mapping.lower old with
  | some record =>
    refine iff_of_true (roster_onNick hargs hold hindex) ?_
    rintro - new' - old' hold'
    obtain rfl : old = old' := Option.some.inj (hold.symm.trans hold')
    simp [hindex]
  | none =>
    -- the message is ignored: right only if there was nothing to rename
    have hsame : t.onNick s msg = t := by simp [Tracker.onNick, hargs, hold, hindex]
    have hcond : NickIndexed s t msg ↔ s.mapping.lower new = s.mapping.lower old ∨
        ∀ c chan, t.chanstates.lookup c = some chan → s.mapping.lower old ∉ chan.members := by
      simp [NickIndexed, hcmd, hargs, hold, hindex]
    rw [hsame, hcond]
    constructor
    · intro hroster
      by_contra hnot
      obtain ⟨hne, hmem⟩ := not_or.mp hnot
      simp only [not_forall, not_not] at hmem
      obtain ⟨c, chan, hchan, hin⟩ := hmem
      have hc : t.roster c = some chan.nicks := by simp [Tracker.roster, hchan]
      have himage : some chan.nicks =
          some (replace (s.mapping.lower old) (s.mapping.lower new) '' chan.nicks) := by
        rw [← hc, hroster]
        simp [Roster.next, hc]
      have hout := not_mem_rename (s := chan.nicks) hne
      rw [← Option.some.inj himage] at hout
      exact hout hin
    · rintro (heq | hmem)
      · rw [heq, next_rename_self]
      · refine (next_rename_of_not_mem ?_).symm
        intro c S hS
        obtain ⟨chan, hchan, rfl⟩ := Option.map_eq_some_iff.mp hS
        exact hmem c chan hchan

theorem roster_on353 (hu : t.unknownprefixes.isSome) :
    (t.on353 s msg).roster = t.roster.next (namesEvent s msg) := by
  unfold Tracker.on353 namesEvent
  match msg.args with
  | [] | [_] | [_, _] | [_, _, _] => rfl
  | _ :: _ :: name :: names :: _ => exact (roster_addNames _ hu).1

theorem roster_onTopic : (t.onTopic s msg).roster = t.roster := by
  unfold Tracker.onTopic
  split
  · exact roster_setTopic
  · rfl

theorem roster_on332 : (t.on332 s msg).roster = t.roster := by
  unfold Tracker.on332
  split
  · exact roster_setTopic
  · rfl

/-- All but the NICK messages are handled as the reference says. -/
theorem roster_dispatch_of_ne (hu : t.unknownprefixes.isSome) (hnick : msg.cmd ≠ lit "NICK") :
    (t.dispatch o s msg).roster = t.roster.next (membershipEvent s msg) := by
  unfold Tracker.dispatch membershipEvent
  by_cases hjoin : msg.cmd = lit "JOIN"
  · rw [if_pos hjoin, if_pos hjoin]
    exact roster_onJoin
  by_cases hpart : msg.cmd = lit "PART"
  · rw [if_neg hjoin, if_neg hjoin, if_pos hpart, if_pos hpart]
    exact roster_onPart
  by_cases hkick : msg.cmd = lit "KICK"
  · rw [if_neg hjoin, if_neg hjoin, if_neg hpart, if_neg hpart, if_pos hkick, if_pos hkick]
    exact roster_onKick
  rw [if_neg hjoin, if_neg hjoin, if_neg hpart, if_neg hpart, if_neg hkick, if_neg hkick]
  by_cases hquit : msg.cmd = lit "QUIT"
  · rw [if_pos hquit, if_pos hquit]
    exact roster_onQuit
  rw [if_neg hquit, if_neg hquit, if_neg hnick, if_neg hnick]
  by_cases h353 : msg.cmd = lit "353"
  · rw [if_pos h353, if_neg (by rw [h353]; decide), if_neg (by rw [h353]; decide), if_pos h353]
    exact roster_on353 hu
  · rw [if_neg h353, if_neg h353]
    show _ = t.roster
    split
    · exact roster_onTopic
    · split
      · exact roster_onMode
      · split
        · exact roster_on324
        · split
          · exact roster_on332
          · rfl

/-- A message is handled as the reference says exactly when it is not a NICK message that cannot be
followed. -/
theorem roster_dispatch_iff (hu : t.unknownprefixes.isSome) :
    (t.dispatch o s msg).roster = t.roster.next (membershipEvent s msg) ↔ NickIndexed s t msg := by
  by_cases hnick : msg.cmd = lit "NICK"
  · have hevent : membershipEvent s msg = nickEvent s msg := by
      simp only [membershipEvent, hnick]
      rfl
    rw [Tracker.dispatch_nick hnick, hevent]
    cases hargs : msg.args with
    | nil =>
      refine iff_of_true ?_ ?_
      · simp [Tracker.onNick, nickEvent, hargs, Roster.next]
      · simp [NickIndexed, hargs]
    | cons new args =>
      cases hold : msg.sender.nick with
      | none =>
        refine iff_of_true ?_ ?_
        · simp [Tracker.onNick, nickEvent, hargs, hold, Roster.next]
        · simp [NickIndexed, hold]
      | some old =>
        have hrename : nickEvent s msg = .rename (s.mapping.lower old) (s.mapping.lower new) := by
          simp [nickEvent, hargs, hold]
        rw [hrename]
        exact roster_onNick_iff hnick hargs hold
  · exact iff_of_true (roster_dispatch_of_ne hu hnick) fun h => absurd h hnick

theorem roster_msghandler_iff (hu : t.unknownprefixes.isSome) :
    (t.msghandler o s msg).roster = t.roster.next (membershipEvent s msg) ↔
      NickIndexed s t msg := by
  let t' := (t.refresh s msg.sender).trigger (.receivedmessage msg)
  have hsame : t'.roster = t.roster := roster_refresh
  have htables : t'.unknownprefixes = t.unknownprefixes ∧
      t'.memberprefixes = t.memberprefixes ∧ t'.chanstates = t.chanstates := by
    simp only [t', Tracker.trigger, Tracker.refresh]
    repeat' split
    all_goals exact ⟨rfl, rfl, rfl⟩
  obtain ⟨hunknown, hindex, hchans⟩ := htables
  have hdispatch : (t'.dispatch o s msg).roster = t'.roster.next (membershipEvent s msg) ↔
      NickIndexed s t' msg := roster_dispatch_iff (hunknown ▸ hu)
  rw [hsame] at hdispatch
  refine hdispatch.trans ?_
  unfold NickIndexed
  rw [hindex, hchans]

theorem unknownprefixes_onJoin : (t.onJoin o s msg).unknownprefixes = t.unknownprefixes := by
  have hindexed (p : Prefix) : (t.indexed s s.nick p).2.unknownprefixes = t.unknownprefixes := by
    unfold Tracker.indexed
    split <;> rfl
  have hannounce (t : Tracker) (setting : Bool) (cmd name : Bytes) :
      (t.announce s setting cmd name).unknownprefixes = t.unknownprefixes := by
    unfold Tracker.announce Tracker.sendmessage
    repeat' split
    all_goals rfl
  unfold Tracker.onJoin
  split
  · split
    · split
      · simp only [Tracker.joinOwn, hannounce]
        exact hindexed _
      · unfold Tracker.joinOther
        split <;> rfl
    · rfl
  · rfl

theorem unknownprefixes_leave {how : Bytes} :
    (t.leave s name nick how).unknownprefixes = t.unknownprefixes := by
  unfold Tracker.leave
  repeat' split
  all_goals rfl

/-- Once there is a table of unknown prefixes it stays. -/
theorem unknownprefixes_dispatch (hu : t.unknownprefixes.isSome) :
    (t.dispatch o s msg).unknownprefixes.isSome := by
  refine Tracker.dispatch_cases (P := fun u => u.unknownprefixes.isSome) hu (fun _ => ?_) (fun _ _ _ _ => ?_)
    (fun _ => ?_) (fun _ => ?_) (fun _ _ _ => ?_) ?_ (fun _ names => (roster_addNames names hu).2) ?_
  · rwa [unknownprefixes_onJoin]
  · rwa [unknownprefixes_leave]
  · unfold Tracker.onQuit
    repeat' split
    all_goals exact hu
  · unfold Tracker.onNick
    repeat' split
    all_goals exact hu
  · unfold Tracker.setTopic
    split
    all_goals exact hu
  · unfold Tracker.onMode
    repeat' split
    all_goals exact hu
  · unfold Tracker.on324
    repeat' split
    all_goals exact hu

theorem unknownprefixes_msghandler (hu : t.unknownprefixes.isSome) :
    (t.msghandler o s msg).unknownprefixes.isSome := by
  apply unknownprefixes_dispatch
  unfold Tracker.trigger Tracker.refresh
  repeat' split
  all_goals exact hu

/-- The tracker of a connected Client, with the events its messages stood for. Between two messages
the collector may run. -/
def tracedStep (o : TrackerOptions) (q : Tracking × List (Event Bytes Bytes)) :
    TrackingInput → Option (Tracking × List (Event Bytes Bytes))
  | .message msg =>
    if msg.cmd = lit "005" then none
    else (q.1.step o (.message msg)).map fun k => (k, q.2 ++ [membershipEvent q.1.session msg])
  | .collect keys => (q.1.step o (.collect keys)).map fun k => (k, q.2)
  | _ => none

/-- The Client has just entered `connected`, whatever the tracker held before. -/
def tracedStart (s : Session) (t : Tracker) : Tracking × List (Event Bytes Bytes) :=
  (⟨{ s with state := .connected }, t.statehandler .connected⟩, [])

/-- The tracked channels are those joined and not left since, and the keys of their members tables
are the members of the reference. -/
structure Faithful (q : Tracking × List (Event Bytes Bytes)) : Prop where
  tracked : ∀ c, (∃ chan, q.1.tracker.chanstates.lookup c = some chan) ↔
    ∃ pre n post, q.2 = pre ++ .start c n :: post ∧ .leave c ∉ post
  members : ∀ c chan, q.1.tracker.chanstates.lookup c = some chan →
    ∃ ns, Membership.roster q.2 c = some ns ∧ ∀ n, n ∈ chan.members ↔ n ∈ ns

theorem faithful_iff {q : Tracking × List (Event Bytes Bytes)} :
    Faithful q ↔ q.1.tracker.roster = Membership.roster q.2 := by
  constructor
  · rintro ⟨htracked, hmembers⟩
    funext c
    have hiff := htracked c
    rw [← tracked_iff] at hiff
    cases hc : q.1.tracker.chanstates.lookup c with
    | none =>
      have hnone : ¬ (Membership.roster q.2 c).isSome := fun h => by simpa [hc] using hiff.mpr h
      simp only [Tracker.roster, hc, Option.map_none]
      exact (Option.not_isSome_iff_eq_none.mp hnone).symm
    | some chan =>
      obtain ⟨ns, hns, hmem⟩ := hmembers c chan hc
      simp only [Tracker.roster, hc, Option.map_some, hns, Option.some.injEq]
      exact Set.ext hmem
  · intro h
    refine ⟨?_, ?_⟩
    · intro c
      rw [← tracked_iff, ← h]
      simp [Tracker.roster, Option.isSome_iff_exists]
    · intro c chan hc
      refine ⟨chan.nicks, ?_, fun _ => Iff.rfl⟩
      rw [← h]
      simp [Tracker.roster, hc]

/-- Every NICK message of the run can be followed. -/
def NickFollowed (q : Tracking × List (Event Bytes Bytes)) : TrackingInput → Prop
  | .message msg => NickIndexed q.1.session q.1.tracker msg
  | _ => True

theorem receive_connected (h : s.state = .connected) (hcmd : msg.cmd ≠ lit "005") :
    (s.receive msg).state = .connected := by
  unfold Session.receive Session.onNick
  repeat' split
  all_goals simp_all

/-- The step of a message of a connected Client. -/
theorem tracedStep_message {k : Tracking} {es : List (Event Bytes Bytes)}
    {q : Tracking × List (Event Bytes Bytes)} (hstate : k.session.state = .connected)
    (h : tracedStep o (k, es) (.message msg) = some q) : msg.cmd ≠ lit "005" ∧
      q = (⟨k.session.receive msg, k.tracker.msghandler o k.session msg⟩,
        es ++ [membershipEvent k.session msg]) := by
  by_cases hcmd : msg.cmd = lit "005"
  · simp [tracedStep, hcmd] at h
  · have hsame : (k.session.receive msg).state = k.session.state := by
      rw [hstate, receive_connected hstate hcmd]
    refine ⟨hcmd, ?_⟩
    simpa [tracedStep, hcmd, Tracking.step, hsame] using h.symm

/-- In a run of messages and collections of a connected Client, under one case mapping, the tracker
agrees with the reference after every step exactly when every NICK message finds the old nick in
the index, unless that nick is nowhere a member or the new one folds to it. -/
theorem membership_faithful_iff (o : TrackerOptions) (s : Session) (t : Tracker)
    (inputs : List TrackingInput) :
    Along (tracedStep o) (fun q i => ∀ q', tracedStep o q i = some q' → Faithful q')
        (tracedStart s t) inputs ↔
      Along (tracedStep o) NickFollowed (tracedStart s t) inputs := by
  let Connected (q : Tracking × List (Event Bytes Bytes)) : Prop :=
    Faithful q ∧ q.1.session.state = .connected ∧ q.1.tracker.unknownprefixes.isSome
  refine (along_iff (I := Connected) (P := Faithful) ?_ ?_ ?_ ?_).symm
  · rintro ⟨k, es⟩ i q' ⟨hfaith, hstate, hu⟩ hstep
    have hroster := faithful_iff.mp hfaith
    cases i with
    | message msg =>
      obtain ⟨hcmd, hq⟩ := tracedStep_message hstate hstep
      subst hq
      rw [faithful_iff, roster_snoc, ← hroster]
      exact (roster_msghandler_iff hu).symm
    | collect keys =>
      obtain rfl : (⟨k.session, k.tracker.collect keys⟩, es) = q' := by
        simpa [tracedStep, Tracking.step] using hstep
      exact iff_of_true trivial (faithful_iff.mpr hroster)
    | state st => cases hstep
    | setNick nick => cases hstep
  · rintro ⟨k, es⟩ i q' ⟨-, hstate, hu⟩ hstep hfaith
    refine ⟨hfaith, ?_⟩
    cases i with
    | message msg =>
      obtain ⟨hcmd, hq⟩ := tracedStep_message hstate hstep
      subst hq
      exact ⟨receive_connected hstate hcmd, unknownprefixes_msghandler hu⟩
    | collect keys =>
      obtain rfl : (⟨k.session, k.tracker.collect keys⟩, es) = q' := by
        simpa [tracedStep, Tracking.step] using hstep
      exact ⟨hstate, hu⟩
    | state st => cases hstep
    | setNick nick => cases hstep
  · rintro ⟨k, es⟩ i - hnone
    cases i with
    | message msg =>
      intro hcmd
      have h005 : ¬ msg.cmd = lit "005" := by
        rw [hcmd]
        decide
      simp [tracedStep, h005, Tracking.step] at hnone
    | collect keys => trivial
    | state st => trivial
    | setNick nick => trivial
  · refine ⟨?_, rfl, rfl⟩
    rw [faithful_iff]
    rfl

/-- `u` joins two of our channels and leaves the first. Only the member of the first had the indexed
record, so the collector may take the entry, and the next NICK is ignored. -/
theorem nick_lost_after_collection : ∃ q, run (tracedStep .default)
      (tracedStart ⟨.connected, "bot", .rfc1459, .default⟩ .new)
      [.message (heard "bot" "JOIN" ["#a"]), .message (heard "bot" "JOIN" ["#b"]),
        .message (heard "u" "JOIN" ["#a"]), .message (heard "u" "JOIN" ["#b"]),
        .message (heard "u" "PART" ["#a"]), .collect ["u"],
        .message (heard "u" "NICK" ["v"])] = some q ∧ ¬ Faithful q := by
  generalize hr : run (tracedStep .default) _ _ = r
  have hview : r.map (fun q => ((q.1.tracker.chanstates.lookup (lit "#b")).map fun chan =>
      decide (lit "v" ∈ chan.members), q.2)) = some (some false,
      [.start "#a" "bot", .start "#b" "bot", .add "#a" ["u"], .add "#b" ["u"],
        .remove "#a" "u", .rename "u" "v"]) := by
    rw [← hr]
    decide +kernel
  obtain ⟨q, rfl, hq⟩ := Option.map_eq_some_iff.mp hview
  obtain ⟨hchan, hevents⟩ := Prod.mk.inj hq
  obtain ⟨chan, hlookup, hv⟩ := Option.map_eq_some_iff.mp hchan
  refine ⟨q, rfl, ?_⟩
  intro hfaith
  obtain ⟨ns, hns, hmem⟩ := hfaith.members _ chan hlookup
  have hroster : Membership.roster q.2 (lit "#b") = some {lit "bot", lit "v"} := by
    have hnames : lit "#b" ≠ lit "#a" ∧ lit "u" ≠ lit "bot" := by decide
    rw [hevents]
    simp [Membership.roster, Roster.next, hnames, Set.image_pair, replace, hnames.2.symm,
      Set.pair_comm]
  obtain rfl := Option.some.inj (hroster.symm.trans hns)
  have hin : lit "v" ∈ chan.members := (hmem _).mpr (by simp)
  simp [hin] at hv

end TuxBot.Irc
