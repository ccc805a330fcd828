import TuxBot.Irc.TrackerMembership

/-! The prefix records of the ChannelTracker: when all channels share the indexed one. -/
namespace TuxBot.Irc

open TuxBot.Lua TuxBot.Machine

variable {o : TrackerOptions} {s : Session} {t u : Tracker} {msg : Message} {chan : Chan}
  {k name nick old new : Bytes} {r : Nat}

/-- The nick that a record shows. -/
def Tracker.nickOf (t : Tracker) (r : Nat) : Option Bytes := (t.records[r]?).map Prefix.nick

/-- Some channel has a member under `k` that refers to `r`. -/
def Entry (t : Tracker) (k : Bytes) (r : Nat) : Prop :=
  ∃ c chan m, t.chanstates.lookup c = some chan ∧ chan.members.lookup k = some m ∧ m.record = r

/-- Every member refers to the record that the index has for its nick. -/
structure Shared (s : Session) (t : Tracker) : Prop where
  index : ∀ k r, t.memberprefixes.lookup k = some r →
    ∃ n, t.nickOf r = some n ∧ s.mapping.lower n = k
  members : ∀ k r, Entry t k r → t.memberprefixes.lookup k = some r

/-- What the members tables promise: the record of an entry shows a nick that folds to its key, the
same one in every channel. -/
structure Coherent (s : Session) (t : Tracker) : Prop where
  nick : ∀ k r, Entry t k r → ∃ n, t.nickOf r = some n ∧ s.mapping.lower n = k
  agree : ∀ k r r', Entry t k r → Entry t k r' → t.nickOf r = t.nickOf r'

theorem coherent_of_shared (h : Shared s t) : Coherent s t := by
  refine ⟨?_, ?_⟩
  · intro k r he
    exact h.index k r (h.members k r he)
  · intro k r r' he he'
    have hr := (h.members k r he).symm.trans (h.members k r' he')
    rw [Option.some.inj hr]

/-- Steps that keep the index and what the records show, and make no new entries. -/
theorem shared_of_entries (h : Shared s t) (hi : u.memberprefixes = t.memberprefixes)
    (hn : ∀ r, u.nickOf r = t.nickOf r) (he : ∀ k r, Entry u k r → Entry t k r) : Shared s u := by
  refine ⟨?_, ?_⟩
  · intro k r hk
    rw [hi] at hk
    rw [hn]
    exact h.index k r hk
  · intro k r hk
    rw [hi]
    exact h.members k r (he k r hk)

theorem entry_setChan (h : Entry (t.setChan s name chan) k r) :
    Entry t k r ∨ ∃ m, chan.members.lookup k = some m ∧ m.record = r := by
  obtain ⟨c, chan', m, hc, hm, hr⟩ := h
  rw [Tracker.setChan, Table.lookup_set] at hc
  split at hc
  · obtain rfl := Option.some.inj hc
    exact Or.inr ⟨m, hm, hr⟩
  · exact Or.inl ⟨c, chan', m, hc, hm, hr⟩

/-- The entries of `chan'` were entries of `chan`, with the same records. -/
def SameRecords (chan chan' : Chan) : Prop := ∀ k m', chan'.members.lookup k = some m' →
  ∃ m, chan.members.lookup k = some m ∧ m.record = m'.record

theorem sameRecords_of_eq {chan' : Chan} (h : chan'.members = chan.members) :
    SameRecords chan chan' := by
  intro k m hm
  exact ⟨m, h ▸ hm, rfl⟩

theorem sameRecords_trans {a b c : Chan} (hab : SameRecords a b) (hbc : SameRecords b c) :
    SameRecords a c := by
  intro k m hm
  obtain ⟨m', hm', hr⟩ := hbc k m hm
  obtain ⟨m'', hm'', hr'⟩ := hab k m' hm'
  exact ⟨m'', hm'', hr'.trans hr⟩

/-- A member of a channel gets another mode. -/
theorem sameRecords_setMode {fold : Bytes → Bytes} {m : Member} {mode : Bytes}
    (h : chan.members.get fold nick = some m) :
    SameRecords chan { chan with members := chan.members.set fold nick { m with mode } } := by
  intro k m' hm
  rw [Table.lookup_set] at hm
  split at hm
  · subst k
    obtain rfl := Option.some.inj hm
    exact ⟨m, h, rfl⟩
  · exact ⟨m', hm, rfl⟩

/-- A channel written back with entries it had. -/
theorem shared_setChan {chan' : Chan} (h : Shared s t) (hc : t.chan s name = some chan)
    (hm : SameRecords chan chan') : Shared s (t.setChan s name chan') := by
  refine shared_of_entries (t := t) h rfl (fun _ => rfl) ?_
  intro k r he
  rcases entry_setChan he with he | ⟨m', hm', rfl⟩
  · exact he
  · obtain ⟨m, hk, hr⟩ := hm k m' hm'
    exact ⟨s.mapping.lower name, chan, m, hc, hk, hr⟩

/-- A channel written back with one member more, which has the indexed record. -/
theorem shared_setChan_member (nick : Bytes) {chan' : Chan} {m : Member} (h : Shared s t)
    (hindex : t.memberprefixes.lookup (s.mapping.lower nick) = some m.record)
    (hm : ∀ k m', chan'.members.lookup k = some m' →
      (k = s.mapping.lower nick ∧ m' = m) ∨ Entry t k m'.record) :
    Shared s (t.setChan s name chan') := by
  refine ⟨h.index, ?_⟩
  intro k r he
  rcases entry_setChan he with he | ⟨m', hm', rfl⟩
  · exact h.members k r he
  · rcases hm k m' hm' with ⟨rfl, rfl⟩ | he
    · exact hindex
    · exact h.members k _ he

theorem nickOf_modify {records : List Prefix} {i : Nat} (f : Prefix → Prefix)
    (h : records = t.records.modify i f) : (({ t with records }).nickOf r) =
      if i = r then (t.records[r]?).map fun p => (f p).nick else t.nickOf r := by
  subst h
  simp only [Tracker.nickOf, List.getElem?_modify]
  cases t.records[r]? with
  | none => simp
  | some p => by_cases hi : i = r <;> simp [hi]

theorem nickOf_refresh {sender : Sender} : (t.refresh s sender).nickOf r = t.nickOf r := by
  unfold Tracker.refresh
  split
  · split
    · rw [nickOf_modify _ rfl]
      split
      · apply congrFun (congrArg Option.map _)
        funext _
        split <;> rfl
      · rfl
    · rfl
  · rfl

theorem shared_refresh {sender : Sender} (h : Shared s t) : Shared s (t.refresh s sender) := by
  apply shared_of_entries h Tracker.memberprefixes_refresh fun _ => nickOf_refresh
  rintro k r ⟨c, chan, m, hlookup, hm⟩
  exact ⟨c, chan, m, Tracker.chanstates_refresh ▸ hlookup, hm⟩

theorem nickOf_append (records : List Prefix) (h : (t.nickOf r).isSome) :
    ({ t with records := t.records ++ records }).nickOf r = t.nickOf r := by
  have hr : r < t.records.length := by
    by_contra hout
    simp [Tracker.nickOf, List.getElem?_eq_none (by omega : t.records.length ≤ r)] at h
  simp [Tracker.nickOf, List.getElem?_append_left hr]

theorem shared_log {log : List TrackerEvent} (h : Shared s t) : Shared s { t with log } :=
  ⟨h.index, h.members⟩

theorem shared_unknownprefixes {unknownprefixes : Option (Table Unit)} (h : Shared s t) :
    Shared s { t with unknownprefixes } := ⟨h.index, h.members⟩

/-- A new record under a nick that the index did not have. -/
theorem shared_insert (nick : Bytes) {p : Prefix} (h : Shared s t)
    (hp : s.mapping.lower p.nick = s.mapping.lower nick)
    (hnone : t.memberprefixes.lookup (s.mapping.lower nick) = none) :
    Shared s { t with
      records := t.records ++ [p]
      memberprefixes := t.memberprefixes.set s.mapping.lower nick t.records.length } := by
  refine ⟨?_, ?_⟩
  · intro k r hk
    rw [Table.lookup_set] at hk
    split at hk
    · obtain rfl := Option.some.inj hk
      refine ⟨p.nick, by simp [Tracker.nickOf], ?_⟩
      rw [hp]
      exact (‹k = _›).symm
    · obtain ⟨n, hn, hfold⟩ := h.index k r hk
      have hsame := nickOf_append (t := t) (r := r) [p] (by simp [hn])
      exact ⟨n, hsame.trans hn, hfold⟩
  · intro k r he
    have hk := h.members k r he
    have hne : k ≠ s.mapping.lower nick := by
      rintro rfl
      rw [hnone] at hk
      cases hk
    rw [Table.lookup_set, if_neg hne]
    exact hk

theorem shared_indexed (nick : Bytes) {p : Prefix} (h : Shared s t)
    (hp : s.mapping.lower p.nick = s.mapping.lower nick) :
    Shared s (t.indexed s nick p).2 ∧
      (t.indexed s nick p).2.memberprefixes.lookup (s.mapping.lower nick) =
        some (t.indexed s nick p).1 ∧
      (t.indexed s nick p).2.chanstates = t.chanstates := by
  unfold Tracker.indexed
  cases hget : t.memberprefixes.get s.mapping.lower nick with
  | some r => exact ⟨h, hget, rfl⟩
  | none => exact ⟨shared_insert nick h hp hget, by simp [Table.lookup_set], rfl⟩

theorem shared_announce {setting : Bool} {cmd : Bytes} (h : Shared s t) :
    Shared s (t.announce s setting cmd name) := by
  unfold Tracker.announce Tracker.sendmessage
  repeat' split
  all_goals first | exact h | exact shared_log h

/-- Our own JOIN refers to the indexed record of our nick. -/
theorem shared_joinOwn {p : Prefix} (h : Shared s t)
    (hp : s.mapping.lower p.nick = s.mapping.lower s.nick) : Shared s (t.joinOwn o s name p) := by
  obtain ⟨hindexed, hlookup, -⟩ := shared_indexed s.nick h hp
  unfold Tracker.joinOwn
  refine shared_announce (shared_announce (shared_announce (shared_log ?_)))
  apply shared_setChan_member s.nick hindexed (m := ⟨_, "+"⟩) hlookup
  intro k m' hm
  rw [Table.lookup_set] at hm
  split at hm
  · exact Or.inl ⟨‹_›, (Option.some.inj hm).symm⟩
  · cases hm

/-- Another user's JOIN, when the index does not know the nick yet. -/
theorem shared_joinOther {p : Prefix} (h : Shared s t)
    (hnone : (t.chan s name).isSome → t.memberprefixes.get s.mapping.lower p.nick = none) :
    Shared s (t.joinOther s name p) := by
  unfold Tracker.joinOther
  cases hchan : t.chan s name with
  | none => exact h
  | some chan =>
    have hget := hnone (by simp [hchan])
    have hinsert := shared_insert p.nick (p := p) h rfl hget
    simp only [hget, Option.isNone_none, if_true]
    refine shared_log (shared_setChan_member p.nick hinsert
      (m := ⟨t.records.length, "+"⟩) ?_ ?_)
    · simp [Table.lookup_set]
    · intro k m' hm
      rw [Table.lookup_set] at hm
      split at hm
      · exact Or.inl ⟨‹_›, (Option.some.inj hm).symm⟩
      · exact Or.inr ⟨s.mapping.lower name, chan, m', hchan, hm, rfl⟩

theorem lookup_of_remove {fold : Bytes → Bytes} {members : Table Member} {m : Member}
    (h : (members.remove fold nick).lookup k = some m) : members.lookup k = some m := by
  rw [Table.lookup_remove] at h
  split at h
  · cases h
  · exact h

theorem shared_leave {how : Bytes} (h : Shared s t) : Shared s (t.leave s name nick how) := by
  unfold Tracker.leave
  cases hchan : t.chan s name with
  | none => exact h
  | some chan =>
    simp only
    split
    · refine shared_of_entries (t := t) h rfl (fun _ => rfl) ?_
      rintro k r ⟨c, chan', m, hc, hm⟩
      simp only [Tracker.trigger, Table.lookup_remove] at hc
      split at hc
      · cases hc
      · exact ⟨c, chan', m, hc, hm⟩
    · refine shared_log (shared_setChan h hchan ?_)
      intro k m hm
      exact ⟨m, lookup_of_remove hm, rfl⟩

theorem shared_onQuit (h : Shared s t) : Shared s (t.onQuit s msg) := by
  unfold Tracker.onQuit
  split
  · split
    · exact h
    · refine shared_of_entries (t := t) h rfl (fun _ => rfl) ?_
      rintro k r ⟨c, chan, m, hc, hm, hr⟩
      rw [Table.lookup_mapVals] at hc
      obtain ⟨chan', hchan', rfl⟩ := Option.map_eq_some_iff.mp hc
      exact ⟨c, chan', m, hchan', lookup_of_remove hm, hr⟩
  · exact h

/-- NICK does not take a nick that is a member of some channel which the old nick is not in. -/
def NickFree (s : Session) (t : Tracker) (msg : Message) : Prop :=
  ∀ new ∈ msg.args.head?, ∀ old ∈ msg.sender.nick, ∀ c chan, t.chanstates.lookup c = some chan →
    s.mapping.lower new ∈ chan.members → s.mapping.lower old ∈ chan.members

theorem lookup_moveKey {V : Type} {fold : Bytes → Bytes} {members : Table V} {m : V}
    (h : (Tracker.moveKey fold members old new).lookup k = some m) :
    (k = fold new ∧ members.lookup (fold old) = some m) ∨
      (members.lookup k = some m ∧ ((members.lookup (fold old)).isSome →
        k ≠ fold old ∧ k ≠ fold new)) := by
  unfold Tracker.moveKey at h
  cases hget : members.get fold old with
  | none =>
    have hold : members.lookup (fold old) = none := hget
    rw [hget] at h
    exact Or.inr ⟨h, by simp [hold]⟩
  | some v =>
    rw [hget] at h
    simp only [Table.lookup_set, Table.lookup_remove] at h
    split at h
    · exact Or.inl ⟨‹_›, hget.trans h⟩
    · split at h
      · cases h
      · exact Or.inr ⟨h, fun _ => ⟨‹_›, ‹_›⟩⟩

section MoveKey

variable {V : Type} {fold : Bytes → Bytes} {members : Table V} {m : V}

theorem lookup_moveKey_new (h : members.lookup (fold old) = some m) :
    (Tracker.moveKey fold members old new).lookup (fold new) = some m := by
  have hget : members.get fold old = some m := h
  simp [Tracker.moveKey, hget, Table.lookup_set]

theorem lookup_moveKey_ne (ho : k ≠ fold old) (hn : k ≠ fold new) :
    (Tracker.moveKey fold members old new).lookup k = members.lookup k := by
  unfold Tracker.moveKey
  cases members.get fold old with
  | none => rfl
  | some m => simp [Table.lookup_set, Table.lookup_remove, ho, hn]

end MoveKey

theorem nickOf_rename {r' : Nat} (h : (t.nickOf r).isSome) :
    ({ t with records := t.records.modify r fun p => p.rename new }).nickOf r' =
      if r = r' then some new else t.nickOf r' := by
  rw [nickOf_modify _ rfl]
  split
  · subst r'
    obtain ⟨n, hn⟩ := Option.isSome_iff_exists.mp h
    obtain ⟨p, hp, -⟩ := Option.map_eq_some_iff.mp hn
    simp [hp, Prefix.rename]
  · rfl

/-- A change of nick moves the indexed record, and with it every entry that shares it. -/
theorem shared_onNick (h : Shared s t) (hfree : NickFree s t msg) : Shared s (t.onNick s msg) := by
  unfold Tracker.onNick
  cases hargs : msg.args with
  | nil => exact h
  | cons new args =>
    cases hold : msg.sender.nick with
    | none => exact h
    | some old =>
      cases hget : t.memberprefixes.get s.mapping.lower old with
      | none => simpa [hget] using h
      | some r =>
        simp only [hget]
        obtain ⟨n, hn, hfold⟩ := h.index _ r hget
        have hnew : (Tracker.moveKey s.mapping.lower t.memberprefixes old new).lookup
            (s.mapping.lower new) = some r := lookup_moveKey_new hget
        refine ⟨?_, ?_⟩
        · intro k r' hk
          show ∃ n, ({ t with records := t.records.modify r fun p => p.rename new }).nickOf r' =
            some n ∧ s.mapping.lower n = k
          rw [nickOf_rename (by simp [hn])]
          rcases lookup_moveKey hk with ⟨rfl, hr⟩ | ⟨hr, hne⟩
          · obtain rfl : r = r' := Option.some.inj (hget.symm.trans hr)
            exact ⟨new, by simp, rfl⟩
          · obtain ⟨n', hn', hfold'⟩ := h.index k r' hr
            have hrr : r ≠ r' := by
              rintro rfl
              have hsame : n = n' := Option.some.inj (hn.symm.trans hn')
              subst hsame
              exact (hne (Option.isSome_of_mem hget)).1 (hfold'.symm.trans hfold)
            exact ⟨n', by simpa [hrr] using hn', hfold'⟩
        · rintro k r' ⟨c, chan', m, hc, hm, rfl⟩
          rw [Table.lookup_mapVals] at hc
          obtain ⟨chan, hchan, rfl⟩ := Option.map_eq_some_iff.mp hc
          rcases lookup_moveKey hm with ⟨rfl, hr⟩ | ⟨hr, hne⟩
          · have hindex := h.members _ _ ⟨c, chan, m, hchan, hr, rfl⟩
            exact hnew.trans (hget.symm.trans hindex)
          · have hindex := h.members _ _ ⟨c, chan, m, hchan, hr, rfl⟩
            by_cases hin : (chan.members.lookup (s.mapping.lower old)).isSome
            · obtain ⟨ho, hn⟩ := hne hin
              exact (lookup_moveKey_ne ho hn).trans hindex
            · have ho : k ≠ s.mapping.lower old := by
                rintro rfl
                exact hin (Option.isSome_of_mem hr)
              have hn : k ≠ s.mapping.lower new := by
                rintro rfl
                have hmem : s.mapping.lower new ∈ chan.members :=
                  AList.lookup_isSome.mp (Option.isSome_of_mem hr)
                have hback := hfree new (by simp [hargs]) old (by simp [hold]) c chan hchan hmem
                exact hin (AList.lookup_isSome.mpr hback)
              exact (lookup_moveKey_ne ho hn).trans hindex

theorem sameRecords_letter {args : List Bytes} {m : Tracker.ModeScan} {char : UInt8} :
    SameRecords m.chan (m.letter s args name char).chan := by
  unfold Tracker.ModeScan.letter
  simp only
  split
  · split
    · exact sameRecords_of_eq rfl
    · split
      · exact sameRecords_of_eq rfl
      · exact sameRecords_setMode ‹_›
  · exact sameRecords_of_eq rfl

theorem sameRecords_foldl {args : List Bytes} (arg : Bytes) (m : Tracker.ModeScan) :
    SameRecords m.chan (arg.foldl (Tracker.ModeScan.char s args name) m).chan := by
  induction arg generalizing m with
  | nil => exact sameRecords_of_eq rfl
  | cons char arg ih =>
    have hchar : SameRecords m.chan (m.char s args name char).chan := by
      unfold Tracker.ModeScan.char
      repeat' split
      all_goals first | exact sameRecords_of_eq rfl | exact sameRecords_letter
    exact sameRecords_trans hchar (ih _)

theorem sameRecords_scan {args : List Bytes} (n : Nat) (m : Tracker.ModeScan) :
    SameRecords m.chan (m.scan s args name n).chan := by
  induction n generalizing m with
  | zero => exact sameRecords_of_eq rfl
  | succ n ih =>
    unfold Tracker.ModeScan.scan
    split
    · exact sameRecords_of_eq rfl
    · exact sameRecords_trans (sameRecords_foldl _ { m with positive := true }) (ih _)

theorem shared_onMode (h : Shared s t) : Shared s (t.onMode s msg) := by
  unfold Tracker.onMode
  split
  · split
    · exact h
    · exact shared_log (shared_setChan h ‹_› (sameRecords_scan _ _))
  · exact h

theorem shared_setTopic {topic : Bytes} {changed : Bool} (h : Shared s t) :
    Shared s (t.setTopic s name topic changed) := by
  unfold Tracker.setTopic
  split
  · exact h
  · rename_i chan hchan
    exact shared_log (shared_setChan h hchan (sameRecords_of_eq rfl))

theorem shared_on324 (h : Shared s t) : Shared s (t.on324 s msg) := by
  unfold Tracker.on324
  split
  · split
    · exact h
    · rename_i chan hchan
      exact shared_log (shared_setChan h hchan (sameRecords_of_eq rfl))
  · exact h

/-- NAMES takes the indexed record of each nick, and makes one where there is none. -/
theorem shared_addNames (names : List Bytes) (h : Shared s t) :
    Shared s (Tracker.addNames s name names t) := by
  induction names generalizing t with
  | nil => exact h
  | cons member names ih =>
    cases hchan : t.chan s name with
    | none => simpa [Tracker.addNames, hchan] using h
    | some chan =>
      generalize hnick : (Tracker.splitName s.isupport member).1 = nick
      cases hget : chan.members.get s.mapping.lower nick with
      | some m =>
        simp only [Tracker.addNames, hchan, hnick, hget]
        exact ih (shared_setChan h hchan (sameRecords_setMode hget))
      | none =>
        by_cases hok : isnick nick
        · obtain ⟨hindexed, hlookup, hchans⟩ :=
            shared_indexed nick (p := ⟨nick, none, none, none⟩) h rfl
          have hadd (m : Member) (hr : m.record =
              (t.indexed s nick ⟨nick, none, none, none⟩).1) : Shared s
              ((t.indexed s nick ⟨nick, none, none, none⟩).2.setChan s name
                { chan with members := chan.members.set s.mapping.lower nick m }) := by
            apply shared_setChan_member nick hindexed (hr ▸ hlookup)
            intro k m' hm
            rw [Table.lookup_set] at hm
            split at hm
            · exact Or.inl ⟨‹_›, (Option.some.inj hm).symm⟩
            · exact Or.inr ⟨s.mapping.lower name, chan, m', hchans ▸ hchan, hm, rfl⟩
          simp only [Tracker.addNames, hchan, hnick, hget, hok, if_true]
          split
          · exact shared_log (hadd _ rfl)
          · exact ih (shared_unknownprefixes (shared_log (hadd _ rfl)))
        · simp only [Tracker.addNames, hchan, hnick, hget, hok]
          exact ih h

/-- Another user's JOIN to a tracked channel finds no indexed record for the nick. -/
def JoinUnindexed (s : Session) (t : Tracker) (msg : Message) : Prop :=
  ∀ name ∈ msg.args.head?, ∀ nick ∈ msg.sender.nick, s.mapping.nameeq s.nick nick = false →
    (t.chan s name).isSome → t.memberprefixes.get s.mapping.lower nick = none

theorem shared_onJoin (h : Shared s t) (hjoin : JoinUnindexed s t msg) :
    Shared s (t.onJoin o s msg) := by
  unfold Tracker.onJoin
  cases hargs : msg.args with
  | nil => exact h
  | cons name args =>
    cases hnick : msg.sender.nick with
    | none => exact h
    | some nick =>
      simp only
      split
      · by_cases hown : s.mapping.nameeq s.nick nick
        · rw [if_pos hown]
          exact shared_joinOwn h ((CaseMapping.nameeq_iff ..).mp hown).symm
        · rw [if_neg hown]
          apply shared_joinOther h
          exact hjoin name (by simp [hargs]) nick (by simp [hnick]) (Bool.eq_false_iff.mpr hown)
      · exact h

/-- The two messages that may break the sharing, and when they do not. -/
def SharesMessage (s : Session) (t : Tracker) (msg : Message) : Prop :=
  (msg.cmd = lit "JOIN" → JoinUnindexed s t msg) ∧ (msg.cmd = lit "NICK" → NickFree s t msg)

theorem shared_dispatch (h : Shared s t) (hm : SharesMessage s t msg) :
    Shared s (t.dispatch o s msg) := by
  exact Tracker.dispatch_cases h (fun hjoin => shared_onJoin h (hm.1 hjoin))
    (fun _ _ _ _ => shared_leave h)
    (fun _ => shared_onQuit h) (fun hnick => shared_onNick h (hm.2 hnick))
    (fun _ _ _ => shared_setTopic h) (shared_onMode h) (fun _ names => shared_addNames names h)
    (shared_on324 h)

theorem mem_entries_of_lookup {V : Type} {table : Table V} {v : V} (h : table.lookup k = some v) :
    ⟨k, v⟩ ∈ table.entries := AList.mem_lookup_iff.mp h

theorem collect_cons_kept {key : Bytes} {keys : List Bytes}
    (h : ∀ record, t.memberprefixes.lookup key = some record → t.referenced record = true) :
    t.collect (key :: keys) = t.collect keys := by
  cases hkey : t.memberprefixes.lookup key with
  | none => simp [Tracker.collect, hkey]
  | some record => simp [Tracker.collect, hkey, h record hkey]

theorem collect_cons_erased {key : Bytes} {keys : List Bytes} {record : Nat}
    (hkey : t.memberprefixes.lookup key = some record) (h : t.referenced record = false) :
    t.collect (key :: keys) =
      { t with memberprefixes := t.memberprefixes.erase key }.collect keys := by
  simp only [Tracker.collect, List.foldl_cons, hkey, h]
  rfl

/-- The collector adds nothing and leaves the records that members refer to. -/
theorem lookup_collect (keys : List Bytes) :
    (∀ k r, (t.collect keys).memberprefixes.lookup k = some r →
      t.memberprefixes.lookup k = some r) ∧
    (∀ k r, t.memberprefixes.lookup k = some r → t.referenced r = true →
      (t.collect keys).memberprefixes.lookup k = some r) := by
  induction keys generalizing t with
  | nil => exact ⟨fun _ _ h => h, fun _ _ h _ => h⟩
  | cons key keys ih =>
    by_cases hkept : ∀ record, t.memberprefixes.lookup key = some record →
        t.referenced record = true
    · rw [collect_cons_kept hkept]
      exact ih
    · push Not at hkept
      obtain ⟨record, hkey, href⟩ := hkept
      have hfalse : t.referenced record = false := by simpa using href
      rw [collect_cons_erased hkey hfalse]
      obtain ⟨hsub, hkeep⟩ := ih (t := { t with memberprefixes := t.memberprefixes.erase key })
      refine ⟨fun k r hk => ?_, fun k r hk hr => ?_⟩
      · have herase : (t.memberprefixes.erase key).lookup k = some r := hsub k r hk
        have hne : k ≠ key := by
          rintro rfl
          simp at herase
        rwa [AList.lookup_erase_ne hne] at herase
      · have hne : k ≠ key := by
          rintro rfl
          obtain rfl := Option.some.inj (hkey.symm.trans hk)
          exact href hr
        exact hkeep k r ((AList.lookup_erase_ne hne).trans hk) hr

theorem shared_collect {keys : List Bytes} (h : Shared s t) : Shared s (t.collect keys) := by
  obtain ⟨hsub, hkeep⟩ := lookup_collect (t := t) keys
  refine ⟨?_, ?_⟩
  · intro k r hk
    exact h.index k r (hsub k r hk)
  · rintro k r ⟨c, chan, m, hc, hm, rfl⟩
    apply hkeep k m.record (h.members k m.record ⟨c, chan, m, hc, hm, rfl⟩)
    simp only [Tracker.referenced, List.any_eq_true]
    exact ⟨⟨c, chan⟩, mem_entries_of_lookup hc, ⟨k, m⟩, mem_entries_of_lookup hm, by simp⟩

theorem shared_statehandler {state : ClientState} (h : Shared s t) :
    Shared s (t.statehandler state) := by
  unfold Tracker.statehandler
  split
  · refine shared_of_entries (t := t) h rfl (fun _ => rfl) ?_
    rintro k r ⟨c, chan, m, hc, -⟩
    simp at hc
  · exact h

/-- Another session under the same case mapping reads the tables alike. -/
theorem shared_mapping {s' : Session} (h : Shared s t) (hm : s'.mapping = s.mapping) :
    Shared s' t := by
  refine ⟨?_, h.members⟩
  rw [hm]
  exact h.index

/-- The case mapping stays, a JOIN of another user finds no indexed record, and no NICK takes a
member's nick. -/
def Shares (q : Tracking) : TrackingInput → Prop
  | .message msg => (q.session.receive msg).mapping = q.session.mapping ∧
    SharesMessage q.session q.tracker msg
  | _ => True

/-- Reading the sender's address changes no nick and no table. -/
theorem sharesMessage_refresh {sender : Sender} {event : TrackerEvent}
    (h : SharesMessage s t msg) : SharesMessage s ((t.refresh s sender).trigger event) msg := by
  have hi : ((t.refresh s sender).trigger event).memberprefixes = t.memberprefixes :=
    Tracker.memberprefixes_refresh
  have hc : ((t.refresh s sender).trigger event).chanstates = t.chanstates :=
    Tracker.chanstates_refresh
  unfold SharesMessage JoinUnindexed NickFree Tracker.chan at h ⊢
  rwa [hi, hc]

theorem shared_step {q q' : Tracking} {i : TrackingInput} (h : Shared q.session q.tracker)
    (hi : Shares q i) (hstep : q.step o i = some q') : Shared q'.session q'.tracker := by
  cases i with
  | message msg =>
    obtain rfl := Option.some.inj hstep
    obtain ⟨hmap, hshares⟩ := hi
    have htracker : Shared q.session (q.tracker.msghandler o q.session msg) :=
      shared_dispatch (shared_log (shared_refresh h)) (sharesMessage_refresh hshares)
    apply shared_mapping _ hmap
    simp only
    split
    · exact htracker
    · exact shared_statehandler htracker
  | state state =>
    obtain rfl := Option.some.inj hstep
    exact shared_mapping (shared_statehandler h) rfl
  | setNick nick =>
    obtain rfl := Option.some.inj hstep
    exact shared_mapping h rfl
  | collect keys =>
    obtain rfl := Option.some.inj hstep
    exact shared_collect h

/-- After a change of nick the moved entries show the new nick. -/
theorem nickOf_onNick {args : List Bytes} {c : Bytes} (h : Shared s t)
    (hargs : msg.args = new :: args) (hold : msg.sender.nick = some old)
    (hc : t.chanstates.lookup c = some chan) (hin : s.mapping.lower old ∈ chan.members) :
    ∃ chan' m, (t.onNick s msg).chanstates.lookup c = some chan' ∧
      chan'.members.lookup (s.mapping.lower new) = some m ∧
      (t.onNick s msg).nickOf m.record = some new := by
  obtain ⟨m, hm⟩ := Option.isSome_iff_exists.mp (AList.lookup_isSome.mpr hin)
  have hget : t.memberprefixes.get s.mapping.lower old = some m.record :=
    h.members _ _ ⟨c, chan, m, hc, hm, rfl⟩
  have hmget : chan.members.get s.mapping.lower old = some m := hm
  obtain ⟨n, hn, -⟩ := h.index _ _ hget
  obtain ⟨p, hp, -⟩ := Option.map_eq_some_iff.mp hn
  let members := Tracker.moveKey s.mapping.lower chan.members old new
  refine ⟨{ chan with members }, m, ?_, ?_, ?_⟩
  · simp [Tracker.onNick, hargs, hold, hget, Table.lookup_mapVals, hc, members]
  · simp [members, Tracker.moveKey, hmget, Table.lookup_set]
  · simp [Tracker.onNick, hargs, hold, hget, Tracker.nickOf, hp, Prefix.rename]

/-- In every run that meets the condition the members tables keep their promise, and a change of
nick shows in every channel. -/
theorem records_coherent (o : TrackerOptions) (s : Session) (inputs : List TrackingInput)
    (q : Tracking) (hrun : run (Tracking.step o) ⟨s, .new⟩ inputs = some q)
    (hshares : Along (Tracking.step o) Shares ⟨s, .new⟩ inputs) :
    Coherent q.session q.tracker ∧
      ∀ (msg : Message) (new old : Bytes) (args : List Bytes) (c : Bytes) (chan : Chan),
        msg.args = new :: args → msg.sender.nick = some old →
        q.tracker.chanstates.lookup c = some chan → q.session.mapping.lower old ∈ chan.members →
        ∃ chan' m, (q.tracker.onNick q.session msg).chanstates.lookup c = some chan' ∧
          chan'.members.lookup (q.session.mapping.lower new) = some m ∧
          (q.tracker.onNick q.session msg).nickOf m.record = some new := by
  have hstart : Shared s .new := by
    refine ⟨?_, ?_⟩
    · intro k r hk
      simp [Tracker.new] at hk
    · rintro k r ⟨c, chan, m, hc, -⟩
      simp [Tracker.new] at hc
  have hq : Shared q.session q.tracker :=
    run_keeps_along (I := fun q => Shared q.session q.tracker)
      (fun _ _ _ h hi hs => shared_step h hi hs) hstart hshares hrun
  refine ⟨coherent_of_shared hq, ?_⟩
  intro msg new old args c chan hargs hold hc hin
  exact nickOf_onNick hq hargs hold hc hin

instance decidableNickFree (s : Session) (t : Tracker) (msg : Message) : Decidable (NickFree s t msg) :=
  decidable_of_iff (∀ new ∈ msg.args.head?, ∀ old ∈ msg.sender.nick, ∀ entry ∈ t.chanstates.entries,
      s.mapping.lower new ∈ entry.2.members → s.mapping.lower old ∈ entry.2.members) (by
    constructor
    · intro h new hnew old hold c chan hc
      exact h new hnew old hold ⟨c, chan⟩ (mem_entries_of_lookup hc)
    · rintro h new hnew old hold ⟨c, chan⟩ hentry
      exact h new hnew old hold c chan (AList.mem_lookup_iff.mpr hentry))

instance decidableJoinUnindexed (s : Session) (t : Tracker) (msg : Message) :
    Decidable (JoinUnindexed s t msg) :=
  inferInstanceAs (Decidable (∀ name ∈ _, ∀ nick ∈ msg.sender.nick, _ → _ → _ = none))

instance decidableShares (q : Tracking) : ∀ i, Decidable (Shares q i)
  | .message _ => inferInstanceAs (Decidable (_ ∧ (_ → _) ∧ (_ → _)))
  | .state _ => isTrue trivial
  | .setNick _ => isTrue trivial
  | .collect _ => isTrue trivial

/-- The bot is in two channels with Ann and Bob, Cat joins one of them, and Bob changes his nick. -/
def twoChannels : List TrackingInput :=
  [.message (heard "bot" "JOIN" ["#a"]), .message (heard "bot" "JOIN" ["#b"]),
    .message (heard "irc.net" "353" ["bot", "=", "#a", "bot @Ann +Bob"]),
    .message (heard "irc.net" "353" ["bot", "=", "#b", "bot Ann Bob"]),
    .message (heard "Cat" "JOIN" ["#b"]), .collect ["cat", "dan"], .message (heard "Bob" "NICK" ["Rob"])]

/-- The new nicks of Bob, and then of Ann, show in both channels. -/
theorem records_coherent_join : ∃ q, run (Tracking.step .default)
      ⟨⟨.connected, "bot", .rfc1459, .default⟩, .new⟩ twoChannels = some q ∧
    Coherent q.session q.tracker ∧ ∀ c ∈ [lit "#a", lit "#b"], ∃ chan m,
      (q.tracker.onNick q.session (heard "Ann" "NICK" ["Anna"])).chanstates.lookup c = some chan ∧
        chan.members.lookup (q.session.mapping.lower "Anna") = some m ∧
        (q.tracker.onNick q.session (heard "Ann" "NICK" ["Anna"])).nickOf m.record = some "Anna" := by
  generalize hs : (⟨.connected, "bot", .rfc1459, .default⟩ : Session) = s
  have hview : ((run (Tracking.step .default) ⟨s, .new⟩ twoChannels).map fun q =>
      [lit "#a", lit "#b"].all fun c => (q.tracker.chanstates.lookup c).any fun chan =>
        decide (q.session.mapping.lower "Ann" ∈ chan.members)) = some true := by
    rw [← hs]
    decide +kernel
  obtain ⟨q, hq, hall⟩ := Option.map_eq_some_iff.mp hview
  have hshares : Along (Tracking.step .default) Shares ⟨s, .new⟩ twoChannels := by
    rw [← hs]
    decide +kernel
  obtain ⟨hcoherent, hnick⟩ := records_coherent .default s twoChannels q hq hshares
  refine ⟨q, hq, hcoherent, fun c hc => ?_⟩
  obtain ⟨chan, hchan, hin⟩ := (Option.any_eq_true ..).mp (List.all_eq_true.mp hall c hc)
  exact hnick _ _ _ [] c chan rfl rfl hchan (of_decide_eq_true hin)

/-- `u` joins two channels: the second gets a record of its own, and the change of nick misses it. -/
theorem second_join_keeps_old_nick : ∃ q, run (Tracking.step .default)
      ⟨⟨.connected, "bot", .rfc1459, .default⟩, .new⟩
      [.message (heard "bot" "JOIN" ["#a"]), .message (heard "bot" "JOIN" ["#b"]),
        .message (heard "u" "JOIN" ["#a"]), .message (heard "u" "JOIN" ["#b"]),
        .message (heard "u" "NICK" ["v"])] = some q ∧ ¬ Coherent q.session q.tracker := by
  generalize hr : run (Tracking.step .default) _ _ = r
  have hview : (r.bind fun q => (q.tracker.chanstates.lookup (lit "#b")).bind fun chan =>
      (chan.members.lookup (lit "v")).map fun m => (q.session.mapping, q.tracker.nickOf m.record)) =
      some (.rfc1459, some (lit "u")) := by
    rw [← hr]
    decide +kernel
  obtain ⟨q, rfl, hq⟩ := Option.bind_eq_some_iff.mp hview
  obtain ⟨chan, hchan, hc⟩ := Option.bind_eq_some_iff.mp hq
  obtain ⟨m, hm, hshown⟩ := Option.map_eq_some_iff.mp hc
  obtain ⟨hmap, hnick⟩ := Prod.mk.inj hshown
  refine ⟨q, rfl, ?_⟩
  intro hcoherent
  obtain ⟨n, hn, hfold⟩ := hcoherent.nick (lit "v") m.record ⟨lit "#b", chan, m, hchan, hm, rfl⟩
  obtain rfl := Option.some.inj (hnick.symm.trans hn)
  rw [hmap] at hfold
  exact absurd hfold (by decide +kernel)

/-- While every member has the indexed record, no collection makes a NICK message unreadable. -/
theorem nickIndexed_of_shared (h : Shared s t) : NickIndexed s t msg := by
  intro _ new _ old _
  cases hget : t.memberprefixes.get s.mapping.lower old with
  | some r => exact Or.inl rfl
  | none =>
    refine Or.inr (Or.inr ?_)
    intro c chan hc hin
    obtain ⟨m, hm⟩ := Option.isSome_iff_exists.mp (AList.lookup_isSome.mpr hin)
    have hindex : t.memberprefixes.lookup (s.mapping.lower old) = some m.record :=
      h.members _ _ ⟨c, chan, m, hc, hm, rfl⟩
    have hnone : t.memberprefixes.lookup (s.mapping.lower old) = none := hget
    rw [hnone] at hindex
    cases hindex

end TuxBot.Irc
