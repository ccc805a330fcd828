import TuxBot.Irc.AutoJoinerJoins
import TuxBot.Irc.ChannelTracker
import TuxBot.Irc.NameKeys

/-! The tables of the trackers hold folded keys only, so that to fold a key first and to look for it as
it is first come to the same. -/
namespace TuxBot.Irc

open TuxBot.Lua TuxBot.Machine NameKeys

/-- What the metatable does for each access is what `Table.get`, `Table.set` and `Table.remove` do. -/
structure NameKeys.FoldsFirst {V : Type} (lower : Bytes → Bytes) (t : Table V) : Prop where
  read : ∀ key, NameKeys.index lower t key = t.get lower key
  assign : ∀ key v, newindex lower t key (some v) = t.set lower key v
  clear : ∀ key, newindex lower t key none = t.remove lower key

/-- The case mapping changes only while it is the one of a new Client. -/
def Session.Settled (s : Session) (msg : Message) : Prop :=
  s.mapping = .rfc1459 ∨ (s.receive msg).mapping = s.mapping

namespace NameKeys

variable {V : Type} {lower : Bytes → Bytes} {t : Table V} {key old new : Bytes}

theorem foldsFirst_of_folded (h : Folded lower t) : FoldsFirst lower t :=
  ⟨fun _ => index_eq_get h, fun _ => newindex_eq_set h, fun _ => newindex_eq_remove h⟩

theorem folded_erase (h : Folded lower t) : Folded lower (t.erase key) :=
  fun k hk => h k (AList.mem_erase.mp hk).2

theorem folded_moveKey (hlower : ∀ s, lower (lower s) = lower s) (h : Folded lower t) :
    Folded lower (Tracker.moveKey lower t old new) := by
  unfold Tracker.moveKey
  split
  · exact folded_set hlower (folded_remove hlower h) _
  · exact h

theorem folded_mapVals {W : Type} {f : Bytes → V → W} (h : Folded lower t) :
    Folded lower (t.mapVals f) := by
  intro k hk
  rw [← AList.lookup_isSome, Table.lookup_mapVals, Option.isSome_map, AList.lookup_isSome] at hk
  exact h k hk

theorem lowerByte_default (m : CaseMapping) (b : UInt8) :
    m.lowerByte (CaseMapping.rfc1459.lowerByte b) = CaseMapping.rfc1459.lowerByte b := by
  revert b
  cases m <;> exact forall_byte (by decide +kernel)

/-- What the mapping of a new Client has folded, every mapping leaves as it is. -/
theorem lower_of_default (m : CaseMapping) (h : CaseMapping.rfc1459.lower key = key) :
    m.lower key = key := by
  rw [← h]
  simp only [CaseMapping.lower_eq_map, List.map_map, Function.comp_def, lowerByte_default]

theorem folded_settled {s : Session} {msg : Message} (hsettled : s.Settled msg)
    (h : Folded s.mapping.lower t) : Folded (s.receive msg).mapping.lower t := by
  rcases hsettled with hdefault | hsame
  · rw [hdefault] at h
    exact fun k hk => lower_of_default _ (h k hk)
  · rwa [hsame]

end NameKeys

/-! ### The ChannelTracker -/

namespace Tracker

/-- The keys of all tables are folded. -/
structure KeysFolded (lower : Bytes → Bytes) (t : Tracker) : Prop where
  index : Folded lower t.memberprefixes
  chans : Folded lower t.chanstates
  members : ∀ name chan, t.chanstates.lookup name = some chan → Folded lower chan.members
  unknown : ∀ known ∈ t.unknownprefixes, Folded lower known

variable {o : TrackerOptions} {lower : Bytes → Bytes} {t u : Tracker} {s : Session} {msg : Message}
  {chan : Chan} {name nick : Bytes} {p : Prefix}

theorem keysFolded_new : KeysFolded lower .new := by
  refine ⟨folded_empty, folded_empty, ?_, ?_⟩
  · intro name chan hc
    cases hc
  · intro known hknown
    cases hknown

/-- Records and events have no keys. -/
theorem keysFolded_congr (h : KeysFolded lower t) (hm : u.memberprefixes = t.memberprefixes)
    (hc : u.chanstates = t.chanstates) (hu : u.unknownprefixes = t.unknownprefixes) :
    KeysFolded lower u := by
  refine ⟨hm ▸ h.index, hc ▸ h.chans, ?_, ?_⟩
  · rw [hc]
    exact h.members
  · rw [hu]
    exact h.unknown

theorem keysFolded_trigger (h : KeysFolded lower t) (event : TrackerEvent) :
    KeysFolded lower (t.trigger event) := keysFolded_congr h rfl rfl rfl

theorem keysFolded_announce (h : KeysFolded lower t) (setting : Bool) (cmd : Bytes) :
    KeysFolded lower (t.announce s setting cmd name) := by
  unfold announce sendmessage
  repeat' split
  all_goals exact keysFolded_congr h rfl rfl rfl

theorem keysFolded_refresh (h : KeysFolded lower t) (sender : Sender) :
    KeysFolded lower (t.refresh s sender) := by
  unfold refresh
  repeat' split
  all_goals exact keysFolded_congr h rfl rfl rfl

theorem keysFolded_setChan (h : KeysFolded s.mapping.lower t)
    (hchan : Folded s.mapping.lower chan.members) : KeysFolded s.mapping.lower (t.setChan s name chan) := by
  refine ⟨h.index, folded_set s.mapping.lower_lower h.chans _, ?_, h.unknown⟩
  intro c chan' hc
  rw [setChan, Table.lookup_set] at hc
  split at hc
  · obtain rfl := Option.some.inj hc
    exact hchan
  · exact h.members c chan' hc

theorem keysFolded_indexed (h : KeysFolded s.mapping.lower t) (nick : Bytes) (p : Prefix) :
    KeysFolded s.mapping.lower (t.indexed s nick p).2 := by
  unfold indexed
  split
  · exact h
  · exact ⟨folded_set s.mapping.lower_lower h.index _, h.chans, h.members, h.unknown⟩

theorem folded_members (h : KeysFolded s.mapping.lower t) (hc : t.chan s name = some chan) :
    Folded s.mapping.lower chan.members := h.members _ chan hc

/-- A channel written back with the same members. -/
theorem keysFolded_rewrite {chan' : Chan} (h : KeysFolded s.mapping.lower t)
    (hc : t.chan s name = some chan) (hmembers : chan'.members = chan.members) :
    KeysFolded s.mapping.lower (t.setChan s name chan') :=
  keysFolded_setChan h (hmembers ▸ folded_members h hc)

theorem keysFolded_joinOwn (h : KeysFolded s.mapping.lower t) :
    KeysFolded s.mapping.lower (t.joinOwn o s name p) := by
  unfold joinOwn
  refine keysFolded_announce (keysFolded_announce (keysFolded_announce (keysFolded_trigger ?_ _) _ _)
    _ _) _ _
  exact keysFolded_setChan (keysFolded_indexed h s.nick p)
    (folded_set s.mapping.lower_lower folded_empty _)

theorem keysFolded_joinOther (h : KeysFolded s.mapping.lower t) :
    KeysFolded s.mapping.lower (t.joinOther s name p) := by
  have hlower := s.mapping.lower_lower
  unfold joinOther
  split
  · exact h
  · rename_i chan hc
    have hmembers := folded_members h hc
    have hindex : Folded s.mapping.lower
        (if (t.memberprefixes.get s.mapping.lower p.nick).isNone then
          t.memberprefixes.set s.mapping.lower p.nick t.records.length
        else t.memberprefixes) := by
      split
      · exact folded_set hlower h.index _
      · exact h.index
    refine ⟨hindex, folded_set hlower h.chans _, ?_, h.unknown⟩
    have hadded : KeysFolded s.mapping.lower (t.setChan s name
        { chan with members := chan.members.set s.mapping.lower p.nick ⟨t.records.length, "+"⟩ }) :=
      keysFolded_setChan h (folded_set hlower hmembers _)
    exact hadded.members

theorem keysFolded_onJoin (h : KeysFolded s.mapping.lower t) :
    KeysFolded s.mapping.lower (t.onJoin o s msg) := by
  unfold onJoin
  repeat' split
  all_goals first | exact h | exact keysFolded_joinOwn h | exact keysFolded_joinOther h

theorem keysFolded_leave (h : KeysFolded s.mapping.lower t) (name nick how : Bytes) :
    KeysFolded s.mapping.lower (t.leave s name nick how) := by
  have hlower := s.mapping.lower_lower
  unfold leave
  split
  · exact h
  · rename_i chan hc
    split
    · refine ⟨h.index, folded_remove hlower h.chans, ?_, h.unknown⟩
      intro c chan' hc'
      simp only [trigger, Table.lookup_remove] at hc'
      split at hc'
      · cases hc'
      · exact h.members c chan' hc'
    · exact keysFolded_trigger
        (keysFolded_setChan h (folded_remove hlower (folded_members h hc))) _

/-- A loop over the channels that updates their members. -/
theorem keysFolded_mapVals (h : KeysFolded lower t) {f : Bytes → Chan → Chan}
    (hf : ∀ name chan, Folded lower chan.members → Folded lower (f name chan).members)
    (hindex : Folded lower u.memberprefixes) (hc : u.chanstates = t.chanstates.mapVals f)
    (hu : u.unknownprefixes = t.unknownprefixes) : KeysFolded lower u := by
  refine ⟨hindex, hc ▸ folded_mapVals h.chans, ?_, ?_⟩
  · intro name chan hchan
    rw [hc, Table.lookup_mapVals] at hchan
    obtain ⟨chan', hchan', rfl⟩ := Option.map_eq_some_iff.mp hchan
    exact hf name chan' (h.members name chan' hchan')
  · rw [hu]
    exact h.unknown

theorem keysFolded_onQuit (h : KeysFolded s.mapping.lower t) :
    KeysFolded s.mapping.lower (t.onQuit s msg) := by
  unfold onQuit
  split
  · split
    · exact h
    · exact keysFolded_mapVals h (fun _ _ hm => folded_remove s.mapping.lower_lower hm) h.index rfl rfl
  · exact h

theorem keysFolded_onNick (h : KeysFolded s.mapping.lower t) :
    KeysFolded s.mapping.lower (t.onNick s msg) := by
  have hlower := s.mapping.lower_lower
  unfold onNick
  split
  · split
    · exact h
    · exact keysFolded_mapVals h (fun _ _ hm => folded_moveKey hlower hm)
        (folded_moveKey hlower h.index) rfl rfl
  · exact h

theorem keysFolded_setTopic (h : KeysFolded s.mapping.lower t) (name topic : Bytes) (changed : Bool) :
    KeysFolded s.mapping.lower (t.setTopic s name topic changed) := by
  unfold setTopic
  split
  · exact h
  · rename_i chan hc
    refine keysFolded_trigger (keysFolded_rewrite h hc ?_) _
    rfl

theorem keysFolded_on324 (h : KeysFolded s.mapping.lower t) :
    KeysFolded s.mapping.lower (t.on324 s msg) := by
  unfold on324
  split
  · split
    · exact h
    · rename_i chan hc
      refine keysFolded_trigger (keysFolded_rewrite h hc ?_) _
      rfl
  · exact h

theorem folded_char {args : List Bytes} {m : ModeScan} {char : UInt8}
    (h : Folded s.mapping.lower m.chan.members) :
    Folded s.mapping.lower (m.char s args name char).chan.members := by
  unfold ModeScan.char
  split
  · exact h
  · split
    · exact h
    · split
      · unfold ModeScan.letter
        dsimp only
        repeat' split
        all_goals first | exact h | exact folded_set s.mapping.lower_lower h _
      · exact h

theorem folded_foldl_char {args : List Bytes} (arg : Bytes) {m : ModeScan}
    (h : Folded s.mapping.lower m.chan.members) :
    Folded s.mapping.lower (arg.foldl (ModeScan.char s args name) m).chan.members := by
  induction arg generalizing m with
  | nil => exact h
  | cons char arg ih => exact ih (folded_char h)

theorem folded_scan {args : List Bytes} (n : Nat) {m : ModeScan}
    (h : Folded s.mapping.lower m.chan.members) :
    Folded s.mapping.lower (m.scan s args name n).chan.members := by
  induction n generalizing m with
  | zero => exact h
  | succ n ih =>
    unfold ModeScan.scan
    split
    · exact h
    · exact ih (folded_foldl_char _ h)

theorem keysFolded_onMode (h : KeysFolded s.mapping.lower t) :
    KeysFolded s.mapping.lower (t.onMode s msg) := by
  unfold onMode
  split
  · split
    · exact h
    · rename_i chan hc
      exact keysFolded_congr (keysFolded_setChan h (folded_scan _ (folded_members h hc))) rfl rfl rfl
  · exact h

theorem keysFolded_learn {known : Table Unit} (nick : Bytes) (h : KeysFolded s.mapping.lower t)
    (hknown : t.unknownprefixes = some known) : KeysFolded s.mapping.lower
      { t with unknownprefixes := some (known.set s.mapping.lower nick ()) } := by
  refine ⟨h.index, h.chans, h.members, fun known' hmem => ?_⟩
  obtain rfl := Option.some.inj hmem
  exact folded_set s.mapping.lower_lower (h.unknown known hknown) _

theorem keysFolded_addNames (names : List Bytes) (h : KeysFolded s.mapping.lower t) :
    KeysFolded s.mapping.lower (addNames s name names t) := by
  have hlower := s.mapping.lower_lower
  induction names generalizing t with
  | nil => exact h
  | cons member names ih =>
    cases hc : t.chan s name with
    | none => simpa [addNames, hc] using h
    | some chan =>
      have hmembers := folded_members h hc
      generalize hnick : (splitName s.isupport member).1 = nick
      cases hget : chan.members.get s.mapping.lower nick with
      | some m =>
        simp only [addNames, hc, hnick, hget]
        exact ih (keysFolded_setChan h (folded_set hlower hmembers _))
      | none =>
        by_cases hok : isnick nick
        · have hadded (m : Member) : KeysFolded s.mapping.lower
              ((t.indexed s nick ⟨nick, none, none, none⟩).2.setChan s name
                { chan with members := chan.members.set s.mapping.lower nick m }) :=
            keysFolded_setChan (keysFolded_indexed h nick _) (folded_set hlower hmembers m)
          simp only [addNames, hc, hnick, hget, hok, if_true]
          split
          · exact keysFolded_trigger (hadded _) _
          · rename_i known hknown
            exact ih (keysFolded_learn nick (keysFolded_trigger (hadded _) _) hknown)
        · simp only [addNames, hc, hnick, hget, hok]
          exact ih h

theorem keysFolded_dispatch (h : KeysFolded s.mapping.lower t) :
    KeysFolded s.mapping.lower (dispatch o t s msg) := by
  apply dispatch_cases
  · exact h
  · exact fun _ => keysFolded_onJoin h
  · exact fun _ => keysFolded_leave h
  · exact fun _ => keysFolded_onQuit h
  · exact fun _ => keysFolded_onNick h
  · exact keysFolded_setTopic h
  · exact keysFolded_onMode h
  · exact fun _ names => keysFolded_addNames names h
  · exact keysFolded_on324 h

theorem keysFolded_statehandler (h : KeysFolded lower t) (state : ClientState) :
    KeysFolded lower (t.statehandler state) := by
  unfold statehandler
  split
  · refine ⟨h.index, folded_empty, ?_, ?_⟩
    · intro name chan hc
      cases hc
    · intro known hknown
      obtain rfl := Option.some.inj hknown
      exact folded_empty
  · exact h

theorem keysFolded_collect (h : KeysFolded lower t) (keys : List Bytes) :
    KeysFolded lower (t.collect keys) := by
  refine ⟨?_, h.chans, h.members, h.unknown⟩
  refine List.foldlRecOn (motive := Folded lower) keys _ h.index fun ps hps key _ => ?_
  split
  · split
    · exact hps
    · exact folded_erase hps
  · exact hps

theorem keysFolded_settled (hsettled : s.Settled msg) (h : KeysFolded s.mapping.lower t) :
    KeysFolded (s.receive msg).mapping.lower t := by
  refine ⟨folded_settled hsettled h.index, folded_settled hsettled h.chans, ?_, ?_⟩
  · exact fun name chan hc => folded_settled hsettled (h.members name chan hc)
  · exact fun known hknown => folded_settled hsettled (h.unknown known hknown)

end Tracker

/-- The condition on an input of a run. -/
def Tracking.Settled (q : Tracking) : TrackingInput → Prop
  | .message msg => q.session.Settled msg
  | _ => True

theorem keysFolded_step {o : TrackerOptions} {q q' : Tracking} {i : TrackingInput}
    (h : q.tracker.KeysFolded q.session.mapping.lower) (hi : Tracking.Settled q i)
    (hstep : q.step o i = some q') : q'.tracker.KeysFolded q'.session.mapping.lower := by
  cases i with
  | message msg =>
    obtain rfl := Option.some.inj hstep
    have hhandled : (q.tracker.msghandler o q.session msg).KeysFolded q.session.mapping.lower :=
      Tracker.keysFolded_dispatch
        (Tracker.keysFolded_trigger (Tracker.keysFolded_refresh h msg.sender) _)
    refine Tracker.keysFolded_settled hi ?_
    dsimp only
    split
    · exact hhandled
    · exact Tracker.keysFolded_statehandler hhandled _
  | state state =>
    obtain rfl := Option.some.inj hstep
    exact Tracker.keysFolded_statehandler h state
  | setNick nick =>
    obtain rfl := Option.some.inj hstep
    exact h
  | collect keys =>
    obtain rfl := Option.some.inj hstep
    exact Tracker.keysFolded_collect h keys

/-- In a run whose case mapping is settled, all accesses to the tables of the tracker are what the model
takes them for. -/
theorem tracker_folds_first (o : TrackerOptions) (s : Session) (inputs : List TrackingInput) (q : Tracking)
    (hsettled : Along (Tracking.step o) Tracking.Settled ⟨s, .new⟩ inputs)
    (hrun : run (Tracking.step o) ⟨s, .new⟩ inputs = some q) :
    FoldsFirst q.session.mapping.lower q.tracker.memberprefixes ∧
      FoldsFirst q.session.mapping.lower q.tracker.chanstates ∧
      (∀ name chan, q.tracker.chanstates.lookup name = some chan →
        FoldsFirst q.session.mapping.lower chan.members) ∧
      ∀ known ∈ q.tracker.unknownprefixes, FoldsFirst q.session.mapping.lower known := by
  have h : q.tracker.KeysFolded q.session.mapping.lower :=
    run_keeps_along (I := fun q => q.tracker.KeysFolded q.session.mapping.lower)
      (fun _ _ _ h hi hstep => keysFolded_step h hi hstep) Tracker.keysFolded_new hsettled hrun
  refine ⟨foldsFirst_of_folded h.index, foldsFirst_of_folded h.chans, ?_, ?_⟩
  · exact fun name chan hc => foldsFirst_of_folded (h.members name chan hc)
  · exact fun known hknown => foldsFirst_of_folded (h.unknown known hknown)

/-- The server says that its mapping is `ascii`, and then there are JOINs with brackets. -/
def bracketed : List TrackingInput :=
  [.message (heard "irc" "005" ["TuxBot", "CASEMAPPING=ascii", "are supported"]),
    .message (heard "TuxBot" "JOIN" ["#Tux[1]"]), .message (heard "Ann" "JOIN" ["#tux[1]"])]

theorem tracker_folds_first_bracketed :
    ∃ q, run (Tracking.step .default) ⟨⟨.connected, "TuxBot", .rfc1459, .default⟩, .new⟩ bracketed =
        some q ∧
      q.session.mapping = .ascii ∧ (q.tracker.chanstates.lookup (lit "#tux[1]")).isSome ∧
      NameKeys.index q.session.mapping.lower q.tracker.chanstates (lit "#TUX[1]") =
        q.tracker.chan q.session (lit "#TUX[1]") := by
  let s : Session := ⟨.connected, "TuxBot", .rfc1459, .default⟩
  refine ⟨_, rfl, by decide +kernel, by decide +kernel,
    (tracker_folds_first .default s bracketed _ ?_ rfl).2.1.read _⟩
  refine along_cons (Or.inl rfl) rfl (along_cons (Or.inr ?_) rfl (along_cons (Or.inr ?_) rfl trivial))
  · decide +kernel
  · decide +kernel

/-! ### The AutoJoiner -/

namespace AutoJoiner

/-- The keys of both tables are folded. -/
structure KeysFolded (j : AutoJoiner) : Prop where
  rejoining : Folded j.session.mapping.lower j.rejoiningChannels
  on : Folded j.session.mapping.lower j.onChannels

variable {o : RejoinOptions} {j t : AutoJoiner} {channel name : Bytes} {msg : Message}

theorem keysFolded_new (s : Session) (autojoin : List Bytes) : (new s autojoin).KeysFolded := by
  refine ⟨?_, folded_empty⟩
  exact List.foldlRecOn (motive := Folded s.mapping.lower) autojoin _ folded_empty
    fun _ h _ _ => folded_set s.mapping.lower_lower h _

theorem keysFolded_congr (h : j.KeysFolded) (hm : t.session.mapping = j.session.mapping)
    (hr : t.rejoiningChannels = j.rejoiningChannels) (ho : t.onChannels = j.onChannels) :
    t.KeysFolded := by
  refine ⟨?_, ?_⟩
  · rw [hm, hr]
    exact h.rejoining
  · rw [hm, ho]
    exact h.on

theorem keysFolded_setRejoining (h : j.KeysFolded) (channel : Bytes) (info : RejoinInfo) :
    (j.setRejoining channel info).KeysFolded :=
  ⟨folded_set j.session.mapping.lower_lower h.rejoining info, h.on⟩

theorem keysFolded_removeRejoining (h : j.KeysFolded) (channel : Bytes) :
    (j.removeRejoining channel).KeysFolded :=
  ⟨folded_remove j.session.mapping.lower_lower h.rejoining, h.on⟩

theorem keysFolded_setOn (h : j.KeysFolded) (channel : Bytes) : (j.setOn channel).KeysFolded :=
  ⟨h.rejoining, folded_set j.session.mapping.lower_lower h.on ()⟩

theorem keysFolded_removeOn (h : j.KeysFolded) (channel : Bytes) : (j.removeOn channel).KeysFolded :=
  ⟨h.rejoining, folded_remove j.session.mapping.lower_lower h.on⟩

theorem keysFolded_join (h : j.KeysFolded) (channel : Bytes) : (j.join channel).KeysFolded := by
  unfold join
  split
  · exact keysFolded_congr h rfl rfl rfl
  · exact h

theorem keysFolded_cancelTimer (h : j.KeysFolded) (channel : Bytes) :
    (j.cancelTimer channel).KeysFolded := by
  unfold cancelTimer
  split
  · exact keysFolded_congr h rfl rfl rfl
  · exact h

theorem keysFolded_arm (h : j.KeysFolded) (channel name : Bytes) (interval : Option ℚ) :
    (j.arm channel name interval).KeysFolded := by
  unfold arm
  split
  · rename_i delay
    have harmed : { j with timers := j.timers.timer (j.now + delay) name }.KeysFolded :=
      keysFolded_congr h rfl rfl rfl
    exact keysFolded_setRejoining harmed channel _
  · exact h

theorem keysFolded_onMessage (h : j.KeysFolded) : (j.onMessage o msg).KeysFolded := by
  have hleft (channel : Bytes) : ((j.removeOn channel).cancelTimer channel).KeysFolded :=
    keysFolded_cancelTimer (keysFolded_removeOn h channel) channel
  unfold onMessage
  split
  · split
    · rename_i channel _ _
      unfold onJoin
      split
      · exact keysFolded_removeRejoining (keysFolded_cancelTimer (keysFolded_setOn h _) _) _
      · exact keysFolded_setOn h _
    · exact h
  · split
    · split
      · exact keysFolded_removeRejoining (hleft _) _
      · exact h
    · split
      · split
        · exact keysFolded_arm (hleft _) _ _ _
        · split
          · exact keysFolded_arm (hleft _) _ _ _
          · split
            · exact keysFolded_removeRejoining (keysFolded_cancelTimer h _) _
            · exact h
      · exact h

theorem keysFolded_onStatechanged (h : j.KeysFolded) (state : ClientState) :
    (j.onStatechanged state).KeysFolded := by
  unfold onStatechanged
  split
  · refine keysFolded_congr (j := j.rejoiningChannels.keys.foldl join j) ?_ rfl rfl rfl
    exact List.foldlRecOn (motive := KeysFolded) _ _ h fun _ hj channel _ => keysFolded_join hj channel
  · split
    · refine keysFolded_congr (j := j.onChannels.keys.foldl (fun j k => j.setRejoining k ⟨none, none⟩) j)
        ?_ rfl rfl rfl
      exact List.foldlRecOn (motive := KeysFolded) _ _ h fun _ hj channel _ =>
        keysFolded_setRejoining hj channel _
    · exact h

theorem keysFolded_hear (hsettled : j.session.Settled msg) (h : j.KeysFolded) :
    (j.hear o msg).KeysFolded := by
  have hheard : (if j.listening then j.onMessage o msg else j).KeysFolded := by
    split
    · exact keysFolded_onMessage h
    · exact h
  have hsession : (if j.listening then j.onMessage o msg else j).session = j.session := heard_session
  refine ⟨?_, ?_⟩
  · exact folded_settled hsettled (hsession ▸ hheard.rejoining)
  · exact folded_settled hsettled (hsession ▸ hheard.on)

/-- The condition on an input of a run. -/
def Settled (j : AutoJoiner) : JoinerInput → Prop
  | .message msg => j.session.Settled msg
  | _ => True

theorem keysFolded_step {i : JoinerInput} (h : j.KeysFolded) (hi : Settled j i)
    (hstep : j.step o i = some t) : t.KeysFolded := by
  cases i with
  | message msg =>
    obtain rfl := Option.some.inj hstep
    have hheard : (j.hear o msg).KeysFolded := keysFolded_hear hi h
    split
    · exact hheard
    · exact keysFolded_onStatechanged hheard _
  | state state =>
    obtain rfl := Option.some.inj hstep
    have hentered : { j with session := j.session.enter state }.KeysFolded :=
      keysFolded_congr h rfl rfl rfl
    exact keysFolded_onStatechanged hentered state
  | setNick nick =>
    obtain rfl := Option.some.inj hstep
    exact keysFolded_congr h rfl rfl rfl
  | addchannel chan =>
    obtain rfl := Option.some.inj hstep
    exact keysFolded_join (keysFolded_setRejoining h chan _) chan
  | wait seconds =>
    rw [step] at hstep
    split at hstep
    · obtain rfl := Option.some.inj hstep
      exact keysFolded_congr h rfl rfl rfl
    · cases hstep
  | fire i =>
    obtain ⟨channel, -, rfl⟩ := Option.map_eq_some_iff.mp hstep
    have hcalled : (j.timerCb channel).KeysFolded := by
      unfold timerCb
      split
      · exact keysFolded_join h channel
      · exact h
    exact keysFolded_congr hcalled rfl rfl rfl

end AutoJoiner

/-- The same of the tables of an AutoJoiner. -/
theorem joiner_folds_first (o : RejoinOptions) (s : Session) (autojoin : List Bytes)
    (inputs : List JoinerInput) (j : AutoJoiner)
    (hsettled : Along (AutoJoiner.step o) AutoJoiner.Settled (.new s autojoin) inputs)
    (hrun : run (AutoJoiner.step o) (.new s autojoin) inputs = some j) :
    FoldsFirst j.session.mapping.lower j.rejoiningChannels ∧
      FoldsFirst j.session.mapping.lower j.onChannels := by
  have h : j.KeysFolded := run_keeps_along (fun _ _ _ h hi hstep => AutoJoiner.keysFolded_step h hi hstep)
    (AutoJoiner.keysFolded_new s autojoin) hsettled hrun
  exact ⟨foldsFirst_of_folded h.rejoining, foldsFirst_of_folded h.on⟩

theorem joiner_folds_first_added :
    ∃ j, run (AutoJoiner.step .default) (.new ⟨.registering, "TuxBot", .rfc1459, .default⟩ ["#Tux"])
        [.state .connected, .addchannel "#Linux"] = some j ∧
      j.sent = [(lit "JOIN", [lit "#tux"]), (lit "JOIN", [lit "#Linux"])] ∧
      NameKeys.index j.session.mapping.lower j.rejoiningChannels (lit "#LINUX") =
        j.rejoining (lit "#LINUX") := by
  let s : Session := ⟨.registering, "TuxBot", .rfc1459, .default⟩
  refine ⟨_, rfl, by decide +kernel, (joiner_folds_first .default s ["#Tux"]
    [.state .connected, .addchannel "#Linux"] _ ?_ rfl).1.read _⟩
  exact along_cons trivial rfl (along_cons trivial rfl trivial)

end TuxBot.Irc
