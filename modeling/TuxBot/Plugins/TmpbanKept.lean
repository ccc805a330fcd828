import TuxBot.Plugins.TmpbanOnce

/-! When the bans of the tmpban plugin are not forgotten, whatever states the Client passes through. -/
namespace TuxBot.Plugins.Tmpban

open TuxBot.Lua TuxBot.Irc TuxBot.Machine

/-- What happens to the plugin, and the states that its Client enters in the meantime. -/
inductive Occasion where
  | plugin (i : Input)
  | enter (state : ClientState)

def advance (s : Tmpban) : Occasion → Option Tmpban
  | .plugin i => s.step i
  | .enter state => some { s with session := s.session.enter state }

def ban (chan mask : Bytes) : Bytes × List Bytes := ("MODE", [chan, "+b", mask])
def unban (chan mask : Bytes) : Bytes × List Bytes := ("MODE", [chan, "-b", mask])

/-- A live timer will lift the ban. -/
def Pending (timers : Timers Callback) (chan mask : Bytes) : Prop :=
  ∃ t ∈ timers, t.pending = true ∧ t.running = true ∧ t.callback = .unban chan mask

/-- Every ban that was sent has been lifted since, or a live timer will lift it. -/
def Kept (s : Tmpban) : Prop :=
  ∀ chan mask before after, s.sent = before ++ ban chan mask :: after →
    unban chan mask ∈ after ∨ Pending s.timers chan mask

/-- An `a` that no `b` follows. -/
def Unanswered {α : Type} (a b : α) (xs : List α) : Prop :=
  ∃ before after, xs = before ++ a :: after ∧ b ∉ after

def Outstanding (s : Tmpban) (chan mask : Bytes) : Prop :=
  Unanswered (ban chan mask) (unban chan mask) s.sent

/-- A timer that lifts a ban runs out while the Client takes messages, or when nothing is left to lift,
or when another timer lifts the same ban. And when a reply finds requests whose seconds are no number,
a timer lifts the ban of the first of them already. -/
def Liftable (s : Tmpban) : Occasion → Prop
  | .plugin (.fire k) => ∀ chan mask, s.timers.due s.now k = some (.unban chan mask) →
      s.CanSend ∨ (s.Outstanding chan mask → Pending (s.timers.expire k) chan mask)
  | .plugin (.message msg pairs) => ∀ host nick channels w, whoreply msg = some (host, nick) →
      s.waitingForWhoreply.lookup (s.key nick) = some channels → s.CanSend →
      (pairs.1 (channels.entries.map Sigma.snd)).find? (fun w => w.time.seconds.isNone) = some w →
      Pending s.timers w.name (mask host)
  | _ => True

/-- An entry is stored under its own name. -/
def Named (s : Tmpban) : Prop := ∀ key chan w, s.entry key chan = some w → w.name = chan

variable {s t : Tmpban} {o : Occasion} {nick host c m : Bytes} {w : Waiting}
  {as : List Answer} {timers timers' : Timers Callback}

/-! ### What was asked and not answered -/

theorem unanswered_concat {α : Type} {a b x : α} {xs : List α} :
    Unanswered a b (xs ++ [x]) ↔ x = a ∨ (x ≠ b ∧ Unanswered a b xs) := by
  constructor
  · rintro ⟨before, after, hsplit, hb⟩
    rcases after.eq_nil_or_concat with rfl | ⟨after, y, rfl⟩
    · exact Or.inl (by simpa using (List.append_inj' hsplit rfl).2)
    · rw [List.concat_eq_append, ← List.cons_append, ← List.append_assoc] at hsplit
      obtain ⟨hxs, hy⟩ := List.append_inj' hsplit rfl
      obtain rfl : x = y := by simpa using hy
      simp only [List.concat_eq_append, List.mem_append, List.mem_singleton, not_or] at hb
      exact Or.inr ⟨Ne.symm hb.2, before, after, hxs, hb.1⟩
  · rintro (rfl | ⟨hx, before, after, rfl, hb⟩)
    · exact ⟨xs, [], rfl, List.not_mem_nil⟩
    · refine ⟨before, after ++ [x], by simp, ?_⟩
      simpa [hb] using Ne.symm hx

theorem kept_iff : Kept s ↔ ∀ c m, s.Outstanding c m → Pending s.timers c m := by
  constructor
  · rintro h c m ⟨before, after, hsplit, hb⟩
    exact (h c m before after hsplit).resolve_left hb
  · intro h c m before after hsplit
    by_cases hb : unban c m ∈ after
    · exact Or.inl hb
    · exact Or.inr (h c m ⟨before, after, hsplit, hb⟩)

/-- Only what was sent and the timers count. -/
theorem kept_congr (hsent : t.sent = s.sent) (htimers : t.timers = s.timers) : Kept t ↔ Kept s := by
  rw [Kept, Kept, hsent, htimers]

theorem outstanding_send {x : Bytes × List Bytes} : (s.send x).Outstanding c m ↔
    x = ban c m ∨ (x ≠ unban c m ∧ s.Outstanding c m) := unanswered_concat

/-- What neither bans nor lifts a ban leaves the bans as they are. -/
theorem outstanding_send_other {x : Bytes × List Bytes} (hban : x ≠ ban c m)
    (hunban : x ≠ unban c m) :
    (s.send x).Outstanding c m ↔ s.Outstanding c m := by
  simp [outstanding_send, hban, hunban]

theorem ban_inj {c' m' : Bytes} : ban c' m' = ban c m ↔ c' = c ∧ m' = m := by simp [ban]

theorem unban_inj {c' m' : Bytes} : unban c' m' = unban c m ↔ c' = c ∧ m' = m := by
  simp [unban]

theorem ban_ne_unban {c' m' : Bytes} : ban c' m' ≠ unban c m := by
  intro h
  have hsign := congrArg (fun x => x.2[1]?) h
  exact absurd hsign (by decide : ¬ some (lit "+b") = some (lit "-b"))

theorem ne_of_cmd {x : Bytes × List Bytes} (h : x.1 ≠ lit "MODE") :
    x ≠ ban c m ∧ x ≠ unban c m :=
  ⟨fun he => h (congrArg Prod.fst he), fun he => h (congrArg Prod.fst he)⟩

theorem outstanding_strike : (s.strike nick host w).Outstanding c m ↔
    (w.name = c ∧ mask host = m) ∨ s.Outstanding c m := by
  have hkick : (lit "KICK", [w.name, nick, w.msg]).1 ≠ lit "MODE" := by
    change lit "KICK" ≠ lit "MODE"
    decide
  obtain ⟨hban, hunban⟩ := ne_of_cmd (c := c) (m := m) hkick
  have hmode : s.send ("MODE", [w.name, "+b", mask host]) =
      s.send (ban w.name (mask host)) := rfl
  rw [strike, outstanding_send_other hban hunban, hmode, outstanding_send, ban_inj]
  simp [ban_ne_unban]

/-! ### The timers that will lift a ban -/

theorem pending_append : Pending (timers ++ timers') c m ↔
    Pending timers c m ∨ Pending timers' c m := by
  simp only [Pending, List.mem_append, or_and_right, exists_or]

theorem pending_answers : Pending (as.map Answer.timer) c m ↔
    ∃ a ∈ as, a.channel.name = c ∧ mask a.host = m := by
  constructor
  · rintro ⟨t, ht, -, -, hcallback⟩
    obtain ⟨a, ha, rfl⟩ := List.mem_map.mp ht
    cases hcallback
    exact ⟨a, ha, rfl, rfl⟩
  · rintro ⟨a, ha, rfl, rfl⟩
    exact ⟨a.timer, List.mem_map_of_mem ha, rfl, rfl, rfl⟩

/-- The timer of a request lifts no ban. -/
theorem pending_discard {time : ℚ} {n : Nat} {key chan : Bytes} :
    Pending (timers.timer time (.discard n key chan)) c m ↔ Pending timers c m := by
  have hnone : ¬ Pending [⟨time, true, true, .discard n key chan⟩] c m := by
    rintro ⟨t, ht, -, -, hcallback⟩
    rw [List.mem_singleton.mp ht] at hcallback
    cases hcallback
  rw [Timers.timer, pending_append, or_iff_left hnone]

/-- A timer that runs out is the only one that is lost. -/
theorem pending_expire {k : Nat} {callback : Callback} {now : ℚ}
    (hdue : timers.due now k = some callback) (hother : callback ≠ .unban c m) :
    Pending (timers.expire k) c m ↔ Pending timers c m := by
  obtain ⟨timer, hlive, -, hcallback⟩ := Timers.live_of_due hdue
  obtain ⟨hget, -⟩ := Option.filter_eq_some_iff.mp hlive
  constructor
  · rintro ⟨t, ht, hpending, hrunning, hlifts⟩
    obtain ⟨j, hj⟩ := List.mem_iff_getElem?.mp ht
    rw [Timers.getElem?_expire] at hj
    split at hj
    · obtain ⟨u, -, rfl⟩ := Option.map_eq_some_iff.mp hj
      cases hpending
    · exact ⟨t, List.mem_iff_getElem?.mpr ⟨j, hj⟩, hpending, hrunning, hlifts⟩
  · rintro ⟨t, ht, hpending, hrunning, hlifts⟩
    obtain ⟨j, hj⟩ := List.mem_iff_getElem?.mp ht
    have hkj : k ≠ j := by
      rintro rfl
      obtain rfl := Option.some.inj (hget.symm.trans hj)
      exact hother (hcallback.symm.trans hlifts)
    refine ⟨t, List.mem_iff_getElem?.mpr ⟨j, ?_⟩, hpending, hrunning, hlifts⟩
    rw [Timers.getElem?_expire, if_neg hkj, hj]

/-! ### What the calls keep -/

/-- Every answer makes the timer that its ban needs. -/
theorem kept_serve (h : Kept s) : Kept (s.serve as) := by
  induction as using List.reverseRecOn with
  | nil => simpa [serve] using h
  | append_singleton as a ih =>
    have hlast : s.serve (as ++ [a]) = { (s.serve as).strike a.nick a.host a.channel with
        timers := (s.serve as).timers ++ [a.timer]
        answers := s.answers ++ (as ++ [a]) } := by
      simp [serve, strike, send, Answer.messages]
    rw [hlast, kept_iff]
    intro c m hout
    rw [pending_append]
    have hstrike : ((s.serve as).strike a.nick a.host a.channel).Outstanding c m := hout
    rcases outstanding_strike.mp hstrike with hsame | hbefore
    · exact Or.inr (pending_answers.mpr ⟨a, List.mem_singleton_self a, hsame⟩)
    · exact Or.inl (kept_iff.mp ih c m hbefore)

theorem kept_strike (h : Kept s) :
    Kept (s.strike nick host w) ↔ Pending s.timers w.name (mask host) := by
  rw [kept_iff]
  constructor
  · intro hkept
    exact hkept _ _ (outstanding_strike.mpr (Or.inl ⟨rfl, rfl⟩))
  · intro hpending c m hout
    rcases outstanding_strike.mp hout with ⟨rfl, rfl⟩ | hbefore
    · exact hpending
    · exact kept_iff.mp h c m hbefore

theorem kept_ask {msg : Bytes} {time : Duration} (h : Kept s) : Kept (s.ask chan nick msg time) := by
  rw [kept_iff]
  intro c m hout
  have hwho : (lit "WHO", [nick]).1 ≠ lit "MODE" := by
    change lit "WHO" ≠ lit "MODE"
    decide
  obtain ⟨hban, hunban⟩ := ne_of_cmd (c := c) (m := m) hwho
  have hbefore : s.Outstanding c m := (outstanding_send_other hban hunban).mp hout
  exact pending_discard.mpr (kept_iff.mp h c m hbefore)

/-! ### What the calls do when the Client takes no messages -/

theorem tmpban_refused {chan : Bytes} {time : Duration} {message : Option Bytes} (h : ¬ s.CanSend) :
    ((tmpban chan nick time message).pcall s).2 =
      s.store (s.key nick) chan (banmsg time message) time := by
  have hstored : ¬ (s.store (s.key nick) chan (banmsg time message) time).CanSend := h
  obtain ⟨e, he⟩ := sendmessage_raises "WHO" [nick] hstored
  have hset : (set (s.store (s.key nick) chan (banmsg time message) time) :
      Eff Tmpban PUnit) s = .ok ⟨⟩ (s.store (s.key nick) chan (banmsg time message) time) :=
    rfl
  rw [Eff.pcall, tmpban, Eff.get_bind_eq, Eff.bind_of_ok hset]
  simp only [Eff.bind_of_error he]

/-- A reply is lost, unless nothing waits under its key. -/
theorem msgcallback_refused (order : List Waiting → List Waiting) {msg : Message}
    {channels : Table Waiting} (h : ¬ s.CanSend) (hreply : whoreply msg = some (host, nick))
    (hl : s.waitingForWhoreply.lookup (s.key nick) = some channels) :
    ((msgcallback order msg).pcall s).2 = s ∨ ((msgcallback order msg).pcall s).2 =
      { s with waitingForWhoreply := s.waitingForWhoreply.erase (s.key (mask nick)) } := by
  rw [Eff.pcall, msgcallback_reply hreply hl]
  cases order (channels.entries.map Sigma.snd) with
  | nil => exact Or.inr rfl
  | cons w ws =>
    obtain ⟨e, he⟩ := punish_refused nick host w h
    have hloop : (w :: ws).forM (punish nick host) s = .error e s := by
      change (punish nick host w >>= fun _ => ws.forM (punish nick host)) s = _
      simp only [Eff.bind_of_error he]
    left
    simp only [Eff.bind_of_error hloop]

/-! ### The names of the entries -/

theorem named_congr (h : Named s) (hentries : t.waitingForWhoreply = s.waitingForWhoreply) :
    Named t := by
  intro key chan w hw
  rw [entry, hentries] at hw
  exact h key chan w hw

theorem named_store {key chan msg : Bytes} {time : Duration} (h : Named s) :
    Named (s.store key chan msg time) := by
  intro k c w hw
  rw [entry_store] at hw
  split at hw
  · rename_i hkc
    cases hw
    exact hkc.2.symm
  · exact h k c w hw

theorem named_erase {key : Bytes} (h : Named s) :
    Named { s with waitingForWhoreply := s.waitingForWhoreply.erase key } := by
  intro k c w hw
  rw [entry_erase] at hw
  split at hw
  · cases hw
  · exact h k c w hw

theorem named_discard {key chan : Bytes} (h : Named s) : Named (s.discard key chan) := by
  intro k c w hw
  rw [entry_discard] at hw
  split at hw
  · cases hw
  · exact h k c w hw

/-- Entries under one key have different names. -/
theorem nodup_names {channels : Table Waiting} {key : Bytes} (h : Named s)
    (hl : s.waitingForWhoreply.lookup key = some channels) :
    ((channels.entries.map Sigma.snd).map Waiting.name).Nodup := by
  have hnames : (channels.entries.map Sigma.snd).map Waiting.name =
      channels.entries.map Sigma.fst := by
    rw [List.map_map]
    refine List.map_congr_left fun x hx => ?_
    refine h key x.1 x.2 ?_
    simpa [entry, hl] using AList.mem_lookup_iff.mpr hx
  rw [hnames]
  exact channels.nodupKeys

/-! ### Every run -/

/-- The message of the first request whose seconds are no number. -/
theorem kept_raise {before after : List Waiting} (h : Kept s)
    (hnames : ((before ++ w :: after).map Waiting.name).Nodup) :
    Kept ((s.serve (before.map fun w => w.answer s nick host)).strike nick host w) ↔
      Pending s.timers w.name (mask host) := by
  rw [kept_strike (kept_serve h)]
  change Pending (s.timers ++ _) _ _ ↔ _
  rw [pending_append, or_iff_left]
  intro hnew
  obtain ⟨a, ha, hname, -⟩ := pending_answers.mp hnew
  obtain ⟨b, hb, rfl⟩ := List.mem_map.mp ha
  rw [List.map_append, List.map_cons, List.nodup_append'] at hnames
  exact hnames.2.2 (List.mem_map_of_mem hb) (hname ▸ List.mem_cons_self)

/-- A reply for a nick that has entries: the ban of the first request without a duration is set, and
its timer never made. -/
theorem liftable_reply {msg : Message} {pairs : Traversal} {channels : Table Waiting} (hn : Named s)
    (h : Kept s) (hreply : whoreply msg = some (host, nick))
    (hl : s.waitingForWhoreply.lookup (s.key nick) = some channels) (hsend : s.CanSend)
    (ht : t = ((msgcallback pairs.1 msg).pcall s).2) :
    Named t ∧ (Liftable s (.plugin (.message msg pairs)) ↔ Kept t) := by
  subst ht
  have hnames : ((pairs.1 (channels.entries.map Sigma.snd)).map Waiting.name).Nodup :=
    ((pairs.2 _).map Waiting.name).nodup_iff.mpr (nodup_names hn hl)
  have hliftable : Liftable s (.plugin (.message msg pairs)) ↔
      ∀ w, (pairs.1 (channels.entries.map Sigma.snd)).find?
        (fun w => w.time.seconds.isNone) = some w → Pending s.timers w.name (mask host) := by
    constructor
    · intro ha w hw
      exact ha host nick channels w hreply hl hsend hw
    · rintro ha host' nick' channels' w hreply' hl' - hw
      cases hreply.symm.trans hreply'
      cases hl.symm.trans hl'
      exact ha w hw
  rw [hliftable]
  cases hfind : (pairs.1 (channels.entries.map Sigma.snd)).find?
      (fun w => w.time.seconds.isNone) with
  | none =>
    have hseconds : ∀ w ∈ pairs.1 (channels.entries.map Sigma.snd), w.time.seconds.isSome :=
      fun w hw => by simpa [Option.ne_none_iff_isSome] using List.find?_eq_none.mp hfind w hw
    rw [msgcallback_serves hsend hreply hl hseconds]
    refine ⟨named_erase hn, iff_of_true (fun w hw => by cases hw) ?_⟩
    exact (kept_congr rfl rfl).mpr (kept_serve h)
  | some w =>
    obtain ⟨hnone, before, after, hsplit, hb⟩ := List.find?_eq_some_iff_append.mp hfind
    have hbefore : ∀ b ∈ before, b.time.seconds.isSome := fun b hmem => by simpa using hb b hmem
    rw [msgcallback_raises hsend hreply hl hsplit hbefore (by simpa using hnone),
      kept_raise h (hsplit ▸ hnames)]
    refine ⟨named_congr hn rfl, ?_⟩
    simp

theorem liftable_message {msg : Message} {pairs : Traversal} (hn : Named s) (h : Kept s)
    (hstep : s.step (.message msg pairs) = some t) :
    Named t ∧ (Liftable s (.plugin (.message msg pairs)) ↔ Kept t) := by
  obtain rfl := Option.some.inj hstep
  by_cases hskip : ∀ host nick, whoreply msg = some (host, nick) →
      s.waitingForWhoreply.lookup (s.key nick) = none
  · have hsession : ∀ host nick, whoreply msg = some (host, nick) →
        ({ s with session := s.session.receive msg }).waitingForWhoreply.lookup
          ({ s with session := s.session.receive msg }.key nick) = none := by
      intro host nick hreply
      rw [receive_whoreply hreply]
      exact hskip host nick hreply
    rw [msgcallback_skip hsession]
    refine ⟨named_congr hn rfl, iff_of_true ?_ ((kept_congr rfl rfl).mpr h)⟩
    intro host nick channels w hreply hl
    rw [hskip host nick hreply] at hl
    cases hl
  · push Not at hskip
    obtain ⟨host, nick, hreply, hsome⟩ := hskip
    obtain ⟨channels, hl⟩ := Option.ne_none_iff_exists'.mp hsome
    rw [receive_whoreply hreply]
    by_cases hsend : s.CanSend
    · exact liftable_reply hn h hreply hl hsend rfl
    · have hliftable : Liftable s (.plugin (.message msg pairs)) := by
        intro _ _ _ _ _ _ hsend'
        exact absurd hsend' hsend
      rcases msgcallback_refused pairs.1 hsend hreply hl with hsame | hsame
      · rw [hsame]
        exact ⟨hn, iff_of_true hliftable h⟩
      · rw [hsame]
        exact ⟨named_erase hn, iff_of_true hliftable ((kept_congr rfl rfl).mpr h)⟩

/-- A timer that runs out takes its ban with it, unless the Client lets it be lifted. -/
theorem liftable_fire {k : Nat} (hn : Named s) (h : Kept s) (hstep : s.step (.fire k) = some t) :
    Named t ∧ (Liftable s (.plugin (.fire k)) ↔ Kept t) := by
  obtain ⟨callback, hdue, rfl⟩ := Option.map_eq_some_iff.mp hstep
  cases callback with
  | discard n key chan =>
    have hcall : ((Callback.discard n key chan).call.pcall s).2 = s.discard key chan := rfl
    rw [hcall]
    refine ⟨named_congr (named_discard hn) rfl, iff_of_true (by simp [Liftable, hdue]) ?_⟩
    rw [discard_eq, kept_iff]
    intro c m hout
    exact (pending_expire hdue (by simp)).mpr (kept_iff.mp h c m hout)
  | unban chan mask =>
    have hother : ∀ c m, s.Outstanding c m → (chan ≠ c ∨ mask ≠ m) →
        Pending (s.timers.expire k) c m := by
      intro c m hout hne
      refine (pending_expire hdue ?_).mpr (kept_iff.mp h c m hout)
      rintro ⟨⟩
      exact hne.elim (fun hc => hc rfl) fun hm => hm rfl
    by_cases hsend : s.CanSend
    · have hcall : ((Callback.unban chan mask).call.pcall s).2 = s.send (unban chan mask) := by
        rw [Callback.call, Eff.pcall, sendmessage_eq hsend]
        rfl
      rw [hcall]
      refine ⟨named_congr hn rfl, iff_of_true (fun _ _ _ => Or.inl hsend) ?_⟩
      rw [kept_iff]
      intro c m hout
      rcases outstanding_send.mp hout with hban | ⟨hne, hbefore⟩
      · exact absurd hban.symm ban_ne_unban
      · refine hother c m hbefore ?_
        rw [Ne, unban_inj, not_and_or] at hne
        exact hne
    · have hcall : ((Callback.unban chan mask).call.pcall s).2 = s := by
        obtain ⟨e, he⟩ := sendmessage_raises "MODE" [chan, "-b", mask] hsend
        rw [Callback.call, Eff.pcall, he]
      rw [hcall]
      refine ⟨named_congr hn rfl, ?_⟩
      rw [kept_iff]
      constructor
      · intro hl c m hout
        by_cases hsame : chan = c ∧ mask = m
        · obtain ⟨rfl, rfl⟩ := hsame
          exact (hl chan mask hdue).resolve_left hsend hout
        · exact hother c m hout (not_and_or.mp hsame)
      · rintro hkept c m hdue'
        exact Or.inr fun hout => hkept c m hout

/-- A step keeps the bans exactly when it lets what runs out be lifted. -/
theorem liftable_step (hn : Named s) (h : Kept s) (hstep : advance s o = some t) :
    Named t ∧ (Liftable s o ↔ Kept t) := by
  cases o with
  | enter state =>
    obtain rfl := Option.some.inj hstep
    exact ⟨named_congr hn rfl, iff_of_true trivial ((kept_congr rfl rfl).mpr h)⟩
  | plugin i =>
    cases i with
    | request chan nick time message =>
      obtain rfl := Option.some.inj hstep
      by_cases hsend : s.CanSend
      · rw [tmpban_eq hsend]
        exact ⟨named_congr (named_store hn) rfl, iff_of_true trivial (kept_ask h)⟩
      · rw [tmpban_refused hsend]
        exact ⟨named_store hn, iff_of_true trivial ((kept_congr rfl rfl).mpr h)⟩
    | message msg pairs => exact liftable_message hn h hstep
    | wait seconds =>
      obtain ⟨-, ⟨⟩⟩ := Option.ite_none_right_eq_some.mp hstep
      exact ⟨named_congr hn rfl, iff_of_true trivial ((kept_congr rfl rfl).mpr h)⟩
    | fire k => exact liftable_fire hn h hstep

theorem liftable_of_stuck (hstep : advance s o = none) : Liftable s o := by
  cases o with
  | enter state => cases hstep
  | plugin i =>
    cases i with
    | request chan nick time message => cases hstep
    | message msg pairs => cases hstep
    | wait seconds => trivial
    | fire k =>
      have hdue := Option.map_eq_none_iff.mp hstep
      simp [Liftable, hdue]

/-- No ban is forgotten after any step of a run exactly when every timer that runs out can lift its ban,
and no ban is sent for which no timer can be made. -/
theorem bans_kept_iff (client : Bytes) (session : Session) (now : ℚ) (occasions : List Occasion) :
    Along advance (fun s o => ∀ t, advance s o = some t → Kept t) (start client session now)
        occasions ↔
      Along advance Liftable (start client session now) occasions := by
  have hstart : Named (start client session now) ∧ Kept (start client session now) := by
    refine ⟨nofun, fun chan mask before after hsplit => ?_⟩
    simp [start] at hsplit
  exact (along_iff (I := fun s => Named s ∧ Kept s)
    (fun s o t h hstep => (liftable_step h.1 h.2 hstep).2)
    (fun s o t h hstep hkept => ⟨(liftable_step h.1 h.2 hstep).1, hkept⟩)
    (fun s o _ hstep => liftable_of_stuck hstep) hstart).symm

/-- Eve's ban runs out while the Client reconnects. -/
def bannedThenAway : List Occasion :=
  [.plugin (.request "#tux" "Eve" oneMinute none), .plugin (.message eveReply inOrder),
    .enter .reconnecting, .plugin (.wait 60), .plugin (.fire 1), .enter .connecting,
    .enter .registering, .enter .connected]

/-- The timer is gone and the ban is not lifted. -/
theorem ban_forgotten : ∃ t,
    run advance (start "client" tmpbanSession 0) bannedThenAway = some t ∧
      t.session.state = .connected ∧ ban "#tux" "*!*@evil.example" ∈ t.sent ∧
      unban "#tux" "*!*@evil.example" ∉ t.sent ∧ ¬ Kept t := by
  have hstates : (run advance (start "client" tmpbanSession 0) bannedThenAway).map
      (fun t => t.session.state) = some .connected := by
    decide +kernel
  have hrun : (run advance (start "client" tmpbanSession 0) bannedThenAway).map
        (fun t => (t.sent, t.timers.map fun t => (t.pending, t.callback))) =
      some ([(lit "WHO", [lit "Eve"]), ban "#tux" "*!*@evil.example",
        (lit "KICK", [lit "#tux", lit "Eve", lit "Temporary ban: 60 seconds"])],
        [(true, .discard 0 "client eve" "#tux"), (false, .unban "#tux" "*!*@evil.example")]) := by
    decide +kernel
  obtain ⟨t, ht, hseen⟩ := Option.map_eq_some_iff.mp hrun
  obtain ⟨hsent, htimers⟩ := Prod.mk.inj hseen
  have hstate : t.session.state = .connected := by simpa [ht] using hstates
  refine ⟨t, ht, hstate, ?_, ?_, ?_⟩
  · rw [hsent]
    decide
  · rw [hsent]
    decide
  · intro hkept
    have hsplit : t.sent = [(lit "WHO", [lit "Eve"])] ++ ban "#tux" "*!*@evil.example" ::
        [(lit "KICK", [lit "#tux", lit "Eve", lit "Temporary ban: 60 seconds"])] := hsent
    rcases hkept _ _ _ _ hsplit with hlifted | ⟨timer, htimer, hpending, -, hcallback⟩
    · exact absurd hlifted (by decide)
    · have hmem : (timer.pending, timer.callback) ∈ t.timers.map fun t => (t.pending, t.callback) :=
        List.mem_map_of_mem htimer
      rw [htimers, hpending, hcallback] at hmem
      exact absurd hmem (by decide)

end TuxBot.Plugins.Tmpban
