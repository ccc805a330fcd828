import TuxBot.Plugins.Tmpban

/-! When the tmpban plugin executes every request once. -/
namespace TuxBot.Plugins.Tmpban

open TuxBot.Lua TuxBot.Irc TuxBot.Machine

variable {s t : Tmpban} {i : Input} {nick host chan : Bytes} {w : Waiting}
  {n : Nat} {as : List Answer}

/-! ### What was sent and scheduled -/

theorem matched_start {client : Bytes} {session : Session} {now : ℚ} :
    Matched (start client session now) where
  caused := nofun
  sent := rfl
  scheduled := rfl
  running := nofun
  lifted := List.Perm.refl _

/-- A request adds nothing that punishes or lifts. -/
theorem matched_ask {msg : Bytes} {time : Duration} (h : Matched s) : Matched (s.ask chan nick msg time) where
  caused := by
    intro a ha
    obtain ⟨r, hr, hsame⟩ := h.caused a ha
    exact ⟨r, (List.getElem?_append_left (List.getElem?_eq_some_iff.mp hr).1).trans hr, hsame⟩
  sent := by
    have hwho : punishes (lit "WHO", [nick]) = false := rfl
    simpa [ask, send, store, List.filter_append, hwho] using h.sent
  scheduled := by
    simpa [ask, send, store, Timers.timer, List.filterMap_append, List.filterMap_cons, lifting]
      using h.scheduled
  running := by
    intro t ht
    rcases List.mem_append.mp ht with ht | ht
    · exact h.running t ht
    · rw [List.mem_singleton.mp ht]
  lifted := by
    have hwho : lifts (lit "WHO", [nick]) = false := rfl
    simpa [ask, send, store, Timers.timer, List.filter_append, List.filterMap_append,
      List.filterMap_cons, hwho, Tmpban.lifted] using h.lifted

theorem messages_punish : ∀ as : List Answer,
    (as.flatMap Answer.messages).filter punishes = as.flatMap Answer.messages := by
  intro as
  rw [List.filter_eq_self]
  intro x hx
  obtain ⟨a, -, hx⟩ := List.mem_flatMap.mp hx
  rcases List.mem_pair.mp hx with rfl | rfl <;> rfl

theorem messages_lift : ∀ as : List Answer, (as.flatMap Answer.messages).filter lifts = [] := by
  intro as
  rw [List.filter_eq_nil_iff]
  intro x hx
  obtain ⟨a, -, hx⟩ := List.mem_flatMap.mp hx
  rcases List.mem_pair.mp hx with rfl | rfl <;> exact Bool.false_ne_true

/-- An answer sends its pair and makes its timer. -/
theorem matched_serve (h : Matched s) (hcaused : ∀ a ∈ as, ∃ r,
    s.requests[a.channel.request]? = some r ∧ r.chan = a.channel.name ∧
      r.time.seconds = some a.seconds) :
    Matched (s.serve as) where
  caused := by
    intro a ha
    rcases List.mem_append.mp ha with ha | ha
    · exact h.caused a ha
    · exact hcaused a ha
  sent := by
    simp only [serve, List.filter_append, List.flatMap_append, h.sent, messages_punish]
  scheduled := by
    have hnew : (as.map Answer.timer).filterMap lifting = as.map fun a =>
        (a.used + a.seconds, a.channel.name, mask a.host) := by
      simp [List.filterMap_map, lifting, Answer.timer, Function.comp_def]
    simp only [serve, List.filterMap_append, List.map_append, h.scheduled, hnew]
  running := by
    intro t ht
    rcases List.mem_append.mp ht with ht | ht
    · exact h.running t ht
    · obtain ⟨a, -, rfl⟩ := List.mem_map.mp ht
      rfl
  lifted := by
    have hnew : (as.map Answer.timer).filterMap Tmpban.lifted = [] := by
      simp [List.filterMap_map, Tmpban.lifted, Answer.timer, Function.comp_def]
    simpa only [serve, List.filter_append, List.filterMap_append, messages_lift, hnew,
      List.append_nil] using h.lifted

/-- A timer that runs out sends what it lifts. -/
theorem matched_fire {k : Nat} {timer : Timer Callback} (h : Matched s)
    (hlive : s.timers.live k = some timer) : Matched
      { s with
        sent := s.sent ++ (lifted { timer with pending := false }).toList
        timers := s.timers.expire k } := by
  obtain ⟨hget, hrun⟩ := Option.filter_eq_some_iff.mp hlive
  obtain ⟨hk, hat⟩ := List.getElem?_eq_some_iff.mp hget
  obtain ⟨before, a, after, hsplit, hlen, hexpired⟩ :=
    List.exists_of_modify (fun t : Timer Callback => { t with pending := false }) hk
  obtain rfl : a = timer := by
    subst hlen
    simpa [hsplit] using hat
  have hpending : a.pending = true := by
    simp only [Bool.and_eq_true] at hrun
    exact hrun.1
  have hcalled : ∀ x ∈ (lifted { a with pending := false }).toList,
      punishes x = false ∧ lifts x = true := by
    intro x hx
    cases hcallback : a.callback with
    | discard request key chan => simp [lifted, hcallback] at hx
    | unban chan mask =>
      obtain rfl : x = _ := by simpa [lifted, hcallback] using hx
      exact ⟨rfl, rfl⟩
  refine ⟨h.caused, ?_, ?_, ?_, ?_⟩
  · have hnone : (lifted { a with pending := false }).toList.filter punishes = [] := by
      rw [List.filter_eq_nil_iff]
      intro x hx
      rw [(hcalled x hx).1]
      exact Bool.false_ne_true
    simp only [List.filter_append, hnone, List.append_nil, h.sent]
  · have hscheduled := h.scheduled
    rw [hsplit] at hscheduled
    rw [Timers.expire, hexpired]
    simpa [List.filterMap_append, List.filterMap_cons, lifting] using hscheduled
  · intro t ht
    rw [Timers.expire, hexpired] at ht
    have hold := h.running
    rw [hsplit] at hold
    rcases List.mem_append.mp ht with ht | ht
    · exact hold t (List.mem_append_left _ ht)
    rcases List.mem_cons.mp ht with rfl | ht
    · exact hold a (by simp)
    · exact hold t (by simp [ht])
  · have hlifted := h.lifted
    rw [hsplit] at hlifted
    have hwaits : lifted a = none := by simp [lifted, hpending]
    rw [Timers.expire, hexpired, List.filter_append, List.filter_eq_self.mpr fun x hx => (hcalled x hx).2]
    rw [List.filterMap_append, List.filterMap_cons, hwaits, ← List.filterMap_append] at hlifted
    refine (hlifted.append_right _).trans ?_
    cases hnew : lifted { a with pending := false } with
    | none => simp [List.filterMap_append, hnew]
    | some x =>
      simp only [List.filterMap_append, List.filterMap_cons, hnew, Option.toList_some]
      exact (List.perm_append_singleton x _).trans List.perm_middle.symm

/-! ### What every run keeps -/

structure Coherent (s : Tmpban) : Prop where
  state : s.session.state = .connected
  stored : ∀ key chan w, s.entry key chan = some w → ∃ r, s.requests[w.request]? = some r ∧
    r.key = key ∧ r.chan = chan ∧ r.time = w.time ∧ w.name = chan
  armed : ∀ t ∈ s.timers, ∀ n key chan, t.callback = .discard n key chan →
    ∃ r, s.requests[n]? = some r ∧ t.time = r.made + 15
  matched : Matched s

theorem coherent_start {client : Bytes} {session : Session} {now : ℚ}
    (h : session.state = .connected) : Coherent (start client session now) where
  state := h
  stored := nofun
  armed := nofun
  matched := matched_start

theorem getElem?_request {r r' : Request} {requests : List Request} (h : requests[n]? = some r) :
    (requests ++ [r'])[n]? = some r :=
  (List.getElem?_append_left (List.getElem?_eq_some_iff.mp h).1).trans h

theorem request_cases {r r' : Request} {requests : List Request}
    (h : (requests ++ [r'])[n]? = some r) :
    requests[n]? = some r ∨ (n = requests.length ∧ r = r') := by
  rcases Nat.lt_or_ge n requests.length with hlt | hge
  · exact Or.inl ((List.getElem?_append_left hlt).symm.trans h)
  · rw [List.getElem?_append_right hge, List.getElem?_singleton] at h
    obtain ⟨hn, ⟨⟩⟩ := Option.ite_none_right_eq_some.mp h
    exact Or.inr ⟨by omega, rfl⟩

theorem coherent_ask {msg : Bytes} {time : Duration} (h : Coherent s) :
    Coherent (s.ask chan nick msg time) where
  state := h.state
  stored := by
    intro k c w hw
    rw [show (s.ask chan nick msg time).entry k c = _ from entry_store] at hw
    split at hw
    · rename_i hkc
      obtain ⟨rfl, rfl⟩ := hkc
      cases hw
      exact ⟨⟨s.key nick, c, time, s.now⟩, List.getElem?_concat_length, rfl, rfl, rfl, rfl⟩
    · obtain ⟨r, hr, hsame⟩ := h.stored k c w hw
      exact ⟨r, getElem?_request hr, hsame⟩
  armed := by
    intro t ht n key c hcallback
    rcases List.mem_append.mp ht with ht | ht
    · obtain ⟨r, hr, htime⟩ := h.armed t ht n key c hcallback
      exact ⟨r, getElem?_request hr, htime⟩
    · rw [List.mem_singleton.mp ht] at hcallback ⊢
      cases hcallback
      exact ⟨⟨s.key nick, chan, time, s.now⟩, List.getElem?_concat_length, rfl⟩
  matched := matched_ask h.matched

/-- The answers that a reply leads to serve requests. -/
theorem caused_of_stored {ws : List Waiting} (h : Coherent s)
    (hws : ∀ w ∈ ws, ∃ key chan, s.entry key chan = some w)
    (hseconds : ∀ w ∈ ws, w.time.seconds.isSome) :
    ∀ a ∈ ws.map fun w => w.answer s nick host, ∃ r,
      s.requests[a.channel.request]? = some r ∧ r.chan = a.channel.name ∧
        r.time.seconds = some a.seconds := by
  intro a ha
  obtain ⟨w, hw, rfl⟩ := List.mem_map.mp ha
  obtain ⟨key, c, hentry⟩ := hws w hw
  obtain ⟨r, hr, -, hchan, htime, hname⟩ := h.stored key c w hentry
  obtain ⟨seconds, hw'⟩ := Option.isSome_iff_exists.mp (hseconds w hw)
  exact ⟨r, hr, hchan.trans hname.symm, by simp [htime, Waiting.answer, hw']⟩

theorem coherent_serve {ws : List Waiting} {key : Bytes} (h : Coherent s)
    (hws : ∀ w ∈ ws, ∃ key chan, s.entry key chan = some w)
    (hseconds : ∀ w ∈ ws, w.time.seconds.isSome) :
    Coherent { s.serve (ws.map fun w => w.answer s nick host) with
      waitingForWhoreply := s.waitingForWhoreply.erase key } where
  state := h.state
  stored := by
    intro k c w hw
    have hentry : (if k = key then none else s.entry k c) = some w := entry_erase.symm.trans hw
    split at hentry
    · cases hentry
    · exact h.stored k c w hentry
  armed := by
    intro t ht n k c hcallback
    rcases List.mem_append.mp ht with ht | ht
    · exact h.armed t ht n k c hcallback
    · obtain ⟨a, -, rfl⟩ := List.mem_map.mp ht
      cases hcallback
  matched := by
    have hserved : Matched (s.serve (ws.map fun w => w.answer s nick host)) :=
      matched_serve h.matched (caused_of_stored h hws hseconds)
    exact ⟨hserved.caused, hserved.sent, hserved.scheduled, hserved.running, hserved.lifted⟩

theorem mem_expire {k : Nat} {timers : Timers Callback} {t : Timer Callback}
    (h : t ∈ timers.expire k) : ∃ u ∈ timers, t.callback = u.callback ∧ t.time = u.time := by
  obtain ⟨j, hj⟩ := List.mem_iff_getElem?.mp h
  rw [Timers.getElem?_expire] at hj
  split at hj
  · obtain ⟨u, hu, rfl⟩ := Option.map_eq_some_iff.mp hj
    exact ⟨u, List.mem_iff_getElem?.mpr ⟨j, hu⟩, rfl, rfl⟩
  · exact ⟨t, List.mem_iff_getElem?.mpr ⟨j, hj⟩, rfl, rfl⟩

theorem coherent_lift {k : Nat} {c m : Bytes} (h : Coherent s)
    (hdue : s.timers.due s.now k = some (.unban c m)) :
    Coherent { s.send ("MODE", [c, "-b", m]) with timers := s.timers.expire k } := by
  obtain ⟨timer, hlive, -, hcallback⟩ := Timers.live_of_due hdue
  have hfired := matched_fire h.matched hlive
  simp only [lifted, hcallback, Option.toList_some] at hfired
  refine ⟨h.state, h.stored, ?_, hfired⟩
  intro t ht
  obtain ⟨u, hu, hsame, htime⟩ := mem_expire ht
  rw [hsame, htime]
  exact h.armed u hu

/-- Discarding changes the table and nothing else. -/
theorem discard_eq (s : Tmpban) (key chan : Bytes) : s.discard key chan =
    { s with waitingForWhoreply := (s.discard key chan).waitingForWhoreply } := by
  unfold discard
  split
  · split <;> rfl
  · rfl

theorem coherent_discard {k : Nat} {key : Bytes} (h : Coherent s)
    (hdue : s.timers.due s.now k = some (.discard n key chan)) :
    Coherent { s.discard key chan with timers := (s.discard key chan).timers.expire k } := by
  obtain ⟨timer, hlive, -, hcallback⟩ := Timers.live_of_due hdue
  have hfired := matched_fire h.matched hlive
  simp only [lifted, hcallback, Option.toList_none, List.append_nil] at hfired
  have hentry : ∀ k c, (s.discard key chan).entry k c =
      if k = key ∧ c = chan then none else s.entry k c := fun _ _ => entry_discard
  rw [discard_eq] at hentry ⊢
  refine ⟨h.state, ?_, ?_, ⟨hfired.caused, hfired.sent, hfired.scheduled, hfired.running,
    hfired.lifted⟩⟩
  · intro k c w hw
    have hold := (hentry k c).symm.trans hw
    split at hold
    · cases hold
    · exact h.stored k c w hold
  · intro t ht
    obtain ⟨u, hu, hsame, htime⟩ := mem_expire ht
    rw [hsame, htime]
    exact h.armed u hu

/-! ### When a step keeps the bans to one each -/

theorem answered_serve (ws : List Waiting) :
    (s.serve (ws.map fun w => w.answer s nick host)).Answered n ↔
      s.Answered n ∨ ∃ w ∈ ws, w.request = n := by
  simp only [Answered, serve, List.mem_append, or_and_right, exists_or, List.mem_map]
  constructor
  · rintro (h | ⟨a, ⟨w, hw, rfl⟩, ha⟩)
    · exact Or.inl h
    · exact Or.inr ⟨w, hw, ha⟩
  · rintro (h | ⟨w, hw, hn⟩)
    · exact Or.inl h
    · exact Or.inr ⟨_, ⟨w, hw, rfl⟩, hn⟩

/-- What is known of a request stays so. -/
theorem settled_mono (hanswers : s.answers ⊆ t.answers)
    (hrequests : ∀ r, s.requests[n]? = some r → t.requests[n]? = some r) (hnow : s.now ≤ t.now)
    (h : s.Settled n) : t.Settled n := by
  rcases h with ⟨a, ha, hn⟩ | ⟨r, hr, hmade⟩
  · exact Or.inl ⟨a, hanswers ha, hn⟩
  · exact Or.inr ⟨r, hrequests r hr, hmade.trans hnow⟩

/-- A request may be stored where nothing waits. -/
theorem executedOnce_ask {msg : Bytes} {time : Duration} (h : Coherent s) (ho : ExecutedOnce s) :
    ExecutedOnce (s.ask chan nick msg time) ↔
      ∀ w, s.entry (s.key nick) chan = some w → s.Settled w.request := by
  have hentry : ∀ k c, (s.ask chan nick msg time).entry k c = if k = s.key nick ∧ c = chan then
      some ⟨chan, msg, time, s.requests.length⟩ else s.entry k c := fun _ _ => entry_store
  constructor
  · intro hnew w hw
    obtain ⟨r, hr, hkey, hchan, -⟩ := h.stored _ _ w hw
    have hlt := (List.getElem?_eq_some_iff.mp hr).1
    rcases hnew.kept w.request r (getElem?_request hr) with ⟨w', hw', hsame⟩ | hsettled
    · rw [hentry, if_pos ⟨hkey, hchan⟩] at hw'
      cases hw'
      exact absurd hsame hlt.ne'
    · rcases hsettled with hanswered | ⟨r', hr', hmade⟩
      · exact Or.inl hanswered
      · obtain rfl := Option.some.inj ((getElem?_request hr).symm.trans hr')
        exact Or.inr ⟨r, hr, hmade⟩
  · intro hclear
    have hsettled : ∀ m, s.Settled m → (s.ask chan nick msg time).Settled m := fun m =>
      settled_mono (List.Subset.refl _) (fun _ => getElem?_request) le_rfl
    refine ⟨matched_ask h.matched, ho.once, ?_⟩
    intro m r hr
    rcases request_cases hr with hold | ⟨rfl, rfl⟩
    · rcases ho.kept m r hold with ⟨w, hw, rfl⟩ | hsome
      · by_cases hplace : r.key = s.key nick ∧ r.chan = chan
        · rw [hplace.1, hplace.2] at hw
          exact Or.inr (hsettled _ (hclear w hw))
        · exact Or.inl ⟨w, (hentry _ _).trans ((if_neg hplace).trans hw), rfl⟩
      · exact Or.inr (hsettled m hsome)
    · exact Or.inl ⟨_, (hentry _ _).trans (if_pos ⟨rfl, rfl⟩), rfl⟩

/-- Entries under one key are of different requests. -/
theorem nodup_requests {channels : Table Waiting} {key : Bytes} (h : Coherent s)
    (hl : s.waitingForWhoreply.lookup key = some channels) :
    ((channels.entries.map Sigma.snd).map Waiting.request).Nodup := by
  rw [List.map_map]
  refine List.Nodup.map_on ?_ channels.nodupKeys.nodup
  intro x hx y hy hsame
  have hchan : ∀ z ∈ channels.entries, ∃ r, s.requests[z.2.request]? = some r ∧ r.chan = z.1 := by
    intro z hz
    have hz' : s.entry key z.1 = some z.2 := by
      simpa [entry, hl] using AList.mem_lookup_iff.mpr hz
    obtain ⟨r, hr, -, hc, -⟩ := h.stored _ _ _ hz'
    exact ⟨r, hr, hc⟩
  obtain ⟨r, hr, hx'⟩ := hchan x hx
  obtain ⟨r', hr', hy'⟩ := hchan y hy
  simp only [Function.comp_apply] at hsame
  rw [hsame] at hr
  obtain rfl := Option.some.inj (hr.symm.trans hr')
  exact channels.nodupKeys.eq_of_fst_eq hx hy (hx'.symm.trans hy')

/-- A nick and the nick after `*!*@` have different keys. -/
theorem key_mask_ne (s : Tmpban) (nick : Bytes) : s.key (mask nick) ≠ s.key nick := by
  intro h
  have hlength := congrArg List.length (List.append_cancel_left h)
  simp [CaseMapping.lower_eq_map, mask, lit] at hlength
  omega

section Reply

variable {ws : List Waiting}

/-- The state after a reply that answers the entries of the nick. -/
def replied (s : Tmpban) (nick host : Bytes) (ws : List Waiting) : Tmpban :=
  { s.serve (ws.map fun w => w.answer s nick host) with
    waitingForWhoreply := s.waitingForWhoreply.erase (s.key (mask nick)) }

theorem answers_replied : (s.replied nick host ws).answers.map (fun a => a.channel.request) =
    s.answers.map (fun a => a.channel.request) ++ ws.map Waiting.request := by
  simp [replied, serve, Waiting.answer, Function.comp_def]

/-- An entry under the nick was not answered before, or it is answered twice. -/
theorem fresh_of_replied (hmem : ∀ w, w ∈ ws ↔ ∃ chan, s.entry (s.key nick) chan = some w)
    (hnew : ExecutedOnce (s.replied nick host ws)) (hw : s.entry (s.key nick) chan = some w) :
    ¬ s.Answered w.request := by
  rintro ⟨a, ha, hsame⟩
  have honce := hnew.once
  rw [answers_replied, List.nodup_append'] at honce
  exact honce.2.2 (List.mem_map.mpr ⟨a, ha, hsame⟩) (List.mem_map_of_mem ((hmem w).mpr ⟨chan, hw⟩))

/-- An entry under the mask is removed, and no entry of the nick has its request. -/
theorem settled_of_replied (h : Coherent s)
    (hmem : ∀ w, w ∈ ws ↔ ∃ chan, s.entry (s.key nick) chan = some w)
    (hnew : ExecutedOnce (s.replied nick host ws)) (hw : s.entry (s.key (mask nick)) chan = some w) :
    s.Settled w.request := by
  obtain ⟨r, hr, hkey, -⟩ := h.stored _ _ w hw
  rcases hnew.kept w.request r hr with ⟨w', hw', -⟩ | hanswered | hmade
  · have hgone := entry_erase.symm.trans hw'
    rw [if_pos hkey] at hgone
    cases hgone
  · rcases (answered_serve ws).mp hanswered with hbefore | ⟨w', hw', hsame⟩
    · exact Or.inl hbefore
    · obtain ⟨c', hc'⟩ := (hmem w').mp hw'
      obtain ⟨r', hr', hkey', -⟩ := h.stored _ _ w' hc'
      rw [hsame] at hr'
      obtain rfl := Option.some.inj (hr.symm.trans hr')
      exact absurd (hkey.symm.trans hkey') (key_mask_ne s nick)
  · exact Or.inr hmade

theorem executedOnce_replied (h : Coherent s) (ho : ExecutedOnce s)
    (hmem : ∀ w, w ∈ ws ↔ ∃ chan, s.entry (s.key nick) chan = some w)
    (hnodup : (ws.map Waiting.request).Nodup) (hseconds : ∀ w ∈ ws, w.time.seconds.isSome)
    (hfresh : ∀ chan w, s.entry (s.key nick) chan = some w → ¬ s.Answered w.request)
    (hclear : ∀ chan w, s.entry (s.key (mask nick)) chan = some w → s.Settled w.request) :
    ExecutedOnce (s.replied nick host ws) := by
  have hstored : ∀ w ∈ ws, ∃ key chan, s.entry key chan = some w := fun w hw =>
    ⟨_, (hmem w).mp hw⟩
  refine ⟨(coherent_serve h hstored hseconds).matched, ?_, ?_⟩
  · rw [answers_replied, List.nodup_append']
    refine ⟨ho.once, hnodup, ?_⟩
    intro m hm hm'
    obtain ⟨a, ha, rfl⟩ := List.mem_map.mp hm
    obtain ⟨w, hw, hsame⟩ := List.mem_map.mp hm'
    obtain ⟨c, hc⟩ := (hmem w).mp hw
    exact hfresh c w hc ⟨a, ha, hsame.symm⟩
  · intro m r hr
    have hsettled : ∀ m, s.Settled m → (s.replied nick host ws).Settled m := fun m =>
      settled_mono (List.subset_append_left _ _) (fun _ h => h) le_rfl
    rcases ho.kept m r hr with ⟨w, hw, rfl⟩ | hsome
    · by_cases hplace : r.key = s.key (mask nick)
      · rw [hplace] at hw
        exact Or.inr (hsettled _ (hclear _ w hw))
      · exact Or.inl ⟨w, entry_erase.trans ((if_neg hplace).trans hw), rfl⟩
    · exact Or.inr (hsettled m hsome)

/-- A reply may use what was not used before and remove what is settled. -/
theorem executedOnce_serve {channels : Table Waiting} {order : List Waiting → List Waiting}
    (horder : ∀ ws, (order ws).Perm ws) (h : Coherent s) (ho : ExecutedOnce s)
    (hl : s.waitingForWhoreply.lookup (s.key nick) = some channels)
    (hseconds : ∀ w ∈ order (channels.entries.map Sigma.snd), w.time.seconds.isSome) :
    ExecutedOnce
        { s.serve ((order (channels.entries.map Sigma.snd)).map fun w => w.answer s nick host) with
          waitingForWhoreply := s.waitingForWhoreply.erase (s.key (mask nick)) } ↔
      (∀ chan w, s.entry (s.key nick) chan = some w → ¬ s.Answered w.request) ∧
        ∀ chan w, s.entry (s.key (mask nick)) chan = some w → s.Settled w.request := by
  have hmem : ∀ w, w ∈ order (channels.entries.map Sigma.snd) ↔
      ∃ chan, s.entry (s.key nick) chan = some w := fun w =>
    (horder _).mem_iff.trans (mem_values hl)
  have hnodup : ((order (channels.entries.map Sigma.snd)).map Waiting.request).Nodup :=
    ((horder _).map Waiting.request).nodup_iff.mpr (nodup_requests h hl)
  constructor
  · intro hnew
    exact ⟨fun _ _ => fresh_of_replied hmem hnew, fun _ _ => settled_of_replied h hmem hnew⟩
  · rintro ⟨hfresh, hclear⟩
    exact executedOnce_replied h ho hmem hnodup hseconds hfresh hclear

end Reply

/-- A timer may discard its own request and what is settled. -/
theorem executedOnce_discard {k : Nat} {key : Bytes} (h : Coherent s) (ho : ExecutedOnce s)
    (hdue : s.timers.due s.now k = some (.discard n key chan)) :
    ExecutedOnce { s.discard key chan with timers := (s.discard key chan).timers.expire k } ↔
      ∀ w, s.entry key chan = some w → w.request = n ∨ s.Settled w.request := by
  have hentry : ∀ k c, (s.discard key chan).entry k c =
      if k = key ∧ c = chan then none else s.entry k c := fun _ _ => entry_discard
  have hcoherent := (coherent_discard h hdue).matched
  rw [discard_eq] at hentry hcoherent ⊢
  constructor
  · intro hnew w hw
    obtain ⟨r, hr, hkey, hchan, -⟩ := h.stored _ _ w hw
    rcases hnew.kept w.request r hr with ⟨w', hw', -⟩ | hsettled
    · have hgone := (hentry _ _).symm.trans hw'
      rw [if_pos ⟨hkey, hchan⟩] at hgone
      cases hgone
    · exact Or.inr hsettled
  · intro hclear
    refine ⟨hcoherent, ho.once, ?_⟩
    intro m r hr
    rcases ho.kept m r hr with ⟨w, hw, rfl⟩ | hsome
    · by_cases hplace : r.key = key ∧ r.chan = chan
      · rw [hplace.1, hplace.2] at hw
        rcases hclear w hw with hown | hsettled
        · obtain ⟨timer, hlive, htime, hcallback⟩ := Timers.live_of_due hdue
          have hmem : timer ∈ s.timers :=
            List.mem_iff_getElem?.mpr ⟨k, (Option.filter_eq_some_iff.mp hlive).1⟩
          obtain ⟨r', hr', hmade⟩ := h.armed timer hmem _ _ _ hcallback
          exact Or.inr (Or.inr ⟨r', hown ▸ hr', hmade ▸ htime⟩)
        · exact Or.inr hsettled
      · exact Or.inl ⟨w, (hentry _ _).trans ((if_neg hplace).trans hw), rfl⟩
    · exact Or.inr hsome

/-- An entry whose seconds are no number is banned and kicked without an answer. -/
theorem not_matched_strike (nick host : Bytes) (w : Waiting) (h : Matched s) (as : List Answer) :
    ¬ Matched ((s.serve as).strike nick host w) := by
  intro hbroken
  have hban : punishes (lit "MODE", [w.name, lit "+b", mask host]) = true := rfl
  have hkick : punishes (lit "KICK", [w.name, nick, w.msg]) = true := rfl
  have hlength := congrArg List.length hbroken.sent
  simp only [strike, send, serve, List.filter_append, List.flatMap_append, h.sent,
    messages_punish] at hlength
  simp [hban, hkick] at hlength

/-- The first entry whose seconds are no number. -/
theorem exists_first_none {ws : List Waiting} (h : ¬ ∀ w ∈ ws, w.time.seconds.isSome) :
    ∃ before w after, ws = before ++ w :: after ∧ (∀ b ∈ before, b.time.seconds.isSome) ∧
      w.time.seconds = none := by
  push Not at h
  obtain ⟨w, hw⟩ := Option.isSome_iff_exists.mp
    (List.find?_isSome.mpr (by simpa using h : ∃ w ∈ ws, (w.time.seconds.isNone : Bool) = true))
  obtain ⟨hnone, before, after, hsplit, hb⟩ := List.find?_eq_some_iff_append.mp hw
  exact ⟨before, w, after, hsplit, fun b hbefore => by simpa using hb b hbefore,
    by simpa using hnone⟩

/-! ### Every run -/

/-- A WHO reply is no news to the Client. -/
theorem receive_whoreply {session : Session} {msg : Message}
    (h : whoreply msg = some (host, nick)) : session.receive msg = session := by
  rw [whoreply] at h
  split at h
  · rename_i hcmd
    have hwelcome : ¬ (lit "352" = lit "001") := by decide
    have hisupport : ¬ (lit "352" = lit "005") := by decide
    have hnick : ¬ (lit "352" = lit "NICK") := by decide
    simp only [Session.receive, hcmd, hwelcome, hisupport, hnick, false_and, if_false]
  · cases h

/-- The session may change while the Client stays connected. -/
theorem coherent_receive {session : Session} (hstate : session.state = .connected)
    (h : Coherent s) : Coherent { s with session } :=
  ⟨hstate, h.stored, h.armed, ⟨h.matched.caused, h.matched.sent, h.matched.scheduled,
    h.matched.running, h.matched.lifted⟩⟩

theorem executedOnce_receive {session : Session} (ho : ExecutedOnce s) :
    ExecutedOnce { s with session } :=
  ⟨⟨ho.caused, ho.sent, ho.scheduled, ho.running, ho.lifted⟩, ho.once, ho.kept⟩

/-- A reply for a nick that has entries. -/
theorem apart_reply {msg : Message} {pairs : Traversal} {channels : Table Waiting} (h : Coherent s)
    (ho : ExecutedOnce s) (hreply : whoreply msg = some (host, nick))
    (hl : s.waitingForWhoreply.lookup (s.key nick) = some channels)
    (ht : t = ((msgcallback pairs.1 msg).pcall s).2) :
    (ExecutedOnce t → Coherent t) ∧ (Apart s (.message msg pairs) ↔ ExecutedOnce t) := by
  subst ht
  have hmem : ∀ w, w ∈ pairs.1 (channels.entries.map Sigma.snd) ↔
      ∃ chan, s.entry (s.key nick) chan = some w := fun w =>
    (pairs.2 _).mem_iff.trans (mem_values hl)
  by_cases hseconds : ∀ w ∈ pairs.1 (channels.entries.map Sigma.snd), w.time.seconds.isSome
  · rw [msgcallback_serves (Or.inl h.state) hreply hl hseconds]
    have hstored : ∀ w ∈ pairs.1 (channels.entries.map Sigma.snd),
        ∃ key chan, s.entry key chan = some w := fun w hw => ⟨_, (hmem w).mp hw⟩
    have hnumbers : ∀ chan w, s.entry (s.key nick) chan = some w → w.time.seconds.isSome :=
      fun chan w hw => hseconds w ((hmem w).mpr ⟨chan, hw⟩)
    refine ⟨fun _ => coherent_serve h hstored hseconds,
      Iff.trans ?_ (executedOnce_serve pairs.2 h ho hl hseconds).symm⟩
    constructor
    · intro ha
      obtain ⟨hfirst, hsecond⟩ := ha host nick hreply (by simp [hl])
      exact ⟨fun chan w hw => (hfirst chan w hw).1, hsecond⟩
    · rintro ⟨hfirst, hsecond⟩ host' nick' hreply' -
      cases hreply.symm.trans hreply'
      exact ⟨fun chan w hw => ⟨hfirst chan w hw, hnumbers chan w hw⟩, hsecond⟩
  · obtain ⟨before, w, after, hsplit, hb, hw⟩ := exists_first_none hseconds
    rw [msgcallback_raises (Or.inl h.state) hreply hl hsplit hb hw]
    have hbroken := not_matched_strike nick host w ho.toMatched
      (before.map fun w => w.answer s nick host)
    refine ⟨fun ho => absurd ho.toMatched hbroken, iff_of_false ?_ fun ho => hbroken ho.toMatched⟩
    intro ha
    obtain ⟨chan, hentry⟩ := (hmem w).mp (by simp [hsplit])
    have hsome := ((ha host nick hreply (by simp [hl])).1 chan w hentry).2
    simp [hw] at hsome

theorem apart_message {msg : Message} {pairs : Traversal} (h : Coherent s) (ho : ExecutedOnce s)
    (hstep : step s (.message msg pairs) = some t) :
    (ExecutedOnce t → Coherent t) ∧ (Apart s (.message msg pairs) ↔ ExecutedOnce t) := by
  obtain rfl := Option.some.inj hstep
  cases hreply : whoreply msg with
  | none =>
    rw [msgcallback_skip (by simp [hreply])]
    have hstate : (s.session.receive msg).state = .connected := by
      rcases s.session.receive_state msg with hsame | ⟨-, hnew⟩
      · exact hsame.trans h.state
      · exact hnew
    exact ⟨fun _ => coherent_receive hstate h, iff_of_true (by simp [Apart, hreply])
      (executedOnce_receive ho)⟩
  | some reply =>
    obtain ⟨host, nick⟩ := reply
    rw [receive_whoreply hreply]
    cases hl : s.waitingForWhoreply.lookup (s.key nick) with
    | none =>
      have hskip : ∀ host nick, whoreply msg = some (host, nick) →
          s.waitingForWhoreply.lookup (s.key nick) = none := by
        rintro host' nick' hreply'
        cases hreply.symm.trans hreply'
        exact hl
      rw [msgcallback_skip hskip]
      refine ⟨fun _ => h, iff_of_true ?_ ho⟩
      intro host' nick' hreply' hsome
      rw [hskip host' nick' hreply'] at hsome
      cases hsome
    | some channels => exact apart_reply h ho hreply hl rfl

theorem apart_fire {k : Nat} (h : Coherent s) (ho : ExecutedOnce s)
    (hstep : step s (.fire k) = some t) :
    Coherent t ∧ (Apart s (.fire k) ↔ ExecutedOnce t) := by
  obtain ⟨callback, hdue, rfl⟩ := Option.map_eq_some_iff.mp hstep
  cases callback with
  | discard n key chan =>
    have hcall : ((Callback.discard n key chan).call.pcall s).2 = s.discard key chan := rfl
    simp only [hcall]
    refine ⟨coherent_discard h hdue, Iff.trans ?_ (executedOnce_discard h ho hdue).symm⟩
    simp only [Apart, hdue, Option.some.injEq, Callback.discard.injEq]
    constructor
    · intro hd w hw
      exact hd n key chan ⟨rfl, rfl, rfl⟩ w hw
    · rintro hd _ _ _ ⟨rfl, rfl, rfl⟩ w hw
      exact hd w hw
  | unban chan mask =>
    have hcall : ((Callback.unban chan mask).call.pcall s).2 = s.send ("MODE", [chan, "-b", mask]) := by
      rw [Callback.call, Eff.pcall, sendmessage_eq (Or.inl h.state)]
    simp only [hcall]
    have hcoherent := coherent_lift h hdue
    exact ⟨hcoherent, iff_of_true (by simp [Apart, hdue]) ⟨hcoherent.matched, ho.once, ho.kept⟩⟩

/-- A step keeps what was promised exactly when it does not overlap with another request. -/
theorem apart_step (h : Coherent s) (ho : ExecutedOnce s) (hstep : step s i = some t) :
    (ExecutedOnce t → Coherent t) ∧ (Apart s i ↔ ExecutedOnce t) := by
  cases i with
  | request chan nick time message =>
    obtain rfl := Option.some.inj hstep
    rw [tmpban_eq (Or.inl h.state)]
    exact ⟨fun _ => coherent_ask h, (executedOnce_ask h ho).symm⟩
  | message msg pairs => exact apart_message h ho hstep
  | wait seconds =>
    obtain ⟨hpos, ⟨⟩⟩ := Option.ite_none_right_eq_some.mp hstep
    have hnow : s.now ≤ s.now + seconds := le_add_of_nonneg_right hpos
    have hcoherent : Coherent { s with now := s.now + seconds } :=
      ⟨h.state, h.stored, h.armed, ⟨ho.caused, ho.sent, ho.scheduled, ho.running, ho.lifted⟩⟩
    refine ⟨fun _ => hcoherent, iff_of_true trivial ⟨hcoherent.matched, ho.once, fun m r hr => ?_⟩⟩
    exact (ho.kept m r hr).imp_right
      (settled_mono (s := s) (List.Subset.refl _) (fun _ h => h) hnow)
  | fire k =>
    obtain ⟨hcoherent, hiff⟩ := apart_fire h ho hstep
    exact ⟨fun _ => hcoherent, hiff⟩

theorem apart_of_stuck (hstep : step s i = none) : Apart s i := by
  cases i with
  | request chan nick time message => cases hstep
  | message msg pairs => cases hstep
  | wait seconds => trivial
  | fire k =>
    have hdue := Option.map_eq_none_iff.mp hstep
    simp [Apart, hdue]

/-- On a connected Client the bans are executed once after every step of a run exactly when the
requests, replies and timers of the run stay apart. -/
theorem bans_once_iff (client : Bytes) {session : Session} (now : ℚ)
    (hstate : session.state = .connected) (inputs : List Input) :
    Along step (fun s i => ∀ t, step s i = some t → ExecutedOnce t)
        (start client session now) inputs ↔
      Along step Apart (start client session now) inputs := by
  have hstart : ExecutedOnce (start client session now) :=
    ⟨matched_start, List.nodup_nil, fun n r hr => by cases hr⟩
  exact (along_iff (I := fun s => Coherent s ∧ ExecutedOnce s)
    (fun s i t h hstep => (apart_step h.1 h.2 hstep).2)
    (fun s i t h hstep ho => ⟨(apart_step h.1 h.2 hstep).1 ho, ho⟩)
    (fun s i _ hstep => apart_of_stuck hstep) ⟨coherent_start hstate, hstart⟩).symm

/-- The reply for Eve, and how the examples go through a table. -/
def eveReply : Message :=
  heard "irc.example" "352" ["TuxBot", "#tux", "eve", "evil.example", "irc.example", "Eve", "H", "0 E"]
def inOrder : Traversal := ⟨id, List.Perm.refl⟩
def oneMinute : Duration := ⟨"60", some 60⟩
def tmpbanSession : Session := ⟨.connected, "TuxBot", .rfc1459, .default⟩

theorem bans_once_answered : tmpbanSession.state = .connected ∧
    Along step
      (fun s i => ∀ t, step s i = some t → ExecutedOnce t)
      (start "client" tmpbanSession 0) [.request "#tux" "Eve" oneMinute none, .message eveReply inOrder] := by
  refine ⟨rfl, (bans_once_iff "client" 0 rfl _).mpr ⟨?_, fun t ht => ⟨?_, fun _ _ => trivial⟩⟩⟩
  · intro w hw
    cases hw
  obtain rfl := Option.some.inj ht
  intro host nick hreply _
  have hnick : lit "Eve" = nick := by
    simpa [whoreply, eveReply, heard] using congrArg (Option.map Prod.snd) hreply
  subst hnick
  rw [tmpban_eq (Or.inl rfl)]
  refine ⟨fun chan w hw => ⟨?_, ?_⟩, fun chan w hw => ?_⟩
  · rintro ⟨a, ha, -⟩
    cases ha
  · have hentry := entry_store.symm.trans hw
    split at hentry
    · cases hentry
      rfl
    · cases hentry
  have hentry := entry_store.symm.trans hw
  rw [if_neg fun h => key_mask_ne _ _ h.1] at hentry
  cases hentry

/-- Eve is banned from two channels at once, and each WHO has its reply. -/
def bothChannels : List Input :=
  [.request "#a" "Eve" oneMinute none, .request "#b" "Eve" oneMinute none, .message eveReply inOrder,
    .message eveReply inOrder]

def bothPunished : List (Bytes × List Bytes) :=
  [("MODE", ["#b", "+b", "*!*@evil.example"]), ("KICK", ["#b", "Eve", "Temporary ban: 60 seconds"]),
    ("MODE", ["#a", "+b", "*!*@evil.example"]), ("KICK", ["#a", "Eve", "Temporary ban: 60 seconds"])]

/-- A reply leaves the requests where they are, so the second one bans and kicks once more. -/
theorem bans_twice : ∃ t,
    run step (start "client" tmpbanSession 0) bothChannels = some t ∧
      t.sent = (lit "WHO", [lit "Eve"]) :: (lit "WHO", [lit "Eve"]) :: bothPunished ++ bothPunished ∧
      ¬ ExecutedOnce t := by
  have hrun : (run step (start "client" tmpbanSession 0) bothChannels).map
        (fun t => (t.sent, t.answers.map fun a => a.channel.request)) =
      some ((lit "WHO", [lit "Eve"]) :: (lit "WHO", [lit "Eve"]) :: bothPunished ++ bothPunished,
        [1, 0, 1, 0]) := by
    decide +kernel
  obtain ⟨t, ht, hseen⟩ := Option.map_eq_some_iff.mp hrun
  obtain ⟨hsent, hids⟩ := Prod.mk.inj hseen
  refine ⟨t, ht, hsent, fun ho => ?_⟩
  have honce := ho.once
  rw [hids] at honce
  exact absurd honce (by decide)

end TuxBot.Plugins.Tmpban
