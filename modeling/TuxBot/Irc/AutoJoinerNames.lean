import TuxBot.Irc.AutoJoinerJoins

/-! Which channels the first JOINs name, as the server understands them. -/
namespace TuxBot.Irc

open TuxBot.Lua TuxBot.Machine

namespace CaseMapping

variable {m : CaseMapping} {b : UInt8} {c d : Bytes}

/-- The bytes that a Client folds before it knows the mapping of its server, and the server does not. -/
def unfolded : CaseMapping → Bytes
  | ascii => "[]\\~"
  | strictRfc1459 => "~"
  | rfc1459 => []

theorem lowerByte_unfolded (m : CaseMapping) : ∀ b ∈ m.unfolded, m.lowerByte b = b := by
  cases m <;> decide +kernel

theorem lowerByte_default_iff (m : CaseMapping) (b : UInt8) :
    m.lowerByte (rfc1459.lowerByte b) = m.lowerByte b ↔ b ∉ m.unfolded := by
  revert b
  cases m <;> exact forall_byte (by decide +kernel)

theorem lowerByte_default_folds (m : CaseMapping) (b : UInt8) :
    m.lowerByte (rfc1459.lowerByte b) ∉ m.unfolded := by
  revert b
  cases m <;> exact forall_byte (by decide +kernel)

theorem lower_default (h : ∀ b ∈ c, b ∉ m.unfolded) : m.lower (rfc1459.lower c) = m.lower c := by
  simp only [lower_eq_map, List.map_map]
  exact List.map_congr_left fun b hb => (lowerByte_default_iff m b).mpr (h b hb)

/-- No name that the Client has folded is the same to the server as one with such a byte. -/
theorem lower_default_ne (hb : b ∈ c) (hunfolded : b ∈ m.unfolded) :
    m.lower (rfc1459.lower d) ≠ m.lower c := by
  intro heq
  have hmem : b ∈ m.lower (rfc1459.lower d) := by
    rw [heq, lower_eq_map]
    exact List.mem_map.mpr ⟨b, hb, lowerByte_unfolded m b hunfolded⟩
  simp only [lower_eq_map, List.map_map, List.mem_map] at hmem
  obtain ⟨e, -, rfl⟩ := hmem
  exact lowerByte_default_folds m e hunfolded

end CaseMapping

namespace AutoJoiner

variable {o : RejoinOptions} {nick : Bytes} {autojoin : List Bytes} {j t : AutoJoiner}
  {i : JoinerInput} {inputs : List JoinerInput} {m : CaseMapping}

/-- The AutoJoiner of a new Client, which does not know the mapping of its server. -/
def made (nick : Bytes) (autojoin : List Bytes) : AutoJoiner :=
  .new ⟨.disconnected, nick, .rfc1459, .default⟩ autojoin

/-- The JOINs that were sent name exactly the channels of `autojoin`, as the mapping has it. -/
def JoinsExactly (m : CaseMapping) (autojoin : List Bytes) (j : AutoJoiner) : Prop :=
  (∀ c ∈ autojoin, ∃ d, (lit "JOIN", [d]) ∈ j.sent ∧ m.nameeq d c) ∧
    ∀ cmd args, (cmd, args) ∈ j.sent → cmd = lit "JOIN" ∧ ∃ d, args = [d] ∧
      ∃ c ∈ autojoin, m.nameeq d c

/-- Nothing but the Client's state, and no channel was added. -/
structure Idling (nick : Bytes) (autojoin : List Bytes) (j : AutoJoiner) : Prop where
  rejoining : j.rejoiningChannels = (made nick autojoin).rejoiningChannels
  on : j.onChannels = ∅
  timers : j.timers = []
  listening : j.listening = false
  sent : j.sent = []

theorem idling_made : Idling nick autojoin (made nick autojoin) := ⟨rfl, rfl, rfl, rfl, rfl⟩

/-- Until `connected` nothing happens to the channels. -/
theorem idling_step (h : Idling nick autojoin j) (hadd : ∀ chan, i ≠ .addchannel chan)
    (hstep : j.step o i = some t) (hto : t.session.state ≠ .connected) : Idling nick autojoin t := by
  cases i with
  | message msg =>
    rcases step_message hstep with ⟨-, rfl⟩ | ⟨hconn, rfl⟩
    · rw [hear, if_neg (by simp [h.listening])]
      exact ⟨h.rejoining, h.on, h.timers, h.listening, h.sent⟩
    · have hstate : ((j.hear o msg).onStatechanged .connected).session.state = .connected :=
        (congrArg Session.state (onStatechanged_session .connected hconn)).trans hconn
      exact absurd hstate hto
  | state state =>
    obtain rfl := Option.some.inj hstep
    have hne : state ≠ .connected := by
      rintro rfl
      rw [onStatechanged_session .connected rfl] at hto
      exact hto rfl
    rw [onStatechanged, if_neg hne]
    have hkeys : j.onChannels.keys = [] := by rw [h.on]; rfl
    split
    · rw [hkeys]
      exact ⟨h.rejoining, h.on, h.timers, rfl, h.sent⟩
    · exact ⟨h.rejoining, h.on, h.timers, h.listening, h.sent⟩
  | setNick nick =>
    obtain rfl := Option.some.inj hstep
    exact ⟨h.rejoining, h.on, h.timers, h.listening, h.sent⟩
  | addchannel chan => exact absurd rfl (hadd chan)
  | wait seconds =>
    obtain ⟨-, ⟨⟩⟩ := Option.ite_none_right_eq_some.mp hstep
    exact ⟨h.rejoining, h.on, h.timers, h.listening, h.sent⟩
  | fire k =>
    obtain ⟨channel, hdue, -⟩ := Option.map_eq_some_iff.mp hstep
    obtain ⟨timer, hlive, -⟩ := Timers.live_of_due hdue
    exact absurd (Timers.lt_length_of_live hlive) (by simp [h.timers])

/-- Before the Client is `connected` for the first time. -/
theorem idling_run (hadd : ∀ chan, .addchannel chan ∉ inputs)
    (hbefore : Along (step o) (fun j _ => j.session.state ≠ .connected) (made nick autojoin) inputs)
    (hrun : run (step o) (made nick autojoin) inputs = some j)
    (hfrom : j.session.state ≠ .connected) : Idling nick autojoin j := by
  induction inputs using List.reverseRecOn generalizing j with
  | nil =>
    obtain rfl := Option.some.inj hrun
    exact idling_made
  | append_singleton inputs i ih =>
    obtain ⟨k, hk, hlast⟩ := run_snoc hrun
    obtain ⟨hinit, hend⟩ := (along_append hk).mp hbefore
    refine idling_step (ih (fun chan hchan => hadd chan (List.mem_append_left _ hchan)) hinit hk
      hend.1) (fun chan hi => hadd chan ?_) hlast hfrom
    simp [hi]

/-- The keys of the table are the names as the Client folds them. -/
theorem mem_keys_made {d : Bytes} :
    d ∈ (made nick autojoin).rejoiningChannels.keys ↔
      ∃ c ∈ autojoin, CaseMapping.rfc1459.lower c = d := by
  rw [← AList.mem_keys, ← AList.lookup_isSome, made, new, lookup_autojoin]
  simp only [List.mem_map]
  split
  · rename_i h
    exact iff_of_true rfl h
  · rename_i h
    exact iff_of_false (by simp) h

/-- When the Client is `connected` for the first time, the JOINs reach exactly the configured channels
if and only if no name has a character that the Client folds and the server does not. -/
theorem joins_exactly_iff (m : CaseMapping) (hadd : ∀ chan, .addchannel chan ∉ inputs)
    (hbefore : Along (step o) (fun j _ => j.session.state ≠ .connected) (made nick autojoin) inputs)
    (hrun : run (step o) (made nick autojoin) inputs = some j)
    (hfrom : j.session.state ≠ .connected) (hstep : j.step o i = some t)
    (hto : t.session.state = .connected) :
    JoinsExactly m autojoin t ↔ ∀ c ∈ autojoin, ∀ b ∈ c, b ∉ m.unfolded := by
  have hidling := idling_run hadd hbefore hrun hfrom
  have hsent : t.sent = (made nick autojoin).rejoiningChannels.keys.map fun c =>
      (lit "JOIN", [c]) := by
    rw [sent_entering hstep hfrom hto, hidling.sent, hidling.rejoining]
    rfl
  have hjoined : ∀ d, (lit "JOIN", [d]) ∈ t.sent ↔
      ∃ c ∈ autojoin, CaseMapping.rfc1459.lower c = d := by
    intro d
    refine Iff.trans (?_ : _ ↔ d ∈ (made nick autojoin).rejoiningChannels.keys) mem_keys_made
    rw [hsent]
    simp
  constructor
  · rintro ⟨hall, -⟩ c hc b hb hunfolded
    obtain ⟨d, hd, heq⟩ := hall c hc
    obtain ⟨c', -, rfl⟩ := (hjoined d).mp hd
    exact CaseMapping.lower_default_ne hb hunfolded ((CaseMapping.nameeq_iff m _ _).mp heq)
  · intro hplain
    have hsame : ∀ c ∈ autojoin, m.nameeq (CaseMapping.rfc1459.lower c) c := fun c hc =>
      (CaseMapping.nameeq_iff m _ _).mpr (CaseMapping.lower_default (hplain c hc))
    refine ⟨fun c hc => ⟨_, (hjoined _).mpr ⟨c, hc, rfl⟩, hsame c hc⟩, fun cmd args hmem => ?_⟩
    rw [hsent] at hmem
    obtain ⟨d, hd, heq⟩ := List.mem_map.mp hmem
    obtain ⟨rfl, rfl⟩ := Prod.mk.inj heq
    obtain ⟨c, hc, rfl⟩ := mem_keys_made.mp hd
    exact ⟨rfl, _, rfl, c, hc, hsame c hc⟩

/-- A server with the mapping `ascii` and a channel without brackets. -/
theorem joins_exactly_linux :
    ∃ t, run (step .default) (made "tux" ["#Linux"]) [.state .connecting, .state .registering,
        .message (heard "irc" "001" ["tux", "Welcome"])] = some t ∧
      JoinsExactly .ascii ["#Linux"] t := by
  refine ⟨_, rfl, (@joins_exactly_iff .default "tux" ["#Linux"] _ _
    (.message (heard "irc" "001" ["tux", "Welcome"])) [.state .connecting, .state .registering]
    .ascii ?_ ?_ rfl ?_ rfl ?_).mpr ?_⟩
  · simp
  · refine along_cons ?_ rfl (along_cons ?_ rfl trivial)
    · decide
    · decide
  · decide
  · decide +kernel
  · decide +kernel

/-- A server with the mapping `ascii`, a channel of the config file of the bot: the bot joins
`#test{}` where `#test[]` is configured. -/
theorem joins_braces :
    ∃ t, run (step .default) (made "tux" ["#test[]"]) [.state .connecting, .state .registering,
        .message (heard "irc" "001" ["tux", "Welcome"])] = some t ∧
      t.sent = [(lit "JOIN", [lit "#test\x7b\x7d"])] ∧ ¬ JoinsExactly .ascii ["#test[]"] t := by
  refine ⟨_, rfl, by decide +kernel, fun hjoins => ?_⟩
  obtain ⟨-, d, hd, c, hc, heq⟩ := hjoins.2 (lit "JOIN") [lit "#test\x7b\x7d"] (by decide +kernel)
  obtain rfl := List.mem_singleton.mp hc
  obtain rfl := List.singleton_inj.mp hd
  revert heq
  decide +kernel

end AutoJoiner

end TuxBot.Irc
