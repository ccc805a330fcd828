import TuxBot.EventLoopTimers
import TuxBot.Plugins.RelayFanout

/-! Who spoke lately in the relayed channels: `active_members` and the timers that clear it. -/
namespace TuxBot.Plugins.Relay

open TuxBot.Lua TuxBot.Lua.Pattern TuxBot.Machine TuxBot.Irc

/-- The nick and the channel with which the handlers of PRIVMSG, NOTICE and `:CTCP` call `on_active`. -/
def saidBy (config : Config) (net : Bytes) (mapping : CaseMapping) (msg : Message)
    (text : Option Bytes) : Option (Bytes × Bytes) :=
  match msg.sender.nick, msg.args, text with
  | some nick, channel :: _, some _ =>
    if isnick nick ∧ ischanname channel then
      (isrelayed config net mapping channel).map fun _ => (nick, channel)
    else none
  | _, _, _ => none

def privmsgBy (config : Config) (net : Bytes) (mapping : CaseMapping) (msg : Message) :
    Option (Bytes × Bytes) :=
  saidBy config net mapping msg msg.args[1]?

def noticeBy (config : Config) (net : Bytes) (mapping : CaseMapping) (msg : Message) :
    Option (Bytes × Bytes) :=
  saidBy config net mapping msg msg.args[1]?

def ctcpBy (config : Config) (net : Bytes) (mapping : CaseMapping) (msg : Message) :
    Option (Bytes × Bytes) :=
  if msg.args[1]? = some (lit "ACTION") then saidBy config net mapping msg msg.args[2]? else none

def spokenBy (config : Config) (net : Bytes) (mapping : CaseMapping) (msg : Message) :
    Option (Bytes × Bytes) :=
  if msg.cmd = lit "PRIVMSG" then privmsgBy config net mapping msg
  else if msg.cmd = lit "NOTICE" then noticeBy config net mapping msg
  else if msg.cmd = lit ":CTCP" then ctcpBy config net mapping msg
  else none

theorem saidBy_isSome (lead opening closing : Bytes) (config : Config) (net : Bytes)
    (mapping : CaseMapping) (msg : Message) (text : Option Bytes) :
    (saidBy config net mapping msg text).isSome =
      (onSaid lead opening closing config net mapping msg text).isSome := by
  unfold saidBy onSaid
  cases msg.sender.nick with
  | none => rfl
  | some nick =>
    cases msg.args with
    | nil => rfl
    | cons channel args =>
      cases text with
      | none => rfl
      | some said =>
        dsimp only
        split
        · rw [Option.isSome_map, Option.isSome_map]
        · rfl

/-- The member is active exactly if the message is relayed. -/
theorem spokenBy_isSome (config : Config) (net : Bytes) (mapping : CaseMapping) (msg : Message) :
    (spokenBy config net mapping msg).isSome = (msgHandler config net mapping msg).isSome := by
  unfold spokenBy msgHandler
  split
  · exact saidBy_isSome [] "<" ">" config net mapping msg msg.args[1]?
  split
  · exact saidBy_isSome [] "-" "-" config net mapping msg msg.args[1]?
  split
  · unfold ctcpBy onCtcp
    split
    · exact saidBy_isSome "* " [] [] config net mapping msg msg.args[2]?
    · rfl
  · rfl

/-- A nick and a channel as their Client folds them, on a network. -/
structure Member where
  nick : Bytes
  channel : Bytes
  net : Bytes
  deriving DecidableEq

def member (mapping : CaseMapping) (nick channel net : Bytes) : Member :=
  ⟨mapping.lower nick, mapping.lower channel, net⟩

/-- `('%s %s %s'):format(…)` -/
def Member.key (m : Member) : Bytes :=
  formatString m.nick ++ lit " " ++ formatString m.channel ++ lit " " ++ formatString m.net

/-- The event loop knows a timer by its place, and its callback by the key that it clears. -/
structure Activity where
  now : ℚ
  active : Table Nat
  timers : Timers Bytes

namespace Activity

/-- `if timer then timer:cancel() end` -/
def cancelled (a : Activity) (key : Bytes) : Timers Bytes :=
  match a.active.lookup key with
  | some i => a.timers.cancel i
  | none => a.timers

/-- `on_active` -/
def onActive (a : Activity) (m : Member) : Activity :=
  { a with
    active := a.active.insert m.key (a.cancelled m.key).length
    timers := (a.cancelled m.key).timer (a.now + 8 * 60 * 60) m.key }

/-- The body of the loop of `step` over `_timers`. -/
def visit (a : Activity) (i : Nat) (t : Timer Bytes) : Activity :=
  if t.time ≤ a.now then
    { a with
      active := if t.running then a.active.erase t.callback else a.active
      timers := a.timers.expire i }
  else a

/-- What can happen: a message that a Client receives, the turn of a timer, another time. -/
inductive Input where
  | message (net : Bytes) (mapping : CaseMapping) (msg : Message)
  | visit (i : Nat)
  | clock (now : ℚ)

/-- `nets` are the names of the Clients. -/
def step (config : Config) (nets : List Bytes) (a : Activity) : Input → Option Activity
  | .message net mapping msg =>
    if nets.contains net then
      match spokenBy config net mapping msg with
      | some (nick, channel) => some (a.onActive (member mapping nick channel net))
      | none => some a
    else none
  | .visit i => (a.timers[i]?.filter Timer.pending).map (a.visit i)
  | .clock now => some { a with now }

def start (now : ℚ) : Activity := ⟨now, ∅, []⟩

/-- The member has said something in the channel. -/
def Spoke (config : Config) (m : Member) (input : Input) : Prop :=
  ∃ net mapping msg nick channel, input = .message net mapping msg ∧
    spokenBy config net mapping msg = some (nick, channel) ∧ m = member mapping nick channel net

/-- What the member said last armed the timer `i` for `time`, and the timer has not run out. -/
def Awaits (config : Config) (nets : List Bytes) (now : ℚ) (m : Member) (inputs : List Input)
    (i : Nat) (time : ℚ) : Prop :=
  ∃ before input after a, inputs = before ++ input :: after ∧ Spoke config m input ∧
    (∀ x ∈ after, ¬ Spoke config m x) ∧ run (step config nets) (start now) before = some a ∧
    i = a.timers.length ∧ time = a.now + 8 * 60 * 60 ∧
    ∀ mid rest b, after = mid ++ .visit i :: rest →
      run (step config nets) (start now) (before ++ input :: mid) = some b → b.now < time

/-- `active_members` has those whose timer has not run out, and has no two of them in one place. -/
structure Windowed (config : Config) (nets : List Bytes) (now : ℚ) (inputs : List Input)
    (a : Activity) : Prop where
  active : ∀ mapping nick channel net, isnick nick → ischanname channel → net ∈ nets →
    ((a.active.lookup (member mapping nick channel net).key).isSome ↔
      ∃ i time, Awaits config nets now (member mapping nick channel net) inputs i time)
  apart : ∀ mapping nick channel net mapping' nick' channel' net',
    isnick nick → ischanname channel → net ∈ nets →
    isnick nick' → ischanname channel' → net' ∈ nets →
    (member mapping nick channel net).key = (member mapping' nick' channel' net').key →
      member mapping nick channel net = member mapping' nick' channel' net'

end Activity

/-! ### The keys -/

section Keys

variable {m m' : Member} {nick channel net : Bytes} {mapping : CaseMapping}

/-- A byte that neither ends a string for `format` nor a field of the key. -/
def Plain (b : UInt8) : Prop := b ≠ 0 ∧ b ≠ 32

/-- A run of a class up to the end of the string. -/
theorem class_of_match {c : UInt8 → Bool} {str : Bytes} {cs : List (Capture UInt8)}
    {r : List (Capture UInt8) × Bytes} (h : maxExpand c (doMatch [.eos] cs) str = some r) :
    ∀ b ∈ str, c b = true := by
  obtain ⟨u, x, rfl, hu, heos⟩ := maxExpand_split h
  obtain rfl : x = [] := by
    rw [doMatch] at heos
    simpa using (Option.ite_none_right_eq_some.mp heos).1
  simpa using hu

theorem plain_nick (h : isnick nick = true) : ∀ b ∈ nick, Plain b := by
  have hclass (b : UInt8) :
      (isAlpha b || isDigit b || oneOf "[]\\`_^{|}-" b) = true → Plain b :=
    forall_byte (P := fun b => (isAlpha b || isDigit b || oneOf "[]\\`_^{|}-" b) = true → Plain b)
      (by unfold Plain; decide +kernel) b
  obtain ⟨r, hr⟩ := Option.isSome_iff_exists.mp (by simpa [isnick, matchHere] using h)
  obtain ⟨first, s, rfl, hfirst, hstar⟩ := doMatch_one_some hr
  have hall := class_of_match (doMatch_star.symm.trans hstar)
  refine List.forall_mem_cons.mpr ⟨hclass first ?_, fun b hb => hclass b (hall b hb)⟩
  revert hfirst
  exact forall_byte (P := fun b => (isAlpha b || oneOf "[]\\`_^{|}" b) = true →
    (isAlpha b || isDigit b || oneOf "[]\\`_^{|}-" b) = true) (by decide +kernel) first

theorem plain_channel (h : ischanname channel = true) : ∀ b ∈ channel, Plain b := by
  have hclass (b : UInt8) : noneOf ([0, 7, 13, 10] ++ lit " ,:") b = true → Plain b :=
    forall_byte (P := fun b => noneOf ([0, 7, 13, 10] ++ lit " ,:") b = true → Plain b)
      (by unfold Plain; decide +kernel) b
  have hlead (b : UInt8) : oneOf "&#+!" b = true → Plain b :=
    forall_byte (P := fun b => oneOf "&#+!" b = true → Plain b) (by unfold Plain; decide +kernel) b
  obtain ⟨r, hr⟩ := Option.isSome_iff_exists.mp (by simpa [ischanname, matchHere] using h)
  obtain ⟨first, s, rfl, hfirst, hplus⟩ := doMatch_one_some hr
  cases s with
  | nil => cases hplus
  | cons second s =>
    rw [doMatch] at hplus
    obtain ⟨hsecond, hexpand⟩ := Option.ite_none_right_eq_some.mp hplus
    have hall := class_of_match hexpand
    exact List.forall_mem_cons.mpr ⟨hlead first hfirst,
      List.forall_mem_cons.mpr ⟨hclass second hsecond, fun b hb => hclass b (hall b hb)⟩⟩

theorem plain_lowerByte (m : CaseMapping) (b : UInt8) : Plain b → Plain (m.lowerByte b) := by
  revert b
  cases m <;> exact forall_byte (by unfold Plain; decide +kernel)

theorem plain_lower {str : Bytes} (h : ∀ b ∈ str, Plain b) : ∀ b ∈ mapping.lower str, Plain b := by
  rw [CaseMapping.lower_eq_map]
  exact List.forall_mem_map.mpr fun b hb => plain_lowerByte mapping b (h b hb)

/-- The first space ends the first field. -/
theorem field_unique {u u' v v' : Bytes} (h : u ++ 32 :: v = u' ++ 32 :: v')
    (hu : ∀ b ∈ u, Plain b) (hu' : ∀ b ∈ u', Plain b) : u = u' ∧ v = v' := by
  induction u generalizing u' with
  | nil =>
    cases u' with
    | nil => exact ⟨rfl, (List.cons.inj h).2⟩
    | cons b u' => exact absurd (List.cons.inj h).1.symm (hu' b List.mem_cons_self).2
  | cons b u ih =>
    cases u' with
    | nil => exact absurd (List.cons.inj h).1 (hu b List.mem_cons_self).2
    | cons b' u' =>
      obtain ⟨rfl, hrest⟩ := List.cons.inj h
      obtain ⟨rfl, rfl⟩ := ih hrest (fun b hb => hu b (List.mem_cons_of_mem _ hb)) fun b hb =>
        hu' b (List.mem_cons_of_mem _ hb)
      exact ⟨rfl, rfl⟩

/-- The nick and the channel are as a Client that has seen them knows them. -/
def Member.Valid (m : Member) : Prop := (∀ b ∈ m.nick, Plain b) ∧ ∀ b ∈ m.channel, Plain b

theorem valid_member (hnick : isnick nick = true) (hchannel : ischanname channel = true) :
    (member mapping nick channel net).Valid :=
  ⟨plain_lower (plain_nick hnick), plain_lower (plain_channel hchannel)⟩

/-- Only the network is cut. -/
theorem key_eq (h : m.Valid) : m.key = m.nick ++ 32 :: (m.channel ++ 32 :: formatString m.net) := by
  rw [Member.key, formatString_of_ne_zero fun b hb => (h.1 b hb).1,
    formatString_of_ne_zero fun b hb => (h.2 b hb).1]
  simp [lit]

theorem key_inj (h : m.Valid) (h' : m'.Valid) : m.key = m'.key ↔
    m.nick = m'.nick ∧ m.channel = m'.channel ∧ formatString m.net = formatString m'.net := by
  rw [key_eq h, key_eq h']
  constructor
  · intro heq
    obtain ⟨hnick, heq⟩ := field_unique heq h.1 h'.1
    obtain ⟨hchannel, hnet⟩ := field_unique heq h.2 h'.2
    exact ⟨hnick, hchannel, hnet⟩
  · rintro ⟨hnick, hchannel, hnet⟩
    rw [hnick, hchannel, hnet]

end Keys

/-! ### One timer for each entry -/

namespace Activity

variable {config : Config} {nets : List Bytes} {a b : Activity} {m m' : Member} {i j : Nat}
  {time now : ℚ} {input : Input} {inputs : List Input} {t : Timer Bytes}

/-- The entries are the live timers, each under the key that it clears. -/
def Tended (a : Activity) : Prop :=
  ∀ key i, a.active.lookup key = some i ↔ ∃ t, a.timers.live i = some t ∧ t.callback = key

theorem length_cancelled (key : Bytes) : (a.cancelled key).length = a.timers.length := by
  unfold cancelled
  split <;> simp

theorem live_cancelled (key : Bytes) : (a.cancelled key).live j =
    if a.active.lookup key = some j then none else a.timers.live j := by
  unfold cancelled
  split
  · rename_i i hi
    rw [Timers.live_cancel, hi]
    simp only [Option.some.injEq, eq_comm]
  · rename_i hnone
    rw [hnone, if_neg (by simp)]

theorem Tended.lt_length {key : Bytes} (h : Tended a) (hlookup : a.active.lookup key = some i) :
    i < a.timers.length := by
  obtain ⟨t, ht, -⟩ := (h key i).mp hlookup
  exact Timers.lt_length_of_live ht

theorem tended_onActive (h : Tended a) (m : Member) : Tended (a.onActive m) := by
  intro key i
  simp only [onActive, Table.lookup_insert, Timers.live_timer, live_cancelled, length_cancelled]
  by_cases hlast : i = a.timers.length
  · -- the new timer
    subst hlast
    have hnone (key : Bytes) : a.active.lookup key ≠ some a.timers.length :=
      fun hlookup => Nat.lt_irrefl _ (h.lt_length hlookup)
    by_cases hkey : key = m.key
    · simp [hkey]
    · simp [hkey, hnone, Ne.symm hkey]
  · by_cases hkey : key = m.key
    · -- the timer that was under the key is cancelled
      subst hkey
      simp only [if_true, Option.some.injEq, Ne.symm hlast, if_neg hlast, false_iff]
      rintro ⟨t, ht, hcallback⟩
      obtain ⟨hnot, hlive⟩ := Option.ite_none_left_eq_some.mp ht
      exact hnot ((h m.key i).mpr ⟨t, hlive, hcallback⟩)
    · rw [if_neg hkey, if_neg hlast, h key i]
      refine exists_congr fun t => and_congr_left fun hcallback => ?_
      rw [Option.ite_none_left_eq_some, iff_and_self]
      intro hlive hlookup
      obtain ⟨t', hlive', hcallback'⟩ := (h m.key i).mp hlookup
      obtain rfl := Option.some.inj (hlive.symm.trans hlive')
      exact hkey (hcallback.symm.trans hcallback')

theorem Tended.timer {key : Bytes} (h : Tended a) (hlookup : a.active.lookup key = some i)
    (ht : a.timers[i]? = some t) : t.running = true ∧ t.callback = key := by
  obtain ⟨t', hlive, hcallback⟩ := (h key i).mp hlookup
  obtain ⟨ht', hrunning⟩ := Option.filter_eq_some_iff.mp hlive
  obtain rfl := Option.some.inj (ht.symm.trans ht')
  exact ⟨(Bool.and_eq_true_iff.mp hrunning).2, hcallback⟩

theorem Tended.entry (h : Tended a) (ht : a.timers[i]? = some t) (hpending : t.pending = true)
    (hrunning : t.running = true) : a.active.lookup t.callback = some i :=
  (h t.callback i).mpr ⟨t, by simp [Timers.live, ht, Option.filter, hpending, hrunning], rfl⟩

/-- The timer whose turn it is leaves, and its entry with it. -/
theorem tended_visit (h : Tended a) (ht : a.timers[i]? = some t) (hpending : t.pending = true) :
    Tended (a.visit i t) := by
  unfold visit
  split
  · intro key j
    simp only [Timers.live_expire, Option.ite_none_left_eq_some]
    cases hrunning : t.running with
    | false =>
      have hdead : a.timers.live i = none := by simp [Timers.live, ht, Option.filter, hrunning]
      rw [if_neg Bool.false_ne_true, h key j]
      refine exists_congr fun t' => and_congr_left fun _ => ?_
      rw [iff_and_self]
      rintro hlive rfl
      cases hdead.symm.trans hlive
    | true =>
      have hlive : a.timers.live i = some t := by
        simp [Timers.live, ht, Option.filter, hpending, hrunning]
      have hentry := h.entry ht hpending hrunning
      rw [if_pos rfl, Table.lookup_erase]
      by_cases hkey : key = t.callback
      · subst hkey
        rw [if_pos rfl]
        refine iff_of_false (Option.some_ne_none j).symm ?_
        rintro ⟨t', ⟨hne, hlive'⟩, hcallback⟩
        have hentry' := (h t.callback j).mpr ⟨t', hlive', hcallback⟩
        exact hne (Option.some.inj (hentry'.symm.trans hentry))
      · rw [if_neg hkey, h key j]
        refine exists_congr fun t' => and_congr_left fun hcallback => ?_
        rw [iff_and_self]
        rintro hlive' rfl
        obtain rfl := Option.some.inj (hlive.symm.trans hlive')
        exact hkey hcallback.symm
  · exact h

theorem step_visit (h : step config nets a (.visit i) = some b) :
    ∃ t, a.timers[i]? = some t ∧ t.pending = true ∧ b = a.visit i t := by
  obtain ⟨t, ht, rfl⟩ := Option.map_eq_some_iff.mp h
  obtain ⟨ht, hpending⟩ := Option.filter_eq_some_iff.mp ht
  exact ⟨t, ht, hpending, rfl⟩

/-- A message either says nothing or makes a member active. -/
theorem step_message {net : Bytes} {mapping : CaseMapping} {msg : Message}
    (h : step config nets a (.message net mapping msg) = some b) : net ∈ nets ∧
      ((spokenBy config net mapping msg = none ∧ b = a) ∨ ∃ nick channel,
        spokenBy config net mapping msg = some (nick, channel) ∧
          b = a.onActive (member mapping nick channel net)) := by
  obtain ⟨hnet, h⟩ := Option.ite_none_right_eq_some.mp h
  refine ⟨List.contains_iff_mem.mp hnet, ?_⟩
  cases hspoken : spokenBy config net mapping msg with
  | none =>
    rw [hspoken] at h
    exact Or.inl ⟨rfl, (Option.some.inj h).symm⟩
  | some who =>
    rw [hspoken] at h
    exact Or.inr ⟨who.1, who.2, rfl, (Option.some.inj h).symm⟩

theorem tended_step (h : Tended a) (hs : step config nets a input = some b) : Tended b := by
  cases input with
  | message net mapping msg =>
    rcases (step_message hs).2 with ⟨-, rfl⟩ | ⟨nick, channel, -, rfl⟩
    · exact h
    · exact tended_onActive h _
  | visit i =>
    obtain ⟨t, ht, hpending, rfl⟩ := step_visit hs
    exact tended_visit h ht hpending
  | clock now =>
    obtain rfl := Option.some.inj hs
    exact h

theorem tended_start (now : ℚ) : Tended (start now) := by
  intro key i
  simp [start, Timers.live]

theorem tended_run (h : run (step config nets) (start now) inputs = some a) : Tended a :=
  run_keeps (fun _ _ _ => tended_step) (tended_start now) h

/-! ### Whose timers they are -/

/-- The member's entry, and when its timer is due. -/
def Holds (a : Activity) (m : Member) (i : Nat) (time : ℚ) : Prop :=
  a.active.lookup m.key = some i ∧ a.timers[i]?.map Timer.time = some time

theorem time_cancelled (key : Bytes) :
    (a.cancelled key)[i]?.map Timer.time = a.timers[i]?.map Timer.time := by
  unfold cancelled
  split
  · rw [Timers.getElem?_cancel]
    split <;> simp [Function.comp_def]
  · rfl

theorem time_expire (ts : Timers Bytes) :
    (ts.expire j)[i]?.map Timer.time = ts[i]?.map Timer.time := by
  rw [Timers.getElem?_expire]
  split <;> simp [Function.comp_def]

theorem holds_onActive_self (m : Member) : (a.onActive m).Holds m i time ↔
    i = a.timers.length ∧ time = a.now + 8 * 60 * 60 := by
  have hlength := length_cancelled (a := a) m.key
  simp only [Holds, onActive, Table.lookup_insert, if_true, hlength, Option.some.injEq, Timers.timer]
  constructor
  · rintro ⟨rfl, htime⟩
    rw [← hlength, List.getElem?_append_right le_rfl] at htime
    simpa [eq_comm] using htime
  · rintro ⟨rfl, rfl⟩
    rw [← hlength, List.getElem?_append_right le_rfl]
    simp

theorem holds_onActive_other (h : Tended a) (hne : m.key ≠ m'.key) :
    (a.onActive m').Holds m i time ↔ a.Holds m i time := by
  simp only [Holds, onActive, Table.lookup_insert, if_neg hne, Timers.timer]
  refine and_congr_right fun hlookup => ?_
  have hlt : i < (a.cancelled m'.key).length := by
    rw [length_cancelled]
    exact h.lt_length hlookup
  rw [List.getElem?_append_left hlt, time_cancelled]

/-- A timer that runs out takes the entry that it is for. -/
theorem holds_visit (h : Tended a) (ht : a.timers[j]? = some t) (hpending : t.pending = true) :
    (a.visit j t).Holds m i time ↔ a.Holds m i time ∧ (j = i → a.now < time) := by
  have hself (hholds : a.Holds m i time) (heq : j = i) : t.time = time := by
    subst heq
    simpa [ht] using hholds.2
  unfold visit
  split
  · rename_i hdue
    simp only [Holds, time_expire]
    constructor
    · rintro ⟨hlookup, htime⟩
      have hentry : a.active.lookup m.key = some i ∧ (t.running = true → m.key ≠ t.callback) := by
        split at hlookup
        · rw [Table.lookup_erase] at hlookup
          obtain ⟨hkey, hlookup⟩ := Option.ite_none_left_eq_some.mp hlookup
          exact ⟨hlookup, fun _ => hkey⟩
        · exact ⟨hlookup, fun hrunning => absurd hrunning ‹_›⟩
      refine ⟨⟨hentry.1, htime⟩, ?_⟩
      rintro rfl
      obtain ⟨hrunning, hcallback⟩ := h.timer hentry.1 ht
      exact absurd hcallback.symm (hentry.2 hrunning)
    · rintro ⟨⟨hlookup, htime⟩, hearly⟩
      have hne : j ≠ i := fun heq =>
        absurd hdue (not_le.mpr (hself ⟨hlookup, htime⟩ heq ▸ hearly heq))
      refine ⟨?_, htime⟩
      split
      · rename_i hrunning
        rw [Table.lookup_erase, if_neg, hlookup]
        intro hkey
        have hentry := h.entry ht hpending hrunning
        rw [← hkey, hlookup] at hentry
        exact hne (Option.some.inj hentry).symm
      · exact hlookup
  · rename_i hearly
    rw [iff_self_and]
    intro hholds heq
    exact hself hholds heq ▸ not_le.mp hearly

/-- Names that `format` does not cut to one. -/
def Distinct (nets : List Bytes) : Prop :=
  ∀ net ∈ nets, ∀ net' ∈ nets, formatString net = formatString net' → net = net'

theorem key_distinct (hdistinct : Distinct nets) (hm : m.Valid) (hm' : m'.Valid)
    (hnet : m.net ∈ nets) (hnet' : m'.net ∈ nets) (hkey : m.key = m'.key) : m = m' := by
  obtain ⟨hnick, hchannel, hcut⟩ := (key_inj hm hm').mp hkey
  obtain ⟨nick, channel, net⟩ := m
  obtain ⟨nick', channel', net'⟩ := m'
  obtain rfl : nick = nick' := hnick
  obtain rfl : channel = channel' := hchannel
  obtain rfl : net = net' := hdistinct net hnet net' hnet' hcut
  rfl

/-- Who is active has a valid nick, in a channel that has a valid name. -/
theorem saidBy_valid {net : Bytes} {mapping : CaseMapping} {msg : Message} {text : Option Bytes}
    {nick channel : Bytes} (h : saidBy config net mapping msg text = some (nick, channel)) :
    isnick nick = true ∧ ischanname channel = true := by
  unfold saidBy at h
  split at h
  · obtain ⟨hvalid, h⟩ := Option.ite_none_right_eq_some.mp h
    obtain ⟨info, -, heq⟩ := Option.map_eq_some_iff.mp h
    obtain ⟨rfl, rfl⟩ := Prod.mk.inj heq
    exact hvalid
  · cases h

theorem spokenBy_valid {net : Bytes} {mapping : CaseMapping} {msg : Message} {nick channel : Bytes}
    (h : spokenBy config net mapping msg = some (nick, channel)) :
    isnick nick = true ∧ ischanname channel = true := by
  unfold spokenBy at h
  split at h
  · exact saidBy_valid h
  split at h
  · exact saidBy_valid h
  split at h
  · exact saidBy_valid (Option.ite_none_right_eq_some.mp h).2
  · cases h

theorem spoke_message {net : Bytes} {mapping : CaseMapping} {msg : Message} :
    Spoke config m (.message net mapping msg) ↔ ∃ nick channel,
      spokenBy config net mapping msg = some (nick, channel) ∧ m = member mapping nick channel net := by
  constructor
  · rintro ⟨net', mapping', msg', nick, channel, heq, hspoken, rfl⟩
    obtain ⟨rfl, rfl, rfl⟩ := Input.message.inj heq
    exact ⟨nick, channel, hspoken, rfl⟩
  · rintro ⟨nick, channel, hspoken, rfl⟩
    exact ⟨net, mapping, msg, nick, channel, rfl, hspoken, rfl⟩

/-- One step of what `Holds` follows. -/
theorem holds_step (hdistinct : Distinct nets) (h : Tended a) (hm : m.Valid) (hnet : m.net ∈ nets)
    (hs : step config nets a input = some b) : b.Holds m i time ↔
      (Spoke config m input ∧ i = a.timers.length ∧ time = a.now + 8 * 60 * 60) ∨
        (¬ Spoke config m input ∧ a.Holds m i time ∧ (input = .visit i → a.now < time)) := by
  cases input with
  | message net mapping msg =>
    obtain ⟨hmem, ⟨hspoken, rfl⟩ | ⟨nick, channel, hspoken, rfl⟩⟩ := step_message hs
    · have hsilent : ¬ Spoke config m (.message net mapping msg) := by
        simp [spoke_message, hspoken]
      simp [hsilent]
    · have hspoke : Spoke config m (.message net mapping msg) ↔
          m = member mapping nick channel net := by
        simp [spoke_message, hspoken]
      by_cases hself : m = member mapping nick channel net
      · have hone := hspoke.mpr hself
        rw [← hself, holds_onActive_self]
        simp [hone]
      · have hvalid := spokenBy_valid hspoken
        have hkey : m.key ≠ (member mapping nick channel net).key := fun hkey =>
          hself (key_distinct hdistinct hm (valid_member hvalid.1 hvalid.2) hnet hmem hkey)
        rw [holds_onActive_other h hkey]
        simp [hspoke, hself]
  | visit j =>
    obtain ⟨t, ht, hpending, rfl⟩ := step_visit hs
    have hsilent : ¬ Spoke config m (.visit j) := by
      rintro ⟨_, _, _, _, _, heq, -⟩
      cases heq
    rw [holds_visit h ht hpending]
    simp [hsilent]
  | clock now =>
    obtain rfl := Option.some.inj hs
    have hsilent : ¬ Spoke config m (.clock now) := by
      rintro ⟨_, _, _, _, _, heq, -⟩
      cases heq
    simp [hsilent, Holds]

/-! ### Runs -/

/-- What a run waits for, with one more input. -/
theorem awaits_snoc (h : run (step config nets) (start now) inputs = some a) :
    Awaits config nets now m (inputs ++ [input]) i time ↔
      (Spoke config m input ∧ i = a.timers.length ∧ time = a.now + 8 * 60 * 60) ∨
        (¬ Spoke config m input ∧ Awaits config nets now m inputs i time ∧
          (input = .visit i → a.now < time)) := by
  constructor
  · rintro ⟨before, said, after, u, hsplit, hspoke, hsilent, hrun, hi, htime, hearly⟩
    rcases List.eq_nil_or_concat after with rfl | ⟨after, last, rfl⟩
    · obtain ⟨rfl, hlast⟩ := List.append_inj' hsplit rfl
      obtain rfl := (List.cons.inj hlast).1
      obtain rfl := Option.some.inj (h.symm.trans hrun)
      exact Or.inl ⟨hspoke, hi, htime⟩
    · rw [List.concat_eq_append] at hsplit hsilent hearly
      rw [← List.cons_append, ← List.append_assoc] at hsplit
      obtain ⟨rfl, hlast⟩ := List.append_inj' hsplit rfl
      obtain rfl := (List.cons.inj hlast).1
      refine Or.inr ⟨hsilent input (by simp), ⟨before, said, after, u, rfl, hspoke,
        fun x hx => hsilent x (List.mem_append_left _ hx), hrun, hi, htime,
        fun mid rest b hafter => hearly mid (rest ++ [input]) b (by simp [hafter])⟩, ?_⟩
      rintro rfl
      exact hearly after [] a rfl h
  · rintro (⟨hspoke, hi, htime⟩ | ⟨hnot, hawaits, hlast⟩)
    · refine ⟨inputs, input, [], a, rfl, hspoke, nofun, h, hi, htime, fun mid rest b hnil => ?_⟩
      simp at hnil
    · obtain ⟨before, said, after, u, rfl, hspoke, hsilent, hrun, hi, htime, hearly⟩ := hawaits
      refine ⟨before, said, after ++ [input], u, by simp, hspoke, ?_, hrun, hi, htime, ?_⟩
      · exact List.forall_mem_append.mpr ⟨hsilent, List.forall_mem_singleton.mpr hnot⟩
      · intro mid rest b hafter hb
        rcases List.eq_nil_or_concat rest with rfl | ⟨rest, last, rfl⟩
        · obtain ⟨rfl, heq⟩ := List.append_inj' hafter rfl
          obtain rfl := Option.some.inj (h.symm.trans hb)
          exact hlast (List.cons.inj heq).1
        · rw [List.concat_eq_append, ← List.cons_append, ← List.append_assoc] at hafter
          exact hearly mid rest b (List.append_inj' hafter rfl).1 hb

/-- The entries are the members that are waited for. -/
theorem holds_run (hdistinct : Distinct nets) (hm : m.Valid) (hnet : m.net ∈ nets)
    (h : run (step config nets) (start now) inputs = some a) :
    a.Holds m i time ↔ Awaits config nets now m inputs i time := by
  induction inputs using List.reverseRecOn generalizing a i time with
  | nil =>
    obtain rfl := Option.some.inj h
    refine iff_of_false (fun hholds => ?_) ?_
    · cases hholds.1
    · rintro ⟨before, said, after, u, hsplit, -⟩
      simp at hsplit
  | append_singleton inputs input ih =>
    obtain ⟨u, hu, hlast⟩ := run_snoc h
    rw [holds_step hdistinct (tended_run hu) hm hnet hlast, awaits_snoc hu, ih hu]

/-- In every run `active_members` has exactly the members whose last timer has not run out, each in a
place of its own, if and only if `format` cuts no two names of networks to one. -/
theorem active_members_iff (config : Config) (nets : List Bytes) (now : ℚ) :
    Distinct nets ↔ ∀ inputs a, run (step config nets) (start now) inputs = some a →
      Windowed config nets now inputs a := by
  constructor
  · intro hdistinct inputs a hrun
    refine ⟨fun mapping nick channel net hnick hchannel hnet => ?_, ?_⟩
    · have hvalid : (member mapping nick channel net).Valid := valid_member hnick hchannel
      have hholds (i : Nat) (time : ℚ) : a.Holds (member mapping nick channel net) i time ↔
          Awaits config nets now (member mapping nick channel net) inputs i time :=
        holds_run hdistinct hvalid hnet hrun
      rw [Option.isSome_iff_exists]
      refine exists_congr fun i => ⟨fun hlookup => ?_, ?_⟩
      · have hlt := (tended_run hrun).lt_length hlookup
        exact ⟨_, (hholds i _).mp ⟨hlookup, by rw [List.getElem?_eq_getElem hlt, Option.map_some]⟩⟩
      · rintro ⟨time, hawaits⟩
        exact ((hholds i time).mpr hawaits).1
    · intro mapping nick channel net mapping' nick' channel' net' hnick hchannel hnet hnick' hchannel'
        hnet' hkey
      exact key_distinct hdistinct (valid_member hnick hchannel) (valid_member hnick' hchannel') hnet
        hnet' hkey
  · intro hall net hnet net' hnet' hcut
    have hvalid (net : Bytes) : (member .ascii "a" "#a" net).Valid := valid_member rfl rfl
    have hkey := (key_inj (hvalid net) (hvalid net')).mpr ⟨rfl, rfl, hcut⟩
    have happart := (hall [] _ rfl).apart .ascii "a" "#a" net .ascii "a" "#a" net' rfl rfl hnet rfl rfl
      hnet' hkey
    exact congrArg Member.net happart

/-- The names of the two networks differ behind a NUL. Ann has spoken on the first only, and counts
as active on the second. -/
theorem active_elsewhere :
    let config : Config := ⟨[⟨[⟨"A", "#c"⟩], false, false⟩], [[3, 51]], [15], by simp⟩
    let msg : Message := ⟨0, ":Ann!u@h PRIVMSG #c :hi", ⟨some "Ann", some "u", some "h",
      some "Ann!u@h"⟩, "PRIVMSG", ["#c", "hi"]⟩
    let inputs := [Input.message "A" .rfc1459 msg]
    ∃ a, run (step config ["A", [65, 0]]) (start 0) inputs = some a ∧
      (a.active.lookup (member .rfc1459 "Ann" "#c" [65, 0]).key).isSome ∧
      ¬ Windowed config ["A", [65, 0]] 0 inputs a := by
  intro config msg inputs
  have hspoken : spokenBy config "A" .rfc1459 msg = some (lit "Ann", lit "#c") := by decide +kernel
  have hactive : (((start 0).onActive (member .rfc1459 "Ann" "#c" "A")).active.lookup
      (member .rfc1459 "Ann" "#c" [65, 0]).key).isSome := by decide +kernel
  refine ⟨(start 0).onActive (member .rfc1459 "Ann" "#c" "A"), ?_, hactive, fun hwindowed => ?_⟩
  · simp [inputs, run, step, hspoken]
  · obtain ⟨i, time, before, input, after, u, hsplit, hspoke, -⟩ :=
      (hwindowed.active .rfc1459 "Ann" "#c" [65, 0] rfl rfl (by simp)).mp hactive
    have hinput : input ∈ inputs := by simp [hsplit]
    obtain rfl := List.mem_singleton.mp hinput
    obtain ⟨nick, channel, -, hmember⟩ := spoke_message.mp hspoke
    have hnet : ([65, 0] : Bytes) = lit "A" := congrArg Member.net hmember
    exact absurd hnet (by decide)

end Activity

end TuxBot.Plugins.Relay
