import TuxBot.Consecutive
import TuxBot.EventLoop
import TuxBot.Irc.Session
import TuxBot.Lua.Effect
import TuxBot.Machine

/-! The floodkick plugin on one Client: who says too much in a channel is kicked. -/
namespace TuxBot.Plugins

open TuxBot.Lua TuxBot.Lua.Pattern TuxBot.Irc TuxBot.Machine

namespace Floodkick

/-- The configuration: `pattern` tells which texts match, `tmpban` whether that plugin is loaded. -/
structure Config where
  pattern : Bytes → Bool
  count : Nat
  interval : ℚ
  bantime : ℚ
  kickmsg : Bytes
  tmpban : Bool

/-- `'^.*$'` -/
def anyPattern : List (Item UInt8) := [.star fun _ => true, .eos]

/-- What an empty configuration amounts to. -/
def Config.default : Config where
  pattern text := (matchHere anyPattern text).isSome
  count := 10
  interval := 8 / 5
  bantime := 30
  kickmsg := "Flooding"
  tmpban := false

/-- An entry of `timers`. -/
structure Burst where
  count : Nat
  timer : Nat
  deriving DecidableEq

/-- A message that the plugin looked at, and whether it acted on it. -/
structure Heard where
  time : ℚ
  chan : Bytes
  nick : Option Bytes
  acted : Bool
  deriving DecidableEq

end Floodkick

/-- The plugin with its Client. `name` is `bot.clients[client].name`, `loop` are the timers of the event
loop, whose callbacks are known by their key, and `sent` is what `sendmessage` was called with. The
plugin does not read `heard`, a record of what happened that begins with the newest message. -/
structure Floodkick where
  name : Bytes
  session : Session
  now : ℚ
  loop : Timers Bytes
  timers : Table Floodkick.Burst
  sent : List (Bytes × List Bytes)
  heard : List Floodkick.Heard
  deriving DecidableEq

namespace Floodkick

/-- `msg.args[1]..' '..bot.clients[client].name` -/
def key (s : Floodkick) (chan : Bytes) : Bytes := chan ++ lit " " ++ s.name

/-- The arguments end at the first that is nil. -/
def kick (o : Config) (chan : Bytes) (nick : Option Bytes) : Bytes × List Bytes :=
  ("KICK", match nick with
    | some nick => [chan, nick, o.kickmsg]
    | none => [chan])

def sendmessage (message : Bytes × List Bytes) : Eff Floodkick Unit := do
  let s ← get
  if s.session.state = .connected ∨ s.session.state = .registering then
    set { s with sent := s.sent ++ [message] }
  else
    throw "irc.Client.sendmessage can only be caled in the \"connected\" and \"registering\" states"

/-- `timers[key] = {count=count, timer=bot.eventloop:timer(interval, ...)}` -/
def arm (s : Floodkick) (o : Config) (key : Bytes) (count : Nat) : Floodkick :=
  { s with
    loop := s.loop.timer (s.now + o.interval) key
    timers := s.timers.insert key ⟨count, s.loop.length⟩ }

/-- `msghandler`. The environment of a plugin has no field `env`. -/
def msghandler (o : Config) (msg : Message) : Eff Floodkick Unit := do
  if msg.cmd = lit "PRIVMSG" ∨ msg.cmd = lit "NOTICE" then
    match msg.args with
    | chan :: text :: _ =>
      if o.pattern text ∧ ischanname chan then do
        let s ← get
        let key := s.key chan
        match s.timers.lookup key with
        | some t =>
          if o.count ≤ t.count + 1 then do
            set { s with timers := s.timers.erase key }
            if o.tmpban then throw "attempt to index field 'env' (a nil value)"
            else sendmessage (kick o chan msg.sender.nick)
          else
            set ({ s with loop := s.loop.cancel t.timer }.arm o key (t.count + 1))
        | none => set (s.arm o key 1)
    | _ => throw "attempt to index a nil value"

/-- The channel of a message that the plugin looks at. -/
def counted (o : Config) (msg : Message) : Option Bytes :=
  match msg.args with
  | chan :: text :: _ => if o.pattern text ∧ ischanname chan then some chan else none
  | _ => none

/-- What can happen: a PRIVMSG or NOTICE, the passing of time and the expiry of a timer. -/
inductive Input where
  | message (msg : Message)
  | wait (seconds : ℚ)
  | fire (i : Nat)

def step (o : Config) (s : Floodkick) : Input → Option Floodkick
  | .message msg =>
    if msg.cmd = lit "PRIVMSG" ∨ msg.cmd = lit "NOTICE" then
      let handled := ((msghandler o msg).pcall s).2
      match counted o msg with
      | some chan =>
        some { handled with
          heard := ⟨s.now, chan, msg.sender.nick, handled.sent != s.sent⟩ :: s.heard }
      | none => some handled
    else none
  | .wait seconds => if 0 ≤ seconds then some { s with now := s.now + seconds } else none
  | .fire i =>
    (s.loop.due s.now i).map fun key =>
      { s with loop := s.loop.expire i, timers := s.timers.erase key }

/-- The plugin has just been loaded. -/
def start (name : Bytes) (session : Session) (now : ℚ) : Floodkick :=
  ⟨name, session, now, [], ∅, [], []⟩

/-! ### What the plugin is for -/

def inChannel (mapping : CaseMapping) (chan : Bytes) (h : Heard) : Bool := mapping.nameeq h.chan chan

def fromNick (mapping : CaseMapping) (chan : Bytes) (nick : Option Bytes) (h : Heard) : Bool :=
  inChannel mapping chan h && h.nick == nick

/-- The messages of a nick in a channel, back to a pause or to the one that was acted on. -/
def streak (o : Config) (mapping : CaseMapping) (chan : Bytes) (nick : Option Bytes) :
    ℚ → List Heard → List Heard :=
  consecutive Heard.time Heard.acted o.interval (fromNick mapping chan nick)

/-- The messages in a channel, back to a pause or to one that was acted on. -/
def burst (o : Config) (mapping : CaseMapping) (chan : Bytes) : ℚ → List Heard → List Heard :=
  consecutive Heard.time Heard.acted o.interval (inChannel mapping chan)

/-- Every message was acted on exactly if it completed `count` consecutive ones of its nick. -/
def Right (o : Config) (mapping : CaseMapping) : List Heard → Prop
  | [] => True
  | h :: earlier =>
    (h.acted = true ↔ o.count ≤ (streak o mapping h.chan h.nick h.time earlier).length + 1) ∧
      Right o mapping earlier

/-- Flooders are kicked, and nobody else. -/
structure KicksFlooders (o : Config) (s : Floodkick) : Prop where
  right : Right o s.session.mapping s.heard
  sent : s.sent = ((s.heard.filter Heard.acted).map fun h => kick o h.chan h.nick).reverse

/-- A message finds its channel in the hands of one spelling and, if it is the `count`th of the burst,
of one nick; the timer of the burst is not late, and has not run out at this very moment; and a timer
that runs out is the one of the present burst. -/
def Apart (o : Config) (s : Floodkick) : Input → Prop
  | .message msg => ∀ chan ∈ counted o msg,
    (∀ g ∈ burst o s.session.mapping chan s.now s.heard, g.chan = chan) ∧
      ((burst o s.session.mapping chan s.now s.heard).length + 1 < o.count ∨
        ∀ g ∈ burst o s.session.mapping chan s.now s.heard, g.nick = msg.sender.nick) ∧
      (∀ b ∈ s.timers.lookup (s.key chan), ∀ t ∈ s.loop.live b.timer, s.now ≤ t.time) ∧
      ∀ g ∈ (burst o s.session.mapping chan s.now s.heard).head?,
        g.time + o.interval = s.now → (s.timers.lookup (s.key chan)).isSome
  | .wait _ => True
  | .fire i => ∀ key ∈ s.loop.due s.now i, ∀ b ∈ s.timers.lookup key, b.timer = i

instance decidableApart (o : Config) (s : Floodkick) (i : Input) : Decidable (Apart o s i) := by
  cases i <;> unfold Apart <;> infer_instance

variable {o : Config} {mapping : CaseMapping} {s t : Floodkick} {chan : Bytes} {nick : Option Bytes}
  {now : ℚ} {log : List Heard} {g h : Heard} {b : Burst} {msg : Message}

/-! ### Bursts and streaks -/

theorem inChannel_iff : inChannel mapping chan h = true ↔ mapping.lower h.chan = mapping.lower chan :=
  CaseMapping.nameeq_iff mapping h.chan chan

theorem inChannel_of_fromNick (hfrom : fromNick mapping chan nick h = true) :
    inChannel mapping chan h = true := (Bool.and_eq_true_iff.mp hfrom).1

/-- Channels that fold alike have the same bursts. -/
theorem burst_congr (hin : inChannel mapping chan h = true) :
    burst o mapping h.chan = burst o mapping chan := by
  have hsame : inChannel mapping h.chan = inChannel mapping chan := by
    funext g
    rw [Bool.eq_iff_iff, inChannel_iff, inChannel_iff, inChannel_iff.mp hin]
  rw [burst, burst, hsame]

/-- Only one nick took part in the bursts that were acted on. -/
def EndedByOne (o : Config) (mapping : CaseMapping) : List Heard → Prop
  | [] => True
  | h :: earlier =>
    (h.acted = true → ∀ g ∈ burst o mapping h.chan h.time earlier, g.nick = h.nick) ∧
      EndedByOne o mapping earlier

theorem endsApart_of_endedByOne (hone : EndedByOne o mapping log) :
    EndsApart Heard.time Heard.acted o.interval (fromNick mapping chan nick) (inChannel mapping chan)
      log := by
  induction log with
  | nil => trivial
  | cons h log ih =>
    refine ⟨fun hin hacted hother g hg => ?_, ih hone.2⟩
    have hnick : g.nick = h.nick := by
      apply hone.1 hacted g
      rwa [burst_congr hin]
    simpa [fromNick, hin, hnick, (mem_consecutive hg).2.1] using hother

theorem streak_le (hone : EndedByOne o mapping log)
    (hsorted : log.Pairwise fun e g => g.time ≤ e.time) (hpast : ∀ h ∈ log, h.time ≤ now) :
    (streak o mapping chan nick now log).length ≤ (burst o mapping chan now log).length :=
  (consecutive_sublist (fun _ => inChannel_of_fromNick) hsorted (endsApart_of_endedByOne hone)
    hpast).length_le

theorem le_streak (hall : ∀ g ∈ burst o mapping chan now log, g.nick = nick) :
    (burst o mapping chan now log).length ≤ (streak o mapping chan nick now log).length := by
  refine length_consecutive_le (fun _ => inChannel_of_fromNick) fun g hg => ?_
  simp [fromNick, (mem_consecutive hg).2.1, hall g hg]

/-! ### What the handler does -/

theorem key_injective (hkey : s.key chan = s.key h.chan) : chan = h.chan :=
  List.append_cancel_right (List.append_cancel_right hkey)

theorem msghandler_skip (hcounted : counted o msg = none) :
    ((msghandler o msg).pcall s).2 = s := by
  rw [msghandler]
  split
  · rw [counted] at hcounted
    split at hcounted
    · rename_i chan text _ _
      have hnot : ¬ (o.pattern text = true ∧ ischanname chan = true) := by
        intro h
        rw [if_pos h] at hcounted
        cases hcounted
      simp only [if_neg hnot]
      rfl
    · rfl
  · rfl

theorem msghandler_eq (htmpban : o.tmpban = false)
    (hstate : s.session.state = .connected ∨ s.session.state = .registering)
    (hcmd : msg.cmd = lit "PRIVMSG" ∨ msg.cmd = lit "NOTICE") (hcounted : counted o msg = some chan) :
    ((msghandler o msg).pcall s).2 =
      match s.timers.lookup (s.key chan) with
      | some b =>
        if o.count ≤ b.count + 1 then
          { s with
            timers := s.timers.erase (s.key chan)
            sent := s.sent ++ [kick o chan msg.sender.nick] }
        else { s with loop := s.loop.cancel b.timer }.arm o (s.key chan) (b.count + 1)
      | none => s.arm o (s.key chan) 1 := by
  rw [counted] at hcounted
  split at hcounted
  · rename_i chan' text _ hargs
    obtain ⟨hmatch, ⟨⟩⟩ := Option.ite_none_right_eq_some.mp hcounted
    rw [msghandler, if_pos hcmd, hargs]
    simp only [if_pos hmatch, Eff.pcall, Eff.get_bind_eq]
    cases hlookup : s.timers.lookup (s.key chan) with
    | none => rfl
    | some b =>
      by_cases hfull : o.count ≤ b.count + 1
      · have hset : (set { s with timers := s.timers.erase (s.key chan) } : Eff Floodkick PUnit) s =
            .ok ⟨⟩ { s with timers := s.timers.erase (s.key chan) } := rfl
        simp only [if_pos hfull, Eff.bind_of_ok hset, htmpban, Bool.false_eq_true, if_false,
          sendmessage, Eff.get_bind_eq, if_pos hstate]
        rfl
      · simp only [if_neg hfull]
        rfl
  · cases hcounted

/-! ### What every run keeps -/

/-- The entry of a channel counts its burst, and its timer ends it. -/
structure Counts (o : Config) (s : Floodkick) (stored : Bytes) (b : Burst) (chan : Bytes)
    (t : Timer Bytes) : Prop where
  key : stored = s.key chan
  live : s.loop.live b.timer = some t
  callback : t.callback = stored
  /-- Either the timer is late or the burst is still going on. -/
  going : t.time < s.now ∨ ∃ g rest, burst o s.session.mapping chan t.time s.heard = g :: rest ∧
    g.chan = chan ∧ g.time + o.interval = t.time ∧ (g :: rest).length = b.count

structure Inv (o : Config) (s : Floodkick) : Prop extends KicksFlooders o s where
  state : s.session.state = .connected ∨ s.session.state = .registering
  past : ∀ h ∈ s.heard, h.time ≤ s.now
  sorted : s.heard.Pairwise fun e g => g.time ≤ e.time
  ended : EndedByOne o s.session.mapping s.heard
  entries : ∀ key b, s.timers.lookup key = some b → ∃ chan t, Counts o s key b chan t
  /-- An open burst has its entry. -/
  kept : ∀ chan g rest, burst o s.session.mapping chan s.now s.heard = g :: rest →
    s.now < g.time + o.interval → ∃ b t, s.timers.lookup (s.key g.chan) = some b ∧
      s.loop.live b.timer = some t ∧ t.time = g.time + o.interval

/-- The state after a message. -/
def hear (s : Floodkick) (chan : Bytes) (nick : Option Bytes) (acted : Bool) : Floodkick :=
  { s with heard := ⟨s.now, chan, nick, acted⟩ :: s.heard }

theorem inv_start {name : Bytes} {session : Session}
    (hstate : session.state = .connected ∨ session.state = .registering) :
    Inv o (start name session now) where
  right := trivial
  sent := rfl
  state := hstate
  past := nofun
  sorted := List.Pairwise.nil
  ended := trivial
  entries := nofun
  kept := nofun

/-- The entries of other keys count on: of another channel nothing new was heard, and another spelling
of this one is late. -/
theorem counts_hear {key : Bytes} {chan' : Bytes} {timer : Timer Bytes} {acted : Bool}
    (hclear : ∀ g ∈ burst o s.session.mapping chan s.now s.heard, g.chan = chan)
    (hkey : key ≠ s.key chan) (hcounts : Counts o s key b chan' timer) :
    timer.time < s.now ∨ ∃ g rest,
      burst o s.session.mapping chan' timer.time (s.hear chan nick acted).heard = g :: rest ∧
        g.chan = chan' ∧ g.time + o.interval = timer.time ∧ (g :: rest).length = b.count := by
  rcases hcounts.going with hlate | ⟨g, rest, hburst, hchan, htime, hcount⟩
  · exact Or.inl hlate
  by_cases hin : inChannel s.session.mapping chan' ⟨s.now, chan, nick, acted⟩ = true
  · left
    rw [← not_le]
    intro hnow
    have hsame : burst o s.session.mapping chan' s.now s.heard = g :: rest :=
      (head_consecutive hburst).2 s.now (htime ▸ hnow)
    have hg := hclear g
    rw [show burst o s.session.mapping chan = _ from burst_congr hin, hsame] at hg
    exact hkey (hcounts.key.trans (congrArg s.key (hchan.symm.trans (hg List.mem_cons_self))))
  · refine Or.inr ⟨g, rest, ?_, hchan, htime, hcount⟩
    exact (consecutive_skip (Bool.not_eq_true _ ▸ hin)).trans hburst

/-- The entry of a burst in another channel is where it was. -/
theorem kept_hear {chan' : Bytes} {rest : List Heard} {acted : Bool} (hinv : Inv o s)
    (hout : inChannel s.session.mapping chan' ⟨s.now, chan, nick, acted⟩ = false)
    (hburst : burst o s.session.mapping chan' s.now (s.hear chan nick acted).heard = g :: rest)
    (hopen : s.now < g.time + o.interval) :
    s.key g.chan ≠ s.key chan ∧ ∃ b t, s.timers.lookup (s.key g.chan) = some b ∧
      s.loop.live b.timer = some t ∧ t.time = g.time + o.interval := by
  have hold := (consecutive_skip hout).symm.trans hburst
  refine ⟨fun hkey => ?_, hinv.kept chan' g rest hold hopen⟩
  have hmem : g ∈ burst o s.session.mapping chan' s.now s.heard := by
    rw [show burst o s.session.mapping chan' s.now s.heard = g :: rest from hold]
    exact List.mem_cons_self
  have hin := inChannel_iff.mp (mem_consecutive hmem).2.1
  rw [key_injective (h := ⟨s.now, chan, nick, acted⟩) hkey] at hin
  rw [inChannel_iff.mpr hin] at hout
  cases hout

theorem sent_hear (hinv : Inv o s) (acted : Bool) :
    s.sent ++ (if acted then [kick o chan nick] else []) =
      (((s.hear chan nick acted).heard.filter Heard.acted).map
        fun h => kick o h.chan h.nick).reverse := by
  cases acted with
  | true => simp [hear, hinv.sent]
  | false => simp [hear, hinv.sent]

/-- The message completes the burst of one nick: it is acted on. -/
theorem inv_act (hinv : Inv o s)
    (hclear : ∀ g ∈ burst o s.session.mapping chan s.now s.heard, g.chan = chan)
    (hone : ∀ g ∈ burst o s.session.mapping chan s.now s.heard, g.nick = nick)
    (hfull : o.count ≤ (burst o s.session.mapping chan s.now s.heard).length + 1) :
    Inv o (hear
      { s with timers := s.timers.erase (s.key chan), sent := s.sent ++ [kick o chan nick] }
      chan nick true) where
  right := by
    refine ⟨iff_of_true rfl (hfull.trans ?_), hinv.right⟩
    exact Nat.succ_le_succ (le_streak hone)
  sent := sent_hear hinv true
  state := hinv.state
  past := List.forall_mem_cons.mpr ⟨le_rfl, hinv.past⟩
  sorted := List.pairwise_cons.mpr ⟨hinv.past, hinv.sorted⟩
  ended := ⟨fun _ => hone, hinv.ended⟩
  entries := by
    intro key b hlookup
    have hlookup := Table.lookup_erase.symm.trans hlookup
    split at hlookup
    · cases hlookup
    · rename_i hkey
      obtain ⟨chan', timer, hcounts⟩ := hinv.entries key b hlookup
      exact ⟨chan', timer, hcounts.key, hcounts.live, hcounts.callback, counts_hear hclear hkey hcounts⟩
  kept := by
    intro chan' g rest hburst hopen
    cases hin : inChannel s.session.mapping chan' ⟨s.now, chan, nick, true⟩ with
    | true =>
      have hstop := (consecutive_stop hin (Or.inl rfl)).symm.trans hburst
      cases hstop
    | false =>
      obtain ⟨hkey, b, timer, hlookup, hrest⟩ := kept_hear hinv hin hburst hopen
      exact ⟨b, timer, Table.lookup_erase.trans ((if_neg hkey).trans hlookup), hrest⟩

/-- The message lengthens the burst, which stays below the threshold. -/
theorem inv_arm {loop : Timers Bytes} {k : Nat} (hinv : Inv o s)
    (hclear : ∀ g ∈ burst o s.session.mapping chan s.now s.heard, g.chan = chan)
    (hlength : (burst o s.session.mapping chan s.now s.heard).length = k) (hless : k + 1 < o.count)
    (hloop : ∀ key b t, s.timers.lookup key = some b → key ≠ s.key chan →
      s.loop.live b.timer = some t → loop.live b.timer = some t) :
    Inv o (({ s with loop }.arm o (s.key chan) (k + 1)).hear chan nick false) where
  right := by
    refine ⟨iff_of_false Bool.false_ne_true ?_, hinv.right⟩
    have hstreak : (streak o s.session.mapping chan nick s.now s.heard).length ≤
        (burst o s.session.mapping chan s.now s.heard).length :=
      streak_le hinv.ended hinv.sorted hinv.past
    exact Nat.not_le.mpr (lt_of_le_of_lt (Nat.succ_le_succ (hlength ▸ hstreak)) hless)
  sent := (List.append_nil _).symm.trans (sent_hear hinv false)
  state := hinv.state
  past := List.forall_mem_cons.mpr ⟨le_rfl, hinv.past⟩
  sorted := List.pairwise_cons.mpr ⟨hinv.past, hinv.sorted⟩
  ended := ⟨nofun, hinv.ended⟩
  entries := by
    intro key b hlookup
    have hlookup := Table.lookup_insert.symm.trans hlookup
    split at hlookup
    · rename_i hkey
      cases hlookup
      refine ⟨chan, ⟨s.now + o.interval, true, true, s.key chan⟩, hkey, ?_, hkey.symm, Or.inr ?_⟩
      · exact Timers.live_timer.trans (if_pos rfl)
      · refine ⟨_, _, consecutive_cons ?_ rfl le_rfl, rfl, rfl, ?_⟩
        · exact inChannel_iff.mpr rfl
        · rw [List.length_cons]
          exact congrArg (· + 1) hlength
    · rename_i hkey
      obtain ⟨chan', timer, hcounts⟩ := hinv.entries key b hlookup
      have hlive := hloop key b timer hlookup hkey hcounts.live
      refine ⟨chan', timer, hcounts.key, ?_, hcounts.callback, counts_hear hclear hkey hcounts⟩
      exact Timers.live_timer.trans ((if_neg (Timers.lt_length_of_live hlive).ne).trans hlive)
  kept := by
    intro chan' g rest hburst hopen
    cases hin : inChannel s.session.mapping chan' ⟨s.now, chan, nick, false⟩ with
    | true =>
      have hcons := (consecutive_cons hin rfl (not_lt.mp fun hlt => ?_)).symm.trans hburst
      · obtain ⟨rfl, -⟩ := List.cons.inj hcons
        exact ⟨⟨k + 1, loop.length⟩, ⟨s.now + o.interval, true, true, s.key chan⟩,
          Table.lookup_insert.trans (if_pos rfl), Timers.live_timer.trans (if_pos rfl), rfl⟩
      · have hstop := (consecutive_stop hin (Or.inr hlt)).symm.trans hburst
        cases hstop
    | false =>
      obtain ⟨hkey, b, timer, hlookup, hlive, htime⟩ := kept_hear hinv hin hburst hopen
      have hlive := hloop _ b timer hlookup hkey hlive
      exact ⟨b, timer, Table.lookup_insert.trans ((if_neg hkey).trans hlookup),
        Timers.live_timer.trans ((if_neg (Timers.lt_length_of_live hlive).ne).trans hlive), htime⟩

/-- An entry that is not late counts the whole burst of its channel. -/
theorem length_burst (hinv : Inv o s) (hlookup : s.timers.lookup (s.key chan) = some b)
    (hintime : ∀ b ∈ s.timers.lookup (s.key chan), ∀ t ∈ s.loop.live b.timer, s.now ≤ t.time) :
    (burst o s.session.mapping chan s.now s.heard).length = b.count := by
  obtain ⟨chan', timer, hcounts⟩ := hinv.entries _ b hlookup
  obtain rfl : chan' = chan :=
    (key_injective (h := ⟨s.now, chan', none, false⟩) hcounts.key).symm
  have hnow := hintime b hlookup timer hcounts.live
  rcases hcounts.going with hlate | ⟨g, rest, hburst, -, htime, hcount⟩
  · exact absurd hlate hnow.not_gt
  · have hsame : burst o s.session.mapping chan' s.now s.heard = g :: rest :=
      (head_consecutive hburst).2 s.now (htime ▸ hnow)
    rw [hsame, hcount]

/-- Without an entry there is no burst. -/
theorem burst_eq_nil (hinv : Inv o s) (hlookup : s.timers.lookup (s.key chan) = none)
    (hclear : ∀ g ∈ burst o s.session.mapping chan s.now s.heard, g.chan = chan)
    (hmoment : ∀ g ∈ (burst o s.session.mapping chan s.now s.heard).head?,
      g.time + o.interval = s.now → (s.timers.lookup (s.key chan)).isSome) :
    burst o s.session.mapping chan s.now s.heard = [] := by
  cases hburst : burst o s.session.mapping chan s.now s.heard with
  | nil => rfl
  | cons g rest =>
    rw [hburst] at hclear hmoment
    have hchan := hclear g List.mem_cons_self
    rcases (head_consecutive hburst).1.lt_or_eq with hopen | hmeets
    · obtain ⟨b, t, hsome, -⟩ := hinv.kept chan g rest hburst hopen
      rw [hchan, hlookup] at hsome
      cases hsome
    · have hsome := hmoment g rfl hmeets.symm
      rw [hlookup] at hsome
      cases hsome

/-- Different keys have different timers. -/
theorem timer_ne {k k' : Bytes} {b' : Burst} (hinv : Inv o s) (hb : s.timers.lookup k = some b)
    (hb' : s.timers.lookup k' = some b') (hne : k' ≠ k) : b'.timer ≠ b.timer := by
  intro hsame
  obtain ⟨_, t, hcounts⟩ := hinv.entries k b hb
  obtain ⟨_, t', hcounts'⟩ := hinv.entries k' b' hb'
  have hlive := hcounts'.live
  rw [hsame, hcounts.live] at hlive
  cases hlive
  exact hne (hcounts'.callback.symm.trans hcounts.callback)

theorem inv_message (htmpban : o.tmpban = false) (hcount : 2 ≤ o.count) (hinv : Inv o s)
    (happart : Apart o s (.message msg)) (hstep : step o s (.message msg) = some t) : Inv o t := by
  obtain ⟨hcmd, hstep⟩ := Option.ite_none_right_eq_some.mp hstep
  cases hcounted : counted o msg with
  | none =>
    rw [hcounted] at hstep
    obtain rfl := Option.some.inj hstep
    rwa [msghandler_skip hcounted]
  | some chan =>
    obtain ⟨hclear, hone, hintime, hmoment⟩ := happart chan hcounted
    rw [hcounted] at hstep
    obtain rfl := Option.some.inj hstep
    rw [msghandler_eq htmpban hinv.state hcmd hcounted]
    cases hlookup : s.timers.lookup (s.key chan) with
    | none =>
      have hnil := burst_eq_nil hinv hlookup hclear hmoment
      have hacted : ((s.arm o (s.key chan) 1).sent != s.sent) = false := bne_self_eq_false s.sent
      simp only [hacted]
      exact inv_arm hinv hclear (by rw [hnil]; rfl) hcount fun _ _ _ _ _ hlive => hlive
    | some b =>
      have hlength := length_burst hinv hlookup hintime
      by_cases hfull : o.count ≤ b.count + 1
      · have hacted : (s.sent ++ [kick o chan msg.sender.nick] != s.sent) = true := by simp
        simp only [if_pos hfull, hacted]
        rw [← hlength] at hfull
        exact inv_act hinv hclear (hone.resolve_left (Nat.not_lt.mpr hfull)) hfull
      · simp only [if_neg hfull]
        have hacted : ((arm { s with loop := s.loop.cancel b.timer } o (s.key chan)
            (b.count + 1)).sent != s.sent) = false := bne_self_eq_false s.sent
        simp only [hacted]
        refine inv_arm hinv hclear hlength (Nat.not_le.mp hfull) ?_
        intro key b' t hother hkey hlive
        have hne := timer_ne hinv hlookup hother hkey
        exact Timers.live_cancel.trans ((if_neg hne).trans hlive)

theorem inv_wait {seconds : ℚ} (hinv : Inv o s) (hpos : 0 ≤ seconds) :
    Inv o { s with now := s.now + seconds } := by
  have hnow : s.now ≤ s.now + seconds := le_add_of_nonneg_right hpos
  refine ⟨⟨hinv.right, hinv.sent⟩, hinv.state, fun h hh => (hinv.past h hh).trans hnow, hinv.sorted,
    hinv.ended, ?_, ?_⟩
  · intro key b hlookup
    obtain ⟨chan, t, hcounts⟩ := hinv.entries key b hlookup
    exact ⟨chan, t, hcounts.key, hcounts.live, hcounts.callback,
      hcounts.going.imp_left fun hlate => lt_of_lt_of_le hlate hnow⟩
  · intro chan g rest hburst hopen
    have hbefore : consecutive Heard.time Heard.acted o.interval (inChannel s.session.mapping chan)
        s.now s.heard = g :: rest :=
      (head_consecutive hburst).2 s.now (hnow.trans hopen.le)
    exact hinv.kept chan g rest hbefore (lt_of_le_of_lt hnow hopen)

theorem inv_fire {i : Nat} {key : Bytes} (hinv : Inv o s)
    (hown : ∀ b, s.timers.lookup key = some b → b.timer = i) (hdue : s.loop.due s.now i = some key) :
    Inv o { s with loop := s.loop.expire i, timers := s.timers.erase key } := by
  obtain ⟨timer, hlive, htime, hcallback⟩ := Timers.live_of_due hdue
  have hother : ∀ {k b t}, k ≠ key → s.loop.live b = some t → t.callback = k → b ≠ i := by
    rintro k b t hk hb rfl rfl
    rw [hlive] at hb
    cases hb
    exact hk hcallback
  refine ⟨⟨hinv.right, hinv.sent⟩, hinv.state, hinv.past, hinv.sorted, hinv.ended, ?_, ?_⟩
  · intro k b hlookup
    have hlookup := Table.lookup_erase.symm.trans hlookup
    split at hlookup
    · cases hlookup
    · rename_i hk
      obtain ⟨chan, t, hcounts⟩ := hinv.entries k b hlookup
      have hne := hother hk hcounts.live hcounts.callback
      exact ⟨chan, t, hcounts.key, Timers.live_expire.trans ((if_neg hne).trans hcounts.live),
        hcounts.callback, hcounts.going⟩
  · intro chan g rest hburst hopen
    obtain ⟨b, t, hlookup, hb, ht⟩ := hinv.kept chan g rest hburst hopen
    have hne : b.timer ≠ i := by
      rintro rfl
      rw [hlive] at hb
      cases hb
      exact absurd (lt_of_lt_of_eq hopen ht.symm) htime.not_gt
    have hk : s.key g.chan ≠ key := by
      rintro rfl
      exact hne (hown b hlookup)
    exact ⟨b, t, Table.lookup_erase.trans ((if_neg hk).trans hlookup),
      Timers.live_expire.trans ((if_neg hne).trans hb), ht⟩

theorem inv_step {i : Input} (htmpban : o.tmpban = false) (hcount : 2 ≤ o.count) (hinv : Inv o s)
    (happart : Apart o s i) (hstep : step o s i = some t) : Inv o t := by
  cases i with
  | message msg => exact inv_message htmpban hcount hinv happart hstep
  | wait seconds =>
    obtain ⟨hpos, ⟨⟩⟩ := Option.ite_none_right_eq_some.mp hstep
    exact inv_wait hinv hpos
  | fire i =>
    obtain ⟨key, hdue, rfl⟩ := Option.map_eq_some_iff.mp hstep
    exact inv_fire hinv (fun b hb => happart key hdue b hb) hdue

/-- With a threshold of at least two and without the tmpban plugin, every message of a run is acted on
exactly if it completes `count` consecutive ones of its nick, when the steps stay apart. -/
theorem flooders_kicked {name : Bytes} {session : Session} {inputs : List Input}
    (htmpban : o.tmpban = false) (hcount : 2 ≤ o.count)
    (hstate : session.state = .connected ∨ session.state = .registering)
    (happart : Along (step o) (Apart o) (start name session now) inputs)
    (hrun : run (step o) (start name session now) inputs = some t) : KicksFlooders o t :=
  (run_keeps_along (I := Inv o) (fun _ _ _ hinv happart hstep =>
    inv_step htmpban hcount hinv happart hstep) (inv_start hstate) happart hrun).toKicksFlooders

def floodSession : Session := ⟨.connected, "TuxBot", .rfc1459, .default⟩
def said (nick text : Bytes) : Input := .message (Irc.heard nick "PRIVMSG" ["#tux", text])

/-- Eve says three things where two are too many. -/
theorem flooders_kicked_three : ∃ t, run (step { Config.default with count := 2 })
      (start "net" floodSession 0) (List.replicate 3 (said "Eve" "spam")) = some t ∧
    KicksFlooders { Config.default with count := 2 } t := by
  have hrun : (run (step { Config.default with count := 2 }) (start "net" floodSession 0)
      (List.replicate 3 (said "Eve" "spam"))).isSome := by decide +kernel
  obtain ⟨t, ht⟩ := Option.isSome_iff_exists.mp hrun
  exact ⟨t, ht, flooders_kicked rfl le_rfl (Or.inl rfl) (by decide +kernel) ht⟩

/-- Nine messages of Eve and one of Ann: it is Ann who is kicked. -/
theorem bystander_kicked : ∃ t, run (step .default) (start "net" floodSession 0)
      (List.replicate 9 (said "Eve" "spam") ++ [said "Ann" "Eve, stop it"]) = some t ∧
    t.sent = [kick .default "#tux" (some "Ann")] ∧ ¬ KicksFlooders .default t := by
  have hrun : (run (step .default) (start "net" floodSession 0)
      (List.replicate 9 (said "Eve" "spam") ++ [said "Ann" "Eve, stop it"])).map
        (fun t => (t.sent, t.heard)) = some ([kick .default "#tux" (some "Ann")],
          ⟨0, "#tux", some "Ann", true⟩ :: List.replicate 9 ⟨0, "#tux", some "Eve", false⟩) := by
    decide +kernel
  obtain ⟨t, ht, hseen⟩ := Option.map_eq_some_iff.mp hrun
  obtain ⟨hsent, hheard⟩ := Prod.mk.inj hseen
  refine ⟨t, ht, hsent, fun hkicks => ?_⟩
  have hright := hkicks.right
  rw [hheard] at hright
  have hten := hright.1.mp rfl
  have hnone : ∀ mapping, streak .default mapping "#tux" (some "Ann") 0
      (List.replicate 9 ⟨0, "#tux", some "Eve", false⟩) = [] := by
    intro mapping
    cases mapping <;> decide +kernel
  simp only [hnone] at hten
  exact absurd hten (by decide)

end Floodkick

end TuxBot.Plugins
