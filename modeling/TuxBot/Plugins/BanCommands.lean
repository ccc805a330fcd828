import TuxBot.Lua.Words
import TuxBot.Plugins.RelayCommands
import TuxBot.Plugins.Tmpban

/-! The two commands that end in a call of `tmpban`: the plugin's own one, and the one of the relay. -/
namespace TuxBot.Plugins.Tmpban

open TuxBot.Lua TuxBot.Lua.Pattern TuxBot.Irc TuxBot.Plugins.Relay

/-- The arguments of a call of `tmpban`, the Client told by its network. What is not given is nil. -/
structure Arguments where
  net : Bytes
  chan : Bytes
  nick : Option Bytes
  time : Option Duration
  message : Option Bytes
  deriving DecidableEq

/-- What `tmpban_callback` ends in. -/
inductive Outcome where
  | reply (target : Option Bytes) (text : Bytes)
  | tmpban (args : Arguments)
  deriving DecidableEq

/-- `'^ *([^ ]+) +(%d+) +([^ ].*)$'` -/
def longPattern : List (Item UInt8) :=
  .star (oneOf " ") :: wordItems ++ .plus (oneOf " ") :: .start :: .plus isDigit :: .stop ::
    [.plus (oneOf " "), .start, .one (noneOf " "), .star anyByte, .stop, .eos]

/-- `'^ *([^ ]+) +(%d+) *$'` -/
def shortPattern : List (Item UInt8) :=
  .star (oneOf " ") :: wordItems ++ .plus (oneOf " ") :: .start :: .plus isDigit :: .stop ::
    [.star (oneOf " "), .eos]

/-- The nick, the time and the message. The short pattern sets a nick and a time that end with their
block: those that are passed on stay nil. -/
def callbackArgs (arg : Bytes) : Option (Option Bytes × Option Bytes × Option Bytes) :=
  match (matchHere longPattern arg).map Match.values with
  | some [nick, time, message] => some (some nick, some time, some message)
  | _ => (matchHere shortPattern arg).map fun _ => (none, none, none)

variable (tonumber : Bytes → Duration) (c : Call)

/-- `bot.reply` with a text that is put together with `..`. -/
def say (text : Bytes) : Option Outcome :=
  c.nick.bind fun nick =>
    if c.bot.usable c.net then
      some (.reply (if ischanname c.channel then some c.channel else some nick)
        (nick ++ lit ": " ++ text))
    else none

/-- `tmpban_callback`; `none` where it raises before anything is called. -/
def callback (arg : Bytes) : Option Outcome :=
  (c.check "tmpban").bind fun permitted =>
    if permitted then
      match callbackArgs arg with
      | none => say c "Usage: tmpban <nick> <seconds> [<message>]"
      | some (nick, time, message) =>
        some (.tmpban ⟨c.net, c.channel, nick, time.map tonumber, message⟩)
    else say c "You are not permitted to use this command."

/-- The command of the plugin, and the one of the relay for a channel. -/
inductive Command where
  | tmpban
  | relay (chan : Bytes)

namespace Command

/-- The text of the time is taken for its number where it is used. -/
def duration (time : Bytes) : Command → Duration
  | tmpban => tonumber time
  | relay _ => ⟨time, (tonumber time).seconds⟩

/-- The call of `tmpban` that a command with the argument `arg` makes. -/
def calls (arg : Bytes) : Command → Option Arguments
  | tmpban =>
    match callback tonumber c arg with
    | some (.tmpban args) => some args
    | _ => none
  | relay chan =>
    match c.tmpban arg with
    | some (.tmpban net channame nick time message) =>
      some ⟨net, channame, some nick, some ((relay chan).duration tonumber time), message⟩
    | _ => none

/-- The sender may use the command, and the bot is on the channel of the group that it names. -/
def Permitted : Command → Prop
  | tmpban => c.check "tmpban" = some true
  | relay chan => c.check "relayban" = some true ∧ c.plugins.tmpban = true ∧
    ∃ place, c.parseChannelName chan = some place ∧ (c.chanstate place).isSome

/-- The channel that the call is about. -/
def place : Command → Option Bytes
  | tmpban => some c.channel
  | relay chan => (c.parseChannelName chan).map Channel.name

end Command

/-- A number of spaces. -/
def Spaces (s : Bytes) : Prop := ∀ b ∈ s, oneOf " " b = true

instance : DecidablePred Spaces := fun s =>
  inferInstanceAs (Decidable (∀ b ∈ s, oneOf " " b = true))

/-- A word without spaces. -/
structure Word (w : Bytes) : Prop where
  ne_nil : w ≠ []
  noSpace : ∀ b ∈ w, noneOf " " b = true

/-- A decimal number. -/
structure Decimal (secs : Bytes) : Prop where
  ne_nil : secs ≠ []
  digits : ∀ b ∈ secs, isDigit b = true

/-- What stands before the nick: spaces, and the channel if the command has one. -/
inductive Before : Command → Bytes → Prop where
  | tmpban {s : Bytes} (hs : Spaces s) : Before .tmpban s
  | relay {s t chan : Bytes} (hs : Spaces s) (ht : Spaces t) (hne : t ≠ []) :
    Before (.relay chan) (s ++ (chan ++ t))

/-- The words of a command: what stands before the nick, the nick and the seconds, then `rest`. -/
def Written (cmd : Command) (nick secs rest arg : Bytes) : Prop :=
  ∃ front gap, Before cmd front ∧ Spaces gap ∧ gap ≠ [] ∧
    arg = front ++ (nick ++ (gap ++ (secs ++ rest)))

/-- The command without a message. -/
def Short (cmd : Command) (nick secs arg : Bytes) : Prop :=
  ∃ gap, Spaces gap ∧ Written cmd nick secs gap arg

/-- The command with a message, which is what follows the spaces. -/
def Long (cmd : Command) (nick secs message arg : Bytes) : Prop :=
  (∃ b ∈ message.head?, noneOf " " b = true) ∧
    ∃ gap, Spaces gap ∧ gap ≠ [] ∧ Written cmd nick secs (gap ++ message) arg

/-- Both forms of the command call `tmpban` with the nick and the duration that they name. -/
def Uniform (cmd : Command) (nick secs : Bytes) : Prop :=
  ∃ chan, cmd.place c = some chan ∧
    (∀ arg, Short cmd nick secs arg →
      cmd.calls tonumber c arg =
        some ⟨c.net, chan, some nick, some (cmd.duration tonumber secs), none⟩) ∧
    ∀ message arg, Long cmd nick secs message arg →
      cmd.calls tonumber c arg =
        some ⟨c.net, chan, some nick, some (cmd.duration tonumber secs), some message⟩

/-! ### What the patterns read -/

section Patterns

variable {nick secs chan message gap s t r arg : Bytes} {p : List (Item UInt8)}
  {cs : List (Capture UInt8)} {b : UInt8}

theorem space_of_nonSpace (h : noneOf " " b = true) : oneOf " " b = false := by
  simpa [noneOf, oneOf] using h

theorem space_of_digit (h : isDigit b = true) : oneOf " " b = false := by
  have hb : b ≠ 32 := by
    rintro rfl
    exact absurd h (by decide)
  rw [oneOf, show lit " " = [32] from rfl]
  simpa using hb

theorem nonSpace_of_space (h : oneOf " " b = true) : noneOf " " b = false := by
  simpa [noneOf, oneOf] using h

theorem rejects_word : Rejects (.start :: .plus (noneOf " ") :: p) (oneOf " ") :=
  rejects_start (rejects_plus fun _ => nonSpace_of_space)

theorem Word.head (hw : Word nick) : ∀ b ∈ (nick ++ t).head?, oneOf " " b = false := by
  obtain ⟨b, w, rfl⟩ := List.exists_cons_of_ne_nil hw.ne_nil
  intro a ha
  obtain rfl : b = a := Option.some.inj ha
  exact space_of_nonSpace (hw.noSpace b List.mem_cons_self)

theorem Decimal.word (hsecs : Decimal secs) : Word secs := by
  refine ⟨hsecs.ne_nil, fun b hb => ?_⟩
  have hspace := space_of_digit (hsecs.digits b hb)
  simpa [noneOf, oneOf] using hspace

/-- ` *([^ ]+) +` in front of another word. -/
theorem doMatch_first (hp : Rejects p (oneOf " ")) (hs : Spaces s) (hnick : Word nick)
    (ht : Spaces t) (htne : t ≠ []) (hr : ∀ b ∈ r.head?, oneOf " " b = false) :
    doMatch (.star (oneOf " ") :: wordItems ++ .plus (oneOf " ") :: p) cs (s ++ (nick ++ (t ++ r))) =
      doMatch p (.closed nick :: cs) r :=
  (doMatch_star_forced rejects_word hs hnick.head).trans
    (doMatch_word_sep (fun _ => space_of_nonSpace) hp hnick.ne_nil hnick.noSpace htne ht hr)

/-- `([^ ]+) +` in front of another word. -/
theorem doMatch_next (hp : Rejects p (oneOf " ")) (hnick : Word nick) (ht : Spaces t) (htne : t ≠ [])
    (hr : ∀ b ∈ r.head?, oneOf " " b = false) :
    doMatch (wordItems ++ .plus (oneOf " ") :: p) cs (nick ++ (t ++ r)) =
      doMatch p (.closed nick :: cs) r :=
  doMatch_word_sep (fun _ => space_of_nonSpace) hp hnick.ne_nil hnick.noSpace htne ht hr

/-- `(%d+) +` in front of another word. -/
theorem doMatch_secs (hp : Rejects p (oneOf " ")) (hsecs : Decimal secs) (ht : Spaces t)
    (htne : t ≠ []) (hr : ∀ b ∈ r.head?, oneOf " " b = false) :
    doMatch (.start :: .plus isDigit :: .stop :: .plus (oneOf " ") :: p) cs (secs ++ (t ++ r)) =
      doMatch p (.closed secs :: cs) r :=
  doMatch_word_sep (fun _ => space_of_digit) hp hsecs.ne_nil hsecs.digits htne ht hr

/-- A message of at least one symbol. -/
def messageItems (run : Item UInt8) : List (Item UInt8) :=
  [.start, .one (noneOf " "), run, .stop, .eos]

theorem rejects_message (run : Item UInt8) : Rejects (messageItems run) (oneOf " ") :=
  rejects_start (rejects_one fun _ => nonSpace_of_space)

theorem message_head (h : ∃ b ∈ message.head?, noneOf " " b = true) :
    ∀ b ∈ message.head?, oneOf " " b = false := by
  obtain ⟨b, hb, hspace⟩ := h
  intro a ha
  obtain rfl : b = a := Option.mem_unique hb ha
  exact space_of_nonSpace hspace

theorem doMatch_message {run : Item UInt8} (hrun : run = .star anyByte ∨ run = .lazy anyByte)
    (h : ∃ b ∈ message.head?, noneOf " " b = true) :
    doMatch (messageItems run) cs message = some (.closed message :: cs, []) := by
  obtain ⟨b, hb, hspace⟩ := h
  obtain ⟨rest, rfl⟩ := List.head?_eq_some_iff.mp hb
  exact doMatch_toEnd hrun hspace fun _ _ => rfl

/-! ### What the forms of a command lead to -/

theorem digit_of_space (h : oneOf " " b = true) : isDigit b = false :=
  class_of_sep (c := isDigit) (fun _ => space_of_digit) h

theorem rejects_secs : Rejects (.start :: .plus isDigit :: p) (oneOf " ") :=
  rejects_start (rejects_plus fun _ => digit_of_space)

theorem rejects_end : Rejects [.star (oneOf " "), .eos] isDigit := by
  intro cs b s hb
  rw [doMatch_star, maxExpand_of_head]
  · rfl
  · intro a ha
    obtain rfl : b = a := Option.some.inj ha
    exact space_of_digit hb

theorem callbackArgs_long (hnick : Word nick) (hsecs : Decimal secs)
    (harg : Long .tmpban nick secs message arg) :
    callbackArgs arg = some (some nick, some secs, some message) := by
  obtain ⟨hmessage, gap, hgap, hgapne, front, t, ⟨hs⟩, ht, htne, rfl⟩ := harg
  have hlong : doMatch longPattern [] (front ++ (nick ++ (t ++ (secs ++ (gap ++ message))))) =
      some ([.closed message, .closed secs, .closed nick], []) :=
    (doMatch_first rejects_secs hs hnick ht htne hsecs.word.head).trans
      ((doMatch_secs (rejects_message _) hsecs hgap hgapne (message_head hmessage)).trans
        (doMatch_message (.inl rfl) hmessage))
  rw [callbackArgs, values_of_doMatch hlong]
  rfl

/-- What the long pattern does not match, leaves no nick and no time. -/
theorem callbackArgs_short (hnick : Word nick) (hsecs : Decimal secs)
    (harg : Short .tmpban nick secs arg) : callbackArgs arg = some (none, none, none) := by
  obtain ⟨gap, hgap, front, t, ⟨hs⟩, ht, htne, rfl⟩ := harg
  have hlong : doMatch longPattern [] (front ++ (nick ++ (t ++ (secs ++ gap)))) = none :=
    (doMatch_first rejects_secs hs hnick ht htne hsecs.word.head).trans
      (doMatch_word_end (fun _ => space_of_digit) (rejects_message _) (fun _ => rfl)
        hsecs.ne_nil hsecs.digits hgap)
  have hend : doMatch [.star (oneOf " "), .eos] [.closed secs, .closed nick] gap =
      some ([.closed secs, .closed nick], []) := by
    have htake := maxExpand_append (k := doMatch [.eos] [.closed secs, .closed nick]) (v := [])
      hgap (by simp) rfl
    rwa [List.append_nil] at htake
  have hshort : doMatch shortPattern [] (front ++ (nick ++ (t ++ (secs ++ gap)))) =
      some ([.closed secs, .closed nick], []) := by
    refine (doMatch_first rejects_secs hs hnick ht htne hsecs.word.head).trans ?_
    exact (doMatch_word rejects_end hsecs.ne_nil hsecs.digits
      fun b hb => digit_of_space (hgap b (List.mem_of_mem_head? hb))).trans hend
  obtain ⟨m, hm⟩ : ∃ m, matchHere shortPattern (front ++ (nick ++ (t ++ (secs ++ gap)))) = some m :=
    ⟨_, by rw [matchHere, hshort]; rfl⟩
  rw [callbackArgs, matchHere_of_none hlong, hm]
  rfl

theorem Before.front {arg : Bytes} (hbefore : Before (.relay chan) arg) :
    ∃ s t, arg = s ++ (chan ++ t) ∧ Spaces s ∧ Spaces t ∧ t ≠ [] := by
  cases hbefore with
  | relay hs ht hne => exact ⟨_, _, rfl, hs, ht, hne⟩

theorem tmpbanArgs_long (hchan : Word chan) (hnick : Word nick) (hsecs : Word secs)
    (harg : Long (.relay chan) nick secs message arg) :
    tmpbanArgs arg = some (chan, nick, secs, some message) := by
  obtain ⟨hmessage, gap, hgap, hgapne, front, t, hbefore, ht, htne, rfl⟩ := harg
  obtain ⟨s, r, rfl, hs, hr, hrne⟩ := hbefore.front
  have hlong : doMatch tmpbanPattern []
      (s ++ (chan ++ (r ++ (nick ++ (t ++ (secs ++ (gap ++ message))))))) =
      some ([.closed message, .closed secs, .closed nick, .closed chan], []) :=
    (doMatch_first rejects_word hs hchan hr hrne hnick.head).trans
      ((doMatch_next rejects_word hnick ht htne hsecs.head).trans
        ((doMatch_next (rejects_message _) hsecs hgap hgapne (message_head hmessage)).trans
          (doMatch_message (.inr rfl) hmessage)))
  rw [tmpbanArgs, List.append_assoc, List.append_assoc, values_of_doMatch hlong]
  rfl

/-- The second word of the short form becomes the time, and the third one the nick. -/
theorem tmpbanArgs_short (hchan : Word chan) (hnick : Word nick) (hsecs : Word secs)
    (harg : Short (.relay chan) nick secs arg) :
    tmpbanArgs arg = some (chan, secs, nick, none) := by
  obtain ⟨gap, hgap, front, t, hbefore, ht, htne, rfl⟩ := harg
  obtain ⟨s, r, rfl, hs, hr, hrne⟩ := hbefore.front
  rw [List.append_assoc, List.append_assoc]
  have hlong : doMatch tmpbanPattern [] (s ++ (chan ++ (r ++ (nick ++ (t ++ (secs ++ gap)))))) = none :=
    (doMatch_first rejects_word hs hchan hr hrne hnick.head).trans
      ((doMatch_next rejects_word hnick ht htne hsecs.head).trans
        (doMatch_word_end (fun _ => space_of_nonSpace) (rejects_message _) (fun _ => rfl)
          hsecs.ne_nil hsecs.noSpace hgap))
  have hshort : doMatch tmpbanShortPattern [] (chan ++ (r ++ (nick ++ (t ++ (secs ++ gap))))) =
      some ([.closed secs, .closed nick, .closed chan], gap) :=
    (doMatch_next rejects_word hchan hr hrne hnick.head).trans
      ((doMatch_next rejects_word hnick ht htne hsecs.head).trans
        (doMatch_lastWord hsecs.ne_nil hsecs.noSpace
          fun b hb => nonSpace_of_space (hgap b (List.mem_of_mem_head? hb))))
  have hreject : Rejects tmpbanShortPattern (oneOf " ") := rejects_word
  rw [tmpbanArgs, matchHere_of_none hlong, search_forced hreject hs, search_of_doMatch hshort,
    values_of_doMatch hshort]
  rfl

end Patterns

section Calls

variable {tonumber : Bytes → Duration} {c : Call} {cmd : Command}
  {nick secs time chan message arg : Bytes}

namespace Command

theorem calls_tmpban (tonumber : Bytes → Duration) {nick time message : Option Bytes}
    (hpermitted : Command.tmpban.Permitted c) (hargs : callbackArgs arg = some (nick, time, message)) :
    Command.tmpban.calls tonumber c arg =
      some ⟨c.net, c.channel, nick, time.map tonumber, message⟩ := by
  have hcheck : c.check "tmpban" = some true := hpermitted
  simp only [calls, callback, hcheck, hargs, Option.bind_some, if_true]

theorem calls_relay (tonumber : Bytes → Duration) {message : Option Bytes} {channel : Channel}
    (hpermitted : (relay chan).Permitted c) (hplace : c.parseChannelName chan = some channel)
    (hargs : tmpbanArgs arg = some (chan, nick, time, message)) :
    (relay chan).calls tonumber c arg = some
      ⟨c.net, channel.name, some nick, some ((relay chan).duration tonumber time), message⟩ := by
  obtain ⟨hcheck, hloaded, _, hplace', hpresent⟩ := hpermitted
  obtain rfl := Option.some.inj (hplace.symm.trans hplace')
  obtain ⟨chanstate, hstate⟩ := Option.isSome_iff_exists.mp hpresent
  simp only [calls, Call.tmpban, Call.moderate, Call.withChannel, hcheck, hargs, hplace, hstate,
    hloaded, Option.bind_some, if_true]

theorem Permitted.place (hpermitted : cmd.Permitted c) : ∃ chan, cmd.place c = some chan := by
  cases cmd with
  | tmpban => exact ⟨c.channel, rfl⟩
  | relay chan =>
    obtain ⟨-, -, channel, hplace, -⟩ := hpermitted
    exact ⟨channel.name, by rw [Command.place, hplace]; rfl⟩

/-- With a message both commands pass on what they are given. -/
theorem calls_long (hpermitted : cmd.Permitted c) (hcmd : ∀ chan, cmd = .relay chan → Word chan)
    (hnick : Word nick) (hsecs : Decimal secs) (hplace : cmd.place c = some chan)
    (harg : Long cmd nick secs message arg) :
    cmd.calls tonumber c arg =
      some ⟨c.net, chan, some nick, some (cmd.duration tonumber secs), some message⟩ := by
  cases cmd with
  | tmpban =>
    obtain rfl := Option.some.inj hplace
    exact calls_tmpban tonumber hpermitted (callbackArgs_long hnick hsecs harg)
  | relay name =>
    obtain ⟨channel, hfound, rfl⟩ := Option.map_eq_some_iff.mp hplace
    exact calls_relay tonumber hpermitted hfound (tmpbanArgs_long (hcmd name rfl) hnick hsecs.word harg)

end Command

/-- Without a message the plugin's own command has no nick, and the relay command takes the nick for
the time. -/
theorem uniform_iff (hpermitted : cmd.Permitted c) (hcmd : ∀ chan, cmd = .relay chan → Word chan)
    (hnick : Word nick) (hsecs : Decimal secs) :
    Uniform tonumber c cmd nick secs ↔ (∃ chan, cmd = .relay chan) ∧ nick = secs := by
  have hnone : Spaces [] := nofun
  have hspace : Spaces (lit " ") := by decide +kernel
  constructor
  · rintro ⟨chan, hplace, hshort, -⟩
    cases cmd with
    | tmpban =>
      have harg : Short .tmpban nick secs ([] ++ (nick ++ (lit " " ++ (secs ++ [])))) :=
        ⟨[], hnone, [], lit " ", .tmpban hnone, hspace, by decide, rfl⟩
      have hcall := Command.calls_tmpban tonumber hpermitted
        (callbackArgs_short hnick hsecs harg)
      cases hcall.symm.trans (hshort _ harg)
    | relay name =>
      have harg : Short (.relay name) nick secs
          (([] ++ (name ++ lit " ")) ++ (nick ++ (lit " " ++ (secs ++ [])))) :=
        ⟨[], hnone, _, lit " ", .relay hnone hspace (by decide), hspace, by decide, rfl⟩
      obtain ⟨channel, hfound, -⟩ := Option.map_eq_some_iff.mp hplace
      have hcall := Command.calls_relay tonumber hpermitted hfound
        (tmpbanArgs_short (hcmd name rfl) hnick hsecs.word harg)
      have heq := Option.some.inj (hcall.symm.trans (hshort _ harg))
      exact ⟨⟨name, rfl⟩, (Option.some.inj (congrArg Arguments.nick heq)).symm⟩
  · rintro ⟨⟨name, rfl⟩, rfl⟩
    obtain ⟨chan, hplace⟩ := hpermitted.place
    refine ⟨chan, hplace, fun arg harg => ?_,
      fun message arg harg => Command.calls_long hpermitted hcmd hnick hsecs hplace harg⟩
    obtain ⟨channel, hfound, rfl⟩ := Option.map_eq_some_iff.mp hplace
    exact Command.calls_relay tonumber hpermitted hfound
      (tmpbanArgs_short (hcmd name rfl) hnick hsecs.word harg)

/-- A nick that is the number of seconds: the relay command cannot tell them apart. -/
theorem uniform_iff_relay :
    let session : Session := ⟨.connected, "TuxBot", .rfc1459, .default⟩
    let linux : Chan := ⟨"#linux", none, none, [], ∅⟩
    let oftc : Network := ⟨session, Tracker.new.setChan session "#linux" linux⟩
    let config : Config := ⟨[⟨[⟨"OFTC", "#tux"⟩, ⟨"OFTC", "#linux"⟩], false, true⟩], [[3, 51]], [15],
      by simp⟩
    let c : Call := ⟨config, ⟨Table.set id ∅ "OFTC" oftc⟩, ⟨fun _ _ _ _ => some true, true⟩, "OFTC",
      oftc, by simp [Table.lookup_set], "#tux", some "Ann"⟩
    Uniform (fun text => ⟨text, none⟩) c (.relay "#linux@oftc") "600" "600" := by
  intro session linux oftc config c
  have hpermitted : (Command.relay "#linux@oftc").Permitted c :=
    ⟨rfl, rfl, ⟨"OFTC", "#linux"⟩, by decide +kernel, by decide +kernel⟩
  refine (uniform_iff hpermitted ?_ ⟨by decide, by decide +kernel⟩
    ⟨by decide, by decide +kernel⟩).mpr ⟨⟨_, rfl⟩, rfl⟩
  rintro _ ⟨⟩
  exact ⟨by decide, by decide +kernel⟩

/-- `tmpban Bob 600` calls `tmpban` without a nick and without a time. -/
theorem tmpban_without_message :
    let session : Session := ⟨.connected, "TuxBot", .rfc1459, .default⟩
    let oftc : Network := ⟨session, .new⟩
    let config : Config := ⟨[], [[3, 51]], [15], by simp⟩
    let c : Call := ⟨config, ⟨Table.set id ∅ "OFTC" oftc⟩, ⟨fun _ _ _ _ => some true, true⟩, "OFTC",
      oftc, by simp [Table.lookup_set], "#tux", some "Ann"⟩
    let tonumber (text : Bytes) : Duration := ⟨text, some 600⟩
    Command.tmpban.calls tonumber c "Bob 600" = some ⟨"OFTC", "#tux", none, none, none⟩ ∧
      ¬ Uniform tonumber c .tmpban "Bob" "600" := by
  intro session oftc config c tonumber
  have hcall : Command.tmpban.calls tonumber c "Bob 600" =
      some ⟨"OFTC", "#tux", none, none, none⟩ := by decide +kernel
  refine ⟨hcall, ?_⟩
  rintro ⟨chan, -, hshort, -⟩
  have hnone : Spaces [] := nofun
  have harg : Short .tmpban "Bob" "600" "Bob 600" :=
    ⟨[], hnone, [], lit " ", .tmpban hnone, by decide +kernel, by decide, by decide⟩
  cases hcall.symm.trans (hshort _ harg)

end Calls

end TuxBot.Plugins.Tmpban
