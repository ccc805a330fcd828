import TuxBot.Plugins.Relay

/-! The relay commands that moderate another channel of the group. -/
namespace TuxBot.Plugins.Relay

open TuxBot.Lua TuxBot.Lua.Pattern TuxBot.Irc

/-- `([^ ]+)` -/
def wordItems : List (Item UInt8) := [.start, .plus (noneOf " "), .stop]

/-- ` +([^ ].-)$` -/
def tailItems : List (Item UInt8) :=
  [.plus (oneOf " "), .start, .one (noneOf " "), .lazy anyByte, .stop, .eos]

/-- `'^ *([^ ]+) +([^ ].-)$'` -/
def topicPattern : List (Item UInt8) := .star (oneOf " ") :: wordItems ++ tailItems

/-- `'^ *([^ ]+) +([^ ]+) +([^ ].-)$'` -/
def kickPattern : List (Item UInt8) :=
  .star (oneOf " ") :: wordItems ++ .plus (oneOf " ") :: wordItems ++ tailItems

/-- `'([^ ]+) +([^ ]+)'` -/
def kickShortPattern : List (Item UInt8) := wordItems ++ .plus (oneOf " ") :: wordItems

/-- `'^ *([^ ]+) +([^ ]+) +([^ ]+) +([^ ].-)$'` -/
def tmpbanPattern : List (Item UInt8) :=
  .star (oneOf " ") :: wordItems ++ .plus (oneOf " ") :: wordItems ++ .plus (oneOf " ") ::
    wordItems ++ tailItems

/-- `'([^ ]+) +([^ ]+) +([^ ]+)'` -/
def tmpbanShortPattern : List (Item UInt8) :=
  wordItems ++ .plus (oneOf " ") :: wordItems ++ .plus (oneOf " ") :: wordItems

/-- `'(.+)@(.+)'` -/
def chanPattern : List (Item UInt8) :=
  [.start, .plus anyByte, .stop, .one (oneOf "@"), .start, .plus anyByte, .stop]

/-- The channel of a topic or mode command, and what to set if it is not a question. -/
def topicArgs (arg : Bytes) : Option (Bytes × Option Bytes) :=
  match (matchHere topicPattern arg).map Match.values with
  | some [chan, newtopic] => some (chan, some newtopic)
  | _ => (search [.plus (noneOf " ")] arg).map fun m => (m.whole, none)

def modeArgs (arg : Bytes) : Option (Bytes × Option (List Bytes)) :=
  (topicArgs arg).map fun (chan, newmode) =>
    (chan, newmode.map fun newmode => (gmatch [.plus (noneOf " ")] newmode).map Match.whole)

/-- The channel, the nick and the message. -/
def kickArgs (arg : Bytes) : Option (Bytes × Bytes × Option Bytes) :=
  match (matchHere kickPattern arg).map Match.values with
  | some [chan, nick, message] => some (chan, nick, some message)
  | _ =>
    match (search kickShortPattern arg).map Match.values with
    | some [chan, nick] => some (chan, nick, none)
    | _ => none

/-- The channel, the nick, the time and the message. Without a message the code takes the second
word as the time and the third as the nick. -/
def tmpbanArgs (arg : Bytes) : Option (Bytes × Bytes × Bytes × Option Bytes) :=
  match (matchHere tmpbanPattern arg).map Match.values with
  | some [chan, nick, time, message] => some (chan, nick, time, some message)
  | _ =>
    match (search tmpbanShortPattern arg).map Match.values with
    | some [chan, time, nick] => some (chan, nick, time, none)
    | _ => none

/-- What a command leads to: an answer to the sender, a command of the protocol on the Client of
`net`, or a call of the tmpban plugin with it. -/
inductive Act where
  | reply (target : Option Bytes) (text : Bytes)
  | topic (net chan newtopic : Bytes)
  | mode (net chan : Bytes) (newmode : List Bytes)
  | kick (net chan nick : Bytes) (message : Option Bytes)
  | tmpban (net chan nick time : Bytes) (message : Option Bytes)
  deriving DecidableEq

/-- Where the act takes effect, if it is not an answer. -/
def Act.place : Act → Option Channel
  | .reply _ _ => none
  | .topic net chan _ => some ⟨net, chan⟩
  | .mode net chan _ => some ⟨net, chan⟩
  | .kick net chan _ _ => some ⟨net, chan⟩
  | .tmpban net chan _ _ _ => some ⟨net, chan⟩

/-- The other plugins: `check` of perms, `none` where it raises or perms is not loaded, and whether
tmpban is loaded. -/
structure OtherPlugins where
  check : Bytes → Bytes → Bytes → Option Bytes → Option Bool
  tmpban : Bool

/-- What the functions of the commands read. The message came to the Client of `net`, which
`bot.clients` knows since its queue ran the command, in `channel` and from `nick`. -/
structure Call where
  config : Config
  bot : Bot
  plugins : OtherPlugins
  net : Bytes
  network : Network
  known : bot.networks.lookup net = some network
  channel : Bytes
  nick : Option Bytes

namespace Call

variable (c : Call)

/-- A command of the protocol goes out on the Client of `net`, or raises. -/
def issue (net : Bytes) (act : Act) : Option Act := if c.bot.usable net then some act else none

/-- `bot.reply` with a text that begins with the sender's nick; without a nick `format` raises. -/
def reply (text : Bytes) : Option Act :=
  c.nick.bind fun nick =>
    c.issue c.net
      (.reply (if ischanname c.channel then some c.channel else some nick)
        (formatString nick ++ lit ": " ++ text))

/-- The group of the channel that the message came from. -/
def group : Option Group :=
  c.config.groups.find? fun group =>
    group.chans.any fun chan =>
      chan.net = c.net ∧ c.network.session.mapping.nameeq chan.name c.channel

/-- `parse_channel_name`: the Client, told by its network, and the channel. -/
def parseChannelName (str : Bytes) : Option Channel :=
  c.group.bind fun group =>
    match (search chanPattern str).map Match.values with
    | some [chanstr, netstr] =>
      (group.chans.find? fun chan =>
        lower chan.net = lower netstr ∧
          c.network.session.mapping.nameeq chan.name chanstr).filter
        fun chan => (c.bot.networks.lookup chan.net).isSome
    | _ => none

/-- `bot.clients[client].tracker.chanstates[channame]` -/
def chanstate (place : Channel) : Option Chan :=
  (c.bot.networks.lookup place.net).bind fun n => n.tracker.chan n.session place.name

def check (action : Bytes) : Option Bool := c.plugins.check action c.net c.channel c.nick

def notPermitted : Option Act := c.reply "you are not permitted to use that command"

/-- The channel that the command names, if the bot is on it. -/
def withChannel (chan : Bytes) (k : Channel → Chan → Option Act) : Option Act :=
  match c.parseChannelName chan with
  | none => c.reply (lit "invalid channel name: " ++ formatString chan)
  | some place =>
    match c.chanstate place with
    | none => c.reply "(I am not on that channel)"
    | some chanstate => k place chanstate

/-- The topic and the mode command: `new` is set if the sender may, and without it the sender is
told what is set. -/
def setOrShow {α : Type} (args : Option (Bytes × Option α)) (usage action : Bytes)
    (set : Bytes → α → Option Act) (shown : Chan → Option Bytes) : Option Act :=
  match args with
  | none => c.reply (lit "Usage: " ++ usage)
  | some (chan, new) =>
    c.withChannel chan fun place chanstate =>
      match new with
      | none => (shown chanstate).bind fun text => c.reply (formatString text)
      | some new =>
        (c.check action).bind fun permitted =>
          if permitted then set place.name new else c.notPermitted

/-- The kick and the tmpban command ask for the permission first. -/
def moderate {α : Type} (args : Option (Bytes × α)) (usage action : Bytes)
    (act : Bytes → α → Option Act) : Option Act :=
  (c.check action).bind fun permitted =>
    if permitted then
      match args with
      | none => c.reply (lit "Usage: " ++ usage)
      | some (chan, rest) => c.withChannel chan fun place _ => act place.name rest
    else c.notPermitted

def topic (arg : Bytes) : Option Act :=
  c.setOrShow (topicArgs arg) "relay topic <channel> [<new topic>]" "relaytopic"
    (fun channame newtopic => c.issue c.net (.topic c.net channame newtopic))
    fun chanstate => some (chanstate.topic.getD "(the channel doesn't have a topic)")

/-- A channel whose mode is not known makes `format` raise. -/
def mode (arg : Bytes) : Option Act :=
  c.setOrShow (modeArgs arg) "relay mode <channel> [<mode>]" "relaymode"
    (fun channame newmode => c.issue c.net (.mode c.net channame newmode))
    fun chanstate => chanstate.mode

def kick (arg : Bytes) : Option Act :=
  c.moderate (kickArgs arg) "relay kick <channel> <nick> [<message>]" "relayban"
    fun channame (nick, message) => c.issue c.net (.kick c.net channame nick message)

def tmpban (arg : Bytes) : Option Act :=
  c.moderate (tmpbanArgs arg) "relay tmpban <channel> <nick> <seconds> [<message>]" "relayban"
    fun channame (nick, time, message) =>
      if c.plugins.tmpban then some (.tmpban c.net channame nick time message) else none

end Call

/-- The entries of `relay_cmds` that moderate; the others only answer. -/
inductive RelayCmd where
  | topic
  | mode
  | kick
  | tmpban
  deriving DecidableEq

namespace RelayCmd

def func (c : Call) : RelayCmd → Bytes → Option Act
  | topic => c.topic
  | mode => c.mode
  | kick => c.kick
  | tmpban => c.tmpban

/-- What `parse_channel_name` is asked for. -/
def named (arg : Bytes) : RelayCmd → Option Bytes
  | topic => (topicArgs arg).map Prod.fst
  | mode => (modeArgs arg).map Prod.fst
  | kick => (kickArgs arg).map Prod.fst
  | tmpban => (tmpbanArgs arg).map Prod.fst

def action : RelayCmd → Bytes
  | topic => "relaytopic"
  | mode => "relaymode"
  | kick => "relayban"
  | tmpban => "relayban"

/-- A topic or mode command without a second part is a question. -/
def Changes (arg : Bytes) : RelayCmd → Prop
  | topic => ∃ chan new, topicArgs arg = some (chan, some new)
  | mode => ∃ chan new, modeArgs arg = some (chan, some new)
  | kick => True
  | tmpban => True

/-- What the command ends in does not raise. -/
def CarriedOut (c : Call) : RelayCmd → Prop
  | tmpban => c.plugins.tmpban = true
  | _ => c.bot.usable c.net = true

end RelayCmd

namespace Call

variable {c : Call} {act : Act} {place : Channel} {text chan usage action : Bytes} {α : Type}

theorem reply_place (h : c.reply text = some act) : act.place = none := by
  obtain ⟨nick, -, hact⟩ := Option.bind_eq_some_iff.mp h
  obtain ⟨-, ⟨⟩⟩ := Option.ite_none_right_eq_some.mp hact
  rfl

theorem reply_ne (hplace : act.place = some place) : c.reply text ≠ some act := by
  intro h
  exact Option.some_ne_none place (hplace.symm.trans (reply_place h))

/-- An act with a place comes from the continuation. -/
theorem withChannel_place {k : Channel → Chan → Option Act} (hplace : act.place = some place) :
    c.withChannel chan k = some act ↔ ∃ target chanstate, c.parseChannelName chan = some target ∧
      c.chanstate target = some chanstate ∧ k target chanstate = some act := by
  unfold withChannel
  cases hparse : c.parseChannelName chan with
  | none => simp [reply_ne hplace]
  | some target => cases hstate : c.chanstate target <;> simp [hstate, reply_ne hplace]

/-- An act with a place needs the permission. -/
theorem check_place {k : Option Act} (hplace : act.place = some place) :
    ((c.check action).bind fun permitted => if permitted then k else c.notPermitted) = some act ↔
      c.check action = some true ∧ k = some act := by
  cases c.check action with
  | none => simp
  | some permitted => cases permitted <;> simp [notPermitted, reply_ne hplace]

theorem setOrShow_act {args : Option (Bytes × Option α)} {set : Bytes → α → Option Act}
    {shown : Chan → Option Bytes} (hplace : act.place = some place) :
    c.setOrShow args usage action set shown = some act ↔
      ∃ chan new target, args = some (chan, some new) ∧ c.parseChannelName chan = some target ∧
        (c.chanstate target).isSome ∧ c.check action = some true ∧
        set target.name new = some act := by
  have hshown (text : Option Bytes) :
      (text.bind fun text => c.reply (formatString text)) ≠ some act := by
    cases text with
    | none => simp
    | some text => exact reply_ne hplace
  unfold setOrShow
  rcases args with _ | ⟨chan, _ | new⟩
  · simp [reply_ne hplace]
  · simp [withChannel_place hplace, hshown]
  · simp only [withChannel_place hplace, check_place hplace, Option.isSome_iff_exists]
    constructor
    · rintro ⟨target, chanstate, hparse, hstate, hcheck, hset⟩
      exact ⟨chan, new, target, rfl, hparse, ⟨chanstate, hstate⟩, hcheck, hset⟩
    · rintro ⟨_, _, target, ⟨⟩, hparse, ⟨chanstate, hstate⟩, hcheck, hset⟩
      exact ⟨target, chanstate, hparse, hstate, hcheck, hset⟩

theorem moderate_act {args : Option (Bytes × α)} {k : Bytes → α → Option Act}
    (hplace : act.place = some place) :
    c.moderate args usage action k = some act ↔
      ∃ chan rest target, args = some (chan, rest) ∧ c.parseChannelName chan = some target ∧
        (c.chanstate target).isSome ∧ c.check action = some true ∧
        k target.name rest = some act := by
  unfold moderate
  rw [check_place hplace]
  rcases args with _ | ⟨chan, rest⟩
  · simp [reply_ne hplace]
  · simp only [withChannel_place hplace, Option.isSome_iff_exists]
    constructor
    · rintro ⟨hcheck, target, chanstate, hparse, hstate, hk⟩
      exact ⟨chan, rest, target, rfl, hparse, ⟨chanstate, hstate⟩, hcheck, hk⟩
    · rintro ⟨_, _, target, ⟨⟩, hparse, ⟨chanstate, hstate⟩, hcheck, hk⟩
      exact ⟨hcheck, target, chanstate, hparse, hstate, hk⟩

variable {f : Bytes → α → Act} {r : Bool}

/-- Where a topic or mode command takes effect: on the channel named, on the sender's network. -/
theorem setOrShow_place {args : Option (Bytes × Option α)} {shown : Chan → Option Bytes}
    (hf : ∀ chan new, (f chan new).place = some ⟨c.net, chan⟩) :
    (∃ act, c.setOrShow args usage action (fun chan new => if r then some (f chan new) else none)
        shown = some act ∧ act.place = some place) ↔
      ∃ target, (∃ chan, args.map Prod.fst = some chan ∧ c.parseChannelName chan = some target) ∧
        (c.chanstate target).isSome ∧ c.check action = some true ∧
        (∃ chan new, args = some (chan, some new)) ∧ r = true ∧ place = ⟨c.net, target.name⟩ := by
  constructor
  · rintro ⟨act, hact, hplace⟩
    obtain ⟨chan, new, target, rfl, hparse, hpresent, hcheck, hset⟩ := (setOrShow_act hplace).mp hact
    obtain ⟨hr, ⟨⟩⟩ := Option.ite_none_right_eq_some.mp hset
    exact ⟨target, ⟨chan, rfl, hparse⟩, hpresent, hcheck, ⟨chan, new, rfl⟩, hr,
      Option.some.inj (hplace.symm.trans (hf _ _))⟩
  · rintro ⟨target, ⟨_, hnamed, hparse⟩, hpresent, hcheck, ⟨chan, new, rfl⟩, hr, rfl⟩
    obtain rfl := Option.some.inj hnamed
    refine ⟨f target.name new, (setOrShow_act (hf _ _)).mpr ?_, hf _ _⟩
    exact ⟨chan, new, target, rfl, hparse, hpresent, hcheck, if_pos hr⟩

theorem moderate_place {args : Option (Bytes × α)}
    (hf : ∀ chan rest, (f chan rest).place = some ⟨c.net, chan⟩) :
    (∃ act, c.moderate args usage action (fun chan rest => if r then some (f chan rest) else none) =
        some act ∧ act.place = some place) ↔
      ∃ target, (∃ chan, args.map Prod.fst = some chan ∧ c.parseChannelName chan = some target) ∧
        (c.chanstate target).isSome ∧ c.check action = some true ∧ r = true ∧
        place = ⟨c.net, target.name⟩ := by
  constructor
  · rintro ⟨act, hact, hplace⟩
    obtain ⟨chan, rest, target, rfl, hparse, hpresent, hcheck, hk⟩ := (moderate_act hplace).mp hact
    obtain ⟨hr, ⟨⟩⟩ := Option.ite_none_right_eq_some.mp hk
    exact ⟨target, ⟨chan, rfl, hparse⟩, hpresent, hcheck, hr,
      Option.some.inj (hplace.symm.trans (hf _ _))⟩
  · rintro ⟨target, ⟨chan, hnamed, hparse⟩, hpresent, hcheck, hr, rfl⟩
    obtain ⟨⟨_, rest⟩, rfl, rfl⟩ := Option.map_eq_some_iff.mp hnamed
    refine ⟨f target.name rest, (moderate_act (hf _ _)).mpr ?_, hf _ _⟩
    exact ⟨_, rest, target, rfl, hparse, hpresent, hcheck, if_pos hr⟩

end Call

/-- The channel that the command names, when nothing keeps the command from changing it. -/
structure Reaches (c : Call) (cmd : RelayCmd) (arg : Bytes) (target : Channel) : Prop where
  named : ∃ chan, cmd.named arg = some chan ∧ c.parseChannelName chan = some target
  present : (c.chanstate target).isSome
  permitted : c.check cmd.action = some true
  changes : cmd.Changes arg
  carriedOut : cmd.CarriedOut c

/-- Every command goes to the channel it names, but on the network it came from. -/
theorem func_place {c : Call} {cmd : RelayCmd} {arg : Bytes} {place : Channel} :
    (∃ act, cmd.func c arg = some act ∧ act.place = some place) ↔
      ∃ target, Reaches c cmd arg target ∧ place = ⟨c.net, target.name⟩ := by
  cases cmd with
  | topic =>
    refine (Call.setOrShow_place (f := .topic c.net) fun _ _ => rfl).trans ?_
    constructor
    · rintro ⟨target, hnamed, hpresent, hcheck, hchanges, hout, hplace⟩
      exact ⟨target, ⟨hnamed, hpresent, hcheck, hchanges, hout⟩, hplace⟩
    · rintro ⟨target, ⟨hnamed, hpresent, hcheck, hchanges, hout⟩, hplace⟩
      exact ⟨target, hnamed, hpresent, hcheck, hchanges, hout, hplace⟩
  | mode =>
    refine (Call.setOrShow_place (f := .mode c.net) fun _ _ => rfl).trans ?_
    constructor
    · rintro ⟨target, hnamed, hpresent, hcheck, hchanges, hout, hplace⟩
      exact ⟨target, ⟨hnamed, hpresent, hcheck, hchanges, hout⟩, hplace⟩
    · rintro ⟨target, ⟨hnamed, hpresent, hcheck, hchanges, hout⟩, hplace⟩
      exact ⟨target, hnamed, hpresent, hcheck, hchanges, hout, hplace⟩
  | kick =>
    refine (Call.moderate_place
      (f := fun chan (rest : Bytes × Option Bytes) => .kick c.net chan rest.1 rest.2)
      fun _ _ => rfl).trans ?_
    constructor
    · rintro ⟨target, hnamed, hpresent, hcheck, hout, hplace⟩
      exact ⟨target, ⟨hnamed, hpresent, hcheck, trivial, hout⟩, hplace⟩
    · rintro ⟨target, ⟨hnamed, hpresent, hcheck, -, hout⟩, hplace⟩
      exact ⟨target, hnamed, hpresent, hcheck, hout, hplace⟩
  | tmpban =>
    refine (Call.moderate_place
      (f := fun chan (rest : Bytes × Bytes × Option Bytes) =>
        .tmpban c.net chan rest.1 rest.2.1 rest.2.2) fun _ _ => rfl).trans ?_
    constructor
    · rintro ⟨target, hnamed, hpresent, hcheck, hout, hplace⟩
      exact ⟨target, ⟨hnamed, hpresent, hcheck, trivial, hout⟩, hplace⟩
    · rintro ⟨target, ⟨hnamed, hpresent, hcheck, -, hout⟩, hplace⟩
      exact ⟨target, hnamed, hpresent, hcheck, hout, hplace⟩

/-- Only channels of the sender's group are found. -/
theorem parseChannelName_mem {c : Call} {str : Bytes} {target : Channel}
    (h : c.parseChannelName str = some target) : ∃ group, c.group = some group ∧
      target ∈ group.chans := by
  obtain ⟨group, hgroup, hfound⟩ := Option.bind_eq_some_iff.mp h
  refine ⟨group, hgroup, ?_⟩
  split at hfound
  · exact List.mem_of_find?_eq_some (Option.filter_eq_some_iff.mp hfound).1
  · cases hfound

/-- The act is on the channel that `parse_channel_name` found for the command, one of the sender's
own group, and the sender was permitted. -/
def OnNamed (c : Call) (cmd : RelayCmd) (arg : Bytes) (place : Channel) : Prop :=
  (∃ chan, cmd.named arg = some chan ∧ c.parseChannelName chan = some place) ∧
    (∃ group, c.group = some group ∧ place ∈ group.chans) ∧ c.check cmd.action = some true

/-- The commands act on the channel they name exactly when that is on the network of the sender. -/
theorem relay_cmd_on_named_iff (c : Call) (cmd : RelayCmd) (arg : Bytes) :
    (∀ act place, cmd.func c arg = some act → act.place = some place → OnNamed c cmd arg place) ↔
      ∀ target, Reaches c cmd arg target → target.net = c.net := by
  constructor
  · intro hon target hreaches
    obtain ⟨act, hact, hplace⟩ := func_place.mpr ⟨target, hreaches, rfl⟩
    obtain ⟨⟨chan, hnamed, hparse⟩, -⟩ := hon act _ hact hplace
    obtain ⟨chan', hnamed', hparse'⟩ := hreaches.named
    obtain rfl : chan' = chan := Option.some.inj (hnamed'.symm.trans hnamed)
    have htarget : target = ⟨c.net, target.name⟩ := Option.some.inj (hparse'.symm.trans hparse)
    exact congrArg Channel.net htarget
  · intro hsame act place hact hplace
    obtain ⟨target, hreaches, rfl⟩ := func_place.mp ⟨act, hact, hplace⟩
    have htarget : (⟨c.net, target.name⟩ : Channel) = target := by rw [← hsame target hreaches]
    rw [htarget]
    obtain ⟨chan, hnamed, hparse⟩ := hreaches.named
    exact ⟨⟨chan, hnamed, hparse⟩, parseChannelName_mem hparse, hreaches.permitted⟩

/-- `relay topic #linux@espernet hello`, said on OFTC, sets the topic of #linux on OFTC. -/
theorem relay_topic_crosses :
    let session : Session := ⟨.connected, "TuxBot", .rfc1459, .default⟩
    let linux : Chan := ⟨"#linux", none, none, [], ∅⟩
    let oftc : Network := ⟨session, .new⟩
    let bot : Bot := ⟨Table.set id (Table.set id ∅ "EsperNet"
      ⟨session, Tracker.new.setChan session "#linux" linux⟩) "OFTC" oftc⟩
    let config : Config := ⟨[⟨[⟨"OFTC", "#tux"⟩, ⟨"EsperNet", "#linux"⟩], false, true⟩],
      [[3, 51]], [15], by simp⟩
    let c : Call := ⟨config, bot, ⟨fun _ _ _ _ => some true, true⟩, "OFTC", oftc,
      by simp [bot, Table.lookup_set], "#tux", some "Ann"⟩
    RelayCmd.topic.func c " #linux@espernet hello" = some (.topic "OFTC" "#linux" "hello") ∧
      RelayCmd.topic.named " #linux@espernet hello" = some (lit "#linux@espernet") ∧
      c.parseChannelName "#linux@espernet" = some ⟨"EsperNet", "#linux"⟩ ∧
      ¬ ∀ act place, RelayCmd.topic.func c " #linux@espernet hello" = some act →
        act.place = some place → OnNamed c .topic " #linux@espernet hello" place := by
  intro session linux oftc bot config c
  have hact : RelayCmd.topic.func c " #linux@espernet hello" =
      some (.topic "OFTC" "#linux" "hello") := by decide +kernel
  have hnamed : RelayCmd.topic.named " #linux@espernet hello" = some (lit "#linux@espernet") := by
    decide +kernel
  have hparse : c.parseChannelName "#linux@espernet" = some ⟨"EsperNet", "#linux"⟩ := by
    decide +kernel
  refine ⟨hact, hnamed, hparse, ?_⟩
  intro hon
  obtain ⟨⟨chan, hchan, hfound⟩, -⟩ := hon _ _ hact rfl
  obtain rfl := Option.some.inj (hnamed.symm.trans hchan)
  exact absurd (hparse.symm.trans hfound) (by decide)

end TuxBot.Plugins.Relay
