import Mathlib.Data.List.InsertIdx
import TuxBot.Machine
import TuxBot.Plugins.RelayFeedback

/-! From a message in a channel of a group to the other channels, and no further. -/
namespace TuxBot.Plugins.Relay

open TuxBot.Lua TuxBot.Machine TuxBot.Irc

/-- The plugin and its functions in the queues of the Clients. -/
structure Plugin where
  world : World
  queue : List Event

/-- What can happen to the plugin: a message, another call of `relay` for a channel, the turn of a
queued function, a message of the bot's own, the timer of `clear_relaymsgs`. -/
inductive Input where
  | message (net : Bytes) (msg : Message)
  | relay (net name : Bytes) (how : How) (text : Bytes)
  | run (i : Nat)
  | own (isnotice : Bool) (net name senttext : Bytes)
  | clear

/-- The Clients are as they are at the moment of the input. -/
def step (config : Config) (depth : Nat) (p : Plugin) : Bot × Input → Option Plugin
  | (bot, .message net msg) => (bot.networks.lookup net).map fun n =>
    { p with queue := p.queue ++ (msgHandler config net n.session.mapping msg).toList }
  | (bot, .relay net name how text) => (bot.networks.lookup net).map fun n =>
    { p with queue := p.queue ++ ((isrelayed config net n.session.mapping name).map fun info =>
        Event.queued n.session.mapping info how text).toList }
  | (bot, .run i) => p.queue[i]?.map fun e =>
    ⟨handle config bot depth p.world e, p.queue.eraseIdx i⟩
  | (bot, .own isnotice net name senttext) =>
    some { p with world := handle config bot depth p.world (.own isnotice net name senttext) }
  | (_, .clear) => some { p with world := { p.world with relaymsgs := [] } }

def start : Plugin := ⟨⟨false, [], []⟩, []⟩

/-- The channel, with its name as its Client folds it. -/
def Bot.place (bot : Bot) (chan : Channel) : Channel :=
  match bot.networks.lookup chan.net with
  | some n => ⟨chan.net, n.session.mapping.lower chan.name⟩
  | none => chan

/-- The Clients of all the channels are connected. -/
def Bot.Connected (config : Config) (bot : Bot) : Prop :=
  ∀ group ∈ config.groups, ∀ chan ∈ group.chans, ∃ n, bot.networks.lookup chan.net = some n ∧
    n.session.state = .connected

/-- The groups have no channel in common, and none has a channel twice. -/
def Bot.Apart (config : Config) (bot : Bot) : Prop :=
  ((config.groups.flatMap Group.chans).map bot.place).Nodup

/-- What stands before the colour, before the nick and behind it. -/
def decoration (cmd : Bytes) : Bytes × Bytes × Bytes :=
  if cmd = lit "NOTICE" then ([], "-", "-")
  else if cmd = lit ":CTCP" then ("* ", [], [])
  else ([], "<", ">")

/-- The line that tells the other channels who says what in the channel `origin`; `part` is how a
part is put in, with `%s` or as it is. -/
def shown (config : Config) (group : Group) (origin : Channel) (part : Bytes → Bytes)
    (cmd nick said : Bytes) : Bytes :=
  let (lead, opening, closing) := decoration cmd
  [lead, part (config.nickfmt nick), opening, part nick,
    if group.showchanname then part (lit "@" ++ origin.name) else [],
    if group.shownetname then part (lit "@" ++ origin.net) else [],
    closing, part config.endfmt, lit " ", part said].flatten

/-- Each other channel of the group was sent the text once, and nothing else was sent. -/
structure FansOut (bot : Bot) (group : Group) (origin : Channel) (how : How) (text : Bytes)
    (w w' : World) : Prop where
  reset : w'.issendingrelay = false
  sends : ∃ sent, w'.sent = w.sent ++ sent ∧ (∀ m ∈ sent, m.how = how ∧ m.text = text) ∧
    (sent.map fun m => bot.place m.chan).Nodup ∧
    ∀ x, x ∈ sent.map (fun m => bot.place m.chan) ↔
      x ≠ bot.place origin ∧ x ∈ group.chans.map bot.place

variable {config : Config} {bot : Bot} {group : Group} {origin : Channel} {net name : Bytes}
  {n : Network} {w : World} {p q : Plugin} {msg : Message} {depth : Nat}

theorem place_eq (hnet : bot.networks.lookup net = some n) :
    bot.place ⟨net, name⟩ = ⟨net, n.session.mapping.lower name⟩ := by
  simp [Bot.place, hnet]

/-- An entry is the channel of that name if they are at one place. -/
theorem entry_iff (hnet : bot.networks.lookup net = some n) :
    (origin.net = net ∧ n.session.mapping.nameeq origin.name name = true) ↔
      bot.place origin = bot.place ⟨net, name⟩ := by
  rw [place_eq hnet, CaseMapping.nameeq_iff]
  constructor
  · rintro ⟨rfl, hname⟩
    simp [Bot.place, hnet, hname]
  · intro h
    have hsame : origin.net = net := by
      have hplace : (bot.place origin).net = origin.net := by
        unfold Bot.place
        split <;> rfl
      rw [← hplace, h]
    subst hsame
    simp only [Bot.place, hnet] at h
    exact ⟨rfl, (Channel.mk.inj h).2⟩

theorem entryOf_none (hnet : bot.networks.lookup net = some n)
    (hnone : ∀ chan ∈ group.chans, bot.place chan ≠ bot.place ⟨net, name⟩) :
    group.entryOf net n.session.mapping name = none := by
  rw [Group.entryOf, List.findFinIdx?_eq_none_iff]
  intro chan hchan hentry
  exact hnone chan hchan ((entry_iff hnet).mp (of_decide_eq_true hentry))

/-- With no channel twice in the group, the entry that is found is the channel itself. -/
theorem entryOf_some (hnet : bot.networks.lookup net = some n)
    (hnodup : (group.chans.map bot.place).Nodup) (horigin : origin ∈ group.chans)
    (hplace : bot.place origin = bot.place ⟨net, name⟩) :
    ∃ i, group.entryOf net n.session.mapping name = some i ∧ group.chans.get i = origin := by
  cases hentry : group.entryOf net n.session.mapping name with
  | none =>
    rw [Group.entryOf, List.findFinIdx?_eq_none_iff] at hentry
    exact absurd (decide_eq_true ((entry_iff hnet).mpr hplace)) (hentry origin horigin)
  | some i =>
    have hfound := (List.findFinIdx?_eq_some_iff.mp hentry).1
    have hsame := ((entry_iff hnet).mp (of_decide_eq_true hfound)).trans hplace.symm
    exact ⟨i, rfl, List.inj_on_of_nodup_map hnodup (List.get_mem _ i) horigin hsame⟩

/-- The channels of the other groups are elsewhere. -/
theorem apart_split {pre post : List Group} (hapart : bot.Apart config)
    (hsplit : config.groups = pre ++ group :: post) (horigin : origin ∈ group.chans) :
    (group.chans.map bot.place).Nodup ∧
      (∀ other ∈ pre, ∀ chan ∈ other.chans, bot.place chan ≠ bot.place origin) ∧
      ∀ other ∈ post, ∀ chan ∈ other.chans, bot.place chan ≠ bot.place origin := by
  rw [Bot.Apart, hsplit, List.flatMap_append, List.flatMap_cons, List.map_append, List.map_append,
    List.nodup_append', List.nodup_append'] at hapart
  obtain ⟨-, ⟨hgroup, -, hpost⟩, hpre⟩ := hapart
  have hmem : bot.place origin ∈ group.chans.map bot.place := List.mem_map_of_mem horigin
  refine ⟨hgroup, fun other hother chan hchan heq => ?_, fun other hother chan hchan heq => ?_⟩
  · refine hpre (a := bot.place chan) ?_ (List.mem_append_left _ (heq ▸ hmem))
    exact List.mem_map_of_mem (List.mem_flatMap.mpr ⟨other, hother, hchan⟩)
  · refine hpost (heq ▸ hmem : bot.place chan ∈ _) ?_
    exact List.mem_map_of_mem (List.mem_flatMap.mpr ⟨other, hother, hchan⟩)

/-- The group and the entry of a channel of a group. -/
theorem isrelayed_of_mem (hapart : bot.Apart config) (hnet : bot.networks.lookup net = some n)
    (hgroup : group ∈ config.groups) (horigin : origin ∈ group.chans)
    (hplace : bot.place origin = bot.place ⟨net, name⟩) :
    ∃ i, isrelayed config net n.session.mapping name = some ⟨group, i⟩ ∧
      group.chans.get i = origin := by
  obtain ⟨pre, post, hsplit⟩ := List.append_of_mem hgroup
  obtain ⟨hnodup, hpre, -⟩ := apart_split hapart hsplit horigin
  obtain ⟨i, hentry, hget⟩ := entryOf_some hnet hnodup horigin hplace
  refine ⟨i, ?_, hget⟩
  have hnone : pre.findSome? (fun group => (group.entryOf net n.session.mapping name).map
      fun origin => RelayInfo.mk group origin) = none := by
    rw [List.findSome?_eq_none_iff]
    intro other hother
    rw [entryOf_none hnet fun chan hchan => hplace ▸ hpre other hother chan hchan, Option.map_none]
  rw [isrelayed, hsplit, List.findSome?_append, hnone, List.findSome?_cons, hentry]
  rfl

/-- What the bot says itself in a channel of a group goes to that group only. -/
theorem own_relayed (hapart : bot.Apart config) (hnet : bot.networks.lookup net = some n)
    (hgroup : group ∈ config.groups) (horigin : origin ∈ group.chans)
    (hplace : bot.place origin = bot.place ⟨net, name⟩) (isnotice : Bool) (senttext : Bytes) :
    ∃ i, (Event.own isnotice net name senttext).relayed config bot =
        (group.others i).map (fun chan => ⟨chan, if isnotice then .notice else .privmsg,
          ownText config group origin n.session.nick isnotice senttext⟩) ∧
      group.chans.get i = origin := by
  obtain ⟨pre, post, hsplit⟩ := List.append_of_mem hgroup
  obtain ⟨hnodup, hpre, hpost⟩ := apart_split hapart hsplit horigin
  obtain ⟨i, hentry, hget⟩ := entryOf_some hnet hnodup horigin hplace
  have hnone : ∀ others : List Group,
      (∀ other ∈ others, ∀ chan ∈ other.chans, bot.place chan ≠ bot.place origin) →
      others.flatMap (fun group => ownRelayed config group net n.session isnotice name senttext) =
        [] := by
    intro others hothers
    rw [List.flatMap_eq_nil_iff]
    intro other hother
    rw [ownRelayed, entryOf_none hnet fun chan hchan => hplace ▸ hothers other hother chan hchan]
  refine ⟨i, ?_, hget⟩
  simp only [Event.relayed, hnet, hsplit]
  rw [List.flatMap_append, List.flatMap_cons, hnone pre hpre, hnone post hpost]
  simp only [List.nil_append, List.append_nil, ownRelayed, hentry, hget]

/-- The entries but one, in a group without repeats. -/
theorem mem_others {i : Fin group.chans.length} (hnodup : (group.chans.map bot.place).Nodup) :
    ((group.others i).map bot.place).Nodup ∧ ∀ x, x ∈ (group.others i).map bot.place ↔
      x ≠ bot.place (group.chans.get i) ∧ x ∈ group.chans.map bot.place := by
  have hi : (i : Nat) < (group.chans.map bot.place).length := by simp
  have herase : (group.others i).map bot.place =
      (group.chans.map bot.place).erase (bot.place (group.chans.get i)) := by
    have hget : (group.chans.map bot.place)[(i : Nat)] = bot.place (group.chans.get i) := by simp
    rw [Group.others, ← List.eraseIdx_map, ← hnodup.erase_getElem i hi, hget]
  rw [herase]
  exact ⟨hnodup.erase _, fun x => hnodup.mem_erase_iff⟩

/-- A loop over the other entries that sends to each of them. -/
theorem fansOut_afterLoop {i : Fin group.chans.length} {how : How} {text : Bytes}
    {ms : List Relayed} {relaymsgs : List (Bytes × Bytes × Bytes)}
    (hnodup : (group.chans.map bot.place).Nodup)
    (husable : ∀ chan ∈ group.chans, bot.usable chan.net)
    (hms : ms = (group.others i).map fun chan => ⟨chan, how, text⟩)
    (hw : w.issendingrelay = false) :
    FansOut bot group (group.chans.get i) how text w { w.afterLoop bot ms with relaymsgs } := by
  have hplaces : ms.map (fun m => bot.place m.chan) = (group.others i).map bot.place := by
    simp [hms, Function.comp_def]
  have hall : ∀ m ∈ ms, bot.usable m.chan.net := by
    rw [hms]
    intro m hm
    obtain ⟨chan, hchan, rfl⟩ := List.mem_map.mp hm
    exact husable chan (List.mem_of_mem_eraseIdx hchan)
  have hsent : ms.takeWhile (fun m => bot.usable m.chan.net) = ms :=
    List.takeWhile_eq_self_iff.mpr hall
  have hreset : (ms.all fun m => bot.usable m.chan.net) = true := by simpa using hall
  refine ⟨by simp [World.afterLoop, hw, hreset], ms, ?_, ?_, ?_⟩
  · simp [World.afterLoop, hsent]
  · rw [hms]
    intro m hm
    obtain ⟨chan, -, rfl⟩ := List.mem_map.mp hm
    exact ⟨rfl, rfl⟩
  · rw [hplaces]
    exact mem_others hnodup

theorem connected_usable (hconn : bot.Connected config) (hgroup : group ∈ config.groups) :
    ∀ chan ∈ group.chans, bot.usable chan.net := by
  intro chan hchan
  obtain ⟨n, hnet, hstate⟩ := hconn group hgroup chan hchan
  simp [Bot.usable, hnet, hstate]

/-- While all the Clients are connected, a queued function and a message of the bot's own go to the
other channels of the group and leave the flag as it was. -/
theorem fansOut_queued {i : Fin group.chans.length} {how : How} {text : Bytes}
    {mapping : CaseMapping} (hconn : bot.Connected config) (hapart : bot.Apart config)
    (hgroup : group ∈ config.groups) (hw : w.issendingrelay = false) :
    FansOut bot group (group.chans.get i) how text w
      (handle config bot depth w (.queued mapping ⟨group, i⟩ how text)) := by
  obtain ⟨pre, post, hsplit⟩ := List.append_of_mem hgroup
  have hnodup := (apart_split hapart hsplit (List.get_mem group.chans i)).1
  have husable := connected_usable hconn hgroup
  obtain ⟨relaymsgs, hrelay⟩ := relay_pcall config bot w depth mapping ⟨group, i⟩ how text
  rw [handle, hrelay]
  exact fansOut_afterLoop hnodup husable rfl hw

theorem ownText_eq (config : Config) (group : Group) (isnotice : Bool) (nick senttext : Bytes) :
    ownText config group origin nick isnotice senttext =
      shown config group origin id (if isnotice then "NOTICE" else "PRIVMSG") nick senttext := by
  have hdistinct : lit "PRIVMSG" ≠ lit "NOTICE" ∧ lit "PRIVMSG" ≠ lit ":CTCP" := by decide
  cases isnotice <;> simp [ownText, shown, decoration, hdistinct, List.append_assoc]

theorem fansOut_own (hconn : bot.Connected config) (hapart : bot.Apart config)
    (hnet : bot.networks.lookup net = some n) (hgroup : group ∈ config.groups)
    (horigin : origin ∈ group.chans) (hplace : bot.place origin = bot.place ⟨net, name⟩)
    (isnotice : Bool) (senttext : Bytes) (hw : w.issendingrelay = false) :
    FansOut bot group origin (if isnotice then .notice else .privmsg)
      (shown config group origin id (if isnotice then "NOTICE" else "PRIVMSG") n.session.nick senttext)
      w (handle config bot depth w (.own isnotice net name senttext)) := by
  obtain ⟨pre, post, hsplit⟩ := List.append_of_mem hgroup
  have hnodup := (apart_split hapart hsplit horigin).1
  have husable := connected_usable hconn hgroup
  obtain ⟨i, hms, rfl⟩ := own_relayed hapart hnet hgroup horigin hplace isnotice senttext
  rw [handle, sentHandler_pcall hw, ← ownText_eq]
  exact fansOut_afterLoop hnodup husable hms hw

/-- The flag is down between inputs, and the queued functions are about groups of the
configuration. -/
structure Idle (config : Config) (p : Plugin) : Prop where
  flag : p.world.issendingrelay = false
  groups : ∀ e ∈ p.queue, ∃ mapping info how text, e = .queued mapping info how text ∧
    info.group ∈ config.groups

theorem isrelayed_group {mapping : CaseMapping} {info : RelayInfo}
    (h : isrelayed config net mapping name = some info) : info.group ∈ config.groups := by
  obtain ⟨group, hgroup, hentry⟩ := List.exists_of_findSome?_eq_some h
  obtain ⟨i, -, rfl⟩ := Option.map_eq_some_iff.mp hentry
  exact hgroup

theorem onSaid_some {lead opening closing : Bytes} {mapping : CaseMapping} {text : Option Bytes}
    {e : Event} (h : onSaid lead opening closing config net mapping msg text = some e) :
    ∃ channel info text, msg.args.head? = some channel ∧
      isrelayed config net mapping channel = some info ∧ e = .queued mapping info .privmsg text := by
  unfold onSaid at h
  split at h
  · rename_i nick channel args said hnick hargs
    obtain ⟨-, h⟩ := Option.ite_none_right_eq_some.mp h
    obtain ⟨info, hinfo, rfl⟩ := Option.map_eq_some_iff.mp h
    exact ⟨channel, info, _, by simp [hargs], hinfo, rfl⟩
  · cases h

/-- What a handler queues is about the channel that the message names. -/
theorem msgHandler_some {mapping : CaseMapping} {e : Event}
    (h : msgHandler config net mapping msg = some e) :
    ∃ channel info text, msg.args.head? = some channel ∧
      isrelayed config net mapping channel = some info ∧ e = .queued mapping info .privmsg text := by
  unfold msgHandler at h
  split at h
  · exact onSaid_some h
  split at h
  · exact onSaid_some h
  split at h
  · exact onSaid_some (Option.ite_none_right_eq_some.mp h).2
  · cases h

theorem idle_push {e : Option Event} (hp : Idle config p) (he : ∀ x ∈ e, ∃ mapping info how text,
    x = .queued mapping info how text ∧ info.group ∈ config.groups) :
    Idle config { p with queue := p.queue ++ e.toList } := by
  refine ⟨hp.flag, fun x hx => ?_⟩
  rcases List.mem_append.mp hx with hx | hx
  · exact hp.groups x hx
  · exact he x (Option.mem_toList.mp hx)

/-- The flag is down again after an event, in a group or not. -/
theorem handle_flag {e : Event} (husable : ∀ m ∈ e.relayed config bot, bot.usable m.chan.net)
    (hw : w.issendingrelay = false) : (handle config bot depth w e).issendingrelay = false := by
  have hready : e.Ready config bot w := by
    cases e with
    | queued mapping info how text => exact Or.inl hw
    | own isnotice net name senttext => exact hw
  exact ((relay_isolated_iff config bot depth w e).mpr ⟨husable, hready⟩).1

theorem queued_usable {info : RelayInfo} {mapping : CaseMapping} {how : How} {text : Bytes}
    (hconn : bot.Connected config) (hgroup : info.group ∈ config.groups) :
    ∀ m ∈ (Event.queued mapping info how text).relayed config bot, bot.usable m.chan.net := by
  intro m hm
  obtain ⟨chan, hchan, rfl⟩ := List.mem_map.mp hm
  exact connected_usable hconn hgroup chan (List.mem_of_mem_eraseIdx hchan)

/-- The messages that a message of the bot's own calls for: to the other entries of every group that
has the channel. -/
theorem mem_own {isnotice : Bool} {senttext : Bytes} {m : Relayed}
    (hnet : bot.networks.lookup net = some n) :
    m ∈ (Event.own isnotice net name senttext).relayed config bot ↔
      ∃ group ∈ config.groups, ∃ i, group.entryOf net n.session.mapping name = some i ∧
        ∃ chan ∈ group.others i, m = ⟨chan, if isnotice then .notice else .privmsg,
          ownText config group (group.chans.get i) n.session.nick isnotice senttext⟩ := by
  simp only [Event.relayed, hnet, List.mem_flatMap]
  refine exists_congr fun group => and_congr_right fun _ => ?_
  cases hentry : group.entryOf net n.session.mapping name with
  | none => simp [ownRelayed, hentry]
  | some i => simp [ownRelayed, hentry, eq_comm]

theorem own_usable {isnotice : Bool} {senttext : Bytes} (hconn : bot.Connected config) :
    ∀ m ∈ (Event.own isnotice net name senttext).relayed config bot, bot.usable m.chan.net := by
  intro m hm
  cases hnet : bot.networks.lookup net with
  | none => simp [Event.relayed, hnet] at hm
  | some n =>
    obtain ⟨group, hgroup, i, -, chan, hchan, rfl⟩ := (mem_own hnet).mp hm
    exact connected_usable hconn hgroup chan (List.mem_of_mem_eraseIdx hchan)

theorem idle_step {input : Bot × Input} (hconn : input.1.Connected config) (hp : Idle config p)
    (h : step config depth p input = some q) : Idle config q := by
  obtain ⟨bot, input⟩ := input
  cases input with
  | message net msg =>
    obtain ⟨n, -, rfl⟩ := Option.map_eq_some_iff.mp h
    refine idle_push hp fun e he => ?_
    obtain ⟨channel, info, text, -, hinfo, rfl⟩ := msgHandler_some he
    exact ⟨_, info, _, text, rfl, isrelayed_group hinfo⟩
  | relay net name how text =>
    obtain ⟨n, -, rfl⟩ := Option.map_eq_some_iff.mp h
    refine idle_push hp fun e he => ?_
    obtain ⟨info, hinfo, rfl⟩ := Option.map_eq_some_iff.mp he
    exact ⟨_, info, how, text, rfl, isrelayed_group hinfo⟩
  | run i =>
    obtain ⟨e, he, rfl⟩ := Option.map_eq_some_iff.mp h
    obtain ⟨mapping, ⟨group, origin⟩, how, text, rfl, hgroup⟩ :=
      hp.groups e (List.mem_of_getElem? he)
    exact ⟨handle_flag (queued_usable hconn hgroup) hp.flag,
      fun x hx => hp.groups x (List.mem_of_mem_eraseIdx hx)⟩
  | own isnotice net name senttext =>
    obtain rfl := Option.some.inj h
    exact ⟨handle_flag (own_usable hconn) hp.flag, hp.groups⟩
  | clear =>
    obtain rfl := Option.some.inj h
    exact ⟨hp.flag, hp.groups⟩

/-- What a PRIVMSG, a NOTICE or an ACTION says, if it says anything. -/
def spoken (msg : Message) : Option Bytes :=
  if msg.cmd = lit ":CTCP" then msg.args[2]? else msg.args[1]?

/-- A PRIVMSG, a NOTICE or an ACTION from a valid nick to the channel. -/
structure Says (msg : Message) (channel : Bytes) : Prop where
  sender : ∃ nick, msg.sender.nick = some nick ∧ isnick nick = true
  channel : msg.args.head? = some channel ∧ ischanname channel = true
  kind : msg.cmd = lit "PRIVMSG" ∨ msg.cmd = lit "NOTICE" ∨
    (msg.cmd = lit ":CTCP" ∧ msg.args[1]? = some (lit "ACTION"))

theorem saidText_eq {lead opening closing : Bytes} (config : Config) (info : RelayInfo) {cmd : Bytes}
    (hcmd : decoration cmd = (lead, opening, closing)) (nick said : Bytes) :
    saidText config lead opening closing info nick said =
      shown config info.group (info.group.chans.get info.origin) formatString cmd nick said := by
  simp [saidText, shown, hcmd, List.append_assoc]

theorem onSaid_says {channel nick : Bytes} {mapping : CaseMapping} {info : RelayInfo}
    {lead opening closing : Bytes} (text : Option Bytes) (hsaying : Says msg channel)
    (hnick : msg.sender.nick = some nick)
    (hinfo : isrelayed config net mapping channel = some info)
    (hcmd : decoration msg.cmd = (lead, opening, closing)) :
    onSaid lead opening closing config net mapping msg text = text.map fun said =>
      .queued mapping info .privmsg (shown config info.group
        (info.group.chans.get info.origin) formatString msg.cmd nick said) := by
  obtain ⟨⟨other, hother, hvalid⟩, ⟨hchannel, hname⟩, -⟩ := hsaying
  obtain rfl := Option.some.inj (hnick.symm.trans hother)
  obtain ⟨args, hargs⟩ : ∃ args, msg.args = channel :: args := by
    cases h : msg.args with
    | nil => simp [h] at hchannel
    | cons first args =>
      rw [h] at hchannel
      exact ⟨args, congrArg (· :: args) (Option.some.inj hchannel)⟩
  cases text <;> simp [onSaid, hnick, hargs, hvalid, hname, hinfo, saidText_eq config info hcmd]

/-- A message that says something in a relayed channel is queued, and one that says nothing is not. -/
theorem msgHandler_says {channel nick : Bytes} {mapping : CaseMapping} {info : RelayInfo}
    (hsaying : Says msg channel) (hnick : msg.sender.nick = some nick)
    (hinfo : isrelayed config net mapping channel = some info) :
    msgHandler config net mapping msg = (spoken msg).map fun said =>
      .queued mapping info .privmsg (shown config info.group
        (info.group.chans.get info.origin) formatString msg.cmd nick said) := by
  have hdistinct : lit "NOTICE" ≠ lit "PRIVMSG" ∧ lit ":CTCP" ≠ lit "PRIVMSG" ∧
      lit ":CTCP" ≠ lit "NOTICE" := by decide
  obtain ⟨hnp, hcp, hcn⟩ := hdistinct
  rcases hsaying.kind with hcmd | hcmd | ⟨hcmd, haction⟩
  · have hdeco : decoration msg.cmd = ([], lit "<", lit ">") := by
      rw [hcmd, decoration, if_neg hnp.symm, if_neg hcp.symm]
    rw [msgHandler, if_pos hcmd, onPrivmsg, onSaid_says _ hsaying hnick hinfo hdeco, spoken,
      if_neg (by rw [hcmd]; exact hcp.symm)]
  · have hdeco : decoration msg.cmd = ([], lit "-", lit "-") := by rw [hcmd, decoration, if_pos rfl]
    rw [msgHandler, if_neg (by rw [hcmd]; exact hnp), if_pos hcmd, onNotice,
      onSaid_says _ hsaying hnick hinfo hdeco, spoken, if_neg (by rw [hcmd]; exact hcn.symm)]
  · have hdeco : decoration msg.cmd = (lit "* ", [], []) := by
      rw [hcmd, decoration, if_neg hcn, if_pos rfl]
    rw [msgHandler, if_neg (by rw [hcmd]; exact hcp), if_neg (by rw [hcmd]; exact hcn), if_pos hcmd,
      onCtcp, if_pos haction, onSaid_says _ hsaying hnick hinfo hdeco, spoken, if_pos hcmd]

/-- The Clients are connected at every moment of a run. -/
def Steady (config : Config) (inputs : List (Bot × Input)) : Prop :=
  ∀ input ∈ inputs, input.1.Connected config

theorem idle_run {inputs : List (Bot × Input)} (hsteady : Steady config inputs)
    (hidle : Idle config p) (hrun : run (step config depth) p inputs = some q) : Idle config q :=
  run_keeps_along (D := fun _ input => input.1.Connected config)
    (fun _ _ _ hp hd h => idle_step hd hp h) hidle
    (along_of_forall fun input hinput _ => hsteady input hinput) hrun

theorem idle_start (config : Config) : Idle config start := ⟨rfl, by simp [start]⟩

/-- After any run with the Clients connected, when the groups are apart: what is said in a channel of
a group is queued for that group, with who said it; a queued function, when its turn comes, sends its
text to each other channel of its group once, and to no one else; and so does each message of the bot's
own to a channel of a group. -/
theorem relayed_once (depth : Nat) (inputs : List (Bot × Input)) (hsteady : Steady config inputs)
    (hrun : run (step config depth) start inputs = some p) (hconn : bot.Connected config)
    (hapart : bot.Apart config) :
    (∀ net n msg channel nick, bot.networks.lookup net = some n → Says msg channel →
      msg.sender.nick = some nick → ∀ group ∈ config.groups, ∀ origin ∈ group.chans,
        bot.place origin = bot.place ⟨net, channel⟩ →
        ∃ i, group.chans.get i = origin ∧
          step config depth p (bot, .message net msg) = some { p with
            queue := p.queue ++ ((spoken msg).map fun said =>
              Event.queued n.session.mapping ⟨group, i⟩ .privmsg
                (shown config group origin formatString msg.cmd nick said)).toList }) ∧
    (∀ k e, p.queue[k]? = some e → ∃ mapping info how text,
      e = .queued mapping info how text ∧ ∃ q, step config depth p (bot, .run k) = some q ∧
        FansOut bot info.group (info.group.chans.get info.origin) how text p.world q.world) ∧
    ∀ isnotice net n channel senttext, bot.networks.lookup net = some n →
      ∀ group ∈ config.groups, ∀ origin ∈ group.chans,
        bot.place origin = bot.place ⟨net, channel⟩ →
        ∃ q, step config depth p (bot, .own isnotice net channel senttext) = some q ∧
          FansOut bot group origin (if isnotice then .notice else .privmsg)
            (shown config group origin id (if isnotice then "NOTICE" else "PRIVMSG")
              n.session.nick senttext) p.world q.world := by
  have hidle := idle_run hsteady (idle_start config) hrun
  refine ⟨?_, ?_, ?_⟩
  · intro net n msg channel nick hnet hsaying hnick group hgroup origin horigin hplace
    obtain ⟨i, hinfo, rfl⟩ := isrelayed_of_mem hapart hnet hgroup horigin hplace
    refine ⟨i, rfl, ?_⟩
    simp only [step, hnet, Option.map_some, msgHandler_says hsaying hnick hinfo]
  · intro k e he
    obtain ⟨mapping, ⟨group, i⟩, how, text, rfl, hgroup⟩ :=
      hidle.groups e (List.mem_of_getElem? he)
    refine ⟨mapping, ⟨group, i⟩, how, text, rfl, ⟨handle config bot depth p.world
      (.queued mapping ⟨group, i⟩ how text), p.queue.eraseIdx k⟩, ?_,
      fansOut_queued hconn hapart hgroup hidle.flag⟩
    simp only [step, he, Option.map_some]
  · intro isnotice net n channel senttext hnet group hgroup origin horigin hplace
    exact ⟨_, rfl, fansOut_own hconn hapart hnet hgroup horigin hplace isnotice senttext hidle.flag⟩

/-- Two groups on two networks. -/
def twoGroups : Config :=
  ⟨[⟨[⟨"OFTC", "#tux"⟩, ⟨"EsperNet", "#Tux"⟩], false, true⟩,
    ⟨[⟨"EsperNet", "#lua"⟩, ⟨"OFTC", "#lua"⟩], true, false⟩], [[3, 51]], [15], by simp⟩

def twoNetworks : Bot :=
  let session : Session := ⟨.connected, "TuxBot", .rfc1459, .default⟩
  ⟨Table.set id (Table.set id ∅ "OFTC" ⟨session, .new⟩) "EsperNet" ⟨session, .new⟩⟩

theorem twoGroups_connected : twoNetworks.Connected twoGroups := by
  have hall : ∀ group ∈ twoGroups.groups, ∀ chan ∈ group.chans,
      (twoNetworks.networks.lookup chan.net).any (fun n => n.session.state = .connected) = true := by
    decide +kernel
  intro group hgroup chan hchan
  obtain ⟨n, hnet, hstate⟩ := (Option.any_eq_true ..).mp (hall group hgroup chan hchan)
  exact ⟨n, hnet, of_decide_eq_true hstate⟩

/-- Ann is heard in `#TUX` on EsperNet, and OFTC gets the one message. -/
theorem relayed_once_ann : ∃ p, run (step twoGroups 2) start
      [(twoNetworks, .message "EsperNet" (heard "Ann" "PRIVMSG" ["#TUX", "hello"]))] = some p ∧
    ∃ mapping info how text, p.queue[0]? = some (.queued mapping info how text) ∧
      ∃ q, step twoGroups 2 p (twoNetworks, .run 0) = some q ∧
        FansOut twoNetworks info.group (info.group.chans.get info.origin) how text
          p.world q.world := by
  have hconn := twoGroups_connected
  have hapart : twoNetworks.Apart twoGroups := by
    unfold Bot.Apart
    decide +kernel
  have hsteady : Steady twoGroups
      [(twoNetworks, .message "EsperNet" (heard "Ann" "PRIVMSG" ["#TUX", "hello"]))] := by
    intro input hinput
    obtain rfl := List.mem_singleton.mp hinput
    exact hconn
  obtain ⟨-, hqueued, -⟩ := relayed_once 2 _ hsteady rfl hconn hapart
  obtain ⟨mapping, info, how, text, he, hfans⟩ := hqueued 0 _ rfl
  exact ⟨_, rfl, mapping, info, how, text, congrArg some he, hfans⟩

/-! What users say and what the bot says itself, where groups may overlap. -/

/-- The places to which an event sends. -/
def relayedTo (config : Config) (bot : Bot) (depth : Nat) (w : World) (e : Event) : Set Channel :=
  {x | ∃ m ∈ (handle config bot depth w e).sent.drop w.sent.length, bot.place m.chan = x}

/-- The places to which what a message puts into the queue sends. -/
def messageRelayedTo (config : Config) (bot : Bot) (depth : Nat) (w : World) (net : Bytes)
    (mapping : CaseMapping) (msg : Message) : Set Channel :=
  match msgHandler config net mapping msg with
  | some e => relayedTo config bot depth w e
  | none => ∅

/-- The group that is found first has, beside the channel, every channel that another group has beside
it. -/
def FirstCovers (config : Config) (bot : Bot) (net : Bytes) (mapping : CaseMapping)
    (name : Bytes) : Prop :=
  ∀ info ∈ isrelayed config net mapping name, ∀ group ∈ config.groups,
    ∀ i ∈ group.entryOf net mapping name, ∀ chan ∈ group.others i,
      ∃ other ∈ info.group.others info.origin, bot.place other = bot.place chan

theorem sent_handle {e : Event} (husable : ∀ m ∈ e.relayed config bot, bot.usable m.chan.net)
    (hw : w.issendingrelay = false) :
    (handle config bot depth w e).sent = w.sent ++ e.relayed config bot := by
  have hall : (e.relayed config bot).takeWhile (fun m => bot.usable m.chan.net) =
      e.relayed config bot := List.takeWhile_eq_self_iff.mpr husable
  cases e with
  | queued mapping info how text =>
    obtain ⟨relaymsgs, hrelay⟩ := relay_pcall config bot w depth mapping info how text
    simp only [handle, hrelay, World.afterLoop, hall]
  | own isnotice net name senttext => simp only [handle, sentHandler_pcall hw, World.afterLoop, hall]

theorem mem_relayedTo {e : Event} {x : Channel}
    (husable : ∀ m ∈ e.relayed config bot, bot.usable m.chan.net) (hw : w.issendingrelay = false) :
    x ∈ relayedTo config bot depth w e ↔ ∃ m ∈ e.relayed config bot, bot.place m.chan = x := by
  simp [relayedTo, sent_handle husable hw]

theorem isrelayed_none {mapping : CaseMapping} :
    isrelayed config net mapping name = none ↔
      ∀ group ∈ config.groups, group.entryOf net mapping name = none := by
  simp [isrelayed]

theorem isrelayed_entry {mapping : CaseMapping} {info : RelayInfo}
    (h : isrelayed config net mapping name = some info) :
    info.group.entryOf net mapping name = some info.origin := by
  obtain ⟨group, -, hentry⟩ := List.exists_of_findSome?_eq_some h
  obtain ⟨i, hi, rfl⟩ := Option.map_eq_some_iff.mp hentry
  exact hi

theorem mem_ownRelayedTo {isnotice : Bool} {senttext : Bytes} {x : Channel}
    (hconn : bot.Connected config) (hnet : bot.networks.lookup net = some n)
    (hw : w.issendingrelay = false) :
    x ∈ relayedTo config bot depth w (.own isnotice net name senttext) ↔
      ∃ group ∈ config.groups, ∃ i ∈ group.entryOf net n.session.mapping name,
        ∃ chan ∈ group.others i, bot.place chan = x := by
  rw [mem_relayedTo (own_usable hconn) hw]
  constructor
  · rintro ⟨m, hm, rfl⟩
    obtain ⟨group, hgroup, i, hi, chan, hchan, rfl⟩ := (mem_own hnet).mp hm
    exact ⟨group, hgroup, i, hi, chan, hchan, rfl⟩
  · rintro ⟨group, hgroup, i, hi, chan, hchan, rfl⟩
    exact ⟨_, (mem_own hnet).mpr ⟨group, hgroup, i, hi, chan, hchan, rfl⟩, rfl⟩

theorem mem_messageRelayedTo {channel text : Bytes} {info : RelayInfo} {x : Channel}
    (hconn : bot.Connected config) (hsaying : Says msg channel) (htext : spoken msg = some text)
    (hinfo : isrelayed config net n.session.mapping channel = some info)
    (hw : w.issendingrelay = false) :
    x ∈ messageRelayedTo config bot depth w net n.session.mapping msg ↔
      ∃ chan ∈ info.group.others info.origin, bot.place chan = x := by
  obtain ⟨nick, hnick, -⟩ := hsaying.sender
  simp only [messageRelayedTo, msgHandler_says hsaying hnick hinfo, htext, Option.map_some]
  rw [mem_relayedTo (queued_usable hconn (isrelayed_group hinfo)) hw]
  simp [Event.relayed]

/-- After any run with the Clients connected, what a user says in a channel goes where what the bot says
there itself goes, exactly when the group of the channel that is found first covers the others. -/
theorem relayed_alike_iff (depth : Nat) (inputs : List (Bot × Input))
    (hsteady : Steady config inputs)
    (hrun : run (step config depth) start inputs = some p) (hconn : bot.Connected config)
    (hnet : bot.networks.lookup net = some n) {channel text : Bytes} (hsaying : Says msg channel)
    (htext : spoken msg = some text) (isnotice : Bool) (senttext : Bytes) :
    messageRelayedTo config bot depth p.world net n.session.mapping msg =
        relayedTo config bot depth p.world (.own isnotice net channel senttext) ↔
      FirstCovers config bot net n.session.mapping channel := by
  have hw := (idle_run hsteady (idle_start config) hrun).flag
  rw [Set.ext_iff]
  simp only [mem_ownRelayedTo hconn hnet hw]
  cases hinfo : isrelayed config net n.session.mapping channel with
  | none =>
    have hnowhere := isrelayed_none.mp hinfo
    have hignored : msgHandler config net n.session.mapping msg = none := by
      rw [Option.eq_none_iff_forall_ne_some]
      intro e he
      obtain ⟨named, info, -, hnamed, hfound, -⟩ := msgHandler_some he
      obtain rfl := Option.some.inj (hnamed.symm.trans hsaying.channel.1)
      exact absurd (hfound.symm.trans hinfo) (by simp)
    refine iff_of_true (fun x => ?_) (by simp [FirstCovers, hinfo])
    simp only [messageRelayedTo, hignored, Set.mem_empty_iff_false, false_iff]
    rintro ⟨group, hgroup, i, hi, -⟩
    rw [hnowhere group hgroup] at hi
    cases hi
  | some info =>
    have hgroup := isrelayed_group hinfo
    have hentry := isrelayed_entry hinfo
    simp only [mem_messageRelayedTo hconn hsaying htext hinfo hw]
    constructor
    · intro h first hfirst group hgroup i hi chan hchan
      obtain rfl := Option.some.inj (hinfo.symm.trans hfirst)
      exact (h _).mpr ⟨group, hgroup, i, hi, chan, hchan, rfl⟩
    · intro h x
      constructor
      · rintro ⟨chan, hchan, rfl⟩
        exact ⟨info.group, hgroup, info.origin, hentry, chan, hchan, rfl⟩
      · rintro ⟨group, hgroup, i, hi, chan, hchan, rfl⟩
        exact h info hinfo group hgroup i hi chan hchan

theorem relayed_alike_ann : messageRelayedTo twoGroups twoNetworks 2 start.world "EsperNet" .rfc1459
      (heard "Ann" "PRIVMSG" ["#TUX", "hello"]) =
    relayedTo twoGroups twoNetworks 2 start.world (.own false "EsperNet" "#TUX" "hello Ann") := by
  refine (relayed_alike_iff (n := ⟨⟨.connected, "TuxBot", .rfc1459, .default⟩, .new⟩) 2 []
    (by simp [Steady]) rfl twoGroups_connected rfl
    ⟨⟨_, rfl, by decide +kernel⟩, ⟨rfl, by decide +kernel⟩, Or.inl rfl⟩ rfl false "hello Ann").mpr ?_
  unfold FirstCovers
  decide +kernel

/-- A channel of two groups: the second gets only what the bot says itself. -/
def overlapping : Config :=
  ⟨[⟨[⟨"OFTC", "#tux"⟩, ⟨"EsperNet", "#tux"⟩], false, true⟩,
    ⟨[⟨"OFTC", "#tux"⟩, ⟨"EsperNet", "#lua"⟩], true, false⟩], [[3, 51]], [15], by simp⟩

theorem second_group_missed : messageRelayedTo overlapping twoNetworks 2 start.world "OFTC" .rfc1459
      (heard "Ann" "PRIVMSG" ["#tux", "hello"]) ≠
    relayedTo overlapping twoNetworks 2 start.world (.own false "OFTC" "#tux" "hello Ann") := by
  have hown : ⟨"EsperNet", "#lua"⟩ ∈ relayedTo overlapping twoNetworks 2 start.world
      (.own false "OFTC" "#tux" "hello Ann") := by
    show ∃ m ∈ List.drop _ _, _
    decide +kernel
  have huser : ∀ e ∈ msgHandler overlapping "OFTC" .rfc1459 (heard "Ann" "PRIVMSG" ["#tux", "hello"]),
      ∀ m ∈ (handle overlapping twoNetworks 2 start.world e).sent.drop start.world.sent.length,
        twoNetworks.place m.chan ≠ ⟨"EsperNet", "#lua"⟩ := by
    decide +kernel
  intro hsame
  rw [← hsame, messageRelayedTo] at hown
  split at hown
  · rename_i e he
    obtain ⟨m, hm, hplace⟩ := hown
    exact huser e he m hm hplace
  · exact hown

end TuxBot.Plugins.Relay
