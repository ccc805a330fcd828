import TuxBot.Irc.ChannelTracker
import TuxBot.Lua.Effect

/-! The relay plugin: what is said in one channel of a group is sent to the others. -/
namespace TuxBot.Plugins.Relay

open TuxBot.Lua TuxBot.Irc

/-- `chan[1]` and `chan[2]` of an entry of a relay group. -/
structure Channel where
  net : Bytes
  name : Bytes
  deriving DecidableEq

structure Group where
  chans : List Channel
  showchanname : Bool
  shownetname : Bool

/-- Entries are told apart by their place in the group, as the code compares references. -/
def Group.others (group : Group) (origin : Fin group.chans.length) : List Channel :=
  group.chans.eraseIdx origin

/-- `nickfmts` has a color for every nick, so it is not empty. -/
structure Config where
  groups : List Group
  nickfmts : List Bytes
  endfmt : Bytes
  nickfmts_ne : nickfmts ≠ []

/-- What `isrelayed` found: the group and the entry that the message came from. -/
structure RelayInfo where
  group : Group
  origin : Fin group.chans.length

/-- A Client and its tracker. -/
structure Network where
  session : Session
  tracker : Tracker

/-- `bot.clientsbyname`. A network's name stands for its Client, since `bot.clients` gives the
name back. -/
structure Bot where
  networks : Table Network

/-- The Client is in a state in which `sendmessage` does not raise. -/
def Bot.usable (bot : Bot) (net : Bytes) : Bool :=
  (bot.networks.lookup net).any fun n =>
    n.session.state = .connected ∨ n.session.state = .registering

inductive How where
  | privmsg
  | notice
  | me
  deriving DecidableEq

/-- A message to one channel; `me` is a CTCP ACTION. -/
structure Relayed where
  chan : Channel
  how : How
  text : Bytes
  deriving DecidableEq

/-- `sent` records what the plugin sent. An entry of `relaymsgs` names the network, the folded
channel and the text. -/
structure World where
  issendingrelay : Bool
  relaymsgs : List (Bytes × Bytes × Bytes)
  sent : List Relayed
  deriving DecidableEq

def nickhash (nick : Bytes) : Nat := nick.foldl (fun num b => num + b.toNat) 0

/-- `config.nickfmts[hash]` -/
def Config.nickfmt (config : Config) (nick : Bytes) : Bytes :=
  config.nickfmts.getD (nickhash nick % config.nickfmts.length) []

/-- `sendprivmsg`, `sendnotice` and `sendctcp`. The first two trigger an event, whose handler runs
under `pcall`. -/
def send (bot : Bot) (sentHandler : Bool → Bytes → Bytes → Bytes → Eff World Unit) (m : Relayed) :
    Eff World Unit := do
  if (bot.networks.lookup m.chan.net).isNone then
    throw "attempt to index field '?' (a nil value)"
  else if bot.usable m.chan.net then
    modify fun w => { w with sent := w.sent ++ [m] }
    match m.how with
    | .privmsg => (sentHandler false m.chan.net m.chan.name m.text).protect
    | .notice => (sentHandler true m.chan.net m.chan.name m.text).protect
    | .me => pure ()
  else
    throw "irc.Client.sendmessage can only be caled in the \"connected\" and \"registering\" states"

/-- The body of the loops of `relay` and `sent_handler`. -/
def sendRelay (bot : Bot) (sentHandler : Bool → Bytes → Bytes → Bytes → Eff World Unit)
    (m : Relayed) : Eff World Unit := do
  modify fun w => { w with issendingrelay := true }
  send bot sentHandler m
  modify fun w => { w with issendingrelay := false }

/-- The first entry of the group that is the channel `name` of the network. -/
def Group.entryOf (group : Group) (net : Bytes) (mapping : CaseMapping) (name : Bytes) :
    Option (Fin group.chans.length) :=
  group.chans.findFinIdx? fun chan => chan.net = net ∧ mapping.nameeq chan.name name

/-- The text under which the bot's own message appears in the other channels of the group. -/
def ownText (config : Config) (group : Group) (chan : Channel) (nick : Bytes) (isnotice : Bool)
    (senttext : Bytes) : Bytes :=
  config.nickfmt nick ++ (if isnotice then lit "-" else lit "<") ++ nick ++
    (if group.showchanname then lit "@" ++ chan.name else []) ++
    (if group.shownetname then lit "@" ++ chan.net else []) ++
    (if isnotice then lit "-" else lit ">") ++ config.endfmt ++ lit " " ++ senttext

/-- What one group makes of a message of the bot's own. -/
def ownRelayed (config : Config) (group : Group) (net : Bytes) (s : Session) (isnotice : Bool)
    (name senttext : Bytes) : List Relayed :=
  match group.entryOf net s.mapping name with
  | none => []
  | some i =>
    let text := ownText config group (group.chans.get i) s.nick isnotice senttext
    (group.others i).map fun chan => ⟨chan, if isnotice then .notice else .privmsg, text⟩

/-- `sent_handler`. `depth` bounds how deep events nest: the messages it sends itself come back to
it while `issendingrelay` is set. -/
def sentHandler (config : Config) (bot : Bot) : Nat → Bool → Bytes → Bytes → Bytes → Eff World Unit
  | 0, _, _, _, _ => pure ()
  | depth + 1, isnotice, net, name, senttext => do
    let w ← get
    if w.issendingrelay then pure ()
    else
      match bot.networks.lookup net with
      | none => throw "attempt to index field '?' (a nil value)"
      | some n =>
        config.groups.forM fun group =>
          (ownRelayed config group net n.session isnotice name senttext).forM
            (sendRelay bot (sentHandler config bot depth))

/-- The function that `relay` puts into the queue; `mapping` is that of the Client `relay` found. -/
def relay (config : Config) (bot : Bot) (depth : Nat) (mapping : CaseMapping) (info : RelayInfo)
    (how : How) (text : Bytes) : Eff World Unit := do
  (info.group.others info.origin).forM fun chan =>
    sendRelay bot (sentHandler config bot depth) ⟨chan, how, text⟩
  let origin := info.group.chans.get info.origin
  modify fun w => { w with
    relaymsgs := (origin.net, mapping.lower origin.name, text) :: w.relaymsgs }

/-- What reaches the plugin from the event loop: `run_next_queued` calls a queued function, or the
bot has sent a message of its own. -/
inductive Event where
  | queued (mapping : CaseMapping) (info : RelayInfo) (how : How) (text : Bytes)
  | own (isnotice : Bool) (net name senttext : Bytes)

/-- Both callers use `pcall`. -/
def handle (config : Config) (bot : Bot) (depth : Nat) (w : World) : Event → World
  | .queued mapping info how text => ((relay config bot depth mapping info how text).pcall w).2
  | .own isnotice net name senttext =>
    ((sentHandler config bot (depth + 1) isnotice net name senttext).pcall w).2

variable {config : Config} {bot : Bot} {w : World} {m : Relayed} {ms : List Relayed}
  {h : Bool → Bytes → Bytes → Bytes → Eff World Unit}

/-- What `send` needs of the handler: it lets the messages of the loops themselves pass. -/
def Passes (h : Bool → Bytes → Bytes → Bytes → Eff World Unit) : Prop :=
  ∀ isnotice net name senttext w, w.issendingrelay = true →
    h isnotice net name senttext w = .ok ⟨⟩ w

theorem passes_sentHandler (config : Config) (bot : Bot) (depth : Nat) :
    Passes (sentHandler config bot depth) := by
  intro isnotice net name senttext w hw
  cases depth with
  | zero => rfl
  | succ depth =>
    unfold sentHandler
    rw [Eff.get_bind_eq, if_pos hw]
    rfl

theorem protect_flagged (hpass : Passes h) {isnotice : Bool} {net name senttext : Bytes}
    (hw : w.issendingrelay = true) :
    (h isnotice net name senttext).protect.pcall w = (some ⟨⟩, w) := by
  simp only [Eff.pcall, Eff.protect, hpass isnotice net name senttext w hw]

theorem send_pcall (bot : Bot) (m : Relayed) (hpass : Passes h) (hw : w.issendingrelay = true) :
    (send bot h m).pcall w =
    if bot.usable m.chan.net then (some ⟨⟩, { w with sent := w.sent ++ [m] }) else (none, w) := by
  unfold send
  by_cases hu : bot.usable m.chan.net
  · have hsome : (bot.networks.lookup m.chan.net).isNone = false := by
      unfold Bot.usable at hu
      cases hn : bot.networks.lookup m.chan.net with
      | none => simp [hn] at hu
      | some n => rfl
    simp only [hsome, hu, if_true, Bool.false_eq_true, if_false]
    rw [Eff.pcall_bind_some (a := ⟨⟩) (t := { w with sent := w.sent ++ [m] }) rfl]
    cases m.how with
    | privmsg => exact protect_flagged hpass hw
    | notice => exact protect_flagged hpass hw
    | me => rfl
  · simp only [hu, if_false, Bool.false_eq_true]
    split <;> rfl

/-- Whether the message can be sent decides whether `issendingrelay` is taken back. -/
theorem sendRelay_pcall (bot : Bot) (m : Relayed) (w : World) (hpass : Passes h) :
    (sendRelay bot h m).pcall w =
    if bot.usable m.chan.net then
      (some ⟨⟩, { w with issendingrelay := false, sent := w.sent ++ [m] })
    else (none, { w with issendingrelay := true }) := by
  unfold sendRelay
  rw [Eff.pcall_bind_some (a := ⟨⟩) (t := { w with issendingrelay := true }) rfl]
  have hsend := send_pcall bot m (w := { w with issendingrelay := true }) hpass rfl
  by_cases hu : bot.usable m.chan.net
  · rw [if_pos hu] at hsend ⊢
    rw [Eff.pcall_bind_some hsend]
    rfl
  · rw [if_neg hu] at hsend ⊢
    rw [Eff.pcall_bind_none hsend]

/-- The world once the loop over the messages has returned or raised. -/
def World.afterLoop (w : World) (bot : Bot) (ms : List Relayed) : World :=
  { w with
    issendingrelay :=
      if ms.all fun m => bot.usable m.chan.net then ms.isEmpty && w.issendingrelay else true
    sent := w.sent ++ ms.takeWhile fun m => bot.usable m.chan.net }

theorem forM_sendRelay (bot : Bot) (ms : List Relayed) (w : World) (hpass : Passes h) :
    (ms.forM (sendRelay bot h)).pcall w =
    (if ms.all fun m => bot.usable m.chan.net then some ⟨⟩ else none, w.afterLoop bot ms) := by
  induction ms generalizing w with
  | nil =>
    have hend : w.afterLoop bot [] = w := by simp [World.afterLoop]
    rw [hend]
    rfl
  | cons m ms ih =>
    have hone := sendRelay_pcall bot m w hpass
    have hcons : (m :: ms).forM (sendRelay bot h) =
        sendRelay bot h m >>= fun _ => ms.forM (sendRelay bot h) := rfl
    rw [hcons]
    by_cases hu : bot.usable m.chan.net
    · rw [if_pos hu] at hone
      rw [Eff.pcall_bind_some hone, ih]
      simp [World.afterLoop, hu]
    · rw [if_neg hu] at hone
      rw [Eff.pcall_bind_none hone]
      simp [World.afterLoop, hu]

/-- The messages to the other channels that the event calls for. -/
def Event.relayed (config : Config) (bot : Bot) : Event → List Relayed
  | .queued _ info how text => (info.group.others info.origin).map fun chan => ⟨chan, how, text⟩
  | .own isnotice net name senttext =>
    match bot.networks.lookup net with
    | none => []
    | some n => config.groups.flatMap fun group =>
      ownRelayed config group net n.session isnotice name senttext

/-- Every channel on a usable Client has got the message as often as the groups list it, and
`issendingrelay` is as it was at first. -/
def Isolated (config : Config) (bot : Bot) (e : Event) (w w' : World) : Prop :=
  w'.issendingrelay = false ∧ ∃ sent, w'.sent = w.sent ++ sent ∧
    ∀ m, bot.usable m.chan.net → sent.count m = (e.relayed config bot).count m

theorem afterLoop_isolated (bot : Bot) (w : World) (ms : List Relayed) :
    ((w.afterLoop bot ms).issendingrelay = false ∧ ∃ sent,
      (w.afterLoop bot ms).sent = w.sent ++ sent ∧
        ∀ m, bot.usable m.chan.net → sent.count m = ms.count m) ↔
    (∀ m ∈ ms, bot.usable m.chan.net) ∧ (ms = [] → w.issendingrelay = false) := by
  have hall : (ms.all fun m => bot.usable m.chan.net) = true ↔ ∀ m ∈ ms, bot.usable m.chan.net := by
    simp
  by_cases hms : ∀ m ∈ ms, bot.usable m.chan.net
  · have hsent : ms.takeWhile (fun m => bot.usable m.chan.net) = ms :=
      List.takeWhile_eq_self_iff.mpr hms
    simp only [World.afterLoop, hall.mpr hms, if_true, hsent]
    constructor
    · rintro ⟨hflag, -⟩
      refine ⟨hms, ?_⟩
      rintro rfl
      simpa using hflag
    · rintro ⟨-, hflag⟩
      refine ⟨?_, ms, rfl, fun m _ => rfl⟩
      cases ms with
      | nil => simpa using hflag rfl
      | cons m ms => simp
  · simp [World.afterLoop, hall, hms]

theorem relay_pcall (config : Config) (bot : Bot) (w : World) (depth : Nat) (mapping : CaseMapping)
    (info : RelayInfo) (how : How) (text : Bytes) :
    ∃ relaymsgs, ((relay config bot depth mapping info how text).pcall w).2 =
      { w.afterLoop bot ((Event.queued mapping info how text).relayed config bot) with
        relaymsgs } := by
  have hloop : (info.group.others info.origin).forM (fun chan =>
      sendRelay bot (sentHandler config bot depth) ⟨chan, how, text⟩) =
      ((Event.queued mapping info how text).relayed config bot).forM
        (sendRelay bot (sentHandler config bot depth)) := List.forM_map.symm
  have hsends := forM_sendRelay bot ((Event.queued mapping info how text).relayed config bot) w
    (passes_sentHandler config bot depth)
  unfold relay
  rw [hloop]
  by_cases hall : ((Event.queued mapping info how text).relayed config bot).all fun m =>
      bot.usable m.chan.net
  · rw [if_pos hall] at hsends
    rw [Eff.pcall_bind_some hsends]
    exact ⟨_, rfl⟩
  · rw [if_neg hall] at hsends
    rw [Eff.pcall_bind_none hsends]
    exact ⟨_, rfl⟩

theorem forM_flatMap {α β σ : Type} {f : α → List β} {k : β → Eff σ PUnit} (as : List α) :
    (as.flatMap f).forM k = as.forM fun a => (f a).forM k := by
  induction as with
  | nil => rfl
  | cons a as ih =>
    have happend : ((a :: as).flatMap f).forM k =
        ((f a).forM k >>= fun _ => (as.flatMap f).forM k) := by
      rw [List.flatMap_cons]
      exact List.forM_append
    rw [happend, ih]
    rfl

theorem sentHandler_pcall {isnotice : Bool} {net name senttext : Bytes} {depth : Nat}
    (hw : w.issendingrelay = false) :
    ((sentHandler config bot (depth + 1) isnotice net name senttext).pcall w).2 =
      w.afterLoop bot ((Event.own isnotice net name senttext).relayed config bot) := by
  unfold sentHandler
  rw [Eff.pcall_bind_some (a := w) (t := w) rfl, if_neg (by simp [hw])]
  cases hn : bot.networks.lookup net with
  | none =>
    simp only [Event.relayed, hn, World.afterLoop, List.all_nil, List.takeWhile_nil,
      List.isEmpty_nil, Bool.true_and, if_true, List.append_nil]
    rfl
  | some n =>
    simp only [Event.relayed, hn]
    rw [← forM_flatMap, forM_sendRelay bot _ w (passes_sentHandler config bot depth)]

/-- The event finds the plugin ready: `sent_handler` does nothing while `issendingrelay` is set, and
a queued function resets it only when it has something to send. -/
def Event.Ready (config : Config) (bot : Bot) (w : World) (e : Event) : Prop :=
  match e with
  | .queued .. => w.issendingrelay = false ∨ e.relayed config bot ≠ []
  | .own .. => w.issendingrelay = false

/-- A message is relayed to every usable channel and leaves `issendingrelay` as it was at first
exactly when all the channels it goes to are usable: the first that is not ends the loop. -/
theorem relay_isolated_iff (config : Config) (bot : Bot) (depth : Nat) (w : World) (e : Event) :
    Isolated config bot e w (handle config bot depth w e) ↔
      (∀ m ∈ e.relayed config bot, bot.usable m.chan.net) ∧ e.Ready config bot w := by
  cases e with
  | queued mapping info how text =>
    obtain ⟨relaymsgs, hrelay⟩ := relay_pcall config bot w depth mapping info how text
    have hiso := afterLoop_isolated bot w ((Event.queued mapping info how text).relayed config bot)
    simp only [Isolated, handle, hrelay]
    rw [hiso]
    refine and_congr_right fun _ => ?_
    simp only [Event.Ready]
    tauto
  | own isnotice net name senttext =>
    cases hw : w.issendingrelay with
    | true =>
      have hpass : handle config bot depth w (.own isnotice net name senttext) = w := by
        have hreturn := passes_sentHandler config bot (depth + 1) isnotice net name senttext w hw
        simp only [handle, Eff.pcall, hreturn]
      simp [Isolated, Event.Ready, hpass, hw]
    | false =>
      simp only [Isolated, handle, sentHandler_pcall hw]
      rw [afterLoop_isolated]
      simp [Event.Ready, hw]

/-- The second network of three is down: the third gets nothing, and when all are up again the
bot's own message is not relayed either. -/
theorem relay_failure_stays :
    let session (state : ClientState) : Session := ⟨state, "TuxBot", .rfc1459, .default⟩
    let bot (state : ClientState) : Bot := ⟨Table.set id (Table.set id (Table.set id ∅ "OFTC"
      ⟨session .connected, .new⟩) "EsperNet" ⟨session state, .new⟩) "Libera"
      ⟨session .connected, .new⟩⟩
    let group : Group := ⟨[⟨"OFTC", "#tux"⟩, ⟨"EsperNet", "#tux"⟩, ⟨"Libera", "#tux"⟩], false, true⟩
    let config : Config := ⟨[group], [[3, 51]], [15], by simp⟩
    let heard := Event.queued .rfc1459 ⟨group, ⟨0, by decide⟩⟩ .privmsg "<Ann> hello"
    let own := Event.own false "OFTC" "#tux" "hello Ann"
    let w := handle config (bot .reconnecting) 1 ⟨false, [], []⟩ heard
    ¬ Isolated config (bot .reconnecting) heard ⟨false, [], []⟩ w ∧ w.sent = [] ∧
      (handle config (bot .connected) 1 w own).sent = [] ∧
      own.relayed config (bot .connected) ≠ [] := by
  intro session bot group config heard own w
  have hflag : w.issendingrelay = true := by decide +kernel
  refine ⟨?_, by decide +kernel, by decide +kernel, by decide +kernel⟩
  rintro ⟨hfalse, -⟩
  rw [hflag] at hfalse
  exact Bool.noConfusion hfalse

end TuxBot.Plugins.Relay
