import TuxBot.Irc.Session
import TuxBot.Machine

/-! The ChannelTracker: channels, members and the weak index of their prefix records. -/
namespace TuxBot.Irc

open TuxBot.Lua TuxBot.Lua.Pattern

/-- A prefix record; it is shared by reference, as its position in `Tracker.records`. -/
structure Prefix where
  nick : Bytes
  user : Option Bytes
  host : Option Bytes
  str : Option Bytes
  deriving DecidableEq

/-- `'^..-(!.*)'` -/
def strPattern : List (Item UInt8) :=
  [.one anyByte, .lazy anyByte, .start, .one (oneOf "!"), .star anyByte, .stop]

/-- The record after a change of nick. -/
def Prefix.rename (p : Prefix) (nick : Bytes) : Prefix :=
  { p with
    nick
    str := p.str.map fun str =>
      match capture (matchHere strPattern str) with
      | some other => nick ++ other
      | none => str }

/-- An entry of a members table; `record` is its `prefix`. -/
structure Member where
  record : Nat
  mode : Bytes
  deriving DecidableEq

structure Chan where
  name : Bytes
  topic : Option Bytes
  mode : Option Bytes
  modeparams : List (UInt8 × Bytes)
  members : Table Member
  deriving DecidableEq

/-- The events a tracker triggers and the messages it sends. -/
inductive TrackerEvent where
  | receivedmessage (msg : Message)
  | joinedchannel (chan : Bytes)
  | leftchannel (chan how : Bytes)
  | memberadded (chan nick how : Bytes)
  | memberleft (chan nick how : Bytes)
  | membernick (chan old new : Bytes)
  | membermode (chan nick mode : Bytes)
  | channeltopic (chan topic : Bytes) (changed : Bool)
  | channelmode (chan mode : Bytes) (changed : Bool)
  | sent (cmd chan : Bytes)
  deriving DecidableEq

structure Tracker where
  memberprefixes : Table Nat
  records : List Prefix
  chanstates : Table Chan
  unknownprefixes : Option (Table Unit)
  log : List TrackerEvent
  deriving DecidableEq

/-- The settings `send_names_on_join`, `send_mode_on_join` and `send_topic_on_join`. -/
structure TrackerOptions where
  sendNamesOnJoin : Bool
  sendModeOnJoin : Bool
  sendTopicOnJoin : Bool

def TrackerOptions.default : TrackerOptions := ⟨false, true, false⟩

namespace Tracker

def new : Tracker := ⟨∅, [], ∅, none, []⟩

def trigger (t : Tracker) (event : TrackerEvent) : Tracker := { t with log := t.log ++ [event] }

/-- `sendmessage` raises in the other states, and nothing follows it that could be lost. -/
def sendmessage (t : Tracker) (s : Session) (cmd chan : Bytes) : Tracker :=
  if s.state = .connected ∨ s.state = .registering then t.trigger (.sent cmd chan) else t

/-- A query sent on joining a channel, if the setting asks for it. -/
def announce (t : Tracker) (s : Session) (setting : Bool) (cmd chan : Bytes) : Tracker :=
  if setting then t.sendmessage s cmd chan else t

def chan (t : Tracker) (s : Session) (name : Bytes) : Option Chan :=
  t.chanstates.get s.mapping.lower name

def setChan (t : Tracker) (s : Session) (name : Bytes) (chan : Chan) : Tracker :=
  { t with chanstates := t.chanstates.set s.mapping.lower name chan }

/-- `self._memberprefixes[nick]`, made from `p` when there is none. -/
def indexed (t : Tracker) (s : Session) (nick : Bytes) (p : Prefix) : Nat × Tracker :=
  match t.memberprefixes.get s.mapping.lower nick with
  | some record => (record, t)
  | none => (t.records.length, { t with
      records := t.records ++ [p]
      memberprefixes := t.memberprefixes.set s.mapping.lower nick t.records.length })

/-- The start of `_msghandler`: a known sender gets the address it now writes from. -/
def refresh (t : Tracker) (s : Session) (sender : Sender) : Tracker :=
  match sender.nick, sender.host with
  | some nick, some host =>
    match t.memberprefixes.get s.mapping.lower nick with
    | some record =>
      let known (p : Prefix) : Prefix :=
        if s.mapping.nameeq nick p.nick ∧ p.host ≠ some host then
          { p with host := some host, user := sender.user }
        else p
      { t with records := t.records.modify record known }
    | none => t
  | _, _ => t

/-- Our own JOIN. -/
def joinOwn (o : TrackerOptions) (t : Tracker) (s : Session) (name : Bytes) (p : Prefix) :
    Tracker :=
  let (record, t) := t.indexed s s.nick p
  let t := t.setChan s name
    ⟨name, none, none, [], Table.set s.mapping.lower ∅ s.nick ⟨record, "+"⟩⟩
  let t := t.trigger (.joinedchannel name)
  let t := t.announce s o.sendNamesOnJoin "NAMES" name
  let t := t.announce s o.sendModeOnJoin "MODE" name
  t.announce s o.sendTopicOnJoin "TOPIC" name

/-- The JOIN of another user. The member gets the sender of the message itself, which is the indexed
record only if there was none. -/
def joinOther (t : Tracker) (s : Session) (name : Bytes) (p : Prefix) : Tracker :=
  match t.chan s name with
  | none => t
  | some chan =>
    let memberprefixes :=
      if (t.memberprefixes.get s.mapping.lower p.nick).isNone then
        t.memberprefixes.set s.mapping.lower p.nick t.records.length
      else t.memberprefixes
    let t' := { t with memberprefixes, records := t.records ++ [p] }
    let members := chan.members.set s.mapping.lower p.nick ⟨t.records.length, "+"⟩
    (t'.setChan s name { chan with members }).trigger (.memberadded name p.nick "JOIN")

def onJoin (o : TrackerOptions) (t : Tracker) (s : Session) (msg : Message) : Tracker :=
  match msg.args, msg.sender.nick with
  | name :: _, some nick =>
    let p := ⟨nick, msg.sender.user, msg.sender.host, msg.sender.str⟩
    if ischanname name then
      if s.mapping.nameeq s.nick nick then t.joinOwn o s name p else t.joinOther s name p
    else t
  | _, _ => t

/-- PART and KICK of `nick`: our own ends the channel, another's removes a member. -/
def leave (t : Tracker) (s : Session) (name nick how : Bytes) : Tracker :=
  match t.chan s name with
  | none => t
  | some chan =>
    if s.mapping.nameeq s.nick nick then
      ({ t with chanstates := t.chanstates.remove s.mapping.lower name }.trigger
        (.memberleft name nick (lit "*" ++ how))).trigger (.leftchannel name how)
    else
      (t.setChan s name { chan with members := chan.members.remove s.mapping.lower nick }).trigger
        (.memberleft name nick how)

def onPart (t : Tracker) (s : Session) (msg : Message) : Tracker :=
  match msg.args, msg.sender.nick with
  | name :: _, some nick => t.leave s name nick "PART"
  | _, _ => t

def onKick (t : Tracker) (s : Session) (msg : Message) : Tracker :=
  match msg.args with
  | name :: nick :: _ => t.leave s name nick "KICK"
  | _ => t

/-- The names under which a loop over `pairs(self.chanstates)` finds `nick` as a member. -/
def channelsOf (t : Tracker) (s : Session) (nick : Bytes) : List Bytes :=
  t.chanstates.entries.filterMap fun e =>
    if (e.2.members.get s.mapping.lower nick).isSome then some e.1 else none

def onQuit (t : Tracker) (s : Session) (msg : Message) : Tracker :=
  match msg.sender.nick with
  | some nick =>
    if s.mapping.nameeq s.nick nick then t
    else { t with
      chanstates := t.chanstates.mapVals fun _ chan =>
        { chan with members := chan.members.remove s.mapping.lower nick }
      log := t.log ++ (t.channelsOf s nick).map fun name => .memberleft name nick "QUIT" }
  | none => t

/-- `t[new], t[old] = t[old], nil`: Lua assigns from right to left, so that a new key that folds to
the old one stays. -/
def moveKey {V : Type} (fold : Bytes → Bytes) (t : Table V) (old new : Bytes) : Table V :=
  match t.get fold old with
  | some v => (t.remove fold old).set fold new v
  | none => t

def onNick (t : Tracker) (s : Session) (msg : Message) : Tracker :=
  match msg.args, msg.sender.nick with
  | new :: _, some old =>
    match t.memberprefixes.get s.mapping.lower old with
    | none => t
    | some record => { t with
        memberprefixes := moveKey s.mapping.lower t.memberprefixes old new
        records := t.records.modify record fun p => p.rename new
        chanstates := t.chanstates.mapVals fun _ chan =>
          { chan with members := moveKey s.mapping.lower chan.members old new }
        log := t.log ++ (t.channelsOf s old).map fun name => .membernick name old new }
  | _, _ => t

/-- `name`, `topic` and `changed` as the TOPIC message and the 332 reply give them. -/
def setTopic (t : Tracker) (s : Session) (name topic : Bytes) (changed : Bool) : Tracker :=
  match t.chan s name with
  | none => t
  | some chan =>
    (t.setChan s name { chan with topic := some topic }).trigger (.channeltopic name topic changed)

def onTopic (t : Tracker) (s : Session) (msg : Message) : Tracker :=
  match msg.args with
  | name :: topic :: _ => t.setTopic s name topic true
  | _ => t

/-- RPL_TOPIC -/
def on332 (t : Tracker) (s : Session) (msg : Message) : Tracker :=
  match msg.args with
  | _ :: name :: topic :: _ => t.setTopic s name topic false
  | _ => t

/-- RPL_CHANNELMODEIS -/
def on324 (t : Tracker) (s : Session) (msg : Message) : Tracker :=
  match msg.args with
  | _ :: name :: mode :: _ =>
    match t.chan s name with
    | none => t
    | some chan =>
      (t.setChan s name { chan with mode := some mode }).trigger (.channelmode name mode false)
  | _ => t

/-- The variables of the loop over the arguments of a MODE message. -/
structure ModeScan where
  chan : Chan
  argnum : Nat
  positive : Bool
  events : List TrackerEvent

/-- The body of the loop for a letter that is not a sign. -/
def ModeScan.letter (s : Session) (args : List Bytes) (name : Bytes) (m : ModeScan)
    (char : UInt8) : ModeScan :=
  let i := s.isupport
  let sign : Bytes := if m.positive then "+" else "-"
  let ismembermode := (i.prefixesformode.lookup char).isSome || i.chanmodesA.contains char
  if ismembermode then
    let argnum := m.argnum + 1
    match args[argnum - 1]? with
    | none => { m with argnum }
    | some arg =>
      match m.chan.members.get s.mapping.lower arg with
      | none => { m with argnum }
      | some member =>
        let mode := applymode member.mode (sign ++ [char])
        { m with
          argnum
          chan := { m.chan with
            members := m.chan.members.set s.mapping.lower arg { member with mode } }
          events := m.events ++ [.membermode name arg mode] }
  else
    let isC := !i.chanmodesB.contains char && i.chanmodesC.contains char
    let hasparam := i.chanmodesB.contains char || (isC && m.positive)
    let argnum := if hasparam then m.argnum + 1 else m.argnum
    let mode := applymode (m.chan.mode.getD "+") (sign ++ [char])
    let others := m.chan.modeparams.filter fun e => e.1 ≠ char
    let modeparams :=
      if isC then
        match if m.positive then args[argnum - 1]? else none with
        | some arg => (char, arg) :: others
        | none => others
      else m.chan.modeparams
    { m with
      argnum
      chan := { m.chan with mode := some mode, modeparams }
      events := m.events ++ [.channelmode m.chan.name mode true] }

def ModeScan.char (s : Session) (args : List Bytes) (name : Bytes) (m : ModeScan) (char : UInt8) :
    ModeScan :=
  if char = 43 then { m with positive := true }
  else if char = 45 then { m with positive := false }
  else if isAlnum char then m.letter s args name char
  else m

/-- The `while` loop; every round moves `argnum` on, so `args.length` rounds are all. -/
def ModeScan.scan (s : Session) (args : List Bytes) (name : Bytes) : Nat → ModeScan → ModeScan
  | 0, m => m
  | n + 1, m =>
    match args[m.argnum - 1]? with
    | none => m
    | some arg =>
      let m := arg.foldl (ModeScan.char s args name) { m with positive := true }
      ModeScan.scan s args name n { m with argnum := m.argnum + 1 }

def onMode (t : Tracker) (s : Session) (msg : Message) : Tracker :=
  match msg.args with
  | name :: _ :: _ =>
    match t.chan s name with
    | none => t
    | some chan =>
      let m := ModeScan.scan s msg.args name msg.args.length ⟨chan, 2, true, []⟩
      { t.setChan s name m.chan with log := t.log ++ m.events }
  | _ => t

/-- A name of a NAMES reply without its prefix, and the mode that prefix stands for. -/
def splitName (i : Isupport) (member : Bytes) : Bytes × Bytes :=
  match member with
  | b :: nick =>
    match if nick = [] then none else i.modesforprefix.lookup b with
    | some mode => (nick, [43, mode])
    | none => (member, "+")
  | [] => (member, "+")

/-- The loop of the NAMES reply. Before the first `connected` there is no `_unknownprefixes`, and
the loop raises once it has added a member. -/
def addNames (s : Session) (name : Bytes) : List Bytes → Tracker → Tracker
  | [], t => t
  | member :: names, t =>
    let (nick, mode) := splitName s.isupport member
    match t.chan s name with
    | none => t
    | some chan =>
      match chan.members.get s.mapping.lower nick with
      | some m =>
        addNames s name names <| t.setChan s name
          { chan with members := chan.members.set s.mapping.lower nick { m with mode } }
      | none =>
        if isnick nick then
          let (record, t) := t.indexed s nick ⟨nick, none, none, none⟩
          let members := chan.members.set s.mapping.lower nick ⟨record, mode⟩
          let t := (t.setChan s name { chan with members }).trigger (.memberadded name nick "NAMES")
          match t.unknownprefixes with
          | none => t
          | some known =>
            addNames s name names
              { t with unknownprefixes := some (known.set s.mapping.lower nick ()) }
        else addNames s name names t

/-- RPL_NAMREPLY -/
def on353 (t : Tracker) (s : Session) (msg : Message) : Tracker :=
  match msg.args with
  | _ :: _ :: name :: names :: _ => addNames s name (words names) t
  | _ => t

/-- `ChannelTracker._msghandlers[msg.cmd]` -/
def dispatch (o : TrackerOptions) (t : Tracker) (s : Session) (msg : Message) : Tracker :=
  if msg.cmd = lit "JOIN" then t.onJoin o s msg
  else if msg.cmd = lit "PART" then t.onPart s msg
  else if msg.cmd = lit "KICK" then t.onKick s msg
  else if msg.cmd = lit "QUIT" then t.onQuit s msg
  else if msg.cmd = lit "NICK" then t.onNick s msg
  else if msg.cmd = lit "TOPIC" then t.onTopic s msg
  else if msg.cmd = lit "MODE" then t.onMode s msg
  else if msg.cmd = lit "353" then t.on353 s msg
  else if msg.cmd = lit "324" then t.on324 s msg
  else if msg.cmd = lit "332" then t.on332 s msg
  else t

/-- `_msghandler` -/
def msghandler (o : TrackerOptions) (t : Tracker) (s : Session) (msg : Message) : Tracker :=
  dispatch o ((t.refresh s msg.sender).trigger (.receivedmessage msg)) s msg

/-- `_statehandler` -/
def statehandler (t : Tracker) (state : ClientState) : Tracker :=
  if state = .connected then { t with unknownprefixes := some ∅, chanstates := ∅ } else t

/-- A member of a tracked channel refers to the record. -/
def referenced (t : Tracker) (record : Nat) : Bool :=
  t.chanstates.entries.any fun e => e.2.members.entries.any fun m => m.2.record = record

/-- The collector takes entries of the weak `_memberprefixes`: any whose record no member has. -/
def collect (t : Tracker) (keys : List Bytes) : Tracker :=
  { t with memberprefixes := keys.foldl (fun ps key =>
      match ps.lookup key with
      | some record => if t.referenced record then ps else ps.erase key
      | none => ps) t.memberprefixes }

/-! ### What the operations leave alone -/

variable {o : TrackerOptions} {t : Tracker} {s : Session} {msg : Message} {sender : Sender}
  {name nick cmd : Bytes} {p : Prefix} {setting : Bool}

/-- Reading the sender's address changes records only. -/
theorem chanstates_refresh : (t.refresh s sender).chanstates = t.chanstates := by
  unfold refresh
  repeat' split
  all_goals rfl

theorem memberprefixes_refresh : (t.refresh s sender).memberprefixes = t.memberprefixes := by
  unfold refresh
  repeat' split
  all_goals rfl

theorem length_refresh : (t.refresh s sender).records.length = t.records.length := by
  unfold refresh
  repeat' split
  all_goals first | exact List.length_modify .. | rfl

theorem chanstates_indexed : (t.indexed s nick p).2.chanstates = t.chanstates := by
  unfold indexed
  split <;> rfl

/-- A query changes the log only. -/
theorem announce_tables : (t.announce s setting cmd name).chanstates = t.chanstates ∧
    (t.announce s setting cmd name).records = t.records ∧
    (t.announce s setting cmd name).memberprefixes = t.memberprefixes := by
  unfold announce sendmessage
  repeat' split
  all_goals exact ⟨rfl, rfl, rfl⟩

theorem chanstates_joinOwn : (t.joinOwn o s name p).chanstates =
    t.chanstates.set s.mapping.lower name ⟨name, none, none, [],
      Table.set s.mapping.lower ∅ s.nick ⟨(t.indexed s s.nick p).1, "+"⟩⟩ := by
  simp only [joinOwn, announce_tables, trigger, setChan, chanstates_indexed]

theorem joinOwn_tables : (t.joinOwn o s name p).records = (t.indexed s s.nick p).2.records ∧
    (t.joinOwn o s name p).memberprefixes = (t.indexed s s.nick p).2.memberprefixes := by
  simp only [joinOwn, announce_tables, trigger, setChan, and_self]

theorem chanstates_joinOther {chan : Chan} (h : t.chan s name = some chan) :
    (t.joinOther s name p).chanstates = t.chanstates.set s.mapping.lower name
      { chan with members := chan.members.set s.mapping.lower p.nick ⟨t.records.length, "+"⟩ } := by
  simp only [joinOther, h, trigger, setChan]

theorem records_joinOther {chan : Chan} (h : t.chan s name = some chan) :
    (t.joinOther s name p).records = t.records ++ [p] := by
  simp only [joinOther, h, trigger, setChan]

theorem dispatch_join (h : msg.cmd = lit "JOIN") : dispatch o t s msg = t.onJoin o s msg := by
  rw [dispatch, if_pos h]

theorem dispatch_part (h : msg.cmd = lit "PART") : dispatch o t s msg = t.onPart s msg := by
  rw [dispatch, h, if_neg (by decide), if_pos rfl]

theorem dispatch_kick (h : msg.cmd = lit "KICK") : dispatch o t s msg = t.onKick s msg := by
  rw [dispatch, h, if_neg (by decide), if_neg (by decide), if_pos rfl]

theorem dispatch_quit (h : msg.cmd = lit "QUIT") : dispatch o t s msg = t.onQuit s msg := by
  rw [dispatch, h, if_neg (by decide), if_neg (by decide), if_neg (by decide), if_pos rfl]

theorem dispatch_nick (h : msg.cmd = lit "NICK") : dispatch o t s msg = t.onNick s msg := by
  rw [dispatch, h, if_neg (by decide), if_neg (by decide), if_neg (by decide), if_neg (by decide),
    if_pos rfl]

theorem dispatch_mode (h : msg.cmd = lit "MODE") : dispatch o t s msg = t.onMode s msg := by
  rw [dispatch, h, if_neg (by decide), if_neg (by decide), if_neg (by decide), if_neg (by decide),
    if_neg (by decide), if_neg (by decide), if_pos rfl]

theorem dispatch_324 (h : msg.cmd = lit "324") : dispatch o t s msg = t.on324 s msg := by
  rw [dispatch, h, if_neg (by decide), if_neg (by decide), if_neg (by decide), if_neg (by decide),
    if_neg (by decide), if_neg (by decide), if_neg (by decide), if_neg (by decide), if_pos rfl]

/-- A message changes a tracker in one of these ways, or not at all. -/
theorem dispatch_cases {P : Tracker → Prop} (hsame : P t)
    (hjoin : msg.cmd = lit "JOIN" → P (t.onJoin o s msg))
    (hleave : msg.cmd = lit "PART" ∨ msg.cmd = lit "KICK" →
      ∀ name nick how, P (t.leave s name nick how))
    (hquit : msg.cmd = lit "QUIT" → P (t.onQuit s msg))
    (hnick : msg.cmd = lit "NICK" → P (t.onNick s msg))
    (htopic : ∀ name topic changed, P (t.setTopic s name topic changed))
    (hmode : P (t.onMode s msg)) (hnames : ∀ name names, P (addNames s name names t))
    (h324 : P (t.on324 s msg)) : P (dispatch o t s msg) := by
  unfold dispatch
  refine iteInduction hjoin fun _ => iteInduction (fun hpart => ?_) fun _ =>
    iteInduction (fun hkick => ?_) fun _ => iteInduction hquit fun _ => iteInduction hnick fun _ =>
    iteInduction (fun _ => ?_) fun _ => iteInduction (fun _ => hmode) fun _ =>
    iteInduction (fun _ => ?_) fun _ => iteInduction (fun _ => h324) fun _ =>
    iteInduction (fun _ => ?_) fun _ => hsame
  · unfold onPart
    split
    · exact hleave (.inl hpart) _ _ _
    · exact hsame
  · unfold onKick
    split
    · exact hleave (.inr hkick) _ _ _
    · exact hsame
  · unfold onTopic
    split
    · exact htopic _ _ _
    · exact hsame
  · unfold on353
    split
    · exact hnames _ _
    · exact hsame
  · unfold on332
    split
    · exact htopic _ _ _
    · exact hsame

end Tracker

/-- A Client's session and its tracker. -/
structure Tracking where
  session : Session
  tracker : Tracker
  deriving DecidableEq

/-- What can happen: a message, a change of state or of nick while not connected, a collection. -/
inductive TrackingInput where
  | message (msg : Message)
  | state (state : ClientState)
  | setNick (nick : Bytes)
  | collect (keys : List Bytes)

/-- The tracker sees a message before the Client does. -/
def Tracking.step (o : TrackerOptions) (k : Tracking) : TrackingInput → Option Tracking
  | .message msg =>
    let session := k.session.receive msg
    let tracker := k.tracker.msghandler o k.session msg
    some ⟨session,
      if session.state = k.session.state then tracker else tracker.statehandler session.state⟩
  | .state state => some ⟨k.session.enter state, k.tracker.statehandler state⟩
  | .setNick nick => some ⟨{ k.session with nick }, k.tracker⟩
  | .collect keys => some ⟨k.session, k.tracker.collect keys⟩

end TuxBot.Irc
