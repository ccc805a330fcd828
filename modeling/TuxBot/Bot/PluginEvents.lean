import Mathlib.Algebra.Order.Ring.Rat
import TuxBot.Irc.Session
import TuxBot.Lua.Effect

/-! How bot.lua forwards the events of a Client and its ChannelTracker to the plugins. -/
namespace TuxBot.Bot.PluginEvents

open TuxBot.Lua TuxBot.Irc

/-- The values that events carry. Tables that are no messages are told apart by numbers. -/
inductive Value where
  | nil
  | boolean (b : Bool)
  | number (n : ℚ)
  | str (s : Bytes)
  | table (id : Nat)
  | message (msg : Message)
  deriving DecidableEq

/-- How a call of a function ends. -/
inductive Outcome where
  | returned
  | raised (err : Value)
  deriving DecidableEq

/-- A value of `event_handlers`. Functions are told apart by numbers. -/
inductive Handler where
  | func (f : Nat)
  | list (fs : List Nat)
  deriving DecidableEq

/-- A value of `commands`. -/
inductive Command where
  | func (f : Nat)
  | table (f : Nat) (mininterval : Option ℚ)
  deriving DecidableEq

structure Plugin where
  eventHandlers : Table Handler
  commands : Table Command

/-- The settings of the network that the callbacks read: patterns and prefixes in the order in which
loops go through them. -/
structure Net where
  ignore : Option (List Bytes)
  channels : Table (Option (List Bytes))
  commandPrefixes : Option (List Bytes)

/-- A call of a plugin's function. -/
abbrev Call := Nat × List Value

/-- The functions given to `queue`. -/
inductive Queued where
  | command (f : Nat) (msg : Message) (arg : Bytes)
  | noCommand (msg : Message) (cmdname : Bytes)
  deriving DecidableEq

/-- What bot.lua rests on: `string.match`, which raises, finds nothing or returns its first capture, and
what the plugins' functions do, given the calls before. -/
structure Env where
  strmatch : Bytes → Bytes → Option (Option Value)
  behave : Nat → List Value → List Call → Outcome

/-- The bot and one of its Clients. `plugins` is in the order of `pairs`, `known` says that `clients`
still has the Client, `queued` and `sent` are the calls of `queue` and of the Client. -/
structure World where
  plugins : List Plugin
  commandPrefixes : List Bytes
  maxQueueSize : Nat
  net : Net
  known : Bool
  queueLength : Nat
  session : Session
  nickattempt : Option Bytes
  nickattemptstate : Option Bool
  calls : List Call
  queued : List (Queued × Option ℚ)
  sent : List (Bytes × List Bytes)

/-! ### The dispatch -/

/-- `pcall(handler, ...)`: the error, if there is one. A table is no function. -/
def call (env : Env) (args : List Value) : Handler → Eff World (Option Value)
  | .func f => do
    let s ← get
    set { s with calls := s.calls ++ [(f, args)] }
    match env.behave f args s.calls with
    | .returned => pure none
    | .raised err => pure (some err)
  | .list _ => pure (some (.str "attempt to call a table value"))

/-- `%s` takes strings and numbers. -/
def Value.formats : Value → Bool
  | str _ | number _ => true
  | _ => false

/-- `print(('***** error in "%s" plugin: %s'):format(k, err))` -/
def printError (err : Value) : Eff World Unit :=
  if err.formats then pure ⟨⟩ else throw "bad argument #2 to 'format' (string expected)"

/-- `local success, err = pcall(handler, ...)`, and the report. -/
def callReported (env : Env) (args : List Value) (handler : Handler) : Eff World Unit := do
  match ← call env args handler with
  | none => pure ⟨⟩
  | some err => printError err

/-- One turn of `send_event_to_plugins`. -/
def sendEventToPlugin (env : Env) (event : Bytes) (args : List Value) (v : Plugin) :
    Eff World Unit :=
  match v.eventHandlers.lookup event with
  | some (.func f) => callReported env args (.func f)
  | some (.list fs) => fs.forM fun _ => callReported env args (.list fs)
  | none => pure ⟨⟩

def sendEventToPlugins (env : Env) (event : Bytes) (args : List Value) : Eff World Unit := do
  let s ← get
  s.plugins.forM (sendEventToPlugin env event args)

/-! ### The callbacks of `add_client` -/

/-- `clients[client]` is indexed. -/
def indexClient : Eff World Unit := do
  let s ← get
  if s.known then pure ⟨⟩ else throw "attempt to index a nil value"

/-- Whether a pattern of the list matches, unless one raises before. -/
def ignoredBy (env : Env) (str : Option Bytes) : List Bytes → Option Bool
  | [] => some false
  | i :: is =>
    match str with
    | none => ignoredBy env none is
    | some str =>
      match env.strmatch str i with
      | none => none
      | some (some _) => some true
      | some none => ignoredBy env (some str) is

/-- What `isignored(msg)` returns, unless it raises. -/
def World.ignores (s : World) (env : Env) (msg : Message) : Option Bool :=
  match s.net.ignore with
  | some patterns => ignoredBy env msg.sender.str patterns
  | none => some false

def isignored (env : Env) (msg : Message) : Eff World Bool := do
  let s ← get
  match s.ignores env msg with
  | some ignored => pure ignored
  | none => throw "malformed pattern"

/-- What follows the first of the prefixes that matches; nothing when a pattern raises or captures a
position, which has no length. -/
def afterPrefix (env : Env) (text : Bytes) : List Bytes → Option (Option Bytes)
  | [] => some none
  | p :: ps =>
    match env.strmatch text (lit "^" ++ p) with
    | none => none
    | some none => afterPrefix env text ps
    | some (some (.str found)) => some (some (text.drop found.length))
    | some (some _) => none

/-- `chanconfig and chanconfig.command_prefixes or (net._command_prefixes or config.command_prefixes)` -/
def World.prefixes (s : World) (chan : Bytes) : List Bytes :=
  ((s.net.channels.lookup chan).join.or s.net.commandPrefixes).getD s.commandPrefixes

/-- `line:match('^([^ ]+)')` -/
def commandName (line : Bytes) : Bytes := line.takeWhile fun b => b ≠ 32

/-- The first plugin's command of the name. -/
def World.command (s : World) (cmdname : Bytes) : Option Command :=
  s.plugins.findSome? fun v => v.commands.lookup cmdname

def queue (func : Queued) (interval : Option ℚ) : Eff World Unit := do
  indexClient
  modify fun s => { s with queued := s.queued ++ [(func, interval)] }

def processPrefixedCommand (msg : Message) (line : Bytes) : Eff World Unit := do
  let s ← get
  let cmdname := commandName line
  if cmdname = [] then pure ⟨⟩
  else match s.command (lower cmdname) with
    | some (.func _) => throw "attempt to index field '?' (a function value)"
    | some (.table f mininterval) =>
      queue (.command f msg (line.drop cmdname.length)) mininterval
    | none => do
      indexClient
      if s.queueLength < s.maxQueueSize then queue (.noCommand msg (lower cmdname)) none

/-- The loop over the prefixes, where the message may hold a command. -/
def processCommands (env : Env) (msg : Message) (ignored : Bool) : Eff World Unit := do
  let s ← get
  if msg.cmd = lit "PRIVMSG" ∧ ignored = false then
    match msg.args with
    | chan :: text :: _ =>
      match afterPrefix env text (s.prefixes chan) with
      | some (some line) => processPrefixedCommand msg line
      | some none => pure ⟨⟩
      | none => throw "malformed pattern, or no string to take the length of"
    | _ => pure ⟨⟩
  else pure ⟨⟩

/-- Another nick. -/
def nextNick : Eff World Unit := do
  let s ← get
  let nickattempt := s.nickattempt.getD s.session.nick
  let (nickattempt, nickattemptstate) :=
    if s.nickattemptstate = some false then
      if nickattempt.getLast? = some 95 then (nickattempt.dropLast, s.nickattemptstate)
      else (s.session.nick ++ lit "_", some true)
    else (nickattempt ++ lit "_", s.nickattemptstate)
  set { s with
    nickattempt := some nickattempt
    nickattemptstate
    sent := s.sent ++ [(lit "NICK", [nickattempt])] }

/-- The nick is in use. -/
def nickInUse (msg : Message) : Eff World Unit := do
  let s ← get
  if s.session.state = .registering ∧ msg.cmd = lit "433" then nextNick else pure ⟨⟩

/-- The events that are passed on as they are. -/
inductive Relayed where
  | sentprivmsg | sentnotice | sentctcp | sentctcpreply | connstatechanged
  | trackerJoinedchannel | trackerLeftchannel | trackerMemberadded | trackerMemberleft
  | trackerMembernick | trackerMembermode | trackerChanneltopic | trackerChannelmode
  deriving DecidableEq

def Relayed.name : Relayed → Bytes
  | sentprivmsg => "sentprivmsg"
  | sentnotice => "sentnotice"
  | sentctcp => "sentctcp"
  | sentctcpreply => "sentctcpreply"
  | connstatechanged => "connstatechanged"
  | trackerJoinedchannel => "tracker_joinedchannel"
  | trackerLeftchannel => "tracker_leftchannel"
  | trackerMemberadded => "tracker_memberadded"
  | trackerMemberleft => "tracker_memberleft"
  | trackerMembernick => "tracker_membernick"
  | trackerMembermode => "tracker_membermode"
  | trackerChanneltopic => "tracker_channeltopic"
  | trackerChannelmode => "tracker_channelmode"

/-- An event of the Client or its tracker, which comes first among the arguments. -/
inductive Event where
  | trackerReceivedmessage (tracker : Value) (msg : Message)
  | receivedmessagePre (client : Value) (msg : Message)
  | receivedmessagePost (client : Value) (msg : Message)
  | sentmessage (client : Value) (line : Bytes) (time : Option ℚ)
  | statechanged (client : Value) (state : Bytes) (more : List Value)
  | relayed (event : Relayed) (args : List Value)

/-- The callback that `add_client` gave for the event. What it prints is left out. -/
def callback (env : Env) : Event → Eff World Unit
  | .trackerReceivedmessage tracker msg => do
    nickInUse msg
    indexClient
    let ignored ← isignored env msg
    sendEventToPlugins env "tracker_receivedmessage" [tracker, .message msg, .boolean ignored]
  | .receivedmessagePre client msg => do
    let ignored ← isignored env msg
    sendEventToPlugins env "receivedmessage_pre" [client, .message msg, .boolean ignored]
  | .receivedmessagePost client msg => do
    let ignored ← isignored env msg
    processCommands env msg ignored
    sendEventToPlugins env "receivedmessage_post" [client, .message msg, .boolean ignored]
  | .sentmessage client _ _ => do
    -- `msg` is no variable of this callback
    sendEventToPlugins env "sentmessage" [client, .nil]
    indexClient
  | .statechanged client state more => do
    sendEventToPlugins env "statechanged" (client :: .str state :: more)
    modify fun s => { s with nickattempt := none, nickattemptstate := none }
    indexClient
  | .relayed event args => sendEventToPlugins env event.name args

/-- `_trigger_event_handlers` reports what a callback raises and goes on. -/
def trigger (env : Env) (s : World) (event : Event) : World := ((callback env event).pcall s).2

/-! ### What plugins are promised -/

/-- The key under which plugins register. -/
def Event.key : Event → Bytes
  | trackerReceivedmessage .. => "tracker_receivedmessage"
  | receivedmessagePre .. => "receivedmessage_pre"
  | receivedmessagePost .. => "receivedmessage_post"
  | sentmessage .. => "sentmessage"
  | statechanged .. => "statechanged"
  | relayed event _ => event.name

/-- The arguments of the event, with the extra one that says whether the sender is ignored. -/
def Event.args (env : Env) (s : World) : Event → List Value
  | trackerReceivedmessage self msg | receivedmessagePre self msg | receivedmessagePost self msg =>
    [self, .message msg, .boolean ((s.ignores env msg).getD false)]
  | sentmessage client line time => client :: .str line :: (time.map Value.number).toList
  | statechanged client state more => client :: .str state :: more
  | relayed _ args => args

def Handler.functions : Handler → List Nat
  | func f => [f]
  | list fs => fs

/-- The functions that plugins registered under the key, as often as they did. -/
def registered (plugins : List Plugin) (key : Bytes) : List Nat :=
  plugins.flatMap fun v => ((v.eventHandlers.lookup key).map Handler.functions).getD []

/-- Every registered function is called once, with the arguments of the event. -/
def Dispatched (env : Env) (s : World) (event : Event) : Prop :=
  ∃ calls, (trigger env s event).calls = s.calls ++ calls ∧
    calls.Perm ((registered s.plugins event.key).map fun f => (f, event.args env s))

/-- The command that a message may hold can be taken: the prefixes do not raise, the Client is known, and
what the name stands for is a table. -/
def CommandTaken (env : Env) (s : World) (msg : Message) : Prop :=
  msg.cmd = lit "PRIVMSG" → s.ignores env msg = some false →
  match msg.args with
  | chan :: text :: _ =>
    match afterPrefix env text (s.prefixes chan) with
    | some (some line) => commandName line = [] ∨
        s.known = true ∧ ∀ f, s.command (lower (commandName line)) ≠ some (.func f)
    | some none => True
    | none => False
  | _ => True

/-- The callback comes to forward the event, as it was given. -/
def Forwarded (env : Env) (s : World) : Event → Prop
  | .trackerReceivedmessage _ msg => s.known = true ∧ (s.ignores env msg).isSome
  | .receivedmessagePre _ msg => (s.ignores env msg).isSome
  | .receivedmessagePost _ msg => (s.ignores env msg).isSome ∧ CommandTaken env s msg
  | .sentmessage .. => False
  | .statechanged .. | .relayed .. => True

/-- Of the functions that are called one after another, only the last may raise what `%s` does not
take. -/
def Reportable (env : Env) (args : List Value) : List Call → List Nat → Prop
  | _, [] => True
  | calls, f :: fs =>
    (fs = [] ∨ ∀ err, env.behave f args calls = .raised err → err.formats = true) ∧
      Reportable env args (calls ++ [(f, args)]) fs

/-- Nothing is registered, or the event is forwarded to functions that are not in lists and that raise
nothing but strings and numbers. -/
def Safe (env : Env) (s : World) (event : Event) : Prop :=
  registered s.plugins event.key = [] ∨ Forwarded env s event ∧
    (∀ v ∈ s.plugins, ∀ fs, v.eventHandlers.lookup event.key = some (.list fs) → fs = []) ∧
    Reportable env (event.args env s) s.calls (registered s.plugins event.key)

end TuxBot.Bot.PluginEvents
