import TuxBot.EventLoop
import TuxBot.Irc.Session
import TuxBot.Machine

/-! The AutoJoiner: joins the wanted channels on every connection and retries after refusals. -/
namespace TuxBot.Irc

open TuxBot.Lua

/-- The settings `initial_rejoin_interval` (nil for no autorejoin), `rejoin_interval_scale` and
`max_rejoin_interval`. -/
structure RejoinOptions where
  initialRejoinInterval : Option ℚ
  rejoinIntervalScale : ℚ
  maxRejoinInterval : ℚ

def RejoinOptions.default : RejoinOptions := ⟨some 3, 3 / 2, 30 * 60⟩

/-- An entry of `rejoining_channels`: the fields `_interval` and `_timer`. -/
structure RejoinInfo where
  interval : Option ℚ
  timer : Option Nat
  deriving DecidableEq

/-- An AutoJoiner with its Client's session and the timers of the event loop, whose callbacks are
`timer_cb` of a channel. `listening` tells whether `_on_message` is a callback of the Client. -/
structure AutoJoiner where
  session : Session
  now : ℚ
  timers : Timers Bytes
  rejoiningChannels : Table RejoinInfo
  onChannels : Table Unit
  listening : Bool
  sent : List (Bytes × List Bytes)
  deriving DecidableEq

/-- The message comes from the Client's own nick. -/
def Session.own (s : Session) (sender : Sender) : Bool :=
  match sender.nick with
  | some nick => s.mapping.nameeq nick s.nick
  | none => false

instance decidableReply (cmd : Bytes) (replies : List Bytes) : Decidable (cmd ∈ replies) :=
  List.instDecidableMemOfLawfulBEq cmd replies

def retryReplies : List Bytes := ["471", "474", "437"]
def refusalReplies : List Bytes := ["403", "475", "473", "476"]

namespace AutoJoiner

def new (s : Session) (autojoin : List Bytes) : AutoJoiner where
  session := s
  now := 0
  timers := []
  rejoiningChannels := autojoin.foldl (fun t i => t.set s.mapping.lower i ⟨none, none⟩) ∅
  onChannels := ∅
  listening := false
  sent := []

def rejoining (j : AutoJoiner) (channel : Bytes) : Option RejoinInfo :=
  j.rejoiningChannels.get j.session.mapping.lower channel

def setRejoining (j : AutoJoiner) (channel : Bytes) (info : RejoinInfo) : AutoJoiner :=
  { j with rejoiningChannels := j.rejoiningChannels.set j.session.mapping.lower channel info }

def removeRejoining (j : AutoJoiner) (channel : Bytes) : AutoJoiner :=
  { j with rejoiningChannels := j.rejoiningChannels.remove j.session.mapping.lower channel }

def setOn (j : AutoJoiner) (channel : Bytes) : AutoJoiner :=
  { j with onChannels := j.onChannels.set j.session.mapping.lower channel () }

def removeOn (j : AutoJoiner) (channel : Bytes) : AutoJoiner :=
  { j with onChannels := j.onChannels.remove j.session.mapping.lower channel }

/-- `sendmessage('JOIN', channel)` raises in the other states; it is always the last thing done. -/
def join (j : AutoJoiner) (channel : Bytes) : AutoJoiner :=
  if j.session.state = .connected ∨ j.session.state = .registering then
    { j with sent := j.sent ++ [(lit "JOIN", [channel])] }
  else j

/-- Cancel the timer of the entry of `channel`, if there is one. -/
def cancelTimer (j : AutoJoiner) (channel : Bytes) : AutoJoiner :=
  match (j.rejoining channel).bind RejoinInfo.timer with
  | some i => { j with timers := j.timers.cancel i }
  | none => j

/-- Arm a timer that calls `timer_cb(name)` and store it with the interval under `channel`. Without an
interval `EventLoop:timer` raises and nothing is stored. -/
def arm (j : AutoJoiner) (channel name : Bytes) (interval : Option ℚ) : AutoJoiner :=
  match interval with
  | some delay =>
    { j with timers := j.timers.timer (j.now + delay) name }.setRejoining channel
      ⟨interval, some j.timers.length⟩
  | none => j

def onJoin (j : AutoJoiner) (channel : Bytes) : AutoJoiner :=
  if ((j.setOn channel).rejoining channel).isSome then
    ((j.setOn channel).cancelTimer channel).removeRejoining channel
  else j.setOn channel

def onPart (j : AutoJoiner) (channel : Bytes) : AutoJoiner :=
  ((j.removeOn channel).cancelTimer channel).removeRejoining channel

def onKick (o : RejoinOptions) (j : AutoJoiner) (channel : Bytes) : AutoJoiner :=
  ((j.removeOn channel).cancelTimer channel).arm channel channel o.initialRejoinInterval

/-- The interval after one of `interval`. -/
def nextInterval (o : RejoinOptions) : Option ℚ → Option ℚ
  | some interval =>
    let interval := interval * o.rejoinIntervalScale
    some (if interval > o.maxRejoinInterval then o.maxRejoinInterval else interval)
  | none => o.initialRejoinInterval

/-- 471, 474 and 437 for a channel of `rejoining_channels`. The entry is looked up and stored under
the first argument, and the timer is for the second. -/
def onRetry (o : RejoinOptions) (j : AutoJoiner) (first second : Bytes) : AutoJoiner :=
  let interval := nextInterval o ((j.rejoining first).bind RejoinInfo.interval)
  ((j.removeOn first).cancelTimer first).arm first second interval

/-- 403, 475, 473 and 476 for a channel of `rejoining_channels`: the entry of the first argument. -/
def onRefusal (j : AutoJoiner) (first : Bytes) : AutoJoiner :=
  (j.cancelTimer first).removeRejoining first

/-- `_on_message`. A JOIN or PART without a channel raises before it changes anything. -/
def onMessage (o : RejoinOptions) (j : AutoJoiner) (msg : Message) : AutoJoiner :=
  if msg.cmd = lit "JOIN" ∧ j.session.own msg.sender then
    match msg.args with
    | channel :: _ => j.onJoin channel
    | [] => j
  else if msg.cmd = lit "PART" ∧ j.session.own msg.sender then
    match msg.args with
    | channel :: _ => j.onPart channel
    | [] => j
  else
    match msg.args with
    | first :: second :: _ =>
      if msg.cmd = lit "KICK" ∧ j.session.mapping.nameeq second j.session.nick then
        j.onKick o first
      else if msg.cmd ∈ retryReplies ∧ (j.rejoining second).isSome then j.onRetry o first second
      else if msg.cmd ∈ refusalReplies ∧ (j.rejoining second).isSome then j.onRefusal first
      else j
    | _ => j

/-- `_on_statechanged` -/
def onStatechanged (j : AutoJoiner) (state : ClientState) : AutoJoiner :=
  if state = .connected then { j.rejoiningChannels.keys.foldl join j with listening := true }
  else if state = .disconnected ∨ state = .reconnecting then
    { j.onChannels.keys.foldl (fun j k => j.setRejoining k ⟨none, none⟩) j with listening := false }
  else j

/-- `timer_cb` -/
def timerCb (j : AutoJoiner) (channel : Bytes) : AutoJoiner :=
  if (j.rejoining channel).isSome then j.join channel else j

def addchannel (j : AutoJoiner) (chan : Bytes) : AutoJoiner :=
  (j.setRejoining chan ⟨none, none⟩).join chan

/-- The AutoJoiner sees a message before the Client does. -/
def hear (o : RejoinOptions) (j : AutoJoiner) (msg : Message) : AutoJoiner :=
  { (if j.listening then j.onMessage o msg else j) with session := j.session.receive msg }

end AutoJoiner

/-- What can happen: a message, a change of state or of nick while not connected, a call of
`addchannel`, the passing of time and the expiry of a timer. -/
inductive JoinerInput where
  | message (msg : Message)
  | state (state : ClientState)
  | setNick (nick : Bytes)
  | addchannel (chan : Bytes)
  | wait (seconds : ℚ)
  | fire (i : Nat)

/-- A welcome message also changes the state. -/
def AutoJoiner.step (o : RejoinOptions) (j : AutoJoiner) : JoinerInput → Option AutoJoiner
  | .message msg =>
    let heard := j.hear o msg
    some <| if heard.session.state = j.session.state then heard
      else heard.onStatechanged heard.session.state
  | .state state => some ({ j with session := j.session.enter state }.onStatechanged state)
  | .setNick nick => some { j with session := { j.session with nick } }
  | .addchannel chan => some (j.addchannel chan)
  | .wait seconds => if 0 ≤ seconds then some { j with now := j.now + seconds } else none
  | .fire i =>
    (j.timers.due j.now i).map fun channel =>
      let called := j.timerCb channel
      { called with timers := called.timers.expire i }

end TuxBot.Irc
