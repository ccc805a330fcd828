import Mathlib.Data.Rat.Floor
import TuxBot.EventLoop
import TuxBot.Irc.Ctcp
import TuxBot.Irc.Framing
import TuxBot.Irc.Session
import TuxBot.Lua.Effect

/-! The Client: its connection, its timers, what it sends and what it makes of messages. -/
namespace TuxBot.Irc

open TuxBot.Lua TuxBot.Lua.Eff

/-- The times a Client uses: what `netinfo` or else `defaults` says. Without an initial reconnection
interval there is no autoreconnect. -/
structure Timings where
  connTimeout : ℚ
  sslHandshakeTimeout : ℚ
  registeringTimeout : ℚ
  pingInterval : ℚ
  pingTimeout : ℚ
  reconnectionIntervalResetTime : ℚ
  initialReconnectionInterval : Option ℚ
  reconnectionIntervalScale : ℚ
  maxReconnectionInterval : ℚ

def Timings.default : Timings where
  connTimeout := 60
  sslHandshakeTimeout := 30
  registeringTimeout := 120
  pingInterval := 105
  pingTimeout := 15
  reconnectionIntervalResetTime := 5 * 60
  initialReconnectionInterval := some 5
  reconnectionIntervalScale := 6 / 5
  maxReconnectionInterval := 30 * 60

/-- The other settings of `netinfo` and `identinfo`. -/
structure ClientInfo where
  ssl : Bool
  visible : Bool
  receiveWallops : Bool
  autorun : List Bytes
  username : Option Bytes
  realname : Option Bytes
  quitmessage : Option Bytes
  texts : CtcpTexts

inductive ClientEvent where
  | statechanged (state : ClientState) (reason : Option Bytes) (reconnecttime : Option ℚ)
  | nickchanged (new old : Bytes)
  | serveraddress (host : Bytes)
  | ping (lag : ℚ)
  | mode (mode : Bytes)
  | sentmessage (line : Bytes) (time : Option Int)
  | sentprivmsg (target text : Bytes) (time : Int)
  | sentnotice (target text : Bytes) (time : Int)
  | sentctcp (target cmd : Bytes) (arg : Option Bytes) (time : Int)
  | sentctcpreply (target : Option Bytes) (cmd : Bytes) (arg : Option Bytes) (time : Int)
  | receivedmessagePre (msg : Message)
  | receivedmessagePost (msg : Message)
  deriving DecidableEq

/-- What `conn:send` returns: all was accepted, or an error and the number of bytes that were. -/
inductive SendResult where
  | sent
  | error (err : Bytes) (bytessent : Nat)
  deriving DecidableEq

def SendResult.accepted (data : Bytes) : SendResult → Bytes
  | .sent => data
  | .error _ bytessent => data.take bytessent

/-- What a timer of the Client calls. -/
inductive ClientTimer where
  | reconnect (reason : Bytes)
  | connect
  | ping
  deriving DecidableEq

/-- The `connstate` table. -/
structure ConnState where
  mode : Bytes
  ping : Option ℚ
  serveraddress : Option Bytes
  deriving DecidableEq

/-- A Client with its part of the event loop. Sockets are numbered as they are made, and `handler`
tells the functions `_rhandler` and `_whandler` of one `connect` from those of another. `passed` holds
what `_send` was given, `wire` what each `conn:send` accepted, and `events` what was triggered. -/
structure World where
  now : ℚ
  session : Session
  connstate : Option ConnState
  conn : Option Nat
  sockets : Nat
  handler : Nat
  loop : EventLoop Nat Nat ClientTimer
  timer : Option Nat
  recvbuf : Option Bytes
  sendbuf : Option Bytes
  pingtime : Option ℚ
  intentionallyQuit : Bool
  reconnecttime : Option ℚ
  timeLastConnected : Option Int
  handshakes : Nat
  passed : List (Nat × Bytes)
  wire : List (Nat × Bytes)
  events : List ClientEvent

/-- What surrounds a Client: its settings, the callbacks of its events, and what the sockets and
the functions of Lua return. `ssl.wrap` always succeeds. -/
structure Env where
  timings : Timings
  info : ClientInfo
  callback : ClientEvent → World → World
  send : World → Bytes → SendResult
  /-- The error of `conn:dohandshake()`, or none if it succeeds. -/
  dohandshake : World → Option Bytes
  tostring : Option ℚ → Bytes
  date : World → Bytes

namespace World

def new (nick : Bytes) (now : ℚ) : World where
  now := now
  session := ⟨.disconnected, nick, .rfc1459, .default⟩
  connstate := none
  conn := none
  sockets := 0
  handler := 0
  loop := .new
  timer := none
  recvbuf := none
  sendbuf := none
  pingtime := none
  intentionallyQuit := false
  reconnecttime := none
  timeLastConnected := none
  handshakes := 0
  passed := []
  wire := []
  events := []

/-- `os.time()` -/
def time (w : World) : Int := ⌊w.now⌋

def enter (w : World) (state : ClientState) : World := { w with session := w.session.enter state }

def addReadableHandler (w : World) : World :=
  match w.conn with
  | some conn => { w with loop := w.loop.addReadableHandler conn w.handler }
  | none => w

def addWritableHandler (w : World) : World :=
  match w.conn with
  | some conn => { w with loop := w.loop.addWritableHandler conn w.handler }
  | none => w

/-- Note what `_send` was given for the current socket. -/
def pass (w : World) (str : Bytes) : World :=
  match w.conn with
  | some conn => { w with passed := w.passed ++ [(conn, str)] }
  | none => w

/-- `remove_readable_handler` and `remove_writable_handler` for the current socket. -/
def removeHandlers (w : World) : World :=
  match w.conn with
  | some conn =>
    { w with
      loop := (w.loop.removeReadableHandler conn w.handler).removeWritableHandler conn w.handler }
  | none => w

end World

/-- `eventloop:timer(timeout, callback)`, stored in `_timer`. -/
def World.arm (w : World) (timeout : ℚ) (callback : ClientTimer) : World :=
  { w with
    loop := w.loop.timer (w.now + timeout) callback
    timer := some w.loop.timers.length }

namespace Client

variable (env : Env)

/-- `_trigger_event_handlers` -/
def trigger (event : ClientEvent) : Eff World Unit :=
  modify fun w => env.callback event { w with events := w.events ++ [event] }

/-- `self._timer:cancel()` -/
def cancelTimer : Eff World Unit := do
  let w ← get
  match w.timer with
  | some i => modify fun w => { w with loop := w.loop.cancel i }
  | none => throw "attempt to index field '_timer' (a nil value)"

def arm (timeout : ℚ) (callback : ClientTimer) : Eff World Unit :=
  modify fun w => w.arm timeout callback

def enter (state : ClientState) : Eff World Unit := modify fun w => w.enter state

/-- `self._conn:send(data)` -/
def connSend (data : Bytes) : Eff World SendResult := do
  let w ← get
  match w.conn with
  | some conn =>
    let result := env.send w data
    modify fun w => { w with wire := w.wire ++ [(conn, result.accepted data)] }
    return result
  | none => throw "attempt to index field '_conn' (a nil value)"

/-- `self._conn:close(); self._conn = nil` -/
def closeConn : Eff World Unit := do
  let w ← get
  match w.conn with
  | some _ => modify fun w => { w with conn := none }
  | none => throw "attempt to index field '_conn' (a nil value)"

/-- What `_send` and `_on_writable` do about the bytes that were not accepted. -/
def keepUnsent (unsent : Bytes) : Eff World Unit :=
  modify fun w => { w with sendbuf := some unsent }.addWritableHandler

/-- `_send` -/
def send (str : Bytes) : Eff World Unit := do
  modify fun w => w.pass str
  let w ← get
  match w.sendbuf with
  | none => throw "attempt to get length of field '_sendbuf' (a nil value)"
  | some [] =>
    match ← connSend env str with
    | .error err bytessent => if err = lit "timeout" then keepUnsent (str.drop bytessent)
    | .sent => pure ()
  | some buf => keepUnsent (buf ++ str)

def sendmessageline (line : Bytes) : Eff World Unit := do
  let w ← get
  if w.session.state = .connected ∨ w.session.state = .registering then
    trigger env (.sentmessage line (some w.time))
    send env (wireLine line)
  else
    throw "irc.Client.sendmessage can only be caled in the \"connected\" and \"registering\" states"

def sendmessage (cmd : Bytes) (args : List (Option Bytes)) : Eff World Unit :=
  sendmessageline env (messageLine cmd args)

def sendprivmsg (target text : Bytes) : Eff World Unit := do
  sendmessage env "PRIVMSG" [some target, some text]
  let w ← get
  trigger env (.sentprivmsg target text w.time)

def sendnotice (target text : Bytes) : Eff World Unit := do
  sendmessage env "NOTICE" [some target, some text]
  let w ← get
  trigger env (.sentnotice target text w.time)

def sendctcp (target cmd : Bytes) (arg : Option Bytes) : Eff World Unit := do
  sendmessage env "PRIVMSG" [some target, some (ctcpText cmd arg)]
  let w ← get
  trigger env (.sentctcp target cmd arg w.time)

def sendctcpreply (target : Option Bytes) (cmd : Bytes) (arg : Option Bytes) : Eff World Unit := do
  sendmessage env "NOTICE" [target, some (ctcpText cmd arg)]
  let w ← get
  trigger env (.sentctcpreply target cmd arg w.time)

/-- `set_nick`. There are no handlers of an event `nick-changed`. -/
def setNick (nick : Bytes) : Eff World Unit := do
  let w ← get
  if w.session.state = .connected ∨ w.session.state = .registering then
    sendmessage env "NICK" [some nick]
  else if isnick nick then
    modify fun w => { w with session := { w.session with nick } }
    throw "bad argument #1 to 'pairs' (table expected, got nil)"

/-- The interval `_reconnect` chooses. -/
def nextReconnecttime (t : Timings) (w : World) : Option ℚ :=
  let scaled (r : ℚ) :=
    let r := r * t.reconnectionIntervalScale
    if r > t.maxReconnectionInterval then t.maxReconnectionInterval else r
  match w.reconnecttime with
  | none => t.initialReconnectionInterval
  | some r =>
    match w.timeLastConnected with
    | none => some (scaled r)
    | some connected =>
      if ((w.time - connected : Int) : ℚ) > t.reconnectionIntervalResetTime then
        t.initialReconnectionInterval
      else some (scaled r)

/-- `_reconnect` -/
def reconnect (reason : Bytes) : Eff World Unit := do
  cancelTimer
  modify World.removeHandlers
  closeConn
  modify fun w => { w with reconnecttime := nextReconnecttime env.timings w }
  enter .reconnecting
  let w ← get
  trigger env (.statechanged .reconnecting (some reason) w.reconnecttime)
  let w ← get
  match w.reconnecttime with
  | some interval => arm interval .connect
  | none => throw "attempt to perform arithmetic on local 'timeout' (a nil value)"

/-- `if self._timer then self._timer:cancel() end` -/
def cancelTimerIfAny : Eff World Unit := do
  let w ← get
  if w.timer.isSome then cancelTimer

/-- A new socket and new handlers for it. -/
def openConn : Eff World Unit :=
  modify fun w => World.addWritableHandler <| World.addReadableHandler
    { w with conn := some w.sockets, sockets := w.sockets + 1, handler := w.handler + 1 }

def connect : Eff World Unit := do
  let w ← get
  if w.session.state = .disconnected ∨ w.session.state = .reconnecting then
    modify fun w => { w with intentionallyQuit := false }
    cancelTimerIfAny
    openConn
    enter .connecting
    trigger env (.statechanged .connecting none none)
    arm env.timings.connTimeout (.reconnect "connectingtimeout")
  else
    throw "assertion failed!"

/-- The argument of `disconnect`: nothing, `false`, or any other value. -/
inductive QuitArg where
  | absent
  | no
  | value
  deriving DecidableEq

/-- The QUIT line. A message that is given is replaced by the one of `identinfo`. -/
def quitLine (arg : QuitArg) : Bytes :=
  let msg := match arg with
    | .value => env.info.quitmessage
    | _ => none
  match msg with
  | some msg => lit "QUIT :" ++ msg
  | none => lit "QUIT"

/-- The QUIT of a connected Client goes to the socket, past the send buffer. -/
def sendQuit (arg : QuitArg) : Eff World Unit := do
  let w ← get
  if w.session.state = .connected then
    trigger env (.sentmessage (quitLine env arg) none)
    let _ ← connSend env (lit "\r\n" ++ quitLine env arg ++ lit "\r\n")

/-- `disconnect`. In the state `reconnecting` it leaves the state as it is. -/
def disconnect (arg : QuitArg) : Eff World Unit := do
  let w ← get
  if w.session.state = .disconnected then pure ()
  else if w.session.state = .reconnecting then
    cancelTimer
    modify fun w => { w with reconnecttime := none }
  else
    sendQuit env arg
    cancelTimer
    modify World.removeHandlers
    closeConn
    enter .disconnected
    trigger env (.statechanged .disconnected none none)

/-- `_on_ssl_handshake_done` -/
def onSslHandshakeDone : Eff World Unit := do
  cancelTimer
  modify fun w => { w with
    recvbuf := some []
    sendbuf := some []
    connstate := some ⟨"+", none, none⟩ }
  enter .registering
  trigger env (.statechanged .registering none none)
  let modemask := (if env.info.receiveWallops then 4 else 0) + (if env.info.visible then 0 else 8)
  sendmessage env "USER"
    [env.info.username, some (lit (toString modemask)), some "*", env.info.realname]
  let w ← get
  sendmessage env "NICK" [some w.session.nick]
  arm env.timings.registeringTimeout (.reconnect "registeringtimeout")

/-- `_do_ssl_handshake` -/
def doSslHandshake : Eff World Unit := do
  let w ← get
  match w.conn with
  | none => throw "attempt to index field '_conn' (a nil value)"
  | some _ =>
    modify fun w => { w with handshakes := w.handshakes + 1 }
    match env.dohandshake w with
    | none => onSslHandshakeDone env
    | some err =>
      if err = lit "wantread" then pure ()
      else if err = lit "wantwrite" then modify World.addWritableHandler
      else if err = lit "closed" then reconnect env "closed"
      else reconnect env (lit "sslerror " ++ err)

/-- The socket is wrapped by SSL: a new socket with the handlers of the old one. `ssl.wrap` is taken to
return one; where it fails, `_conn` is nil and the callback raises at the next line. -/
def wrapConn : Eff World Unit :=
  modify fun w => World.addWritableHandler <| World.addReadableHandler
    { w.removeHandlers with conn := some w.sockets, sockets := w.sockets + 1 }

/-- `_on_socket_connected` -/
def onSocketConnected : Eff World Unit := do
  cancelTimer
  if env.info.ssl then
    wrapConn
    enter .sslhandshake
    trigger env (.statechanged .sslhandshake none none)
    arm env.timings.sslHandshakeTimeout (.reconnect "sslhandshaketimeout")
    doSslHandshake env
  else
    onSslHandshakeDone env

def ping : Eff World Unit := do
  cancelTimer
  modify fun w => { w with pingtime := some w.now }
  let w ← get
  sendmessage env "PING" [some (env.tostring w.pingtime)]
  arm env.timings.pingTimeout (.reconnect "pingtimeout")

/-- `self.connstate` is updated in place. -/
def updateConnstate (f : ConnState → ConnState) : Eff World Unit := do
  let w ← get
  match w.connstate with
  | some c => modify fun w => { w with connstate := some (f c) }
  | none => throw "attempt to index field 'connstate' (a nil value)"

/-- `nickchanged` and the new nick. -/
def changeNick (nick : Bytes) : Eff World Unit := do
  let w ← get
  trigger env (.nickchanged nick w.session.nick)
  modify fun w => { w with session := { w.session with nick } }

/-- The nick that the server says we have. -/
def adoptNick (nick : Bytes) : Eff World Unit := do
  let w ← get
  if nick = w.session.nick then pure () else changeNick env nick

def noteServeraddress (host : Option Bytes) : Eff World Unit := do
  match host with
  | some host =>
    updateConnstate fun c => { c with serveraddress := some host }
    trigger env (.serveraddress host)
  | none => pure ()

/-- 001, RPL_WELCOME, while registering. -/
def onWelcome (msg : Message) (nick : Bytes) : Eff World Unit := do
  cancelTimer
  modify fun w => { w with timeLastConnected := some w.time }
  adoptNick env nick
  env.info.autorun.forM (sendmessageline env)
  enter .connected
  trigger env (.statechanged .connected none none)
  noteServeraddress env msg.sender.host
  ping env

/-- 005, RPL_ISUPPORT. -/
def onIsupport (msg : Message) : Eff World Unit :=
  modify fun w => { w with session := w.session.onIsupport msg.args }

/-- A PONG counts if it answers the last PING of a connected Client. -/
def onPong (time : Bytes) : Eff World Unit := do
  let w ← get
  if env.tostring w.pingtime = time ∧ w.session.state = .connected then
    match w.pingtime with
    | none => throw "attempt to perform arithmetic on field '_pingtime' (a nil value)"
    | some pingtime =>
      updateConnstate fun c => { c with ping := some (w.now - pingtime) }
      trigger env (.ping (w.now - pingtime))
      cancelTimer
      arm env.timings.pingInterval .ping
  else pure ()

/-- A MODE of our own nick. -/
def onMode (change : Bytes) : Eff World Unit := do
  updateConnstate fun c => { c with mode := applymode c.mode change }
  let w ← get
  match w.connstate with
  | some c => trigger env (.mode c.mode)
  | none => throw "attempt to index field 'connstate' (a nil value)"

/-- `:CTCP`, which comes with a command. -/
def onCtcp (msg : Message) : Eff World Unit := do
  let w ← get
  match msg.args with
  | _ :: command :: args =>
    match ctcpReply env.info.texts (env.date w) command args.head? with
    | some (cmd, arg) => sendctcpreply env msg.sender.nick cmd arg
    | none => pure ()
  | _ => throw "attempt to concatenate field '?' (a nil value)"

/-- What a Client makes of a message, between `receivedmessage_pre` and `receivedmessage_post`. -/
def onMessage (msg : Message) : Eff World Unit := do
  let w ← get
  let s := w.session
  if msg.cmd = lit "001" then
    match msg.args with
    | nick :: _ => if s.state = .registering then onWelcome env msg nick else pure ()
    | [] => pure ()
  else if msg.cmd = lit "005" then
    if 2 ≤ msg.args.length then onIsupport msg else pure ()
  else if msg.cmd = lit "PONG" then
    match msg.args with
    | _ :: time :: _ => onPong env time
    | _ => pure ()
  else if msg.cmd = lit "MODE" then
    match msg.args with
    | [nick, change] => if s.mapping.nameeq nick s.nick then onMode env change else pure ()
    | _ => pure ()
  else if msg.cmd = lit "PING" then
    if s.state = .connected ∨ s.state = .registering then
      sendmessage env "PONG" (msg.args.head?.toList.map some)
    else pure ()
  else if msg.cmd = lit "NICK" then
    match msg.sender.nick, msg.args with
    | some old, new :: _ => if s.mapping.nameeq old s.nick then changeNick env new else pure ()
    | _, _ => pure ()
  else if msg.cmd = lit "QUIT" then
    match msg.sender.nick with
    | some nick =>
      if s.mapping.nameeq nick s.nick then modify fun w => { w with intentionallyQuit := true }
      else pure ()
    | none => pure ()
  else if msg.cmd = lit ":CTCP" then onCtcp env msg
  else pure ()

/-- The body of the line loop for a line that is a message. -/
def handleMessage (msg : Message) : Eff World Unit := do
  trigger env (.receivedmessagePre msg)
  onMessage env msg
  trigger env (.receivedmessagePost msg)

/-- A line, without its low-level quoting; what is not a message is ignored. -/
def handleLine (line : Bytes) : Eff World Unit := do
  let w ← get
  match messageLineToTable w.session.nick w.time (lowlevelDequote line) with
  | some msg => handleMessage env msg
  | none => pure ()

/-- The line loop. Every pass takes bytes from `_recvbuf`, so its length is passes enough. -/
def readLines : Nat → Eff World Unit
  | 0 => pure ()
  | n + 1 => do
    let w ← get
    match w.recvbuf.bind nextLine with
    | none => pure ()
    | some (line, rest) =>
      modify fun w => { w with recvbuf := some rest }
      handleLine env line
      readLines n

/-- The server closed the socket. After our own QUIT the timer stays. -/
def onClosed : Eff World Unit := do
  let w ← get
  if w.intentionallyQuit then
    enter .disconnected
    trigger env (.statechanged .disconnected none none)
    modify World.removeHandlers
  else
    reconnect env "closed"

/-- The error that `_on_readable` sees: with data and without an error it takes `closed` for one. -/
def receivedError : Received → Bytes
  | .block _ => lit "closed"
  | .short err _ => err

/-- `_on_readable` once there is a connection; `received` is what `conn:receive(8192)` returns. -/
def onReceived (received : Received) : Eff World Unit := do
  let w ← get
  match w.conn, w.recvbuf with
  | some _, some buf =>
    let buf := buf ++ received.bytes
    modify fun w => { w with recvbuf := some buf }
    readLines env buf.length
    if receivedError received = lit "closed" then onClosed env
  | none, _ => throw "attempt to index field '_conn' (a nil value)"
  | _, none => throw "attempt to concatenate field '_recvbuf' (a nil value)"

/-- What a ready socket means: it is connected, the handshake can go on, or the connection is up. -/
def onReady (up : Eff World Unit) : Eff World Unit := do
  let w ← get
  match w.session.state with
  | .connecting => onSocketConnected env
  | .sslhandshake => doSslHandshake env
  | _ => up

/-- `_on_readable`; its result tells the event loop to keep the handler. -/
def onReadable (received : Received) : Eff World Bool := do
  onReady env (onReceived env received)
  return true

/-- Send what is buffered. An error other than `timeout` drops it. -/
def flush : Eff World Unit := do
  let w ← get
  match w.sendbuf with
  | none => throw "attempt to get length of field '_sendbuf' (a nil value)"
  | some [] => pure ()
  | some buf =>
    match ← connSend env buf with
    | .error err bytessent =>
      if err = lit "timeout" then keepUnsent (buf.drop bytessent)
      else modify fun w => { w with sendbuf := some [] }
    | .sent => modify fun w => { w with sendbuf := some [] }

/-- `_on_writable`; its result tells the event loop to drop the handler. -/
def onWritable : Eff World Bool := do
  onReady env (flush env)
  return false

end Client

end TuxBot.Irc
