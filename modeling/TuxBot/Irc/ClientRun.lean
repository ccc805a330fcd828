import TuxBot.Irc.Client
import TuxBot.Machine

/-! Runs of a Client: steps of the event loop, and calls from elsewhere at any point of them. -/
namespace TuxBot.Irc

open TuxBot.Lua TuxBot.Lua.Eff

/-- What callbacks may do: send while the Client can, trigger events and set the nick. They do not
call `connect`, `disconnect` or `ping`. -/
inductive Sends (env : Env) : World → World → Prop where
  | refl (w : World) : Sends env w w
  | send {w u : World} (str : Bytes) : Sends env w u →
    u.session.state = .connected ∨ u.session.state = .registering →
    Sends env w ((Client.send env str).pcall u).2
  | note {w u : World} (events : List ClientEvent) (nick : Bytes) : Sends env w u →
    Sends env w { u with events, session := { u.session with nick } }

/-- The callbacks do no more than that. -/
def Env.Harmless (env : Env) : Prop := ∀ event w, Sends env w (env.callback event w)

/-- Surroundings in which nothing is called back and the socket accepts everything. -/
def Env.silent : Env where
  timings := .default
  info := {
    ssl := false
    visible := false
    receiveWallops := false
    autorun := []
    username := some "tux"
    realname := some "tux"
    quitmessage := none
    texts := ⟨none, none, none⟩ }
  callback _ w := w
  send _ _ := .sent
  dohandshake _ := none
  tostring _ := lit "0"
  date _ := []

theorem harmless_silent : Env.silent.Harmless := fun _ w => .refl w

/-- A Client, and the handlers that the current step of the event loop has still to call: those that
were registered when it began and whose socket was selected. -/
structure ClientLoop where
  world : World
  readables : List (Registration Nat Nat)
  writables : List (Registration Nat Nat)

/-- What can happen: the loop selects sockets, calls a readable handler, whose `receive` returns
`received`, or a writable one, or runs a timer; time passes; the Client is used from elsewhere. -/
inductive ClientInput where
  | select (readable writable : List Nat)
  | readable (key : Nat) (received : Received)
  | writable (key : Nat)
  | fire (i : Nat)
  | wait (seconds : ℚ)
  | connect
  | disconnect (arg : Client.QuitArg)
  | setNick (nick : Bytes)
  | sendmessageline (line : Bytes)
  | send (str : Bytes)

def Client.onTimer (env : Env) : ClientTimer → Eff World Unit
  | .reconnect reason => Client.reconnect env reason
  | .connect => Client.connect env
  | .ping => Client.ping env

namespace ClientLoop

def new (nick : Bytes) (now : ℚ) : ClientLoop := ⟨.new nick now, [], []⟩

/-- A call whose error, if it raises, goes to the caller. -/
def call (s : ClientLoop) (m : Eff World Unit) : ClientLoop := { s with world := (m.pcall s.world).2 }

/-- `_send` is only called in the states in which messages can be sent. -/
def step (env : Env) (s : ClientLoop) : ClientInput → Option ClientLoop
  | .select readable writable => some { s with
      readables := s.world.loop.readableHandlers.filter fun r => r.sock ∈ readable
      writables := s.world.loop.writableHandlers.filter fun r => r.sock ∈ writable }
  | .readable key received =>
    if ∃ r ∈ s.readables, r.key = key then
      let called := (Client.onReadable env received).pcall s.world
      some { s with
        world := { called.2 with loop := called.2.loop.afterReadable key called.1 }
        readables := s.readables.filter fun r => r.key ≠ key }
    else none
  | .writable key =>
    if ∃ r ∈ s.writables, r.key = key then
      let called := (Client.onWritable env).pcall s.world
      some { s with
        world := { called.2 with loop := called.2.loop.afterWritable key called.1 }
        writables := s.writables.filter fun r => r.key ≠ key }
    else none
  | .fire i =>
    (s.world.loop.timers.due s.world.now i).map fun timer =>
      let fired := (Client.onTimer env timer).pcall s.world
      let loop := { fired.2.loop with timers := fired.2.loop.timers.expire i }
      { s with world := { fired.2 with loop } }
  | .wait seconds =>
    if 0 ≤ seconds then some { s with world := { s.world with now := s.world.now + seconds } }
    else none
  | .connect => some (s.call (Client.connect env))
  | .disconnect arg => some (s.call (Client.disconnect env arg))
  | .setNick nick => some (s.call (Client.setNick env nick))
  | .sendmessageline line => some (s.call (Client.sendmessageline env line))
  | .send str =>
    if s.world.session.state = .connected ∨ s.world.session.state = .registering then
      some (s.call (Client.send env str))
    else none

end ClientLoop

end TuxBot.Irc
