import TuxBot.EventLoop
import TuxBot.Machine
import Mathlib.Tactic.Linarith

/-! The send queues of bot.lua, run by calls, returns and timers in any order. -/
namespace TuxBot.Bot

/-- The settings `queue` reads. -/
structure Config where
  defaultMinQueueInterval : ℚ
  maxQueueSize : Nat
  deriving DecidableEq

/-- An accepted call; the queued functions are told apart by a number. -/
structure Item where
  interval : ℚ
  func : Nat
  deriving DecidableEq

structure Queue where
  items : List Item
  nextItemTime : ℚ
  deriving DecidableEq

/-- A queued function that was started, and when. -/
structure Start where
  client : Nat
  item : Item
  time : ℚ
  deriving DecidableEq

/-- The time before which no other function of the queue may start. -/
def Start.free (s : Start) : ℚ := s.time + s.item.interval

/-- `running` holds the functions that have not returned, the innermost first; `accepted` and
`starts` record the run. -/
structure State where
  config : Config
  now : ℚ
  clients : List (Option Queue)
  timers : Timers Nat
  running : List Start
  accepted : List (Nat × Item)
  starts : List Start
  deriving DecidableEq

namespace State

def init (config : Config) (now : ℚ) : State := ⟨config, now, [], [], [], [], []⟩

/-- `clients[client].queue`; nothing for a client that was removed. -/
def queueOf (b : State) (client : Nat) : Option Queue := b.clients[client]?.join

def setQueue (b : State) (client : Nat) (q : Queue) : State :=
  { b with clients := b.clients.set client (some q) }

/-- `run_next_queued` up to the call of the function. -/
def runNextQueued (b : State) (client : Nat) : State :=
  match b.queueOf client with
  | none => b
  | some q =>
    if b.now < q.nextItemTime then b
    else match q.items with
      | [] => b
      | item :: items =>
        { b.setQueue client { q with items } with
          running := ⟨client, item, b.now⟩ :: b.running
          starts := b.starts ++ [⟨client, item, b.now⟩] }

/-- The rest of `run_next_queued` once the function has returned or raised. `lag` is the time
between the two readings of the clock. -/
def finish (b : State) (lag : ℚ) : Option State :=
  match b.running with
  | [] => none
  | s :: running =>
    match b.queueOf s.client with
    | none => some { b with running }
    | some q =>
      some { b.setQueue s.client { q with nextItemTime := b.now + s.item.interval } with
        running
        now := b.now + lag
        timers := b.timers.timer (b.now + lag + s.item.interval) s.client }

/-- The call is put into the queue: `#clients[client].queue < config.max_queue_size`. -/
def Accepts (b : State) (client : Nat) : Prop :=
  ∃ q, b.queueOf client = some q ∧ q.items.length < b.config.maxQueueSize

/-- `queue`. For a removed client it raises before it has done anything. -/
def queue (b : State) (client : Nat) (interval : Option ℚ) (func : Nat) : State :=
  match b.queueOf client with
  | none => b
  | some q =>
    if q.items.length < b.config.maxQueueSize then
      let item := ⟨interval.getD b.config.defaultMinQueueInterval, func⟩
      runNextQueued
        { b.setQueue client { q with items := q.items ++ [item] } with
          accepted := b.accepted ++ [(client, item)] } client
    else b

end State

/-- What can happen next. A call of `queue` comes from a handler when nothing is running and from
the innermost running function otherwise. -/
inductive Action where
  | wait (d : ℚ)
  | queue (client : Nat) (interval : Option ℚ) (func : Nat)
  | finish (lag : ℚ)
  | fire (i : Nat)
  | add
  | remove (client : Nat)
  | reload (config : Config)

def step (b : State) : Action → Option State
  | .wait d => if 0 ≤ d then some { b with now := b.now + d } else none
  | .queue client interval func => some (b.queue client interval func)
  | .finish lag => if 0 ≤ lag then b.finish lag else none
  | .fire i =>
    if b.running.isEmpty then
      (b.timers.due b.now i).map fun client =>
        { b with timers := b.timers.expire i }.runNextQueued client
    else none
  | .add => some { b with clients := b.clients ++ [some ⟨[], b.now⟩] }
  | .remove client => some { b with clients := b.clients.set client none }
  | .reload config => some { b with config }

/-- No function of the client's queue started while an earlier one kept it busy. -/
def Paced (client : Nat) (starts : List Start) : Prop :=
  (starts.filter (·.client = client)).Pairwise fun s s' => s.free ≤ s'.time

/-- The queue is not called for a client from inside a function of the same client's queue. -/
def Waits (client : Nat) (b : State) : Action → Prop
  | .queue c _ _ => c = client → b.Accepts c → ∀ s ∈ b.running, s.client ≠ client
  | _ => True

end TuxBot.Bot
