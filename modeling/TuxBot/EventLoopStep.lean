import TuxBot.EventLoop
import TuxBot.Machine

/-! `EventLoop:step` call by call, with whatever its callbacks do to its tables. -/
namespace TuxBot

/-- The two tables of handlers. -/
inductive Side where
  | readable
  | writable
  deriving DecidableEq

variable {ρ κ τ : Type}

namespace EventLoop

variable [DecidableEq ρ] [DecidableEq κ]

def handlers (e : EventLoop ρ κ τ) : Side → List (Registration ρ κ)
  | .readable => e.readableHandlers
  | .writable => e.writableHandlers

def add (e : EventLoop ρ κ τ) : Side → ρ → κ → EventLoop ρ κ τ
  | .readable => e.addReadableHandler
  | .writable => e.addWritableHandler

def remove (e : EventLoop ρ κ τ) : Side → ρ → κ → EventLoop ρ κ τ
  | .readable => e.removeReadableHandler
  | .writable => e.removeWritableHandler

def after (e : EventLoop ρ κ τ) : Side → Nat → Option Bool → EventLoop ρ κ τ
  | .readable => e.afterReadable
  | .writable => e.afterWritable

end EventLoop

/-- The calls that a step has still to make for one socket that was selected. -/
structure Round (ρ κ : Type) where
  side : Side
  left : List (Registration ρ κ)
  deriving DecidableEq

/-- Where `step` is. -/
inductive Phase (ρ κ : Type) where
  | outside
  | sockets (rounds : List (Round ρ κ))
  /-- The traversal of `_timers`: the entries it has visited, and how many timers there were when it
  began. Of the entries made since, it may visit some. -/
  | timers (visited : List Nat) (known : Nat)
  deriving DecidableEq

/-- A callback. -/
inductive Callee (ρ κ : Type) where
  | handler (side : Side) (r : Registration ρ κ)
  | timer (i : Nat)
  deriving DecidableEq

/-- The event loop and the callback it waits for. `calls` records the calls and the clock at each. -/
structure Loop (ρ κ τ : Type) where
  now : ℚ
  tables : EventLoop ρ κ τ
  phase : Phase ρ κ
  running : Option (Callee ρ κ)
  calls : List (Callee ρ κ × ℚ)

/-- `ended` is the end of the running callback, with its result or none when it raised. What changes
the tables comes from the running callback or from outside of `step`. -/
inductive LoopInput (ρ κ τ : Type) where
  | clock (now : ℚ)
  | select (readable writable : List ρ)
  | call (r : Registration ρ κ)
  | visit (i : Nat)
  | ended (result : Option Bool)
  | next
  | add (side : Side) (sock : ρ) (callback : κ)
  | remove (side : Side) (sock : ρ) (callback : κ)
  | timer (timeout : ℚ) (callback : τ)
  | cancel (i : Nat)
  deriving DecidableEq

namespace Loop

variable [DecidableEq ρ] [DecidableEq κ]

def new (now : ℚ) : Loop ρ κ τ := ⟨now, .new, .outside, none, []⟩

/-- The rounds of the sockets in the result of `select`, on the snapshot of a table. -/
def rounds (e : EventLoop ρ κ τ) (side : Side) (socks : List ρ) : List (Round ρ κ) :=
  socks.map fun sock => ⟨side, (e.handlers side).filter fun r => r.sock = sock⟩

/-- The snapshots are taken once `select` has returned. -/
def select (l : Loop ρ κ τ) (readable writable : List ρ) : Loop ρ κ τ :=
  { l with phase := .sockets (rounds l.tables .readable readable ++
      rounds l.tables .writable writable) }

def invoke (l : Loop ρ κ τ) (callee : Callee ρ κ) : Loop ρ κ τ :=
  { l with running := some callee, calls := l.calls ++ [(callee, l.now)] }

/-- `self._timers[k] = nil` -/
def dropTimer (l : Loop ρ κ τ) (i : Nat) : Loop ρ κ τ :=
  { l with tables := { l.tables with timers := l.tables.timers.expire i } }

/-- The next entry of the traversal: it is called, or dropped if it was cancelled, once it is due. -/
def visit (l : Loop ρ κ τ) (i : Nat) (t : Timer τ) : Loop ρ κ τ :=
  if t.time ≤ l.now then
    if t.running then l.invoke (.timer i) else l.dropTimer i
  else l

/-- What `step` does once a callback has ended. -/
def ended (l : Loop ρ κ τ) (result : Option Bool) : Callee ρ κ → Loop ρ κ τ
  | .handler side r => { l with tables := l.tables.after side r.key result, running := none }
  | .timer i => { l.dropTimer i with running := none }

/-- The tables are in the hands of a callback or of the program around the loop. -/
def Open (l : Loop ρ κ τ) : Prop := l.running.isSome ∨ l.phase = .outside

instance (l : Loop ρ κ τ) : Decidable l.Open := inferInstanceAs (Decidable (_ ∨ _))

/-- Every timer that was there when the traversal began was visited, unless it has left. -/
def Traversed (l : Loop ρ κ τ) (visited : List Nat) (known : Nat) : Prop :=
  ∀ i < known, i ∉ visited → ∀ t ∈ l.tables.timers[i]?, t.pending = false

instance (l : Loop ρ κ τ) (visited : List Nat) (known : Nat) :
    Decidable (l.Traversed visited known) :=
  inferInstanceAs (Decidable (∀ i < known, i ∉ visited → ∀ t ∈ l.tables.timers[i]?, _))

def step (l : Loop ρ κ τ) : LoopInput ρ κ τ → Option (Loop ρ κ τ)
  | .clock now => some { l with now }
  | .select readable writable =>
    if l.running = none ∧ l.phase = .outside then some (l.select readable writable) else none
  | .call r =>
    match l.running, l.phase with
    | none, .sockets (round :: rounds) =>
      if r ∈ round.left then
        some { l.invoke (.handler round.side r) with
          phase := .sockets ({ round with left := round.left.erase r } :: rounds) }
      else none
    | _, _ => none
  | .visit i =>
    match l.running, l.phase, l.tables.timers[i]? with
    | none, .timers visited known, some t =>
      if t.pending ∧ i ∉ visited then
        some { l.visit i t with phase := .timers (i :: visited) known }
      else none
    | _, _, _ => none
  | .ended result => l.running.map (l.ended result)
  | .next =>
    match l.running, l.phase with
    | none, .sockets [] => some { l with phase := .timers [] l.tables.timers.length }
    | none, .sockets (round :: rounds) =>
      if round.left = [] then some { l with phase := .sockets rounds } else none
    | none, .timers visited known =>
      if l.Traversed visited known then some { l with phase := .outside } else none
    | _, _ => none
  | .add side sock callback =>
    if l.Open then some { l with tables := l.tables.add side sock callback } else none
  | .remove side sock callback =>
    if l.Open then some { l with tables := l.tables.remove side sock callback } else none
  | .timer timeout callback =>
    if l.Open then some { l with tables := l.tables.timer (l.now + timeout) callback } else none
  | .cancel i =>
    if l.Open ∧ i < l.tables.timers.length then some { l with tables := l.tables.cancel i }
    else none

end Loop

end TuxBot
