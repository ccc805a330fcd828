import Mathlib.Algebra.Order.Ring.Rat
import TuxBot.Lua.Bytes

/-! The tables of eventloop.lua, socket handlers under fresh keys and timers, and what the calls of
a socket return. -/
namespace TuxBot

open TuxBot.Lua

/-- `conn:receive(n)`: the `n` bytes asked for, or nil, an error and the bytes there are. -/
inductive Received where
  | block (data : Bytes)
  | short (err part : Bytes)
  deriving DecidableEq

def Received.bytes : Received → Bytes
  | .block data => data
  | .short _ part => part

/-- The result reports the error `closed`. -/
def Received.closed : Received → Bool
  | .block _ => false
  | .short err _ => err == lit "closed"

variable {ρ κ : Type}

/-- A timer object, and whether `_timers` still holds it with its callback. -/
structure Timer (κ : Type) where
  time : ℚ
  running : Bool
  pending : Bool
  callback : κ
  deriving DecidableEq

/-- The timers ever made; each is known by its position. -/
abbrev Timers (κ : Type) := List (Timer κ)

namespace Timers

variable {ts : Timers κ} {time : ℚ} {callback : κ} {i j : Nat} {t : Timer κ}

/-- `EventLoop:timer`, given the time at which the timer runs out. -/
def timer (ts : Timers κ) (time : ℚ) (callback : κ) : Timers κ :=
  ts ++ [⟨time, true, true, callback⟩]

def cancel (ts : Timers κ) (i : Nat) : Timers κ := ts.modify i fun t => { t with running := false }

/-- `self._timers[k] = nil` -/
def expire (ts : Timers κ) (i : Nat) : Timers κ := ts.modify i fun t => { t with pending := false }

/-- A timer that will still call back. -/
def live (ts : Timers κ) (i : Nat) : Option (Timer κ) :=
  ts[i]?.filter fun t => t.pending && t.running

/-- What a step of the loop runs: a live timer whose time has come. -/
def due (ts : Timers κ) (now : ℚ) (i : Nat) : Option κ :=
  ((live ts i).filter fun t => t.time ≤ now).map Timer.callback

theorem live_timer : live (timer ts time callback) j =
    if j = ts.length then some ⟨time, true, true, callback⟩ else live ts j := by
  rcases Nat.lt_trichotomy j ts.length with hj | rfl | hj
  · have hne : j ≠ ts.length := by omega
    simp [live, timer, List.getElem?_append_left hj, hne]
  · simp [live, timer]
  · have hne : j ≠ ts.length := by omega
    have hout : (timer ts time callback).length ≤ j := by
      rw [timer, List.length_append, List.length_singleton]
      omega
    rw [if_neg hne, live, live, List.getElem?_eq_none hout, List.getElem?_eq_none hj.le]

theorem live_cancel : live (cancel ts i) j = if j = i then none else live ts j := by
  by_cases hj : j = i
  · subst hj
    cases h : ts[j]? <;> simp [live, cancel, h, Option.filter]
  · have hne : ¬ i = j := fun h => hj h.symm
    simp [live, cancel, hj, hne]

theorem live_expire : live (expire ts i) j = if j = i then none else live ts j := by
  by_cases hj : j = i
  · subst hj
    cases h : ts[j]? <;> simp [live, expire, h, Option.filter]
  · have hne : ¬ i = j := fun h => hj h.symm
    simp [live, expire, hj, hne]

theorem lt_length_of_live (h : live ts i = some t) : i < ts.length := by
  obtain ⟨hi, _⟩ := Option.filter_eq_some_iff.mp h
  exact (List.getElem?_eq_some_iff.mp hi).1

theorem live_of_due {now : ℚ} (h : due ts now i = some callback) :
    ∃ t, live ts i = some t ∧ t.time ≤ now ∧ t.callback = callback := by
  obtain ⟨t, ht, rfl⟩ := Option.map_eq_some_iff.mp h
  obtain ⟨hl, hd⟩ := Option.filter_eq_some_iff.mp ht
  exact ⟨t, hl, by simpa using hd, rfl⟩

@[simp] theorem length_timer : (timer ts time callback).length = ts.length + 1 := by simp [timer]

@[simp] theorem length_cancel : (cancel ts i).length = ts.length := by simp [cancel]

@[simp] theorem length_expire : (expire ts i).length = ts.length := by simp [expire]

end Timers

/-- An entry of a handler table: the key `{sock}`, made anew for each entry, and the callback. -/
structure Registration (ρ κ : Type) where
  key : Nat
  sock : ρ
  callback : κ
  deriving DecidableEq

structure EventLoop (ρ κ τ : Type) where
  readableHandlers : List (Registration ρ κ)
  writableHandlers : List (Registration ρ κ)
  /-- The next key; every key in use is smaller. -/
  nextKey : Nat
  timers : Timers τ

namespace EventLoop

variable {τ : Type} [DecidableEq ρ] [DecidableEq κ]

def new : EventLoop ρ κ τ := ⟨[], [], 0, []⟩

def addReadableHandler (e : EventLoop ρ κ τ) (sock : ρ) (callback : κ) : EventLoop ρ κ τ :=
  { e with
    readableHandlers := ⟨e.nextKey, sock, callback⟩ :: e.readableHandlers
    nextKey := e.nextKey + 1 }

def addWritableHandler (e : EventLoop ρ κ τ) (sock : ρ) (callback : κ) : EventLoop ρ κ τ :=
  { e with
    writableHandlers := ⟨e.nextKey, sock, callback⟩ :: e.writableHandlers
    nextKey := e.nextKey + 1 }

def removeReadableHandler (e : EventLoop ρ κ τ) (sock : ρ) (callback : κ) : EventLoop ρ κ τ :=
  { e with readableHandlers :=
      e.readableHandlers.filter fun r => ¬ (r.sock = sock ∧ r.callback = callback) }

def removeWritableHandler (e : EventLoop ρ κ τ) (sock : ρ) (callback : κ) : EventLoop ρ κ τ :=
  { e with writableHandlers :=
      e.writableHandlers.filter fun r => ¬ (r.sock = sock ∧ r.callback = callback) }

/-- `self._readable_handlers[k] = nil` -/
def dropReadable (e : EventLoop ρ κ τ) (key : Nat) : EventLoop ρ κ τ :=
  { e with readableHandlers := e.readableHandlers.filter fun r => r.key ≠ key }

/-- `self._writable_handlers[k] = nil` -/
def dropWritable (e : EventLoop ρ κ τ) (key : Nat) : EventLoop ρ κ τ :=
  { e with writableHandlers := e.writableHandlers.filter fun r => r.key ≠ key }

/-- What `step` does once a readable callback has ended: `result` is none when it raised. The entry
of a callback that raised is looked for in the table of writable handlers. -/
def afterReadable (e : EventLoop ρ κ τ) (key : Nat) : Option Bool → EventLoop ρ κ τ
  | none => e.dropWritable key
  | some false => e.dropReadable key
  | some true => e

/-- What `step` does once a writable callback has ended. -/
def afterWritable (e : EventLoop ρ κ τ) (key : Nat) : Option Bool → EventLoop ρ κ τ
  | some true => e
  | _ => e.dropWritable key

omit [DecidableEq ρ] [DecidableEq κ] in
@[simp] theorem afterReadable_timers (e : EventLoop ρ κ τ) (key : Nat) (result : Option Bool) :
    (e.afterReadable key result).timers = e.timers := by
  cases result with
  | none => rfl
  | some keep => cases keep <;> rfl

omit [DecidableEq ρ] [DecidableEq κ] in
@[simp] theorem afterWritable_timers (e : EventLoop ρ κ τ) (key : Nat) (result : Option Bool) :
    (e.afterWritable key result).timers = e.timers := by
  cases result with
  | none => rfl
  | some keep => cases keep <;> rfl

def timer (e : EventLoop ρ κ τ) (time : ℚ) (callback : τ) : EventLoop ρ κ τ :=
  { e with timers := e.timers.timer time callback }

def cancel (e : EventLoop ρ κ τ) (i : Nat) : EventLoop ρ κ τ :=
  { e with timers := e.timers.cancel i }

end EventLoop

end TuxBot
