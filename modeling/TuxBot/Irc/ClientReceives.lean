import TuxBot.Irc.ClientClosed
import TuxBot.Lua.PlainPattern

/-! Whatever a server sends, reading it does not raise. -/
namespace TuxBot.Irc

open TuxBot.Lua TuxBot.Lua.Eff TuxBot.Lua.Pattern TuxBot.Machine

variable {env : Env} {w : World} {s : ClientLoop} {nick : Bytes} {now : ℚ} {inputs : List ClientInput}
  {P E : World → Prop} {received : Received}

/-! ### The patterns of `applymode` -/

/-- `'(%p)'` -/
def punctPattern : List (Item UInt8) := [.start, .one isPunct, .stop]

/-- `c:gsub('(%p)', '%%%1')`, the pattern by which `applymode` removes a letter. -/
def letterPattern (c : UInt8) : Bytes := gsub punctPattern (fun m => 37 :: m.captures.flatten) [c]

theorem letterPattern_eq (c : UInt8) : letterPattern c = escape isPunct [c] := by
  revert c
  exact forall_byte (by decide +kernel)

/-- The empty pattern is found everywhere, and there is nothing to remove. -/
theorem gsub_nothing (str : Bytes) : gsub ([] : List (Item UInt8)) (fun _ => []) str = str := by
  suffices h : ∀ n, str.length < n → gsubN ([] : List (Item UInt8)) (fun _ => []) n str = str from
    h _ (Nat.lt_succ_self _)
  induction str with
  | nil =>
    intro n hn
    obtain ⟨n, rfl⟩ : ∃ m, n = m + 1 := ⟨n - 1, by simp at hn; omega⟩
    rfl
  | cons b str ih =>
    intro n hn
    obtain ⟨n, rfl⟩ : ∃ m, n = m + 1 := ⟨n - 1, by simp at hn; omega⟩
    have hm : matchHere ([] : List (Item UInt8)) (b :: str) = some ⟨[], [], b :: str⟩ := by
      simp [matchHere, doMatch]
    have hrest := ih n (by simpa using hn)
    simp [gsubN, hm, hrest]

theorem isPunct_of_isMagic : ∀ b, isMagic b = true → b ≠ 0 → isPunct b = true :=
  forall_byte (by decide +kernel)

theorem not_alnum_of_isPunct : ∀ b, isPunct b = true → isAlnum b = false :=
  forall_byte (by decide +kernel)

/-- The pattern of a mode letter is well formed, and removing its matches removes the letter. The one
of NUL is empty. -/
theorem letterPattern_removes (c : UInt8) (str : Bytes) :
    ∃ items, plainItems (letterPattern c) = some items ∧
      gsub items (fun _ => []) str = if c = 0 then str else str.filter (· ≠ c) := by
  rw [letterPattern_eq]
  by_cases hc : c = 0
  · subst hc
    exact ⟨[], rfl, (gsub_nothing str).trans (if_pos rfl).symm⟩
  · refine ⟨textItems [c], plainItems_escape isPunct_of_isMagic not_alnum_of_isPunct (by simpa), ?_⟩
    rw [if_neg hc]
    have hone := gsub_one (c := (· == c)) (f := fun _ => []) (g := fun _ => []) (fun _ _ => rfl) str
    refine hone.trans ?_
    clear hone
    induction str with
    | nil => rfl
    | cons b str ih =>
      rw [List.flatMap_cons, ih]
      by_cases hb : b = c <;> simp [hb]

/-! ### A connection that is closed -/

/-- With an interval to begin with there is always one to wait. -/
theorem isSome_nextReconnecttime (h : env.timings.initialReconnectionInterval.isSome) :
    (Client.nextReconnecttime env.timings w).isSome := by
  unfold Client.nextReconnecttime
  cases w.reconnecttime with
  | none => exact h
  | some r =>
    cases w.timeLastConnected with
    | none => rfl
    | some connected =>
      dsimp only
      split
      · exact h
      · rfl

section Harmless

variable (hcalls : env.Harmless)
include hcalls

/-- Callbacks raise at nobody. -/
theorem trigger_keeps {event : ClientEvent} (h : ∀ w u, Passes w u → P w → P u) :
    Triple P (Client.trigger env event) (fun _ => P) E :=
  triple_modify fun w hw => h w _ (passes_trigger hcalls w w rfl) hw

variable (hinterval : env.timings.initialReconnectionInterval.isSome)
include hinterval

/-- A Client with a timer and a socket can give them up. -/
theorem reconnect_returns {reason : Bytes} :
    Triple Linked (Client.reconnect env reason) (fun _ _ => True) fun _ => False := by
  refine triple_bind linked_cancelTimer fun _ => ?_
  refine triple_bind (Q := fun _ => Linked) (triple_modify fun w => linked_removeHandlers) fun _ => ?_
  refine triple_bind linked_closeConn fun _ => ?_
  refine triple_bind (Q := fun _ w => w.reconnecttime.isSome) (triple_modify fun w _ =>
    isSome_nextReconnecttime hinterval) fun _ => ?_
  refine triple_bind (Q := fun _ w => w.reconnecttime.isSome) (triple_modify fun w h => h) fun _ => ?_
  refine triple_get_bind fun w h => triple_at (P := fun w => w.reconnecttime.isSome) ?_ h
  refine triple_bind (trigger_keeps hcalls fun w u hpasses h => ?_) fun _ => ?_
  · have hsame : u.reconnecttime = w.reconnecttime :=
      congrArg (fun w => w.reconnecttime) hpasses.core
    exact hsame ▸ h
  refine triple_get_bind fun w h => ?_
  obtain ⟨interval, hinterval⟩ := Option.isSome_iff_exists.mp h
  rw [hinterval]
  exact triple_modify fun _ _ => trivial

theorem onClosed_returns : Triple Linked (Client.onClosed env) (fun _ _ => True) fun _ => False := by
  refine triple_get_bind fun w h => triple_ite (fun _ => ?_) fun _ =>
    triple_at (reconnect_returns hcalls hinterval) h
  refine triple_bind (Q := fun _ _ => True) (triple_modify fun _ _ => trivial) fun _ => ?_
  refine triple_bind (trigger_keeps hcalls fun _ _ _ h => h) fun _ => ?_
  exact triple_modify fun _ _ => trivial

/-- Whatever is received, a live Client reads it to the end. -/
theorem onReadable_returns : Triple (Live env False 0) (Client.onReadable env received)
    (fun keep _ => keep = true) fun _ => False := by
  refine triple_bind (Q := fun _ _ => True) (live_onReady (fun _ h => h) ?_) fun _ =>
    triple_pure fun _ _ => rfl
  apply live_onReceived_then hcalls
  refine triple_ite (fun _ => ?_) fun _ => triple_pure fun _ _ => trivial
  exact triple_conseq (onClosed_returns hcalls hinterval) (fun _ => linked_of_live) (fun _ _ h => h)
    fun _ h => h

end Harmless

/-- In every run, whatever bytes a registering or connected Client receives, `_on_readable` returns
true; and every pattern that `applymode` makes of a mode letter is well formed. -/
theorem receive_never_raises (hcalls : env.Harmless)
    (hinterval : env.timings.initialReconnectionInterval.isSome)
    (hrun : run (ClientLoop.step env) (.new nick now) inputs = some s) (hup : s.Up)
    (received : Received) :
    (∃ u, Client.onReadable env received s.world = .ok true u) ∧
      ∀ c, (plainItems (letterPattern c)).isSome := by
  constructor
  · have hlive := live_of_up (steady_run hcalls (steady_new nick now) hrun) hup
    have hreturns : Triple _ (Client.onReadable env received) _ _ :=
      onReadable_returns hcalls hinterval
    obtain ⟨keep, u, hreturn, rfl⟩ := triple_returns hreturns hlive
    exact ⟨u, hreturn⟩
  · intro c
    obtain ⟨items, hitems, -⟩ := letterPattern_removes c []
    rw [hitems]
    rfl

/-- Mode changes of punctuation and of NUL, a PONG that answers nothing, a CTCP without a sender's
nick, a second welcome, and then the end of the connection. -/
theorem receive_never_raises_garbage : ∃ s, run (ClientLoop.step .silent) (.new "tux" 0) [.connect,
      .select [] [0], .writable 1, .select [0] [],
      .readable 0 (.short "timeout" ":s 001 tux :hi\r\n"), .select [0] []] = some s ∧
    (∃ u, Client.onReadable .silent (.short "closed" (lit "MODE tux -%^\x10" ++
      lit "0\r\nPONG a nil\r\n:s PRIVMSG tux :\x01VERSION\x01\r\n001 tux\r\n005 a PREFIX=(o)\r\n"))
      s.world = .ok true u) ∧ ∀ c, (plainItems (letterPattern c)).isSome := by
  obtain ⟨s, hrun, hstate⟩ := Option.map_eq_some_iff.mp
    (by decide +kernel : (run (ClientLoop.step .silent) (.new "tux" 0) [.connect, .select [] [0],
      .writable 1, .select [0] [], .readable 0 (.short "timeout" ":s 001 tux :hi\r\n"),
      .select [0] []]).map (fun s => s.world.session.state) = some .connected)
  exact ⟨s, hrun, receive_never_raises harmless_silent rfl hrun (Or.inl hstate) _⟩

end TuxBot.Irc
