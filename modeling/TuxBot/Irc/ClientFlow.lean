import TuxBot.Irc.ClientClosed

/-! The send path of a plain connection loses, doubles and reorders nothing, and never stalls. -/
namespace TuxBot.Irc

open TuxBot.Lua TuxBot.Lua.Eff TuxBot.Machine

variable {env : Env} {s : ClientLoop} {nick : Bytes} {now : ℚ} {inputs : List ClientInput}

/-- While a connection is up, what its socket accepted and then what is buffered is all that `_send`
was given for it, and as long as anything is buffered a handler waits for the socket. -/
theorem sendbuf_flow (hcalls : env.Harmless) (hplain : env.Plain)
    (hrun : run (ClientLoop.step env) (.new nick now) inputs = some s) (hup : s.Up) :
    ∃ conn buf, s.world.conn = some conn ∧ s.world.sendbuf = some buf ∧
      traffic s.world.wire conn ++ buf = traffic s.world.passed conn ∧
      (buf ≠ [] → ∃ r ∈ s.world.loop.writableHandlers,
        r.sock = conn ∧ r.callback = s.world.handler) := by
  have hsteady := steady_run hcalls (steady_new nick now) hrun
  obtain ⟨conn, buf, hconn, hbuf, hpath, hflush⟩ := (live_of_up hsteady hup).flow
  refine ⟨conn, buf, hconn, hbuf, hpath hplain, fun hne => ?_⟩
  obtain ⟨r, hr, hsock, hcallback, _⟩ := hflush hne
  exact ⟨r, hr, hsock, hcallback⟩

/-- A socket that takes five bytes at a time. -/
def Env.slow : Env := { Env.silent with send := fun _ _ => .error "timeout" 5 }

/-- Three lines over that socket, one flush later. -/
theorem sendbuf_flow_slow :
    let inputs : List ClientInput := [.connect, .select [] [0], .writable 1, .send "PING :a\r\n",
      .select [] [0], .writable 2]
    ∃ s, run (ClientLoop.step .slow) (.new "tux" 0) inputs = some s ∧
      ∃ conn buf, s.world.conn = some conn ∧ s.world.sendbuf = some buf ∧
        traffic s.world.wire conn ++ buf = traffic s.world.passed conn ∧
        (buf ≠ [] → ∃ r ∈ s.world.loop.writableHandlers,
          r.sock = conn ∧ r.callback = s.world.handler) := by
  intro inputs
  have hcalls : Env.slow.Harmless := fun _ w => .refl w
  have hplain : Env.slow.Plain := fun _ _ => Or.inr ⟨5, rfl⟩
  obtain ⟨s, hrun, hup⟩ : ∃ s, run (ClientLoop.step .slow) (.new "tux" 0) inputs = some s ∧ s.Up :=
    ⟨_, rfl, Or.inr rfl⟩
  exact ⟨s, hrun, sendbuf_flow hcalls hplain hrun hup⟩

end TuxBot.Irc
