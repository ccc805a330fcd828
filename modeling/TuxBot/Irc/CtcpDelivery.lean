import TuxBot.Irc.Delivery

/-! What `sendctcp` and `sendctcpreply` put on the wire, and what another Client makes of it. -/
namespace TuxBot.Irc

open TuxBot.Lua TuxBot.Lua.Eff TuxBot.Lua.Pattern

section Quote

variable {b : UInt8} {s : Bytes}

theorem ctcpQuote_cons (b : UInt8) (s : Bytes) :
    ctcpQuote (b :: s) = (if b = 1 ∨ b = 92 then [92, b] else [b]) ++ ctcpQuote s := by
  have hquote : ∀ s, ctcpQuote s = s.flatMap fun b =>
      if oneOf [1, 92] b then [92, b] else [b] := fun s =>
    gsub_one (g := fun b => [92, b]) (fun _ _ => rfl) s
  have hclass : (oneOf [1, 92] b = true) = (b = 1 ∨ b = 92) := by simp [oneOf]
  rw [hquote, hquote, List.flatMap_cons]
  simp only [hclass]

theorem ctcpDequote_cons (h : b ≠ 92) : ctcpDequote (b :: s) = b :: ctcpDequote s := by
  apply gsub_cons_of_none
  apply matchHere_of_none
  simp [ctcpDequotePattern, doMatch, oneOf, h]

theorem ctcpDequote_escape (h : b = 1 ∨ b = 92) :
    ctcpDequote (92 :: b :: s) = b :: ctcpDequote s := by
  have hstop := endCapture_append [b] s []
  rw [List.singleton_append] at hstop
  have hm : doMatch ctcpDequotePattern [] ([92, b] ++ s) = some ([.closed [b]], s) := by
    simpa [ctcpDequotePattern, doMatch, hstop, oneOf] using h.symm.resolve_left
  exact gsub_cons_of_some (matchHere_of_some hm) (by simp)

/-- `ctcp_dequote` undoes `ctcp_quote` on every byte string. -/
theorem ctcpDequote_ctcpQuote (s : Bytes) : ctcpDequote (ctcpQuote s) = s := by
  induction s with
  | nil => rfl
  | cons b s ih =>
    rw [ctcpQuote_cons]
    split_ifs with hb
    · rw [List.cons_append, List.singleton_append, ctcpDequote_escape hb, ih]
    · rw [List.singleton_append, ctcpDequote_cons fun h => hb (Or.inr h), ih]

end Quote

section Argument

variable {command arg : Bytes}

/-- The first capture of `'^([^ ]+) (.*)$'` begins where the subject does. -/
theorem doMatch_ctcpArgPattern {b : UInt8} (hb : b ≠ 32) (s : Bytes) :
    doMatch ctcpArgPattern [] (b :: s) = maxExpand (noneOf " ")
      (doMatch [.stop, .one (oneOf " "), .start, .star anyByte, .stop, .eos]
        [.unfinished (b :: s)]) s := by
  have hclass : noneOf (lit " ") b = true := by simp [noneOf, lit, hb]
  rw [ctcpArgPattern, doMatch_start, doMatch_plus hclass]

theorem ctcpArgPattern_some (hne : command ≠ []) (hc : ∀ b ∈ command, b ≠ 32) (arg : Bytes) :
    (matchHere ctcpArgPattern (command ++ 32 :: arg)).map Match.values = some [command, arg] := by
  obtain ⟨b, command, rfl⟩ := List.exists_cons_of_ne_nil hne
  have hclass : ∀ x ∈ command, noneOf (lit " ") x = true := by
    intro x hx
    have hx' := hc x (by simp [hx])
    simp [noneOf, lit, hx']
  have hm : doMatch ctcpArgPattern [] ((b :: command) ++ 32 :: arg) =
      some ([.closed arg, .closed (b :: command)], []) := by
    rw [List.cons_append, doMatch_ctcpArgPattern (hc b (by simp))]
    refine maxExpand_append hclass (by simp [noneOf, lit]) ?_
    have hstop := endCapture_append (b :: command) (32 :: arg) []
    rw [List.cons_append] at hstop
    rw [doMatch_stop, hstop, doMatch_one rfl]
    exact doMatch_rest arg [.closed (b :: command)]
  rw [matchHere, hm]
  rfl

theorem ctcpArgPattern_none (hc : ∀ b ∈ command, b ≠ 32) :
    matchHere ctcpArgPattern command = none := by
  apply matchHere_of_none
  cases command with
  | nil => rfl
  | cons b command =>
    rw [doMatch_ctcpArgPattern (hc b (by simp))]
    apply maxExpand_eq_none
    intro x hx
    cases x with
    | nil => rfl
    | cons d x =>
      have hd : d ≠ 32 := hc d (List.mem_cons_of_mem b (hx.subset (by simp)))
      simp [doMatch, oneOf, lit, hd]

end Argument

/-! ### The calls -/

/-- The calls that send a CTCP. -/
inductive CtcpCall where
  | sendctcp
  | sendctcpreply
  deriving DecidableEq

namespace CtcpCall

def cmd : CtcpCall → Bytes
  | .sendctcp => lit "PRIVMSG"
  | .sendctcpreply => lit "NOTICE"

/-- The command as which it is received. -/
def received : CtcpCall → Bytes
  | .sendctcp => lit ":CTCP"
  | .sendctcpreply => lit ":CTCPREPLY"

def send (env : Env) : CtcpCall → Bytes → Bytes → Option Bytes → Eff World Unit
  | .sendctcp, target => Client.sendctcp env target
  | .sendctcpreply, target => Client.sendctcpreply env (some target)

def event : CtcpCall → Bytes → Bytes → Option Bytes → Int → ClientEvent
  | .sendctcp, target => .sentctcp target
  | .sendctcpreply, target => .sentctcpreply (some target)

/-- What `sendmessage` is given as a line. -/
def messageLine (call : CtcpCall) (target command : Bytes) (arg : Option Bytes) : Bytes :=
  Irc.messageLine call.cmd [some target, some (ctcpText command arg)]

theorem send_eq {env : Env} {w : World} (call : CtcpCall) (target command : Bytes)
    (arg : Option Bytes)
    (hstate : w.session.state = .connected ∨ w.session.state = .registering) :
    call.send env target command arg w = (do
      Client.trigger env (.sentmessage (call.messageLine target command arg) (some w.time))
      Client.send env (wireLine (call.messageLine target command arg))
      let w ← get
      Client.trigger env (call.event target command arg w.time)) w := by
  have hcall : call.send env target command arg = (do
      Client.sendmessageline env (call.messageLine target command arg)
      let w ← get
      Client.trigger env (call.event target command arg w.time)) := by
    cases call <;> rfl
  rw [hcall]
  exact sendmessageline_trigger_eq (call.event target command arg) hstate

/-- The receiver takes off the delimiters and the quoting. -/
theorem rewriteCtcp_quoted (call : CtcpCall) (target : Bytes) {s : Bytes} (hne : s ≠ []) :
    rewriteCtcp call.cmd [target, 1 :: ctcpQuote s ++ [1]] =
      match (matchHere ctcpArgPattern s).map Match.values with
      | some [c, a] => (call.received, [target, upper c, a])
      | _ => (call.received, [target, upper s]) := by
  have hcmd : call.cmd = lit "PRIVMSG" ∨ call.cmd = lit "NOTICE" := by
    cases call
    · exact Or.inl rfl
    · exact Or.inr rfl
  have hreceived : (if call.cmd = lit "PRIVMSG" then lit ":CTCP" else lit ":CTCPREPLY") =
      call.received := by cases call <;> decide +kernel
  have hquoted : ctcpQuote s ≠ [] := by
    obtain ⟨b, s, rfl⟩ := List.exists_cons_of_ne_nil hne
    rw [ctcpQuote_cons]
    split_ifs <;> simp
  have hinner : ((1 :: ctcpQuote s ++ [1]).drop 1).dropLast = ctcpQuote s := by simp
  rw [rewriteCtcp, if_pos ⟨hcmd, (ctcpPattern_iff _).mpr ⟨_, hquoted, rfl⟩⟩]
  rewrite [hinner, ctcpDequote_ctcpQuote, hreceived]
  rfl

/-- What is between them is the command and the argument. -/
theorem rewriteCtcp_ctcpText (call : CtcpCall) (target : Bytes) {command : Bytes}
    (hne : command ≠ []) (hc : ∀ b ∈ command, b ≠ 32) (arg : Option Bytes) :
    rewriteCtcp call.cmd [target, ctcpText command arg] =
      (call.received, target :: upper command :: arg.toList) := by
  cases arg with
  | none =>
    have hquoted := call.rewriteCtcp_quoted target hne
    rw [ctcpArgPattern_none hc] at hquoted
    simpa [ctcpText] using hquoted
  | some arg =>
    have hquoted := call.rewriteCtcp_quoted target (s := command ++ 32 :: arg) (by simp)
    rw [ctcpArgPattern_some hne hc arg] at hquoted
    exact hquoted

end CtcpCall

/-- A CTCP or a reply is read back by another Client as one message: the command in upper case and
the argument, if there is one, whatever bytes they hold. -/
theorem ctcp_round_trip (call : CtcpCall) (target command nick : Bytes) (arg : Option Bytes)
    (time : Int) (chunks : List Bytes) (htarget : Middle target) (hne : command ≠ [])
    (hspace : ∀ b ∈ command, b ≠ 32)
    (hchunks : chunks.flatten = wireLine (call.messageLine target command arg)) :
    (received nick time [] chunks).map (fun m => (m.cmd, m.args)) =
      [(call.received, target :: upper command :: arg.toList)] := by
  have hcmd : call.cmd ≠ [] := by cases call <;> decide +kernel
  have halnum : ∀ b ∈ call.cmd, isAlnum b = true := by cases call <;> decide +kernel
  have hupper : upper call.cmd = call.cmd := by cases call <;> decide +kernel
  have hread := messageLineToTable_rewriteCtcp [target, ctcpText command arg] hcmd halnum
    (by simpa using htarget) nick time
  rw [hupper, call.rewriteCtcp_ctcpText target hne hspace arg] at hread
  have hline : call.messageLine target command arg ≠ [] := by
    simp [CtcpCall.messageLine, messageLine, hcmd]
  obtain ⟨msg, hmsg, heq⟩ := Option.map_eq_some_iff.mp hread
  have hmsg' : messageLineToTable nick time (call.messageLine target command arg) = some msg := hmsg
  rw [received_wireLine hline hchunks, hmsg', Option.toList_some, List.map_singleton, heq]

/-- An argument that ends in a backslash and a byte 1 and holds what the lower layer quotes. -/
theorem ctcp_round_trip_escapes :
    (received "bot" 0 [] [wireLine (CtcpCall.sendctcp.messageLine "#c" "ping"
        (some (lit " \\n\x01" ++ [0, 13, 10, 16] ++ lit "\\\x01")))]).map
      (fun m => (m.cmd, m.args)) =
    [(lit ":CTCP", [lit "#c", lit "PING", lit " \\n\x01" ++ [0, 13, 10, 16] ++ lit "\\\x01"])] :=
  ctcp_round_trip .sendctcp "#c" "ping" "bot" (some (lit " \\n\x01" ++ [0, 13, 10, 16] ++ lit "\\\x01"))
    0 _ (by decide +kernel) (by decide +kernel) (by decide +kernel) (List.append_nil _)

end TuxBot.Irc
