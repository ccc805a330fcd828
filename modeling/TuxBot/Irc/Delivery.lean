import TuxBot.Irc.Client
import TuxBot.Irc.WireRoundTrip

/-! What a stream becomes, however it is cut, and what a text becomes at the other end. -/
namespace TuxBot.Irc

open TuxBot.Lua TuxBot.Lua.Eff TuxBot.Lua.Pattern

/-! ### The cut of the stream -/

/-- The runs of a stream without CR and LF that one of them follows. -/
def finishedRuns (stream : Bytes) : List Bytes :=
  (stream.splitOnP isCrlf).dropLast.filter fun run => !run.isEmpty

/-- The messages the loop makes of framed lines. Our nick and the clock may depend on the messages
that were read before. -/
def tables (nick : List Message → Bytes) (time : List Message → Int) (lines : List Bytes) :
    List Message :=
  lines.foldl (fun read line =>
    read ++ (messageLineToTable (nick read) (time read) (lowlevelDequote line)).toList) []

/-- `scan` reads the pieces between the terminators, after the run read so far. -/
theorem scan_splitOnP (part : Bytes) (hpart : ∀ b ∈ part, isCrlf b = false) (s : Bytes) :
    (scan part s).1 = finishedRuns (part ++ s) := by
  induction s generalizing part with
  | nil =>
    rw [List.append_nil, finishedRuns, List.splitOnP_eq_singleton hpart]
    rfl
  | cons b s ih =>
    by_cases hb : isCrlf b
    · have hsplit := List.splitOnP_append_cons_of_forall_mem hpart b hb s
      have hrest : (scan [] s).1 = finishedRuns s := ih [] (by simp)
      have hne : s.splitOnP isCrlf ≠ [] := List.splitOnP_ne_nil isCrlf s
      rw [finishedRuns, hsplit, List.dropLast_cons_of_ne_nil hne]
      by_cases hp : part = []
      · simpa [scan, hb, hp, finishedRuns] using hrest
      · simpa [scan, hb, hp, finishedRuns] using hrest
    · have hb' : isCrlf b = false := by simpa using hb
      have hlonger : ∀ x ∈ part ++ [b], isCrlf x = false := by
        intro x hx
        rcases List.mem_append.mp hx with hx | hx
        · exact hpart x hx
        · exact List.mem_singleton.mp hx ▸ hb'
      simpa [scan, hb'] using ih _ hlonger

/-- Terminators that were given back make no message, so only the finished runs count. -/
theorem tables_runs {lines : List Bytes} (h : ∀ line ∈ lines, Framed line)
    (nick : List Message → Bytes) (time : List Message → Int) :
    tables nick time lines = tables nick time (runs lines) := by
  unfold tables
  generalize ([] : List Message) = read
  induction lines generalizing read with
  | nil => rfl
  | cons line lines ih =>
    have hrest := ih fun l hl => h l (List.mem_cons_of_mem _ hl)
    rcases h line List.mem_cons_self with ⟨-, hrun⟩ | ⟨d, hd, rfl⟩
    · have hkeep : runs (line :: lines) = line :: runs lines := by
        simp only [runs, List.filter_cons]
        rw [if_pos]
        simpa using hrun
      rw [hkeep, List.foldl_cons, List.foldl_cons, hrest]
    · have hdrop : runs ([d] :: lines) = runs lines := by simp [runs, hd]
      rw [hdrop, List.foldl_cons, messageLineToTable_terminator hd, Option.toList_none,
        List.append_nil, hrest]

theorem tables_feed (nick : List Message → Bytes) (time : List Message → Int)
    (cut : List Bytes) : tables nick time (feed [] cut).1 =
      tables nick time (finishedRuns cut.flatten) := by
  obtain ⟨hframed, hruns⟩ := feed_scan [] cut
  have hscan := scan_splitOnP [] (by simp) cut.flatten
  rw [tables_runs hframed, hruns rfl, List.nil_append, hscan, List.nil_append]

/-- Any two cuts of a stream give the messages of its finished runs, and the loop ends: every pass
takes bytes from the buffer, and after `drain` there is no further line. -/
theorem framing_ignores_cuts (nick : List Message → Bytes) (time : List Message → Int)
    (cut cut' : List Bytes) (hcut : cut.flatten = cut'.flatten) :
    tables nick time (feed [] cut).1 = tables nick time (finishedRuns cut.flatten) ∧
    tables nick time (feed [] cut).1 = tables nick time (feed [] cut').1 ∧
    ∀ buf, (∀ line rest, nextLine buf = some (line, rest) → rest.length < buf.length) ∧
      nextLine (drain buf).2 = none := by
  have hread := tables_feed nick time cut
  have hread' := tables_feed nick time cut'
  refine ⟨hread, ?_, fun buf => ⟨?_, (drainN_scan (Nat.le_refl buf.length)).2.1⟩⟩
  · rw [hread, hread', hcut]
  · intro line rest hnext
    rcases nextLine_scan buf with ⟨hnone, -⟩ | ⟨line', rest', hsome, hlen, -⟩
    · cases hnone.symm.trans hnext
    · obtain ⟨rfl, rfl⟩ := Prod.mk.inj (Option.some.inj (hsome.symm.trans hnext))
      exact hlen

/-- A stream cut between its terminators: the leftover LF makes a line of its own, but no message. -/
theorem framing_ignores_cuts_crlf :
    tables (fun _ => "bot") (fun _ => 0) (feed [] [lit "A\x0d", lit "\x0a\x0a", lit "B\x0a"]).1 =
      tables (fun _ => "bot") (fun _ => 0) (feed [] [lit "A\x0d\x0a\x0aB\x0a"]).1 :=
  (framing_ignores_cuts (fun _ => "bot") (fun _ => 0) [lit "A\x0d", lit "\x0a\x0a", lit "B\x0a"]
    [lit "A\x0d\x0a\x0aB\x0a"] (by decide +kernel)).2.1

/-! ### The texts of `sendprivmsg` and `sendnotice` -/

theorem sendmessageline_eq {env : Env} {w : World} {line : Bytes}
    (hstate : w.session.state = .connected ∨ w.session.state = .registering) :
    Client.sendmessageline env line w = (do
      Client.trigger env (.sentmessage line (some w.time))
      Client.send env (wireLine line)) w := by
  rw [Client.sendmessageline, get_bind_eq, if_pos hstate]

/-- What a Client that can send does in a call that sends a line and triggers an event: `_send` is
given the quoted line. -/
theorem sendmessageline_trigger_eq {env : Env} {w : World} {line : Bytes} (event : Int → ClientEvent)
    (hstate : w.session.state = .connected ∨ w.session.state = .registering) :
    (do
      Client.sendmessageline env line
      let w ← get
      Client.trigger env (event w.time)) w = (do
      Client.trigger env (.sentmessage line (some w.time))
      Client.send env (wireLine line)
      let w ← get
      Client.trigger env (event w.time)) w := by
  rw [bind_congr_at (sendmessageline_eq hstate), bind_assoc]

/-- The calls that send a text. -/
inductive TextCall where
  | sendprivmsg
  | sendnotice
  deriving DecidableEq

namespace TextCall

def cmd : TextCall → Bytes
  | .sendprivmsg => lit "PRIVMSG"
  | .sendnotice => lit "NOTICE"

def send (env : Env) : TextCall → Bytes → Bytes → Eff World Unit
  | .sendprivmsg => Client.sendprivmsg env
  | .sendnotice => Client.sendnotice env

def event : TextCall → Bytes → Bytes → Int → ClientEvent
  | .sendprivmsg => .sentprivmsg
  | .sendnotice => .sentnotice

/-- The line of the call, in which the text is not quoted. -/
def line (call : TextCall) (target text : Bytes) : Bytes :=
  wireLine (messageLine call.cmd [some target, some text])

theorem send_eq {env : Env} {w : World} (call : TextCall) (target text : Bytes)
    (hstate : w.session.state = .connected ∨ w.session.state = .registering) :
    call.send env target text w = (do
      Client.trigger env
        (.sentmessage (messageLine call.cmd [some target, some text]) (some w.time))
      Client.send env (call.line target text)
      let w ← get
      Client.trigger env (call.event target text w.time)) w := by
  have hcall : call.send env target text = (do
      Client.sendmessageline env (messageLine call.cmd [some target, some text])
      let w ← get
      Client.trigger env (call.event target text w.time)) := by
    cases call <;> rfl
  rw [hcall]
  exact sendmessageline_trigger_eq (call.event target text) hstate

end TextCall

/-- A text that looks like a CTCP: something between two bytes 1. -/
def CtcpLike (text : Bytes) : Prop := ∃ mid, mid ≠ [] ∧ text = 1 :: mid ++ [1]

theorem ctcpPattern_iff (text : Bytes) :
    (matchHere ctcpPattern text).isSome = true ↔ CtcpLike text := by
  refine ⟨ctcpPattern_some, ?_⟩
  rintro ⟨mid, hne, rfl⟩
  obtain ⟨b, mid, rfl⟩ := List.exists_cons_of_ne_nil hne
  have hlast : doMatch [.one (oneOf [1]), .eos] [] [1] = some (([] : List (Capture UInt8)), []) := rfl
  have hrun : maxExpand anyByte (doMatch [.one (oneOf [1]), .eos] []) (mid ++ 1 :: []) =
      some (([] : List (Capture UInt8)), []) :=
    maxExpand_giveBack (fun _ _ => rfl) rfl
      (fun x hx => by rw [List.suffix_nil.mp hx]; rfl) hlast
  have hm : doMatch ctcpPattern [] (1 :: b :: (mid ++ [1])) = some ([], []) := by
    rw [ctcpPattern, doMatch_one rfl, doMatch_plus rfl]
    exact hrun
  rw [List.cons_append, List.cons_append, matchHere, hm]
  rfl

/-- The command of a CTCP, whatever its text holds. -/
theorem rewriteCtcp_cmd {cmdtype target text : Bytes} {rest : List Bytes}
    (hcmd : cmdtype = lit "PRIVMSG" ∨ cmdtype = lit "NOTICE") (hctcp : CtcpLike text) :
    (rewriteCtcp cmdtype (target :: text :: rest)).1 =
      if cmdtype = lit "PRIVMSG" then lit ":CTCP" else lit ":CTCPREPLY" := by
  rw [rewriteCtcp, if_pos ⟨hcmd, (ctcpPattern_iff text).mpr hctcp⟩]
  dsimp only
  generalize (matchHere ctcpArgPattern _).map Match.values = values
  rcases values with _ | _ | ⟨c, _ | ⟨a, _ | _⟩⟩ <;> rfl

/-- Only such a text changes the command. -/
theorem rewriteCtcp_text (call : TextCall) (target text : Bytes) :
    rewriteCtcp call.cmd [target, text] = (call.cmd, [target, text]) ↔ ¬ CtcpLike text := by
  constructor
  · intro h hctcp
    have hcmd : call.cmd = lit "PRIVMSG" ∨ call.cmd = lit "NOTICE" := by
      cases call
      · exact Or.inl rfl
      · exact Or.inr rfl
    have hchanged : call.cmd = if call.cmd = lit "PRIVMSG" then lit ":CTCP" else lit ":CTCPREPLY" :=
      (congrArg Prod.fst h).symm.trans (rewriteCtcp_cmd hcmd hctcp)
    revert hchanged
    cases call <;> decide +kernel
  · intro h
    apply rewriteCtcp_eq
    rintro - mid hne heq
    exact h ⟨mid, hne, Option.some.inj heq⟩

/-- One line on the wire makes at most one message, however it is cut. -/
theorem received_wireLine {line : Bytes} {chunks : List Bytes} (hne : line ≠ [])
    (hchunks : chunks.flatten = wireLine line) (nick : Bytes) (time : Int) :
    received nick time [] chunks = (messageLineToTable nick time line).toList := by
  obtain ⟨hframed, hruns⟩ := feed_scan [] chunks
  have hscan : (scan [] (wireLine line)).1 = [lowlevelQuote line] := by
    have hline := scan_wireLine hne []
    rw [List.append_nil] at hline
    rw [hline]
    rfl
  rw [received, filterMap_runs hframed, hruns rfl, List.nil_append, hchunks, hscan]
  cases h : messageLineToTable nick time line <;> simp [lowlevelDequote_lowlevelQuote, h]

/-- A text is read back as a text by another Client exactly when it does not look like a CTCP. -/
theorem text_delivered_iff (call : TextCall) (target text nick : Bytes) (time : Int)
    (chunks : List Bytes) (htarget : Middle target)
    (hchunks : chunks.flatten = call.line target text) :
    (received nick time [] chunks).map (fun m => (m.cmd, m.args)) = [(call.cmd, [target, text])] ↔
      ¬ CtcpLike text := by
  have hne : call.cmd ≠ [] := by cases call <;> decide +kernel
  have halnum : ∀ b ∈ call.cmd, isAlnum b = true := by cases call <;> decide +kernel
  have hupper : upper call.cmd = call.cmd := by cases call <;> decide +kernel
  have hread := messageLineToTable_rewriteCtcp [target, text] hne halnum
    (by simpa using htarget) nick time
  have hline : messageLine call.cmd [some target, some text] ≠ [] := by
    simp [messageLine, hne]
  obtain ⟨msg, hmsg, heq⟩ := Option.map_eq_some_iff.mp hread
  have hmsg' : messageLineToTable nick time (messageLine call.cmd [some target, some text]) =
      some msg := hmsg
  rw [received_wireLine hline hchunks, ← rewriteCtcp_text call target text, hmsg',
    Option.toList_some, List.map_singleton, heq, hupper, List.singleton_inj]

/-- A text with a quote sign and a byte 1 inside. -/
theorem text_delivered_escapes :
    (received "bot" 0 [] [lit "NOTICE #c :a\\\x01b" ++ [13], [10]]).map
      (fun m => (m.cmd, m.args)) = [(lit "NOTICE", [lit "#c", lit "a\\\x01b"])] :=
  (text_delivered_iff .sendnotice "#c" "a\\\x01b" "bot" 0 _ (by decide +kernel)
    (by decide +kernel)).mpr (by
      rintro ⟨mid, -, h⟩
      simp [lit] at h)

/-- `\x01PING\x01` is sent as it is and becomes a CTCP. -/
theorem text_becomes_ctcp : Middle (lit "#c") ∧
    (received "bot" 0 [] [TextCall.line .sendprivmsg "#c" "\x01PING\x01"]).map
      (fun m => (m.cmd, m.args)) = [(lit ":CTCP", [lit "#c", lit "PING"])] ∧
    (received "bot" 0 [] [TextCall.line .sendprivmsg "#c" "\x01PING\x01"]).map
      (fun m => (m.cmd, m.args)) ≠ [(lit "PRIVMSG", [lit "#c", lit "\x01PING\x01"])] := by
  decide +kernel

end TuxBot.Irc
