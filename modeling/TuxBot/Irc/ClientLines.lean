import TuxBot.Irc.ClientFlow
import TuxBot.Irc.Delivery

/-! What a server reads of a connection: lines that were sent, and the QUIT. -/
namespace TuxBot.Irc

open TuxBot.Lua TuxBot.Lua.Eff TuxBot.Machine

variable {env : Env} {w u : World} {c : Nat} {lines : List Bytes} {sent buf : Bytes}

/-! ### The pieces of a part of the stream -/

/-- What a server reads of whole lines: their quoted texts, apart from empty ones. -/
def pieces (lines : List Bytes) : List Bytes := (lines.map lowlevelQuote).filter (· ≠ [])

theorem pieces_append (as bs : List Bytes) : pieces (as ++ bs) = pieces as ++ pieces bs := by
  simp [pieces]

/-- A terminator ends the text of a line. -/
theorem scan_quoted (line : Bytes) {d : UInt8} (hd : isCrlf d = true) (s : Bytes) :
    scan [] (lowlevelQuote line ++ d :: s) = (pieces [line] ++ (scan [] s).1, (scan [] s).2) := by
  rw [scan_append, scan_run [] (lowlevelQuote_no_crlf line)]
  by_cases hline : lowlevelQuote line = []
  · simp [scan, hd, hline, pieces]
  · simp [scan, hd, hline, pieces]

theorem scan_terminator {d : UInt8} (hd : isCrlf d = true) (s : Bytes) :
    scan [] (d :: s) = scan [] s := by simp [scan, hd]

/-- A first part of the stream of some lines has the pieces of the first of them. What is unfinished
of the next one is continued by the rest of the stream. -/
theorem scan_part (h : sent ++ buf = (lines.map wireLine).flatten) :
    ∃ n, (scan [] sent).1 = pieces (lines.take n) ∧ ((scan [] sent).2 ≠ [] →
      ∃ line unsent rest, lines[n]? = some line ∧ (scan [] sent).2 ++ unsent = lowlevelQuote line ∧
        buf = unsent ++ 13 :: rest) := by
  induction lines generalizing sent with
  | nil =>
    obtain ⟨rfl, -⟩ := List.append_eq_nil_iff.mp (by simpa using h)
    exact ⟨0, rfl, fun hne => absurd rfl hne⟩
  | cons line lines ih =>
    have hstream : sent ++ buf =
        lowlevelQuote line ++ 13 :: 10 :: (lines.map wireLine).flatten := by
      simpa [wireLine] using h
    rcases List.append_eq_append_iff.mp hstream with ⟨unsent, hline, hbuf⟩ | ⟨more, hsent, hmore⟩
    · -- the line itself is not sent completely
      have hfree : ∀ b ∈ sent, isCrlf b = false := fun b hb =>
        lowlevelQuote_no_crlf line b (hline ▸ List.mem_append_left _ hb)
      rw [scan_run [] hfree]
      exact ⟨0, rfl, fun _ => ⟨line, unsent, _, rfl, hline.symm, hbuf⟩⟩
    · rcases more with - | ⟨d, more⟩
      · rw [List.append_nil] at hsent
        subst hsent
        rw [scan_run [] (lowlevelQuote_no_crlf line)]
        exact ⟨0, rfl, fun _ => ⟨line, [], _, rfl, List.append_nil _, by simpa using hmore.symm⟩⟩
      obtain ⟨rfl, hlf⟩ := List.cons.inj hmore
      rcases more with - | ⟨d, more⟩
      · refine ⟨1, ?_, fun hne => ?_⟩
        · rw [hsent, scan_quoted line rfl]
          simp [scan]
        · rw [hsent, scan_quoted line rfl] at hne
          exact absurd rfl hne
      · obtain ⟨rfl, hlines⟩ := List.cons.inj hlf
        obtain ⟨n, hn, hrest⟩ := ih hlines.symm
        have hscan : scan [] sent = (pieces [line] ++ (scan [] more).1, (scan [] more).2) := by
          rw [hsent, scan_quoted line rfl, scan_terminator rfl]
        rw [hscan]
        refine ⟨n + 1, ?_, hrest⟩
        rw [hn, List.take_succ_cons, ← pieces_append]
        rfl

/-! ### Sending, and quitting -/

/-- What the callbacks of events may do here: send lines, trigger events and set the nick. -/
inductive Speaks (env : Env) : World → World → Prop where
  | refl (w : World) : Speaks env w w
  | send {w u : World} (line : Bytes) : Speaks env w u →
    u.session.state = .connected ∨ u.session.state = .registering →
    Speaks env w ((Client.send env (wireLine line)).pcall u).2
  | note {w u : World} (events : List ClientEvent) (nick : Bytes) : Speaks env w u →
    Speaks env w { u with events, session := { u.session with nick } }

def Env.SendsLines (env : Env) : Prop := ∀ event w, Speaks env w (env.callback event w)

/-- The calls, and the event of a writable socket. -/
inductive TalkInput where
  | sendmessage (cmd : Bytes) (args : List (Option Bytes))
  | sendmessageline (line : Bytes)
  | disconnect (arg : Client.QuitArg)
  | writable

/-- A Client, and the argument of the `disconnect` that sent a QUIT. -/
structure Talk where
  world : World
  quit : Option Client.QuitArg

/-- An error that a call raises goes to the caller. -/
def Talk.step (env : Env) (s : Talk) : TalkInput → Option Talk
  | .sendmessage cmd args =>
    some { s with world := ((Client.sendmessage env cmd args).pcall s.world).2 }
  | .sendmessageline line =>
    some { s with world := ((Client.sendmessageline env line).pcall s.world).2 }
  | .disconnect arg => some {
      world := ((Client.disconnect env arg).pcall s.world).2
      quit := if s.world.session.state = .connected then some arg else s.quit }
  | .writable => some { s with world := ((Client.onWritable env).pcall s.world).2 }

/-- What `_send` was given for a socket. -/
def passedTo (w : World) (c : Nat) : List Bytes :=
  (w.passed.filter fun e => e.1 = c).map Prod.snd

/-- What a socket accepted, cut at CR and LF, is the first of the lines that were sent, whole and in
order, and after them at most the QUIT. -/
def WholeLines (env : Env) (c : Nat) (s : Talk) : Prop :=
  ∃ lines first : List Bytes, passedTo s.world c = lines.map wireLine ∧ first <+: lines ∧
    ((scan [] (traffic s.world.wire c)).1 = pieces first ∨
      ∃ arg, s.quit = some arg ∧
        (scan [] (traffic s.world.wire c)).1 = pieces first ++ [Client.quitLine env arg])

/-- The world in which `disconnect` writes to the socket: the event was triggered. -/
def quitting (env : Env) (arg : Client.QuitArg) (w : World) : World :=
  env.callback (.sentmessage (Client.quitLine env arg) none)
    { w with events := w.events ++ [.sentmessage (Client.quitLine env arg) none] }

/-- The socket has accepted a part of the text of a line, but not all of it. -/
def Cut (c : Nat) (w : World) : Prop :=
  (scan [] (traffic w.wire c)).2 ≠ [] ∧ ∀ buf, w.sendbuf = some buf → ∀ b ∈ buf.head?, isCrlf b = false

/-- A QUIT is sent between two lines, and is one line. -/
def QuitsBetween (env : Env) (c : Nat) (s : Talk) (i : TalkInput) : Prop :=
  ∀ arg, i = .disconnect arg → s.world.session.state = .connected →
    ¬ Cut c (quitting env arg s.world) ∧ ∀ b ∈ Client.quitLine env arg, isCrlf b = false

/-- A Client over the socket `c`, which was given lines only. -/
structure Talking (env : Env) (c : Nat) (w : World) : Prop where
  live : Live env False 0 w
  conn : w.conn = some c
  lines : ∃ lines : List Bytes, passedTo w c = lines.map wireLine

theorem sends_of_speaks (h : Speaks env w u) : Sends env w u := by
  induction h with
  | refl => exact .refl _
  | send line _ hup ih => exact .send _ ih hup
  | note events nick _ ih => exact .note events nick ih

theorem harmless_of_sendsLines (h : env.SendsLines) : env.Harmless := fun event w =>
  sends_of_speaks (h event w)

theorem traffic_passedTo (w : World) (c : Nat) : traffic w.passed c = (passedTo w c).flatten := by
  unfold passedTo
  induction w.passed with
  | nil => rfl
  | cons e log ih =>
    have hcons : traffic (e :: log) c = (if e.1 = c then e.2 else []) ++ traffic log c := rfl
    rw [hcons, ih]
    by_cases he : e.1 = c
    · simp [he]
    · simp [he]

/-- A computation that sends no line passes nothing on. -/
def Silent (w u : World) : Prop := u.conn = w.conn ∧ u.passed = w.passed

theorem silent_refl (w : World) : Silent w w := ⟨rfl, rfl⟩

theorem silent_trans (a b c : World) (hab : Silent a b) (hbc : Silent b c) : Silent a c :=
  ⟨hbc.1.trans hab.1, hbc.2.trans hab.2⟩

theorem silent_addWritableHandler (w : World) : Silent w w.addWritableHandler := by
  unfold World.addWritableHandler
  split
  · exact silent_refl w
  · exact silent_refl w

theorem silent_keepUnsent {unsent : Bytes} : Moves Silent (Client.keepUnsent unsent) :=
  moves_modify fun w => silent_addWritableHandler { w with sendbuf := some unsent }

theorem silent_connSend {data : Bytes} : Moves Silent (Client.connSend env data) := by
  intro s
  refine triple_get_bind fun w hw => ?_
  subst hw
  cases w.conn with
  | none => exact triple_throw fun _ h => h ▸ silent_refl _
  | some conn =>
    exact triple_bind (Q := fun _ => Silent w) (triple_modify fun u hu => hu ▸ ⟨rfl, rfl⟩)
      fun _ => triple_pure fun _ h => h

theorem silent_flush : Moves Silent (Client.flush env) := by
  have hclear : Moves Silent (modify fun w => { w with sendbuf := some [] } : Eff World Unit) :=
    moves_modify silent_refl
  refine moves_bind silent_trans (moves_get silent_refl) fun w => ?_
  cases w.sendbuf with
  | none => exact moves_throw silent_refl
  | some buf =>
    cases buf with
    | nil => exact moves_pure silent_refl
    | cons b buf =>
      refine moves_bind silent_trans silent_connSend fun result => ?_
      cases result with
      | sent => exact hclear
      | error err bytessent => exact moves_ite silent_keepUnsent hclear

/-- The socket was given lines only. -/
def Spoken (c : Nat) (w : World) : Prop :=
  w.conn = some c ∧ ∃ lines : List Bytes, passedTo w c = lines.map wireLine

theorem spoken_of_silent (h : Spoken c w) (hsilent : Silent w u) : Spoken c u := by
  obtain ⟨hconn, lines, hlines⟩ := h
  refine ⟨hsilent.1.trans hconn, lines, ?_⟩
  rw [passedTo, hsilent.2]
  exact hlines

theorem spoken_of_moves {α : Type} {m : Eff World α} (hm : Moves Silent m) :
    Triple (Spoken c) m (fun _ => Spoken c) (Spoken c) :=
  triple_of_moves hm fun _ _ hsilent h => spoken_of_silent h hsilent

theorem spoken_send {line : Bytes} : Triple (Spoken c) (Client.send env (wireLine line))
    (fun _ => Spoken c) (Spoken c) := by
  refine triple_bind (Q := fun _ => Spoken c) (triple_modify fun w hw => ?_) fun _ => ?_
  · obtain ⟨hconn, lines, hlines⟩ := hw
    rw [pass_eq hconn]
    refine ⟨hconn, lines ++ [line], ?_⟩
    have hlast : passedTo { w with passed := w.passed ++ [(c, wireLine line)] } c =
        passedTo w c ++ [wireLine line] := by simp [passedTo]
    rw [hlast, hlines, List.map_append]
    rfl
  · apply spoken_of_moves
    refine moves_bind silent_trans (moves_get silent_refl) fun w => ?_
    cases w.sendbuf with
    | none => exact moves_throw silent_refl
    | some buf =>
      cases buf with
      | cons b buf => exact silent_keepUnsent
      | nil =>
        refine moves_bind silent_trans silent_connSend fun result => ?_
        cases result with
        | sent => exact moves_pure silent_refl
        | error err bytessent => exact moves_ite silent_keepUnsent (moves_pure silent_refl)

theorem spoken_speaks (h : Speaks env w u) (hw : Spoken c w) : Spoken c u := by
  induction h with
  | refl => exact hw
  | send line _ _ ih => exact triple_after spoken_send ih
  | note events nick _ ih => exact spoken_of_silent ih ⟨rfl, rfl⟩

theorem talking_iff : Talking env c w ↔ Live env False 0 w ∧ Spoken c w :=
  ⟨fun h => ⟨h.live, h.conn, h.lines⟩, fun h => ⟨h.1, h.2.1, h.2.2⟩⟩

section SendsLines

variable (hcalls : env.SendsLines)
include hcalls

theorem talking_trigger {event : ClientEvent} :
    Triple (Talking env c) (Client.trigger env event) (fun _ => Talking env c) fun _ => False := by
  refine triple_modify fun w h => ?_
  have hspeaks := hcalls event { w with events := w.events ++ [event] }
  have hnoted : Live env False 0 { w with events := w.events ++ [event] } :=
    ⟨h.live.state, h.live.timer, h.live.recvbuf, h.live.connstate, h.live.pinged, h.live.flow,
      h.live.fresh⟩
  exact talking_iff.mpr ⟨live_sends (sends_of_speaks hspeaks) hnoted,
    spoken_speaks hspeaks (spoken_of_silent ⟨h.conn, h.lines⟩ ⟨rfl, rfl⟩)⟩

omit hcalls in
theorem talking_send {line : Bytes} : Triple (Talking env c) (Client.send env (wireLine line))
    (fun _ => Talking env c) fun _ => False :=
  triple_conseq (triple_and keepsLive_send spoken_send) (fun _ h => talking_iff.mp h)
    (fun _ _ h => talking_iff.mpr h) fun _ h => h.1

theorem talking_sendmessageline {line : Bytes} : Triple (Talking env c)
    (Client.sendmessageline env line) (fun _ => Talking env c) fun _ => False := by
  refine triple_get_bind fun w h => triple_at (P := Talking env c) ?_ h
  rw [if_pos h.live.state]
  exact triple_bind (talking_trigger hcalls) fun _ => talking_send

omit hcalls in
theorem talking_onWritable :
    Triple (Talking env c) (Client.onWritable env) (fun _ => Talking env c) fun _ => False := by
  refine triple_bind (Q := fun _ => Talking env c) ?_ fun _ => triple_pure fun _ h => h
  refine live_onReady (fun w h => h.live) ?_
  exact triple_conseq (triple_and live_flush (spoken_of_moves silent_flush))
    (fun _ h => ⟨⟨h.live, Nat.zero_le _⟩, h.conn, h.lines⟩) (fun _ _ h => talking_iff.mpr h)
    fun _ h => h.1

omit hcalls in
/-- While the Client talks the server has read some of the lines. -/
theorem scan_talking (hplain : env.Plain) (h : Talking env c w) : ∃ (lines : List Bytes) (n : Nat),
    passedTo w c = lines.map wireLine ∧ (scan [] (traffic w.wire c)).1 = pieces (lines.take n) ∧
      ((scan [] (traffic w.wire c)).2 ≠ [] → ∃ line unsent rest, lines[n]? = some line ∧
        (scan [] (traffic w.wire c)).2 ++ unsent = lowlevelQuote line ∧
        w.sendbuf = some (unsent ++ 13 :: rest)) := by
  obtain ⟨conn, buf, hconn, hbuf, hpath, -⟩ := h.live.flow
  obtain rfl := Option.some.inj (hconn.symm.trans h.conn)
  obtain ⟨lines, hlines⟩ := h.lines
  have hstream := hpath hplain
  rw [traffic_passedTo, hlines] at hstream
  obtain ⟨n, hn, hrest⟩ := scan_part hstream
  refine ⟨lines, n, hlines, hn, fun hne => ?_⟩
  obtain ⟨line, unsent, rest, hline, hquoted, rfl⟩ := hrest hne
  exact ⟨line, unsent, rest, hline, hquoted, hbuf⟩

omit hcalls in
theorem wholeLines_of_talking {s : Talk} (hplain : env.Plain) (h : Talking env c s.world) :
    WholeLines env c s := by
  obtain ⟨lines, n, hlines, hn, -⟩ := scan_talking hplain h
  exact ⟨lines, lines.take n, hlines, List.take_prefix n lines, Or.inl hn⟩

omit hcalls in
/-- A part of the QUIT and its terminators, read after a terminator. -/
theorem scan_quit {quit part : Bytes} (hne : quit ≠ []) (hquit : ∀ b ∈ quit, isCrlf b = false)
    (hpart : part <+: 10 :: quit ++ [13, 10]) :
    (scan [] part).1 = [] ∨ (scan [] part).1 = [quit] := by
  obtain ⟨unsent, hunsent⟩ := hpart
  rcases part with - | ⟨d, part⟩
  · exact Or.inl rfl
  obtain ⟨rfl, htail⟩ := List.cons.inj hunsent
  rw [scan_terminator rfl]
  rcases List.append_eq_append_iff.mp htail with ⟨more, hmore, -⟩ | ⟨more, hmore, hlast⟩
  · left
    rw [scan_run [] fun b hb => hquit b (hmore ▸ List.mem_append_left _ hb)]
  · rw [hmore, scan_append, scan_run [] hquit, List.nil_append]
    rcases more with - | ⟨d, more⟩
    · exact Or.inl rfl
    obtain ⟨rfl, hlf⟩ := List.cons.inj hlast
    have hend : (scan [] more).1 = [] := by
      rcases more with - | ⟨d, more⟩
      · rfl
      obtain ⟨rfl, hnil⟩ := List.cons.inj hlf
      obtain ⟨rfl, -⟩ := List.append_eq_nil_iff.mp hnil.symm
      rfl
    right
    simp [scan, isCrlf, oneOf, hne, hend]

omit hcalls in
/-- Between two lines the QUIT is read as a line of its own. -/
theorem scan_quitting {quit part : Bytes} (hplain : env.Plain) (h : Talking env c w)
    (hcut : ¬ Cut c w) (hne : quit ≠ []) (hquit : ∀ b ∈ quit, isCrlf b = false)
    (hpart : part <+: 13 :: 10 :: quit ++ [13, 10]) :
    ∃ lines first : List Bytes, passedTo w c = lines.map wireLine ∧ first <+: lines ∧
      ((scan [] (traffic w.wire c ++ part)).1 = pieces first ∨
        (scan [] (traffic w.wire c ++ part)).1 = pieces first ++ [quit]) := by
  obtain ⟨lines, n, hlines, hn, hrest⟩ := scan_talking hplain h
  rcases part with - | ⟨d, part⟩
  · rw [List.append_nil]
    exact ⟨lines, lines.take n, hlines, List.take_prefix n lines, Or.inl hn⟩
  obtain ⟨unsent, hunsent⟩ := hpart
  obtain ⟨rfl, htail⟩ := List.cons.inj hunsent
  have hread := scan_quit hne hquit ⟨unsent, htail⟩
  rw [scan_append, hn]
  by_cases hpiece : (scan [] (traffic w.wire c)).2 = []
  · rw [hpiece, scan_terminator rfl]
    refine ⟨lines, lines.take n, hlines, List.take_prefix n lines, ?_⟩
    rcases hread with hread | hread
    · exact Or.inl (by rw [hread, List.append_nil])
    · exact Or.inr (by rw [hread])
  · obtain ⟨line, unsent, rest, hline, hquoted, hbuf⟩ := hrest hpiece
    -- the whole text of the line was sent, since a terminator is next
    have hwhole : unsent = [] := by
      by_contra hunsent
      obtain ⟨b, unsent, rfl⟩ := List.exists_cons_of_ne_nil hunsent
      refine hcut ⟨hpiece, fun buf hsome b' hb' => ?_⟩
      obtain rfl := Option.some.inj (hbuf.symm.trans hsome)
      obtain rfl := Option.some.inj hb'
      exact lowlevelQuote_no_crlf line _ (hquoted ▸ List.mem_append_right _ List.mem_cons_self)
    rw [hwhole, List.append_nil] at hquoted
    have hpieces : pieces (lines.take n) ++ [lowlevelQuote line] = pieces (lines.take (n + 1)) := by
      have hone : pieces [line] = [lowlevelQuote line] := by
        rw [hquoted] at hpiece
        simp [pieces, hpiece]
      rw [List.take_add_one, pieces_append, hline, Option.toList_some, hone]
    have hscan : (scan (scan [] (traffic w.wire c)).2 (13 :: part)).1 =
        lowlevelQuote line :: (scan [] part).1 := by
      rw [hquoted] at hpiece ⊢
      simp [scan, isCrlf, oneOf, hpiece]
    have hfirst : pieces (lines.take n) ++ (scan (scan [] (traffic w.wire c)).2 (13 :: part)).1 =
        pieces (lines.take (n + 1)) ++ (scan [] part).1 := by
      rw [hscan, ← hpieces, List.append_assoc]
      rfl
    rw [hfirst]
    refine ⟨lines, lines.take (n + 1), hlines, List.take_prefix _ lines, ?_⟩
    rcases hread with hread | hread
    · exact Or.inl (by rw [hread, List.append_nil])
    · exact Or.inr (by rw [hread])

omit hcalls in
theorem quitLine_ne (arg : Client.QuitArg) : Client.quitLine env arg ≠ [] := by
  have hquit : lit "QUIT" ≠ [] := by decide +kernel
  have hcolon : lit "QUIT :" ≠ [] := by decide +kernel
  cases arg with
  | absent => exact hquit
  | no => exact hquit
  | value =>
    unfold Client.quitLine
    cases env.info.quitmessage with
    | none => exact hquit
    | some msg => exact List.append_ne_nil_of_left_ne_nil hcolon msg

omit hcalls in
/-- The QUIT goes to the socket once the event was triggered. -/
theorem sendQuit_eq {arg : Client.QuitArg} (hstate : w.session.state = .connected)
    (hconn : (quitting env arg w).conn = some c) : ∃ part,
      part <+: 13 :: 10 :: Client.quitLine env arg ++ [13, 10] ∧
      Client.sendQuit env arg w = .ok ⟨⟩
        { quitting env arg w with wire := (quitting env arg w).wire ++ [(c, part)] } := by
  let data := lit "\r\n" ++ Client.quitLine env arg ++ lit "\r\n"
  have hpart : (env.send (quitting env arg w) data).accepted data <+: data := by
    have hsplit := accepted_append_unsent data (env.send (quitting env arg w) data)
    exact ⟨_, hsplit⟩
  refine ⟨_, hpart, ?_⟩
  have hnoted : Client.trigger env (.sentmessage (Client.quitLine env arg) none) w =
      .ok ⟨⟩ (quitting env arg w) := rfl
  have hsend : Client.connSend env data (quitting env arg w) = _ := connSend_eq hconn
  rw [Client.sendQuit, get_bind_eq, if_pos hstate, bind_of_ok hnoted, bind_of_ok hsend]
  rfl

/-- A Client that is disconnected, and has no socket, with these logs. -/
structure Ended (wire passed : List (Nat × Bytes)) (w : World) : Prop where
  state : w.session.state = .disconnected
  conn : w.conn = none
  wire : w.wire = wire
  passed : w.passed = passed

omit hcalls in
theorem ended_note {wire passed : List (Nat × Bytes)} (h : Ended wire passed w)
    (hsends : Sends env w u) : Ended wire passed u := by
  have hidle : Idle w := by simp [Idle, h.state]
  obtain ⟨events, nick, rfl⟩ := sends_idle hsends hidle
  exact ⟨h.state, h.conn, h.wire, h.passed⟩

/-- Once the QUIT is sent or not, nothing more goes to the socket. -/
theorem ended_disconnect {arg : Client.QuitArg} {v : World}
    (hquit : Client.sendQuit env arg w = .ok ⟨⟩ v) (hlinked : Linked v) (hup : ¬ Idle w) :
    Ended v.wire v.passed ((Client.disconnect env arg).pcall w).2 := by
  suffices h : Triple (· = w) (Client.disconnect env arg) (fun _ => Ended v.wire v.passed)
      fun _ => False from triple_after_return h rfl
  refine triple_get_bind fun u hu => ?_
  subst u
  have hstates : w.session.state ≠ .disconnected ∧ w.session.state ≠ .reconnecting := by
    rcases not_not.mp hup with hs | hs
    · simp [hs]
    · simp [hs]
  rw [if_neg hstates.1, if_neg hstates.2]
  refine triple_bind (Q := fun _ u => Linked u ∧ u.wire = v.wire ∧ u.passed = v.passed) ?_
    fun _ => ?_
  · intro u hu
    subst u
    rw [hquit]
    exact ⟨hlinked, rfl, rfl⟩
  refine triple_bind (Q := fun _ u => Linked u ∧ u.wire = v.wire ∧ u.passed = v.passed) ?_
    fun _ => ?_
  · refine triple_get_bind fun u hu => ?_
    obtain ⟨i, hi⟩ := Option.isSome_iff_exists.mp hu.1.timer
    rw [hi]
    exact triple_modify fun x hx => hx ▸ ⟨⟨hu.1.timer, hu.1.conn⟩, hu.2⟩
  refine triple_bind (Q := fun _ u => Linked u ∧ u.wire = v.wire ∧ u.passed = v.passed)
    (triple_modify fun u hu => ?_) fun _ => ?_
  · exact ⟨linked_removeHandlers hu.1, of_removeHandlers
      (P := fun x => x.wire = v.wire ∧ x.passed = v.passed) fun _ _ => hu.2⟩
  refine triple_bind (Q := fun _ u => u.conn = none ∧ u.wire = v.wire ∧ u.passed = v.passed) ?_
    fun _ => ?_
  · refine triple_get_bind fun u hu => ?_
    obtain ⟨conn, hconn⟩ := Option.isSome_iff_exists.mp hu.1.conn
    rw [hconn]
    exact triple_modify fun x hx => hx ▸ ⟨rfl, hu.2⟩
  refine triple_bind (Q := fun _ => Ended v.wire v.passed) (triple_modify fun u hu =>
    ⟨rfl, hu.1, hu.2.1, hu.2.2⟩) fun _ => triple_modify fun u hu => ?_
  exact ended_note (w := { u with events := u.events ++ [_] })
    ⟨hu.state, hu.conn, hu.wire, hu.passed⟩ (harmless_of_sendsLines hcalls _ _)

omit hcalls in
/-- After that no call and no event does anything. -/
theorem ended_step {wire passed : List (Nat × Bytes)} {s t : Talk} {i : TalkInput}
    (h : Ended wire passed s.world) (hstep : s.step env i = some t) : t = s := by
  have hstate : ¬ (s.world.session.state = .connected ∨ s.world.session.state = .registering) := by
    simp [h.state]
  have hline : ∀ line, ((Client.sendmessageline env line).pcall s.world).2 = s.world := by
    intro line
    rw [Client.sendmessageline, pcall, get_bind_eq, if_neg hstate]
    rfl
  cases i with
  | sendmessage cmd args =>
    obtain rfl := Option.some.inj hstep
    rw [Client.sendmessage, hline]
  | sendmessageline line =>
    obtain rfl := Option.some.inj hstep
    rw [hline]
  | disconnect arg =>
    obtain rfl := Option.some.inj hstep
    have hreturn : Client.disconnect env arg s.world = .ok ⟨⟩ s.world := by
      rw [Client.disconnect, get_bind_eq, if_pos h.state]
      rfl
    rw [pcall, hreturn, if_neg (by simp [h.state])]
  | writable =>
    obtain rfl := Option.some.inj hstep
    have hflush : ((Client.onWritable env).pcall s.world).2 = s.world := by
      refine triple_after (P := (· = s.world)) (E := (· = s.world)) ?_ rfl
      refine triple_bind (Q := fun _ => (· = s.world)) ?_ fun _ => triple_pure fun _ hu => hu
      rintro u rfl
      rw [onReady_eq (by simp [h.state]) (by simp [h.state])]
      refine triple_get_bind (P := (· = s.world)) (fun u hu => ?_) s.world rfl
      subst hu
      cases s.world.sendbuf with
      | none => exact triple_throw fun _ hu => hu
      | some buf =>
        cases buf with
        | nil => exact triple_pure fun _ hu => hu
        | cons b buf =>
          refine triple_bind (Q := fun _ _ => False) ?_ fun _ => fun _ hu => hu.elim
          refine triple_get_bind fun u hu => ?_
          rw [hu, h.conn]
          exact triple_throw fun _ hx => hx
    rw [hflush]

/-- The Client talks, or is disconnected after whole lines. -/
def Unharmed (env : Env) (c : Nat) (s : Talk) : Prop :=
  Talking env c s.world ∨ (∃ wire passed, Ended wire passed s.world) ∧ WholeLines env c s

omit hcalls in
theorem wholeLines_of_unharmed {s : Talk} (hplain : env.Plain) (h : Unharmed env c s) :
    WholeLines env c s := by
  rcases h with h | h
  · exact wholeLines_of_talking hplain h
  · exact h.2

/-- A Client that disconnects leaves whole lines, and the QUIT if it was connected. -/
theorem unharmed_disconnect {s t : Talk} {arg : Client.QuitArg} (hplain : env.Plain)
    (h : Talking env c s.world) (hquits : QuitsBetween env c s (.disconnect arg))
    (hstep : s.step env (.disconnect arg) = some t) : Unharmed env c t := by
  obtain rfl := Option.some.inj hstep
  right
  have hup : ¬ Idle s.world := not_not.mpr h.live.state
  by_cases hstate : s.world.session.state = .connected
  · have hv : Talking env c (quitting env arg s.world) := talking_trigger hcalls s.world h
    obtain ⟨part, hpart, hquit⟩ := sendQuit_eq hstate hv.conn
    have hended := ended_disconnect hcalls hquit ⟨hv.live.timer, by simp [hv.conn]⟩ hup
    obtain ⟨hcut, hcrlf⟩ := hquits arg rfl hstate
    obtain ⟨lines, first, hlines, hfirst, hread⟩ :=
      scan_quitting hplain hv hcut (quitLine_ne arg) hcrlf hpart
    refine ⟨⟨_, _, hended⟩, lines, first, ?_, hfirst, ?_⟩
    · rw [passedTo, hended.passed]
      exact hlines
    · rw [hended.wire, traffic_snoc, if_pos hstate]
      rcases hread with hread | hread
      · exact Or.inl hread
      · exact Or.inr ⟨arg, rfl, hread⟩
  · have hquit : Client.sendQuit env arg s.world = .ok ⟨⟩ s.world := by
      rw [Client.sendQuit, get_bind_eq, if_neg hstate]
      rfl
    have hended := ended_disconnect hcalls hquit (linked_of_live h.live) hup
    obtain ⟨lines, n, hlines, hn, -⟩ := scan_talking hplain h
    refine ⟨⟨_, _, hended⟩, lines, lines.take n, ?_, List.take_prefix n lines, Or.inl ?_⟩
    · rw [passedTo, hended.passed]
      exact hlines
    · rw [hended.wire]
      exact hn

theorem unharmed_step {s t : Talk} {i : TalkInput} (hplain : env.Plain) (h : Unharmed env c s)
    (hquits : QuitsBetween env c s i) (hstep : s.step env i = some t) : Unharmed env c t := by
  rcases h with h | h
  · cases i with
    | sendmessage cmd args =>
      obtain rfl := Option.some.inj hstep
      exact Or.inl (triple_after_return (talking_sendmessageline hcalls) h)
    | sendmessageline line =>
      obtain rfl := Option.some.inj hstep
      exact Or.inl (triple_after_return (talking_sendmessageline hcalls) h)
    | disconnect arg => exact unharmed_disconnect hcalls hplain h hquits hstep
    | writable =>
      obtain rfl := Option.some.inj hstep
      exact Or.inl (triple_after_return talking_onWritable h)
  · obtain ⟨wire, passed, hended⟩ := h.1
    obtain rfl := ended_step hended hstep
    exact Or.inr h

end SendsLines

/-- In every run over a plain socket in which no QUIT is sent while a line is cut, nor one of several
lines, the server reads whole lines only: those that were sent, in order, and then the QUIT. -/
theorem server_reads_whole_lines (hcalls : env.SendsLines) (hplain : env.Plain)
    (hw : Talking env c w) {inputs : List TalkInput} {s : Talk}
    (hrun : run (Talk.step env) ⟨w, none⟩ inputs = some s)
    (hquits : Along (Talk.step env) (QuitsBetween env c) ⟨w, none⟩ inputs) : WholeLines env c s :=
  wholeLines_of_unharmed hplain (run_keeps_along (I := Unharmed env c)
    (fun _ _ _ h hquits hstep => unharmed_step hcalls hplain h hquits hstep) (Or.inl hw) hquits hrun)

/-- A connected Client whose socket has been given nothing. -/
def World.fresh : World :=
  { World.new "tux" 0 with
    session := ⟨.connected, "tux", .rfc1459, .default⟩
    connstate := some ⟨"+", none, none⟩
    conn := some 0
    sockets := 1
    timer := some 0
    recvbuf := some []
    sendbuf := some []
    pingtime := some 0 }

theorem talking_fresh : Talking env 0 .fresh where
  live := ⟨Or.inl rfl, rfl, rfl, rfl, Or.inr fun _ => rfl,
    ⟨0, [], rfl, rfl, fun _ => rfl, fun hne => absurd rfl hne⟩, Nat.zero_le _⟩
  conn := rfl
  lines := ⟨[], rfl⟩

theorem sendsLines_slow : Env.slow.SendsLines := fun _ w => .refl w

theorem plain_slow : Env.slow.Plain := fun _ _ => Or.inr ⟨5, rfl⟩

/-- Ended a socket that takes five bytes at a time, a line is flushed before the QUIT. -/
theorem server_reads_whole_lines_flushed :
    ∃ s, run (Talk.step .slow) ⟨.fresh, none⟩ [.sendmessageline "PING :a", .writable,
      .disconnect .value] = some s ∧ WholeLines .slow 0 s := by
  obtain ⟨s, hrun⟩ : ∃ s, run (Talk.step .slow) ⟨.fresh, none⟩ [.sendmessageline "PING :a", .writable,
    .disconnect .value] = some s := ⟨_, rfl⟩
  refine ⟨s, hrun, server_reads_whole_lines sendsLines_slow plain_slow talking_fresh hrun ?_⟩
  refine ⟨nofun, fun t ht => ⟨nofun, fun u hu => ⟨?_, fun _ _ => trivial⟩⟩⟩
  obtain rfl := Option.some.inj ht
  obtain rfl := Option.some.inj hu
  rintro arg ⟨⟩ -
  exact ⟨fun hcut => hcut.1 (by decide +kernel), by decide +kernel⟩

/-- Without the flush the server reads the first five bytes of the line. -/
theorem server_reads_cut_line :
    ∃ s, run (Talk.step .slow) ⟨.fresh, none⟩ [.sendmessageline "PRIVMSG #c :hello",
      .disconnect .absent] = some s ∧ ¬ WholeLines .slow 0 s := by
  refine ⟨_, rfl, ?_⟩
  rintro ⟨lines, first, hlines, hfirst, hread⟩
  have hpassed : lines.map wireLine = [wireLine "PRIVMSG #c :hello"] := hlines.symm.trans rfl
  obtain ⟨line, rest, rfl, hline, hrest⟩ := List.map_eq_cons_iff.mp hpassed
  obtain rfl := List.map_eq_nil_iff.mp hrest
  have hpieces : (scan [] (lit "PRIVM\x0d\nQUI")).1 = [lit "PRIVM"] := by decide +kernel
  have hread' : [lit "PRIVM"] = pieces first ∨ [lit "PRIVM"] = pieces first ++ [lit "QUIT"] := by
    rcases hread with hread | ⟨arg, harg, hread⟩
    · exact Or.inl (hpieces.symm.trans hread)
    · obtain rfl := Option.some.inj harg
      exact Or.inr (hpieces.symm.trans hread)
  rcases List.prefix_cons_iff.mp hfirst with rfl | ⟨first, rfl, hnil⟩
  · rcases hread' with h | h
    · cases h
    · exact absurd h (by decide +kernel)
  obtain rfl := List.prefix_nil.mp hnil
  have hquoted : lowlevelQuote line = lowlevelQuote "PRIVMSG #c :hello" :=
    List.append_cancel_right hline
  have hwhole : pieces [line] = [lit "PRIVMSG #c :hello"] := by
    rw [pieces, List.map_singleton, hquoted]
    decide +kernel
  rw [hwhole] at hread'
  exact absurd hread' (by decide +kernel)

end TuxBot.Irc
