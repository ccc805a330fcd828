import TuxBot.Irc.Wire
import TuxBot.Lua.PlainPattern
import TuxBot.Plugins.Relay

/-! What the relay plugin makes of what is said, and what it does to someone who says what it has
relayed: `feedbackcheck`. -/
namespace TuxBot.Plugins.Relay

open TuxBot.Lua TuxBot.Lua.Pattern TuxBot.Irc

/-- `isrelayed`: the first entry of the configuration that is the channel. -/
def isrelayed (config : Config) (net : Bytes) (mapping : CaseMapping) (originchan : Bytes) :
    Option RelayInfo :=
  config.groups.findSome? fun group =>
    (group.entryOf net mapping originchan).map fun origin => ⟨group, origin⟩

/-- The text of a message for the other channels; `lead`, `opening` and `closing` tell its kind. -/
def saidText (config : Config) (lead opening closing : Bytes) (info : RelayInfo)
    (nick text : Bytes) : Bytes :=
  let origin := info.group.chans.get info.origin
  lead ++ formatString (config.nickfmt nick) ++ opening ++ formatString nick ++
    (if info.group.showchanname then formatString (lit "@" ++ origin.name) else []) ++
    (if info.group.shownetname then formatString (lit "@" ++ origin.net) else []) ++
    closing ++ formatString config.endfmt ++ lit " " ++ formatString text

/-- What the handlers of PRIVMSG, NOTICE and `:CTCP` put into the queue. -/
def onSaid (lead opening closing : Bytes) (config : Config) (net : Bytes) (mapping : CaseMapping)
    (msg : Message) (text : Option Bytes) : Option Event :=
  match msg.sender.nick, msg.args, text with
  | some nick, channel :: _, some text =>
    if isnick nick ∧ ischanname channel then
      (isrelayed config net mapping channel).map fun info =>
        .queued mapping info .privmsg (saidText config lead opening closing info nick text)
    else none
  | _, _, _ => none

def onPrivmsg (config : Config) (net : Bytes) (mapping : CaseMapping) (msg : Message) :
    Option Event :=
  onSaid [] "<" ">" config net mapping msg msg.args[1]?

def onNotice (config : Config) (net : Bytes) (mapping : CaseMapping) (msg : Message) :
    Option Event :=
  onSaid [] "-" "-" config net mapping msg msg.args[1]?

def onCtcp (config : Config) (net : Bytes) (mapping : CaseMapping) (msg : Message) :
    Option Event :=
  if msg.args[1]? = some (lit "ACTION") then
    onSaid "* " [] [] config net mapping msg msg.args[2]?
  else none

/-- `msg_handler`, for what is said. -/
def msgHandler (config : Config) (net : Bytes) (mapping : CaseMapping) (msg : Message) :
    Option Event :=
  if msg.cmd = lit "PRIVMSG" then onPrivmsg config net mapping msg
  else if msg.cmd = lit "NOTICE" then onNotice config net mapping msg
  else if msg.cmd = lit ":CTCP" then onCtcp config net mapping msg
  else none

inductive Punishment where
  | tmpban (chan nick : Bytes) (time : Nat) (message : Bytes)
  | kick (chan nick message : Bytes)
  deriving DecidableEq

/-- `[^%w_]` -/
def special (b : UInt8) : Bool := !(isAlnum b || b == 95)

/-- Both ways begin with a `sendmessage`: a KICK, or the WHO of the tmpban plugin. -/
def punish (tmpban : Bool) (s : Session) (chan nick : Bytes) : Eff (List Punishment) Unit :=
  if s.state = .connected ∨ s.state = .registering then
    modify fun done => done ++
      [if tmpban then .tmpban chan nick 60 "Relay feedback loop"
      else .kick chan nick "Relay feedback loop"]
  else
    throw "irc.Client.sendmessage can only be caled in the \"connected\" and \"registering\" states"

/-- `text:match(sent[3]:gsub('[^%w_]', '%%%1'))`. Both results of `gsub` are arguments of `match`, so
the number of replacements is where the search begins. -/
def saidAgain (sent text : Bytes) : Eff (List Punishment) Bool :=
  match plainItems (escape special sent) with
  | some items => pure (searchFrom items (gsubCount [.one special] sent) text).isSome
  | none => throw "malformed pattern (ends with '%')"

/-- `feedbackcheck`. `relaymsgs` is in the order in which `pairs` goes through it, and the state is
what has been done about the sender. -/
def feedbackcheck (tmpban : Bool) (s : Session) (relaymsgs : List (Bytes × Bytes × Bytes))
    (net chan nick text : Bytes) : Eff (List Punishment) Unit :=
  relaymsgs.forM fun sent => do
    if sent.1 = net ∧ sent.2.1 = s.mapping.lower chan then
      if ← saidAgain sent.2.2 text then
        punish tmpban s chan nick

/-- The texts recorded for a channel. -/
def recorded (relaymsgs : List (Bytes × Bytes × Bytes)) (net chan : Bytes) : List Bytes :=
  (relaymsgs.filter fun sent => sent.1 = net ∧ sent.2.1 = chan).map fun sent => sent.2.2

/-- Where the search for a recorded text begins. -/
def searched (sent text : Bytes) : Bytes := text.drop (sent.countP special - 1)

variable {tmpban : Bool} {s : Session} {relaymsgs : List (Bytes × Bytes × Bytes)}
  {net chan nick text t : Bytes} {done : List Punishment}

theorem special_of_isMagic : ∀ b, isMagic b = true → b ≠ 0 → special b = true :=
  forall_byte (by decide +kernel)

theorem isAlnum_of_special (b : UInt8) (h : special b = true) : isAlnum b = false := by
  rw [special, Bool.not_eq_true', Bool.or_eq_false_iff] at h
  exact h.1

/-- A text without NUL is looked for as it is, in what the number of its special characters leaves
of the message. -/
theorem saidAgain_eq (text : Bytes) (ht : ∀ b ∈ t, b ≠ 0) :
    ∃ said, saidAgain t text = pure said ∧ (said = true ↔ t <:+: searched t text) := by
  have hitems := plainItems_escape special_of_isMagic isAlnum_of_special ht
  refine ⟨(search (textItems t) (searched t text)).isSome, ?_, search_textItems t _⟩
  rw [saidAgain, hitems]
  simp only [searchFrom, gsubCount_one]
  rfl

theorem feedbackcheck_cons (sent : Bytes × Bytes × Bytes)
    (rest : List (Bytes × Bytes × Bytes)) :
    feedbackcheck tmpban s (sent :: rest) net chan nick text =
    (if sent.1 = net ∧ sent.2.1 = s.mapping.lower chan then
      saidAgain sent.2.2 text >>= fun said => if said then punish tmpban s chan nick else pure ⟨⟩
    else pure ⟨⟩) >>= fun _ => feedbackcheck tmpban s rest net chan nick text := rfl

theorem punish_pcall (tmpban : Bool) (s : Session) (chan nick : Bytes) (done : List Punishment) :
    (s.state = .connected ∨ s.state = .registering →
      ∃ p, (punish tmpban s chan nick).pcall done = (some ⟨⟩, done ++ [p])) ∧
    (¬(s.state = .connected ∨ s.state = .registering) →
      (punish tmpban s chan nick).pcall done = (none, done)) := by
  unfold punish
  constructor
  · intro h
    rw [if_pos h]
    exact ⟨_, rfl⟩
  · intro h
    rw [if_neg h]
    rfl

/-- Nothing that was done is undone. -/
theorem feedbackcheck_prefix (tmpban : Bool) (s : Session) (net chan nick text : Bytes)
    (relaymsgs : List (Bytes × Bytes × Bytes)) (done : List Punishment) :
    done <+: ((feedbackcheck tmpban s relaymsgs net chan nick text).pcall done).2 := by
  have hrefl : ∀ done : List Punishment, done <+: done := List.prefix_refl
  have htrans : ∀ a b c : List Punishment, a <+: b → b <+: c → a <+: c := fun _ _ _ =>
    List.IsPrefix.trans
  have hsaid : ∀ sent, Eff.Moves (· <+: ·) (saidAgain sent text) := by
    intro sent
    unfold saidAgain
    cases plainItems (escape special sent) with
    | none => exact Eff.moves_throw hrefl
    | some items => exact Eff.moves_pure hrefl
  have hpunish : Eff.Moves (· <+: ·) (punish tmpban s chan nick) := by
    unfold punish
    exact Eff.moves_ite (Eff.moves_modify fun done => List.prefix_append done _)
      (Eff.moves_throw hrefl)
  refine Eff.moves_pcall (Eff.moves_forM hrefl htrans (fun sent => ?_) relaymsgs) done
  refine Eff.moves_ite (Eff.moves_bind htrans (hsaid sent.2.2) fun said => ?_) (Eff.moves_pure hrefl)
  exact Eff.moves_ite hpunish (Eff.moves_pure hrefl)

/-- The sender is punished exactly if the Client can send and some recorded text is found. -/
theorem feedbackcheck_iff (tmpban : Bool) (s : Session) (net chan nick text : Bytes)
    (hnul : ∀ t ∈ recorded relaymsgs net (s.mapping.lower chan), ∀ b ∈ t, b ≠ 0) :
    ((feedbackcheck tmpban s relaymsgs net chan nick text).pcall []).2 ≠ [] ↔
      (s.state = .connected ∨ s.state = .registering) ∧
        ∃ t ∈ recorded relaymsgs net (s.mapping.lower chan), t <:+: searched t text := by
  induction relaymsgs with
  | nil => simp [feedbackcheck, recorded, Eff.pcall, pure, EStateM.pure]
  | cons sent rest ih =>
    have hrest := ih fun t ht => hnul t (by
      unfold recorded at ht ⊢
      rw [List.filter_cons]
      split_ifs
      · exact List.mem_cons_of_mem _ ht
      · exact ht)
    rw [feedbackcheck_cons]
    by_cases hkey : sent.1 = net ∧ sent.2.1 = s.mapping.lower chan
    · have hrecorded : recorded (sent :: rest) net (s.mapping.lower chan) =
          sent.2.2 :: recorded rest net (s.mapping.lower chan) := by simp [recorded, hkey]
      rw [hrecorded] at hnul ⊢
      obtain ⟨said, heq, hiff⟩ := saidAgain_eq text (hnul _ List.mem_cons_self)
      rw [if_pos hkey, heq, pure_bind]
      by_cases hsaid : sent.2.2 <:+: searched sent.2.2 text
      · rw [if_pos (hiff.mpr hsaid)]
        obtain ⟨hup, hdown⟩ := punish_pcall tmpban s chan nick []
        by_cases hs : s.state = .connected ∨ s.state = .registering
        · obtain ⟨p, hp⟩ := hup hs
          rw [Eff.pcall_bind_some hp]
          have hkept := feedbackcheck_prefix tmpban s net chan nick text rest ([] ++ [p])
          refine iff_of_true (fun hempty => ?_) ⟨hs, _, List.mem_cons_self, hsaid⟩
          rw [hempty] at hkept
          simpa using hkept.length_le
        · rw [Eff.pcall_bind_none (hdown hs)]
          exact iff_of_false (fun h => h rfl) fun h => hs h.1
      · rw [if_neg fun h => hsaid (hiff.mp h), pure_bind, hrest]
        simp [hsaid]
    · have hrecorded : recorded (sent :: rest) net (s.mapping.lower chan) =
          recorded rest net (s.mapping.lower chan) := by simp [recorded, hkey]
      rw [if_neg hkey, pure_bind, hrest, hrecorded]

/-- A message is recognised as feedback exactly when the Client can send and one of the recorded
texts that occur in it does so at or after the place where the search for that text begins. -/
theorem feedback_detected_iff (config : Config) (tmpban : Bool) (s : Session)
    (relaymsgs : List (Bytes × Bytes × Bytes)) (net name nick text : Bytes) (info : RelayInfo)
    (hrelayed : isrelayed config net s.mapping name = some info)
    (hnul : ∀ t ∈ recorded relaymsgs net (s.mapping.lower name), ∀ b ∈ t, b ≠ 0) :
    (((feedbackcheck tmpban s relaymsgs net (info.group.chans.get info.origin).name nick
        text).pcall []).2 ≠ [] ↔
      ∃ t ∈ recorded relaymsgs net (s.mapping.lower name), t <:+: text) ↔
    ((∃ t ∈ recorded relaymsgs net (s.mapping.lower name), t <:+: text) →
      (s.state = .connected ∨ s.state = .registering) ∧
        ∃ t ∈ recorded relaymsgs net (s.mapping.lower name),
          t <:+: text.drop (t.countP special - 1)) := by
  have hname : s.mapping.lower (info.group.chans.get info.origin).name = s.mapping.lower name := by
    obtain ⟨group, -, hgroup⟩ := List.exists_of_findSome?_eq_some hrelayed
    obtain ⟨origin, horigin, rfl⟩ := Option.map_eq_some_iff.mp hgroup
    have hentry := (List.findFinIdx?_eq_some_iff.mp horigin).1
    simpa using (of_decide_eq_true hentry).2
  rw [← hname] at hnul ⊢
  rw [feedbackcheck_iff tmpban s net _ nick text hnul]
  have hfound : ∀ t, t <:+: searched t text → t <:+: text := fun t h =>
    h.trans (List.drop_suffix _ _).isInfix
  constructor
  · intro h hsome
    exact h.mpr hsome
  · intro h
    refine ⟨?_, h⟩
    rintro ⟨-, t, ht, hsaid⟩
    exact ⟨t, ht, hfound t hsaid⟩

/-! Ann says hi in `#tux` on OFTC, and the plugin sends it on to EsperNet. -/

def echoGroup : Group := ⟨[⟨"OFTC", "#Tux"⟩, ⟨"EsperNet", "#tux"⟩], false, true⟩
def echoConfig : Config := ⟨[echoGroup], [[3, 52]], [15], by simp⟩
def echoInfo : RelayInfo := ⟨echoGroup, ⟨0, by decide⟩⟩
def echoSession : Session := ⟨.connected, "TuxBot", .rfc1459, .default⟩
def echoBot : Bot :=
  ⟨Table.set id (Table.set id ∅ "OFTC" ⟨echoSession, .new⟩) "EsperNet" ⟨echoSession, .new⟩⟩

/-- What is recorded when the queued function has run. -/
def echoed : List (Bytes × Bytes × Bytes) :=
  match msgHandler echoConfig "OFTC" .rfc1459 (heard "Ann" "PRIVMSG" ["#tux", "hi"]) with
  | some e => (handle echoConfig echoBot 2 ⟨false, [], []⟩ e).relaymsgs
  | none => []

/-- The text with its colour, as it appears on EsperNet. -/
def echo : Bytes := [3, 52] ++ lit "<Ann@OFTC>" ++ [15] ++ lit " hi"

theorem feedback_detected_quoted :
    ((feedbackcheck true echoSession echoed "OFTC" (echoGroup.chans.get echoInfo.origin).name "Eve"
        (lit "spam: " ++ echo)).pcall []).2 ≠ [] ↔
      ∃ t ∈ recorded echoed "OFTC" (echoSession.mapping.lower "#TUX"), t <:+: lit "spam: " ++ echo :=
  (feedback_detected_iff echoConfig true echoSession echoed "OFTC" "#TUX" "Eve" _ echoInfo rfl
    (by decide +kernel)).mpr fun _ => ⟨Or.inl rfl, by decide +kernel⟩

/-- Eve repeats the relayed text by itself, and is missed: it has six special characters, so the search
begins at the sixth character. -/
theorem feedback_echo_missed :
    echoed = [(lit "OFTC", lit "#tux", echo)] ∧
      isrelayed echoConfig "OFTC" echoSession.mapping "#TUX" = some echoInfo ∧
      (∃ t ∈ recorded echoed "OFTC" (echoSession.mapping.lower "#TUX"), t <:+: echo) ∧
      ((feedbackcheck true echoSession echoed "OFTC" (echoGroup.chans.get echoInfo.origin).name
        "Eve" echo).pcall []).2 = [] :=
  ⟨by decide +kernel, rfl, by decide +kernel, by decide +kernel⟩

end TuxBot.Plugins.Relay
