import TuxBot.EventLoopTimers
import TuxBot.Irc.Session
import TuxBot.Lua.Effect

/-! The tmpban plugin on one Client: requests wait for the WHO reply that tells the host to ban. -/
namespace TuxBot.Plugins

open TuxBot.Lua TuxBot.Irc TuxBot.Machine

namespace Tmpban

/-- The seconds that `tmpban` is called with, a number or the text of a command: what `%s` makes of the
value, and the number that arithmetic takes it for, if it is one. -/
structure Duration where
  shown : Bytes
  seconds : Option ℚ
  deriving DecidableEq

/-- An entry of `waiting_for_whoreply[key]`. Nothing reads `request`, the number of the call that stored
the entry. -/
structure Waiting where
  name : Bytes
  msg : Bytes
  time : Duration
  request : Nat
  deriving DecidableEq

/-- The closures given to `EventLoop:timer`. Nothing reads `request`, the number of the call that armed
the timer. -/
inductive Callback where
  | discard (request : Nat) (key chan : Bytes)
  | unban (chan mask : Bytes)
  deriving DecidableEq

/-- A call of `tmpban`, under the key it computed. -/
structure Request where
  key : Bytes
  chan : Bytes
  time : Duration
  made : ℚ
  deriving DecidableEq

/-- An entry that a reply was used for, the number of its seconds, and when. -/
structure Answer where
  channel : Waiting
  nick : Bytes
  host : Bytes
  seconds : ℚ
  used : ℚ
  deriving DecidableEq

end Tmpban

/-- The plugin with its Client. `client` is `tostring` of the Client, `sent` what `sendmessage` was
called with. The last two fields are a record of what happened that the plugin does not read. -/
structure Tmpban where
  client : Bytes
  session : Session
  now : ℚ
  timers : Timers Tmpban.Callback
  waitingForWhoreply : Table (Table Tmpban.Waiting)
  sent : List (Bytes × List Bytes)
  requests : List Tmpban.Request
  answers : List Tmpban.Answer
  deriving DecidableEq

namespace Tmpban

def sendmessage (cmd : Bytes) (args : List Bytes) : Eff Tmpban Unit := do
  let s ← get
  if s.session.state = .connected ∨ s.session.state = .registering then
    set { s with sent := s.sent ++ [(cmd, args)] }
  else
    throw "irc.Client.sendmessage can only be caled in the \"connected\" and \"registering\" states"

/-- `tostring(client)..' '..client:lower(nick)` -/
def key (s : Tmpban) (nick : Bytes) : Bytes := s.client ++ lit " " ++ s.session.mapping.lower nick

/-- `'*!*@'..str` -/
def mask (str : Bytes) : Bytes := lit "*!*@" ++ str

/-- One turn of the loop over the channels that waited for a reply. `EventLoop:timer` adds the seconds to
the time, so a text that is no number raises there. -/
def punish (nick host : Bytes) (channel : Waiting) : Eff Tmpban Unit := do
  sendmessage "MODE" [channel.name, "+b", mask host]
  sendmessage "KICK" [channel.name, nick, channel.msg]
  match channel.time.seconds with
  | some seconds => modify fun s => { s with
      timers := s.timers.timer (s.now + seconds) (.unban channel.name (mask host))
      answers := s.answers ++ [⟨channel, nick, host, seconds, s.now⟩] }
  | none => throw "attempt to perform arithmetic on local 'timeout' (a string value)"

/-- `msgcallback`. `order` is how `pairs` goes through a table. -/
def msgcallback (order : List Waiting → List Waiting) (msg : Message) : Eff Tmpban Unit := do
  if msg.cmd = lit "352" then
    match msg.args with
    | _ :: _ :: _ :: host :: _ :: nick :: _ => do
      let s ← get
      match s.waitingForWhoreply.lookup (s.key nick) with
      | some channels => do
        (order (channels.entries.map Sigma.snd)).forM (punish nick host)
        modify fun s => { s with
          waitingForWhoreply := s.waitingForWhoreply.erase (s.key (mask nick)) }
      | none => pure ⟨⟩
    | _ => throw "bad argument #1 to 'lower' (string expected, got nil)"

/-- The text of a kick. -/
def banmsg (time : Duration) (message : Option Bytes) : Bytes :=
  let addmsg := lit "Temporary ban: " ++ time.shown ++ lit " seconds"
  match message with
  | some message => formatString message ++ lit " (" ++ formatString addmsg ++ lit ")"
  | none => addmsg

/-- `waiting_for_whoreply[key][chan] = {...}` -/
def store (s : Tmpban) (key chan msg : Bytes) (time : Duration) : Tmpban :=
  let channels := (s.waitingForWhoreply.lookup key).getD ∅
  { s with
    waitingForWhoreply := s.waitingForWhoreply.insert key
      (channels.insert chan ⟨chan, msg, time, s.requests.length⟩)
    requests := s.requests ++ [⟨key, chan, time, s.now⟩] }

/-- `tmpban(client, chan, nick, time, message)` -/
def tmpban (chan nick : Bytes) (time : Duration) (message : Option Bytes) : Eff Tmpban Unit := do
  let s ← get
  let key := s.key nick
  set (s.store key chan (banmsg time message) time)
  sendmessage "WHO" [nick]
  modify fun t => { t with timers := t.timers.timer (t.now + 15) (.discard s.requests.length key chan) }

/-- The closure that `tmpban` leaves with its timer. -/
def discard (s : Tmpban) (key chan : Bytes) : Tmpban :=
  match s.waitingForWhoreply.lookup key with
  | some channels =>
    if (channels.lookup chan).isSome then
      let channels := channels.erase chan
      { s with waitingForWhoreply :=
          if channels.entries = [] then s.waitingForWhoreply.erase key
          else s.waitingForWhoreply.insert key channels }
    else s
  | none => s

def Callback.call : Callback → Eff Tmpban Unit
  | .discard _ key chan => modify fun s => s.discard key chan
  | .unban chan mask => sendmessage "MODE" [chan, "-b", mask]

/-- An order in which `pairs` may go through a table. -/
def Traversal := { order : List Waiting → List Waiting // ∀ ws, (order ws).Perm ws }

/-- What can happen: a call of `tmpban`, a message, the passing of time and the expiry of a timer. -/
inductive Input where
  | request (chan nick : Bytes) (time : Duration) (message : Option Bytes)
  | message (msg : Message) (pairs : Traversal)
  | wait (seconds : ℚ)
  | fire (i : Nat)

/-- The plugin sees a message after the Client did. -/
def step (s : Tmpban) : Input → Option Tmpban
  | .request chan nick time message => some ((tmpban chan nick time message).pcall s).2
  | .message msg pairs =>
    some ((msgcallback pairs.1 msg).pcall { s with session := s.session.receive msg }).2
  | .wait seconds => if 0 ≤ seconds then some { s with now := s.now + seconds } else none
  | .fire i =>
    (s.timers.due s.now i).map fun callback =>
      let called := (callback.call.pcall s).2
      { called with timers := called.timers.expire i }

/-- The plugin has just been loaded. -/
def start (client : Bytes) (session : Session) (now : ℚ) : Tmpban :=
  ⟨client, session, now, [], ∅, [], [], []⟩

/-! ### What the plugin is for -/

/-- The entry for a channel under a key. -/
def entry (s : Tmpban) (key chan : Bytes) : Option Waiting :=
  (s.waitingForWhoreply.lookup key).bind fun channels => channels.lookup chan

def Answered (s : Tmpban) (request : Nat) : Prop := ∃ a ∈ s.answers, a.channel.request = request

/-- The request has been answered, or its 15 seconds have passed. -/
def Settled (s : Tmpban) (request : Nat) : Prop :=
  s.Answered request ∨ ∃ r, s.requests[request]? = some r ∧ r.made + 15 ≤ s.now

/-- The two messages that an answer stands for. -/
def Answer.messages (a : Answer) : List (Bytes × List Bytes) :=
  [("MODE", [a.channel.name, "+b", mask a.host]), ("KICK", [a.channel.name, a.nick, a.channel.msg])]

/-- A KICK or a `MODE +b`. -/
def punishes (message : Bytes × List Bytes) : Bool :=
  message.1 == lit "KICK" || message.1 == lit "MODE" && message.2[1]? == some (lit "+b")

def lifts (message : Bytes × List Bytes) : Bool :=
  message.1 == lit "MODE" && message.2[1]? == some (lit "-b")

/-- A timer that lifts a ban: when, and which. -/
def lifting (t : Timer Callback) : Option (ℚ × Bytes × Bytes) :=
  match t.callback with
  | .unban chan mask => some (t.time, chan, mask)
  | .discard .. => none

/-- The message of a timer that has lifted its ban. -/
def lifted (t : Timer Callback) : Option (Bytes × List Bytes) :=
  match t.pending, t.callback with
  | false, .unban chan mask => some ("MODE", [chan, "-b", mask])
  | _, _ => none

/-- What was sent and scheduled, whatever the inputs were. -/
structure Matched (s : Tmpban) : Prop where
  /-- An answer serves the channel and the time of its request. -/
  caused : ∀ a ∈ s.answers, ∃ r, s.requests[a.channel.request]? = some r ∧
    r.chan = a.channel.name ∧ r.time.seconds = some a.seconds
  /-- Every +b and KICK belongs to the pair of an answer. -/
  sent : s.sent.filter punishes = s.answers.flatMap Answer.messages
  /-- One timer for every ban, which nobody cancels. -/
  scheduled : s.timers.filterMap lifting =
    s.answers.map fun a => (a.used + a.seconds, a.channel.name, mask a.host)
  running : ∀ t ∈ s.timers, t.running = true
  /-- The timers that have run out sent their -b, and nothing else did. -/
  lifted : (s.sent.filter lifts).Perm (s.timers.filterMap lifted)

/-- Temporary bans are executed once. -/
structure ExecutedOnce (s : Tmpban) : Prop extends Matched s where
  once : (s.answers.map fun a => a.channel.request).Nodup
  /-- A request waits until it is answered, or for 15 seconds. -/
  kept : ∀ n r, s.requests[n]? = some r →
    (∃ w, s.entry r.key r.chan = some w ∧ w.request = n) ∨ s.Settled n

/-- The host and the nick of a 352 message. -/
def whoreply (msg : Message) : Option (Bytes × Bytes) :=
  if msg.cmd = lit "352" then
    match msg.args with
    | _ :: _ :: _ :: host :: _ :: nick :: _ => some (host, nick)
    | _ => none
  else none

/-- Requests and replies do not overlap: a request is not repeated while it waits, a reply finds no
request that was answered before, none whose seconds are no number and none for the nick after `*!*@`,
and a timer that runs out finds its own request or one that is settled. -/
def Apart (s : Tmpban) : Input → Prop
  | .request chan nick _ _ => ∀ w, s.entry (s.key nick) chan = some w → s.Settled w.request
  | .message msg _ => ∀ host nick, whoreply msg = some (host, nick) →
    (s.waitingForWhoreply.lookup (s.key nick)).isSome →
      (∀ chan w, s.entry (s.key nick) chan = some w →
        ¬ s.Answered w.request ∧ w.time.seconds.isSome) ∧
      ∀ chan w, s.entry (s.key (mask nick)) chan = some w → s.Settled w.request
  | .wait _ => True
  | .fire i => ∀ request key chan, s.timers.due s.now i = some (.discard request key chan) →
    ∀ w, s.entry key chan = some w → w.request = request ∨ s.Settled w.request

variable {s : Tmpban} {nick host chan : Bytes} {w : Waiting}

/-! ### What the calls do -/

/-- The Client takes messages. -/
def CanSend (s : Tmpban) : Prop := s.session.state = .connected ∨ s.session.state = .registering

instance : DecidablePred CanSend := fun s =>
  inferInstanceAs (Decidable (s.session.state = .connected ∨ s.session.state = .registering))

/-- A message was sent. -/
def send (s : Tmpban) (x : Bytes × List Bytes) : Tmpban := { s with sent := s.sent ++ [x] }

/-- What a reply makes of an entry whose seconds are a number. -/
def Waiting.answer (s : Tmpban) (nick host : Bytes) (w : Waiting) : Answer :=
  ⟨w, nick, host, w.time.seconds.getD 0, s.now⟩

/-- The timer that lifts the ban of an answer. -/
def Answer.timer (a : Answer) : Timer Callback :=
  ⟨a.used + a.seconds, true, true, .unban a.channel.name (mask a.host)⟩

/-- The answers were given. -/
def serve (s : Tmpban) (as : List Answer) : Tmpban :=
  { s with
    sent := s.sent ++ as.flatMap Answer.messages
    timers := s.timers ++ as.map Answer.timer
    answers := s.answers ++ as }

theorem sendmessage_eq {cmd : Bytes} {args : List Bytes} (h : s.CanSend) :
    sendmessage cmd args s = .ok ⟨⟩ (s.send (cmd, args)) := by
  unfold CanSend at h
  rw [sendmessage, Eff.get_bind_eq, if_pos h]
  rfl

theorem sendmessage_raises (cmd : Bytes) (args : List Bytes) (h : ¬ s.CanSend) :
    ∃ e, sendmessage cmd args s = .error e s := by
  unfold CanSend at h
  rw [sendmessage, Eff.get_bind_eq, if_neg h]
  exact ⟨_, rfl⟩

/-- The ban and the kick of an entry. -/
def strike (s : Tmpban) (nick host : Bytes) (w : Waiting) : Tmpban :=
  (s.send ("MODE", [w.name, "+b", mask host])).send ("KICK", [w.name, nick, w.msg])

/-- Every turn of the loop begins with the ban and the kick. -/
theorem punish_bind (h : s.CanSend) : punish nick host w s =
    (match w.time.seconds with
      | some seconds => modify fun s => { s with
          timers := s.timers.timer (s.now + seconds) (.unban w.name (mask host))
          answers := s.answers ++ [⟨w, nick, host, seconds, s.now⟩] }
      | none => throw "attempt to perform arithmetic on local 'timeout' (a string value)" :
        Eff Tmpban Unit) (s.strike nick host w) := by
  have hkick : (s.send ("MODE", [w.name, "+b", mask host])).CanSend := h
  rw [punish, Eff.bind_of_ok (sendmessage_eq h), Eff.bind_of_ok (sendmessage_eq hkick)]
  rfl

theorem punish_eq (h : s.CanSend) (hw : w.time.seconds.isSome) :
    punish nick host w s = .ok ⟨⟩ (s.serve [w.answer s nick host]) := by
  obtain ⟨seconds, hseconds⟩ := Option.isSome_iff_exists.mp hw
  rw [punish_bind h, hseconds]
  change EStateM.Result.ok _ _ = _
  simp [strike, serve, send, Answer.messages, Answer.timer, Timers.timer, Waiting.answer, hseconds]

/-- Seconds that are no number make the loop stop once the ban is out. -/
theorem punish_raises (nick host : Bytes) (h : s.CanSend) (hw : w.time.seconds = none) :
    ∃ e, punish nick host w s = .error e (s.strike nick host w) := by
  rw [punish_bind h, hw]
  exact ⟨_, rfl⟩

theorem punish_refused (nick host : Bytes) (w : Waiting) (h : ¬ s.CanSend) :
    ∃ e, punish nick host w s = .error e s := by
  obtain ⟨e, he⟩ := sendmessage_raises "MODE" [w.name, "+b", mask host] h
  refine ⟨e, ?_⟩
  rw [punish]
  simp only [Eff.bind_of_error he]

theorem forM_punish_append (nick host : Bytes) {before : List Waiting} (after : List Waiting)
    (h : s.CanSend) (hb : ∀ w ∈ before, w.time.seconds.isSome) :
    (before ++ after).forM (punish nick host) s =
      after.forM (punish nick host) (s.serve (before.map fun w => w.answer s nick host)) := by
  induction before generalizing s with
  | nil => simp [serve]
  | cons w before ih =>
    have hrest : (s.serve [w.answer s nick host]).CanSend := h
    change (punish nick host w >>= fun _ => (before ++ after).forM (punish nick host)) s = _
    rw [Eff.bind_of_ok (punish_eq h (hb w List.mem_cons_self)),
      ih hrest fun w hw => hb w (List.mem_cons_of_mem _ hw)]
    simp [serve, Waiting.answer]

theorem forM_punish_eq (h : s.CanSend) {ws : List Waiting}
    (hws : ∀ w ∈ ws, w.time.seconds.isSome) :
    ws.forM (punish nick host) s =
      .ok ⟨⟩ (s.serve (ws.map fun w => w.answer s nick host)) := by
  have hall := forM_punish_append nick host [] h hws
  rwa [List.append_nil] at hall

theorem forM_punish_raises (nick host : Bytes) {before : List Waiting} (after : List Waiting)
    (h : s.CanSend) (hb : ∀ w ∈ before, w.time.seconds.isSome) (hw : w.time.seconds = none) :
    ∃ e, (before ++ w :: after).forM (punish nick host) s = .error e
      ((s.serve (before.map fun w => w.answer s nick host)).strike nick host w) := by
  have hrest : (s.serve (before.map fun w => w.answer s nick host)).CanSend := h
  obtain ⟨e, he⟩ := punish_raises nick host hrest hw
  refine ⟨e, ?_⟩
  rw [forM_punish_append nick host _ h hb]
  change (punish nick host w >>= fun _ => after.forM (punish nick host)) _ = _
  simp only [Eff.bind_of_error he]

/-- A message that is no reply to a request changes nothing. -/
theorem msgcallback_skip {order : List Waiting → List Waiting} {msg : Message}
    (h : ∀ host nick, whoreply msg = some (host, nick) →
      s.waitingForWhoreply.lookup (s.key nick) = none) :
    ((msgcallback order msg).pcall s).2 = s := by
  rw [msgcallback]
  by_cases hcmd : msg.cmd = lit "352"
  · rw [if_pos hcmd]
    split
    · rename_i host _ nick _ hargs
      have hnone := h host nick (by simp [whoreply, hcmd, hargs])
      simp only [Eff.pcall, Eff.get_bind_eq, hnone]
      rfl
    · rfl
  · rw [if_neg hcmd]
    rfl

/-- A reply to requests goes through them, and removes what waits under another key. -/
theorem msgcallback_reply {order : List Waiting → List Waiting} {msg : Message}
    {channels : Table Waiting} (hreply : whoreply msg = some (host, nick))
    (h : s.waitingForWhoreply.lookup (s.key nick) = some channels) :
    msgcallback order msg s = (do
      (order (channels.entries.map Sigma.snd)).forM (punish nick host)
      modify fun s => { s with
        waitingForWhoreply := s.waitingForWhoreply.erase (s.key (mask nick)) } : Eff Tmpban Unit) s := by
  rw [whoreply] at hreply
  split at hreply
  · rename_i hcmd
    split at hreply
    · rename_i hargs
      obtain ⟨rfl, rfl⟩ : _ = host ∧ _ = nick := by simpa using hreply
      rw [msgcallback, if_pos hcmd, hargs]
      simp only [Eff.get_bind_eq, h]
    · cases hreply
  · cases hreply

theorem msgcallback_serves {order : List Waiting → List Waiting} {msg : Message}
    {channels : Table Waiting} (hsend : s.CanSend) (hreply : whoreply msg = some (host, nick))
    (h : s.waitingForWhoreply.lookup (s.key nick) = some channels)
    (hall : ∀ w ∈ order (channels.entries.map Sigma.snd), w.time.seconds.isSome) :
    ((msgcallback order msg).pcall s).2 =
      { s.serve ((order (channels.entries.map Sigma.snd)).map fun w => w.answer s nick host) with
        waitingForWhoreply := s.waitingForWhoreply.erase (s.key (mask nick)) } := by
  rw [Eff.pcall, msgcallback_reply hreply h, Eff.bind_of_ok (forM_punish_eq hsend hall)]
  rfl

theorem msgcallback_raises {order : List Waiting → List Waiting} {msg : Message}
    {channels : Table Waiting} {before after : List Waiting} (hsend : s.CanSend)
    (hreply : whoreply msg = some (host, nick))
    (h : s.waitingForWhoreply.lookup (s.key nick) = some channels)
    (hsplit : order (channels.entries.map Sigma.snd) = before ++ w :: after)
    (hb : ∀ w ∈ before, w.time.seconds.isSome) (hw : w.time.seconds = none) :
    ((msgcallback order msg).pcall s).2 =
      (s.serve (before.map fun w => w.answer s nick host)).strike nick host w := by
  obtain ⟨e, he⟩ := forM_punish_raises nick host after hsend hb hw
  rw [Eff.pcall, msgcallback_reply hreply h, hsplit]
  simp only [Eff.bind_of_error he]

/-- A request was stored, the WHO sent and the timer armed. -/
def ask (s : Tmpban) (chan nick msg : Bytes) (time : Duration) : Tmpban :=
  { (s.store (s.key nick) chan msg time).send ("WHO", [nick]) with
    timers := s.timers.timer (s.now + 15) (.discard s.requests.length (s.key nick) chan) }

theorem tmpban_eq {time : Duration} {message : Option Bytes} (hsend : s.CanSend) :
    ((tmpban chan nick time message).pcall s).2 = s.ask chan nick (banmsg time message) time := by
  have hstored : (s.store (s.key nick) chan (banmsg time message) time).CanSend := hsend
  have hset : (set (s.store (s.key nick) chan (banmsg time message) time) :
      Eff Tmpban PUnit) s = .ok ⟨⟩ (s.store (s.key nick) chan (banmsg time message) time) :=
    rfl
  simp only [Eff.pcall, tmpban, Eff.get_bind_eq, Eff.bind_of_ok hset,
    Eff.bind_of_ok (sendmessage_eq hstored)]
  rfl

/-! ### The entries that wait -/

theorem entry_store {key msg : Bytes} {time : Duration} {k c : Bytes} :
    (s.store key chan msg time).entry k c =
      if k = key ∧ c = chan then some ⟨chan, msg, time, s.requests.length⟩ else s.entry k c := by
  simp only [entry, store, Table.lookup_insert]
  by_cases hk : k = key
  · subst hk
    rw [if_pos rfl, Option.bind_some, Table.lookup_insert]
    cases hl : s.waitingForWhoreply.lookup k <;> simp
  · simp [hk]

theorem entry_discard {key k c : Bytes} :
    (s.discard key chan).entry k c = if k = key ∧ c = chan then none else s.entry k c := by
  have herased : ∀ channels : Table Waiting,
      (channels.erase chan).lookup c = if c = chan then none else channels.lookup c :=
    fun channels => Table.lookup_erase
  unfold discard
  split
  · rename_i channels hl
    split
    · by_cases hk : k = key
      · subst hk
        by_cases hempty : (channels.erase chan).entries = []
        · have hnone : (channels.erase chan).lookup c = none := by
            simp [AList.lookup, hempty]
          simpa [entry, hempty, hl] using ((herased channels).symm.trans hnone).symm
        · simpa [entry, hempty, hl] using herased channels
      · simp only [entry, hk, false_and, if_false]
        split
        · rw [AList.lookup_erase_ne hk]
        · rw [AList.lookup_insert_ne hk]
    · rename_i hnone
      by_cases hkc : k = key ∧ c = chan
      · obtain ⟨rfl, rfl⟩ := hkc
        simpa [entry, hl] using hnone
      · rw [if_neg hkc]
  · rename_i hl
    by_cases hkc : k = key ∧ c = chan
    · obtain ⟨rfl, rfl⟩ := hkc
      simp [entry, hl]
    · rw [if_neg hkc]

theorem entry_erase {key k c : Bytes} :
    { s with waitingForWhoreply := s.waitingForWhoreply.erase key }.entry k c =
      if k = key then none else s.entry k c := by
  simp only [entry, Table.lookup_erase]
  split <;> rfl

theorem mem_values {channels : Table Waiting} {key : Bytes}
    (h : s.waitingForWhoreply.lookup key = some channels) :
    w ∈ channels.entries.map Sigma.snd ↔ ∃ chan, s.entry key chan = some w := by
  simp only [entry, h, Option.bind_some, List.mem_map]
  constructor
  · rintro ⟨⟨c, w⟩, hmem, rfl⟩
    exact ⟨c, AList.mem_lookup_iff.mpr hmem⟩
  · rintro ⟨c, hc⟩
    exact ⟨⟨c, w⟩, AList.mem_lookup_iff.mp hc, rfl⟩

end Tmpban

end TuxBot.Plugins
