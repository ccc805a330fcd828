import Mathlib.Data.List.Forall2
import TuxBot.Bot.QueuePacing
import TuxBot.Irc.Wire

/-! `send_multiline`: a function that puts itself into the queue again until its lines are sent. -/
namespace TuxBot.Bot

open TuxBot.Lua TuxBot.Lua.Pattern TuxBot.Irc TuxBot.Machine

/-- The argument `lines`: a string to be split at its newlines, or a list. -/
inductive Lines where
  | text (str : Bytes)
  | list (lines : List Bytes)

/-- A call `send_multiline(msg, lines, notice)`. The queue of `msg.client` knows the function
`sendnext` that the call makes by the number `func`. -/
structure Multiline where
  client : Nat
  func : Nat
  msg : Message
  given : Lines
  notice : Bool

/-- Where a running call of `sendnext` is: at its beginning, in the method of the Client, or behind it. -/
inductive Pc where
  | begun
  | sending
  | past
  deriving DecidableEq

/-- The bot, the variable `i` counted from 0, the running calls of `sendnext`, the innermost first,
and the calls of `sendmessage` that they made. -/
structure Sending where
  bot : State
  i : Nat
  pcs : List Pc
  sent : List (Bytes × List (Option Bytes))

/-- What can happen: `sendnext` calls the Client, the Client returns to it, or something else. While
the Client sends, the event handlers may call `queue`. -/
inductive SendingInput where
  | call
  | sent
  | other (a : Action)

namespace Multiline

variable (m : Multiline)

/-- The list of the lines, split by `lines:gmatch('[^\n]+')` if need be. -/
def lines : List Bytes :=
  match m.given with
  | .text str => (gmatch [.plus (noneOf "\n")] str).map Match.whole
  | .list lines => lines

/-- `sendprivmsg` or `sendnotice`. -/
def cmd : Bytes := if m.notice then "NOTICE" else "PRIVMSG"

/-- `irc.ischanname(msg.args[1]) or msg.sender.nick`; without arguments it raises. -/
def target : Option (Option Bytes) :=
  m.msg.args.head?.map fun arg => if ischanname arg then some arg else m.msg.sender.nick

/-- The call of `sendmessage` for `lines[i]`, where a missing line is nil. -/
def command (i : Nat) : Bytes × List (Option Bytes) := (m.cmd, [m.target.join, m.lines[i]?])

/-- The function that runs is `sendnext`. -/
def Ours (s : Start) : Prop := s.client = m.client ∧ s.item.func = m.func

instance : DecidablePred m.Ours := fun _ => inferInstanceAs (Decidable (_ ∧ _))

/-- The innermost running function is `sendnext`. -/
def Innermost (b : State) : Prop := ∃ s ∈ b.running.head?, m.Ours s

instance (b : State) : Decidable (m.Innermost b) :=
  inferInstanceAs (Decidable (∃ s ∈ b.running.head?, m.Ours s))

/-- The bot goes on to `u`, where `sendnext` may have been started. -/
def goOn (t : Sending) (u : State) : Sending :=
  { t with
    bot := u
    pcs := if t.bot.running.length < u.running.length ∧ m.Innermost u then .begun :: t.pcs
      else t.pcs }

/-- `queue(msg.client, sendnext)` -/
def queueNext (t : Sending) : Sending := m.goOn t (t.bot.queue m.client none m.func)

/-- `send_multiline` -/
def start (b : State) : Sending := m.queueNext ⟨b, 0, [], []⟩

/-- What other code does: it does not know `sendnext`, and the Client stays. -/
def Foreign : Action → Prop
  | .queue _ _ func => func ≠ m.func
  | .remove client => client ≠ m.client
  | _ => True

instance : DecidablePred m.Foreign := fun a => by
  cases a <;> unfold Foreign <;> infer_instance

def step (t : Sending) : SendingInput → Option Sending
  | .call =>
    match t.pcs with
    | .begun :: pcs =>
      if m.Innermost t.bot then
        some { t with pcs := (if m.target.isSome then .sending else .past) :: pcs }
      else none
    | _ => none
  | .sent =>
    match t.pcs with
    | .sending :: pcs =>
      if m.Innermost t.bot then
        let sent : Sending :=
          { t with i := t.i + 1, pcs := .past :: pcs, sent := t.sent ++ [m.command t.i] }
        some (if m.lines[sent.i]?.isSome then m.queueNext sent else sent)
      else none
    | _ => none
  | .other (.finish lag) =>
    if m.Innermost t.bot then
      match t.pcs with
      | .past :: pcs => (Bot.step t.bot (.finish lag)).map fun u => { t with bot := u, pcs }
      | _ => none
    else (Bot.step t.bot (.finish lag)).map (m.goOn t)
  | .other a => if m.Foreign a then (Bot.step t.bot a).map (m.goOn t) else none

/-- The queue has room when `sendnext` comes back to it. -/
def Roomy (t : Sending) : SendingInput → Prop
  | .sent => t.bot.Accepts m.client
  | _ => True

instance (t : Sending) : DecidablePred (m.Roomy t) := fun input => by
  unfold Roomy State.Accepts
  cases input with
  | sent => exact inferInstanceAs (Decidable (∃ q ∈ t.bot.queueOf m.client, _))
  | _ => exact instDecidableTrue

/-- The queue is empty, and none of its functions runs. -/
def Drained (t : Sending) : Prop :=
  (∃ q, t.bot.queueOf m.client = some q ∧ q.items = []) ∧ ∀ s ∈ t.bot.running, s.client ≠ m.client

/-- Where an answer to the message belongs: to its channel, or else to its sender. -/
def wanted : Option Bytes := (m.msg.args.head?.filter ischanname).or m.msg.sender.nick

/-- One command for every line, in order, with the line as its text. -/
def Exactly (sent : List (Bytes × List (Option Bytes))) : Prop :=
  List.Forall₂ (fun command line => ∃ target, m.wanted = some target ∧
    command = (m.cmd, [some target, some line])) sent m.lines

/-! ### What a step of the bot does with `sendnext` -/

/-- How often `sendnext` waits in the queue. -/
def waiting (b : State) : Nat :=
  (b.queueOf m.client).elim 0 fun q => q.items.countP fun item => item.func = m.func

variable {m} {b u v : State} {t t' : Sending} {c : Nat} {a : Action}

/-- The step does not concern `sendnext`. -/
structure Keeps (m : Multiline) (b u : State) : Prop where
  waiting : m.waiting u = m.waiting b
  running : u.running.filter m.Ours = b.running.filter m.Ours
  entered : b.running.length < u.running.length → ¬ m.Innermost u

/-- The step starts `sendnext`. -/
structure Starts (m : Multiline) (b u : State) : Prop where
  waiting : m.waiting b = m.waiting u + 1
  running : ∃ s, m.Ours s ∧ u.running = s :: b.running

theorem goOn_keeps (h : Keeps m t.bot u) : m.goOn t u = { t with bot := u } := by
  rw [goOn, if_neg fun hentered => h.entered hentered.1 hentered.2]

theorem goOn_starts (h : Starts m t.bot u) :
    m.goOn t u = { t with bot := u, pcs := .begun :: t.pcs } := by
  obtain ⟨s, hours, hrunning⟩ := h.running
  rw [goOn, if_pos]
  rw [Innermost, hrunning]
  exact ⟨Nat.lt_succ_self _, s, rfl, hours⟩

theorem keeps_of_eq (hrunning : u.running = b.running) (hwaiting : m.waiting u = m.waiting b) :
    Keeps m b u :=
  ⟨hwaiting, by rw [hrunning], fun h => absurd h (by rw [hrunning]; exact Nat.lt_irrefl _)⟩

theorem waiting_eq {q : Queue} (h : b.queueOf m.client = some q) :
    m.waiting b = q.items.countP fun item => item.func = m.func := by
  rw [waiting, h]
  rfl

theorem waiting_congr (h : u.queueOf m.client = b.queueOf m.client) : m.waiting u = m.waiting b := by
  rw [waiting, h, waiting]

/-- The head of a queue is `sendnext`, or something else. -/
theorem runNextQueued_turn (b : State) (c : Nat) :
    Keeps m b (b.runNextQueued c) ∨ Starts m b (b.runNextQueued c) := by
  rcases b.runNextQueued_cases c with he | ⟨q, item, items, hq, hnow, hitems⟩
  · rw [he]
    exact .inl (keeps_of_eq rfl rfl)
  rw [State.runNextQueued_start hq hnow hitems]
  have hset : (b.setQueue c { q with items }).queueOf m.client =
      if m.client = c then some { q with items } else b.queueOf m.client := State.queueOf_setQueue hq
  by_cases hours : m.Ours ⟨c, item, b.now⟩
  · obtain ⟨rfl, hfunc⟩ := hours
    refine .inr ⟨?_, ⟨m.client, item, b.now⟩, ⟨rfl, hfunc⟩, rfl⟩
    rw [if_pos rfl] at hset
    rw [waiting_eq hq, hitems, List.countP_cons_of_pos (by simpa using hfunc)]
    exact congrArg (· + 1) (waiting_eq hset).symm
  · refine .inl ⟨?_, List.filter_cons_of_neg (by simpa using hours), ?_⟩
    · by_cases hc : m.client = c
      · subst hc
        have hfunc : item.func ≠ m.func := fun h => hours ⟨rfl, h⟩
        rw [if_pos rfl] at hset
        rw [waiting_eq hq, hitems, List.countP_cons_of_neg (by simpa using hfunc)]
        exact waiting_eq hset
      · rw [if_neg hc] at hset
        exact waiting_congr hset
    · rintro - ⟨s, hs, hs'⟩
      obtain rfl := Option.some.inj hs
      exact hours hs'

theorem Keeps.trans (h : Keeps m b v) (hrunning : v.running = b.running)
    (hturn : Keeps m v u ∨ Starts m v u) : Keeps m b u ∨ Starts m b u := by
  rcases hturn with hkeeps | hstarts
  · refine .inl ⟨hkeeps.waiting.trans h.waiting, hkeeps.running.trans h.running, ?_⟩
    rw [← hrunning]
    exact hkeeps.entered
  · obtain ⟨s, hours, hs⟩ := hstarts.running
    exact .inr ⟨h.waiting ▸ hstarts.waiting, s, hours, hrunning ▸ hs⟩

/-- The queue with one entry more, before it is tried. -/
theorem queue_waiting (m : Multiline) (interval : Option ℚ) (func : Nat) {q : Queue}
    (hq : b.queueOf c = some q) (hlen : q.items.length < b.config.maxQueueSize) :
    ∃ v, b.queue c interval func = v.runNextQueued c ∧ v.running = b.running ∧
      m.waiting v = m.waiting b + if c = m.client ∧ func = m.func then 1 else 0 := by
  let item : Item := ⟨interval.getD b.config.defaultMinQueueInterval, func⟩
  let v : State := { b.setQueue c { q with items := q.items ++ [item] } with
    accepted := b.accepted ++ [(c, item)] }
  have hset : v.queueOf m.client = if m.client = c then some { q with items := q.items ++ [item] }
      else b.queueOf m.client := State.queueOf_setQueue hq
  refine ⟨v, by simp [State.queue, hq, hlen, v, item], rfl, ?_⟩
  by_cases hc : m.client = c
  · subst hc
    rw [if_pos rfl] at hset
    rw [waiting_eq hq, waiting_eq hset, List.countP_append, List.countP_singleton]
    simp [item]
  · rw [if_neg hc] at hset
    rw [if_neg fun h => hc h.1.symm]
    exact waiting_congr hset

/-- The innermost function leaves; the entries of the queues stay. -/
theorem finish_running {lag : ℚ} (m : Multiline) (hs : Bot.step b (.finish lag) = some u) :
    ∃ s, b.running = s :: u.running ∧ m.waiting u = m.waiting b := by
  obtain ⟨hlag, hfinish⟩ := Option.ite_none_right_eq_some.mp hs
  obtain ⟨s, hends⟩ := State.ends_finish hlag hfinish
  refine ⟨s, hends.running, ?_⟩
  by_cases hc : m.client = s.client
  · rw [waiting, waiting, hc, hends.own]
    cases b.queueOf s.client <;> rfl
  · exact waiting_congr (hends.others m.client hc)

/-- A new Client has an empty queue. -/
theorem waiting_add (b : State) :
    m.waiting { b with clients := b.clients ++ [some ⟨[], b.now⟩] } = m.waiting b := by
  rcases Nat.lt_trichotomy m.client b.clients.length with hlt | heq | hgt
  · exact waiting_congr (by simp [State.queueOf, List.getElem?_append_left hlt])
  · have hnone : b.queueOf m.client = none := by simp [State.queueOf, heq]
    have hnew : State.queueOf { b with clients := b.clients ++ [some ⟨[], b.now⟩] } m.client =
        some ⟨[], b.now⟩ := by simp [State.queueOf, heq]
    rw [waiting_eq hnew, waiting, hnone]
    rfl
  · refine waiting_congr ?_
    rw [State.queueOf, State.queueOf, List.getElem?_eq_none (by simpa using Nat.succ_le_of_lt hgt),
      List.getElem?_eq_none hgt.le]

/-- What other code does leaves `sendnext` alone, or starts it. -/
theorem foreign_turn (hforeign : m.Foreign a) (hs : Bot.step b a = some u)
    (hinner : ∀ lag, a = .finish lag → ¬ m.Innermost b) : Keeps m b u ∨ Starts m b u := by
  cases a with
  | wait d =>
    obtain ⟨-, ⟨⟩⟩ := Option.ite_none_right_eq_some.mp hs
    exact .inl (keeps_of_eq rfl rfl)
  | queue client interval func =>
    obtain rfl := Option.some.inj hs
    cases hq : b.queueOf client with
    | none => exact .inl (by simpa [State.queue, hq] using keeps_of_eq rfl rfl)
    | some q =>
      by_cases hlen : q.items.length < b.config.maxQueueSize
      · obtain ⟨v, hv, hrunning, hwaiting⟩ := queue_waiting m interval func hq hlen
        have hfunc : func ≠ m.func := hforeign
        rw [if_neg fun h => hfunc h.2] at hwaiting
        rw [hv]
        exact (keeps_of_eq hrunning hwaiting).trans hrunning (runNextQueued_turn v client)
      · exact .inl (by simpa [State.queue, hq, hlen] using keeps_of_eq rfl rfl)
  | finish lag =>
    obtain ⟨s, hrunning, hwaiting⟩ := finish_running m hs
    have hother : ¬ m.Ours s := fun hours =>
      hinner lag rfl ⟨s, by rw [hrunning]; rfl, hours⟩
    refine .inl ⟨hwaiting, ?_, fun hlt => ?_⟩
    · rw [hrunning, List.filter_cons_of_neg (by simpa using hother)]
    · rw [hrunning, List.length_cons] at hlt
      omega
  | fire i =>
    obtain ⟨-, hfire⟩ := Option.ite_none_right_eq_some.mp hs
    obtain ⟨client, -, rfl⟩ := Option.map_eq_some_iff.mp hfire
    have hkeeps : Keeps m b { b with timers := b.timers.expire i } := keeps_of_eq rfl rfl
    exact hkeeps.trans rfl (runNextQueued_turn _ client)
  | add =>
    obtain rfl := Option.some.inj hs
    exact .inl (keeps_of_eq rfl (waiting_add b))
  | remove client =>
    obtain rfl := Option.some.inj hs
    have hclient : client ≠ m.client := hforeign
    exact .inl (keeps_of_eq rfl (waiting_congr (by simp [State.queueOf, hclient])))
  | reload config =>
    obtain rfl := Option.some.inj hs
    exact .inl (keeps_of_eq rfl rfl)

/-! ### What every run keeps -/

/-- The next call of `sendnext` is for `lines[i]`; the first one is made even without lines. -/
def Due (m : Multiline) (i : Nat) : Prop :=
  i < max 1 m.lines.length ∧ (i = 0 ∨ m.target.isSome)

/-- There is no next call. -/
def Finished (m : Multiline) (i : Nat) : Prop :=
  m.target = none ∧ i = 0 ∨ m.target.isSome ∧ i = max 1 m.lines.length

/-- Where the one call of `sendnext` that is still to come is: in the queue, running, or nowhere. -/
inductive Token (m : Multiline) (t : Sending) : Prop where
  | queued (hwaiting : m.waiting t.bot = 1) (hpast : ∀ pc ∈ t.pcs, pc = .past) (hdue : m.Due t.i)
  | begun {pcs : List Pc} (hwaiting : m.waiting t.bot = 0) (hpcs : t.pcs = .begun :: pcs)
    (hpast : ∀ pc ∈ pcs, pc = .past) (hdue : m.Due t.i)
  | sending {pcs : List Pc} (hwaiting : m.waiting t.bot = 0) (hpcs : t.pcs = .sending :: pcs)
    (hpast : ∀ pc ∈ pcs, pc = .past) (hdue : m.Due t.i) (htarget : m.target.isSome)
  | finished (hwaiting : m.waiting t.bot = 0) (hpast : ∀ pc ∈ t.pcs, pc = .past) (hfinished : m.Finished t.i)

/-- The lines up to `i` have been sent, and the rest is under way. -/
structure Delivers (m : Multiline) (t : Sending) : Prop where
  calls : t.pcs.length = (t.bot.running.filter m.Ours).length
  sent : t.sent = (List.range t.i).map m.command
  token : Token m t

theorem delivers_keeps (h : Delivers m t) (hkeeps : Keeps m t.bot u) :
    Delivers m { t with bot := u } := by
  refine ⟨h.calls.trans (congrArg List.length hkeeps.running).symm, h.sent, ?_⟩
  have hwaiting := hkeeps.waiting
  cases h.token with
  | queued hone hpast hdue => exact .queued (hwaiting.trans hone) hpast hdue
  | begun hzero hpcs hpast hdue => exact .begun (hwaiting.trans hzero) hpcs hpast hdue
  | sending hzero hpcs hpast hdue htarget =>
    exact .sending (hwaiting.trans hzero) hpcs hpast hdue htarget
  | finished hzero hpast hfinished => exact .finished (hwaiting.trans hzero) hpast hfinished

/-- Only a call that waits can be started. -/
theorem delivers_starts (h : Delivers m t) (hstarts : Starts m t.bot u) :
    Delivers m { t with bot := u, pcs := .begun :: t.pcs } := by
  obtain ⟨s, hours, hrunning⟩ := hstarts.running
  have hwaiting := hstarts.waiting
  refine ⟨?_, h.sent, ?_⟩
  · rw [hrunning, List.filter_cons_of_pos (by simpa using hours), List.length_cons, List.length_cons,
      h.calls]
  cases h.token with
  | queued hone hpast hdue =>
    have hzero : m.waiting u = 0 := by omega
    exact .begun hzero rfl hpast hdue
  | begun hzero => omega
  | sending hzero => omega
  | finished hzero => omega

theorem delivers_goOn (h : Delivers m t) (hturn : Keeps m t.bot u ∨ Starts m t.bot u) :
    Delivers m (m.goOn t u) := by
  rcases hturn with hkeeps | hstarts
  · rw [goOn_keeps hkeeps]
    exact delivers_keeps h hkeeps
  · rw [goOn_starts hstarts]
    exact delivers_starts h hstarts

/-- `sendnext` puts itself into the queue, where it may be started at once. -/
theorem delivers_queueNext (hcalls : t.pcs.length = (t.bot.running.filter m.Ours).length)
    (hsent : t.sent = (List.range t.i).map m.command) (hwaiting : m.waiting t.bot = 0)
    (hpast : ∀ pc ∈ t.pcs, pc = .past) (hdue : m.Due t.i) (hroom : t.bot.Accepts m.client) :
    Delivers m (m.queueNext t) := by
  obtain ⟨q, hq, hlen⟩ := hroom
  obtain ⟨v, hv, hrunning, hone⟩ := queue_waiting m none m.func hq hlen
  rw [if_pos ⟨rfl, rfl⟩, hwaiting] at hone
  have hqueued : Delivers m { t with bot := v } :=
    ⟨by rw [hcalls, hrunning], hsent, .queued hone hpast hdue⟩
  have hsame : m.queueNext t = m.goOn { t with bot := v } (v.runNextQueued m.client) := by
    rw [queueNext, hv, goOn, goOn, hrunning]
  rw [hsame]
  exact delivers_goOn hqueued (runNextQueued_turn v m.client)

theorem delivers_call (h : Delivers m t) (hs : m.step t .call = some t') : Delivers m t' := by
  simp only [step] at hs
  split at hs
  swap
  · cases hs
  rename_i pcs hpcs
  obtain ⟨-, ⟨⟩⟩ := Option.ite_none_right_eq_some.mp hs
  refine ⟨?_, h.sent, ?_⟩
  · rw [← h.calls, hpcs]
    rfl
  have hhead : Pc.begun ∈ t.pcs := hpcs ▸ List.mem_cons_self
  cases h.token with
  | queued hone hpast hdue => cases hpast _ hhead
  | finished hzero hpast hfinished => cases hpast _ hhead
  | sending hzero hpcs' hpast hdue htarget => cases hpcs.symm.trans hpcs'
  | begun hzero hpcs' hpast hdue =>
    cases hpcs.symm.trans hpcs'
    by_cases htarget : m.target.isSome
    · exact .sending hzero (by rw [if_pos htarget]) hpast hdue htarget
    · -- The call raises, which can only be the first one.
      refine .finished hzero ?_ (.inl ⟨Option.not_isSome_iff_eq_none.mp htarget,
        hdue.2.resolve_right htarget⟩)
      rw [if_neg htarget]
      exact List.forall_mem_cons.mpr ⟨rfl, hpast⟩

theorem delivers_sent (h : Delivers m t) (hroom : t.bot.Accepts m.client)
    (hs : m.step t .sent = some t') : Delivers m t' := by
  simp only [step] at hs
  split at hs
  swap
  · cases hs
  rename_i pcs hpcs
  obtain ⟨-, hs⟩ := Option.ite_none_right_eq_some.mp hs
  obtain rfl := Option.some.inj hs
  have hhead : Pc.sending ∈ t.pcs := hpcs ▸ List.mem_cons_self
  cases h.token with
  | queued hone hpast hdue => cases hpast _ hhead
  | finished hzero hpast hfinished => cases hpast _ hhead
  | begun hzero hpcs' hpast hdue => cases hpcs.symm.trans hpcs'
  | sending hzero hpcs' hpast hdue htarget =>
    cases hpcs.symm.trans hpcs'
    have hcalls : (.past :: pcs : List Pc).length = (t.bot.running.filter m.Ours).length := by
      rw [← h.calls, hpcs]
      rfl
    have hsent : t.sent ++ [m.command t.i] = (List.range (t.i + 1)).map m.command := by
      rw [List.range_succ, List.map_append, h.sent]
      rfl
    have hall : ∀ pc ∈ (.past :: pcs : List Pc), pc = .past := List.forall_mem_cons.mpr ⟨rfl, hpast⟩
    by_cases hmore : t.i + 1 < m.lines.length
    · rw [if_pos (by simpa using hmore)]
      exact delivers_queueNext hcalls hsent hzero hall ⟨lt_max_of_lt_right hmore, .inr htarget⟩ hroom
    · rw [if_neg (by simpa using hmore)]
      have hlast : t.i + 1 = max 1 m.lines.length := by
        have := hdue.1
        omega
      exact ⟨hcalls, hsent, .finished hzero hall (.inr ⟨htarget, hlast⟩)⟩

/-- A running call that is past its lines returns. -/
theorem delivers_return {lag : ℚ} {pcs : List Pc} (h : Delivers m t) (hinner : m.Innermost t.bot)
    (hpcs : t.pcs = .past :: pcs) (hu : Bot.step t.bot (.finish lag) = some u) :
    Delivers m { t with bot := u, pcs } := by
  obtain ⟨s, hrunning, hwaiting⟩ := finish_running m hu
  have hours : m.Ours s := by
    obtain ⟨s', hs', hours⟩ := hinner
    rw [hrunning] at hs'
    obtain rfl := Option.some.inj hs'
    exact hours
  refine ⟨?_, h.sent, ?_⟩
  · have hcalls := h.calls
    rw [hrunning, hpcs, List.filter_cons_of_pos (by simpa using hours)] at hcalls
    exact Nat.succ.inj hcalls
  have hrest : (∀ pc ∈ t.pcs, pc = .past) → ∀ pc ∈ pcs, pc = .past := by
    intro hpast pc hpc
    exact hpast pc (hpcs ▸ List.mem_cons_of_mem _ hpc)
  cases h.token with
  | queued hone hpast hdue => exact .queued (hwaiting.trans hone) (hrest hpast) hdue
  | finished hzero hpast hfinished => exact .finished (hwaiting.trans hzero) (hrest hpast) hfinished
  | begun hzero hpcs' => cases hpcs.symm.trans hpcs'
  | sending hzero hpcs' => cases hpcs.symm.trans hpcs'

theorem delivers_other (h : Delivers m t) (hs : m.step t (.other a) = some t') : Delivers m t' := by
  by_cases hfinish : ∃ lag, a = .finish lag
  · obtain ⟨lag, rfl⟩ := hfinish
    simp only [step] at hs
    split at hs
    · rename_i hinner
      split at hs
      · rename_i pcs hpcs
        obtain ⟨u, hu, rfl⟩ := Option.map_eq_some_iff.mp hs
        exact delivers_return h hinner hpcs hu
      · cases hs
    · rename_i hinner
      obtain ⟨u, hu, rfl⟩ := Option.map_eq_some_iff.mp hs
      exact delivers_goOn h (foreign_turn (a := .finish lag) trivial hu fun _ _ => hinner)
  · have hstep : m.step t (.other a) =
        if m.Foreign a then (Bot.step t.bot a).map (m.goOn t) else none := by
      cases a with
      | finish lag => exact (hfinish ⟨lag, rfl⟩).elim
      | _ => rfl
    rw [hstep] at hs
    obtain ⟨hforeign, hs⟩ := Option.ite_none_right_eq_some.mp hs
    obtain ⟨u, hu, rfl⟩ := Option.map_eq_some_iff.mp hs
    exact delivers_goOn h (foreign_turn hforeign hu fun lag hlag => (hfinish ⟨lag, hlag⟩).elim)

theorem delivers_step {input : SendingInput} (h : Delivers m t) (hroom : m.Roomy t input)
    (hs : m.step t input = some t') : Delivers m t' := by
  cases input with
  | call => exact delivers_call h hs
  | sent => exact delivers_sent h hroom hs
  | other a => exact delivers_other h hs

theorem delivers_run {inputs : List SendingInput} (h : Delivers m t)
    (hrun : run m.step t inputs = some t') (hroomy : Along m.step m.Roomy t inputs) :
    Delivers m t' :=
  run_keeps_along (fun _ _ _ => delivers_step) h hroomy hrun

/-- The function that the call makes is not known to the bot yet. -/
def Fresh (m : Multiline) (b : State) : Prop := m.waiting b = 0 ∧ ∀ s ∈ b.running, ¬ m.Ours s

theorem delivers_start (hfresh : m.Fresh b) (hroom : b.Accepts m.client) : Delivers m (m.start b) := by
  refine delivers_queueNext ?_ rfl hfresh.1 nofun ⟨lt_max_of_lt_left Nat.one_pos, .inl rfl⟩ hroom
  rw [List.filter_eq_nil_iff.mpr (by simpa using hfresh.2)]
  rfl

/-- When the queue is empty and quiet, no call of `sendnext` is to come. -/
theorem Delivers.finished (h : Delivers m t) (hdrained : m.Drained t) : m.Finished t.i := by
  obtain ⟨⟨q, hq, hitems⟩, hrunning⟩ := hdrained
  have hzero : m.waiting t.bot = 0 := by
    rw [waiting_eq hq, hitems]
    rfl
  have hnone : t.pcs = [] := by
    have hothers : t.bot.running.filter m.Ours = [] :=
      List.filter_eq_nil_iff.mpr fun s hs => by simpa using fun hours : m.Ours s => hrunning s hs hours.1
    have hcalls := h.calls
    rw [hothers] at hcalls
    exact List.eq_nil_of_length_eq_zero hcalls
  cases h.token with
  | queued hone => omega
  | finished _ _ hfinished => exact hfinished
  | begun _ hpcs => cases hnone.symm.trans hpcs
  | sending _ hpcs => cases hnone.symm.trans hpcs

theorem target_join (hargs : m.msg.args ≠ []) : m.target.join = m.wanted := by
  obtain ⟨arg, args, hcons⟩ := List.exists_cons_of_ne_nil hargs
  rw [target, wanted, hcons, List.head?_cons, Option.map_some, Option.join_some]
  by_cases hchan : ischanname arg <;> simp [hchan, Option.filter]

theorem target_eq_none : m.target = none ↔ m.msg.args = [] := by
  rw [target, Option.map_eq_none_iff, List.head?_eq_none_iff]

theorem commands_eq {target : Bytes} (htarget : m.target.join = some target) :
    (List.range m.lines.length).map m.command =
      m.lines.map fun line => (m.cmd, [some target, some line]) := by
  refine List.ext_getElem (by simp) fun k hk hk' => ?_
  have hline : k < m.lines.length := by simpa using hk
  simp [command, htarget, List.getElem?_eq_getElem hline]

/-- All the commands of lines that have somewhere to go. -/
theorem exactly_iff_wanted (hargs : m.msg.args ≠ []) (hlines : m.lines ≠ []) :
    m.Exactly ((List.range m.lines.length).map m.command) ↔ m.wanted.isSome := by
  constructor
  · intro hexact
    obtain ⟨line, lines, hcons⟩ := List.exists_cons_of_ne_nil hlines
    rw [Exactly, hcons] at hexact
    obtain ⟨_, _, ⟨target, hwanted, -⟩, -⟩ := List.forall₂_cons_right_iff.mp hexact
    exact Option.isSome_iff_exists.mpr ⟨target, hwanted⟩
  · intro hwanted
    obtain ⟨target, hwanted⟩ := Option.isSome_iff_exists.mp hwanted
    rw [commands_eq ((target_join hargs).trans hwanted), Exactly, List.forall₂_map_left_iff,
      List.forall₂_same]
    exact fun line _ => ⟨target, hwanted, rfl⟩

/-- The call sends its lines as it should exactly when there is a line and somewhere to send it, or
neither a line nor an argument that would have told where. -/
theorem sends_exactly_iff (hfresh : m.Fresh b) (hroom : b.Accepts m.client)
    (inputs : List SendingInput) (hrun : run m.step (m.start b) inputs = some t)
    (hroomy : Along m.step m.Roomy (m.start b) inputs) (hdrained : m.Drained t) :
    m.Exactly t.sent ↔
      (m.lines = [] ∧ m.msg.args = []) ∨
      (m.lines ≠ [] ∧ m.msg.args ≠ [] ∧ m.wanted.isSome) := by
  have hdelivers := delivers_run (delivers_start hfresh hroom) hrun hroomy
  rw [hdelivers.sent]
  rcases hdelivers.finished hdrained with ⟨hnone, hi⟩ | ⟨htarget, hi⟩
  · -- Nothing is sent.
    have hargs := target_eq_none.mp hnone
    rw [hi, Exactly, List.range_zero, List.map_nil, List.forall₂_nil_left_iff]
    simp [hargs]
  · have hargs : m.msg.args ≠ [] := fun h => by simp [target_eq_none.mpr h] at htarget
    by_cases hlines : m.lines = []
    · -- One command is sent even so.
      have hone : t.i = 1 := by rw [hi, hlines]; rfl
      rw [hone, Exactly, hlines, List.forall₂_nil_right_iff]
      simp [hargs]
    · have hall : t.i = m.lines.length := by
        have := List.length_pos_iff.mpr hlines
        omega
      rw [hall, exactly_iff_wanted hargs hlines]
      simp [hlines, hargs]

/-- Two lines to a channel, the second one sent inside the first call of the function. -/
theorem sends_exactly_iff_two : ∃ t,
    let m : Multiline := ⟨0, 7, ⟨0, "", ⟨some "Ann", none, none, none⟩, "PRIVMSG", ["#tux", "help"]⟩,
      .list ["a", "b"], false⟩
    run m.step (m.start ⟨⟨2 / 5, 40⟩, 0, [some ⟨[], 0⟩], [], [], [], []⟩)
      [.call, .sent, .call, .sent, .other (.finish 0), .other (.finish 0)] = some t ∧
      m.Drained t ∧ m.Exactly t.sent := by
  let m : Multiline := ⟨0, 7, ⟨0, "", ⟨some "Ann", none, none, none⟩, "PRIVMSG", ["#tux", "help"]⟩,
    .list ["a", "b"], false⟩
  let b : State := ⟨⟨2 / 5, 40⟩, 0, [some ⟨[], 0⟩], [], [], [], []⟩
  obtain ⟨t, hrun, hend⟩ := Option.map_eq_some_iff.mp
    (by decide +kernel : (run m.step (m.start b)
      [.call, .sent, .call, .sent, .other (.finish 0), .other (.finish 0)]).map
        (fun t => ((t.bot.queueOf 0).map Queue.items, t.bot.running)) = some (some [], []))
  obtain ⟨hitems, hrunning⟩ := Prod.mk.inj hend
  have hdrained : m.Drained t := by
    refine ⟨Option.map_eq_some_iff.mp hitems, ?_⟩
    rw [hrunning]
    exact nofun
  have hfresh : m.Fresh b := ⟨by decide +kernel, nofun⟩
  refine ⟨t, hrun, hdrained, ?_⟩
  exact (sends_exactly_iff hfresh ⟨_, rfl, by decide⟩ _ hrun (by decide +kernel) hdrained).mpr
    (.inr ⟨by decide, by decide, by decide +kernel⟩)

/-- Without lines the channel is sent a PRIVMSG without a text. -/
theorem no_lines_sent : ∃ t,
    let m : Multiline := ⟨0, 7, ⟨0, "", ⟨some "Ann", none, none, none⟩, "PRIVMSG", ["#tux", "help"]⟩,
      .list [], false⟩
    run m.step (m.start ⟨⟨2 / 5, 40⟩, 0, [some ⟨[], 0⟩], [], [], [], []⟩)
      [.call, .sent, .other (.finish 0)] = some t ∧ m.Drained t ∧
      t.sent = [(lit "PRIVMSG", [some (lit "#tux"), none])] ∧ ¬ m.Exactly t.sent := by
  let m : Multiline := ⟨0, 7, ⟨0, "", ⟨some "Ann", none, none, none⟩, "PRIVMSG", ["#tux", "help"]⟩,
    .list [], false⟩
  let b : State := ⟨⟨2 / 5, 40⟩, 0, [some ⟨[], 0⟩], [], [], [], []⟩
  obtain ⟨t, hrun, hend⟩ := Option.map_eq_some_iff.mp
    (by decide +kernel : (run m.step (m.start b) [.call, .sent, .other (.finish 0)]).map
        (fun t => ((t.bot.queueOf 0).map Queue.items, t.bot.running,
          decide (t.sent = [(lit "PRIVMSG", [some (lit "#tux"), none])]))) = some (some [], [], true))
  obtain ⟨hitems, hrest⟩ := Prod.mk.inj hend
  obtain ⟨hrunning, hcommands⟩ := Prod.mk.inj hrest
  have hsent := of_decide_eq_true hcommands
  refine ⟨t, hrun, ⟨Option.map_eq_some_iff.mp hitems, ?_⟩, hsent, ?_⟩
  · rw [hrunning]
    exact nofun
  · rw [hsent]
    exact fun hexact => by cases hexact

end Multiline

end TuxBot.Bot
