import Mathlib.Data.List.GetD
import TuxBot.Irc.ClientRun

/-! The NickCollisionHandler: which nicks it tries when the server refuses one. -/
namespace TuxBot.Irc

open TuxBot.Lua TuxBot.Lua.Pattern

/-- `NickCollisionHandler.functions` and their argument; the number `init` counts as its text. -/
inductive NickStrategy where
  | addchar (char : Option Bytes)
  | tryall (char : Option Bytes)
  | incrementNum (init : Option Bytes)
  deriving DecidableEq

/-- The function that a strategy makes for a session, with its local variables. -/
inductive NickFunc where
  | addchar (char : Bytes) (removing : Bool)
  | tryall (char : Bytes) (current : Nat) (suffix : Bytes)
  | incrementNum (init : Bytes)
  deriving DecidableEq

/-- The characters that a strategy adds to a nick. -/
def NickStrategy.added : NickStrategy → Bytes
  | .addchar char => char.getD "_"
  | .tryall char => char.getD "_"
  | .incrementNum init => init.getD "1"

/-- `handler(client, client:get_nick())` -/
def NickStrategy.func (strategy : NickStrategy) : NickFunc :=
  match strategy with
  | .addchar _ => .addchar strategy.added true
  | .tryall _ => .tryall strategy.added 1 []
  | .incrementNum _ => .incrementNum strategy.added

/-- `'^(.-)(%d+)(%D*)$'` -/
def numberPattern : List (Item UInt8) :=
  [.start, .lazy anyByte, .stop, .start, .plus isDigit, .stop, .start, .star (fun b => !isDigit b),
    .stop, .eos]

variable (succ : Bytes → Bytes) (nicks : List Bytes)

/-- A call of the function: its local variables afterwards, and what it returns unless it raises.
`succ` is `tonumber(num)+1` as a text, and `nicks` is `client.identinfo.nicks`. -/
def NickFunc.call (prevattempt : Option Bytes) (invalid : Bool) :
    NickFunc → NickFunc × Except String (Option Bytes)
  | .addchar char removing =>
    if invalid then (.addchar char removing, .ok none)
    else
      match prevattempt with
      | none =>
        if removing then
          (.addchar char true, .error "attempt to get length of local 'prevattempt' (a nil value)")
        else
          (.addchar char false, .error "attempt to concatenate local 'prevattempt' (a nil value)")
      | some prev =>
        if removing && !(prev.length == 1 || prev.getLast?.toList != char) then
          (.addchar char true, .ok (some prev.dropLast))
        else (.addchar char false, .ok (some (prev ++ char)))
  | .tryall char current suffix =>
    if invalid then (.tryall char current suffix, .ok none)
    else
      let (current, suffix) :=
        if nicks.length < current then (1, suffix ++ char) else (current, suffix)
      match nicks[current - 1]? with
      | none => (.tryall char current suffix, .error "attempt to concatenate field '?' (a nil value)")
      | some nick => (.tryall char (current + 1) suffix, .ok (some (nick ++ suffix)))
  | .incrementNum init =>
    if invalid then (.incrementNum init, .ok none)
    else
      match prevattempt with
      | none =>
        (.incrementNum init, .error "attempt to index local 'prevattempt' (a nil value)")
      | some prev =>
        match (matchHere numberPattern prev).map Match.values with
        | some [front, num, suffix] => (.incrementNum init, .ok (some (front ++ succ num ++ suffix)))
        | _ => (.incrementNum init, .ok (some (prev ++ init)))

/-- The variables of a NickCollisionHandler. -/
structure NickCollisionHandler where
  func : Option NickFunc
  failed : Bool
  lastAttempt : Option Bytes
  deriving DecidableEq

namespace NickCollisionHandler

/-- `_state_cb`, and a new handler. -/
def reset : NickCollisionHandler := ⟨none, false, none⟩

variable (strategy : NickStrategy)

/-- `_msg_cb`: the nick that it gives to `set_nick`, if it comes to that. What it raises is only
reported. -/
def msgCb (state : ClientState) (cmd : Bytes) (h : NickCollisionHandler) :
    NickCollisionHandler × Option Bytes :=
  if state = .registering ∧ h.failed = false ∧ (cmd = lit "433" ∨ cmd = []) then
    match (h.func.getD strategy.func).call succ nicks h.lastAttempt (cmd == []) with
    | (func, .error _) => ({ h with func := some func }, none)
    | (func, .ok (some attempt)) => (⟨some func, false, some attempt⟩, some attempt)
    | (func, .ok none) => (⟨some func, true, none⟩, none)
  else (h, none)

/-- The messages of one session in the state `registering`, by their commands: the handler after
them, and the nicks it gave to `set_nick`. -/
def session (cmds : List Bytes) : NickCollisionHandler × List Bytes :=
  cmds.foldl (fun (h, sent) cmd =>
    let (h, nick) := h.msgCb succ nicks strategy .registering cmd
    (h, sent ++ nick.toList)) (reset, [])

variable {succ nicks strategy} {char : Bytes} {cmds : List Bytes} {h : NickCollisionHandler}
  {state : ClientState} {cmd : Bytes}

theorem session_concat :
    session succ nicks strategy (cmds ++ [cmd]) =
      (((session succ nicks strategy cmds).1.msgCb succ nicks strategy .registering cmd).1,
        (session succ nicks strategy cmds).2 ++
          ((session succ nicks strategy cmds).1.msgCb succ nicks strategy .registering cmd).2.toList) :=
  List.foldl_concat ..

theorem msgCb_failed (hfailed : h.failed = true) :
    h.msgCb succ nicks strategy state cmd = (h, none) := by
  rw [msgCb, if_neg]
  simp [hfailed]

/-- A handler that has not made an attempt, and whose function is as it was made. -/
def Stuck (strategy : NickStrategy) (h : NickCollisionHandler) : Prop :=
  h.lastAttempt = none ∧ h.func.getD strategy.func = strategy.func

/-- Without an attempt to change, the strategies other than `tryall` raise. -/
theorem call_none (succ : Bytes → Bytes) (nicks : List Bytes)
    (hstrategy : ∀ char, strategy ≠ .tryall char) (invalid : Bool) :
    ∃ result, strategy.func.call succ nicks none invalid = (strategy.func, result) ∧
      ∀ attempt, result ≠ .ok (some attempt) := by
  cases strategy with
  | tryall char => exact (hstrategy char rfl).elim
  | addchar char => cases invalid <;> exact ⟨_, rfl, nofun⟩
  | incrementNum init => cases invalid <;> exact ⟨_, rfl, nofun⟩

theorem msgCb_stuck (hstrategy : ∀ char, strategy ≠ .tryall char) (hstuck : h.Stuck strategy) :
    (h.msgCb succ nicks strategy state cmd).2 = none ∧
      (h.msgCb succ nicks strategy state cmd).1.Stuck strategy := by
  obtain ⟨hlast, hfunc⟩ := hstuck
  unfold msgCb
  split
  · obtain ⟨result, hcall, hresult⟩ := call_none succ nicks hstrategy (cmd == [])
    rw [hlast, hfunc, hcall]
    rcases result with error | _ | attempt
    · exact ⟨rfl, rfl, rfl⟩
    · exact ⟨rfl, rfl, rfl⟩
    · exact (hresult attempt rfl).elim
  · exact ⟨rfl, hlast, hfunc⟩

theorem session_stuck (succ : Bytes → Bytes) (nicks cmds : List Bytes)
    (hstrategy : ∀ char, strategy ≠ .tryall char) :
    (session succ nicks strategy cmds).1.Stuck strategy := by
  induction cmds using List.reverseRecOn with
  | nil => exact ⟨rfl, rfl⟩
  | append_singleton cmds cmd ih =>
    rw [session_concat]
    exact (msgCb_stuck hstrategy ih).2

/-- What `tryall` gives to the `k`-th refusal, counted from 0. -/
def attempt (nicks : List Bytes) (char : Bytes) (k : Nat) : Bytes :=
  nicks.getD (k % nicks.length) [] ++ (List.replicate (k / nicks.length) char).flatten

/-- The variables of `tryall` after `k` attempts. -/
def Tried (nicks : List Bytes) (char : Bytes) (k : Nat) (func : NickFunc) : Prop :=
  ∃ round i, func = .tryall char (i + 1) (List.replicate round char).flatten ∧
    i ≤ nicks.length ∧ k = i + nicks.length * round

theorem call_tryall (succ : Bytes → Bytes) (prev : Option Bytes) {func : NickFunc} {k : Nat}
    (hnicks : nicks ≠ []) (htried : Tried nicks char k func) :
    ∃ func', func.call succ nicks prev false = (func', .ok (some (attempt nicks char k))) ∧
      Tried nicks char (k + 1) func' := by
  obtain ⟨round, i, rfl, hi, rfl⟩ := htried
  have hpos : 0 < nicks.length := List.length_pos_iff.mpr hnicks
  rcases hi.lt_or_eq with hlt | rfl
  · refine ⟨.tryall char (i + 2) (List.replicate round char).flatten, ?_,
      round, i + 1, rfl, hlt, by omega⟩
    have hattempt : attempt nicks char (i + nicks.length * round) =
        nicks[i] ++ (List.replicate round char).flatten := by
      rw [attempt, Nat.add_mul_mod_self_left, Nat.mod_eq_of_lt hlt, Nat.add_mul_div_left _ _ hpos,
        Nat.div_eq_of_lt hlt, Nat.zero_add, List.getD_eq_getElem _ _ hlt]
    simp [NickFunc.call, hattempt, Nat.not_lt.mpr hlt, hlt]
  · -- The list has been gone through: the next round begins.
    refine ⟨.tryall char 2 (List.replicate (round + 1) char).flatten, ?_,
      round + 1, 1, rfl, hpos, by rw [Nat.mul_add]; omega⟩
    have hattempt : attempt nicks char (nicks.length + nicks.length * round) =
        nicks[0] ++ (List.replicate (round + 1) char).flatten := by
      rw [attempt, Nat.add_mul_mod_self_left, Nat.mod_self, Nat.add_mul_div_left _ _ hpos,
        Nat.div_self hpos, Nat.add_comm 1, List.getD_eq_getElem _ _ hpos]
    simp [NickFunc.call, hattempt, hpos, List.replicate_succ']

/-- What `tryall` has done after `k` refusals. -/
def Tries (nicks : List Bytes) (strategy : NickStrategy) (k : Nat) (h : NickCollisionHandler) :
    Prop :=
  h.failed = false ∧ Tried nicks strategy.added k (h.func.getD strategy.func)

theorem msgCb_refused (succ : Bytes → Bytes) {k : Nat} (hnicks : nicks ≠ [])
    (htries : h.Tries nicks strategy k) :
    (h.msgCb succ nicks strategy .registering (lit "433")).2 =
        some (attempt nicks strategy.added k) ∧
      (h.msgCb succ nicks strategy .registering (lit "433")).1.Tries nicks strategy (k + 1) := by
  obtain ⟨hlive, htried⟩ := htries
  obtain ⟨func, hcall, htried⟩ := call_tryall succ h.lastAttempt hnicks htried
  rw [msgCb, if_pos ⟨rfl, hlive, .inl rfl⟩, show (lit "433" == []) = false from rfl, hcall]
  exact ⟨rfl, rfl, htried⟩

theorem session_tries (succ : Bytes → Bytes) {adds : Option Bytes} (hnicks : nicks ≠ [])
    (hstrategy : strategy = .tryall adds) (hvalid : [] ∉ cmds) :
    (session succ nicks strategy cmds).1.Tries nicks strategy (cmds.count (lit "433")) ∧
      (session succ nicks strategy cmds).2 =
        (List.range (cmds.count (lit "433"))).map (attempt nicks strategy.added) := by
  induction cmds using List.reverseRecOn with
  | nil =>
    subst hstrategy
    exact ⟨⟨rfl, 0, 0, rfl, Nat.zero_le _, rfl⟩, rfl⟩
  | append_singleton cmds cmd ih =>
    simp only [List.mem_append, List.mem_singleton, not_or] at hvalid
    obtain ⟨htries, hsent⟩ := ih hvalid.1
    rw [session_concat, List.count_append, hsent]
    by_cases hcmd : cmd = lit "433"
    · subst hcmd
      obtain ⟨hattempt, htries⟩ := msgCb_refused succ hnicks htries
      rw [hattempt, List.count_singleton_self, List.range_succ, List.map_append]
      exact ⟨htries, rfl⟩
    · have hother : ∀ h : NickCollisionHandler,
          h.msgCb succ nicks strategy .registering cmd = (h, none) := fun h => by
        rw [msgCb, if_neg]
        rintro ⟨-, -, hcmd' | hcmd'⟩
        · exact hcmd hcmd'
        · exact hvalid.2 hcmd'.symm
      rw [hother, List.count_singleton, beq_eq_false_iff_ne.mpr hcmd]
      exact ⟨htries, List.append_nil _⟩

theorem call_invalid (func : NickFunc) (prev : Option Bytes) :
    func.call succ nicks prev true = (func, .ok none) := by
  cases func <;> rfl

/-- An invalid message makes every strategy give up. -/
theorem session_failed (hinvalid : [] ∈ cmds) :
    (session succ nicks strategy cmds).1.failed = true := by
  induction cmds using List.reverseRecOn with
  | nil => cases hinvalid
  | append_singleton cmds cmd ih =>
    rw [session_concat]
    cases hfailed : (session succ nicks strategy cmds).1.failed with
    | true => rw [msgCb_failed hfailed]; exact hfailed
    | false =>
      rcases List.mem_append.mp hinvalid with hbefore | hcmd
      · cases hfailed.symm.trans (ih hbefore)
      · obtain rfl := List.mem_singleton.mp hcmd
        rw [msgCb, if_pos ⟨rfl, hfailed, .inr rfl⟩, show (([] : Bytes) == []) = true from rfl,
          call_invalid]

/-- Distinct nicks, none of which is another one followed by the added characters. -/
structure Separate (nicks : List Bytes) (added : Bytes) : Prop where
  nodup : nicks.Nodup
  followed : ∀ a ∈ nicks, ∀ b ∈ nicks, a ≠ b → ∀ m, a ≠ b ++ (List.replicate m added).flatten

theorem Separate.eq_of_append_eq (hsep : Separate nicks char) {a b : Bytes} (ha : a ∈ nicks)
    (hb : b ∈ nicks) {m n : Nat}
    (h : a ++ (List.replicate m char).flatten = b ++ (List.replicate n char).flatten) : a = b := by
  by_contra hne
  have hcancel : ∀ {a b : Bytes} {m n : Nat}, n ≤ m →
      a ++ (List.replicate m char).flatten = b ++ (List.replicate n char).flatten →
      b = a ++ (List.replicate (m - n) char).flatten := by
    intro a b m n hle h
    obtain ⟨d, rfl⟩ := Nat.exists_eq_add_of_le' hle
    rw [List.replicate_add, List.flatten_append, ← List.append_assoc] at h
    rw [Nat.add_sub_cancel]
    exact (List.append_cancel_right h).symm
  rcases Nat.le_total n m with hle | hle
  · exact hsep.followed b hb a ha (Ne.symm hne) _ (hcancel hle h)
  · exact hsep.followed a ha b hb hne _ (hcancel hle h.symm)

theorem attempt_eq_getElem (char : Bytes) (hnicks : nicks ≠ []) (k : Nat) :
    ∃ h : k % nicks.length < nicks.length, attempt nicks char k =
      nicks[k % nicks.length] ++ (List.replicate (k / nicks.length) char).flatten := by
  have hlt := Nat.mod_lt k (List.length_pos_iff.mpr hnicks)
  exact ⟨hlt, by rw [attempt, List.getD_eq_getElem _ _ hlt]⟩

theorem attempt_of_lt {k : Nat} (hlt : k < nicks.length) : attempt nicks char k = nicks[k] := by
  rw [attempt, Nat.mod_eq_of_lt hlt, Nat.div_eq_of_lt hlt, List.getD_eq_getElem _ _ hlt]
  exact List.append_nil _

theorem attempt_ne (hsep : Separate nicks char) (hnicks : nicks ≠ []) {i k : Nat} (hik : i < k)
    (hadds : char ≠ [] ∨ k < nicks.length) : attempt nicks char i ≠ attempt nicks char k := by
  intro h
  obtain ⟨hi, hattempt⟩ := attempt_eq_getElem char hnicks i
  obtain ⟨hk, hattempt'⟩ := attempt_eq_getElem char hnicks k
  rw [hattempt, hattempt'] at h
  have hnick := hsep.eq_of_append_eq (List.getElem_mem hi) (List.getElem_mem hk) h
  have hmod := (hsep.nodup.getElem_inj_iff).mp hnick
  rw [hnick] at h
  have hlength := congrArg List.length (List.append_cancel_left h)
  simp only [List.length_flatten, List.map_replicate, List.sum_replicate_nat] at hlength
  have hdiv : i / nicks.length = k / nicks.length := by
    rcases hadds with hadds | hlt
    · exact Nat.eq_of_mul_eq_mul_right (List.length_pos_iff.mpr hadds) hlength
    · rw [Nat.div_eq_of_lt hlt, Nat.div_eq_of_lt (hik.trans hlt)]
  have := Nat.div_add_mod i nicks.length
  have := Nat.div_add_mod k nicks.length
  rw [hdiv, hmod] at *
  omega

theorem attempt_fresh_iff (hsep : Separate nicks char) (hnicks : nicks ≠ []) {k : Nat} :
    attempt nicks char k ∉ (List.range k).map (attempt nicks char) ↔
      char ≠ [] ∨ k < nicks.length := by
  constructor
  · intro hfresh
    by_contra hadds
    obtain ⟨hchar, hle⟩ := not_or.mp hadds
    obtain rfl := not_not.mp hchar
    rw [Nat.not_lt] at hle
    have hpos := List.length_pos_iff.mpr hnicks
    -- Nothing is added: the nick of the previous round is tried again.
    refine hfresh (List.mem_map.mpr ⟨k - nicks.length, List.mem_range.mpr (by omega), ?_⟩)
    simp [attempt, ← Nat.mod_eq_sub_mod hle]
  · intro hadds hmem
    obtain ⟨i, hi, heq⟩ := List.mem_map.mp hmem
    exact attempt_ne hsep hnicks (List.mem_range.mp hi) hadds heq

theorem attempt_eq_iff (hsep : Separate nicks char) {start : Bytes} (hstart : start ∈ nicks) {k : Nat}
    (hadds : char ≠ [] ∨ k < nicks.length) :
    attempt nicks char k = start ↔ nicks[k]? = some start := by
  rcases Nat.lt_or_ge k nicks.length with hlt | hle
  · rw [attempt_of_lt hlt, List.getElem?_eq_getElem hlt, Option.some.injEq]
  · rw [List.getElem?_eq_none hle]
    refine iff_of_false (fun heq => ?_) nofun
    obtain ⟨i, hi, rfl⟩ := List.getElem_of_mem hstart
    exact attempt_ne hsep (List.ne_nil_of_mem hstart) (hi.trans_le hle) hadds
      ((attempt_of_lt hi).trans heq.symm)

/-- The next 433 of the session makes the handler send one NICK: another nick than the first one
and the ones sent before. -/
def Progress (succ : Bytes → Bytes) (nicks : List Bytes) (strategy : NickStrategy) (start : Bytes)
    (cmds : List Bytes) : Prop :=
  ∃ nick,
    ((session succ nicks strategy cmds).1.msgCb succ nicks strategy .registering (lit "433")).2 =
      some nick ∧
    nick ≠ start ∧ nick ∉ (session succ nicks strategy cmds).2 ∧
    ∀ env w, w.session.state = .registering →
      Client.setNick env nick w = Client.sendmessage env (lit "NICK") [some nick] w

theorem setNick_registering {env : Env} {nick : Bytes} {w : World}
    (hregistering : w.session.state = .registering) :
    Client.setNick env nick w = Client.sendmessage env (lit "NICK") [some nick] w := by
  rw [Client.setNick, Eff.get_bind_eq, if_pos (.inr hregistering)]

/-- `addchar` and `increment_num` fail on the missing previous attempt, whatever is sent. Only
`tryall` makes progress, until it comes to the first nick or has nothing to add to a nick that was
refused. -/
theorem progress_iff (succ : Bytes → Bytes) (strategy : NickStrategy) (cmds : List Bytes)
    {start : Bytes} (hsep : Separate nicks strategy.added) (hstart : start ∈ nicks) :
    Progress succ nicks strategy start cmds ↔
      (∃ adds, strategy = .tryall adds) ∧ [] ∉ cmds ∧
      nicks[cmds.count (lit "433")]? ≠ some start ∧
      (strategy.added ≠ [] ∨ cmds.count (lit "433") < nicks.length) := by
  have hnicks := List.ne_nil_of_mem hstart
  by_cases hstrategy : ∃ adds, strategy = .tryall adds
  swap
  · refine iff_of_false ?_ fun h => hstrategy h.1
    rintro ⟨nick, hnick, -⟩
    have hstuck := session_stuck succ nicks cmds fun adds h => hstrategy ⟨adds, h⟩
    rw [(msgCb_stuck (fun adds h => hstrategy ⟨adds, h⟩) hstuck).1] at hnick
    cases hnick
  by_cases hvalid : [] ∈ cmds
  · refine iff_of_false ?_ fun h => h.2.1 hvalid
    rintro ⟨nick, hnick, -⟩
    rw [msgCb_failed (session_failed hvalid)] at hnick
    cases hnick
  obtain ⟨adds, hadds⟩ := hstrategy
  obtain ⟨htries, hsent⟩ := session_tries succ hnicks hadds hvalid
  have hnext := (msgCb_refused succ hnicks htries).1
  constructor
  · rintro ⟨nick, hnick, hne, hfresh, -⟩
    obtain rfl := Option.some.inj (hnext.symm.trans hnick)
    rw [hsent] at hfresh
    have hmore := (attempt_fresh_iff hsep hnicks).mp hfresh
    exact ⟨⟨adds, hadds⟩, hvalid, mt (attempt_eq_iff hsep hstart hmore).mpr hne, hmore⟩
  · rintro ⟨-, -, hne, hmore⟩
    refine ⟨_, hnext, mt (attempt_eq_iff hsep hstart hmore).mp hne, ?_,
      fun env w => setNick_registering⟩
    rw [hsent]
    exact (attempt_fresh_iff hsep hnicks).mpr hmore

theorem progress_iff_fox :
    Progress id [lit "tux", lit "fox"] (.tryall none) (lit "tux") [lit "433"] := by
  refine (progress_iff id (.tryall none) [lit "433"] ⟨by decide, ?_⟩ (by decide)).mpr
    ⟨⟨none, rfl⟩, by decide, by decide, .inl (by decide)⟩
  intro a ha b hb hne m heq
  -- Both nicks are as long as each other, so nothing was added.
  have hlong : ∀ nick ∈ [lit "tux", lit "fox"], nick.length = 3 := by decide
  have hlength := congrArg List.length heq
  rw [List.length_append, hlong a ha, hlong b hb] at hlength
  have hnothing := List.eq_nil_of_length_eq_zero (Nat.left_eq_add.mp hlength)
  rw [hnothing, List.append_nil] at heq
  exact hne heq

/-- The first refusal makes `addchar` fail. -/
theorem addchar_sends_nothing : ¬ Progress id [lit "tux"] (.addchar none) (lit "tux") [] := by
  rintro ⟨nick, hnick, -⟩
  cases hnick

end NickCollisionHandler

end TuxBot.Irc
