import Mathlib.Data.List.Nodup
import TuxBot.EventLoopStep

/-! What a step of the event loop does to the timers, and what every run keeps of them. -/
namespace TuxBot

open TuxBot.Machine

variable {ρ κ τ : Type}

namespace Timers

variable {ts us vs : Timers τ} {i j : Nat}

/-- What may happen to timers: more are made, and what was cancelled or has left stays so. -/
def Ages (ts us : Timers τ) : Prop :=
  ∀ (i : Nat) (t : Timer τ), ts[i]? = some t → ∃ t', us[i]? = some t' ∧ t'.time = t.time ∧
    (t.pending = false → t'.pending = false) ∧ (t.running = false → t'.running = false)

theorem ages_refl (ts : Timers τ) : Ages ts ts := fun _ t ht => ⟨t, ht, rfl, id, id⟩

theorem ages_timer (time : ℚ) (callback : τ) : Ages ts (ts.timer time callback) := by
  intro i t ht
  have hi := (List.getElem?_eq_some_iff.mp ht).1
  exact ⟨t, (List.getElem?_append_left hi).trans ht, rfl, id, id⟩

theorem getElem?_cancel : (ts.cancel i)[j]? =
    if i = j then ts[j]?.map fun t => { t with running := false } else ts[j]? := by
  rw [cancel, List.getElem?_modify]
  split <;> simp_all

theorem getElem?_expire : (ts.expire i)[j]? =
    if i = j then ts[j]?.map fun t => { t with pending := false } else ts[j]? := by
  rw [expire, List.getElem?_modify]
  split <;> simp_all

theorem ages_cancel (i : Nat) : Ages ts (ts.cancel i) := by
  intro j t ht
  rw [getElem?_cancel, ht]
  split
  · exact ⟨_, rfl, rfl, id, fun _ => rfl⟩
  · exact ⟨t, rfl, rfl, id, id⟩

theorem ages_expire (i : Nat) : Ages ts (ts.expire i) := by
  intro j t ht
  rw [getElem?_expire, ht]
  split
  · exact ⟨_, rfl, rfl, fun _ => rfl, id⟩
  · exact ⟨t, rfl, rfl, id, id⟩

end Timers

open Timers

variable [DecidableEq ρ] [DecidableEq κ] {l u : Loop ρ κ τ} {a : LoopInput ρ κ τ} {i : Nat}

namespace Loop

/-! ### What the calls of the loop were possible for -/

theorem step_call {r : Registration ρ κ} (h : l.step (.call r) = some u) :
    ∃ round rounds, l.running = none ∧ l.phase = .sockets (round :: rounds) ∧ r ∈ round.left ∧
      u = { l.invoke (.handler round.side r) with
        phase := .sockets ({ round with left := round.left.erase r } :: rounds) } := by
  simp only [step] at h
  split at h
  · rename_i round rounds hrunning hphase
    obtain ⟨hr, ⟨⟩⟩ := Option.ite_none_right_eq_some.mp h
    exact ⟨round, rounds, hrunning, hphase, hr, rfl⟩
  · cases h

theorem step_visit (h : l.step (.visit i) = some u) :
    ∃ visited known t, l.running = none ∧ l.phase = .timers visited known ∧
      l.tables.timers[i]? = some t ∧ t.pending = true ∧
      u = { l.visit i t with phase := .timers (i :: visited) known } := by
  simp only [step] at h
  split at h
  · rename_i visited known t hrunning hphase ht
    obtain ⟨⟨hpending, -⟩, ⟨⟩⟩ := Option.ite_none_right_eq_some.mp h
    exact ⟨visited, known, t, hrunning, hphase, ht, hpending, rfl⟩
  · cases h

theorem step_ended {result : Option Bool} (h : l.step (.ended result) = some u) :
    ∃ callee, l.running = some callee ∧ u = l.ended result callee := by
  obtain ⟨callee, hcallee, rfl⟩ := Option.map_eq_some_iff.mp h
  exact ⟨callee, hcallee, rfl⟩

/-- The loop goes on: only the phase changes, and no round is made. -/
theorem step_next (h : l.step .next = some u) :
    l.running = none ∧ ∃ phase, u = { l with phase } ∧
      ((∃ round rounds, l.phase = .sockets (round :: rounds) ∧ phase = .sockets rounds) ∨
        (∀ rounds, phase ≠ .sockets rounds)) := by
  simp only [step] at h
  split at h
  · rename_i hrunning hphase
    obtain rfl := Option.some.inj h
    exact ⟨hrunning, _, rfl, Or.inr (by simp)⟩
  · rename_i round rounds hrunning hphase
    obtain ⟨-, ⟨⟩⟩ := Option.ite_none_right_eq_some.mp h
    exact ⟨hrunning, _, rfl, Or.inl ⟨round, rounds, hphase, rfl⟩⟩
  · rename_i visited known hrunning hphase
    obtain ⟨-, ⟨⟩⟩ := Option.ite_none_right_eq_some.mp h
    exact ⟨hrunning, _, rfl, Or.inr (by simp)⟩
  · cases h

/-- The calls of timers, each with the clock at the call. -/
def timerCalls (l : Loop ρ κ τ) : List (Nat × ℚ) :=
  l.calls.filterMap fun
    | (.timer i, clock) => some (i, clock)
    | (.handler _ _, _) => none

/-- What one step can do to the timers. -/
inductive TimerMove (l u : Loop ρ κ τ) : LoopInput ρ κ τ → Prop where
  | same {a : LoopInput ρ κ τ} : u.tables.timers = l.tables.timers → u.timerCalls = l.timerCalls →
      (∀ i, l.running = some (.timer i) → u.running = some (.timer i)) → TimerMove l u a
  | made {timeout : ℚ} {callback : τ} :
      u.tables.timers = l.tables.timers.timer (l.now + timeout) callback →
      u.timerCalls = l.timerCalls → u.running = l.running → TimerMove l u (.timer timeout callback)
  | cancelled {i : Nat} : i < l.tables.timers.length →
      u.tables.timers = l.tables.timers.cancel i →
      u.timerCalls = l.timerCalls → u.running = l.running → TimerMove l u (.cancel i)
  | invoked {i : Nat} (t : Timer τ) : l.running = none → l.tables.timers[i]? = some t →
      t.pending = true → t.running = true → t.time ≤ l.now →
      u.tables.timers = l.tables.timers → u.timerCalls = l.timerCalls ++ [(i, l.now)] →
      u.running = some (.timer i) → TimerMove l u (.visit i)
  | dropped {i : Nat} (t : Timer τ) : l.running = none → l.tables.timers[i]? = some t →
      t.running = false → t.time ≤ l.now → u.tables.timers = l.tables.timers.expire i →
      u.timerCalls = l.timerCalls → TimerMove l u (.visit i)
  | ended {i : Nat} {result : Option Bool} : l.running = some (.timer i) →
      u.tables.timers = l.tables.timers.expire i → u.timerCalls = l.timerCalls →
      u.running = none → TimerMove l u (.ended result)

omit [DecidableEq ρ] [DecidableEq κ] in
theorem timers_after (e : EventLoop ρ κ τ) (side : Side) (key : Nat) (result : Option Bool) :
    (e.after side key result).timers = e.timers := by
  cases side <;> rcases result with _ | _ | _ <;> rfl

theorem timerMove_step (h : l.step a = some u) : TimerMove l u a := by
  cases a with
  | clock now =>
    obtain rfl := Option.some.inj h
    exact .same rfl rfl fun _ => id
  | select readable writable =>
    obtain ⟨-, ⟨⟩⟩ := Option.ite_none_right_eq_some.mp h
    exact .same rfl rfl fun _ => id
  | call r =>
    obtain ⟨round, rounds, hrunning, -, -, rfl⟩ := step_call h
    refine .same rfl ?_ fun i hi => ?_
    · simp [timerCalls, invoke]
    · cases hrunning.symm.trans hi
  | visit i =>
    obtain ⟨visited, known, t, hrunning, -, ht, hpending, rfl⟩ := step_visit h
    unfold visit
    by_cases hdue : t.time ≤ l.now
    · rw [if_pos hdue]
      cases hlive : t.running with
      | true => exact .invoked t hrunning ht hpending hlive hdue rfl (by simp [timerCalls, invoke]) rfl
      | false => exact .dropped t hrunning ht hlive hdue rfl rfl
    · rw [if_neg hdue]
      exact .same rfl rfl fun _ => id
  | ended result =>
    obtain ⟨callee, hrunning, rfl⟩ := step_ended h
    cases callee with
    | handler side r =>
      refine .same (timers_after ..) rfl fun i hi => ?_
      cases hrunning.symm.trans hi
    | timer i => exact .ended hrunning rfl rfl rfl
  | next =>
    obtain ⟨-, phase, rfl, -⟩ := step_next h
    exact .same rfl rfl fun _ => id
  | add side sock callback =>
    obtain ⟨-, ⟨⟩⟩ := Option.ite_none_right_eq_some.mp h
    cases side <;> exact .same rfl rfl fun _ => id
  | remove side sock callback =>
    obtain ⟨-, ⟨⟩⟩ := Option.ite_none_right_eq_some.mp h
    cases side <;> exact .same rfl rfl fun _ => id
  | timer timeout callback =>
    obtain ⟨-, ⟨⟩⟩ := Option.ite_none_right_eq_some.mp h
    exact .made rfl rfl rfl
  | cancel i =>
    obtain ⟨⟨-, hi⟩, ⟨⟩⟩ := Option.ite_none_right_eq_some.mp h
    exact .cancelled hi rfl rfl rfl

theorem ages_step (h : l.step a = some u) : Ages l.tables.timers u.tables.timers := by
  cases timerMove_step h with
  | same hts _ _ => exact hts ▸ ages_refl _
  | made hts _ _ => exact hts ▸ ages_timer _ _
  | cancelled _ hts _ _ => exact hts ▸ ages_cancel _
  | invoked _ _ _ _ _ _ hts _ _ => exact hts ▸ ages_refl _
  | dropped _ _ _ _ _ hts _ => exact hts ▸ ages_expire _
  | ended _ hts _ _ => exact hts ▸ ages_expire _

/-- Timers that were called: each once, when it was due, and none of them will be visited again. -/
structure Spent (l : Loop ρ κ τ) : Prop where
  once : (l.timerCalls.map Prod.fst).Nodup
  due : ∀ i clock, (i, clock) ∈ l.timerCalls →
    ∃ t, l.tables.timers[i]? = some t ∧ t.time ≤ clock
  left : ∀ i clock, (i, clock) ∈ l.timerCalls → l.running = some (.timer i) ∨
    ∀ t ∈ l.tables.timers[i]?, t.pending = false

omit [DecidableEq ρ] [DecidableEq κ] in
theorem spent_new (now : ℚ) : Spent (.new now : Loop ρ κ τ) := by
  constructor
  · exact List.nodup_nil
  · intro i clock h
    cases h
  · intro i clock h
    cases h

omit [DecidableEq ρ] [DecidableEq κ] in
/-- A step that calls no timer, and ends no call without dropping the timer. -/
theorem spent_of_same (h : Spent l) (hages : Ages l.tables.timers u.tables.timers)
    (hcalls : u.timerCalls = l.timerCalls)
    (hleft : ∀ i, l.running = some (.timer i) → u.running = some (.timer i) ∨
      ∀ t ∈ u.tables.timers[i]?, t.pending = false) : Spent u := by
  constructor
  · rw [hcalls]
    exact h.once
  · intro i clock hi
    obtain ⟨t, ht, hdue⟩ := h.due i clock (hcalls ▸ hi)
    obtain ⟨t', ht', htime, -, -⟩ := hages i t ht
    exact ⟨t', ht', htime ▸ hdue⟩
  · intro i clock hi
    obtain ⟨t, ht, -⟩ := h.due i clock (hcalls ▸ hi)
    obtain ⟨t', ht', -, hgone, -⟩ := hages i t ht
    rcases h.left i clock (hcalls ▸ hi) with hrunning | hpending
    · exact hleft i hrunning
    · right
      intro s hs
      obtain rfl := Option.some.inj (ht'.symm.trans hs)
      exact hgone (hpending t ht)

theorem spent_step (h : Spent l) (hs : l.step a = some u) : Spent u := by
  have hages := ages_step hs
  cases timerMove_step hs with
  | same _ hcalls hrunning => exact spent_of_same h hages hcalls fun i hi => Or.inl (hrunning i hi)
  | made _ hcalls hrunning =>
    exact spent_of_same h hages hcalls fun i hi => Or.inl (hrunning.trans hi)
  | cancelled _ _ hcalls hrunning =>
    exact spent_of_same h hages hcalls fun i hi => Or.inl (hrunning.trans hi)
  | dropped _ hidle _ _ _ _ hcalls =>
    refine spent_of_same h hages hcalls fun i hi => ?_
    cases hidle.symm.trans hi
  | @ended j _ hidle hts hcalls _ =>
    refine spent_of_same h hages hcalls fun i hi => Or.inr fun t ht => ?_
    obtain rfl : j = i := by simpa using hidle.symm.trans hi
    rw [hts, getElem?_expire, if_pos rfl] at ht
    obtain ⟨t', -, rfl⟩ := Option.map_eq_some_iff.mp ht
    rfl
  | @invoked j t hidle ht hpending _ hdue hts hcalls hrunning =>
    have hnew : ∀ clock, (j, clock) ∉ l.timerCalls := by
      intro clock hj
      rcases h.left j clock hj with hr | hgone
      · cases hidle.symm.trans hr
      · cases hpending.symm.trans (hgone t ht)
    constructor
    · rw [hcalls, List.map_append, List.nodup_append]
      refine ⟨h.once, by simp, ?_⟩
      intro x hx y hy hxy
      obtain ⟨⟨k, clock⟩, hk, rfl⟩ := List.mem_map.mp hx
      obtain rfl : y = j := by simpa using hy
      exact hnew clock (hxy ▸ hk)
    · intro k clock hk
      rw [hts]
      rcases List.mem_append.mp (hcalls ▸ hk) with hk | hk
      · exact h.due k clock hk
      · obtain ⟨rfl, rfl⟩ := Prod.mk.inj (List.mem_singleton.mp hk)
        exact ⟨t, ht, hdue⟩
    · intro k clock hk
      rw [hts]
      rcases List.mem_append.mp (hcalls ▸ hk) with hk | hk
      · rcases h.left k clock hk with hr | hgone
        · cases hidle.symm.trans hr
        · exact Or.inr hgone
      · obtain ⟨rfl, rfl⟩ := Prod.mk.inj (List.mem_singleton.mp hk)
        exact Or.inl hrunning

/-- A timer that was cancelled, and the calls it has had. -/
def Cancelled (i : Nat) (had : List (Nat × ℚ)) (l : Loop ρ κ τ) : Prop :=
  (∃ t, l.tables.timers[i]? = some t ∧ t.running = false) ∧
    l.timerCalls.filter (·.1 = i) = had

theorem cancelled_step {had : List (Nat × ℚ)} (h : Cancelled i had l) (hs : l.step a = some u) :
    Cancelled i had u := by
  obtain ⟨⟨t, ht, hstopped⟩, hhad⟩ := h
  obtain ⟨t', ht', -, -, hkeep⟩ := ages_step hs i t ht
  refine ⟨⟨t', ht', hkeep hstopped⟩, ?_⟩
  cases timerMove_step hs with
  | same _ hcalls _ => rw [hcalls, hhad]
  | made _ hcalls _ => rw [hcalls, hhad]
  | cancelled _ _ hcalls _ => rw [hcalls, hhad]
  | dropped _ _ _ _ _ _ hcalls => rw [hcalls, hhad]
  | ended _ _ hcalls _ => rw [hcalls, hhad]
  | @invoked j r _ hr _ hlive _ _ hcalls _ =>
    have hne : j ≠ i := by
      rintro rfl
      obtain rfl := Option.some.inj (ht.symm.trans hr)
      cases hlive.symm.trans hstopped
    rw [hcalls, List.filter_append, hhad]
    simp [hne]

/-- The timer has left `_timers` in this step. -/
theorem left_step {t t' : Timer τ} (hs : l.step a = some u) (ht : l.tables.timers[i]? = some t)
    (hpending : t.pending = true) (ht' : u.tables.timers[i]? = some t')
    (hleft : t'.pending = false) : (∃ result, a = .ended result ∧ l.running = some (.timer i)) ∨
      a = .visit i ∧ t.time ≤ l.now ∧ t.running = false := by
  have hstays : u.tables.timers[i]? ≠ some t := by
    intro h
    obtain rfl := Option.some.inj (h.symm.trans ht')
    cases hpending.symm.trans hleft
  have hi := (List.getElem?_eq_some_iff.mp ht).1
  cases timerMove_step hs with
  | same hts _ _ => exact absurd (hts ▸ ht) hstays
  | invoked _ _ _ _ _ _ hts _ _ => exact absurd (hts ▸ ht) hstays
  | made hts _ _ => exact absurd (hts ▸ (List.getElem?_append_left hi).trans ht) hstays
  | @cancelled j _ hts _ _ =>
    rw [hts, getElem?_cancel, ht] at ht'
    split at ht'
    · obtain rfl := Option.some.inj ht'
      cases hpending.symm.trans hleft
    · obtain rfl := Option.some.inj ht'
      cases hpending.symm.trans hleft
  | @dropped j r _ hr hstopped hdue hts _ =>
    by_cases hj : j = i
    · subst hj
      obtain rfl := Option.some.inj (ht.symm.trans hr)
      exact Or.inr ⟨rfl, hdue, hstopped⟩
    · exact absurd (by rw [hts, getElem?_expire, if_neg hj, ht]) hstays
  | @ended j result hrunning hts _ _ =>
    by_cases hj : j = i
    · subst hj
      exact Or.inl ⟨result, rfl, hrunning⟩
    · exact absurd (by rw [hts, getElem?_expire, if_neg hj, ht]) hstays

/-- In every run each timer is called at most once, not before its time and not after it was
cancelled, and it leaves `_timers` when its call ends or when it is found due and cancelled. -/
theorem timer_contract (now : ℚ) (inputs : List (LoopInput ρ κ τ)) (l : Loop ρ κ τ)
    (hrun : run step (new now) inputs = some l) (i : Nat) :
    (l.timerCalls.map Prod.fst).count i ≤ 1 ∧
    (∀ clock, (i, clock) ∈ l.timerCalls →
      ∃ t, l.tables.timers[i]? = some t ∧ t.time ≤ clock) ∧
    (∀ before after m, inputs = before ++ .cancel i :: after →
      run step (new now) (before ++ [.cancel i]) = some m →
      l.timerCalls.filter (·.1 = i) = m.timerCalls.filter (·.1 = i)) ∧
    ∀ before a after s u t t', inputs = before ++ a :: after → run step (new now) before = some s →
      s.step a = some u → s.tables.timers[i]? = some t → t.pending = true →
      u.tables.timers[i]? = some t' → t'.pending = false →
      (∃ result, a = .ended result ∧ s.running = some (.timer i)) ∨
        a = .visit i ∧ t.time ≤ s.now ∧ t.running = false := by
  have hspent : Spent l := run_keeps (fun _ _ _ h hs => spent_step h hs) (spent_new now) hrun
  refine ⟨List.nodup_iff_count_le_one.mp hspent.once i, hspent.due i, ?_, ?_⟩
  · rintro before after m rfl hm
    have hrest : run step m after = some l := by
      rw [List.append_cons, run_append, hm] at hrun
      exact hrun
    have hcancelled : Cancelled i (m.timerCalls.filter (·.1 = i)) m := by
      refine ⟨?_, rfl⟩
      rw [run_append] at hm
      obtain ⟨s, -, hs⟩ := Option.bind_eq_some_iff.mp hm
      obtain ⟨m', hcancel, hend⟩ := run_cons_some hs
      obtain rfl : m' = m := Option.some.inj hend
      obtain ⟨⟨-, hi⟩, ⟨⟩⟩ := Option.ite_none_right_eq_some.mp hcancel
      refine ⟨{ s.tables.timers[i] with running := false }, ?_, rfl⟩
      refine (getElem?_cancel.trans (if_pos rfl)).trans ?_
      rw [List.getElem?_eq_getElem hi, Option.map_some]
    exact (run_keeps (fun _ _ _ h hs => cancelled_step h hs) hcancelled hrest).2
  · rintro before a after s u t t' - - hs ht hpending ht' hleft
    exact left_step hs ht hpending ht' hleft

/-- The first timer cancels the second, which is due as well, makes a third and raises; the third is
visited in the same traversal. -/
theorem timer_contract_cancel : ∃ l : Loop Nat Nat Nat,
    run step (new 0) [.timer 0 0, .timer 0 0, .select [] [], .next, .visit 0, .cancel 1, .timer 0 0,
      .ended none, .visit 1, .visit 2, .ended (some true), .next] = some l ∧
      l.timerCalls = [(0, 0), (2, 0)] ∧ ∀ i, (l.timerCalls.map Prod.fst).count i ≤ 1 := by
  obtain ⟨l, hrun, hcalls⟩ := Option.map_eq_some_iff.mp
    (by decide +kernel : (run (step (ρ := Nat) (κ := Nat) (τ := Nat)) (new 0) [.timer 0 0,
      .timer 0 0, .select [] [], .next, .visit 0, .cancel 1, .timer 0 0, .ended none, .visit 1,
      .visit 2, .ended (some true), .next]).map timerCalls = some [(0, 0), (2, 0)])
  exact ⟨l, hrun, hcalls, fun i => (timer_contract 0 _ l hrun i).1⟩

end Loop

end TuxBot
