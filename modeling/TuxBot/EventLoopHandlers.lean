import TuxBot.EventLoopTimers

/-! Which removed handlers the event loop still calls: those that the current step has yet to reach. -/
namespace TuxBot

open TuxBot.Machine

variable {ρ κ τ : Type} [DecidableEq ρ] [DecidableEq κ] {l m u : Loop ρ κ τ}
  {a : LoopInput ρ κ τ} {side : Side} {sock : ρ} {callback : κ}

/-- The entry registers the callback for the socket. -/
def Registration.Is (r : Registration ρ κ) (sock : ρ) (callback : κ) : Prop :=
  r.sock = sock ∧ r.callback = callback

instance (r : Registration ρ κ) (sock : ρ) (callback : κ) : Decidable (r.Is sock callback) :=
  inferInstanceAs (Decidable (_ ∧ _))

namespace EventLoop

variable {e : EventLoop ρ κ τ} {side' : Side} {r : Registration ρ κ}

omit [DecidableEq ρ] [DecidableEq κ] in
theorem mem_add : r ∈ (e.add side' sock callback).handlers side ↔
    r ∈ e.handlers side ∨ (side, r) = (side', ⟨e.nextKey, sock, callback⟩) := by
  cases side' <;> cases side <;>
    simp [add, addReadableHandler, addWritableHandler, handlers, or_comm]

theorem mem_remove : r ∈ (e.remove side' sock callback).handlers side ↔
    r ∈ e.handlers side ∧ ¬ (side' = side ∧ r.Is sock callback) := by
  cases side' <;> cases side <;>
    simp [remove, removeReadableHandler, removeWritableHandler, handlers, Registration.Is,
      imp_iff_not_or]

/-- The tables that the loop takes the key of a callback out of. -/
def Drops (side' : Side) (result : Option Bool) (side : Side) : Prop :=
  result = some false ∧ side = side' ∨ result = none ∧ side = .writable

omit [DecidableEq ρ] [DecidableEq κ] in
theorem mem_after {key : Nat} {result : Option Bool} : r ∈ (e.after side' key result).handlers side ↔
    r ∈ e.handlers side ∧ ¬ (Drops side' result side ∧ r.key = key) := by
  cases side' <;> cases side <;> rcases result with _ | _ | _ <;>
    simp [after, afterReadable, afterWritable, handlers, dropReadable, dropWritable, Drops]

end EventLoop

namespace Loop

/-- The entries that the current step may still call for the side. -/
def left (l : Loop ρ κ τ) (side : Side) : List (Registration ρ κ) :=
  match l.phase with
  | .sockets rounds => (rounds.filter fun round => round.side = side).flatMap Round.left
  | _ => []

/-- The calls of a handler, each with the clock at the call. -/
def callsOf (l : Loop ρ κ τ) (side : Side) (sock : ρ) (callback : κ) : List (Callee ρ κ × ℚ) :=
  l.calls.filter fun c => match c.1 with
    | .handler s r => s = side ∧ r.Is sock callback
    | .timer _ => False

omit [DecidableEq ρ] [DecidableEq κ] in
theorem mem_left {r : Registration ρ κ} : r ∈ l.left side ↔
    ∃ rounds, l.phase = .sockets rounds ∧ ∃ round ∈ rounds, round.side = side ∧ r ∈ round.left := by
  unfold left
  split
  · rename_i rounds hphase
    simp [hphase, and_assoc]
  · rename_i hphase
    simp only [List.not_mem_nil, false_iff, not_exists, not_and]
    intro rounds hrounds
    exact absurd hrounds (hphase rounds)

/-- Neither the table nor the rest of the step has the handler. -/
structure Absent (side : Side) (sock : ρ) (callback : κ) (l : Loop ρ κ τ) : Prop where
  table : ∀ r ∈ l.tables.handlers side, ¬ r.Is sock callback
  left : ∀ r ∈ l.left side, ¬ r.Is sock callback

omit [DecidableEq κ] in
theorem absent_select {readable writable : List ρ}
    (h : Absent side sock callback l) : Absent side sock callback (l.select readable writable) := by
  refine ⟨h.table, fun r hr => ?_⟩
  obtain ⟨rounds, hrounds, round, hround, hside, hr⟩ := mem_left.mp hr
  cases hrounds
  rcases List.mem_append.mp hround with hround | hround
  · obtain ⟨s, -, rfl⟩ := List.mem_map.mp hround
    exact h.table r (hside ▸ (List.mem_filter.mp hr).1)
  · obtain ⟨s, -, rfl⟩ := List.mem_map.mp hround
    exact h.table r (hside ▸ (List.mem_filter.mp hr).1)

/-- The entry that is called was left, so it is not of the handler. -/
theorem absent_call {r : Registration ρ κ} (h : Absent side sock callback l)
    (hs : l.step (.call r) = some u) : Absent side sock callback u ∧
      u.callsOf side sock callback = l.callsOf side sock callback := by
  obtain ⟨round, rounds, -, hphase, hr, rfl⟩ := step_call hs
  refine ⟨⟨h.table, fun s hs => ?_⟩, ?_⟩
  · obtain ⟨rounds', hrounds, round', hround, hside, hs⟩ := mem_left.mp hs
    cases hrounds
    apply h.left s
    rcases List.mem_cons.mp hround with rfl | hround
    · exact mem_left.mpr ⟨_, hphase, round, List.mem_cons_self, hside, List.mem_of_mem_erase hs⟩
    · exact mem_left.mpr ⟨_, hphase, round', List.mem_cons_of_mem _ hround, hside, hs⟩
  · have hother : ¬ (round.side = side ∧ r.Is sock callback) := by
      rintro ⟨hside, his⟩
      exact h.left r (mem_left.mpr ⟨_, hphase, round, List.mem_cons_self, hside, hr⟩) his
    simp only [callsOf, invoke, List.filter_append, List.filter_cons, List.filter_nil]
    simp [hother]

/-- A timer that is visited concerns no handler. -/
theorem absent_visit {i : Nat} (h : Absent side sock callback l) (hs : l.step (.visit i) = some u) :
    Absent side sock callback u ∧ u.callsOf side sock callback = l.callsOf side sock callback := by
  obtain ⟨visited, known, t, -, hphase, -, -, rfl⟩ := step_visit hs
  refine ⟨⟨?_, fun r hr => ?_⟩, ?_⟩
  · unfold visit
    split
    · split <;> exact h.table
    · exact h.table
  · obtain ⟨rounds, hrounds, -⟩ := mem_left.mp hr
    cases hrounds
  · unfold visit
    split
    · split <;> simp [callsOf, invoke, dropTimer]
    · rfl

/-- Until it is added again an absent handler stays absent, and is not called. -/
theorem absent_step (h : Absent side sock callback l) (hs : l.step a = some u)
    (hadd : a ≠ .add side sock callback) :
    Absent side sock callback u ∧ u.callsOf side sock callback = l.callsOf side sock callback := by
  cases a with
  | clock now =>
    obtain rfl := Option.some.inj hs
    exact ⟨⟨h.table, h.left⟩, rfl⟩
  | select readable writable =>
    obtain ⟨-, ⟨⟩⟩ := Option.ite_none_right_eq_some.mp hs
    exact ⟨absent_select h, rfl⟩
  | call r => exact absent_call h hs
  | visit i => exact absent_visit h hs
  | ended result =>
    obtain ⟨callee, -, rfl⟩ := step_ended hs
    cases callee with
    | handler side' r => exact ⟨⟨fun s hs => h.table s (EventLoop.mem_after.mp hs).1, h.left⟩, rfl⟩
    | timer i =>
      refine ⟨⟨?_, h.left⟩, rfl⟩
      cases side <;> exact h.table
  | next =>
    obtain ⟨-, phase, rfl, hphase⟩ := step_next hs
    refine ⟨⟨h.table, fun r hr => ?_⟩, rfl⟩
    obtain ⟨rounds', hrounds, round', hround, hside, hr'⟩ := mem_left.mp hr
    rcases hphase with ⟨round, rounds, hphase, rfl⟩ | hphase
    · cases hrounds
      exact h.left r (mem_left.mpr ⟨_, hphase, round', List.mem_cons_of_mem _ hround, hside, hr'⟩)
    · exact absurd hrounds (hphase rounds')
  | add side' sock' callback' =>
    obtain ⟨-, ⟨⟩⟩ := Option.ite_none_right_eq_some.mp hs
    refine ⟨⟨fun r hr his => ?_, h.left⟩, rfl⟩
    rcases EventLoop.mem_add.mp hr with hr | heq
    · exact h.table r hr his
    · obtain ⟨rfl, rfl⟩ := Prod.mk.inj heq
      obtain ⟨rfl, rfl⟩ := his
      exact hadd rfl
  | remove side' sock' callback' =>
    obtain ⟨-, ⟨⟩⟩ := Option.ite_none_right_eq_some.mp hs
    exact ⟨⟨fun r hr => h.table r (EventLoop.mem_remove.mp hr).1, h.left⟩, rfl⟩
  | timer timeout callback' =>
    obtain ⟨-, ⟨⟩⟩ := Option.ite_none_right_eq_some.mp hs
    refine ⟨⟨?_, h.left⟩, rfl⟩
    cases side <;> exact h.table
  | cancel i =>
    obtain ⟨-, ⟨⟩⟩ := Option.ite_none_right_eq_some.mp hs
    refine ⟨⟨?_, h.left⟩, rfl⟩
    cases side <;> exact h.table

theorem absent_run {inputs : List (LoopInput ρ κ τ)} (h : Absent side sock callback l)
    (hrun : run step l inputs = some u) (hadd : .add side sock callback ∉ inputs) :
    u.callsOf side sock callback = l.callsOf side sock callback := by
  have hothers : Along step (fun _ a => a ≠ .add side sock callback) l inputs :=
    along_of_forall fun a ha _ heq => hadd (heq ▸ ha)
  refine (run_keeps_along (I := fun v => Absent side sock callback v ∧
    v.callsOf side sock callback = l.callsOf side sock callback) ?_ ⟨h, rfl⟩ hothers hrun).2
  rintro s a t ⟨habsent, hcalls⟩ hne hs
  obtain ⟨habsent, hsame⟩ := absent_step habsent hs hne
  exact ⟨habsent, hsame.trans hcalls⟩

/-! ### An entry that is left can be reached -/

theorem call_head {side' : Side} {r : Registration ρ κ} {rs : List (Registration ρ κ)}
    {rounds : List (Round ρ κ)} (hrunning : l.running = none)
    (hphase : l.phase = .sockets (⟨side', r :: rs⟩ :: rounds)) :
    l.step (.call r) = some { l.invoke (.handler side' r) with
      phase := .sockets (⟨side', rs⟩ :: rounds) } := by
  simp [step, hrunning, hphase]

/-- The loop calls the entries of its rounds one after another until it has called the handler. -/
theorem call_of_left {rounds : List (Round ρ κ)} (hrunning : l.running = none)
    (hphase : l.phase = .sockets rounds)
    (hleft : ∃ round ∈ rounds, round.side = side ∧ ∃ r ∈ round.left, r.Is sock callback) :
    ∃ inputs u, run step l inputs = some u ∧ .add side sock callback ∉ inputs ∧
      (l.callsOf side sock callback).length < (u.callsOf side sock callback).length := by
  induction rounds generalizing l with
  | nil =>
    obtain ⟨round, hround, -⟩ := hleft
    cases hround
  | cons round rounds ih =>
    obtain ⟨side', left⟩ := round
    induction left generalizing l with
    | nil =>
      have hnext : l.step .next = some { l with phase := .sockets rounds } := by
        simp [step, hrunning, hphase]
      obtain ⟨round, hround, hside, r, hr, his⟩ := hleft
      rcases List.mem_cons.mp hround with rfl | hround
      · cases hr
      · obtain ⟨inputs, u, hu, hadd, hcalls⟩ :=
          ih (l := { l with phase := .sockets rounds }) hrunning rfl
            ⟨round, hround, hside, r, hr, his⟩
        refine ⟨.next :: inputs, u, ?_, by simpa using hadd, hcalls⟩
        rw [run, hnext]
        exact hu
    | cons r rs ihleft =>
      let called : Loop ρ κ τ :=
        { l.invoke (.handler side' r) with phase := .sockets (⟨side', rs⟩ :: rounds) }
      have hcall : l.step (.call r) = some called := call_head hrunning hphase
      by_cases his : side' = side ∧ r.Is sock callback
      · refine ⟨[.call r], called, ?_, by simp, ?_⟩
        · rw [run, hcall]
          rfl
        · simp [called, callsOf, invoke, List.filter_append, his]
      · let v := called.ended (some true) (.handler side' r)
        have hv : run step l [.call r, .ended (some true)] = some v := by
          rw [run, hcall]
          rfl
        have hvcalls : v.callsOf side sock callback = l.callsOf side sock callback := by
          simp [v, called, callsOf, ended, invoke, List.filter_append, his]
        obtain ⟨inputs, u, hu, hadd, hcalls⟩ := ihleft (l := v) rfl rfl (by
          obtain ⟨round, hround, hside, s, hs, hsame⟩ := hleft
          rcases List.mem_cons.mp hround with rfl | hround
          · rcases List.mem_cons.mp hs with rfl | hs
            · exact absurd ⟨hside, hsame⟩ his
            · exact ⟨_, List.mem_cons_self, hside, s, hs, hsame⟩
          · exact ⟨round, List.mem_cons_of_mem _ hround, hside, s, hs, hsame⟩)
        refine ⟨[.call r, .ended (some true)] ++ inputs, u, ?_, by simpa using hadd, hvcalls ▸ hcalls⟩
        rw [run_append, hv]
        exact hu

/-- After a removal the handler is not called before it is added again, exactly when the step that
the removal falls into has no entry of it left to call. -/
theorem removed_not_called_iff (l m : Loop ρ κ τ) (side : Side) (sock : ρ) (callback : κ)
    (hremove : l.step (.remove side sock callback) = some m) :
    (∀ inputs u, run step m inputs = some u → .add side sock callback ∉ inputs →
      u.callsOf side sock callback = m.callsOf side sock callback) ↔
      ∀ r ∈ l.left side, ¬ r.Is sock callback := by
  obtain ⟨hopen, ⟨⟩⟩ := Option.ite_none_right_eq_some.mp hremove
  constructor
  · intro hquiet r hr his
    obtain ⟨rounds, hphase, round, hround, hside, hr⟩ := mem_left.mp hr
    obtain ⟨callee, hcallee⟩ : ∃ callee, l.running = some callee := by
      rcases hopen with hrunning | houtside
      · exact Option.isSome_iff_exists.mp hrunning
      · cases hphase.symm.trans houtside
    let removed := { l with tables := l.tables.remove side sock callback }
    let idle := removed.ended (some true) callee
    have hidle : removed.step (.ended (some true)) = some idle := by
      simp [removed, idle, step, hcallee]
    have hstate : idle.running = none ∧ idle.phase = .sockets rounds ∧
        idle.calls = removed.calls := by
      cases callee with
      | handler side' r' => exact ⟨rfl, hphase, rfl⟩
      | timer i => exact ⟨rfl, hphase, rfl⟩
    obtain ⟨inputs, u, hu, hadd, hcalls⟩ :=
      call_of_left hstate.1 hstate.2.1 ⟨round, hround, hside, r, hr, his⟩
    have hsame : idle.callsOf side sock callback = removed.callsOf side sock callback := by
      rw [callsOf, hstate.2.2, callsOf]
    have hfinal := hquiet (.ended (some true) :: inputs) u (by
      rw [run]
      exact (congrArg (·.bind fun t => run step t inputs) hidle).trans hu) (by simpa using hadd)
    rw [hsame, ← hfinal] at hcalls
    exact lt_irrefl _ hcalls
  · intro hnone inputs u hrun hadd
    refine absent_run ⟨fun r hr his => ?_, hnone⟩ hrun hadd
    exact (EventLoop.mem_remove.mp hr).2 ⟨rfl, his⟩

/-- A handler removed by a timer, between two steps: nothing of it is left. -/
theorem removed_not_called_timer : ∃ l m : Loop Nat Nat Nat,
    run step (new 0) [.add .readable 0 0, .timer 0 0, .select [0] [], .call ⟨0, 0, 0⟩,
      .ended (some true), .next, .next, .visit 0] = some l ∧
      l.step (.remove .readable 0 0) = some m ∧
      ∀ inputs u, run step m inputs = some u → .add .readable 0 0 ∉ inputs →
        u.callsOf .readable 0 0 = m.callsOf .readable 0 0 := by
  obtain ⟨l, hrun, hl⟩ := Option.map_eq_some_iff.mp
    (by decide +kernel : (run (step (ρ := Nat) (κ := Nat) (τ := Nat)) (new 0)
      [.add .readable 0 0, .timer 0 0, .select [0] [], .call ⟨0, 0, 0⟩, .ended (some true), .next,
        .next, .visit 0]).map (fun l => (decide l.Open, l.left .readable)) = some (true, []))
  obtain ⟨hopen, hleft⟩ := Prod.mk.inj hl
  have hremove : l.step (.remove .readable 0 0) =
      some { l with tables := l.tables.remove .readable 0 0 } := if_pos (of_decide_eq_true hopen)
  refine ⟨l, _, hrun, hremove, (removed_not_called_iff l _ _ _ _ hremove).mpr ?_⟩
  rw [hleft]
  intro r hr
  cases hr

/-- The readable handler of a socket removes the writable one, as `_reconnect` does. Both were due,
so the removed one is called in the same step. -/
theorem removed_handler_called : ∃ m u : Loop Nat Nat Nat,
    run step (new 0) [.add .readable 0 0, .add .writable 0 1, .select [0] [0], .call ⟨0, 0, 0⟩,
      .remove .writable 0 1] = some m ∧
      run step m [.ended (some true), .next, .call ⟨1, 0, 1⟩] = some u ∧
      u.callsOf .writable 0 1 ≠ m.callsOf .writable 0 1 := by
  obtain ⟨m, hm, hrest⟩ := Option.map_eq_some_iff.mp
    (by decide +kernel : (run (step (ρ := Nat) (κ := Nat) (τ := Nat)) (new 0)
      [.add .readable 0 0, .add .writable 0 1, .select [0] [0], .call ⟨0, 0, 0⟩,
        .remove .writable 0 1]).map (fun m => ((m.callsOf .writable 0 1).length,
          (run step m [.ended (some true), .next, .call ⟨1, 0, 1⟩]).map
            fun u => (u.callsOf .writable 0 1).length)) = some (0, some 1))
  obtain ⟨hbefore, hafter⟩ := Prod.mk.inj hrest
  obtain ⟨u, hu, hcalls⟩ := Option.map_eq_some_iff.mp hafter
  refine ⟨m, u, hm, hu, fun h => ?_⟩
  rw [h, hbefore] at hcalls
  cases hcalls

end Loop

end TuxBot
