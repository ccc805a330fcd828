import TuxBot.EventLoopHandlers

/-! How long a registration lasts in a step: what its callback returned, and who removed it. -/
namespace TuxBot

open TuxBot.Machine

variable {ρ κ τ : Type}

/-- What happened since the last step began: the entries of the tables then, those made and those
removed since, and the results of the callbacks. -/
structure StepLog (ρ κ : Type) where
  starts : List (Side × Registration ρ κ)
  added : List (Side × Registration ρ κ)
  removed : List (Side × Registration ρ κ)
  ended : List (Side × Registration ρ κ × Option Bool)

namespace StepLog

def new : StepLog ρ κ := ⟨[], [], [], []⟩

/-- The entries that there were. -/
def known (log : StepLog ρ κ) : List (Side × Registration ρ κ) := log.starts ++ log.added

/-- The loop has taken the entry out of its table: a readable callback that raised stays in. -/
def Dropped (log : StepLog ρ κ) (side : Side) (r : Registration ρ κ) : Prop :=
  (side, r, some false) ∈ log.ended ∨ side = .writable ∧ (side, r, none) ∈ log.ended

/-- Every readable callback that raised was removed in the step, or also returned a false value in it. -/
def Contained (log : StepLog ρ κ) : Prop :=
  ∀ r, (.readable, r, none) ∈ log.ended →
    (.readable, r) ∈ log.removed ∨ (.readable, r, some false) ∈ log.ended

/-- The log goes on with what an input does. -/
def after [DecidableEq ρ] [DecidableEq κ] (log : StepLog ρ κ) (l : Loop ρ κ τ) :
    LoopInput ρ κ τ → StepLog ρ κ
  | .select _ _ =>
    { new with starts := l.tables.readableHandlers.map (.readable, ·) ++
        l.tables.writableHandlers.map (.writable, ·) }
  | .ended result =>
    match l.running with
    | some (.handler side r) => { log with ended := log.ended ++ [(side, r, result)] }
    | _ => log
  | .add side sock callback =>
    { log with added := log.added ++ [(side, ⟨l.tables.nextKey, sock, callback⟩)] }
  | .remove side sock callback =>
    { log with removed := log.removed ++
        ((l.tables.handlers side).filter fun r => r.Is sock callback).map (side, ·) }
  | _ => log

end StepLog

namespace Loop

/-- The loop with the log of its step. -/
def logged [DecidableEq ρ] [DecidableEq κ] (t : Loop ρ κ τ × StepLog ρ κ) (a : LoopInput ρ κ τ) :
    Option (Loop ρ κ τ × StepLog ρ κ) :=
  (t.1.step a).map fun u => (u, t.2.after t.1 a)

/-- Who is registered, after what has happened in the step. -/
structure Lifetime (l : Loop ρ κ τ) (log : StepLog ρ κ) : Prop where
  /-- A callback that raised or returned a false value is not. -/
  failed : ∀ side r result, (side, r, result) ∈ log.ended → result ≠ some true →
    r ∉ l.tables.handlers side
  /-- A callback that returned a true value is, unless somebody removed it. -/
  kept : ∀ side r, (side, r, some true) ∈ log.ended →
    (∀ result, (side, r, result) ∈ log.ended → result = some true) →
    (side, r) ∉ log.removed → r ∈ l.tables.handlers side
  /-- A new registration is, unless somebody removed it. -/
  added : ∀ side r, (side, r) ∈ log.added → (side, r) ∉ log.removed → r ∈ l.tables.handlers side

/-- The tables are what the log says. -/
structure Sound (l : Loop ρ κ τ) (log : StepLog ρ κ) : Prop where
  fresh : ∀ x ∈ log.known, x.2.key < l.tables.nextKey
  distinct : ∀ x ∈ log.known, ∀ y ∈ log.known, x.2.key = y.2.key → x = y
  apart : ∀ x ∈ log.starts, x ∉ log.added
  left : ∀ side, ∀ r ∈ l.left side, (side, r) ∈ log.starts
  running : ∀ side r, l.running = some (.handler side r) → (side, r) ∈ log.starts
  ended : ∀ side r result, (side, r, result) ∈ log.ended → (side, r) ∈ log.starts
  removed : ∀ x ∈ log.removed, x ∈ log.known
  registered : ∀ side r, r ∈ l.tables.handlers side ↔
    (side, r) ∈ log.known ∧ (side, r) ∉ log.removed ∧ ¬ log.Dropped side r

variable {l u : Loop ρ κ τ} {log : StepLog ρ κ} {a : LoopInput ρ κ τ} {side side' : Side}
  {r s : Registration ρ κ} {sock : ρ} {callback : κ} {result : Option Bool}

theorem sound_new (now : ℚ) : Sound (new now : Loop ρ κ τ) .new := by
  refine ⟨nofun, nofun, nofun, fun side r hr => ?_, nofun, nofun, nofun, fun side r => ?_⟩
  · obtain ⟨_, hphase, -⟩ := mem_left.mp hr
    cases hphase
  · cases side <;> simp [new, EventLoop.new, EventLoop.handlers, StepLog.new, StepLog.known]

/-- The clauses do not speak of the clock, the timers and the record of the calls. -/
theorem Sound.congr (h : Sound l log) (hkey : u.tables.nextKey = l.tables.nextKey)
    (htables : ∀ side, u.tables.handlers side = l.tables.handlers side)
    (hleft : ∀ side, ∀ r ∈ u.left side, r ∈ l.left side)
    (hrunning : ∀ side r, u.running = some (.handler side r) →
      l.running = some (.handler side r) ∨ r ∈ l.left side) : Sound u log := by
  refine ⟨fun x hx => hkey ▸ h.fresh x hx, h.distinct, h.apart,
    fun side r hr => h.left side r (hleft side r hr), fun side r hr => ?_, h.ended, h.removed,
    fun side r => htables side ▸ h.registered side r⟩
  rcases hrunning side r hr with hr | hr
  · exact h.running side r hr
  · exact h.left side r hr

theorem Sound.known_of_ended (h : Sound l log) (hended : (side, r, result) ∈ log.ended) :
    (side, r) ∈ log.known :=
  List.mem_append_left _ (h.ended side r result hended)

/-- A key that has not been given out belongs to no entry of the log. -/
theorem Sound.nextKey_ne (h : Sound l log) (hkey : r.key = l.tables.nextKey) :
    (side, r) ∉ log.known := by
  intro hknown
  exact Nat.lt_irrefl _ (hkey ▸ h.fresh _ hknown)

/-! ### One input -/

variable [DecidableEq ρ] [DecidableEq κ]

theorem mem_starts {readable writable : List ρ} :
    (side, r) ∈ (log.after l (.select readable writable)).starts ↔ r ∈ l.tables.handlers side := by
  cases side <;> simp [StepLog.after, EventLoop.handlers]

theorem sound_select {readable writable : List ρ} (h : Sound l log) (hrunning : l.running = none) :
    Sound (l.select readable writable) (log.after l (.select readable writable)) := by
  have hknown : ∀ x ∈ (log.after l (.select readable writable)).starts, x ∈ log.known := by
    rintro ⟨side, r⟩ hx
    exact ((h.registered side r).mp (mem_starts.mp hx)).1
  have hnone : (log.after l (.select readable writable)).known =
      (log.after l (.select readable writable)).starts := List.append_nil _
  refine ⟨?_, ?_, nofun, ?_, ?_, nofun, nofun, fun side r => ?_⟩
  · intro x hx
    exact h.fresh x (hknown x (hnone ▸ hx))
  · intro x hx y hy
    exact h.distinct x (hknown x (hnone ▸ hx)) y (hknown y (hnone ▸ hy))
  · intro side r hr
    refine mem_starts.mpr ?_
    obtain ⟨rounds, hrounds, round, hround, rfl, hmem⟩ := mem_left.mp hr
    cases hrounds
    rcases List.mem_append.mp hround with hround | hround
    · obtain ⟨_, -, rfl⟩ := List.mem_map.mp hround
      exact (List.mem_filter.mp hmem).1
    · obtain ⟨_, -, rfl⟩ := List.mem_map.mp hround
      exact (List.mem_filter.mp hmem).1
  · intro side r hr
    cases hrunning.symm.trans hr
  · rw [hnone, mem_starts]
    refine ⟨fun hr => ⟨hr, nofun, ?_⟩, fun hr => hr.1⟩
    rintro (hended | ⟨-, hended⟩) <;> cases hended

omit [DecidableEq ρ] [DecidableEq κ] in
/-- The key of a callback is the key of its own entry only. -/
theorem Sound.drops_iff (h : Sound l log) (hr : (side, r) ∈ log.known)
    (hs : (side', s) ∈ log.known) : EventLoop.Drops side result side' ∧ s.key = r.key ↔
      (side', s) = (side, r) ∧ (result = some false ∨ side' = .writable ∧ result = none) := by
  constructor
  · rintro ⟨hdrops, hkey⟩
    refine ⟨h.distinct _ hs _ hr hkey, ?_⟩
    rcases hdrops with ⟨hresult, -⟩ | ⟨hresult, hside⟩
    · exact .inl hresult
    · exact .inr ⟨hside, hresult⟩
  · rintro ⟨heq, hresult⟩
    obtain ⟨rfl, rfl⟩ := Prod.mk.inj heq
    rcases hresult with hresult | ⟨hside, hresult⟩
    · exact ⟨.inl ⟨hresult, rfl⟩, rfl⟩
    · exact ⟨.inr ⟨hresult, hside⟩, rfl⟩

omit [DecidableEq ρ] [DecidableEq κ] in
theorem dropped_concat : ({ log with ended := log.ended ++ [(side, r, result)] }).Dropped side' s ↔
    log.Dropped side' s ∨
      (side', s) = (side, r) ∧ (result = some false ∨ side' = .writable ∧ result = none) := by
  simp only [StepLog.Dropped, List.mem_append, List.mem_singleton, Prod.mk.injEq]
  grind

theorem sound_ended (h : Sound l log) (hrunning : l.running = some (.handler side r)) :
    Sound (l.ended result (.handler side r)) (log.after l (.ended result)) := by
  have hr := h.running side r hrunning
  have hafter : log.after l (.ended result) =
      { log with ended := log.ended ++ [(side, r, result)] } := by
    rw [StepLog.after, hrunning]
  rw [hafter]
  refine ⟨?_, h.distinct, h.apart, h.left, nofun, ?_, h.removed, fun side' s => ?_⟩
  · intro x hx
    cases side <;> rcases result with _ | _ | _ <;> exact h.fresh x hx
  · intro side' s result' hmem
    rcases List.mem_append.mp hmem with hmem | hmem
    · exact h.ended side' s result' hmem
    · obtain ⟨⟩ := List.mem_singleton.mp hmem
      exact hr
  · refine EventLoop.mem_after.trans ?_
    rw [h.registered, dropped_concat]
    constructor
    · rintro ⟨⟨hknown, hremoved, hdropped⟩, hkeep⟩
      rw [h.drops_iff (List.mem_append_left _ hr) hknown] at hkeep
      exact ⟨hknown, hremoved, fun hor => hor.elim hdropped hkeep⟩
    · rintro ⟨hknown, hremoved, hdropped⟩
      obtain ⟨hdropped, hkeep⟩ := not_or.mp hdropped
      rw [← h.drops_iff (List.mem_append_left _ hr) hknown] at hkeep
      exact ⟨⟨hknown, hremoved, hdropped⟩, hkeep⟩

theorem sound_add (h : Sound l log) :
    Sound { l with tables := l.tables.add side sock callback }
      (log.after l (.add side sock callback)) := by
  let new : Registration ρ κ := ⟨l.tables.nextKey, sock, callback⟩
  have hnew : ∀ side', (side', new) ∉ log.known := fun _ => h.nextKey_ne rfl
  have hkey : (l.tables.add side sock callback).nextKey = l.tables.nextKey + 1 := by
    cases side <;> rfl
  have hknown : ∀ x, x ∈ (log.after l (.add side sock callback)).known ↔
      x ∈ log.known ∨ x = (side, new) := by
    intro x
    simp [StepLog.after, StepLog.known, new, or_assoc]
  refine ⟨fun x hx => ?_, fun x hx y hy hxy => ?_, fun x hx hadded => ?_, h.left, h.running, h.ended,
    fun x hx => (hknown x).mpr (.inl (h.removed x hx)), fun side' s => ?_⟩
  · refine hkey ▸ ?_
    rcases (hknown x).mp hx with hx | rfl
    · exact Nat.lt_succ_of_lt (h.fresh x hx)
    · exact Nat.lt_succ_self _
  · rcases (hknown x).mp hx with hx | rfl <;> rcases (hknown y).mp hy with hy | rfl
    · exact h.distinct x hx y hy hxy
    · exact (h.nextKey_ne hxy hx).elim
    · exact (h.nextKey_ne hxy.symm hy).elim
    · rfl
  · rcases List.mem_append.mp hadded with hadded | hadded
    · exact h.apart x hx hadded
    · obtain rfl := List.mem_singleton.mp hadded
      exact hnew side (List.mem_append_left _ hx)
  · refine EventLoop.mem_add.trans ?_
    rw [h.registered, hknown]
    constructor
    · rintro (⟨hs, hkept⟩ | heq)
      · exact ⟨.inl hs, hkept⟩
      · obtain ⟨rfl, rfl⟩ := Prod.mk.inj heq
        refine ⟨.inr rfl, fun hremoved => hnew _ (h.removed _ hremoved), ?_⟩
        rintro (hended | ⟨-, hended⟩) <;> exact hnew _ (h.known_of_ended hended)
    · rintro ⟨hs | heq, hkept⟩
      · exact .inl ⟨hs, hkept⟩
      · exact .inr heq

theorem sound_remove (h : Sound l log) :
    Sound { l with tables := l.tables.remove side sock callback }
      (log.after l (.remove side sock callback)) := by
  have hkey : (l.tables.remove side sock callback).nextKey = l.tables.nextKey := by
    cases side <;> rfl
  have hremoved : ∀ x, x ∈ (log.after l (.remove side sock callback)).removed ↔
      x ∈ log.removed ∨ x.2 ∈ l.tables.handlers side ∧ side = x.1 ∧ x.2.Is sock callback := by
    rintro ⟨side', s⟩
    simp only [StepLog.after, List.mem_append, List.mem_map, List.mem_filter, decide_eq_true_eq,
      Prod.mk.injEq]
    grind
  refine ⟨fun x hx => hkey ▸ h.fresh x hx, h.distinct, h.apart, h.left, h.running, h.ended,
    fun x hx => ?_, fun side' s => ?_⟩
  · rcases (hremoved x).mp hx with hx | ⟨hs, rfl, -⟩
    · exact h.removed x hx
    · exact ((h.registered _ _).mp hs).1
  · refine EventLoop.mem_remove.trans ?_
    rw [hremoved, h.registered]
    constructor
    · rintro ⟨⟨hknown, hkept, hdropped⟩, hother⟩
      refine ⟨hknown, ?_, hdropped⟩
      rintro (hx | ⟨-, his⟩)
      · exact hkept hx
      · exact hother his
    · rintro ⟨hknown, hkept, hdropped⟩
      obtain ⟨hkept, hother⟩ := not_or.mp hkept
      refine ⟨⟨hknown, hkept, hdropped⟩, fun his => hother ⟨?_, his⟩⟩
      obtain ⟨rfl, -⟩ := his
      exact (h.registered side s).mpr ⟨hknown, hkept, hdropped⟩

theorem sound_call (h : Sound l log) (hs : l.step (.call r) = some u) : Sound u log := by
  obtain ⟨round, rounds, -, hphase, hr, rfl⟩ := step_call hs
  refine h.congr rfl (fun _ => rfl) (fun side s hs => ?_) fun side s hs => .inr ?_
  · obtain ⟨rounds', hrounds, round', hround, hside, hs⟩ := mem_left.mp hs
    cases hrounds
    rcases List.mem_cons.mp hround with rfl | hround
    · exact mem_left.mpr ⟨_, hphase, round, List.mem_cons_self, hside, List.mem_of_mem_erase hs⟩
    · exact mem_left.mpr ⟨_, hphase, round', List.mem_cons_of_mem _ hround, hside, hs⟩
  · cases hs
    exact mem_left.mpr ⟨_, hphase, round, List.mem_cons_self, rfl, hr⟩

theorem sound_visit {i : Nat} (h : Sound l log) (hs : l.step (.visit i) = some u) : Sound u log := by
  obtain ⟨visited, known, t, hrunning, -, -, -, rfl⟩ := step_visit hs
  have hvisit : (l.visit i t).tables.nextKey = l.tables.nextKey ∧
      (∀ side, (l.visit i t).tables.handlers side = l.tables.handlers side) ∧
      ∀ side r, (l.visit i t).running ≠ some (.handler side r) := by
    unfold visit
    split
    · split
      · exact ⟨rfl, fun _ => rfl, nofun⟩
      · exact ⟨rfl, fun side => by cases side <;> rfl, by simp [dropTimer, hrunning]⟩
    · exact ⟨rfl, fun _ => rfl, by simp [hrunning]⟩
  obtain ⟨hkey, htables, hother⟩ := hvisit
  refine h.congr hkey htables (fun side r hr => ?_) fun side r hr => (hother side r hr).elim
  obtain ⟨rounds, hrounds, -⟩ := mem_left.mp hr
  cases hrounds

theorem sound_step (h : Sound l log) (hs : l.step a = some u) : Sound u (log.after l a) := by
  cases a with
  | clock now =>
    obtain rfl := Option.some.inj hs
    exact h.congr rfl (fun _ => rfl) (fun _ _ => id) fun _ _ => .inl
  | select readable writable =>
    obtain ⟨⟨hrunning, -⟩, ⟨⟩⟩ := Option.ite_none_right_eq_some.mp hs
    exact sound_select h hrunning
  | call r => exact sound_call h hs
  | visit i => exact sound_visit h hs
  | ended result =>
    obtain ⟨callee, hcallee, rfl⟩ := step_ended hs
    cases callee with
    | handler side r => exact sound_ended h hcallee
    | timer i =>
      have hafter : log.after l (.ended result) = log := by rw [StepLog.after, hcallee]
      rw [hafter]
      refine h.congr rfl (fun side => ?_) (fun _ _ => id) nofun
      cases side <;> rfl
  | next =>
    obtain ⟨-, phase, rfl, hphase⟩ := step_next hs
    refine h.congr rfl (fun _ => rfl) (fun side r hr => ?_) fun _ _ => .inl
    obtain ⟨rounds', hrounds, round', hround, hside, hr'⟩ := mem_left.mp hr
    rcases hphase with ⟨round, rounds, hphase, rfl⟩ | hphase
    · cases hrounds
      exact mem_left.mpr ⟨_, hphase, round', List.mem_cons_of_mem _ hround, hside, hr'⟩
    · exact absurd hrounds (hphase rounds')
  | add side sock callback =>
    obtain ⟨-, ⟨⟩⟩ := Option.ite_none_right_eq_some.mp hs
    exact sound_add h
  | remove side sock callback =>
    obtain ⟨-, ⟨⟩⟩ := Option.ite_none_right_eq_some.mp hs
    exact sound_remove h
  | timer timeout callback =>
    obtain ⟨-, ⟨⟩⟩ := Option.ite_none_right_eq_some.mp hs
    refine h.congr rfl (fun side => ?_) (fun _ _ => id) fun _ _ => .inl
    cases side <;> rfl
  | cancel i =>
    obtain ⟨-, ⟨⟩⟩ := Option.ite_none_right_eq_some.mp hs
    refine h.congr rfl (fun side => ?_) (fun _ _ => id) fun _ _ => .inl
    cases side <;> rfl

theorem sound_run {inputs : List (LoopInput ρ κ τ)} {log' : StepLog ρ κ} (h : Sound l log)
    (hrun : run logged (l, log) inputs = some (u, log')) : Sound u log' := by
  refine run_keeps (I := fun t : Loop ρ κ τ × StepLog ρ κ => Sound t.1 t.2) ?_ h hrun
  intro t a v ht hv
  obtain ⟨u, hu, rfl⟩ := Option.map_eq_some_iff.mp hv
  exact sound_step ht hu

omit [DecidableEq ρ] [DecidableEq κ] in
theorem Sound.lifetime_iff_contained (h : Sound l log) : Lifetime l log ↔ log.Contained := by
  constructor
  · intro hlife r hraised
    have hgone := hlife.failed _ _ _ hraised nofun
    by_contra hkept
    obtain ⟨hremoved, hreturned⟩ := not_or.mp hkept
    refine hgone ((h.registered _ _).mpr ⟨h.known_of_ended hraised, hremoved, ?_⟩)
    rintro (hfalse | ⟨⟨⟩, -⟩)
    exact hreturned hfalse
  · intro hcontained
    refine ⟨fun side r result hended hresult hr => ?_, fun side r hended htrue hkept => ?_,
      fun side r hadded hkept => ?_⟩
    · obtain ⟨-, hkept, hdropped⟩ := (h.registered side r).mp hr
      rcases result with _ | _ | _
      · cases side with
        | readable =>
          rcases hcontained r hended with hremoved | hfalse
          · exact hkept hremoved
          · exact hdropped (.inl hfalse)
        | writable => exact hdropped (.inr ⟨rfl, hended⟩)
      · exact hdropped (.inl hended)
      · exact hresult rfl
    · refine (h.registered side r).mpr ⟨h.known_of_ended hended, hkept, ?_⟩
      rintro (hfalse | ⟨-, hraised⟩)
      · cases htrue _ hfalse
      · cases htrue _ hraised
    · -- A new entry is in no snapshot, so it was not called.
      refine (h.registered side r).mpr ⟨List.mem_append_right _ hadded, hkept, ?_⟩
      rintro (hended | ⟨-, hended⟩) <;> exact h.apart _ (h.ended _ _ _ hended) hadded

/-- In every run the tables hold what they should exactly where every readable callback that raised was
removed in its step in some other way. -/
theorem lifetime_iff (now : ℚ) (inputs : List (LoopInput ρ κ τ)) (l : Loop ρ κ τ)
    (log : StepLog ρ κ) (hrun : run logged (new now, .new) inputs = some (l, log)) :
    Lifetime l log ↔ log.Contained :=
  (sound_run (sound_new now) hrun).lifetime_iff_contained

/-- A readable callback that returns a false value, and a writable one that raises. -/
theorem lifetime_iff_step : ∃ (l : Loop Nat Nat Nat) (log : StepLog Nat Nat),
    run logged (new 0, .new) [.add .readable 0 0, .add .writable 0 1, .select [0] [0],
      .call ⟨0, 0, 0⟩, .ended (some false), .next, .call ⟨1, 0, 1⟩, .ended none, .next, .next,
      .next] = some (l, log) ∧ l.phase = .outside ∧ Lifetime l log := by
  obtain ⟨⟨l, log⟩, hrun, hend⟩ := Option.map_eq_some_iff.mp
    (by decide +kernel : (run (logged (ρ := Nat) (κ := Nat) (τ := Nat)) (new 0, .new)
      [.add .readable 0 0, .add .writable 0 1, .select [0] [0], .call ⟨0, 0, 0⟩, .ended (some false),
        .next, .call ⟨1, 0, 1⟩, .ended none, .next, .next, .next]).map
      (fun t => (t.1.phase, t.2.ended)) =
      some (.outside, [(.readable, ⟨0, 0, 0⟩, some false), (.writable, ⟨1, 0, 1⟩, none)]))
  obtain ⟨hphase, hended⟩ := Prod.mk.inj hend
  refine ⟨l, log, hrun, hphase, (lifetime_iff 0 _ l log hrun).mpr fun r hr => ?_⟩
  rw [show log.ended = _ from hended] at hr
  simp at hr

/-- A readable callback that raises is still registered when its step has ended. -/
theorem raising_readable_kept : ∃ (l : Loop Nat Nat Nat) (log : StepLog Nat Nat),
    run logged (new 0, .new) [.add .readable 0 0, .select [0] [], .call ⟨0, 0, 0⟩, .ended none, .next,
      .next, .next] = some (l, log) ∧ l.phase = .outside ∧ ¬ Lifetime l log := by
  obtain ⟨⟨l, log⟩, hrun, hend⟩ := Option.map_eq_some_iff.mp
    (by decide +kernel : (run (logged (ρ := Nat) (κ := Nat) (τ := Nat)) (new 0, .new)
      [.add .readable 0 0, .select [0] [], .call ⟨0, 0, 0⟩, .ended none, .next, .next, .next]).map
      (fun t => (t.1.phase, decide (⟨0, 0, 0⟩ ∈ t.1.tables.readableHandlers),
        decide ((Side.readable, ⟨0, 0, 0⟩, none) ∈ t.2.ended))) = some (.outside, true, true))
  obtain ⟨hphase, hrest⟩ := Prod.mk.inj hend
  obtain ⟨hkept, hraised⟩ := Prod.mk.inj hrest
  refine ⟨l, log, hrun, hphase, fun hlife => ?_⟩
  exact hlife.failed _ _ _ (of_decide_eq_true hraised) nofun (of_decide_eq_true hkept)

end Loop

end TuxBot
