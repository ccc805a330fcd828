import Mathlib.Order.Basic

/-! Computations that return or raise, and rules for what they do to their state. -/
namespace TuxBot.Lua

/-- A Lua computation. What it did to the state before it raised stays done. -/
abbrev Eff (σ α : Type) := EStateM String σ α

namespace Eff

variable {σ α β : Type}

theorem get_bind_eq (k : σ → Eff σ β) (s : σ) : (get >>= k) s = k s s := rfl

theorem modify_eq (f : σ → σ) (s : σ) : (modify f : Eff σ PUnit) s = .ok ⟨⟩ (f s) := rfl

theorem bind_congr_at {m m' : Eff σ α} {k : α → Eff σ β} {s : σ} (h : m s = m' s) :
    (m >>= k) s = (m' >>= k) s := by
  simp only [bind, EStateM.bind, h]

theorem bind_of_ok {m : Eff σ α} {k : α → Eff σ β} {s t : σ} {a : α} (h : m s = .ok a t) :
    (m >>= k) s = k a t := by
  simp only [bind, EStateM.bind, h]

theorem bind_of_error {m : Eff σ α} {k : α → Eff σ β} {s t : σ} {e : String}
    (h : m s = .error e t) : (m >>= k) s = .error e t := by
  simp only [bind, EStateM.bind, h]

/-- `pcall`: the result, if there is one, and the state in either case. -/
def pcall (m : Eff σ α) (s : σ) : Option α × σ :=
  match m s with
  | .ok a t => (some a, t)
  | .error _ t => (none, t)

theorem pcall_bind_some {m : Eff σ α} {k : α → Eff σ β} {s t : σ} {a : α}
    (h : m.pcall s = (some a, t)) : (m >>= k).pcall s = (k a).pcall t := by
  cases hm : m s with
  | ok b u =>
    obtain ⟨rfl, rfl⟩ : b = a ∧ u = t := by simpa [pcall, hm] using h
    simp only [pcall, bind, EStateM.bind, hm]
  | error e u => simp [pcall, hm] at h

theorem pcall_bind_none {m : Eff σ α} {k : α → Eff σ β} {s t : σ} (h : m.pcall s = (none, t)) :
    (m >>= k).pcall s = (none, t) := by
  cases hm : m s with
  | ok b u => simp [pcall, hm] at h
  | error e u =>
    obtain rfl : u = t := by simpa [pcall, hm] using h
    simp only [pcall, bind, EStateM.bind, hm]

/-- A call under `pcall` whose outcome nobody looks at. -/
def protect (m : Eff σ α) : Eff σ PUnit := fun s => .ok ⟨⟩ (pcall m s).2

/-- From `P`, `m` returns in `Q` or raises in `E`. -/
def Triple (P : σ → Prop) (m : Eff σ α) (Q : α → σ → Prop) (E : σ → Prop) : Prop :=
  ∀ s, P s → match m s with
    | .ok a t => Q a t
    | .error _ t => E t

/-- `m` relates the state before it to the state after it, however it ends. -/
def Moves (R : σ → σ → Prop) (m : Eff σ α) : Prop := ∀ s, Triple (· = s) m (fun _ => R s) (R s)

section Triple

variable {P P' : σ → Prop} {m : Eff σ α} {k : α → Eff σ β} {Q : α → σ → Prop}
  {S : β → σ → Prop} {E E' : σ → Prop}

theorem triple_pure {a : α} (h : ∀ s, P s → Q a s) : Triple P (pure a) Q E := h

theorem triple_bind (hm : Triple P m Q E) (hk : ∀ a, Triple (Q a) (k a) S E) :
    Triple P (m >>= k) S E := by
  intro s hs
  have hfirst := hm s hs
  simp only [bind, EStateM.bind]
  cases h : m s with
  | ok a t =>
    rw [h] at hfirst
    exact hk a t hfirst
  | error e t =>
    rw [h] at hfirst
    exact hfirst

theorem triple_get {Q : σ → σ → Prop} (h : ∀ s, P s → Q s s) : Triple P get Q E := h

/-- After `get` the state is the one that was read. -/
theorem triple_get_bind {k : σ → Eff σ β}
    (hk : ∀ r, P r → Triple (· = r) (k r) S E) : Triple P (get >>= k) S E := by
  intro s hs
  exact hk s hs s rfl

/-- From one state that is known to satisfy `P`. -/
theorem triple_at (h : Triple P m Q E) {r : σ} (hr : P r) : Triple (· = r) m Q E := by
  rintro s rfl
  exact h s hr

theorem triple_modify {f : σ → σ} {Q : PUnit → σ → Prop} (h : ∀ s, P s → Q ⟨⟩ (f s)) :
    Triple P (modify f) Q E := h

theorem triple_throw {e : String} (h : ∀ s, P s → E s) : Triple P (throw e : Eff σ α) Q E := h

theorem triple_ite {c : Prop} [Decidable c] {m' : Eff σ α} (ht : c → Triple P m Q E)
    (hf : ¬ c → Triple P m' Q E) : Triple P (if c then m else m') Q E := by
  split
  · exact ht ‹_›
  · exact hf ‹_›

theorem triple_conseq {Q' : α → σ → Prop} (h : Triple P' m Q' E') (hP : ∀ s, P s → P' s)
    (hQ : ∀ a s, Q' a s → Q a s) (hE : ∀ s, E' s → E s) : Triple P m Q E := by
  intro s hs
  have hm := h s (hP s hs)
  cases hr : m s with
  | ok a t =>
    rw [hr] at hm
    exact hQ a t hm
  | error e t =>
    rw [hr] at hm
    exact hE t hm

theorem triple_true : Triple P m (fun _ _ => True) fun _ => True := by
  intro s _
  cases m s <;> trivial

theorem triple_and {Q' : α → σ → Prop} (h : Triple P m Q E) (h' : Triple P' m Q' E') :
    Triple (fun s => P s ∧ P' s) m (fun a s => Q a s ∧ Q' a s) (fun s => E s ∧ E' s) := by
  rintro s ⟨hs, hs'⟩
  have hone := h s hs
  have htwo := h' s hs'
  cases hr : m s with
  | ok a t =>
    rw [hr] at hone htwo
    exact ⟨hone, htwo⟩
  | error e t =>
    rw [hr] at hone htwo
    exact ⟨hone, htwo⟩

theorem triple_or (h : Triple P m Q E) (h' : Triple P' m Q E) :
    Triple (fun s => P s ∨ P' s) m Q E := by
  rintro s (hs | hs)
  · exact h s hs
  · exact h' s hs

/-- Every iteration keeps `P`, so the loop does. -/
theorem triple_forM {γ : Type} {f : γ → Eff σ PUnit} (hf : ∀ x, Triple P (f x) (fun _ => P) E)
    (xs : List γ) : Triple P (xs.forM f) (fun _ => P) E := by
  induction xs with
  | nil => exact triple_pure fun _ h => h
  | cons x xs ih => exact triple_bind (hf x) fun _ => ih

/-- Every iteration returns exactly when its element is good, so the loop does when all are. `I` is
about the elements that are left. -/
theorem triple_forM_decides {γ : Type} {f : γ → Eff σ PUnit} {I : List γ → σ → Prop}
    {good : γ → Prop} (hf : ∀ x xs, Triple (I (x :: xs)) (f x) (fun _ t => good x ∧ I xs t)
      fun t => ¬ good x ∧ E t) (xs : List γ) :
    Triple (I xs) (xs.forM f) (fun _ t => (∀ x ∈ xs, good x) ∧ I [] t)
      fun t => (¬ ∀ x ∈ xs, good x) ∧ E t := by
  induction xs with
  | nil => exact triple_pure fun _ h => ⟨by simp, h⟩
  | cons x xs ih =>
    refine triple_bind (Q := fun _ t => good x ∧ I xs t) ?_ fun _ => ?_
    · exact triple_conseq (hf x xs) (fun _ h => h) (fun _ _ h => h)
        fun _ h => ⟨fun hall => h.1 (hall x List.mem_cons_self), h.2⟩
    · rintro s ⟨hx, hs⟩
      refine triple_conseq ih (fun _ h => h) (fun _ _ h => ⟨?_, h.2⟩)
        (fun _ h => ⟨fun hall => h.1 fun y hy => hall y (List.mem_cons_of_mem x hy), h.2⟩) s hs
      rintro y (_ | ⟨_, hy⟩)
      · exact hx
      · exact h.1 y hy

theorem triple_pcall (h : Triple P m Q E) {s : σ} (hs : P s) :
    (∀ a t, m.pcall s = (some a, t) → Q a t) ∧ (∀ t, m.pcall s = (none, t) → E t) := by
  have hm := h s hs
  unfold pcall
  cases hr : m s with
  | ok a t =>
    rw [hr] at hm
    refine ⟨?_, by simp⟩
    intro b u he
    cases he
    exact hm
  | error e t =>
    rw [hr] at hm
    refine ⟨by simp, ?_⟩
    intro u he
    cases he
    exact hm

/-- What holds however `m` ends holds after `pcall`. -/
theorem triple_after (h : Triple P m (fun _ => E) E) {s : σ} (hs : P s) : E (m.pcall s).2 := by
  obtain ⟨hok, herr⟩ := triple_pcall h hs
  cases hr : m.pcall s with
  | mk result t =>
    cases result with
    | none => exact herr t hr
    | some a => exact hok a t hr

/-- What never raises leads to what holds when it returns. -/
theorem triple_after_return {S : σ → Prop} (h : Triple P m (fun _ => S) fun _ => False) {s : σ}
    (hs : P s) : S (m.pcall s).2 :=
  triple_after (triple_conseq h (fun _ h => h) (fun _ _ h => h) fun _ h => h.elim) hs

/-- What raises in no state returns. -/
theorem triple_returns (h : Triple P m Q fun _ => False) {s : σ} (hs : P s) :
    ∃ a t, m s = .ok a t ∧ Q a t := by
  have hm := h s hs
  cases hr : m s with
  | ok a t =>
    rw [hr] at hm
    exact ⟨a, t, rfl, hm⟩
  | error e t =>
    rw [hr] at hm
    exact hm.elim

end Triple

section Moves

variable {R : σ → σ → Prop} {m : Eff σ α} {k : α → Eff σ β}

theorem moves_pure (hr : ∀ s, R s s) {a : α} : Moves R (pure a : Eff σ α) := by
  intro s
  exact triple_pure fun t ht => ht ▸ hr s

theorem moves_get (hr : ∀ s, R s s) : Moves R (get : Eff σ σ) := by
  intro s
  exact triple_get fun t ht => ht ▸ hr s

theorem moves_modify {f : σ → σ} (h : ∀ s, R s (f s)) : Moves R (modify f : Eff σ PUnit) := by
  intro s
  exact triple_modify fun t ht => ht ▸ h s

theorem moves_throw (hr : ∀ s, R s s) {e : String} : Moves R (throw e : Eff σ α) := by
  intro s
  exact triple_throw fun t ht => ht ▸ hr s

theorem moves_bind (ht : ∀ a b c, R a b → R b c → R a c) (hm : Moves R m)
    (hk : ∀ a, Moves R (k a)) : Moves R (m >>= k) := by
  intro s
  apply triple_bind (hm s)
  intro a r hr
  exact triple_conseq (hk a r) (fun _ h => h) (fun _ t h => ht s r t hr h)
    (fun t h => ht s r t hr h) r rfl

theorem moves_ite {c : Prop} [Decidable c] {m' : Eff σ α} (hm : Moves R m) (hm' : Moves R m') :
    Moves R (if c then m else m') := by
  split <;> assumption

theorem moves_forM (hr : ∀ s, R s s) (ht : ∀ a b c, R a b → R b c → R a c) {γ : Type}
    {f : γ → Eff σ PUnit} (hf : ∀ x, Moves R (f x)) (xs : List γ) : Moves R (xs.forM f) := by
  induction xs with
  | nil => exact moves_pure hr
  | cons x xs ih => exact moves_bind ht (hf x) fun _ => ih

theorem moves_pcall (h : Moves R m) (s : σ) : R s (m.pcall s).2 := by
  have hm := h s s rfl
  unfold pcall
  cases hr : m s with
  | ok a t => rwa [hr] at hm
  | error e t => rwa [hr] at hm

/-- A move carries any assertion it respects through a computation. -/
theorem triple_of_moves {P : σ → Prop} (h : Moves R m) (hp : ∀ s t, R s t → P s → P t) :
    Triple P m (fun _ => P) P := by
  intro s hs
  exact triple_conseq (h s) (fun _ h => h) (fun _ t ht => hp s t ht hs) (fun t ht => hp s t ht hs)
    s rfl

end Moves

end Eff

end TuxBot.Lua
