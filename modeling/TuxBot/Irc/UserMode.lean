import TuxBot.Irc.ClientRun
import TuxBot.Irc.ModeReader

/-! The two readers of mode changes: a Client hands a change of its own mode to `applymode` as it is,
the ChannelTracker applies it letter by letter. -/
namespace TuxBot.Irc

open TuxBot.Lua TuxBot.Lua.Eff Tracker

variable {mode change : Bytes} {positive : Bool} {x : UInt8}

/-- The letters of a change one at a time, each under the sign before it. -/
def applyLetters (mode : Bytes) : Bool → Bytes → Bytes
  | _, [] => mode
  | positive, char :: change =>
    if char = 43 then applyLetters mode true change
    else if char = 45 then applyLetters mode false change
    else
      let sign : Bytes := if positive then "+" else "-"
      applyLetters (applymode mode (sign ++ [char])) positive change

/-- The sign before the last occurrence of a letter. -/
def lastSign (letter : UInt8) : Bool → Bytes → Option Bool
  | _, [] => none
  | positive, char :: change =>
    if char = 43 then lastSign letter true change
    else if char = 45 then lastSign letter false change
    else (lastSign letter positive change).or (if char = letter then some positive else none)

/-- What the change of a mode string may consist of. -/
def ModeString (change : Bytes) : Prop := ∀ b ∈ change, b = 43 ∨ b = 45 ∨ isAlpha b

theorem ModeString.tail {b : UInt8} (h : ModeString (b :: change)) : ModeString change :=
  fun d hd => h d (List.mem_cons_of_mem b hd)

theorem ModeString.head {b : UInt8} (h : ModeString (b :: change)) (hplus : b ≠ 43) (hminus : b ≠ 45) :
    isAlpha b :=
  ((h b List.mem_cons_self).resolve_left hplus).resolve_left hminus

section Tracker

variable {s : Session} {args : List Bytes} {name : Bytes} {m : ModeScan}

/-- The ChannelTracker applies parameterless modes so. -/
theorem foldl_char_applyLetters (m : ModeScan) (hchange : ModeString change)
    (hd : ∀ b ∈ change, s.isupport.classOf b = .d) :
    ((change.foldl (ModeScan.char s args name) m).chan.mode.getD "+") =
      applyLetters (m.chan.mode.getD "+") m.positive change := by
  induction change generalizing m with
  | nil => rfl
  | cons char change ih =>
    have hrest := fun m => ih m hchange.tail fun b hb => hd b (List.mem_cons_of_mem char hb)
    rw [List.foldl_cons, hrest]
    by_cases hplus : char = 43
    · simp [ModeScan.char, applyLetters, hplus]
    · by_cases hminus : char = 45
      · simp [ModeScan.char, applyLetters, hminus]
      · have halnum : isAlnum char = true := by simp [isAlnum, hchange.head hplus hminus]
        have hclass := hd char List.mem_cons_self
        obtain ⟨hsign, -, hchan⟩ := letter_reads s args name char m
        simp only [ModeScan.char, applyLetters, hplus, hminus, halnum, if_true, if_false, hsign, hchan]
        simp only [Chan.apply, readingOf, hclass, Chan.changeMode, Option.getD_some]

end Tracker

theorem lastSign_isSome (hplus : x ≠ 43) (hminus : x ≠ 45) :
    (lastSign x positive change).isSome = true ↔ x ∈ change := by
  induction change generalizing positive with
  | nil => simp [lastSign]
  | cons char change ih =>
    simp only [lastSign, List.mem_cons]
    split_ifs with h43 h45 hx
    · simp [ih, h43, hplus]
    · simp [ih, h45, hminus]
    · simp [hx]
    · simp [ih, Ne.symm hx]

/-- One at a time, the last sign of a letter decides. -/
theorem mem_applyLetters (mode : Bytes) (positive : Bool) (hchange : ModeString change)
    (hx : x ≠ 43) : x ∈ applyLetters mode positive change ↔
      match lastSign x positive change with
      | some sign => sign = true
      | none => x ∈ mode := by
  induction change generalizing mode positive with
  | nil => rfl
  | cons char change ih =>
    by_cases h43 : char = 43
    · simpa [applyLetters, lastSign, h43] using ih mode true hchange.tail
    · by_cases h45 : char = 45
      · simpa [applyLetters, lastSign, h45] using ih mode false hchange.tail
      · have halnum : isAlnum char = true := by simp [isAlnum, hchange.head h43 h45]
        have hmem := mem_applymode mode positive halnum hx
        have hrest := ih (applymode mode ((if positive then lit "+" else lit "-") ++ [char])) positive
          hchange.tail
        simp only [applyLetters, lastSign, h43, h45, if_false]
        refine hrest.trans ?_
        cases hlast : lastSign x positive change with
        | some sign => simp
        | none =>
          by_cases hchar : x = char
          · simpa [hchar] using hmem
          · simpa [hchar, Ne.symm hchar] using hmem

/-- The Client agrees when the last sign of every letter is the one at the front. -/
def FrontSigned (change : Bytes) : Prop :=
  ∀ x, isAlpha x → x ∈ change → lastSign x true change = some (decide (change.head? ≠ some 45))

theorem applymode_agrees_iff (mode : Bytes) (hchange : ModeString change) :
    (∀ x, isAlpha x → (x ∈ applymode mode change ↔ x ∈ applyLetters mode true change)) ↔
      FrontSigned change := by
  have hzero : ∀ c ∈ change, c ≠ 0 := by
    rintro c hc rfl
    rcases hchange 0 hc with h | h | h <;> exact absurd h (by decide)
  refine forall_congr' fun x => forall_congr' fun hx => ?_
  obtain ⟨hplus, hminus, -⟩ := alpha_ne hx
  have hsome : (lastSign x true change).isSome = true ↔ x ∈ change := lastSign_isSome hplus hminus
  rw [mem_applymode_change hzero hplus, mem_applyLetters mode true hchange hplus]
  simp only [mem_changeLetters, hplus, hminus, ne_eq, not_false_eq_true, and_true]
  cases hlast : lastSign x true change with
  | none =>
    have hnot : x ∉ change := by simpa [hlast] using hsome
    simp [hnot]
  | some sign =>
    have hmem : x ∈ change := by simpa [hlast] using hsome
    simp only [hmem, if_true, forall_const, Option.some.injEq]
    cases sign <;> simp

/-- A change `+i-w` of one's own mode adds `w`; letter by letter it removes it. -/
theorem applymode_disagrees : ¬ ∀ x, isAlpha x →
    (x ∈ applymode (lit "+w") (lit "+i-w") ↔ x ∈ applyLetters (lit "+w") true (lit "+i-w")) := by
  intro h
  exact absurd (h 119 (by decide)) (by decide +kernel)

/-- The MODE branch of the Client stores what `applymode` makes of the whole change, and of its
letters that agrees with applying them one at a time exactly if the last sign of every letter is the
sign at the front. -/
theorem onMode_agrees_iff (env : Env) (w : World) (c : ConnState) (change : Bytes)
    (hconn : w.connstate = some c) (hchange : ModeString change) :
    ∃ mode, Client.onMode env change w =
        Client.trigger env (.mode mode) { w with connstate := some { c with mode } } ∧
      ((∀ x, isAlpha x → (x ∈ mode ↔ x ∈ applyLetters c.mode true change)) ↔
        FrontSigned change) := by
  refine ⟨applymode c.mode change, ?_, applymode_agrees_iff c.mode hchange⟩
  have hupdate : Client.updateConnstate (fun c => { c with mode := applymode c.mode change }) w =
      .ok ⟨⟩ { w with connstate := some { c with mode := applymode c.mode change } } := by
    rw [Client.updateConnstate, get_bind_eq, hconn]
    rfl
  rw [Client.onMode, bind_of_ok hupdate]
  rfl

theorem onMode_agrees_iff_plain : ∃ mode,
    Client.onMode .silent (lit "-iw") { World.new "bot" 0 with connstate := some ⟨"+w", none, none⟩ } =
        Client.trigger .silent (.mode mode)
          { World.new "bot" 0 with connstate := some ⟨mode, none, none⟩ } ∧
      ((∀ x, isAlpha x → (x ∈ mode ↔ x ∈ applyLetters (lit "+w") true (lit "-iw"))) ↔
        FrontSigned (lit "-iw")) :=
  onMode_agrees_iff .silent { World.new "bot" 0 with connstate := some ⟨"+w", none, none⟩ }
    ⟨"+w", none, none⟩ (lit "-iw") rfl (by unfold ModeString; decide +kernel)

end TuxBot.Irc
