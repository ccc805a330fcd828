import TuxBot.Irc.ApplyMode
import TuxBot.Irc.ChannelTracker
import TuxBot.Machine

/-! A reference reader for the arguments of a channel MODE, and what the handler does with them. -/
namespace TuxBot.Irc

open TuxBot.Lua Tracker

/-- How the server uses a mode letter. -/
inductive ModeClass where
  | prefixMode
  | a
  | b
  | c
  | d
  deriving DecidableEq

/-- Whether a letter of the class, under the sign, has an argument. -/
def ModeClass.takesArg : ModeClass → Bool → Bool
  | prefixMode, _ => true
  | a, _ => true
  | b, _ => true
  | c, positive => positive
  | d, _ => false

/-- The first list that holds the letter decides. -/
def Isupport.classOf (i : Isupport) (letter : UInt8) : ModeClass :=
  if (i.prefixesformode.lookup letter).isSome then .prefixMode
  else if letter ∈ i.chanmodesA then .a
  else if letter ∈ i.chanmodesB then .b
  else if letter ∈ i.chanmodesC then .c
  else .d

/-- One letter of a mode string with its sign and its argument, if there was one left. -/
structure ModeChange where
  letter : UInt8
  positive : Bool
  arg : Option Bytes
  deriving DecidableEq

/-- One mode string from left to right: its changes, and the arguments it leaves. -/
def readString (i : Isupport) : Bool → Bytes → List Bytes → List ModeChange × List Bytes
  | _, [], args => ([], args)
  | positive, char :: str, args =>
    if char = 43 then readString i true str args
    else if char = 45 then readString i false str args
    else if isAlnum char then
      if (i.classOf char).takesArg positive then
        let (changes, left) := readString i positive str args.tail
        (⟨char, positive, args.head?⟩ :: changes, left)
      else
        let (changes, left) := readString i positive str args
        (⟨char, positive, none⟩ :: changes, left)
    else readString i positive str args

theorem readString_length (i : Isupport) (positive : Bool) (str : Bytes) (args : List Bytes) :
    (readString i positive str args).2.length ≤ args.length := by
  fun_induction readString i positive str args with
  | case1 => exact Nat.le_refl _
  | case2 _ _ _ ih => exact ih
  | case3 _ _ _ _ ih => exact ih
  | case4 positive char str args _ _ _ _ changes left h ih =>
    rw [h, List.length_tail] at ih
    exact Nat.le_trans ih (Nat.sub_le _ _)
  | case5 positive char str args _ _ _ _ changes left h ih =>
    rw [h] at ih
    exact ih
  | case6 _ _ _ _ _ _ _ ih => exact ih

/-- The changes of a MODE message; what a mode string leaves starts with the next one. -/
def readModes (i : Isupport) : List Bytes → List ModeChange
  | [] => []
  | str :: args =>
    (readString i true str args).1 ++ readModes i (readString i true str args).2
  termination_by args => args.length
  decreasing_by exact Nat.lt_succ_of_le (readString_length i true str args)

example : readModes .default ["+lo-v", "9", "Ann", "Bob", "m"] =
    [⟨108, true, some "9"⟩, ⟨111, true, some "Ann"⟩, ⟨118, false, some "Bob"⟩, ⟨109, true, none⟩] := by
  simp [readModes, readString, Isupport.classOf, ModeClass.takesArg, lit, isAlnum, isAlpha, isUpper,
    isLower, Isupport.default]

variable {s : Session} {args : List Bytes} {name key : Bytes} {letter x : UInt8} {chan : Chan}
  {c : ModeChange} {m : ModeScan}

/-- The argument of a prefix mode, or of a list mode, when it names a member. -/
def Chan.changeMember (s : Session) (chan : Chan) (change : ModeChange) : Chan :=
  match change.arg with
  | none => chan
  | some arg =>
    match chan.members.get s.mapping.lower arg with
    | none => chan
    | some member =>
      let sign : Bytes := if change.positive then "+" else "-"
      let mode := applymode member.mode (sign ++ [change.letter])
      { chan with members := chan.members.set s.mapping.lower arg { member with mode } }

/-- A mode of the channel itself; one of class C keeps its argument. -/
def Chan.changeMode (chan : Chan) (isC : Bool) (change : ModeChange) : Chan :=
  let sign : Bytes := if change.positive then "+" else "-"
  let others := chan.modeparams.filter fun e => e.1 ≠ change.letter
  { chan with
    mode := some (applymode (chan.mode.getD "+") (sign ++ [change.letter]))
    modeparams :=
      if isC then
        match if change.positive then change.arg else none with
        | some arg => (change.letter, arg) :: others
        | none => others
      else chan.modeparams }

/-- What the handler does with one change. -/
def Chan.apply (s : Session) (chan : Chan) (change : ModeChange) : Chan :=
  match s.isupport.classOf change.letter with
  | .prefixMode => chan.changeMember s change
  | .a => chan.changeMember s change
  | .b => chan.changeMode false change
  | .c => chan.changeMode true change
  | .d => chan.changeMode false change

/-- The change that the body of the loop reads for a letter. -/
def readingOf (s : Session) (args : List Bytes) (m : ModeScan) (letter : UInt8) :
    ModeChange :=
  ⟨letter, m.positive,
    if (s.isupport.classOf letter).takesArg m.positive then args[m.argnum]? else none⟩

/-- A prefix mode and a list mode are read alike. -/
theorem letter_member
    (h : (s.isupport.prefixesformode.lookup letter).isSome || s.isupport.chanmodesA.contains letter) :
    (m.letter s args name letter).positive = m.positive ∧
    (m.letter s args name letter).argnum = m.argnum + 1 ∧
    (m.letter s args name letter).chan =
      m.chan.changeMember s ⟨letter, m.positive, args[m.argnum]?⟩ := by
  simp only [ModeScan.letter, Chan.changeMember, h, if_true, Nat.add_sub_cancel]
  cases harg : args[m.argnum]? with
  | none => exact ⟨rfl, rfl, rfl⟩
  | some arg => cases hmem : m.chan.members.get s.mapping.lower arg <;> simp [hmem]

/-- The sign stays, the counter moves on by the argument, and the channel changes as read. -/
theorem letter_reads (s : Session) (args : List Bytes) (name : Bytes) (letter : UInt8)
    (m : ModeScan) : (m.letter s args name letter).positive = m.positive ∧
    (m.letter s args name letter).argnum =
      m.argnum + (if (s.isupport.classOf letter).takesArg m.positive then 1 else 0) ∧
    (m.letter s args name letter).chan = m.chan.apply s (readingOf s args m letter) := by
  unfold readingOf Chan.apply Isupport.classOf
  by_cases hpre : (s.isupport.prefixesformode.lookup letter).isSome
  · simpa [hpre, ModeClass.takesArg] using letter_member (by simp [hpre])
  · by_cases ha : letter ∈ s.isupport.chanmodesA
    · simpa [hpre, ha, ModeClass.takesArg] using letter_member (by simp [ha])
    · by_cases hb : letter ∈ s.isupport.chanmodesB
      · simp [ModeScan.letter, hpre, ha, hb, ModeClass.takesArg, Chan.changeMode]
      · by_cases hc : letter ∈ s.isupport.chanmodesC
        · cases hsign : m.positive <;> cases harg : args[m.argnum]? <;>
            simp [ModeScan.letter, hpre, ha, hb, hc, hsign, harg, ModeClass.takesArg,
              Chan.changeMode]
        · simp [ModeScan.letter, hpre, ha, hb, hc, ModeClass.takesArg, Chan.changeMode]

/-- A mode string changes the channel as the reader has it, and leaves the same arguments. -/
theorem foldl_char_reads (s : Session) (args : List Bytes) (name str : Bytes) (m : ModeScan) :
    m.argnum ≤ (str.foldl (ModeScan.char s args name) m).argnum ∧
    args.drop (str.foldl (ModeScan.char s args name) m).argnum =
      (readString s.isupport m.positive str (args.drop m.argnum)).2 ∧
    (str.foldl (ModeScan.char s args name) m).chan =
      (readString s.isupport m.positive str (args.drop m.argnum)).1.foldl (Chan.apply s) m.chan := by
  induction str generalizing m with
  | nil => exact ⟨Nat.le_refl _, rfl, rfl⟩
  | cons char str ih =>
    rw [List.foldl_cons]
    by_cases hplus : char = 43
    · simpa [ModeScan.char, readString, hplus] using ih { m with positive := true }
    · by_cases hminus : char = 45
      · simpa [ModeScan.char, readString, hminus] using ih { m with positive := false }
      · by_cases halnum : isAlnum char
        · have hchar : ModeScan.char s args name m char = m.letter s args name char := by
            simp [ModeScan.char, hplus, hminus, halnum]
          obtain ⟨hsign, hargnum, hchan⟩ := letter_reads s args name char m
          obtain ⟨hle, hleft, hfold⟩ := ih (m.letter s args name char)
          rw [hchar]
          rw [hsign, hargnum] at hleft hfold
          rw [hargnum] at hle
          by_cases htakes : (s.isupport.classOf char).takesArg m.positive
          · simp only [htakes, if_true] at hle hleft hfold
            refine ⟨by omega, ?_, ?_⟩
            · simp only [readString, hplus, hminus, halnum, htakes, if_true, if_false, List.tail_drop]
              exact hleft
            · simp only [readString, hplus, hminus, halnum, htakes, if_true, if_false, List.tail_drop,
                List.foldl_cons]
              rw [hfold, hchan]
              simp only [readingOf, htakes, if_true, List.head?_drop]
          · simp only [htakes] at hle hleft hfold
            refine ⟨by omega, ?_, ?_⟩
            · simp only [readString, hplus, hminus, halnum, htakes, if_true, if_false]
              exact hleft
            · simp only [readString, hplus, hminus, halnum, htakes, if_true, if_false]
              rw [hfold, hchan]
              simp only [readingOf, htakes]
              rfl
        · simpa [ModeScan.char, readString, hplus, hminus, halnum] using ih m

/-- The whole loop reads as the reader does from the next argument on. -/
theorem scan_reads (s : Session) (args : List Bytes) (name : Bytes) (n : Nat) (m : ModeScan)
    (hm : 1 ≤ m.argnum) (hn : args.length < n + m.argnum) :
    (ModeScan.scan s args name n m).chan =
      (readModes s.isupport (args.drop (m.argnum - 1))).foldl (Chan.apply s) m.chan := by
  induction n generalizing m with
  | zero =>
    have hdrop : args.drop (m.argnum - 1) = [] := List.drop_eq_nil_of_le (by omega)
    simp [ModeScan.scan, hdrop, readModes]
  | succ n ih =>
    cases harg : args[m.argnum - 1]? with
    | none =>
      have hdrop : args.drop (m.argnum - 1) = [] :=
        List.drop_eq_nil_of_le (List.getElem?_eq_none_iff.mp harg)
      simp [ModeScan.scan, harg, hdrop, readModes]
    | some str =>
      obtain ⟨hlt, hstr⟩ := List.getElem?_eq_some_iff.mp harg
      have hdrop : args.drop (m.argnum - 1) = str :: args.drop m.argnum := by
        rw [List.drop_eq_getElem_cons hlt, hstr, Nat.sub_add_cancel hm]
      obtain ⟨hle, hleft, hfold⟩ := foldl_char_reads s args name str
        { m with positive := true }
      simp only [ModeScan.scan, harg]
      rw [ih _ (by simp) (by simp only at hle ⊢; omega)]
      simp only [Nat.add_sub_cancel]
      rw [hdrop, readModes, List.foldl_append, ← hfold, ← hleft]

/-- The handler changes the channel by the changes that the reader finds, and no other channel. -/
theorem onMode_reads {t : Tracker} {msg : Message} {rest : List Bytes}
    (hargs : msg.args = name :: rest) (hchan : t.chan s name = some chan) :
    (t.onMode s msg).chanstates.lookup key = if key = s.mapping.lower name then
      some ((readModes s.isupport rest).foldl (Chan.apply s) chan) else t.chanstates.lookup key := by
  cases rest with
  | nil =>
    simp only [Tracker.onMode, hargs, readModes, List.foldl_nil]
    split
    · subst key
      exact hchan
    · rfl
  | cons str rest =>
    have hscan := scan_reads s msg.args name msg.args.length
      ⟨chan, 2, true, []⟩ (by simp) (by simp)
    simp only [hargs, Nat.add_one_sub_one, List.drop_succ_cons, List.drop_zero] at hscan
    simp only [Tracker.onMode, hargs, hchan, Tracker.setChan, Table.lookup_set, hscan]

theorem readString_alnum (i : Isupport) (positive : Bool) (str : Bytes) (args : List Bytes) :
    ∀ c ∈ (readString i positive str args).1, isAlnum c.letter := by
  fun_induction readString i positive str args with
  | case1 => simp
  | case2 _ _ _ ih => exact ih
  | case3 _ _ _ _ ih => exact ih
  | case4 positive char str args _ _ halnum _ changes left h ih =>
    rw [h] at ih
    intro c hc
    rcases List.mem_cons.mp hc with rfl | hc
    · exact halnum
    · exact ih c hc
  | case5 positive char str args _ _ halnum _ changes left h ih =>
    rw [h] at ih
    intro c hc
    rcases List.mem_cons.mp hc with rfl | hc
    · exact halnum
    · exact ih c hc
  | case6 _ _ _ _ _ _ _ ih => exact ih

theorem readModes_alnum (i : Isupport) (args : List Bytes) :
    ∀ c ∈ readModes i args, isAlnum c.letter := by
  fun_induction readModes i args with
  | case1 => simp
  | case2 str args ih =>
    intro c hc
    rcases List.mem_append.mp hc with hc | hc
    · exact readString_alnum i true str args c hc
    · exact ih c hc

theorem alnum_ne (h : isAlnum letter) : letter ≠ 43 ∧ letter ≠ 45 ∧ letter ≠ 0 := by
  refine ⟨?_, ?_, ?_⟩ <;> rintro rfl <;> exact absurd h (by decide)

/-- What `applymode` does to one letter: only its own sign counts. -/
theorem mem_applymode (str : Bytes) (positive : Bool) (hletter : isAlnum letter) (hx : x ≠ 43) :
    x ∈ applymode str ((if positive then lit "+" else lit "-") ++ [letter]) ↔
      if x = letter then positive = true else x ∈ str := by
  obtain ⟨hplus, hminus, hzero⟩ := alnum_ne hletter
  have hchange : x ∈ changeLetters ((if positive then lit "+" else lit "-") ++ [letter]) ↔
      x = letter := by
    rw [mem_changeLetters]
    constructor
    · rintro ⟨hmem, -, hsign⟩
      cases positive <;> simpa [lit, hx, hsign] using hmem
    · rintro rfl
      exact ⟨by simp, hplus, hminus⟩
  have hdiff : ∀ c ∈ (if positive then lit "+" else lit "-") ++ [letter], c ≠ 0 := by
    cases positive <;> simp [lit, hzero]
  rw [mem_applymode_change hdiff hx]
  simp only [hchange]
  cases positive <;> simp [lit]

/-- Whether a change applies to the members it names. -/
def ModeClass.ofMember : ModeClass → Bool
  | prefixMode => true
  | a => true
  | _ => false

/-- A member after a change that names it. -/
def Member.change (member : Member) (c : ModeChange) : Member :=
  { member with
    mode := applymode member.mode ((if c.positive then lit "+" else lit "-") ++ [c.letter]) }

theorem changeMember_lookup : (chan.changeMember s c).members.lookup key =
    (chan.members.lookup key).map fun member =>
      if c.arg.map s.mapping.lower = some key then member.change c else member := by
  unfold Chan.changeMember
  cases harg : c.arg with
  | none => simp
  | some arg =>
    cases hmem : chan.members.get s.mapping.lower arg with
    | none =>
      by_cases hkey : s.mapping.lower arg = key
      · have hnone : chan.members.lookup key = none := hkey ▸ hmem
        simp [hmem, hnone]
      · simp [hmem, hkey]
    | some member =>
      by_cases hkey : s.mapping.lower arg = key
      · have hsome : chan.members.lookup key = some member := hkey ▸ hmem
        simp [hmem, Table.lookup_set, hkey, hsome, Member.change]
      · simp [hmem, Table.lookup_set, Ne.symm hkey, hkey]

/-- One change leaves every member and alters those it names. -/
theorem apply_lookup : (chan.apply s c).members.lookup key =
    (chan.members.lookup key).map fun member =>
      if (s.isupport.classOf c.letter).ofMember ∧ c.arg.map s.mapping.lower = some key then
        member.change c else member := by
  unfold Chan.apply
  cases hclass : s.isupport.classOf c.letter <;>
    simp [ModeClass.ofMember, changeMember_lookup, Chan.changeMode]

theorem changeMember_rest : (chan.changeMember s c).topic = chan.topic ∧
    (chan.changeMember s c).name = chan.name ∧ (chan.changeMember s c).mode = chan.mode ∧
    (chan.changeMember s c).modeparams = chan.modeparams := by
  unfold Chan.changeMember
  split
  · exact ⟨rfl, rfl, rfl, rfl⟩
  · split <;> exact ⟨rfl, rfl, rfl, rfl⟩

theorem apply_topic (s : Session) (chan : Chan) (c : ModeChange) :
    (chan.apply s c).topic = chan.topic ∧ (chan.apply s c).name = chan.name := by
  unfold Chan.apply
  cases s.isupport.classOf c.letter
  case prefixMode => exact ⟨changeMember_rest.1, changeMember_rest.2.1⟩
  case a => exact ⟨changeMember_rest.1, changeMember_rest.2.1⟩
  all_goals exact ⟨rfl, rfl⟩

/-- The mode of the channel after a change: members' modes do not show in it. -/
theorem apply_mode (hletter : isAlnum c.letter) (hx : x ≠ 43) :
    x ∈ (chan.apply s c).mode.getD [] ↔
      if x = c.letter ∧ (s.isupport.classOf c.letter).ofMember = false then c.positive = true
      else x ∈ chan.mode.getD [] := by
  have hmode : x ∈ (chan.mode.getD "+") ↔ x ∈ chan.mode.getD [] := by
    cases chan.mode with
    | none => simp [lit, hx]
    | some mode => rfl
  have hchange (isC : Bool) : x ∈ (chan.changeMode isC c).mode.getD [] ↔
      if x = c.letter then c.positive = true else x ∈ chan.mode.getD [] := by
    rw [← hmode]
    exact mem_applymode (chan.mode.getD "+") c.positive hletter hx
  unfold Chan.apply
  cases s.isupport.classOf c.letter <;>
    simp [ModeClass.ofMember, hchange, changeMember_rest]

theorem lookup_filter_ne {V : Type} (letter x : UInt8) (params : List (UInt8 × V)) :
    (params.filter fun e => e.1 ≠ letter).lookup x =
      if x = letter then none else params.lookup x := by
  induction params with
  | nil => simp
  | cons e params ih =>
    obtain ⟨l, v⟩ := e
    rw [List.filter_cons]
    by_cases hl : l = letter
    · simp only [hl, ne_eq, not_true_eq_false, decide_false, Bool.false_eq_true, if_false, ih]
      by_cases hx : x = letter
      · simp only [hx, if_true]
      · simp only [hx, if_false, List.lookup_cons, beq_eq_false_iff_ne.mpr hx]
    · simp only [hl, ne_eq, not_false_eq_true, decide_true, if_true, List.lookup_cons, ih]
      by_cases hx : x = letter
      · simp only [hx, if_true, beq_eq_false_iff_ne.mpr (Ne.symm hl)]
      · simp only [hx, if_false]

/-- A class C letter keeps the argument it was set with, and loses it when it is taken away. -/
theorem apply_params : (chan.apply s c).modeparams.lookup x =
    if x = c.letter ∧ s.isupport.classOf c.letter = .c then
      if c.positive then c.arg else none
    else chan.modeparams.lookup x := by
  have hothers := lookup_filter_ne c.letter x chan.modeparams
  have hchange : (chan.changeMode true c).modeparams.lookup x =
      if x = c.letter then if c.positive then c.arg else none else chan.modeparams.lookup x := by
    cases hsign : c.positive with
    | false => simpa [Chan.changeMode, hsign] using hothers
    | true =>
      cases harg : c.arg with
      | none => simpa [Chan.changeMode, hsign, harg] using hothers
      | some arg =>
        by_cases hx : x = c.letter
        · simp [Chan.changeMode, hsign, harg, hx]
        · simpa [Chan.changeMode, hsign, harg, hx, List.lookup_cons,
            beq_eq_false_iff_ne.mpr hx] using hothers
  unfold Chan.apply
  cases s.isupport.classOf c.letter
  case c => simpa using hchange
  all_goals simp [changeMember_rest, Chan.changeMode]

/-- The last change that meets a test. -/
def lastChange (changes : List ModeChange) (test : ModeChange → Bool) : Option ModeChange :=
  (changes.filter test).getLast?

/-- A letter is set if its last change set it, and without one if it was set `before`. -/
def SetBy (last : Option ModeChange) (before : Prop) : Prop :=
  last.elim before fun c => c.positive = true

/-- The channel `after` the changes of a MODE message, told from the channel `before` them. -/
structure ModesRead (s : Session) (changes : List ModeChange) (before after : Chan) : Prop where
  /-- The letters of the members. -/
  ranks : ∀ letter key member member', isAlnum letter → s.isupport.classOf letter = .prefixMode →
    before.members.lookup key = some member → after.members.lookup key = some member' →
    (letter ∈ member'.mode ↔ SetBy
      (lastChange changes fun c => c.letter = letter ∧ c.arg.map s.mapping.lower = some key)
      (letter ∈ member.mode))
  /-- The letters of the channel. -/
  modes : ∀ letter, isAlnum letter → s.isupport.classOf letter ≠ .prefixMode →
    s.isupport.classOf letter ≠ .a → (letter ∈ after.mode.getD [] ↔
      SetBy (lastChange changes fun c => c.letter = letter) (letter ∈ before.mode.getD []))
  params : ∀ letter, s.isupport.classOf letter = .c → after.modeparams.lookup letter =
    (lastChange changes fun c => c.letter = letter).elim (before.modeparams.lookup letter)
      fun c => if c.positive then c.arg else none
  members : ∀ key, key ∈ after.members ↔ key ∈ before.members
  records : ∀ key member member', before.members.lookup key = some member →
    after.members.lookup key = some member' → member'.record = member.record
  topic : after.topic = before.topic
  name : after.name = before.name

variable {changes : List ModeChange}

/-- Whether the member has the letter, if there is such a member. -/
def Chan.ranked (chan : Chan) (key : Bytes) (letter : UInt8) : Option Bool :=
  (chan.members.lookup key).map fun member => decide (letter ∈ member.mode)

theorem ranked_apply (hc : isAlnum c.letter) (hx : letter ≠ 43)
    (hclass : s.isupport.classOf letter = .prefixMode) : (chan.apply s c).ranked key letter =
      if c.letter = letter ∧ c.arg.map s.mapping.lower = some key then
        (chan.ranked key letter).map fun _ => c.positive
      else chan.ranked key letter := by
  unfold Chan.ranked
  rw [apply_lookup]
  cases hmem : chan.members.lookup key with
  | none => simp
  | some member =>
    have hmode := mem_applymode member.mode c.positive hc hx
    simp only [Option.map_some]
    by_cases hnames : c.arg.map s.mapping.lower = some key
    · by_cases hletter : c.letter = letter
      · subst hletter
        simp [hclass, ModeClass.ofMember, hnames, Member.change, hmode]
      · rw [if_neg (Ne.symm hletter)] at hmode
        by_cases hof : (s.isupport.classOf c.letter).ofMember <;>
          simp [hof, hletter, hnames, Member.change, hmode]
    · simp [hnames]

theorem foldl_ranks (hall : ∀ c ∈ changes, isAlnum c.letter) (hletter : isAlnum letter)
    (hclass : s.isupport.classOf letter = .prefixMode) {member member' : Member}
    (hbefore : chan.members.lookup key = some member)
    (hafter : (changes.foldl (Chan.apply s) chan).members.lookup key = some member') :
    letter ∈ member'.mode ↔ SetBy
      (lastChange changes fun c => c.letter = letter ∧ c.arg.map s.mapping.lower = some key)
      (letter ∈ member.mode) := by
  have hx := (alnum_ne hletter).1
  obtain ⟨-, hlast⟩ := Machine.foldl_last (f := Chan.apply s)
    (I := fun chan => (chan.ranked key letter).isSome) (r := fun chan => chan.ranked key letter)
    (p := fun c => decide (c.letter = letter ∧ c.arg.map s.mapping.lower = some key))
    (v := fun c => some c.positive) changes (s := chan) (by simp [Chan.ranked, hbefore])
    (fun chan c hc hmem => by
      rw [ranked_apply (hall c hc) hx hclass]
      split <;> simpa using hmem)
    (fun chan c hc hmem htest => by
      obtain ⟨b, hb⟩ := Option.isSome_iff_exists.mp hmem
      rw [ranked_apply (hall c hc) hx hclass, if_pos (of_decide_eq_true htest), hb, Option.map_some])
    (fun chan c hc _ htest => by
      rw [ranked_apply (hall c hc) hx hclass, if_neg (of_decide_eq_false htest)])
  simp only [Chan.ranked, hafter, hbefore, Option.map_some] at hlast
  unfold SetBy lastChange
  generalize (changes.filter fun c =>
    c.letter = letter ∧ c.arg.map s.mapping.lower = some key).getLast? = last at hlast ⊢
  cases last with
  | none => simpa using hlast
  | some c =>
    have hmode : decide (letter ∈ member'.mode) = c.positive := by simpa using hlast
    rw [Option.elim_some, ← hmode, decide_eq_true_iff]

theorem foldl_modes (hall : ∀ c ∈ changes, isAlnum c.letter) (hletter : isAlnum letter)
    (hclass : (s.isupport.classOf letter).ofMember = false) :
    letter ∈ (changes.foldl (Chan.apply s) chan).mode.getD [] ↔
      SetBy (lastChange changes fun c => c.letter = letter) (letter ∈ chan.mode.getD []) := by
  have hx := (alnum_ne hletter).1
  obtain ⟨-, hlast⟩ := Machine.foldl_last (f := Chan.apply s) (I := fun _ => True)
    (r := fun chan => letter ∈ chan.mode.getD []) (p := fun c => decide (c.letter = letter))
    (v := fun c => c.positive = true) changes (s := chan) trivial (fun _ _ _ h => h)
    (fun chan c hc _ htest => by
      obtain rfl := of_decide_eq_true htest
      exact propext ((apply_mode (hall c hc) hx).trans (by simp [hclass])))
    (fun chan c hc _ htest => by
      have hne : letter ≠ c.letter := fun h => of_decide_eq_false htest h.symm
      exact propext ((apply_mode (hall c hc) hx).trans (by simp [hne])))
  exact iff_of_eq hlast

theorem foldl_params (hclass : s.isupport.classOf letter = .c) :
    (changes.foldl (Chan.apply s) chan).modeparams.lookup letter =
      (lastChange changes fun c => c.letter = letter).elim (chan.modeparams.lookup letter)
        fun c => if c.positive then c.arg else none := by
  obtain ⟨-, hlast⟩ := Machine.foldl_last (f := Chan.apply s) (I := fun _ => True)
    (r := fun chan => chan.modeparams.lookup letter) (p := fun c => decide (c.letter = letter))
    (v := fun c => if c.positive then c.arg else none) changes (s := chan) trivial (fun _ _ _ h => h)
    (fun chan c _ _ htest => by
      obtain rfl := of_decide_eq_true htest
      simp [apply_params, hclass])
    (fun chan c _ _ htest => by
      have hne : letter ≠ c.letter := fun h => of_decide_eq_false htest h.symm
      simp [apply_params, hne])
  exact hlast

/-- No change adds a member, takes one away or gives one another record. -/
theorem foldl_records (s : Session) (chan : Chan) (key : Bytes) (changes : List ModeChange) :
    ((changes.foldl (Chan.apply s) chan).members.lookup key).map Member.record =
    (chan.members.lookup key).map Member.record := by
  induction changes generalizing chan with
  | nil => rfl
  | cons c changes ih =>
    rw [List.foldl_cons, ih, apply_lookup, Option.map_map]
    congr 1
    funext member
    simp only [Function.comp_apply]
    split <;> rfl

theorem foldl_topic : (changes.foldl (Chan.apply s) chan).topic = chan.topic ∧
    (changes.foldl (Chan.apply s) chan).name = chan.name := by
  induction changes generalizing chan with
  | nil => exact ⟨rfl, rfl⟩
  | cons c changes ih =>
    obtain ⟨htopic, hname⟩ := apply_topic s chan c
    rw [List.foldl_cons]
    exact ⟨ih.1.trans htopic, ih.2.trans hname⟩

/-- The changes of a message, one after another, are told by the last of each letter. -/
theorem foldl_modesRead (hall : ∀ c ∈ changes, isAlnum c.letter) :
    ModesRead s changes chan (changes.foldl (Chan.apply s) chan) where
  ranks _ _ _ _ hletter hclass hbefore hafter := foldl_ranks hall hletter hclass hbefore hafter
  modes letter hletter hpre ha := foldl_modes hall hletter (by
    cases hclass : s.isupport.classOf letter <;> simp_all [ModeClass.ofMember])
  params _ hclass := foldl_params hclass
  members key := by
    have hrecords := congrArg Option.isSome (foldl_records s chan key changes)
    simp only [Option.isSome_map] at hrecords
    rw [← AList.lookup_isSome, ← AList.lookup_isSome, hrecords]
  records key member member' hbefore hafter := by
    have hrecords := foldl_records s chan key changes
    simpa [hbefore, hafter] using hrecords
  topic := foldl_topic.1
  name := foldl_topic.2

/-- The MODE handler does to the channel what the reader reads, and nothing to the others. -/
theorem mode_reader (t : Tracker) (s : Session) (msg : Message) (name : Bytes) (rest : List Bytes)
    (chan : Chan) (hargs : msg.args = name :: rest) (hchan : t.chan s name = some chan) :
    (∃ chan', (t.onMode s msg).chan s name = some chan' ∧
      ModesRead s (readModes s.isupport rest) chan chan') ∧
    ∀ key, key ≠ s.mapping.lower name →
      (t.onMode s msg).chanstates.lookup key = t.chanstates.lookup key := by
  constructor
  · refine ⟨_, ?_, foldl_modesRead (readModes_alnum s.isupport rest)⟩
    exact (onMode_reads hargs hchan).trans (if_pos rfl)
  · intro key hkey
    exact (onMode_reads hargs hchan).trans (if_neg hkey)

/-- `MODE #tux +ol-v Ann 9 Bob`: the limit lies between the nicks. -/
theorem mode_reader_tux :
    let s : Session := ⟨.connected, "TuxBot", .rfc1459, .default⟩
    let chan : Chan := ⟨"#tux", none, some "+nt", [], Table.set s.mapping.lower
      (Table.set s.mapping.lower ∅ "Ann" ⟨0, "+"⟩) "Bob" ⟨1, "+v"⟩⟩
    let t := Tracker.new.setChan s "#tux" chan
    let msg := heard "ChanServ" "MODE" ["#tux", "+ol-v", "Ann", "9", "Bob"]
    (∃ chan', (t.onMode s msg).chan s "#tux" = some chan' ∧
      ModesRead s (readModes .default ["+ol-v", "Ann", "9", "Bob"]) chan chan') ∧
    ∀ key, key ≠ s.mapping.lower "#tux" →
      (t.onMode s msg).chanstates.lookup key = t.chanstates.lookup key :=
  mode_reader _ ⟨.connected, "TuxBot", .rfc1459, .default⟩ _ "#tux" ["+ol-v", "Ann", "9", "Bob"] _
    rfl (by simp [Tracker.chan, Tracker.setChan, Table.get, Table.lookup_set])

end TuxBot.Irc
