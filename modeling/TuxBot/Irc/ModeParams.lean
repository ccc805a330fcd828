import TuxBot.Irc.ModeReader

/-! Whether the mode parameters of a channel agree with its mode, over JOIN, MODE and 324 messages. -/
namespace TuxBot.Irc

open TuxBot.Lua TuxBot.Machine Tracker

/-- The channel that a message is about and the modes it lists: a MODE, or a 324 reply, which has one
mode string. -/
def modesGiven (i : Isupport) (msg : Message) : Option (Bytes × List ModeChange) :=
  if msg.cmd = lit "MODE" then
    match msg.args with
    | name :: args => some (name, readModes i args)
    | [] => none
  else if msg.cmd = lit "324" then
    match msg.args with
    | _ :: name :: mode :: params => some (name, (readString i true mode params).1)
    | _ => none
  else none

/-- A letter of class C. -/
def ClassC (i : Isupport) (letter : UInt8) : Prop := isAlnum letter = true ∧ i.classOf letter = .c

instance (i : Isupport) : DecidablePred (ClassC i) := fun letter =>
  inferInstanceAs (Decidable (isAlnum letter = true ∧ i.classOf letter = .c))

/-- Each class C letter that a MODE sets or a 324 lists comes with its parameter. -/
def Supplied (i : Isupport) (msg : Message) : Prop :=
  ∀ name changes, modesGiven i msg = some (name, changes) → ∀ change ∈ changes,
    ClassC i change.letter → (change.positive = true ∨ msg.cmd = lit "324") → change.arg.isSome

/-- The messages of a run. -/
def ModeMessage (s : Session) :=
  { msg : Message //
    (msg.cmd = lit "JOIN" ∨ msg.cmd = lit "324" ∨ msg.cmd = lit "MODE") ∧ Supplied s.isupport msg }

/-- A tracker, and a record of the modes that messages listed for each folded channel name. -/
structure ModeRun where
  tracker : Tracker
  given : Bytes → List ModeChange

namespace ModeRun

def start (t : Tracker) : ModeRun := ⟨t.statehandler .connected, fun _ => []⟩

def give (s : Session) (given : Bytes → List ModeChange) (msg : Message) (key : Bytes) :
    List ModeChange :=
  match modesGiven s.isupport msg with
  | some (name, changes) => if key = s.mapping.lower name then given key ++ changes else given key
  | none => given key

def step (o : TrackerOptions) (s : Session) (r : ModeRun) (msg : ModeMessage s) : Option ModeRun :=
  some ⟨r.tracker.msghandler o s msg.1, give s r.given msg.1⟩

/-- The parameter last given for a letter. -/
def lastParam (changes : List ModeChange) (letter : UInt8) : Option Bytes :=
  (lastChange changes fun c => c.letter = letter ∧ c.arg.isSome).bind ModeChange.arg

/-- The parameters are those of the class C letters in the mode, as they were last given. -/
def Agrees (i : Isupport) (mode : Bytes) (params : List (UInt8 × Bytes)) (given : List ModeChange) :
    Prop :=
  ∀ letter, ClassC i letter → (letter ∈ mode ↔ (params.lookup letter).isSome) ∧
    ∀ param, params.lookup letter = some param → lastParam given letter = some param

/-- So it is for every tracked channel whose mode is known. -/
def ParamsAgree (s : Session) (r : ModeRun) : Prop :=
  ∀ name chan mode, r.tracker.chan s name = some chan → chan.mode = some mode →
    Agrees s.isupport mode chan.modeparams (r.given (s.mapping.lower name))

/-- A 324 for a tracked channel lists the class C letters whose parameters are known, with these
parameters. -/
def Confirms (s : Session) (r : ModeRun) (msg : ModeMessage s) : Prop :=
  msg.1.cmd = lit "324" → ∀ name changes chan, modesGiven s.isupport msg.1 = some (name, changes) →
    r.tracker.chan s name = some chan → ∀ letter, ClassC s.isupport letter →
      lastParam changes letter = chan.modeparams.lookup letter

/-- While the mode is unknown no parameter is known. -/
def Unset (s : Session) (r : ModeRun) : Prop :=
  ∀ name chan, r.tracker.chan s name = some chan → chan.mode = none → chan.modeparams = []

variable {o : TrackerOptions} {s : Session} {t u : Tracker} {r r' : ModeRun} {msg : Message}
  {changes given : List ModeChange} {chan chan' : Chan} {letter : UInt8} {mode name key : Bytes}
  {params : List (UInt8 × Bytes)} {change : ModeChange}

/-! ### The last of the changes -/

theorem lastParam_append : lastParam (given ++ changes) letter =
    (lastParam changes letter).or (lastParam given letter) := by
  unfold lastParam lastChange
  rw [List.filter_append, List.getLast?_append]
  cases hlast : (changes.filter fun c => c.letter = letter ∧ c.arg.isSome).getLast? with
  | none => rfl
  | some c =>
    have hmem := List.mem_of_getLast? hlast
    obtain ⟨arg, harg⟩ := Option.isSome_iff_exists.mp
      (of_decide_eq_true (List.mem_filter.mp hmem).2).2
    simp [harg]

theorem lastParam_isSome_iff :
    (lastParam changes letter).isSome ↔ ∃ c ∈ changes, c.letter = letter ∧ c.arg.isSome := by
  unfold lastParam lastChange
  cases hlast : (changes.filter fun c => c.letter = letter ∧ c.arg.isSome).getLast? with
  | none =>
    have hempty := List.getLast?_eq_none_iff.mp hlast
    rw [List.filter_eq_nil_iff] at hempty
    simpa using hempty
  | some c =>
    obtain ⟨hmem, htest⟩ := List.mem_filter.mp (List.mem_of_getLast? hlast)
    have hboth := of_decide_eq_true htest
    exact iff_of_true hboth.2 ⟨c, hmem, hboth⟩

/-- What is last is last among those that pass a test it passes. -/
theorem getLast?_filter {α : Type} {p : α → Bool} {xs : List α} {a : α} (h : xs.getLast? = some a)
    (ha : p a = true) : (xs.filter p).getLast? = some a := by
  obtain ⟨front, rfl⟩ := List.getLast?_eq_some_iff.mp h
  simp [List.filter_append, ha]

theorem lastParam_of_last (h : lastChange changes (fun c => c.letter = letter) = some change)
    (harg : change.arg.isSome) : lastParam changes letter = change.arg := by
  have hboth : (changes.filter fun c => c.letter = letter ∧ c.arg.isSome) =
      (changes.filter fun c => c.letter = letter).filter fun c => c.arg.isSome := by
    rw [List.filter_filter]
    refine List.filter_congr fun c _ => ?_
    rw [Bool.and_comm, Bool.decide_and, Bool.decide_eq_true]
  unfold lastParam lastChange
  rw [hboth, getLast?_filter h harg, Option.bind_some]

theorem lastParam_of_none (h : lastChange changes (fun c => c.letter = letter) = none) :
    lastParam changes letter = none := by
  have hempty := List.getLast?_eq_none_iff.mp h
  rw [List.filter_eq_nil_iff] at hempty
  rw [← Option.not_isSome_iff_eq_none, lastParam_isSome_iff]
  rintro ⟨c, hc, hletter, -⟩
  exact hempty c hc (decide_eq_true hletter)

theorem lastChange_mem (h : lastChange changes (fun c => c.letter = letter) = some change) :
    change ∈ changes ∧ change.letter = letter := by
  obtain ⟨hmem, htest⟩ := List.mem_filter.mp (List.mem_of_getLast? h)
  exact ⟨hmem, of_decide_eq_true htest⟩

/-! ### What a message does to a channel -/

/-- The changes of a MODE keep the parameters in step. -/
theorem agrees_foldl (hall : ∀ c ∈ changes, isAlnum c.letter)
    (hsupplied : ∀ c ∈ changes, ClassC s.isupport c.letter → c.positive = true → c.arg.isSome)
    (h : Agrees s.isupport (chan.mode.getD []) chan.modeparams given) :
    Agrees s.isupport ((changes.foldl (Chan.apply s) chan).mode.getD [])
      (changes.foldl (Chan.apply s) chan).modeparams (given ++ changes) := by
  intro letter hletter
  obtain ⟨hmode, hparam⟩ := h letter hletter
  have hmember : (s.isupport.classOf letter).ofMember = false := by rw [hletter.2]; rfl
  rw [foldl_modes hall hletter.1 hmember, foldl_params hletter.2, lastParam_append]
  cases hlast : lastChange changes (fun c => c.letter = letter) with
  | none =>
    rw [lastParam_of_none hlast]
    exact ⟨hmode, fun param => hparam param⟩
  | some change =>
    obtain ⟨hmem, rfl⟩ := lastChange_mem hlast
    simp only [SetBy, Option.elim_some]
    cases hpositive : change.positive with
    | false => simp
    | true =>
      have harg := hsupplied change hmem hletter hpositive
      rw [lastParam_of_last hlast harg]
      obtain ⟨arg, harg⟩ := Option.isSome_iff_exists.mp harg
      simp [harg]

theorem unset_apply (h : chan.mode = none → chan.modeparams = [])
    (hmode : (chan.apply s change).mode = none) : (chan.apply s change).modeparams = [] := by
  unfold Chan.apply at hmode ⊢
  cases hclass : s.isupport.classOf change.letter <;> rw [hclass] at hmode
  case prefixMode | a =>
    simp only [changeMember_rest.2.2.1] at hmode
    simpa only [changeMember_rest.2.2.2] using h hmode
  all_goals cases hmode

theorem unset_foldl (h : chan.mode = none → chan.modeparams = []) :
    (changes.foldl (Chan.apply s) chan).mode = none →
      (changes.foldl (Chan.apply s) chan).modeparams = [] := by
  induction changes generalizing chan with
  | nil => exact h
  | cons change changes ih => exact ih fun hmode => unset_apply h hmode

/-- The letters of a mode string are those of its changes. -/
theorem mem_readString (i : Isupport) (positive : Bool) (str : Bytes) (args : List Bytes)
    (hletter : isAlnum letter = true) :
    letter ∈ str ↔ ∃ c ∈ (readString i positive str args).1, c.letter = letter := by
  obtain ⟨hplus, hminus, -⟩ := alnum_ne hletter
  fun_induction readString i positive str args with
  | case1 => simp
  | case2 positive str args ih => simpa [hplus] using ih
  | case3 positive str args _ ih => simpa [hminus] using ih
  | case4 positive char str args _ _ _ _ changes left h ih =>
    rw [h] at ih
    simp [ih, eq_comm]
  | case5 positive char str args _ _ _ _ changes left h ih =>
    rw [h] at ih
    simp [ih, eq_comm]
  | case6 positive char str args _ _ hother ih =>
    have hne : letter ≠ char := fun he => hother (he ▸ hletter)
    simpa [hne] using ih

/-- A 324 sets the mode only, so the parameters have to be those that it lists. -/
theorem agrees_reply (hsupplied : ∀ c ∈ changes, ClassC s.isupport c.letter → c.arg.isSome)
    (hletters : ∀ letter, isAlnum letter = true →
      (letter ∈ mode ↔ ∃ c ∈ changes, c.letter = letter)) :
    Agrees s.isupport mode params (given ++ changes) ↔
      ∀ letter, ClassC s.isupport letter → lastParam changes letter = params.lookup letter := by
  have hlisted : ∀ letter, ClassC s.isupport letter →
      (letter ∈ mode ↔ (lastParam changes letter).isSome) := by
    intro letter hletter
    rw [hletters letter hletter.1, lastParam_isSome_iff]
    constructor
    · rintro ⟨c, hc, rfl⟩
      exact ⟨c, hc, rfl, hsupplied c hc hletter⟩
    · rintro ⟨c, hc, hsame, -⟩
      exact ⟨c, hc, hsame⟩
  unfold Agrees
  simp only [lastParam_append]
  refine forall₂_congr fun letter hletter => ?_
  rw [hlisted letter hletter]
  cases hparams : params.lookup letter <;> cases hlast : lastParam changes letter <;> simp [eq_comm]

/-! ### What the handlers do to the channels -/

theorem chan_set (hchan : t.chanstates = Table.set s.mapping.lower u.chanstates key chan) :
    t.chan s name =
      if s.mapping.lower name = s.mapping.lower key then some chan else u.chan s name := by
  rw [Tracker.chan, Table.get, hchan, Table.lookup_set]
  rfl

/-- A JOIN makes a channel without a mode, or leaves the modes of all channels. -/
theorem chan_onJoin (h : (t.onJoin o s msg).chan s name = some chan') :
    (chan'.mode = none ∧ chan'.modeparams = []) ∨
      ∃ chan, t.chan s name = some chan ∧ chan'.mode = chan.mode ∧
        chan'.modeparams = chan.modeparams := by
  have hkeep : t.chan s name = some chan' → ∃ chan, t.chan s name = some chan ∧
      chan'.mode = chan.mode ∧ chan'.modeparams = chan.modeparams := fun h => ⟨chan', h, rfl, rfl⟩
  unfold onJoin at h
  split at h
  · rename_i joined _ nick hargs hnick
    simp only at h
    split at h
    · split at h
      · rw [chan_set chanstates_joinOwn] at h
        split at h
        · cases h
          exact Or.inl ⟨rfl, rfl⟩
        · exact Or.inr (hkeep h)
      · right
        cases hchan : t.chan s joined with
        | none =>
          rw [joinOther, hchan] at h
          exact hkeep h
        | some chan =>
          rw [chan_set (chanstates_joinOther hchan)] at h
          split at h
          · rename_i hname
            cases h
            refine ⟨chan, ?_, rfl, rfl⟩
            rwa [Tracker.chan, Table.get, hname]
          · exact hkeep h
    · exact Or.inr (hkeep h)
  · exact Or.inr (hkeep h)

/-- What is told of a channel that is not tracked changes none. -/
theorem chan_of_none (hchan : t.chan s key = none) (f : Chan → Chan) : t.chan s name =
    if s.mapping.lower name = s.mapping.lower key then (t.chan s name).map f else t.chan s name := by
  split
  · rename_i hname
    have hnone : t.chan s name = none := by rwa [Tracker.chan, Table.get, hname]
    rw [hnone, Option.map_none]
  · rfl

theorem chan_onMode {args : List Bytes} (hargs : msg.args = key :: args) :
    (t.onMode s msg).chan s name = if s.mapping.lower name = s.mapping.lower key then
      (t.chan s name).map fun chan => (readModes s.isupport args).foldl (Chan.apply s) chan
    else t.chan s name := by
  cases hchan : t.chan s key with
  | none =>
    have hsame : t.onMode s msg = t := by
      unfold onMode
      split
      · rename_i name' _ _ hargs'
        obtain rfl : key = name' := (List.cons.inj (hargs.symm.trans hargs')).1
        rw [hchan]
      · rfl
    rw [hsame]
    exact chan_of_none hchan _
  | some chan =>
    have hread : (t.onMode s msg).chanstates.lookup (s.mapping.lower name) = _ :=
      onMode_reads hargs hchan
    rw [Tracker.chan, Table.get, hread]
    split
    · rename_i hname
      have hsome : t.chan s name = some chan := by rwa [Tracker.chan, Table.get, hname]
      rw [hsome, Option.map_some]
    · rfl

theorem chan_on324 {me mode : Bytes} {args : List Bytes}
    (hargs : msg.args = me :: key :: mode :: args) :
    (t.on324 s msg).chan s name = if s.mapping.lower name = s.mapping.lower key then
      (t.chan s name).map fun chan => { chan with mode := some mode } else t.chan s name := by
  cases hchan : t.chan s key with
  | none =>
    have hsame : t.on324 s msg = t := by simp only [on324, hargs, hchan]
    rw [hsame]
    exact chan_of_none hchan _
  | some chan =>
    have hset : (t.on324 s msg).chanstates =
        Table.set s.mapping.lower t.chanstates key { chan with mode := some mode } := by
      simp only [on324, hargs, hchan]
      rfl
    rw [chan_set hset]
    split
    · rename_i hname
      have hsome : t.chan s name = some chan := by rwa [Tracker.chan, Table.get, hname]
      rw [hsome, Option.map_some]
    · rfl

/-! ### Every run -/

/-- A channel of unknown mode has no letters and no parameters. -/
theorem agrees_known (hu : Unset s r) (h : ParamsAgree s r)
    (hchan : r.tracker.chan s name = some chan) :
    Agrees s.isupport (chan.mode.getD []) chan.modeparams (r.given (s.mapping.lower name)) := by
  cases hmode : chan.mode with
  | none =>
    rw [hu name chan hchan hmode]
    intro letter _
    simp
  | some mode => exact h name chan mode hchan hmode

theorem agree_congr (hu : Unset s r) (h : ParamsAgree s r)
    (htracked : ∀ name, t.chan s name = r.tracker.chan s name)
    (hnone : modesGiven s.isupport msg = none) :
    Unset s ⟨t, give s r.given msg⟩ ∧ ParamsAgree s ⟨t, give s r.given msg⟩ := by
  have hgive : give s r.given msg = r.given := by
    funext key
    rw [give, hnone]
  rw [hgive]
  constructor
  · intro name chan hchan
    exact hu name chan ((htracked name).symm.trans hchan)
  · intro name chan mode hchan
    exact h name chan mode ((htracked name).symm.trans hchan)

theorem modesGiven_join (h : msg.cmd = lit "JOIN") : modesGiven s.isupport msg = none := by
  have hmode : ¬ lit "JOIN" = lit "MODE" := by decide
  have hreply : ¬ lit "JOIN" = lit "324" := by decide
  rw [modesGiven, h, if_neg hmode, if_neg hreply]

theorem confirms_join (o : TrackerOptions) (msg : Message) (hu : Unset s r) (h : ParamsAgree s r)
    (htracked : ∀ name, t.chan s name = r.tracker.chan s name) :
    Unset s ⟨t.onJoin o s msg, r.given⟩ ∧ ParamsAgree s ⟨t.onJoin o s msg, r.given⟩ := by
  constructor
  · intro name chan' hchan' hnone
    rcases chan_onJoin hchan' with ⟨-, hparams⟩ | ⟨chan, hchan, hmode, hparams⟩
    · exact hparams
    · rw [htracked] at hchan
      rw [hparams]
      exact hu name chan hchan (hmode.symm.trans hnone)
  · intro name chan' mode hchan' hsome
    rcases chan_onJoin hchan' with ⟨hnone, -⟩ | ⟨chan, hchan, hmode, hparams⟩
    · cases hnone.symm.trans hsome
    · rw [htracked] at hchan
      rw [hparams]
      exact h name chan mode hchan (hmode.symm.trans hsome)

/-- The tracker and the record after a MODE. -/
theorem confirms_mode {args : List Bytes} (hu : Unset s r) (h : ParamsAgree s r)
    (htracked : ∀ name, t.chan s name = r.tracker.chan s name) (hcmd : msg.cmd = lit "MODE")
    (hargs : msg.args = key :: args) (hsupplied : Supplied s.isupport msg) :
    Unset s ⟨t.onMode s msg, give s r.given msg⟩ ∧
      ParamsAgree s ⟨t.onMode s msg, give s r.given msg⟩ := by
  have hgiven : modesGiven s.isupport msg = some (key, readModes s.isupport args) := by
    rw [modesGiven, if_pos hcmd, hargs]
  have hall := readModes_alnum s.isupport args
  have hparams := fun c hc hclass hpositive => hsupplied _ _ hgiven c hc hclass (Or.inl hpositive)
  have hread : ∀ name, (t.onMode s msg).chan s name = _ := fun name => chan_onMode hargs
  simp only [htracked] at hread
  constructor
  · intro name chan' hchan' hnone
    rw [hread] at hchan'
    split at hchan'
    · obtain ⟨chan, hchan, rfl⟩ := Option.map_eq_some_iff.mp hchan'
      exact unset_foldl (hu name chan hchan) hnone
    · exact hu name chan' hchan' hnone
  · intro name chan' mode hchan' hsome
    rw [hread] at hchan'
    change Agrees s.isupport mode chan'.modeparams (give s r.given msg (s.mapping.lower name))
    rw [give, hgiven]
    simp only
    split at hchan'
    · rename_i hname
      obtain ⟨chan, hchan, rfl⟩ := Option.map_eq_some_iff.mp hchan'
      have hagrees := agrees_foldl hall hparams (agrees_known hu h hchan)
      rw [hsome] at hagrees
      rwa [if_pos hname]
    · rename_i hname
      rw [if_neg hname]
      exact h name chan' mode hchan' hsome

theorem confirms_reply {me mode : Bytes} {args : List Bytes} (hu : Unset s r) (h : ParamsAgree s r)
    (htracked : ∀ name, t.chan s name = r.tracker.chan s name) (hcmd : msg.cmd = lit "324")
    (hargs : msg.args = me :: key :: mode :: args) (hsupplied : Supplied s.isupport msg) :
    Unset s ⟨t.on324 s msg, give s r.given msg⟩ ∧
      ((∀ chan, r.tracker.chan s key = some chan → ∀ letter, ClassC s.isupport letter →
          lastParam (readString s.isupport true mode args).1 letter = chan.modeparams.lookup letter) ↔
        ParamsAgree s ⟨t.on324 s msg, give s r.given msg⟩) := by
  have hmode : ¬ msg.cmd = lit "MODE" := by
    rw [hcmd]
    decide
  have hgiven : modesGiven s.isupport msg =
      some (key, (readString s.isupport true mode args).1) := by
    rw [modesGiven, if_neg hmode, if_pos hcmd, hargs]
  have hparams := fun c hc hclass => hsupplied _ _ hgiven c hc hclass (Or.inr hcmd)
  have hletters : ∀ letter, isAlnum letter = true → _ := fun letter hletter =>
    mem_readString s.isupport true mode args hletter
  have hread : ∀ name, (t.on324 s msg).chan s name = _ := fun name => chan_on324 hargs
  simp only [htracked] at hread
  constructor
  · intro name chan' hchan' hnone
    rw [hread] at hchan'
    split at hchan'
    · obtain ⟨chan, -, rfl⟩ := Option.map_eq_some_iff.mp hchan'
      cases hnone
    · exact hu name chan' hchan' hnone
  · have hreply : ∀ chan : Chan, Agrees s.isupport mode chan.modeparams
          (give s r.given msg (s.mapping.lower key)) ↔ ∀ letter, ClassC s.isupport letter →
            lastParam (readString s.isupport true mode args).1 letter =
              chan.modeparams.lookup letter := by
      intro chan
      rw [give, hgiven]
      simp only [if_true]
      exact agrees_reply hparams hletters
    constructor
    · intro hlists name chan' mode' hchan' hsome
      rw [hread] at hchan'
      split at hchan'
      · rename_i hname
        obtain ⟨chan, hchan, rfl⟩ := Option.map_eq_some_iff.mp hchan'
        obtain rfl := Option.some.inj hsome
        have hkey : r.tracker.chan s key = some chan := by
          rwa [Tracker.chan, Table.get, ← hname]
        rw [hname]
        exact (hreply chan).mpr (hlists chan hkey)
      · rename_i hname
        change Agrees s.isupport mode' chan'.modeparams (give s r.given msg (s.mapping.lower name))
        rw [give, hgiven]
        simp only [if_neg hname]
        exact h name chan' mode' hchan' hsome
    · intro hagree chan hchan
      refine (hreply chan).mp (hagree key { chan with mode := some mode } mode ?_ rfl)
      rw [hread, if_pos rfl, hchan, Option.map_some]

/-- A 324 with too few arguments changes nothing, and any other has to confirm. -/
theorem confirms_324 {msg : ModeMessage s} (hu : Unset s r) (h : ParamsAgree s r)
    (htracked : ∀ name, t.chan s name = r.tracker.chan s name) (hcmd : msg.1.cmd = lit "324") :
    Unset s ⟨t.on324 s msg.1, give s r.given msg.1⟩ ∧
      (Confirms s r msg ↔ ParamsAgree s ⟨t.on324 s msg.1, give s r.given msg.1⟩) := by
  obtain ⟨msg, hkind, hsupplied⟩ := msg
  have hmode : ¬ msg.cmd = lit "MODE" := by
    rw [hcmd]
    decide
  rcases hargs : msg.args with _ | ⟨me, _ | ⟨key, _ | ⟨mode, args⟩⟩⟩
  case cons.cons.cons =>
    obtain ⟨hunset, hagree⟩ := confirms_reply hu h htracked hcmd hargs hsupplied
    have hgiven : modesGiven s.isupport msg =
        some (key, (readString s.isupport true mode args).1) := by
      rw [modesGiven, if_neg hmode, if_pos hcmd, hargs]
    refine ⟨hunset, Iff.trans ?_ hagree⟩
    constructor
    · intro hconfirms chan hchan
      exact hconfirms hcmd key _ chan hgiven hchan
    · intro hlists _ name changes chan hgiven' hchan
      cases hgiven.symm.trans hgiven'
      exact hlists chan hchan
  all_goals
    have hnone : modesGiven s.isupport msg = none := by
      rw [modesGiven, if_neg hmode, if_pos hcmd, hargs]
    have hsame : t.on324 s msg = t := by simp only [on324, hargs]
    rw [hsame]
    obtain ⟨hunset, hagree⟩ := agree_congr hu h htracked hnone
    refine ⟨hunset, iff_of_true ?_ hagree⟩
    intro _ name changes chan hgiven
    cases hnone.symm.trans hgiven

/-- A MODE never has to, and without arguments it changes nothing. -/
theorem agree_mode {msg : ModeMessage s} (hu : Unset s r) (h : ParamsAgree s r)
    (htracked : ∀ name, t.chan s name = r.tracker.chan s name) (hcmd : msg.1.cmd = lit "MODE") :
    Unset s ⟨t.onMode s msg.1, give s r.given msg.1⟩ ∧
      ParamsAgree s ⟨t.onMode s msg.1, give s r.given msg.1⟩ := by
  obtain ⟨msg, hkind, hsupplied⟩ := msg
  cases hargs : msg.args with
  | nil =>
    have hnone : modesGiven s.isupport msg = none := by
      rw [modesGiven, if_pos hcmd, hargs]
    have hsame : t.onMode s msg = t := by simp only [onMode, hargs]
    rw [hsame]
    exact agree_congr hu h htracked hnone
  | cons key args => exact confirms_mode hu h htracked hcmd hargs hsupplied

/-- A step keeps the parameters in step with the mode exactly when a 324 lists those that are known. -/
theorem confirms_step {msg : ModeMessage s} (hu : Unset s r) (h : ParamsAgree s r)
    (hstep : step o s r msg = some r') :
    Unset s r' ∧ (Confirms s r msg ↔ ParamsAgree s r') := by
  obtain rfl := Option.some.inj hstep
  have htracked : ∀ name, ((r.tracker.refresh s msg.1.sender).trigger
      (.receivedmessage msg.1)).chan s name = r.tracker.chan s name := by
    intro name
    rw [Tracker.chan, Tracker.chan, trigger, chanstates_refresh]
  have hother (hno : ¬ msg.1.cmd = lit "324") : Confirms s r msg := fun hreply => absurd hreply hno
  rw [msghandler]
  rcases msg.2.1 with hcmd | hcmd | hcmd
  · have hgive : give s r.given msg.1 = r.given := by
      funext key
      rw [give, modesGiven_join hcmd]
    rw [dispatch_join hcmd, hgive]
    obtain ⟨hunset, hagree⟩ := confirms_join o msg.1 hu h htracked
    exact ⟨hunset, iff_of_true (hother (by rw [hcmd]; decide)) hagree⟩
  · rw [dispatch_324 hcmd]
    exact confirms_324 hu h htracked hcmd
  · rw [dispatch_mode hcmd]
    obtain ⟨hunset, hagree⟩ := agree_mode hu h htracked hcmd
    exact ⟨hunset, iff_of_true (hother (by rw [hcmd]; decide)) hagree⟩

/-- In a run of JOIN, MODE and 324 messages that supply the parameters, the parameters of every channel
agree with its mode after each message exactly when every 324 confirms what is known. -/
theorem params_agree_iff (o : TrackerOptions) (s : Session) (t : Tracker)
    (msgs : List (ModeMessage s)) :
    Along (step o s) (fun r msg => ∀ r', step o s r msg = some r' → ParamsAgree s r') (start t) msgs ↔
      Along (step o s) (Confirms s) (start t) msgs := by
  have hstart : ∀ name, (start t).tracker.chan s name = none := fun name => rfl
  have hinit : Unset s (start t) ∧ ParamsAgree s (start t) := by
    constructor
    · intro name chan hchan
      rw [hstart] at hchan
      cases hchan
    · intro name chan mode hchan
      rw [hstart] at hchan
      cases hchan
  exact (along_iff (I := fun r => Unset s r ∧ ParamsAgree s r)
    (fun r msg r' h hstep => (confirms_step h.1 h.2 hstep).2)
    (fun r msg r' h hstep hagree => ⟨(confirms_step h.1 h.2 hstep).1, hagree⟩)
    (fun r msg _ hstuck => by cases hstuck) hinit).symm

def modesSession : Session := ⟨.connected, "TuxBot", .rfc1459, .default⟩

/-- The answer to the MODE query that our JOIN makes: the channel has a limit of 10. -/
def limitReply : Message := heard "irc.example" "324" ["TuxBot", "#tux", "+ntl", "10"]

theorem supplied_limitReply : Supplied .default limitReply := by
  have hgiven : modesGiven .default limitReply =
      some (lit "#tux", [⟨110, true, none⟩, ⟨116, true, none⟩, ⟨108, true, some "10"⟩]) := by
    decide +kernel
  intro name changes h change hchange hclass _
  cases hgiven.symm.trans h
  simp only [List.mem_cons, List.not_mem_nil, or_false] at hchange
  rcases hchange with rfl | rfl | rfl
  · exact absurd hclass (by decide)
  · exact absurd hclass (by decide)
  · rfl

theorem supplied_join (i : Isupport) {nick : Bytes} {args : List Bytes} :
    Supplied i (heard nick "JOIN" args) := by
  intro name changes h
  cases h

def joined : ModeMessage modesSession := ⟨heard "TuxBot" "JOIN" ["#tux"], Or.inl rfl, supplied_join _⟩
def limited : ModeMessage modesSession := ⟨limitReply, Or.inr (Or.inl rfl), supplied_limitReply⟩

/-- The limit is in the mode and not among the parameters. -/
theorem limit_lost : ∃ r, run (step .default modesSession) (start .new) [joined, limited] = some r ∧
    ∃ chan, r.tracker.chan modesSession "#tux" = some chan ∧ chan.mode = some "+ntl" ∧
      chan.modeparams = [] ∧ ¬ ParamsAgree modesSession r := by
  have hmodes : (run (step .default modesSession) (start .new) [joined, limited]).bind (fun r =>
        (r.tracker.chan modesSession "#tux").map fun chan => (chan.mode, chan.modeparams)) =
      some (some (lit "+ntl"), []) := by
    decide +kernel
  obtain ⟨r, hr, hseen⟩ := Option.bind_eq_some_iff.mp hmodes
  obtain ⟨chan, hchan, hboth⟩ := Option.map_eq_some_iff.mp hseen
  obtain ⟨hmode, hparams⟩ := Prod.mk.inj hboth
  refine ⟨r, hr, chan, hchan, hmode, hparams, fun h => ?_⟩
  have hlimit := (h "#tux" chan "+ntl" hchan hmode 108 (by decide)).1.mp (by decide)
  rw [hparams] at hlimit
  cases hlimit

end ModeRun

end TuxBot.Irc
