import TuxBot.Irc.Wire
import TuxBot.Lua.Words

/-! The console: how the lines that were sent are shown, and the commands that are typed. -/
namespace TuxBot.Bot.Console

open TuxBot.Lua TuxBot.Lua.Pattern TuxBot.Irc

/-! ### The escapes -/

/-- `[%z\001-\031%%]` -/
def isSpecial (b : UInt8) : Bool := decide (b < 32) || b == 37

/-- `'%'..(c=='%' and '%' or string.char(c:byte()+('@'):byte()))` -/
def escapeByte (b : UInt8) : Bytes := [37, if b = 37 then 37 else b + 64]

/-- What `sentmessage_cb` prints behind the name of the network. -/
def printed (line : Bytes) : Bytes :=
  formatString (gsub [.one isSpecial] (fun m => m.whole.flatMap escapeByte) line)

/-- `'%[A-Za-z%%]'`: the first `%` makes the bracket an ordinary one, and both `-` follow a letter. -/
def unescapePattern : List (Item UInt8) :=
  [.one (oneOf "["), .lazy (oneOf "A"), .one (oneOf "Z"), .lazy (oneOf "a"), .one (oneOf "z"),
    .one (oneOf "%"), .one (oneOf "]")]

def unescapeMatch (m : Match UInt8) : Bytes :=
  if m.whole = lit "%" then "%" else (upper m.whole).take 1 |>.map (· - 64)

def unescape (line : Bytes) : Bytes := gsub unescapePattern unescapeMatch line

/-! ### The commands -/

/-- The keys of `stdin_commands`. -/
inductive StdinCommand where
  | h
  | q
  | c
  | r
  | s
  deriving DecidableEq

/-- `'^%s*h%s*$'` -/
def letterPattern (letter : Bytes) : List (Item UInt8) :=
  [.star isSpace, .one (oneOf letter), .star isSpace, .eos]

def notSpace (b : UInt8) : Bool := !isSpace b

/-- `(%S.*)$` -/
def tailItems : List (Item UInt8) :=
  [.start, .one notSpace, .star anyByte, .stop, .eos]

/-- `(%S+)%s+(%S.*)$` -/
def sendItems : List (Item UInt8) :=
  .start :: .plus notSpace :: .stop :: .plus isSpace :: tailItems

def StdinCommand.pattern : StdinCommand → List (Item UInt8)
  | h => letterPattern "h"
  | q => letterPattern "q"
  | c => letterPattern "c"
  | r => .star isSpace :: .one (oneOf "r") :: .plus isSpace :: tailItems
  | s => .star isSpace :: .one (oneOf "s") :: .plus isSpace :: sendItems

/-- `stdin_handler`: the command that a line is for, and the arguments of its function. `order` is how
`pairs` goes through the commands. -/
def stdinHandler (order : List StdinCommand) (line : Bytes) : Option (StdinCommand × List Bytes) :=
  order.findSome? fun cmd => ((matchHere cmd.pattern line).map Match.values).map (cmd, ·)

/-- The Clients with their names, as `pairs` goes through them. -/
abbrev Clients (α : Type) := List (α × Bytes)

variable {α : Type} (clients : Clients α)

/-- The Clients that the command `s` means with the name of a network. -/
def meant (net : Bytes) : List α :=
  if net = lit "*" then clients.map Prod.fst
  else
    let whole := clients.find? fun client => lower client.2 = lower net
    let begins := clients.find? fun client => lower (client.2.take net.length) = lower net
    (whole.or begins).toList.map Prod.fst

/-- The calls of `sendmessageline`, up to one that raises. -/
def sendTo (raises : α → Bool) (line : Bytes) : List α → List (α × Bytes)
  | [] => []
  | client :: rest => (client, line) :: if raises client then [] else sendTo raises line rest

/-- The calls of `sendmessageline` that a typed line leads to. -/
def calls (raises : α → Bool) (order : List StdinCommand) (typed : Bytes) : List (α × Bytes) :=
  match stdinHandler order typed with
  | some (.s, [net, line]) => sendTo raises (unescape line) (meant clients net)
  | _ => []

/-- The command `s` with the name of a network and a line. -/
inductive TypedSend (net line : Bytes) : Bytes → Prop where
  | mk {front gap gap' : Bytes} (hfront : ∀ b ∈ front, isSpace b = true)
    (hgap : ∀ b ∈ gap, isSpace b = true) (hgap' : ∀ b ∈ gap', isSpace b = true) (hne : gap ≠ [])
    (hne' : gap' ≠ []) : TypedSend net line (front ++ lit "s" ++ gap ++ net ++ gap' ++ line)

/-- What was printed for a line, typed back, is sent as that line. -/
def RoundTrips (raises : α → Bool) (order : List StdinCommand) (net line : Bytes) : Prop :=
  ∀ typed, TypedSend net (printed line) typed →
    calls clients raises order typed ≠ [] ∧
      ∀ call ∈ calls clients raises order typed, call.2 = line

/-! ### What the escapes do -/

section Escapes

variable {s u line : Bytes} {b : UInt8} {m : Match UInt8}

theorem mem_escapeByte (hb : isSpecial b = true) : ∀ a ∈ escapeByte b, a ≠ 0 := by
  revert hb
  exact forall_byte (P := fun b => isSpecial b = true → ∀ a ∈ escapeByte b, a ≠ 0)
    (by decide +kernel) b

theorem count_escapeByte (hb : isSpecial b = true) :
    (escapeByte b).length = 2 ∧ (escapeByte b).count 37 = [b].count 37 + 1 := by
  revert hb
  exact forall_byte (P := fun b => isSpecial b = true →
    (escapeByte b).length = 2 ∧ (escapeByte b).count 37 = [b].count 37 + 1) (by decide +kernel) b

/-- The printed text byte by byte. -/
theorem printed_eq (line : Bytes) :
    printed line = line.flatMap fun b => if isSpecial b then escapeByte b else [b] := by
  rw [printed, gsub_one (g := escapeByte) fun b s => List.append_nil _]
  refine formatString_of_ne_zero fun a ha => ?_
  obtain ⟨b, -, hmem⟩ := List.mem_flatMap.mp ha
  by_cases hb : isSpecial b
  · rw [if_pos hb] at hmem
    exact mem_escapeByte hb a hmem
  · rw [if_neg hb] at hmem
    obtain rfl := List.mem_singleton.mp hmem
    rintro rfl
    exact hb rfl

/-- Every special byte adds a byte and a `%`. -/
theorem count_printed (line : Bytes) :
    (printed line).length = line.length + line.countP isSpecial ∧
      (printed line).count 37 = line.count 37 + line.countP isSpecial := by
  simp only [printed_eq]
  induction line with
  | nil => exact ⟨rfl, rfl⟩
  | cons b line ih =>
    obtain ⟨hlength, hcount⟩ := ih
    have hcons : (b :: line).count 37 = [b].count 37 + line.count 37 := by
      rw [← List.count_append, List.singleton_append]
    rw [List.flatMap_cons, List.length_append, List.count_append, hlength, hcount, hcons,
      List.length_cons]
    by_cases hb : isSpecial b
    · obtain ⟨hlength, hcount⟩ := count_escapeByte hb
      rw [if_pos hb, hlength, hcount, List.countP_cons_of_pos hb]
      omega
    · rw [if_neg hb, List.countP_cons_of_neg hb, List.length_singleton]
      omega

theorem printed_plain (hplain : ∀ b ∈ line, isSpecial b = false) : printed line = line := by
  rw [printed_eq]
  induction line with
  | nil => rfl
  | cons b line ih =>
    obtain ⟨hb, hline⟩ := List.forall_mem_cons.mp hplain
    rw [List.flatMap_cons, ih hline, hb]
    rfl

theorem eq_of_oneOf {a : UInt8} (h : oneOf [a] b = true) : b = a := by
  simpa [oneOf] using h

theorem count_of_oneOf {a : UInt8} (hu : ∀ b ∈ u, oneOf [a] b = true) (ha : a ≠ 37) :
    u.count 37 = 0 := by
  refine List.count_eq_zero.mpr fun hmem => ?_
  exact ha (eq_of_oneOf (hu 37 hmem)).symm

/-- What the pattern matches: it has one `%`, and is at least five bytes long. -/
theorem matchHere_unescape (h : matchHere unescapePattern s = some m) :
    m.whole.count 37 = 1 ∧ 5 ≤ m.whole.length ∧ unescapeMatch m = [27] := by
  have hsplit := matchHere_append h
  obtain ⟨⟨cs, rest⟩, hmatch, hm⟩ := Option.map_eq_some_iff.mp h
  obtain ⟨b₁, s₁, rfl, hb₁, h₁⟩ := doMatch_one_some hmatch
  obtain ⟨u₁, s₂, rfl, hu₁, h₂⟩ := minExpand_split h₁
  obtain ⟨b₂, s₃, rfl, hb₂, h₃⟩ := doMatch_one_some h₂
  obtain ⟨u₂, s₄, rfl, hu₂, h₄⟩ := minExpand_split h₃
  obtain ⟨b₃, s₅, rfl, hb₃, h₅⟩ := doMatch_one_some h₄
  obtain ⟨b₄, s₆, rfl, hb₄, h₆⟩ := doMatch_one_some h₅
  obtain ⟨b₅, s₇, rfl, hb₅, h₇⟩ := doMatch_one_some h₆
  cases h₇
  have hwhole : m.whole = b₁ :: (u₁ ++ b₂ :: (u₂ ++ [b₃, b₄, b₅])) := by
    have hrest : m.rest = rest := congrArg Match.rest hm.symm
    rw [hrest] at hsplit
    refine List.append_cancel_right (hsplit.trans ?_)
    simp
  have hcount₁ := count_of_oneOf (a := 65) hu₁ (by decide)
  have hcount₂ := count_of_oneOf (a := 97) hu₂ (by decide)
  obtain rfl : b₁ = 91 := eq_of_oneOf hb₁
  obtain rfl : b₂ = 90 := eq_of_oneOf hb₂
  obtain rfl : b₃ = 122 := eq_of_oneOf hb₃
  obtain rfl : b₄ = 37 := eq_of_oneOf hb₄
  obtain rfl : b₅ = 93 := eq_of_oneOf hb₅
  rw [unescapeMatch, hwhole]
  refine ⟨?_, ?_, rfl⟩
  · simp [hcount₁, hcount₂]
  · simp only [List.length_cons, List.length_append, List.length_nil]
    omega

/-- Every replacement loses a `%` and at least four bytes. -/
theorem unescape_loses (s : Bytes) : ∃ n, (unescape s).count 37 + n = s.count 37 ∧
    (unescape s).length + 4 * n ≤ s.length ∧ (n = 0 → unescape s = s) := by
  generalize hlength : s.length = l
  induction l using Nat.strongRecOn generalizing s with
  | ind l ih =>
    subst hlength
    cases s with
    | nil =>
      have hnil : unescape [] = [] := gsub_nil_of_none rfl
      exact ⟨0, by rw [hnil]; rfl, by rw [hnil]; exact Nat.le_refl 0, fun _ => hnil⟩
    | cons b s =>
      cases hmatch : matchHere unescapePattern (b :: s) with
      | none =>
        obtain ⟨n, hcount, hlength, hzero⟩ := ih s.length (Nat.lt_succ_self _) s rfl
        have hcons : unescape (b :: s) = b :: unescape s := gsub_cons_of_none hmatch
        refine ⟨n, ?_, ?_, fun hn => by rw [hcons, hzero hn]⟩
        · rw [hcons, List.count_cons, List.count_cons]
          omega
        · rw [hcons, List.length_cons, List.length_cons]
          omega
      | some m =>
        obtain ⟨hcountm, hlengthm, hreplaced⟩ := matchHere_unescape hmatch
        have hsplit := matchHere_append hmatch
        have hwhole : m.whole ≠ [] := List.ne_nil_of_length_pos (by omega)
        have hlt : m.rest.length < (b :: s).length := by
          rw [← hsplit, List.length_append]
          omega
        obtain ⟨n, hcount, hlength, -⟩ := ih m.rest.length hlt m.rest rfl
        have hcons : unescape (b :: s) = 27 :: unescape m.rest := by
          rw [unescape, gsub_cons_of_some hmatch hwhole, hreplaced]
          rfl
        refine ⟨n + 1, ?_, ?_, nofun⟩
        · rw [hcons, ← hsplit, List.count_append, hcountm, List.count_cons_of_ne (by decide)]
          omega
        · rw [hcons, ← hsplit, List.length_append, List.length_cons]
          omega

/-- The console undoes no escape: as many `%` would have to go as there are special bytes, and the
text would get shorter than the line was. -/
theorem unescape_printed_iff : unescape (printed line) = line ↔ ∀ b ∈ line, isSpecial b = false := by
  obtain ⟨n, hcount, hlength, hzero⟩ := unescape_loses (printed line)
  obtain ⟨hlengthp, hcountp⟩ := count_printed line
  constructor
  · intro h
    rw [h] at hcount hlength
    have hnone : line.countP isSpecial = 0 := by omega
    simpa using List.countP_eq_zero.mp hnone
  · intro hplain
    have hpercent : line.count 37 = 0 := by
      refine List.count_eq_zero.mpr fun hmem => ?_
      cases hplain 37 hmem
    rw [printed_plain hplain] at hcount hzero ⊢
    exact hzero (by omega)

end Escapes

/-! ### What a typed command leads to -/

section Typed

variable {p : List (Item UInt8)} {cs : List (Capture UInt8)} {front gap gap' net line typed rest : Bytes}
  {order : List StdinCommand} {raises : α → Bool} {clients : Clients α}

theorem notSpace_iff {b : UInt8} : notSpace b = true ↔ isSpace b = false := by
  simp [notSpace]

theorem rejects_notSpace (run : Item UInt8) (h : run = .one notSpace ∨ run = .plus notSpace) :
    Rejects (run :: p) isSpace := by
  have hdisj : ∀ b, isSpace b = true → notSpace b = false := fun b hb => by simp [notSpace, hb]
  rcases h with rfl | rfl
  · exact rejects_one hdisj
  · exact rejects_plus hdisj

/-- The commands are told apart by their letter. -/
theorem letter_pattern {c : UInt8 → Bool} (hspace : ∀ b, isSpace b = true → c b = false)
    (hfront : ∀ b ∈ front, isSpace b = true) :
    doMatch (.star isSpace :: .one c :: p) [] (front ++ 115 :: rest) =
      if c 115 then doMatch p [] rest else none := by
  refine (doMatch_star_forced (rejects_one hspace) hfront (by simp; decide)).trans ?_
  rfl

theorem other_pattern (hfront : ∀ b ∈ front, isSpace b = true) {cmd : StdinCommand}
    (hcmd : cmd ≠ .s) : matchHere cmd.pattern (front ++ 115 :: rest) = none := by
  have hspace {letter : UInt8} (hletter : isSpace letter = false) :
      ∀ b, isSpace b = true → oneOf [letter] b = false := by
    intro b hb
    by_contra h
    rw [Bool.not_eq_false] at h
    rw [eq_of_oneOf h, hletter] at hb
    cases hb
  refine matchHere_of_none ?_
  cases cmd with
  | h => exact letter_pattern (hspace rfl) hfront
  | q => exact letter_pattern (hspace rfl) hfront
  | c => exact letter_pattern (hspace rfl) hfront
  | r => exact letter_pattern (hspace rfl) hfront
  | s => exact (hcmd rfl).elim

/-- Only the command `s` is for a line with its letter, in whatever order the commands are tried. -/
theorem stdinHandler_eq (hpairs : .s ∈ order) (hfront : ∀ b ∈ front, isSpace b = true) :
    stdinHandler order (front ++ 115 :: rest) =
      ((matchHere StdinCommand.s.pattern (front ++ 115 :: rest)).map Match.values).map (.s, ·) := by
  unfold stdinHandler
  induction order with
  | nil => cases hpairs
  | cons cmd order ih =>
    rw [List.findSome?_cons]
    by_cases hcmd : cmd = .s
    · subst hcmd
      cases hs : matchHere StdinCommand.s.pattern (front ++ 115 :: rest) with
      | some m => rfl
      | none =>
        refine List.findSome?_eq_none_iff.mpr fun cmd _ => ?_
        by_cases hcmd : cmd = .s
        · rw [hcmd, hs]
          rfl
        · rw [other_pattern hfront hcmd]
          rfl
    · rw [other_pattern hfront hcmd]
      exact ih ((List.mem_cons.mp hpairs).resolve_left (Ne.symm hcmd))

/-- A word, and what the pattern of `s` asks of it. -/
structure Word (w : Bytes) : Prop where
  ne_nil : w ≠ []
  noSpace : ∀ b ∈ w, notSpace b = true

theorem spaces_then (hnet : Word net) : ∀ b ∈ (net ++ rest).head?, isSpace b = false := by
  obtain ⟨b, w, rfl⟩ := List.exists_cons_of_ne_nil hnet.ne_nil
  intro a ha
  obtain rfl : b = a := Option.some.inj ha
  exact notSpace_iff.mp (hnet.noSpace b List.mem_cons_self)

theorem send_pattern (rest : Bytes) (hfront : ∀ b ∈ front, isSpace b = true) (hgap : ∀ b ∈ gap, isSpace b = true)
    (hne : gap ≠ []) (hnet : Word net) :
    doMatch StdinCommand.s.pattern [] (front ++ 115 :: (gap ++ (net ++ rest))) =
      doMatch sendItems [] (net ++ rest) := by
  have hletter : ∀ b, isSpace b = true → oneOf "s" b = false := by
    intro b hb
    by_contra h
    rw [Bool.not_eq_false] at h
    obtain rfl : b = 115 := eq_of_oneOf h
    cases hb
  have hword : Rejects sendItems isSpace := rejects_start (rejects_notSpace _ (.inr rfl))
  exact (letter_pattern hletter hfront).trans (doMatch_plus_forced hword hne hgap (spaces_then hnet))

theorem sendItems_line (hnet : Word net) (hgap : ∀ b ∈ gap, isSpace b = true) (hne : gap ≠ [])
    (hline : line ≠ []) (hstart : ∀ b ∈ line.head?, isSpace b = false) :
    doMatch sendItems [] (net ++ (gap ++ line)) = some ([.closed line, .closed net], []) := by
  have htail : Rejects tailItems isSpace := rejects_start (rejects_notSpace _ (.inl rfl))
  obtain ⟨b, rest, rfl⟩ := List.exists_cons_of_ne_nil hline
  exact (doMatch_word_sep (fun _ => notSpace_iff.mp) htail hnet.ne_nil hnet.noSpace hne hgap
    hstart).trans (doMatch_toEnd (.inl rfl) (notSpace_iff.mpr (hstart b rfl)) fun _ _ => rfl)

theorem sendItems_end (hnet : Word net) (hgap : ∀ b ∈ gap, isSpace b = true) :
    doMatch sendItems [] (net ++ gap) = none :=
  doMatch_word_end (fun _ => notSpace_iff.mp)
    (rejects_start (rejects_notSpace _ (.inl rfl)) : Rejects tailItems isSpace) (fun _ => rfl)
    hnet.ne_nil hnet.noSpace hgap

/-- What a typed line leads to. -/
theorem calls_typed (clients : Clients α) (raises : α → Bool) (hpairs : .s ∈ order) (hnet : Word net)
    (hstart : ∀ b ∈ line.head?, isSpace b = false) (htyped : TypedSend net line typed) :
    calls clients raises order typed =
      if line = [] then [] else sendTo raises (unescape line) (meant clients net) := by
  obtain ⟨hfront, hgap, hgap', hne, hne'⟩ := htyped
  rename_i front gap gap'
  have htext : front ++ lit "s" ++ gap ++ net ++ gap' ++ line =
      front ++ 115 :: (gap ++ (net ++ (gap' ++ line))) := by
    simp only [List.append_assoc]
    rfl
  have hpattern := send_pattern (gap' ++ line) hfront hgap hne hnet
  rw [htext, calls, stdinHandler_eq hpairs hfront]
  by_cases hline : line = []
  · subst hline
    have hnone := sendItems_end hnet hgap'
    rw [List.append_nil] at hpattern ⊢
    rw [matchHere_of_none (hpattern.trans hnone)]
    rfl
  · rw [values_of_doMatch (hpattern.trans (sendItems_line hnet hgap' hne' hline hstart)), if_neg hline]
    rfl

theorem mem_sendTo (raises : α → Bool) (line : Bytes) (rest : List α) :
    ∀ call ∈ sendTo raises line rest, call.2 = line := by
  induction rest with
  | nil => nofun
  | cons client rest ih =>
    intro call hcall
    rcases List.mem_cons.mp hcall with rfl | hcall
    · rfl
    · split at hcall
      · cases hcall
      · exact ih call hcall

theorem sendTo_ne_nil {targets : List α} (h : targets ≠ []) : sendTo raises line targets ≠ [] := by
  obtain ⟨client, rest, rfl⟩ := List.exists_cons_of_ne_nil h
  exact List.cons_ne_nil _ _

theorem printed_eq_nil : printed line = [] ↔ line = [] := by
  have hlength := (count_printed line).1
  rw [← List.length_eq_zero_iff, ← List.length_eq_zero_iff]
  have := List.countP_le_length (p := isSpecial) (l := line)
  omega

theorem printed_start (hstart : ∀ b ∈ line.head?, isSpace b = false) :
    ∀ b ∈ (printed line).head?, isSpace b = false := by
  cases line with
  | nil => nofun
  | cons b line =>
    rw [printed_eq, List.flatMap_cons]
    split
    · intro a ha
      obtain rfl : 37 = a := Option.some.inj ha
      rfl
    · intro a ha
      obtain rfl : b = a := Option.some.inj ha
      exact hstart b rfl

/-- A line comes back from the console if nothing in it had to be escaped. -/
theorem roundTrips_iff (raises : α → Bool) (hpairs : .s ∈ order) (hnet : Word net)
    (hmeant : meant clients net ≠ []) (hstart : ∀ b ∈ line.head?, isSpace b = false) :
    RoundTrips clients raises order net line ↔ line ≠ [] ∧ ∀ b ∈ line, isSpecial b = false := by
  have hcalls {typed : Bytes} (htyped : TypedSend net (printed line) typed) :=
    calls_typed clients raises hpairs hnet (printed_start hstart) htyped
  constructor
  · intro hround
    have hspace : ∀ b ∈ lit " ", isSpace b = true := by decide +kernel
    have hfront : ∀ b ∈ ([] : Bytes), isSpace b = true := nofun
    have htyped : TypedSend net (printed line) _ :=
      .mk hfront hspace hspace (by decide) (by decide)
    obtain ⟨hne, hlines⟩ := hround _ htyped
    rw [hcalls htyped] at hne hlines
    by_cases hline : line = []
    · rw [if_pos (printed_eq_nil.mpr hline)] at hne
      exact (hne rfl).elim
    · rw [if_neg (mt printed_eq_nil.mp hline)] at hlines
      obtain ⟨client, targets, htargets⟩ := List.exists_cons_of_ne_nil hmeant
      rw [htargets] at hlines
      have hfirst : unescape (printed line) = line := hlines (client, _) List.mem_cons_self
      exact ⟨hline, unescape_printed_iff.mp hfirst⟩
  · rintro ⟨hne, hplain⟩ typed htyped
    rw [hcalls htyped, if_neg (mt printed_eq_nil.mp hne)]
    exact ⟨sendTo_ne_nil hmeant, fun call hcall =>
      (mem_sendTo _ _ _ call hcall).trans (unescape_printed_iff.mpr hplain)⟩

theorem roundTrips_iff_version :
    RoundTrips [((), lit "OFTC")] (fun _ => false) [.h, .q, .c, .r, .s] "oft" "VERSION" :=
  (roundTrips_iff (fun _ => false) (by decide) ⟨by decide, by decide +kernel⟩ (by decide)
    (by decide +kernel)).mpr ⟨by decide, by decide +kernel⟩

/-- The byte 2 of a bold text is shown as `%B`, and stays that. -/
theorem bold_not_undone :
    ¬ RoundTrips [((), lit "OFTC")] (fun _ => false) [.h, .q, .c, .r, .s] "oft" [65, 2] := by
  intro hround
  have hspace : ∀ b ∈ lit " ", isSpace b = true := by decide +kernel
  have hfront : ∀ b ∈ ([] : Bytes), isSpace b = true := nofun
  obtain ⟨-, hlines⟩ := hround _ (.mk hfront hspace hspace (by decide) (by decide))
  have hsent : ((), lit "A%B") ∈ calls [((), lit "OFTC")] (fun _ => false) [.h, .q, .c, .r, .s]
      ([] ++ lit "s" ++ lit " " ++ lit "oft" ++ lit " " ++ printed [65, 2]) := by
    decide +kernel
  cases hlines _ hsent

end Typed

end TuxBot.Bot.Console
