import TuxBot.Irc.WireRoundTrip
import TuxBot.Lua.Captures

/-! The grammar of message lines, and that `message_line_to_table` reads exactly its lines. -/
namespace TuxBot.Irc

open TuxBot.Lua TuxBot.Lua.Pattern

variable {s rest u last p cmd line nick user host : Bytes} {pre : Option Bytes}

/-- `line` is `remaining`, or it is `remaining` behind a colon, a prefix and spaces. -/
inductive Prefixed (remaining : Bytes) : Option Bytes → Bytes → Prop
  | bare : Prefixed remaining none remaining
  | colon {p : Bytes} {n : Nat} : p ≠ [] → (∀ b ∈ p, b ≠ 32) → 0 < n →
      Prefixed remaining (some p) (58 :: p ++ List.replicate n 32 ++ remaining)

/-- `[':' prefix SP+] cmd rest` -/
structure Grammar (line : Bytes) (pre : Option Bytes) (cmd rest : Bytes) : Prop where
  line : Prefixed (cmd ++ rest) pre line
  nonempty : cmd ≠ []
  alnum : ∀ b ∈ cmd, isAlnum b = true
  space : ∀ b ∈ rest.head?, b = 32

/-- What stands between the spaces. -/
def tokens (s : Bytes) : List Bytes := (s.splitOn 32).filter (· ≠ [])

/-- The arguments in `rest`: its tokens up to the first one that begins with a colon, and the text
behind that colon. -/
inductive Arguments (rest : Bytes) : List Bytes → Prop
  | plain : (∀ w ∈ tokens rest, w.head? ≠ some 58) → Arguments rest (tokens rest)
  | last {u last : Bytes} : rest = u ++ 32 :: 58 :: last → (∀ w ∈ tokens u, w.head? ≠ some 58) →
      Arguments rest (tokens u ++ [last])

/-- `p` is `nick!user@host`. -/
structure Address (p nick user host : Bytes) : Prop where
  text : p = nick ++ 33 :: user ++ 64 :: host
  nick : nick ≠ []
  user : user ≠ []
  host : host ≠ []

/-- The sender of a line: the last `!` that leaves an address and then the last such `@` separate
the parts of a prefix. -/
inductive SenderOf (mynick : Bytes) : Option Bytes → Sender → Prop
  | own : SenderOf mynick none ⟨some mynick, none, none, none⟩
  | host {p : Bytes} : (∀ nick user host, ¬ Address p nick user host) →
      SenderOf mynick (some p) ⟨none, none, some p, some p⟩
  | address {p nick user host : Bytes} : Address p nick user host →
      (∀ nick' user' host', Address p nick' user' host' → nick'.length ≤ nick.length) →
      (∀ user' host', Address p nick user' host' → user'.length ≤ user.length) →
      SenderOf mynick (some p) ⟨some nick, some user, some host, some p⟩

section Prefixes

/-- `(.*)` at the end of a pattern captures the rest of the subject. -/
theorem doMatch_tail (s : Bytes) (cs : List (Capture UInt8)) :
    doMatch [.start, .star anyByte, .stop] cs s = some (.closed s :: cs, []) := by
  have hclose := endCapture_append s [] cs
  have hrun : maxExpand anyByte (doMatch [.stop] (.unfinished (s ++ []) :: cs)) (s ++ []) =
      some (.closed s :: cs, []) := by
    apply maxExpand_append (fun _ _ => rfl) (by simp)
    rw [doMatch_stop, hclose]
    rfl
  rw [List.append_nil] at hrun
  exact hrun

theorem noneOf_space {b : UInt8} : noneOf " " b = true ↔ b ≠ 32 := by
  simp [noneOf, lit]

theorem oneOf_space {b : UInt8} : oneOf " " b = true ↔ b = 32 := by
  simp [oneOf, lit]

theorem splitPrefix_colon {n : Nat} (hp : p ≠ []) (hspace : ∀ b ∈ p, b ≠ 32) (hn : 0 < n)
    (hs : ∀ b ∈ s.head?, b ≠ 32) :
    splitPrefix (58 :: p ++ List.replicate n 32 ++ s) = (some p, s) := by
  obtain ⟨n, rfl⟩ := Nat.exists_eq_add_of_lt hn
  have hspaces : maxExpand (oneOf " ") (doMatch [.start, .star anyByte, .stop] [.closed p])
      (List.replicate n 32 ++ s) = some ([.closed s, .closed p], []) := by
    apply maxExpand_append _ _ (doMatch_tail s _)
    · intro b hb
      exact oneOf_space.mpr (List.eq_of_mem_replicate hb)
    · intro b hb
      simpa using fun h => hs b hb (oneOf_space.mp h)
  have hrest : afterCapture [.plus (oneOf " "), .start, .star anyByte, .stop] [] p
      (32 :: (List.replicate n 32 ++ s)) = some ([.closed s, .closed p], []) :=
    (doMatch_plus rfl).trans hspaces
  have hgroup := doMatch_group_plus_of_longest hp (fun b hb => noneOf_space.mpr (hspace b hb)) hrest
    (longest_of_head (by simp [noneOf, lit]))
  have hm : doMatch prefixPattern [] ((58 :: p ++ List.replicate (0 + n + 1) 32 ++ s) ++ []) =
      some ([.closed s, .closed p], []) := by
    rw [List.append_nil, Nat.zero_add, List.replicate_succ, prefixPattern, List.append_assoc,
      List.cons_append, doMatch_one rfl]
    exact hgroup
  have hmatch := matchHere_of_some hm
  rw [List.append_nil] at hmatch
  rw [splitPrefix, hmatch]
  rfl

/-- The prefix a line is split at is one of the grammar. -/
theorem splitPrefix_prefixed (line : Bytes) :
    Prefixed (splitPrefix line).2 (splitPrefix line).1 line := by
  rcases Option.eq_none_or_eq_some (matchHere prefixPattern line) with hm | ⟨m, hm⟩
  · simpa [splitPrefix, hm] using Prefixed.bare
  · obtain ⟨r, hr, rfl⟩ := Option.map_eq_some_iff.mp hm
    cases line with
    | nil => simp [prefixPattern, doMatch] at hr
    | cons d t =>
      have hd : d = 58 := by
        by_contra hne
        simp [prefixPattern, doMatch, oneOf, lit, hne] at hr
      subst hd
      rw [prefixPattern, doMatch_one rfl] at hr
      obtain ⟨p, x, rfl, hp, hclass, hx, -⟩ := doMatch_group_plus hr
      cases x with
      | nil => simp [afterCapture, doMatch] at hx
      | cons d x =>
        have hd : d = 32 := by
          by_contra hne
          simp [afterCapture, doMatch, oneOf, lit, hne] at hx
        subst hd
        rw [afterCapture, doMatch_plus rfl] at hx
        obtain ⟨spaces, s, rfl, hspaces, hs⟩ := maxExpand_split hx
        obtain rfl : r = ([.closed s, .closed p], []) :=
          Option.some.inj (hs.symm.trans (doMatch_tail s _))
        have hreplicate : spaces = List.replicate spaces.length 32 :=
          List.eq_replicate_of_mem fun b hb => oneOf_space.mp (hspaces b hb)
        have hline : 58 :: (p ++ 32 :: (spaces ++ s)) =
            58 :: p ++ List.replicate (spaces.length + 1) 32 ++ s := by
          rw [List.replicate_succ, ← hreplicate]
          simp
        have hprefixed :
            Prefixed s (some p) (58 :: p ++ List.replicate (spaces.length + 1) 32 ++ s) :=
          .colon hp (fun b hb => noneOf_space.mp (hclass b hb)) (Nat.succ_pos spaces.length)
        rw [← hline] at hprefixed
        simpa [splitPrefix, hm, Match.values, Capture.text] using hprefixed

end Prefixes

section Command

/-- The command a line is read with is one of the grammar. -/
theorem commandOf_sound (h : commandOf s = some cmd) :
    cmd ≠ [] ∧ (∀ b ∈ cmd, isAlnum b = true) ∧ ∃ rest, s = cmd ++ rest ∧ ∀ b ∈ rest.head?, b = 32 := by
  obtain ⟨m, hm, hcmd⟩ := Option.bind_eq_some_iff.mp h
  rcases Option.or_eq_some_iff.mp hm with honly | ⟨-, hspace⟩
  · obtain ⟨r, hr, rfl⟩ := Option.map_eq_some_iff.mp honly
    obtain ⟨u, x, rfl, hne, hu, hx, -⟩ := doMatch_group_plus hr
    cases x with
    | nil =>
      obtain rfl : ([.closed u], []) = r := by simpa [afterCapture, doMatch] using hx
      obtain rfl : u = cmd := by simpa [Capture.text] using hcmd
      exact ⟨hne, hu, [], rfl, by simp⟩
    | cons b x => simp [afterCapture, doMatch] at hx
  · obtain ⟨r, hr, rfl⟩ := Option.map_eq_some_iff.mp hspace
    obtain ⟨u, x, rfl, hne, hu, hx, -⟩ := doMatch_group_plus hr
    cases x with
    | nil => simp [afterCapture, doMatch] at hx
    | cons b x =>
      have hb : b = 32 := by
        by_contra hne
        simp [afterCapture, doMatch, oneOf, lit, hne] at hx
      subst hb
      obtain rfl : ([.closed u], x) = r := by simpa [afterCapture, doMatch, oneOf, lit] using hx
      obtain rfl : u = cmd := by simpa [Capture.text] using hcmd
      exact ⟨hne, hu, 32 :: x, rfl, by simp⟩

end Command

section Arguments

/-- The pieces between the spaces, each behind a space again, are the text behind one. -/
theorem eq_joinMiddle_splitOn (s : Bytes) : 32 :: s = joinMiddle (s.splitOn 32) := by
  induction s with
  | nil => rfl
  | cons b s ih =>
    rw [List.splitOn_cons_eq_if_modifyHead]
    obtain ⟨w, ws, hsplit⟩ := List.exists_cons_of_ne_nil (List.splitOn_ne_nil 32 s)
    rw [hsplit] at ih ⊢
    by_cases hb : b = 32
    · simpa [hb, joinMiddle] using ih
    · simpa [hb, joinMiddle] using ih

theorem splitOn_no_space (s : Bytes) : ∀ w ∈ s.splitOn 32, ∀ b ∈ w, b ≠ 32 := by
  induction s with
  | nil => simp
  | cons d s ih =>
    rw [List.splitOn_cons_eq_if_modifyHead]
    obtain ⟨w, ws, hsplit⟩ := List.exists_cons_of_ne_nil (List.splitOn_ne_nil 32 s)
    rw [hsplit] at ih ⊢
    by_cases hd : d = 32
    · simpa [hd] using ih
    · simpa [hd] using ih

theorem tokens_space (s : Bytes) : tokens (32 :: s) = tokens s := by
  simp [tokens, List.splitOn_cons_eq_if_modifyHead]

/-- The words found behind a command are the tokens. -/
theorem words_eq_tokens (hs : ∀ b ∈ s.head?, b = 32) : words s = tokens s := by
  cases s with
  | nil => rfl
  | cons b s =>
    obtain rfl : b = 32 := hs b (by simp)
    rw [tokens_space, tokens, eq_joinMiddle_splitOn, words_joinMiddle_filter (splitOn_no_space s)]

/-- No colon follows a space. -/
def Unmarked (s : Bytes) : Prop := ∀ u t, s ≠ u ++ 32 :: 58 :: t

theorem unmarked_of_tokens (h : ∀ w ∈ tokens s, w.head? ≠ some 58) : Unmarked s := by
  rintro u t rfl
  obtain ⟨w, ws, hsplit⟩ := List.exists_cons_of_ne_nil (List.splitOn_ne_nil 32 t)
  have hmem : (58 :: w) ∈ tokens (u ++ 32 :: 58 :: t) := by
    rw [tokens, List.splitOn_append_cons_self, List.splitOn_cons_eq_if_modifyHead, hsplit]
    simp
  exact h _ hmem rfl

theorem tokens_of_unmarked (hs : ∀ b ∈ s.head?, b = 32) (h : Unmarked s) :
    ∀ w ∈ tokens s, w.head? ≠ some 58 := by
  cases s with
  | nil => simp [tokens]
  | cons b s =>
    obtain rfl : b = 32 := hs b (by simp)
    rw [tokens_space]
    intro w hw hhead
    obtain ⟨t, rfl⟩ := List.head?_eq_some_iff.mp hhead
    obtain ⟨front, back, hsplit⟩ := List.append_of_mem (List.mem_of_mem_filter hw)
    apply h (joinMiddle front) (t ++ joinMiddle back)
    rw [eq_joinMiddle_splitOn, hsplit]
    simp [joinMiddle]

/-- A text has no colon behind a space, or it has a first one. -/
theorem unmarked_or_first (s : Bytes) :
    Unmarked s ∨ ∃ u last, s = u ++ 32 :: 58 :: last ∧ Unmarked u := by
  induction s with
  | nil => exact .inl fun u t h => by simp at h
  | cons b s ih =>
    by_cases hmark : ∃ last, b :: s = 32 :: 58 :: last
    · obtain ⟨last, hlast⟩ := hmark
      exact .inr ⟨[], last, hlast, fun u t h => by simp at h⟩
    · have hcons : ∀ {s'}, s' <+: s → Unmarked s' → Unmarked (b :: s') := by
        rintro s' ⟨d, rfl⟩ hs' u t hu
        cases u with
        | nil =>
          obtain ⟨rfl, rfl⟩ := List.cons.inj hu
          exact hmark ⟨t ++ d, rfl⟩
        | cons _ u => exact hs' u t (List.cons.inj hu).2
      rcases ih with hs | ⟨u, last, rfl, hu⟩
      · exact .inl (hcons (List.prefix_refl s) hs)
      · exact .inr ⟨b :: u, last, rfl, hcons (List.prefix_append u _) hu⟩

theorem argsOf_unmarked (h : Unmarked s) : argsOf s = words s := by
  have hm : matchHere lastArgPattern s = none := by
    apply matchHere_of_none
    apply minExpand_eq_none
    rintro x ⟨u, rfl⟩
    apply lastArgTail_none
    rintro t rfl
    exact h u t rfl
  rw [argsOf, hm]
  rfl

theorem argsOf_first (h : Unmarked u) (last : Bytes) :
    argsOf (u ++ 32 :: 58 :: last) = words u ++ [last] := by
  apply argsOf_marker
  rintro x ⟨v, rfl⟩ hne t hx
  rcases x with - | ⟨a, - | ⟨b, x⟩⟩
  · exact hne rfl
  · simp at hx
  · obtain ⟨rfl, rfl⟩ : a = 32 ∧ b = 58 := by
      simp only [List.cons_append, List.cons.injEq] at hx
      exact ⟨hx.1, hx.2.1⟩
    exact h v x rfl

theorem arguments_iff {args : List Bytes} (hrest : ∀ b ∈ rest.head?, b = 32) :
    Arguments rest args ↔ args = argsOf rest := by
  have hfront : ∀ {u t : Bytes}, rest = u ++ 32 :: 58 :: t → ∀ b ∈ u.head?, b = 32 := by
    rintro u t rfl b hb
    exact hrest b (by simp [List.head?_append, Option.mem_def.mp hb])
  constructor
  · rintro (hplain | ⟨rfl, hu⟩)
    · rw [argsOf_unmarked (unmarked_of_tokens hplain), words_eq_tokens hrest]
    · rw [argsOf_first (unmarked_of_tokens hu), words_eq_tokens (hfront rfl)]
  · rintro rfl
    rcases unmarked_or_first rest with hplain | ⟨u, last, hlast, hu⟩
    · rw [argsOf_unmarked hplain, words_eq_tokens hrest]
      exact .plain (tokens_of_unmarked hrest hplain)
    · have hargs := argsOf_first hu last
      rw [← hlast, words_eq_tokens (hfront hlast)] at hargs
      rw [hargs]
      exact .last hlast (tokens_of_unmarked (hfront hlast) hu)

end Arguments

section Sender

/-- The part of `senderPattern` behind the nick, and that behind the user. -/
def userPattern : List (Item UInt8) := .one (oneOf "!") :: .start :: .plus anyByte :: .stop ::
  .one (oneOf "@") :: .start :: .plus anyByte :: .stop :: [.eos]

def hostPattern : List (Item UInt8) :=
  .one (oneOf "@") :: .start :: .plus anyByte :: .stop :: [.eos]

variable {x : Bytes} {r : List (Capture UInt8) × Bytes}

theorem afterCapture_host (cs : List (Capture UInt8)) (user x : Bytes) : afterCapture hostPattern cs user x = some r ↔
    ∃ host, host ≠ [] ∧ x = 64 :: host ∧ r = (.closed host :: .closed user :: cs, []) := by
  constructor
  · intro h
    cases x with
    | nil => simp [afterCapture, hostPattern, doMatch] at h
    | cons b x =>
      have hb : b = 64 := by
        by_contra hne
        simp [afterCapture, hostPattern, doMatch, oneOf, lit, hne] at h
      subst hb
      rw [afterCapture, hostPattern, doMatch_one rfl] at h
      obtain ⟨host, y, rfl, hne, -, hy, -⟩ := doMatch_group_plus h
      cases y with
      | nil => exact ⟨host, hne, by simp, by simpa [afterCapture, doMatch, eq_comm] using hy⟩
      | cons b y => simp [afterCapture, doMatch] at hy
  · rintro ⟨host, hne, rfl, rfl⟩
    have hgroup : doMatch (.start :: .plus anyByte :: .stop :: [.eos]) (.closed user :: cs)
        (host ++ []) = some (.closed host :: .closed user :: cs, []) :=
      doMatch_group_plus_of_longest hne (fun _ _ => rfl) rfl (longest_of_head (by simp))
    rw [List.append_nil] at hgroup
    rw [afterCapture, hostPattern, doMatch_one rfl]
    exact hgroup

theorem afterCapture_user (h : afterCapture userPattern [] nick x = some r) :
    ∃ user host, x = 33 :: user ++ 64 :: host ∧ user ≠ [] ∧ host ≠ [] ∧
      r = ([.closed host, .closed user, .closed nick], []) ∧
      ∀ user' host', x = 33 :: user' ++ 64 :: host' → host' ≠ [] → user'.length ≤ user.length := by
  cases x with
  | nil => simp [afterCapture, userPattern, doMatch] at h
  | cons b x =>
    have hb : b = 33 := by
      by_contra hne
      simp [afterCapture, userPattern, doMatch, oneOf, lit, hne] at h
    subst hb
    rw [afterCapture, userPattern, doMatch_one rfl] at h
    obtain ⟨user, y, rfl, huser, -, hy, hlongest⟩ := doMatch_group_plus h
    obtain ⟨host, hhost, rfl, rfl⟩ := (afterCapture_host _ user y).mp hy
    refine ⟨user, host, rfl, huser, hhost, rfl, fun user' host' hx hhost' => ?_⟩
    by_contra hlen
    have hnone := hlongest user' (64 :: host') (List.cons.inj hx).2 (fun _ _ => rfl)
      (Nat.lt_of_not_le hlen)
    have hsome := (afterCapture_host [.closed nick] user' _).mpr ⟨host', hhost', rfl, rfl⟩
    rw [hostPattern, hnone] at hsome
    cases hsome

theorem afterCapture_user_ne_none (huser : user ≠ []) (hhost : host ≠ []) :
    afterCapture userPattern [] nick (33 :: user ++ 64 :: host) ≠ none := by
  rw [afterCapture, userPattern, List.cons_append, doMatch_one rfl]
  apply doMatch_group_plus_ne_none huser (fun _ _ => rfl)
  have hsome := (afterCapture_host [.closed nick] user _).mpr ⟨host, hhost, rfl, rfl⟩
  rw [hostPattern] at hsome
  simp [hsome]

theorem senderPrefixToTable_senderOf (mynick p : Bytes) :
    SenderOf mynick (some p) (senderPrefixToTable p) := by
  rcases Option.eq_none_or_eq_some (matchHere senderPattern p) with hm | ⟨m, hm⟩
  · have hnone : doMatch senderPattern [] p = none := by simpa [matchHere] using hm
    have haddress : ∀ nick user host, ¬ Address p nick user host := by
      rintro nick user host ⟨rfl, hnick, huser, hhost⟩
      rw [List.append_assoc] at hnone
      exact doMatch_group_plus_ne_none hnick (fun _ _ => rfl)
        (afterCapture_user_ne_none huser hhost) hnone
    simpa [senderPrefixToTable, hm] using SenderOf.host haddress
  · obtain ⟨r, hr, rfl⟩ := Option.map_eq_some_iff.mp hm
    obtain ⟨nick, x, rfl, hnick, -, hx, hlongest⟩ := doMatch_group_plus hr
    obtain ⟨user, host, rfl, huser, hhost, rfl, hlast⟩ := afterCapture_user hx
    have hmaxNick : ∀ nick' user' host', Address (nick ++ (33 :: user ++ 64 :: host)) nick' user'
        host' → nick'.length ≤ nick.length := by
      rintro nick' user' host' ⟨htext, -, huser', hhost'⟩
      by_contra hlen
      exact afterCapture_user_ne_none huser' hhost' (hlongest nick' _ (by simpa using htext)
        (fun _ _ => rfl) (Nat.lt_of_not_le hlen))
    have hmaxUser : ∀ user' host', Address (nick ++ (33 :: user ++ 64 :: host)) nick user' host' →
        user'.length ≤ user.length := by
      rintro user' host' ⟨htext, -, -, hhost'⟩
      exact hlast user' host' (by simpa using htext) hhost'
    have haddress : SenderOf mynick _ _ :=
      .address ⟨by simp, hnick, huser, hhost⟩ hmaxNick hmaxUser
    rw [senderPrefixToTable, hm]
    exact haddress

theorem Address.parts_eq {nick' user' host' : Bytes} (h : Address p nick user host)
    (h' : Address p nick' user' host') (hnick : nick.length = nick'.length)
    (huser : user.length = user'.length) : nick = nick' ∧ user = user' ∧ host = host' := by
  have htext := h.text.symm.trans h'.text
  simp only [List.append_assoc, List.cons_append] at htext
  obtain ⟨hnick, htext⟩ := List.append_inj htext hnick
  obtain ⟨huser, htext⟩ := List.append_inj (List.cons.inj htext).2 huser
  exact ⟨hnick, huser, (List.cons.inj htext).2⟩

theorem Address.nick_eq {nick' user' host' : Bytes} (h : Address p nick user host)
    (h' : Address p nick' user' host') (hnick : nick.length = nick'.length) : nick = nick' := by
  have htext := h.text.symm.trans h'.text
  simp only [List.append_assoc] at htext
  exact (List.append_inj htext hnick).1

/-- A prefix has one sender. -/
theorem SenderOf.unique {mynick : Bytes} {s s' : Sender} (h : SenderOf mynick pre s)
    (h' : SenderOf mynick pre s') : s = s' := by
  cases h with
  | own => cases h'; rfl
  | host hnone =>
    cases h' with
    | host => rfl
    | address haddress => exact absurd haddress (hnone _ _ _)
  | address haddress hnick huser =>
    cases h' with
    | host hnone => exact absurd haddress (hnone _ _ _)
    | address haddress' hnick' huser' =>
      have hlen := Nat.le_antisymm (hnick' _ _ _ haddress) (hnick _ _ _ haddress')
      obtain rfl := haddress.nick_eq haddress' hlen
      have hlen' := Nat.le_antisymm (huser' _ _ haddress) (huser _ _ haddress')
      obtain ⟨-, rfl, rfl⟩ := haddress.parts_eq haddress' rfl hlen'
      rfl

end Sender

section Line

variable {nick : Bytes} {time : Int} {msg : Message} {args : List Bytes}

theorem Grammar.splitPrefix (h : Grammar line pre cmd rest) :
    splitPrefix line = (pre, cmd ++ rest) := by
  obtain ⟨hline, hne, hcmd, -⟩ := h
  cases hline with
  | bare => exact splitPrefix_command hne hcmd rest
  | colon hp hspace hn =>
    refine splitPrefix_colon hp hspace hn fun b hb => ?_
    obtain ⟨d, cmd, rfl⟩ := List.exists_cons_of_ne_nil hne
    obtain rfl : d = b := by simpa using hb
    rintro rfl
    exact absurd (hcmd 32 List.mem_cons_self) (by decide)

/-- `prefix and sender_prefix_to_table(prefix) or {nick=client:get_nick()}` -/
def senderTable (mynick : Bytes) : Option Bytes → Sender
  | some p => senderPrefixToTable p
  | none => ⟨some mynick, none, none, none⟩

theorem senderTable_senderOf (mynick : Bytes) (pre : Option Bytes) :
    SenderOf mynick pre (senderTable mynick pre) := by
  cases pre with
  | none => exact .own
  | some p => exact senderPrefixToTable_senderOf mynick p

/-- What is read of a line of the grammar. -/
theorem Grammar.messageLineToTable (h : Grammar line pre cmd rest) (nick : Bytes) (time : Int) :
    messageLineToTable nick time line = some {
      time, line
      cmd := (rewriteCtcp (upper cmd) (argsOf rest)).1
      args := (rewriteCtcp (upper cmd) (argsOf rest)).2
      sender := senderTable nick pre } := by
  have hcommand := commandOf_command h.nonempty h.alnum h.space
  cases pre <;> simp [Irc.messageLineToTable, h.splitPrefix, hcommand, senderTable]

theorem grammar_of_isSome (h : (messageLineToTable nick time line).isSome = true) :
    ∃ pre cmd rest, Grammar line pre cmd rest := by
  have hprefixed := splitPrefix_prefixed line
  cases hcommand : commandOf (splitPrefix line).2 with
  | none => simp [messageLineToTable, hcommand] at h
  | some cmd =>
    obtain ⟨hne, hcmd, rest, hrest, hspace⟩ := commandOf_sound hcommand
    rw [hrest] at hprefixed
    exact ⟨_, cmd, rest, hprefixed, hne, hcmd, hspace⟩

/-- `message_line_to_table` accepts exactly the lines of the grammar, and of each of them it reads
the command in upper case, the arguments and the sender the grammar gives, but for the rewriting of
CTCP. -/
theorem messageLineToTable_grammar (nick : Bytes) (time : Int) (line : Bytes) :
    ((messageLineToTable nick time line).isSome = true ↔
      ∃ pre cmd rest, Grammar line pre cmd rest) ∧
    ∀ msg, messageLineToTable nick time line = some msg ↔
      msg.time = time ∧ msg.line = line ∧ ∃ pre cmd rest args, Grammar line pre cmd rest ∧
        Arguments rest args ∧ SenderOf nick pre msg.sender ∧
        (msg.cmd, msg.args) = rewriteCtcp (upper cmd) args ∧
        ((upper cmd = lit "PRIVMSG" ∨ upper cmd = lit "NOTICE" →
            ∀ mid, mid ≠ [] → args[1]? ≠ some (1 :: mid ++ [1])) →
          msg.cmd = upper cmd ∧ msg.args = args) := by
  refine ⟨⟨grammar_of_isSome, fun ⟨_, _, _, h⟩ => by simp [h.messageLineToTable]⟩, fun msg => ?_⟩
  constructor
  · intro hmsg
    obtain ⟨pre, cmd, rest, h⟩ := grammar_of_isSome (Option.isSome_of_eq_some hmsg)
    have hread := h.messageLineToTable nick time
    rw [hmsg] at hread
    obtain rfl := Option.some.inj hread
    refine ⟨rfl, rfl, pre, cmd, rest, argsOf rest, h, (arguments_iff h.space).mpr rfl,
      senderTable_senderOf nick pre, rfl, fun hplain => ?_⟩
    simp [rewriteCtcp_eq hplain]
  · rintro ⟨rfl, rfl, pre, cmd, rest, args, h, hargs, hs, hctcp, -⟩
    obtain rfl := (arguments_iff h.space).mp hargs
    rw [h.messageLineToTable, ← hctcp, (senderTable_senderOf nick pre).unique hs]

example : (messageLineToTable (lit "bot") 0 (lit ":a!b!c@d@e  ping  x:y :: z")).map
      (fun m => (m.cmd, m.args, m.sender)) =
    some (lit "PING", [lit "x:y", lit ": z"],
      ⟨some (lit "a!b"), some (lit "c@d"), some (lit "e"), some (lit "a!b!c@d@e")⟩) := by
  decide +kernel

end Line

end TuxBot.Irc
