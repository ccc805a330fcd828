import TuxBot.Irc.Framing

/-! What one Client writes, another one reads: each layer of the wire is inverted by its reader. -/
namespace TuxBot.Irc

open TuxBot.Lua TuxBot.Lua.Pattern

section Quote

variable {b : UInt8} {s : Bytes}

theorem lowlevelQuote_eq (s : Bytes) : lowlevelQuote s = s.flatMap lowlevelQuoteTable := by
  rw [lowlevelQuote, gsub_one (g := lowlevelQuoteTable) (by simp)]
  apply List.flatMap_congr
  intro b _
  by_cases h : oneOf [0, 10, 13, 16] b
  · simp [h]
  · simp only [oneOf, List.contains_cons, List.contains_nil, Bool.or_false, Bool.or_eq_true,
      beq_iff_eq, not_or] at h
    simp [oneOf, lowlevelQuoteTable, h]

theorem lowlevelQuote_cons (b : UInt8) (s : Bytes) :
    lowlevelQuote (b :: s) = lowlevelQuoteTable b ++ lowlevelQuote s := by
  simp [lowlevelQuote_eq]

theorem lowlevelQuoteTable_no_crlf (a : UInt8) : ∀ b ∈ lowlevelQuoteTable a, isCrlf b = false := by
  have hall : (lowlevelQuoteTable a).all (fun b => !isCrlf b) = true := by
    revert a
    exact forall_byte (by decide +kernel)
  simpa using hall

/-- The quoted text of a line has no terminator, so a terminator always ends a line. -/
theorem lowlevelQuote_no_crlf (s : Bytes) : ∀ b ∈ lowlevelQuote s, isCrlf b = false := by
  intro b hb
  rw [lowlevelQuote_eq] at hb
  obtain ⟨a, _, ha⟩ := List.mem_flatMap.mp hb
  exact lowlevelQuoteTable_no_crlf a b ha

theorem lowlevelDequote_cons (h : b ≠ 16) : lowlevelDequote (b :: s) = b :: lowlevelDequote s := by
  apply gsub_cons_of_none
  apply matchHere_of_none
  simp [dequotePattern, doMatch, oneOf, h]

theorem lowlevelDequote_escape (b : UInt8) (s : Bytes) :
    lowlevelDequote (16 :: b :: s) = lowlevelDequoteTable [16, b] ++ lowlevelDequote s := by
  have hm : doMatch dequotePattern [] ([16, b] ++ s) = some ([], s) := by
    simp [dequotePattern, doMatch, oneOf, anyByte]
  exact gsub_cons_of_some (matchHere_of_some hm) (by simp)

/-- `lowlevel_dequote` undoes `lowlevel_quote` on every byte string. -/
theorem lowlevelDequote_lowlevelQuote (s : Bytes) : lowlevelDequote (lowlevelQuote s) = s := by
  induction s with
  | nil => rfl
  | cons b s ih =>
    rw [lowlevelQuote_cons]
    unfold lowlevelQuoteTable
    split_ifs with h0 h10 h13 h16
    · subst b
      simpa [lowlevelDequoteTable, ih] using lowlevelDequote_escape 48 (lowlevelQuote s)
    · subst b
      simpa [lowlevelDequoteTable, ih] using lowlevelDequote_escape 110 (lowlevelQuote s)
    · subst b
      simpa [lowlevelDequoteTable, ih] using lowlevelDequote_escape 114 (lowlevelQuote s)
    · subst b
      simpa [lowlevelDequoteTable, ih] using lowlevelDequote_escape 16 (lowlevelQuote s)
    · simpa [ih] using lowlevelDequote_cons h16 (s := lowlevelQuote s)

end Quote

/-- An argument that is not the last one: non-empty, without spaces and without a leading colon. -/
def Middle (arg : Bytes) : Prop := arg ≠ [] ∧ (∀ b ∈ arg, b ≠ 32) ∧ ∀ b ∈ arg.head?, b ≠ 58

instance (arg : Bytes) : Decidable (Middle arg) := inferInstanceAs (Decidable (_ ∧ _ ∧ _))

/-- The middle arguments as they stand in a line. -/
def joinMiddle (args : List Bytes) : Bytes := args.flatMap fun arg => 32 :: arg

section Words

variable {arg s : Bytes}

theorem matchHere_word (hne : arg ≠ []) (ha : ∀ b ∈ arg, b ≠ 32) (hs : ∀ b ∈ s.head?, b = 32) :
    matchHere wordPattern (arg ++ s) = some ⟨arg, [], s⟩ := by
  obtain ⟨b, arg, rfl⟩ := List.exists_cons_of_ne_nil hne
  have hclass : ∀ x ∈ b :: arg, noneOf (lit " ") x = true := by
    intro x hx
    have hx' := ha x hx
    simp [noneOf, lit, hx']
  have hstop : ∀ x ∈ s.head?, noneOf (lit " ") x = false := by
    intro x hx
    rw [hs x hx]
    rfl
  have hb := hclass b (by simp)
  have hrun : maxExpand (noneOf (lit " ")) (doMatch [] []) (arg ++ s) = some ([], s) :=
    maxExpand_append (fun x hx => hclass x (by simp [hx])) hstop rfl
  have hm : doMatch wordPattern [] ((b :: arg) ++ s) = some ([], s) := (doMatch_plus hb).trans hrun
  exact matchHere_of_some hm

theorem search_word (hne : arg ≠ []) (ha : ∀ b ∈ arg, b ≠ 32) (hs : ∀ b ∈ s.head?, b = 32) :
    search wordPattern (32 :: (arg ++ s)) = some ⟨arg, [], s⟩ := by
  have hspace : matchHere wordPattern (32 :: (arg ++ s)) = none := by
    apply matchHere_of_none
    simp [wordPattern, doMatch, noneOf, lit]
  have hword : search wordPattern (arg ++ s) = some ⟨arg, [], s⟩ := by
    have hm := matchHere_word hne ha hs
    cases h : arg ++ s with
    | nil => simp [hne] at h
    | cons b t =>
      rw [h] at hm
      simp [search, hm]
  simp [search, hspace, hword]

theorem head?_joinMiddle (args : List Bytes) : ∀ b ∈ (joinMiddle args).head?, b = 32 := by
  cases args with
  | nil => simp [joinMiddle]
  | cons arg args => simp [joinMiddle]

/-- `gmatch('[^ ]+')` finds what stands between the spaces, as far as there is something. -/
theorem words_joinMiddle_filter {args : List Bytes} (h : ∀ arg ∈ args, ∀ b ∈ arg, b ≠ 32) :
    words (joinMiddle args) = args.filter (· ≠ []) := by
  suffices hn : ∀ n, args.length < n →
      (gmatchN wordPattern n (joinMiddle args)).map Match.whole = args.filter (· ≠ []) by
    apply hn
    have hlen : args.length ≤ (joinMiddle args).length := by
      clear hn h
      induction args with
      | nil => simp
      | cons arg args ih =>
        simp only [joinMiddle, List.flatMap_cons, List.length_append, List.length_cons] at ih ⊢
        omega
    omega
  induction args with
  | nil =>
    intro n hn
    obtain ⟨n, rfl⟩ : ∃ m, n = m + 1 := ⟨n - 1, by simp at hn; omega⟩
    rfl
  | cons arg args ih =>
    intro n hn
    obtain ⟨n, rfl⟩ : ∃ m, n = m + 1 := ⟨n - 1, by simp at hn; omega⟩
    have hjoin : joinMiddle (arg :: args) = 32 :: (arg ++ joinMiddle args) := by
      simp [joinMiddle]
    have hargs := ih fun a ha => h a (List.mem_cons_of_mem arg ha)
    by_cases hne : arg = []
    · -- nothing between two spaces: the search begins at the second one
      subst hne
      have hskip : search wordPattern (32 :: joinMiddle args) =
          search wordPattern (joinMiddle args) := by
        simp [search, matchHere, wordPattern, doMatch, noneOf, lit]
      have hrest := hargs (n + 1) (Nat.lt_of_succ_lt hn)
      rw [hjoin]
      simpa [gmatchN, hskip] using hrest
    · have hword := search_word hne (h arg List.mem_cons_self) (head?_joinMiddle args)
      have hrest := hargs n (by simpa using hn)
      simp [gmatchN, hjoin, hword, hne, hrest]

theorem words_joinMiddle {args : List Bytes} (h : ∀ arg ∈ args, Middle arg) :
    words (joinMiddle args) = args := by
  rw [words_joinMiddle_filter fun arg harg => (h arg harg).2.1]
  exact List.filter_eq_self.mpr fun arg harg => by simpa using (h arg harg).1

end Words

section Args

/-- The part of `lastArgPattern` behind its lazy run. -/
def lastArgTail : List (Item UInt8) :=
  [.stop, .one (oneOf (lit " ")), .one (oneOf (lit ":")), .start, .star anyByte, .stop, .eos]

theorem lastArgTail_none {s : Bytes} {cs : List (Capture UInt8)}
    (h : ∀ t, s ≠ 32 :: 58 :: t) : doMatch lastArgTail cs s = none := by
  match s with
  | [] => rfl
  | [b] => by_cases hb : b = 32 <;> simp [lastArgTail, doMatch, oneOf, lit, hb]
  | b :: d :: t =>
    by_cases hb : b = 32
    · have hd : d ≠ 58 := by
        rintro rfl
        exact h t (by rw [hb])
      simp [lastArgTail, doMatch, oneOf, lit, hb, hd]
    · simp [lastArgTail, doMatch, oneOf, lit, hb]

/-- `(.*)$` captures the rest of the subject. -/
theorem doMatch_rest (last : Bytes) (cs : List (Capture UInt8)) :
    doMatch [.start, .star anyByte, .stop, .eos] cs last = some (.closed last :: cs, []) := by
  have hlast := endCapture_append last [] cs
  rw [List.append_nil] at hlast
  have hrun : maxExpand anyByte (doMatch [.stop, .eos] (.unfinished last :: cs)) (last ++ []) =
      some (.closed last :: cs, []) := by
    apply maxExpand_append (fun _ _ => rfl) (by simp)
    simp [doMatch, hlast]
  rw [List.append_nil] at hrun
  rw [doMatch_start, doMatch_star]
  exact hrun

theorem lastArgTail_some (u last : Bytes) :
    doMatch lastArgTail [.unfinished (u ++ 32 :: 58 :: last)] (32 :: 58 :: last) =
      some ([.closed last, .closed u], []) := by
  have hu := endCapture_append u (32 :: 58 :: last) []
  rw [lastArgTail, doMatch_stop, hu, doMatch_one rfl, doMatch_one rfl]
  exact doMatch_rest last [.closed u]

/-- No place among the middle arguments looks like the colon of the last one. -/
theorem joinMiddle_no_marker {args : List Bytes} (h : ∀ arg ∈ args, Middle arg) {x : Bytes}
    (hx : x <:+ joinMiddle args) (hne : x ≠ []) (last t : Bytes) :
    x ++ 32 :: 58 :: last ≠ 32 :: 58 :: t := by
  induction args with
  | nil => exact absurd (List.suffix_nil.mp hx) hne
  | cons arg args ih =>
    obtain ⟨harg, hspace, hcolon⟩ := h arg (by simp)
    have hjoin : joinMiddle (arg :: args) = 32 :: (arg ++ joinMiddle args) := by simp [joinMiddle]
    rw [hjoin] at hx
    rcases List.suffix_cons_iff.mp hx with rfl | hx
    · -- the space before `arg`: a byte of `arg` follows it, and that is no colon
      obtain ⟨b, arg, rfl⟩ := List.exists_cons_of_ne_nil harg
      have hb := hcolon b (by simp)
      simp [hb]
    · rcases suffix_append_cases hx with hx | ⟨b, hb, he⟩
      · exact ih (fun a ha => h a (by simp [ha])) hx
      · obtain ⟨y, rfl⟩ := List.head?_eq_some_iff.mp he
        have hb' := hspace b hb
        simp [hb']

/-- The last argument begins behind the first colon that follows a space. -/
theorem argsOf_marker {u : Bytes} (last : Bytes)
    (h : ∀ x, x <:+ u → x ≠ [] → ∀ t, x ++ 32 :: 58 :: last ≠ 32 :: 58 :: t) :
    argsOf (u ++ 32 :: 58 :: last) = words u ++ [last] := by
  have hlazy : minExpand anyByte (doMatch lastArgTail [.unfinished (u ++ 32 :: 58 :: last)])
      (u ++ 32 :: 58 :: last) = some ([.closed last, .closed u], []) := by
    apply minExpand_append (fun _ _ => rfl)
    · intro x hx hne
      exact lastArgTail_none (h x hx hne)
    · exact lastArgTail_some u last
  have hm : doMatch lastArgPattern [] ((u ++ 32 :: 58 :: last) ++ []) =
      some ([.closed last, .closed u], []) := by
    rw [List.append_nil]
    exact hlazy
  have hmatch := matchHere_of_some hm
  rw [List.append_nil] at hmatch
  simp [argsOf, hmatch, Match.values, Capture.text]

theorem argsOf_last {args : List Bytes} (h : ∀ arg ∈ args, Middle arg) (last : Bytes) :
    argsOf (joinMiddle args ++ 32 :: 58 :: last) = args ++ [last] := by
  rw [argsOf_marker last fun x hx hne => joinMiddle_no_marker h hx hne last, words_joinMiddle h]

end Args

section Command

variable {cmd tail : Bytes}

theorem joinArgs_concat (args : List Bytes) (last : Bytes) :
    joinArgs ((args ++ [last]).map some) = joinMiddle args ++ 32 :: 58 :: last := by
  induction args with
  | nil => simp [joinArgs, joinMiddle, lit]
  | cons arg args ih =>
    have hstep : joinArgs (((arg :: args) ++ [last]).map some) =
        lit " " ++ arg ++ joinArgs ((args ++ [last]).map some) := by
      cases args <;> rfl
    rw [hstep, ih]
    simp [joinMiddle, lit]

/-- The arguments of a sent line are read back. -/
theorem argsOf_joinArgs {args : List Bytes} (h : ∀ arg ∈ args.dropLast, Middle arg) :
    argsOf (joinArgs (args.map some)) = args := by
  rcases args.eq_nil_or_concat with rfl | ⟨args, last, rfl⟩
  · rfl
  · rw [List.concat_eq_append] at h ⊢
    rw [joinArgs_concat, argsOf_last (by simpa using h)]

theorem head?_joinArgs (args : List Bytes) :
    ∀ b ∈ (joinArgs (args.map some)).head?, b = 32 := by
  rcases args.eq_nil_or_concat with rfl | ⟨args, last, rfl⟩
  · simp [joinArgs]
  · rw [List.concat_eq_append, joinArgs_concat]
    cases args <;> simp [joinMiddle]

theorem splitPrefix_command (hne : cmd ≠ []) (hc : ∀ b ∈ cmd, isAlnum b = true) (tail : Bytes) :
    splitPrefix (cmd ++ tail) = (none, cmd ++ tail) := by
  obtain ⟨b, cmd, rfl⟩ := List.exists_cons_of_ne_nil hne
  have hb : b ≠ 58 := by
    rintro rfl
    exact absurd (hc 58 (by simp)) (by decide)
  have hm : matchHere prefixPattern (b :: cmd ++ tail) = none := by
    apply matchHere_of_none
    simp [prefixPattern, doMatch, oneOf, lit, hb]
  simp only [splitPrefix, hm, Option.map_none]

theorem commandOf_command (hne : cmd ≠ []) (hc : ∀ b ∈ cmd, isAlnum b = true)
    (ht : ∀ b ∈ tail.head?, b = 32) : commandOf (cmd ++ tail) = some cmd := by
  obtain ⟨b, cmd, rfl⟩ := List.exists_cons_of_ne_nil hne
  have hb : isAlnum b = true := hc b (by simp)
  have hcmd : ∀ x ∈ cmd, isAlnum x = true := fun x hx => hc x (by simp [hx])
  have hstop : ∀ x ∈ tail.head?, isAlnum x = false := by
    intro x hx
    rw [ht x hx]
    rfl
  have hclose := endCapture_append (b :: cmd) tail []
  cases tail with
  | nil =>
    have hrun : maxExpand isAlnum (doMatch [.stop, .eos] [.unfinished ((b :: cmd) ++ [])])
        (cmd ++ []) = some ([.closed (b :: cmd)], []) := by
      apply maxExpand_append hcmd hstop
      rw [doMatch_stop, hclose]
      rfl
    have hm : doMatch commandOnlyPattern [] ((b :: cmd) ++ []) =
        some ([.closed (b :: cmd)], []) := by
      rw [commandOnlyPattern, doMatch_start]
      exact (doMatch_plus hb).trans hrun
    rw [commandOf, matchHere_of_some hm]
    rfl
  | cons d t =>
    obtain rfl : d = 32 := ht d (by simp)
    have hnone : matchHere commandOnlyPattern ((b :: cmd) ++ 32 :: t) = none := by
      apply matchHere_of_none
      rw [commandOnlyPattern, doMatch_start]
      apply (doMatch_plus hb).trans
      apply maxExpand_append_none hstop
      intro x _
      cases x <;> rfl
    have hrun : maxExpand isAlnum
        (doMatch [.stop, .one (oneOf (lit " "))] [.unfinished ((b :: cmd) ++ 32 :: t)])
        (cmd ++ 32 :: t) = some ([.closed (b :: cmd)], t) := by
      apply maxExpand_append hcmd hstop
      rw [doMatch_stop, hclose]
      rfl
    have hm : doMatch commandPattern [] (((b :: cmd) ++ [32]) ++ t) =
        some ([.closed (b :: cmd)], t) := by
      rw [List.append_assoc, List.singleton_append, commandPattern, doMatch_start]
      exact (doMatch_plus hb).trans hrun
    have hmatch := matchHere_of_some hm
    rw [List.append_assoc, List.singleton_append] at hmatch
    rw [commandOf, hnone, hmatch]
    rfl

/-- Only `\001...\001` with something between is taken for CTCP. -/
theorem ctcpPattern_some {text : Bytes} (h : (matchHere ctcpPattern text).isSome = true) :
    ∃ mid, mid ≠ [] ∧ text = 1 :: mid ++ [1] := by
  obtain ⟨m, hm⟩ := Option.isSome_iff_exists.mp h
  obtain ⟨⟨cs, rest⟩, hmatch, _⟩ := Option.map_eq_some_iff.mp hm
  rcases text with - | ⟨d, - | ⟨b, s⟩⟩
  · simp [ctcpPattern, doMatch] at hmatch
  · by_cases hd : oneOf [1] d <;> simp [ctcpPattern, doMatch, hd] at hmatch
  · have hd : d = 1 := by
      by_contra hne
      simp [ctcpPattern, doMatch, oneOf, hne] at hmatch
    subst d
    rw [ctcpPattern, doMatch_one rfl, doMatch_plus rfl] at hmatch
    obtain ⟨x, ⟨y, rfl⟩, hx⟩ := maxExpand_some hmatch
    have hone : x = [1] := by
      rcases x with - | ⟨e, - | ⟨e', x⟩⟩
      · simp [doMatch] at hx
      · by_contra hne
        have he : e ≠ 1 := fun h => hne (by rw [h])
        simp [doMatch, oneOf, he] at hx
      · simp [doMatch] at hx
    exact ⟨b :: y, by simp, by simp [hone]⟩

theorem rewriteCtcp_eq {args : List Bytes}
    (h : cmd = lit "PRIVMSG" ∨ cmd = lit "NOTICE" →
      ∀ mid, mid ≠ [] → args[1]? ≠ some (1 :: mid ++ [1])) :
    rewriteCtcp cmd args = (cmd, args) := by
  match args, h with
  | [], _ => rfl
  | [_], _ => rfl
  | target :: text :: args, h =>
    rw [rewriteCtcp, if_neg]
    rintro ⟨hcmd, hctcp⟩
    obtain ⟨mid, hne, rfl⟩ := ctcpPattern_some hctcp
    exact h hcmd mid hne rfl

end Command

/-- The calls of `sendmessage` a receiver can read back: an alphanumeric command, middle arguments,
any last argument, and no text that is CTCP. -/
def Sendable (cmd : Bytes) (args : List Bytes) : Prop :=
  cmd ≠ [] ∧ (∀ b ∈ cmd, isAlnum b = true) ∧ (∀ arg ∈ args.dropLast, Middle arg) ∧
  (upper cmd = lit "PRIVMSG" ∨ upper cmd = lit "NOTICE" →
    ∀ mid, mid ≠ [] → args[1]? ≠ some (1 :: mid ++ [1]))

/-- One line is read back as the command in upper case and the same arguments, before any CTCP is
rewritten. -/
theorem messageLineToTable_rewriteCtcp {cmd : Bytes} (args : List Bytes) (hne : cmd ≠ [])
    (hcmd : ∀ b ∈ cmd, isAlnum b = true) (hargs : ∀ arg ∈ args.dropLast, Middle arg)
    (nick : Bytes) (time : Int) :
    (messageLineToTable nick time (messageLine cmd (args.map some))).map
      (fun m => (m.cmd, m.args)) = some (rewriteCtcp (upper cmd) args) := by
  have hsplit := splitPrefix_command hne hcmd (joinArgs (args.map some))
  have hcommand := commandOf_command hne hcmd (head?_joinArgs args)
  have hread : argsOf (joinArgs (args.map some)) = args := argsOf_joinArgs hargs
  simp [messageLineToTable, messageLine, hsplit, hcommand, hread]

theorem messageLineToTable_messageLine {cmd : Bytes} {args : List Bytes} (h : Sendable cmd args)
    (nick : Bytes) (time : Int) :
    (messageLineToTable nick time (messageLine cmd (args.map some))).map
      (fun m => (m.cmd, m.args)) = some (upper cmd, args) := by
  obtain ⟨hne, hcmd, hargs, hctcp⟩ := h
  rw [messageLineToTable_rewriteCtcp args hne hcmd hargs, rewriteCtcp_eq hctcp]

/-- A terminator the pattern gave back is no message. -/
theorem messageLineToTable_terminator {d : UInt8} (hd : isCrlf d = true) (nick : Bytes)
    (time : Int) : messageLineToTable nick time (lowlevelDequote [d]) = none := by
  have h : d = 13 ∨ d = 10 := by simpa [isCrlf, oneOf] using hd
  rcases h with rfl | rfl <;> rfl

theorem scan_wireLine {line : Bytes} (hne : line ≠ []) (s : Bytes) :
    scan [] (wireLine line ++ s) = (lowlevelQuote line :: (scan [] s).1, (scan [] s).2) := by
  have hquote : lowlevelQuote line ≠ [] := by
    intro h
    have hback := lowlevelDequote_lowlevelQuote line
    rw [h] at hback
    exact hne hback.symm
  rw [wireLine, List.append_assoc, scan_append, scan_run [] (lowlevelQuote_no_crlf line)]
  simp [scan, isCrlf, oneOf, hquote]

theorem scan_wireLines {lines : List Bytes} (h : ∀ line ∈ lines, line ≠ []) :
    scan [] (lines.map wireLine).flatten = (lines.map lowlevelQuote, []) := by
  induction lines with
  | nil => rfl
  | cons line lines ih =>
    have hrest := ih fun l hl => h l (by simp [hl])
    rw [List.map_cons, List.flatten_cons, scan_wireLine (h line (by simp)), hrest]
    rfl

/-- The terminators among the framed lines drop out, so the messages are those of the runs. -/
theorem filterMap_runs {lines : List Bytes} (h : ∀ line ∈ lines, Framed line) (nick : Bytes)
    (time : Int) :
    lines.filterMap (fun line => messageLineToTable nick time (lowlevelDequote line)) =
      (runs lines).filterMap fun line => messageLineToTable nick time (lowlevelDequote line) := by
  induction lines with
  | nil => rfl
  | cons line lines ih =>
    have hrest := ih fun l hl => h l (by simp [hl])
    rcases h line (by simp) with ⟨_, hrun⟩ | ⟨d, hd, rfl⟩
    · have hkeep : runs (line :: lines) = line :: runs lines := by
        simp only [runs, List.filter_cons]
        rw [if_pos]
        simpa using hrun
      rw [hkeep, List.filterMap_cons, List.filterMap_cons, hrest]
    · have hdrop : runs ([d] :: lines) = runs lines := by simp [runs, hd]
      rw [hdrop, List.filterMap_cons, messageLineToTable_terminator hd, hrest]

/-- However the bytes of a sequence of `sendmessage` calls are cut into chunks, another Client
reads exactly one message per call, in order, with the command in upper case and the same
arguments. -/
theorem wire_round_trip (nick : Bytes) (time : Int) (calls : List (Bytes × List Bytes))
    (chunks : List Bytes) (hcalls : ∀ call ∈ calls, Sendable call.1 call.2)
    (hchunks : chunks.flatten =
      (calls.map fun call => wireLine (messageLine call.1 (call.2.map some))).flatten) :
    (received nick time [] chunks).map (fun m => (m.cmd, m.args)) =
      calls.map fun call => (upper call.1, call.2) := by
  obtain ⟨hframed, hruns⟩ := feed_scan [] chunks
  let lines := calls.map fun call => messageLine call.1 (call.2.map some)
  have hne : ∀ line ∈ lines, line ≠ [] := by
    intro line hline
    obtain ⟨call, hcall, rfl⟩ := List.mem_map.mp hline
    simp [messageLine, (hcalls call hcall).1]
  have hstream : chunks.flatten = (lines.map wireLine).flatten := by
    simpa [lines, Function.comp_def] using hchunks
  have hread : runs (feed [] chunks).1 = lines.map lowlevelQuote := by
    rw [hruns rfl, List.nil_append, hstream, scan_wireLines hne]
  have hcall : ∀ call ∈ calls,
      (messageLineToTable nick time (lowlevelDequote (lowlevelQuote
        (messageLine call.1 (call.2.map some))))).map (fun m => (m.cmd, m.args)) =
      (some ∘ fun call : Bytes × List Bytes => (upper call.1, call.2)) call := by
    intro call h
    rw [lowlevelDequote_lowlevelQuote]
    exact messageLineToTable_messageLine (hcalls call h) nick time
  rw [received, filterMap_runs hframed, hread, List.filterMap_map, List.filterMap_map,
    List.map_filterMap]
  exact (List.filterMap_congr hcall).trans (congrFun List.filterMap_eq_map calls)

/-- Two calls cut inside a quoted NUL; the texts hold every byte the quoting is about. -/
theorem wire_round_trip_privmsg :
    (received "bot" 0 [] [lit "privmsg #c :a" ++ [16],
        [48, 16, 114, 16, 110, 16, 16, 32, 58, 13, 10, 81, 13], [10]]).map
      (fun m => (m.cmd, m.args)) =
    [(lit "PRIVMSG", [lit "#c", [97, 0, 13, 10, 16, 32, 58]]), (lit "Q", [])] :=
  wire_round_trip "bot" 0 [(lit "privmsg", [lit "#c", [97, 0, 13, 10, 16, 32, 58]]), (lit "Q", [])] _
    (by
      intro call hcall
      rcases List.mem_pair.mp hcall with rfl | rfl
      · refine ⟨by decide +kernel, by decide +kernel, by decide +kernel, ?_⟩
        rintro - mid - h
        simp at h
      · refine ⟨by decide +kernel, by decide +kernel, by decide +kernel, ?_⟩
        rintro - mid - h
        simp at h)
    (by decide +kernel)

end TuxBot.Irc
