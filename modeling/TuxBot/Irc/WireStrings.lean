import TuxBot.Lua.LstrlibReads
import TuxBot.Irc.CtcpDelivery

/-! The text functions of irc.lua with the pattern functions of lstrlib.c: what they do is what is
done with the items of their patterns, and they never raise. -/
namespace TuxBot.Irc.Strings

open TuxBot.Lua TuxBot.Lua.Pattern TuxBot.Lua.Lstrlib

/-! ### The functions -/

def sender_prefix_to_table (str : Bytes) : Except Bytes Sender := do
  match ← captures str (lit "^(.+)!(.+)@(.+)$") with
  | some [nick, user, host] => return ⟨some nick, some user, some host, some str⟩
  | _ => return ⟨none, none, some str, some str⟩

/-- A table with some keys. -/
def tableOf (entries : List (Bytes × Bytes)) (key : Bytes) : Option Bytes := entries.lookup key

def lowlevel_quote_table : Bytes → Option Bytes :=
  tableOf [([0], [16, 48]), ([10], [16, 110]), ([13], [16, 114]), ([16], [16, 16])]

def lowlevel_quote (str : Bytes) : Except Bytes Bytes := do
  return (← str_gsub str (lit "[%z\n\r\x10]") (add_table str lowlevel_quote_table)).1

/-- With an `__index` function. -/
def lowlevel_dequote_table (key : Bytes) : Option Bytes :=
  (tableOf [([16, 48], [0]), ([16, 110], [10]), ([16, 114], [13]), ([16, 16], [16])] key).or
    (some ((key.drop 1).take 1))

def lowlevel_dequote (str : Bytes) : Except Bytes Bytes := do
  return (← str_gsub str (lit "\x10.") (add_table str lowlevel_dequote_table)).1

def ctcp_quote (str : Bytes) : Except Bytes Bytes := do
  return (← str_gsub str (lit "[\x01\\]") fun ms s e => add_s str ms s e (lit "\\%1")).1

def ctcp_dequote (str : Bytes) : Except Bytes Bytes := do
  return (← str_gsub str (lit "\\([\\\x01])") fun ms s e => add_s str ms s e (lit "%1")).1

/-- `gmatch('[^ ]+')` -/
def words (str : Bytes) : Except Bytes (List Bytes) := do
  return (← Lstrlib.gmatch str (lit "[^ ]+")).map fun values => (values.map Pushed.text).headD []

def commandOf (remaining : Bytes) : Except Bytes (Option Bytes) := do
  match ← captures remaining (lit "^(%w+)$") with
  | some values => return values.head?
  | none => return (← captures remaining (lit "^(%w+) ")).bind List.head?

def argsOf (remaining : Bytes) : Except Bytes (List Bytes) := do
  match ← captures remaining (lit "^(.-) :(.*)$") with
  | some [argstr, last] => return (← words argstr) ++ [last]
  | _ => words remaining

/-- `args[4] = nil` and `args[3] = nil` end the list. -/
def rewriteCtcp (cmdtype : Bytes) (args : List Bytes) : Except Bytes (Bytes × List Bytes) := do
  match args with
  | target :: text :: _ =>
    if cmdtype = lit "PRIVMSG" ∨ cmdtype = lit "NOTICE" then
      if (← captures text (lit "^\x01.+\x01$")).isSome then
        let cmd := if cmdtype = lit "PRIVMSG" then lit ":CTCP" else lit ":CTCPREPLY"
        let s ← ctcp_dequote ((text.drop 1).dropLast)
        match ← captures s (lit "^([^ ]+) (.*)$") with
        | some [c, a] => return (cmd, [target, upper c, a])
        | _ => return (cmd, [target, upper s])
      else return (cmdtype, args)
    else return (cmdtype, args)
  | _ => return (cmdtype, args)

def splitPrefix (line : Bytes) : Except Bytes (Option Bytes × Bytes) := do
  match ← captures line (lit "^:([^ ]+) +(.*)") with
  | some [pre, remaining] => return (some pre, remaining)
  | _ => return (none, line)

/-- `nick` is what `client:get_nick()` returns. -/
def senderOf (nick : Bytes) : Option Bytes → Except Bytes Sender
  | some pre => sender_prefix_to_table pre
  | none => .ok ⟨some nick, none, none, none⟩

def message_line_to_table (nick : Bytes) (time : Int) (line : Bytes) :
    Except Bytes (Option Message) := do
  let (pre, remaining) ← splitPrefix line
  match ← commandOf remaining with
  | none => return none
  | some cmdtype =>
    let args ← argsOf (remaining.drop cmdtype.length)
    let (cmd, args) ← rewriteCtcp (upper cmdtype) args
    let sender ← senderOf nick pre
    return some { time, line, sender, cmd, args }

def ischanname (str : Bytes) : Except Bytes Bool := do
  return (← captures str (lit "^[&#+!][^%z\x07\r\n ,:]+$")).isSome

def isnick (str : Bytes) : Except Bytes Bool := do
  return (← captures str (lit "^[%a[%]\\`_^{|}][%a%d[%]\\`_^{|}-]*$")).isSome

/-- A table that gives a byte for a byte. -/
def byteTable (table : List (UInt8 × UInt8)) : Bytes → Option Bytes
  | [b] => (table.lookup b).map fun c => [c]
  | _ => none

def rfc1459_lower (str : Bytes) : Except Bytes Bytes := do
  return (← str_gsub (TuxBot.Lua.lower str) (lit "[%[\\%]~]")
    (add_table (TuxBot.Lua.lower str) (byteTable rfc1459LowerTable))).1

def strict_rfc1459_lower (str : Bytes) : Except Bytes Bytes := do
  return (← str_gsub (TuxBot.Lua.lower str) (lit "[%[\\%]]")
    (add_table (TuxBot.Lua.lower str) (byteTable strictRfc1459LowerTable))).1

/-- `Client:lower`, which `CASEMAPPING` sets. -/
def lower : CaseMapping → Bytes → Except Bytes Bytes
  | .ascii, str => .ok (TuxBot.Lua.lower str)
  | .strictRfc1459, str => strict_rfc1459_lower str
  | .rfc1459, str => rfc1459_lower str

/-! ### The texts of the patterns -/

theorem class_any : (fun b => singlematch b [46]) = anyByte := rfl

theorem class_alnum : (fun b => singlematch b [37, 119]) = isAlnum := rfl

theorem class_byte {a : UInt8} (h : a ≠ 46 ∧ a ≠ 91) : (fun b => singlematch b [a]) = oneOf [a] := by
  funext b
  rw [Bool.eq_iff_iff]
  simpa [singlematch, oneOf, h.1, h.2] using eq_comm

/-- The sets that the patterns have. -/
structure Classes : Prop where
  word : (fun b => singlematch b [91, 94, 32, 93]) = noneOf [32]
  quoted : (fun b => singlematch b [91, 37, 122, 10, 13, 16, 93]) = oneOf [0, 10, 13, 16]
  ctcpQuoted : (fun b => singlematch b [91, 1, 92, 93]) = oneOf [1, 92]
  ctcpDequote : (fun b => singlematch b [91, 92, 1, 93]) = oneOf [92, 1]
  chantype : (fun b => singlematch b [91, 38, 35, 43, 33, 93]) = oneOf "&#+!"
  channame : (fun b => singlematch b [91, 94, 37, 122, 7, 13, 10, 32, 44, 58, 93]) =
    noneOf ([0, 7, 13, 10] ++ lit " ,:")
  nickFirst : (fun b => singlematch b [91, 37, 97, 91, 37, 93, 92, 96, 95, 94, 123, 124, 125, 93]) =
    fun b => isAlpha b || oneOf "[]\\`_^{|}" b
  nickRest : (fun b => singlematch b [91, 37, 97, 37, 100, 91, 37, 93, 92, 96, 95, 94, 123, 124,
    125, 45, 93]) = fun b => isAlpha b || isDigit b || oneOf "[]\\`_^{|}-" b
  rfc1459 : (fun b => singlematch b [91, 37, 91, 92, 37, 93, 126, 93]) = oneOf [91, 92, 93, 126]
  strictRfc1459 : (fun b => singlematch b [91, 37, 91, 92, 37, 93, 93]) = oneOf [91, 92, 93]

theorem classes : Classes where
  word := by
    funext b
    rw [Bool.eq_iff_iff]
    simp [singlematch, matchbracketclass, inset, noneOf, eq_comm (a := b)]
  quoted := by
    funext b
    rw [Bool.eq_iff_iff]
    simp [singlematch, matchbracketclass, inset, match_class, oneOf, toLower, isUpper, isLower,
      eq_comm (a := b)]
  ctcpQuoted := by
    funext b
    rw [Bool.eq_iff_iff]
    simp [singlematch, matchbracketclass, inset, oneOf, eq_comm (a := b)]
  ctcpDequote := by
    funext b
    rw [Bool.eq_iff_iff]
    simp [singlematch, matchbracketclass, inset, oneOf, eq_comm (a := b)]
  chantype := by
    funext b
    rw [Bool.eq_iff_iff]
    simp [singlematch, matchbracketclass, inset, oneOf, lit, eq_comm (a := b)]
  channame := by
    funext b
    rw [Bool.eq_iff_iff]
    simp [singlematch, matchbracketclass, inset, match_class, noneOf, lit, toLower, isUpper,
      isLower, eq_comm (a := b)]
  nickFirst := by
    funext b
    rw [Bool.eq_iff_iff]
    simp [singlematch, matchbracketclass, inset, match_class, oneOf, lit, toLower, isUpper, isLower,
      eq_comm (a := b)]
  nickRest := by
    funext b
    rw [Bool.eq_iff_iff]
    simp [singlematch, matchbracketclass, inset, match_class, oneOf, lit, toLower, isUpper, isLower,
      or_assoc, eq_comm (a := b)]
  rfc1459 := by
    funext b
    rw [Bool.eq_iff_iff]
    simp [singlematch, matchbracketclass, inset, match_class, oneOf, toLower, isUpper, eq_comm (a := b)]
  strictRfc1459 := by
    funext b
    rw [Bool.eq_iff_iff]
    simp [singlematch, matchbracketclass, inset, match_class, oneOf, toLower, isUpper, eq_comm (a := b)]

/-- What each pattern stands for. -/
structure Texts : Prop where
  sender : Denotes (lit "^(.+)!(.+)@(.+)$") true senderPattern
  quoted : Denotes (lit "[%z\n\r\x10]") false [.one (oneOf [0, 10, 13, 16])]
  dequote : Denotes (lit "\x10.") false dequotePattern
  ctcpQuoted : Denotes (lit "[\x01\\]") false [.one (oneOf [1, 92])]
  ctcpDequote : Denotes (lit "\\([\\\x01])") false ctcpDequotePattern
  commandOnly : Denotes (lit "^(%w+)$") true commandOnlyPattern
  command : Denotes (lit "^(%w+) ") true commandPattern
  lastArg : Denotes (lit "^(.-) :(.*)$") true lastArgPattern
  ctcp : Denotes (lit "^\x01.+\x01$") true ctcpPattern
  ctcpArg : Denotes (lit "^([^ ]+) (.*)$") true ctcpArgPattern
  sourced : Denotes (lit "^:([^ ]+) +(.*)") true prefixPattern
  channame : Denotes (lit "^[&#+!][^%z\x07\r\n ,:]+$") true channamePattern
  nick : Denotes (lit "^[%a[%]\\`_^{|}][%a%d[%]\\`_^{|}-]*$") true nickPattern
  rfc1459 : Denotes (lit "[%[\\%]~]") false [.one (oneOf (rfc1459LowerTable.map Prod.fst))]
  strictRfc1459 : Denotes (lit "[%[\\%]]") false [.one (oneOf (strictRfc1459LowerTable.map Prod.fst))]
  word : Denotes (lit "[^ ]+") false wordPattern

theorem texts : Texts where
  sender := .of_items (q := [40, 46, 43, 41, 33, 40, 46, 43, 41, 64, 40, 46, 43, 41, 36])
    (by decide)
    (by simp [items, readitem, readitem.single, classend, suffixed, senderPattern, class_any,
      class_byte, lit])
    (by simp [Lstrlib.Balanced, senderPattern]) (by decide)
  quoted := .of_items (q := [91, 37, 122, 10, 13, 16, 93])
    (by decide)
    (by simp [items, readitem, readitem.single, classend, bracketend, suffixed, Classes.quoted classes])
    (by simp [Lstrlib.Balanced]) (by decide)
  dequote := .of_items (q := [16, 46])
    (by decide)
    (by simp [items, readitem, readitem.single, classend, suffixed, dequotePattern, class_any,
      class_byte])
    (by simp [Lstrlib.Balanced, dequotePattern]) (by decide)
  ctcpQuoted := .of_items (q := [91, 1, 92, 93])
    (by decide)
    (by simp [items, readitem, readitem.single, classend, bracketend, suffixed,
      Classes.ctcpQuoted classes])
    (by simp [Lstrlib.Balanced]) (by decide)
  ctcpDequote := .of_items (q := [92, 40, 91, 92, 1, 93, 41])
    (by decide)
    (by simp [items, readitem, readitem.single, classend, bracketend, suffixed, ctcpDequotePattern,
      class_byte, Classes.ctcpDequote classes])
    (by simp [Lstrlib.Balanced, ctcpDequotePattern]) (by decide)
  commandOnly := .of_items (q := [40, 37, 119, 43, 41, 36])
    (by decide)
    (by simp [items, readitem, readitem.single, classend, suffixed, isDigit, commandOnlyPattern,
      class_alnum])
    (by simp [Lstrlib.Balanced, commandOnlyPattern]) (by decide)
  command := .of_items (q := [40, 37, 119, 43, 41, 32])
    (by decide)
    (by simp [items, readitem, readitem.single, classend, suffixed, isDigit, commandPattern,
      class_alnum, class_byte, lit])
    (by simp [Lstrlib.Balanced, commandPattern]) (by decide)
  lastArg := .of_items (q := [40, 46, 45, 41, 32, 58, 40, 46, 42, 41, 36])
    (by decide)
    (by simp [items, readitem, readitem.single, classend, suffixed, lastArgPattern, class_any,
      class_byte, lit])
    (by simp [Lstrlib.Balanced, lastArgPattern]) (by decide)
  ctcp := .of_items (q := [1, 46, 43, 1, 36])
    (by decide)
    (by simp [items, readitem, readitem.single, classend, suffixed, ctcpPattern, class_any, class_byte])
    (by simp [Lstrlib.Balanced, ctcpPattern]) (by decide)
  ctcpArg := .of_items (q := [40, 91, 94, 32, 93, 43, 41, 32, 40, 46, 42, 41, 36])
    (by decide)
    (by simp [items, readitem, readitem.single, classend, bracketend, suffixed, ctcpArgPattern,
      class_any, class_byte, Classes.word classes, lit])
    (by simp [Lstrlib.Balanced, ctcpArgPattern]) (by decide)
  sourced := .of_items (q := [58, 40, 91, 94, 32, 93, 43, 41, 32, 43, 40, 46, 42, 41])
    (by decide)
    (by simp [items, readitem, readitem.single, classend, bracketend, suffixed, prefixPattern,
      class_any, class_byte, Classes.word classes, lit])
    (by simp [Lstrlib.Balanced, prefixPattern]) (by decide)
  channame := .of_items (q := [91, 38, 35, 43, 33, 93, 91, 94, 37, 122, 7, 13, 10, 32, 44, 58, 93,
    43, 36])
    (by decide)
    (by simp [items, readitem, readitem.single, classend, bracketend, suffixed, channamePattern,
      Classes.chantype classes, Classes.channame classes, lit])
    (by simp [Lstrlib.Balanced, channamePattern]) (by decide)
  nick := .of_items (q := [91, 37, 97, 91, 37, 93, 92, 96, 95, 94, 123, 124, 125, 93, 91, 37, 97,
    37, 100, 91, 37, 93, 92, 96, 95, 94, 123, 124, 125, 45, 93, 42, 36])
    (by decide)
    (by simp [items, readitem, readitem.single, classend, bracketend, suffixed, isDigit,
      nickPattern, Classes.nickFirst classes, Classes.nickRest classes, lit])
    (by simp [Lstrlib.Balanced, nickPattern]) (by decide)
  rfc1459 := .of_items (q := [91, 37, 91, 92, 37, 93, 126, 93])
    (by decide)
    (by simp [items, readitem, readitem.single, classend, bracketend, suffixed, rfc1459LowerTable,
      Classes.rfc1459 classes])
    (by simp [Lstrlib.Balanced]) (by decide)
  strictRfc1459 := .of_items (q := [91, 37, 91, 92, 37, 93, 93])
    (by decide)
    (by simp [items, readitem, readitem.single, classend, bracketend, suffixed,
      strictRfc1459LowerTable, Classes.strictRfc1459 classes])
    (by simp [Lstrlib.Balanced]) (by decide)
  word := .of_items (q := [91, 94, 32, 93, 43])
    (by decide)
    (by simp [items, readitem, readitem.single, classend, bracketend, suffixed, wordPattern,
      Classes.word classes, lit])
    (by simp [Lstrlib.Balanced, wordPattern]) (by decide)

/-! ### What they do -/

/-- What an anchored pattern gives. -/
theorem captures_anchored {p : Bytes} {i : List (Item UInt8)} (h : Denotes p true i) (src : Bytes) :
    captures src p = .ok ((matchHere i src).map Match.values) := h.captures src

theorem sender_prefix_to_table_eq (str : Bytes) :
    sender_prefix_to_table str = .ok (senderPrefixToTable str) := by
  rw [sender_prefix_to_table, captures_anchored (Texts.sender texts),
    senderPrefixToTable]
  generalize (matchHere senderPattern str).map Match.values = values
  obtain _ | (_ | ⟨a, _ | ⟨b, _ | ⟨c, _ | ⟨d, l⟩⟩⟩⟩) := values <;> rfl

/-- What `gsub` gives, when as much is put in for the matches of the pattern. -/
theorem gsub_eq {p : Bytes} {i : List (Item UInt8)} (h : Denotes p false i)
    {add : List Cap → Bytes → Bytes → Except Bytes Bytes} {f g : Match UInt8 → Bytes} (hadd : Adds add f)
    (hfg : ∀ s m, matchHere i s = some m → f m = g m) (src : Bytes) :
    (do return (← str_gsub src p add).1) = (.ok (gsub i g src) : Except Bytes Bytes) := by
  rw [h.str_gsub hadd, gsub, gsubN_congr hfg]
  rfl

theorem matchHere_one {c : UInt8 → Bool} {s : Bytes} {m : Match UInt8}
    (h : matchHere [.one c] s = some m) :
    ∃ b rest, c b = true ∧ m = ⟨[b], [], rest⟩ := by
  cases s with
  | nil => exact nomatch h
  | cons b s =>
    rw [matchHere_one_cons] at h
    split at h
    · exact ⟨b, s, ‹_›, (Option.some.inj h).symm⟩
    · exact nomatch h

theorem lowlevel_quote_eq (str : Bytes) : lowlevel_quote str = .ok (lowlevelQuote str) := by
  refine gsub_eq (Texts.quoted texts) (adds_table str lowlevel_quote_table) (fun s m hm => ?_) str
  obtain ⟨b, rest, -, rfl⟩ := matchHere_one hm
  have hbyte (b : UInt8) : (lowlevel_quote_table [b]).getD [b] = lowlevelQuoteTable b := by
    revert b
    exact forall_byte (by decide +kernel)
  exact (hbyte b).trans (List.append_nil _).symm

theorem lowlevel_dequote_table_eq (key : Bytes) :
    lowlevel_dequote_table key = some (lowlevelDequoteTable key) := by
  rw [lowlevel_dequote_table, lowlevelDequoteTable.eq_def]
  split
  · rfl
  · rfl
  · rfl
  · rfl
  · rename_i h0 hn hr hq
    have hnone : tableOf
        [([16, 48], [0]), ([16, 110], [10]), ([16, 114], [13]), ([16, 16], [16])] key = none := by
      rw [tableOf, List.lookup_eq_none_iff]
      simpa using ⟨h0, hn, hr, hq⟩
    rw [hnone]
    rfl

theorem lowlevel_dequote_eq (str : Bytes) : lowlevel_dequote str = .ok (lowlevelDequote str) := by
  refine gsub_eq (Texts.dequote texts) (adds_table str lowlevel_dequote_table) (fun s m hm => ?_) str
  have hnone : m.captures = [] := List.length_eq_zero_iff.mp (length_captures hm)
  rw [lowlevel_dequote_table_eq, first, Match.values, hnone]
  rfl

theorem ctcp_quote_eq (str : Bytes) : ctcp_quote str = .ok (ctcpQuote str) := by
  refine gsub_eq (Texts.ctcpQuoted texts) (@adds_first str [92] (by simp)) (fun s m hm => ?_) str
  obtain ⟨b, rest, -, rfl⟩ := matchHere_one hm
  rfl

theorem ctcp_dequote_eq (str : Bytes) : ctcp_dequote str = .ok (ctcpDequote str) := by
  refine gsub_eq (Texts.ctcpDequote texts) (@adds_first str [] (by simp)) (fun s m hm => ?_) str
  obtain ⟨text, htext⟩ := List.length_eq_one_iff.mp (length_captures hm)
  rw [first, Match.values, htext]
  exact (List.append_nil text).symm

theorem words_eq (str : Bytes) : words str = .ok (Irc.words str) := by
  rw [words, gmatch_eq (p := lit "[^ ]+") (Denotes.reads (Texts.word texts)), Irc.words]
  refine congrArg Except.ok ?_
  rw [List.map_map]
  refine List.map_congr_left fun m hm => ?_
  obtain ⟨t, ht⟩ := matchHere_of_mem_gmatchN _ hm
  have hnone : m.captures = [] := List.length_eq_zero_iff.mp (length_captures ht)
  rw [Function.comp_apply, Match.values, hnone]
  rfl

theorem values_head {is : List (Item UInt8)} {m : Match UInt8} {s : Bytes} (h : matchHere is s = some m)
    (hstarts : starts is ≠ 0) : m.values.head? = m.captures.head? := by
  rw [Match.values, if_neg]
  rw [List.isEmpty_iff_length_eq_zero, length_captures h]
  exact hstarts

theorem commandOf_eq (remaining : Bytes) : commandOf remaining = .ok (Irc.commandOf remaining) := by
  rw [commandOf, captures_anchored (Texts.commandOnly texts),
    captures_anchored (Texts.command texts), Irc.commandOf]
  cases honly : matchHere commandOnlyPattern remaining with
  | some m => exact congrArg Except.ok (values_head honly (by decide))
  | none =>
    cases hcommand : matchHere commandPattern remaining with
    | some m => exact congrArg Except.ok (values_head hcommand (by decide))
    | none => rfl

theorem argsOf_eq (remaining : Bytes) : argsOf remaining = .ok (Irc.argsOf remaining) := by
  rw [argsOf, captures_anchored (Texts.lastArg texts), Irc.argsOf, words_eq]
  generalize (matchHere lastArgPattern remaining).map Match.values = values
  obtain _ | (_ | ⟨a, _ | ⟨b, _ | ⟨c, l⟩⟩⟩) := values
  case some.cons.cons.nil =>
    simp only [bind, Except.bind, words_eq]
    rfl
  all_goals rfl

theorem rewriteCtcp_eq (cmdtype : Bytes) (args : List Bytes) :
    rewriteCtcp cmdtype args = .ok (Irc.rewriteCtcp cmdtype args) := by
  obtain _ | ⟨target, _ | ⟨text, args⟩⟩ := args
  · rfl
  · rfl
  rw [rewriteCtcp, captures_anchored (Texts.ctcp texts), ctcp_dequote_eq,
    Irc.rewriteCtcp]
  by_cases hcmd : cmdtype = lit "PRIVMSG" ∨ cmdtype = lit "NOTICE"
  · by_cases htext : (matchHere ctcpPattern text).isSome = true
    · simp only [bind, Except.bind, Option.isSome_map, htext, hcmd, and_self, if_true,
        captures_anchored (Texts.ctcpArg texts)]
      generalize (matchHere ctcpArgPattern _).map Match.values = values
      obtain _ | (_ | ⟨c, _ | ⟨a, _ | ⟨d, l⟩⟩⟩) := values <;> rfl
    · simp only [bind, Except.bind, Option.isSome_map, htext, hcmd, if_true]
      rfl
  · simp only [hcmd, false_and, if_false]
    rfl

theorem splitPrefix_eq (line : Bytes) : splitPrefix line = .ok (Irc.splitPrefix line) := by
  rw [splitPrefix, captures_anchored (Texts.sourced texts), Irc.splitPrefix]
  generalize (matchHere prefixPattern line).map Match.values = values
  obtain _ | (_ | ⟨a, _ | ⟨b, _ | ⟨c, l⟩⟩⟩) := values <;> rfl

theorem senderOf_eq (nick : Bytes) (pre : Option Bytes) : senderOf nick pre = .ok (match pre with
    | some pre => senderPrefixToTable pre
    | none => ⟨some nick, none, none, none⟩) := by
  cases pre with
  | some pre => exact sender_prefix_to_table_eq pre
  | none => rfl

/-- Reading a line never raises, and gives what is read of it with the items of the patterns. -/
theorem message_line_to_table_eq (nick : Bytes) (time : Int) (line : Bytes) :
    message_line_to_table nick time line = .ok (messageLineToTable nick time line) := by
  rw [message_line_to_table, splitPrefix_eq, messageLineToTable]
  obtain ⟨pre, remaining⟩ := Irc.splitPrefix line
  simp only [bind, Except.bind, commandOf_eq]
  cases Irc.commandOf remaining with
  | none => rfl
  | some cmdtype =>
    simp only [argsOf_eq, rewriteCtcp_eq, senderOf_eq]
    rfl

theorem ischanname_eq (str : Bytes) : ischanname str = .ok (Irc.ischanname str) := by
  rw [ischanname, captures_anchored (Texts.channame texts), Irc.ischanname,
    ← Option.isSome_map]
  rfl

theorem isnick_eq (str : Bytes) : isnick str = .ok (Irc.isnick str) := by
  rw [isnick, captures_anchored (Texts.nick texts), Irc.isnick, ← Option.isSome_map]
  rfl

theorem replaceBytes_eq {p : Bytes} {table : List (UInt8 × UInt8)}
    (h : Denotes p false [.one (oneOf (table.map Prod.fst))]) (str : Bytes) :
    (do return (← str_gsub str p (add_table str (byteTable table))).1) =
      (.ok (replaceBytes table str) : Except Bytes Bytes) := by
  refine gsub_eq h (adds_table str (byteTable table)) (fun s m hm => ?_) str
  obtain ⟨b, rest, -, rfl⟩ := matchHere_one hm
  change ((table.lookup b).map fun c => [c]).getD [b] = [(table.lookup b).getD b]
  cases table.lookup b <;> rfl

theorem lower_eq (m : CaseMapping) (str : Bytes) : lower m str = .ok (m.lower str) := by
  cases m with
  | ascii => rfl
  | strictRfc1459 => exact replaceBytes_eq (Texts.strictRfc1459 texts) _
  | rfc1459 => exact replaceBytes_eq (Texts.rfc1459 texts) _

/-- Both quotings are undone, whatever is quoted. -/
theorem dequote_quote (s : Bytes) : (do lowlevel_dequote (← lowlevel_quote s)) = .ok s ∧
    (do ctcp_dequote (← ctcp_quote s)) = .ok s := by
  rw [lowlevel_quote_eq, ctcp_quote_eq]
  constructor
  · exact (lowlevel_dequote_eq _).trans (congrArg _ (lowlevelDequote_lowlevelQuote s))
  · exact (ctcp_dequote_eq _).trans (congrArg _ (ctcpDequote_ctcpQuote s))

end TuxBot.Irc.Strings
