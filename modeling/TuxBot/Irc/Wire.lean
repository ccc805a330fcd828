import TuxBot.Lua.Bytes
import TuxBot.Lua.Pattern

/-! The text layers of irc.lua: quoting, message lines and names. -/
namespace TuxBot.Irc

open TuxBot.Lua TuxBot.Lua.Pattern

/-! Character classes of the patterns below: `.`, `[...]` and `[^...]`. -/

def anyByte (_ : UInt8) : Bool := true
def oneOf (bs : Bytes) (b : UInt8) : Bool := bs.contains b
def noneOf (bs : Bytes) (b : UInt8) : Bool := !bs.contains b

/-- The parts of a sender prefix; a message without one has only a nick. -/
structure Sender where
  nick : Option Bytes
  user : Option Bytes
  host : Option Bytes
  str : Option Bytes
  deriving DecidableEq

/-- `'^(.+)!(.+)@(.+)$'` -/
def senderPattern : List (Item UInt8) :=
  [.start, .plus anyByte, .stop, .one (oneOf "!"), .start, .plus anyByte, .stop, .one (oneOf "@"),
    .start, .plus anyByte, .stop, .eos]

def senderPrefixToTable (str : Bytes) : Sender :=
  match (matchHere senderPattern str).map Match.values with
  | some [nick, user, host] => ⟨some nick, some user, some host, some str⟩
  | _ => ⟨none, none, some str, some str⟩

/-- `lowlevel_quote_table`: NUL, LF, CR and DLE are sent as DLE and a letter. -/
def lowlevelQuoteTable (b : UInt8) : Bytes :=
  if b = 0 then [16, 48]
  else if b = 10 then [16, 110]
  else if b = 13 then [16, 114]
  else if b = 16 then [16, 16]
  else [b]

def lowlevelQuote (str : Bytes) : Bytes :=
  gsub [.one (oneOf [0, 10, 13, 16])] (fun m => m.whole.flatMap lowlevelQuoteTable) str

/-- `lowlevel_dequote_table`, whose `__index` gives back the second byte. -/
def lowlevelDequoteTable : Bytes → Bytes
  | [16, 48] => [0]
  | [16, 110] => [10]
  | [16, 114] => [13]
  | [16, 16] => [16]
  | k => (k.drop 1).take 1

/-- `'\016.'` -/
def dequotePattern : List (Item UInt8) := [.one (oneOf [16]), .one anyByte]

def lowlevelDequote (str : Bytes) : Bytes :=
  gsub dequotePattern (fun m => lowlevelDequoteTable m.whole) str

def ctcpQuote (str : Bytes) : Bytes :=
  gsub [.one (oneOf [1, 92])] (fun m => 92 :: m.whole) str

/-- `'\\([\\\001])'` -/
def ctcpDequotePattern : List (Item UInt8) :=
  [.one (oneOf [92]), .start, .one (oneOf [92, 1]), .stop]

def ctcpDequote (str : Bytes) : Bytes :=
  gsub ctcpDequotePattern (fun m => m.captures.flatten) str

/-- The table form of a message line. -/
structure Message where
  time : Int
  line : Bytes
  sender : Sender
  cmd : Bytes
  args : List Bytes
  deriving DecidableEq

/-- `'^:([^ ]+) +(.*)'` -/
def prefixPattern : List (Item UInt8) :=
  [.one (oneOf ":"), .start, .plus (noneOf " "), .stop, .plus (oneOf " "), .start, .star anyByte,
    .stop]

/-- `'^(%w+)$'` -/
def commandOnlyPattern : List (Item UInt8) := [.start, .plus isAlnum, .stop, .eos]

/-- `'^(%w+) '` -/
def commandPattern : List (Item UInt8) := [.start, .plus isAlnum, .stop, .one (oneOf " ")]

/-- `'^(.-) :(.*)$'` -/
def lastArgPattern : List (Item UInt8) :=
  [.start, .lazy anyByte, .stop, .one (oneOf " "), .one (oneOf ":"), .start, .star anyByte, .stop,
    .eos]

/-- `'[^ ]+'` -/
def wordPattern : List (Item UInt8) := [.plus (noneOf " ")]

/-- `'^\001.+\001$'` -/
def ctcpPattern : List (Item UInt8) :=
  [.one (oneOf [1]), .plus anyByte, .one (oneOf [1]), .eos]

/-- `'^([^ ]+) (.*)$'` -/
def ctcpArgPattern : List (Item UInt8) :=
  [.start, .plus (noneOf " "), .stop, .one (oneOf " "), .start, .star anyByte, .stop, .eos]

/-- `gmatch('[^ ]+')` -/
def words (str : Bytes) : List Bytes := (gmatch wordPattern str).map Match.whole

/-- The optional prefix of a line and what follows it. -/
def splitPrefix (line : Bytes) : Option Bytes × Bytes :=
  match (matchHere prefixPattern line).map Match.values with
  | some [pre, remaining] => (some pre, remaining)
  | _ => (none, line)

def commandOf (remaining : Bytes) : Option Bytes :=
  ((matchHere commandOnlyPattern remaining).or (matchHere commandPattern remaining)).bind
    fun m => m.captures.head?

def argsOf (remaining : Bytes) : List Bytes :=
  match (matchHere lastArgPattern remaining).map Match.values with
  | some [argstr, last] => words argstr ++ [last]
  | _ => words remaining

/-- CTCP rewriting of a PRIVMSG or NOTICE. The source writes `args[3]` (nil without a CTCP
argument), so nothing after it can be reached from there on. -/
def rewriteCtcp (cmdtype : Bytes) (args : List Bytes) : Bytes × List Bytes :=
  match args with
  | target :: text :: _ =>
    if (cmdtype = lit "PRIVMSG" ∨ cmdtype = lit "NOTICE") ∧
        (matchHere ctcpPattern text).isSome then
      let cmd := if cmdtype = lit "PRIVMSG" then lit ":CTCP" else lit ":CTCPREPLY"
      let s := ctcpDequote ((text.drop 1).dropLast)
      match (matchHere ctcpArgPattern s).map Match.values with
      | some [c, a] => (cmd, [target, upper c, a])
      | _ => (cmd, [target, upper s])
    else (cmdtype, args)
  | _ => (cmdtype, args)

/-- `nick` is what `client:get_nick()` returns: the sender of a line without a prefix. -/
def messageLineToTable (nick : Bytes) (time : Int) (line : Bytes) : Option Message :=
  let (pre, remaining) := splitPrefix line
  match commandOf remaining with
  | none => none
  | some cmdtype =>
    let (cmd, args) := rewriteCtcp (upper cmdtype) (argsOf (remaining.drop cmdtype.length))
    some {
      time, line, cmd, args
      sender := match pre with
        | some p => senderPrefixToTable p
        | none => ⟨some nick, none, none, none⟩ }

/-- `'^[&#+!][^%z\007\r\n ,:]+$'` -/
def channamePattern : List (Item UInt8) :=
  [.one (oneOf "&#+!"), .plus (noneOf ([0, 7, 13, 10] ++ lit " ,:")), .eos]

def ischanname (str : Bytes) : Bool := (matchHere channamePattern str).isSome

/-- ``'^[%a[%]\\`_^{|}][%a%d[%]\\`_^{|}-]*$'`` -/
def nickPattern : List (Item UInt8) :=
  [.one (fun b => isAlpha b || oneOf "[]\\`_^{|}" b),
    .star (fun b => isAlpha b || isDigit b || oneOf "[]\\`_^{|}-" b), .eos]

def isnick (str : Bytes) : Bool := (matchHere nickPattern str).isSome

/-- The arguments of a line: the last one after a colon, nothing from the first nil on. -/
def joinArgs : List (Option Bytes) → Bytes
  | [] => []
  | none :: _ => []
  | [some arg] => lit " :" ++ arg
  | some arg :: args => lit " " ++ arg ++ joinArgs args

/-- The line `sendmessage` builds before it is quoted. -/
def messageLine (cmd : Bytes) (args : List (Option Bytes)) : Bytes := cmd ++ joinArgs args

/-- What `sendmessage` and `sendmessageline` hand to `_send`. -/
def wireLine (line : Bytes) : Bytes := lowlevelQuote line ++ [13, 10]

end TuxBot.Irc
