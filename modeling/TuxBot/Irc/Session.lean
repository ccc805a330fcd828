import Mathlib.Data.List.Sort
import TuxBot.Irc.Wire
import TuxBot.Lua.Table

/-! What a Client knows of itself and its server: state, nick, case mapping and ISUPPORT. -/
namespace TuxBot.Irc

open TuxBot.Lua TuxBot.Lua.Pattern

/-- A one-character replacement table. -/
def replaceByte (table : List (UInt8 × UInt8)) (b : UInt8) : UInt8 := (table.lookup b).getD b

/-- `string.gsub(str, '[...]', table)` where the class holds the keys of the table. -/
def replaceBytes (table : List (UInt8 × UInt8)) (str : Bytes) : Bytes :=
  gsub [.one (oneOf (table.map Prod.fst))] (fun m => m.whole.map (replaceByte table)) str

/-- `['{']='[', ['|']='\\', ['}']=']', ['^']='~'` -/
def rfc1459UpperTable : List (UInt8 × UInt8) := [(123, 91), (124, 92), (125, 93), (94, 126)]
def rfc1459LowerTable : List (UInt8 × UInt8) := [(91, 123), (92, 124), (93, 125), (126, 94)]
def strictRfc1459UpperTable : List (UInt8 × UInt8) := [(123, 91), (124, 92), (125, 93)]
def strictRfc1459LowerTable : List (UInt8 × UInt8) := [(91, 123), (92, 124), (93, 125)]

def rfc1459Upper (str : Bytes) : Bytes := replaceBytes rfc1459UpperTable (upper str)
def rfc1459Lower (str : Bytes) : Bytes := replaceBytes rfc1459LowerTable (lower str)
def strictRfc1459Upper (str : Bytes) : Bytes := replaceBytes strictRfc1459UpperTable (upper str)
def strictRfc1459Lower (str : Bytes) : Bytes := replaceBytes strictRfc1459LowerTable (lower str)

/-- Which functions `Client:upper`, `Client:lower` and `Client:nameeq` are. -/
inductive CaseMapping where
  | ascii
  | strictRfc1459
  | rfc1459
  deriving DecidableEq

namespace CaseMapping

def upper : CaseMapping → Bytes → Bytes
  | ascii => TuxBot.Lua.upper
  | strictRfc1459 => strictRfc1459Upper
  | rfc1459 => rfc1459Upper

def lower : CaseMapping → Bytes → Bytes
  | ascii => TuxBot.Lua.lower
  | strictRfc1459 => strictRfc1459Lower
  | rfc1459 => rfc1459Lower

def nameeq (m : CaseMapping) (a b : Bytes) : Bool := a == b || m.lower a == m.lower b

theorem replaceBytes_eq_map (table : List (UInt8 × UInt8)) (str : Bytes) :
    replaceBytes table str = str.map (replaceByte table) := by
  have hbyte : ∀ b, (if oneOf (table.map Prod.fst) b then [replaceByte table b] else [b]) =
      [replaceByte table b] := by
    intro b
    by_cases h : oneOf (table.map Prod.fst) b
    · simp [h]
    · have hnone : table.lookup b = none := by
        rw [List.lookup_eq_none_iff]
        intro p hp
        have hne : p.1 ≠ b := by
          rintro rfl
          exact h (by simpa [oneOf] using ⟨p.2, hp⟩)
        simpa using Ne.symm hne
      simp [h, replaceByte, hnone]
  rw [replaceBytes, gsub_one (g := fun b => [replaceByte table b]) fun _ _ => rfl]
  simp only [hbyte]
  exact List.flatMap_pure_eq_map (replaceByte table) str

/-- Folding works byte by byte. -/
def lowerByte : CaseMapping → UInt8 → UInt8
  | ascii => toLower
  | strictRfc1459 => fun b => replaceByte strictRfc1459LowerTable (toLower b)
  | rfc1459 => fun b => replaceByte rfc1459LowerTable (toLower b)

theorem lower_eq_map (m : CaseMapping) (str : Bytes) : m.lower str = str.map m.lowerByte := by
  cases m with
  | ascii => rfl
  | strictRfc1459 =>
    simp [lower, strictRfc1459Lower, replaceBytes_eq_map, TuxBot.Lua.lower, lowerByte]
  | rfc1459 => simp [lower, rfc1459Lower, replaceBytes_eq_map, TuxBot.Lua.lower, lowerByte]

theorem lowerByte_lowerByte (m : CaseMapping) (b : UInt8) :
    m.lowerByte (m.lowerByte b) = m.lowerByte b := by
  revert b
  cases m <;> exact forall_byte (by decide +kernel)

/-- Folding a folded name changes nothing. -/
@[simp] theorem lower_lower (m : CaseMapping) (str : Bytes) : m.lower (m.lower str) = m.lower str := by
  simp [lower_eq_map, lowerByte_lowerByte]

/-- Names are equal when they fold alike. -/
@[simp] theorem nameeq_iff (m : CaseMapping) (a b : Bytes) :
    m.nameeq a b = true ↔ m.lower a = m.lower b := by
  simp only [nameeq, Bool.or_eq_true, beq_iff_eq]
  constructor
  · rintro (rfl | h)
    · rfl
    · exact h
  · exact Or.inr

end CaseMapping

/-- `applymode`. Removing NUL removes nothing, since a pattern ends at its first NUL. -/
def applymode (str diff : Bytes) : Bytes :=
  let negative := diff.head? = some 45
  let letters := (if diff.head? = some 43 ∨ negative then diff.tail else diff).filter
    fun c => ¬ oneOf "-+" c
  let applied := letters.foldl (fun s c =>
    if negative then (if c = 0 then s else s.filter (· ≠ c))
    else if s.contains c then s else s ++ [c]) str
  match applied with
  | b :: s =>
    if oneOf "+-" b then b :: s.insertionSort (· ≤ ·) else 43 :: (b :: s).insertionSort (· ≤ ·)
  | [] => [43]

/-- The `isupport` table. Where a key was set twice, its first entry counts. -/
structure Isupport where
  prefixes : List (UInt8 × UInt8)
  modesforprefix : List (UInt8 × UInt8)
  prefixesformode : List (UInt8 × UInt8)
  chanmodesA : Bytes
  chanmodesB : Bytes
  chanmodesC : Bytes
  chanmodesD : Bytes
  deriving DecidableEq

/-- What `_on_ssl_handshake_done` assumes before the server says more. -/
def Isupport.default : Isupport where
  prefixes := [(64, 111), (43, 118)]
  modesforprefix := [(64, 111), (43, 118)]
  prefixesformode := [(111, 64), (118, 43)]
  chanmodesA := "eIbq"
  chanmodesB := "k"
  chanmodesC := "l"
  chanmodesD := "CFLMOPcgimnprstz"

inductive ClientState where
  | disconnected
  | connecting
  | sslhandshake
  | registering
  | connected
  | reconnecting
  deriving DecidableEq

/-- The part of a Client that its trackers read. -/
structure Session where
  state : ClientState
  nick : Bytes
  mapping : CaseMapping
  isupport : Isupport
  deriving DecidableEq

/-- A new state; a new registration forgets what the last server said of itself. -/
def Session.enter (s : Session) (state : ClientState) : Session :=
  { s with state, isupport := if state = .registering then .default else s.isupport }

/-- `'(%a+)=([^ ]*)'` -/
def tokenPattern : List (Item UInt8) :=
  [.start, .plus isAlpha, .stop, .one (oneOf "="), .start, .star (noneOf " "), .stop]

/-- `'%((%a+)%)([^ ]+)'` -/
def prefixTokenPattern : List (Item UInt8) :=
  [.one (oneOf "("), .start, .plus isAlpha, .stop, .one (oneOf ")"), .start, .plus (noneOf " "),
    .stop]

/-- `'^(%a*),(%a*),(%a*),(%a*)$'` -/
def chanmodesPattern : List (Item UInt8) :=
  [.start, .star isAlpha, .stop, .one (oneOf ","), .start, .star isAlpha, .stop, .one (oneOf ","),
    .start, .star isAlpha, .stop, .one (oneOf ","), .start, .star isAlpha, .stop, .eos]

/-- One `key=value` of a 005 reply. -/
def Session.onToken (s : Session) (key val : Bytes) : Session :=
  if upper key = lit "PREFIX" then
    match (search prefixTokenPattern val).map Match.values with
    | some [modes, prefixes] =>
      if modes.length = prefixes.length then
        { s with isupport := { s.isupport with
          prefixes := prefixes.zip modes
          modesforprefix := (prefixes.zip modes).reverse
          prefixesformode := (modes.zip prefixes).reverse } }
      else s
    | _ => s
  else if upper key = lit "CHANMODES" then
    match (matchHere chanmodesPattern val).map Match.values with
    | some [a, b, c, d] =>
      { s with isupport := { s.isupport with
        chanmodesA := a, chanmodesB := b, chanmodesC := c, chanmodesD := d } }
    | _ => s
  else if upper key = lit "CASEMAPPING" then
    { s with mapping :=
        if val = lit "ascii" then .ascii
        else if val = lit "strict-rfc1459" then .strictRfc1459
        else .rfc1459 }
  else s

/-- The 005 reply: the tokens after the nick. -/
def Session.onIsupport (s : Session) (args : List Bytes) : Session :=
  (gmatch tokenPattern ((args.drop 1).intersperse (lit " ")).flatten).foldl (fun s m =>
    match m.values with
    | [key, val] => s.onToken key val
    | _ => s) s

@[simp] theorem Session.onIsupport_state (s : Session) (args : List Bytes) :
    (s.onIsupport args).state = s.state := by
  unfold onIsupport
  generalize gmatch tokenPattern _ = ms
  induction ms generalizing s with
  | nil => rfl
  | cons m ms ih =>
    rw [List.foldl_cons, ih]
    split
    · unfold onToken
      repeat' split
      all_goals rfl
    · rfl

/-- The NICK message: the Client follows its own. -/
def Session.onNick (s : Session) (msg : Message) : Session :=
  match msg.sender.nick, msg.args with
  | some old, new :: _ => if s.mapping.nameeq old s.nick then { s with nick := new } else s
  | _, _ => s

/-- What `_on_readable` does to the session once the trackers have seen a message. -/
def Session.receive (s : Session) (msg : Message) : Session :=
  if msg.cmd = lit "001" ∧ s.state = .registering then
    match msg.args with
    | nick :: _ => { s with nick, state := .connected }
    | [] => s
  else if msg.cmd = lit "005" ∧ 2 ≤ msg.args.length then s.onIsupport msg.args
  else if msg.cmd = lit "NICK" then s.onNick msg
  else s

/-- Only the welcome changes the state. -/
theorem Session.receive_state (s : Session) (msg : Message) : (s.receive msg).state = s.state ∨
    (msg.cmd = lit "001" ∧ (s.receive msg).state = .connected) := by
  unfold Session.receive Session.onNick
  split
  · rename_i hwelcome
    split
    · exact Or.inr ⟨hwelcome.1, rfl⟩
    · exact Or.inl rfl
  · left
    split
    · exact onIsupport_state s msg.args
    · repeat' split
      all_goals rfl

/-- A message from `nick`. -/
def heard (nick cmd : Bytes) (args : List Bytes) : Message :=
  ⟨0, [], ⟨some nick, some "user", some "host", some (nick ++ lit "!user@host")⟩, cmd, args⟩

end TuxBot.Irc
