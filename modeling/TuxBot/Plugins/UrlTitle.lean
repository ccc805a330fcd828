import TuxBot.EventLoop
import TuxBot.Irc.Wire
import TuxBot.Machine

/-! The urltitle plugin: which hosts it asks for a page, and what it answers. -/
namespace TuxBot.Plugins.UrlTitle

open TuxBot.Lua TuxBot.Lua.Pattern TuxBot.Irc

/-- Plain text inside a pattern. -/
def literal (s : Bytes) : List (Item UInt8) := s.map fun b => .one (oneOf [b])

/-- A letter in either case, as `[Tt]`. -/
def letters (s : Bytes) : List (Item UInt8) := s.map fun b => .one (oneOf [b, toLower b])

/-- `'\.%s$'`: Lua reads `\.` as a dot, which stands for any byte. -/
def extensionPattern (ext : Bytes) : List (Item UInt8) := .one anyByte :: literal ext ++ [.eos]

/-- The blacklist used without a configured one. -/
def defaultExtensionBlacklist : List (List (Item UInt8)) :=
  (["png", "jpeg", "jpg", "gif", "bmp"].map lit).map extensionPattern

/-- The first word of each line of the whitelist file. -/
def loadWhitelist (lines : List Bytes) : List Bytes :=
  lines.filterMap fun line => (search [.plus fun b => !isSpace b] line).map Match.whole

structure Config where
  extensionBlacklist : List (List (Item UInt8))
  whitelist : List Bytes

def hostByte (b : UInt8) : Bool := isAlnum b || oneOf "-." b

/-- `'https?://[^ ]+'` -/
def urlPattern : List (Item UInt8) :=
  literal "http" ++ [.opt (oneOf "s")] ++ literal "://" ++ [.plus (noneOf " ")]

/-- `'(.+)%#'` -/
def fragmentPattern : List (Item UInt8) := [.start, .plus anyByte, .stop, .one (oneOf "#")]

/-- `([%w-.]+)` and `([%w.-]+)` -/
def hostItems : List (Item UInt8) := [.start, .plus hostByte, .stop]

/-- `'^%w+://([%w-.]+)'` -/
def checkPattern : List (Item UInt8) := .plus isAlnum :: (literal "://" ++ hostItems)

/-- `'http://([%w.-]+)'` -/
def addressPattern : List (Item UInt8) := literal "http://" ++ hostItems

/-- `'http://.-(/.*)'` -/
def pathPattern : List (Item UInt8) :=
  literal "http://" ++ [.lazy anyByte, .start, .one (oneOf "/"), .star anyByte, .stop]

/-- `'%.(.+)$'` -/
def labelPattern : List (Item UInt8) := [.one (oneOf "."), .start, .plus anyByte, .stop, .eos]

/-- `'^HTTP/[%d.]+ +(%d%d%d)'` -/
def responsePattern : List (Item UInt8) :=
  literal "HTTP/" ++ [.plus fun b => isDigit b || oneOf "." b, .plus (oneOf " "), .start,
    .one isDigit, .one isDigit, .one isDigit, .stop]

/-- `'3..'` -/
def redirectPattern : List (Item UInt8) := [.one (oneOf "3"), .one anyByte, .one anyByte]

/-- `'[\r\n]Location: *(..-)[\r\n]'` -/
def locationPattern : List (Item UInt8) :=
  .one (oneOf [13, 10]) :: literal "Location:" ++ [.star (oneOf " "), .start, .one anyByte,
    .lazy anyByte, .stop, .one (oneOf [13, 10])]

/-- `'[\r\n]Content%-Type: *([%w-_/]+)'` -/
def contentTypePattern : List (Item UInt8) :=
  .one (oneOf [13, 10]) :: literal "Content-Type:" ++ [.star (oneOf " "), .start,
    .plus fun b => isAlnum b || oneOf "-_/" b, .stop]

/-- `'<[Tt][Ii][Tt][Ll][Ee]>(.-)</[Tt][Ii][Tt][Ll][Ee]>'` -/
def titlePattern : List (Item UInt8) :=
  literal "<" ++ letters "TITLE" ++ literal ">" ++ [.start, .lazy anyByte, .stop] ++
    literal "</" ++ letters "TITLE" ++ literal ">"

/-- The walk over the labels of a host; a host of length `n` has at most `n` dots. -/
def whitelistedN (whitelist : List Bytes) : Nat → Bytes → Bool
  | 0, _ => false
  | n + 1, addr =>
    whitelist.contains addr ||
      match capture (search labelPattern addr) with
      | none => false
      | some rest => whitelistedN whitelist n rest

def whitelisted (whitelist : List Bytes) (addr : Bytes) : Bool :=
  whitelistedN whitelist (addr.length + 1) addr

/-- The URL of a text, without its fragment, if `msghandler` hands it to `gettitle`. -/
def checkedUrl (whitelist : List Bytes) (text : Bytes) : Option Bytes :=
  match search urlPattern text with
  | none => none
  | some m =>
    let url := (capture (search fragmentPattern m.whole)).getD m.whole
    match capture (matchHere checkPattern url) with
    | none => none
    | some addr => if whitelisted whitelist addr then some url else none

/-- What has been read of a page so far. -/
structure Reading where
  reply : Bytes
  responsecode : Option Bytes
  redirect : Bool
  contenttype : Option Bytes
  deriving DecidableEq

inductive Stage where
  | connecting
  | receiving (r : Reading)
  | dead
  deriving DecidableEq

/-- A coroutine that runs `gettitle`. -/
structure Fetch where
  msg : Message
  redirected : Bool
  address : Bytes
  path : Bytes
  stage : Stage
  deriving DecidableEq

/-- What the plugin does to the outside. Connections go to port 80. -/
inductive Act where
  | connect (address : Bytes)
  | send (data : Bytes)
  | reply (target text : Bytes)
  deriving DecidableEq

structure Plugin where
  fetches : List Fetch
  log : List Act
  deriving DecidableEq

/-- `gettitle` up to its first `coroutine.yield`. -/
def gettitle (cfg : Config) (msg : Message) (url : Bytes) (redirected : Bool) : Option Fetch :=
  if cfg.extensionBlacklist.any fun ext => (search ext (lower url)).isSome then none
  else (capture (search addressPattern url)).map fun address =>
    ⟨msg, redirected, address, (capture (search pathPattern url)).getD "/", .connecting⟩

def Plugin.start (p : Plugin) : Option Fetch → Plugin
  | none => p
  | some f => ⟨p.fetches ++ [f], p.log ++ [.connect f.address]⟩

/-- `msghandler`. A PRIVMSG without a text makes it raise. -/
def msghandler (cfg : Config) (p : Plugin) (msg : Message) : Plugin :=
  if msg.cmd = lit "PRIVMSG" then
    match msg.args[1]?.bind (checkedUrl cfg.whitelist) with
    | none => p
    | some url => p.start (gettitle cfg msg url false)
  else p

/-- How one round of the receive loop ends. -/
inductive Outcome where
  | more (r : Reading)
  | follow (location : Bytes)
  | done (title : Option Bytes)

/-- A round of the receive loop. -/
def Reading.next (r : Reading) (redirected : Bool) (got : Received) : Outcome :=
  let reply := r.reply ++ got.bytes
  let responsecode := r.responsecode.or (capture (matchHere responsePattern reply))
  let redirect := r.redirect || (r.responsecode.isNone && !redirected &&
    responsecode.any fun code => (search redirectPattern code).isSome)
  match if redirect then capture (search locationPattern reply) else none with
  | some location => .follow location
  | none =>
    let contenttype := r.contenttype.or (capture (search contentTypePattern reply))
    if r.contenttype.isNone ∧ contenttype.any (· ≠ lit "text/html") then .done none
    else match capture (search titlePattern reply) with
      | some title => .done (some title)
      | none =>
        if got.closed ∨ 10000 ≤ reply.length then .done none
        else .more ⟨reply, responsecode, redirect, contenttype⟩

/-- The title without tags, entities and superfluous white space. -/
def cleanTitle (title : Bytes) : Bytes :=
  let replace (old new : Bytes) := gsub (literal old) fun _ => new
  let trimmed := [.star isSpace, .start, .lazy anyByte, .stop, .star isSpace, .eos]
  gsub [.plus isSpace] (fun _ => " ") <|
    gsubHere trimmed (fun m => m.captures.flatten) <|
    replace "&amp;" "&" <| replace "&gt;" ">" <| replace "&lt;" "<" <|
    gsub [.one (oneOf "<"), .lazy anyByte, .one (oneOf ">")] (fun _ => []) title

/-- The answer to a message. Without a sender nick, formatting it raises. -/
def replyTo (msg : Message) (title : Bytes) : List Act :=
  match msg.sender.nick, msg.args.head? with
  | some nick, some chan =>
    if title ≠ [] ∧ title.length < 300 then
      [.reply (if ischanname chan then chan else nick)
        (lit "(" ++ formatString nick ++ lit ") " ++ formatString (cleanTitle title))]
    else []
  | _, _ => []

/-- What resumes a coroutine: its timer, or its socket and what can be read from it. -/
inductive Event where
  | timeout
  | ready (got : Received)

/-- The round that a resumed coroutine runs, if it is receiving. -/
def Fetch.round (f : Fetch) : Event → Option Outcome
  | .timeout => none
  | .ready got =>
    match f.stage with
    | .receiving r => some (r.next f.redirected got)
    | _ => none

def Plugin.setStage (p : Plugin) (i : Nat) (stage : Stage) : Plugin :=
  { p with fetches := p.fetches.modify i fun f => { f with stage } }

def Plugin.act (p : Plugin) (acts : List Act) : Plugin := { p with log := p.log ++ acts }

/-- Coroutine `i` up to its next `coroutine.yield` or its end. -/
def Plugin.resume (cfg : Config) (p : Plugin) (i : Nat) (ev : Event) : Option Plugin :=
  (p.fetches[i]?).map fun f =>
    match f.stage, ev with
    | .dead, _ => p
    | _, .timeout => p.setStage i .dead
    | .connecting, .ready _ =>
      (p.setStage i (.receiving ⟨[], none, false, none⟩)).act
        [.send (lit "GET " ++ f.path ++ lit " HTTP/1.1\n"),
          .send (lit "Host: " ++ f.address ++ lit "\n\n")]
    | .receiving r, .ready got =>
      match r.next f.redirected got with
      | .more r => p.setStage i (.receiving r)
      | .follow location => (p.setStage i .dead).start (gettitle cfg f.msg location true)
      | .done none => p.setStage i .dead
      | .done (some title) => (p.setStage i .dead).act (replyTo f.msg title)

inductive Input where
  | message (msg : Message)
  | resume (i : Nat) (ev : Event)

def step (cfg : Config) (p : Plugin) : Input → Option Plugin
  | .message msg => some (msghandler cfg p msg)
  | .resume i ev => p.resume cfg i ev

end TuxBot.Plugins.UrlTitle
