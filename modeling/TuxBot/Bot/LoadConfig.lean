import TuxBot.Bot.Queue
import TuxBot.Irc.ClientReleased
import TuxBot.Lua.Table

/-! Loading the config file of bot.lua: its networks get Clients, its plugins are run. -/
namespace TuxBot.Bot.Reload

open TuxBot.Lua TuxBot.Lua.Eff TuxBot.Machine

/-- An entry of `identities`. -/
structure Identity where
  name : Option Bytes
  nick : Option Bytes
  nicks : List Bytes
  username : Option Bytes
  realname : Option Bytes
  userinfo : Option Bytes
  quitmessage : Option Bytes
  named : (nick <|> nicks.head?).isSome

/-- `self.identinfo.nick or self.identinfo.nicks[1]` -/
def Identity.first (ident : Identity) : Bytes := (ident.nick <|> ident.nicks.head?).get ident.named

/-- An entry of `channels`: a name, or a name with what is special about that channel. -/
inductive ChannelEntry where
  | plain (name : Bytes)
  | special (name : Bytes) (commandPrefixes : Option (List Bytes))

/-- `type(k)=='string' and k or v` -/
def ChannelEntry.channel : ChannelEntry → Bytes
  | .plain name => name
  | .special name _ => name

/-- The fields of a network that are for the bot and not for the Client. -/
structure BotFields where
  channels : Option (List ChannelEntry)
  sentcolor : Option Bytes
  receivedcolor : Option Bytes
  commandprefixes : Option (List Bytes)
  ignore : Option (List Bytes)

/-- An entry of `networks`. `fields` are those of `BotFields` under their own names, and `renamed`
under `_channels`, `_sentcolor` and so on. The Client alone reads `settings`. -/
structure Network (S : Type) where
  name : Option Bytes
  identity : Option Bytes
  fields : BotFields
  renamed : BotFields
  autojoin : Option (List Bytes)
  settings : S

/-- What a config file returns. Tables are numbered as they are made. -/
structure Config (S : Type) where
  table : Nat
  identities : Table Identity
  networks : Table (Network S)
  /-- The file of each plugin, if its entry has one. -/
  plugins : Table (Option Bytes)
  netdefaults : Option S
  defaultMinQueueInterval : Option ℚ
  maxQueueSize : Option Nat

/-- What comes of running the config file. The error may be a value that is not a string. -/
inductive Outcome (S : Type) where
  | returns (newconfig : Config S)
  | raises (err : Option Bytes)

/-- What comes of `loadfile` and of calling what it returns. -/
inductive PluginOutcome where
  | unloadable (err : Bytes)
  | raises (err : Option Bytes)
  | returns

/-- The entry of a Client in `clients`. -/
structure Entry (S : Type) where
  name : Bytes
  netinfo : Network S
  identinfo : Identity
  defaults : Option S
  sentcolor : Option Bytes
  receivedcolor : Option Bytes
  queue : Queue
  client : Irc.ClientLoop

/-- The variables of bot.lua. `tables` is the number of the next table that is made. -/
structure State (S : Type) where
  now : ℚ
  tables : Nat
  config : Option (Config S)
  clients : AList fun _ : Nat => Entry S
  clientsbyname : Table Nat
  plugins : Table Nat
  pluginenvs : Table Nat
  printed : List Bytes

/-- What a Client finds around it, given its settings. -/
abbrev Surroundings (S : Type) := Option S → Network S → Identity → Irc.Env

variable {S : Type} (surround : Surroundings S) (plugin : Bytes → PluginOutcome)

def Entry.env (e : Entry S) : Irc.Env := surround e.defaults e.netinfo e.identinfo

namespace State

def setConfig (s : State S) (config : Config S) : State S := { s with config := some config }

/-- The table of a network is changed in place. -/
def setNetwork (s : State S) (name : Bytes) (info : Network S) : State S :=
  { s with config := s.config.map fun c => { c with networks := c.networks.insert name info } }

/-- The entry of a new Client. -/
def newEntry (s : State S) (name : Bytes) (net : Network S) (ident : Identity) : Entry S where
  name := name
  netinfo := net
  identinfo := ident
  defaults := s.config.bind Config.netdefaults
  sentcolor := net.renamed.sentcolor
  receivedcolor := net.renamed.receivedcolor
  queue := ⟨[], s.now⟩
  client := .new ident.first s.now

def addEntry (s : State S) (e : Entry S) : State S :=
  { s with
    tables := s.tables + 1
    clients := s.clients.insert s.tables e
    clientsbyname := s.clientsbyname.insert e.name s.tables }

/-- What a call made of the Client. -/
def setWorld (s : State S) (client : Nat) (e : Entry S) (w : Irc.World) : State S :=
  { s with clients := s.clients.insert client { e with client := { e.client with world := w } } }

end State

def print (line : Bytes) : Eff (State S) Unit :=
  modify fun s => { s with printed := s.printed ++ [line] }

/-- `print((fmt):format(...))` where the last value must be a string. -/
def printError (fmt : Bytes → Bytes) : Option Bytes → Eff (State S) Unit
  | some err => print (fmt err)
  | none => throw "bad argument to 'format' (string expected)"

/-- A call of the Client, if it is still in `clients`. -/
def onClient (client : Nat) (m : Irc.Env → Eff Irc.World Unit) : Eff (State S) Unit := fun s =>
  match s.clients.lookup client with
  | none => .ok ⟨⟩ s
  | some e =>
    match m (e.env surround) e.client.world with
    | .ok _ w => .ok ⟨⟩ (s.setWorld client e w)
    | .error err w => .error err (s.setWorld client e w)

/-- `add_client` -/
def addClient (name : Bytes) (net : Network S) (ident : Identity) : Eff (State S) Unit := do
  let s ← get
  modify fun s => s.addEntry (s.newEntry name net ident)
  onClient surround s.tables Irc.Client.connect

/-- The fields that are for the bot get their other names. -/
def Network.rename (info : Network S) (name : Bytes) : Network S :=
  { info with
    name := some name
    fields := ⟨none, none, none, none, none⟩
    renamed := info.fields
    autojoin := some [] }

/-- A string in an error message. -/
def text (s : Bytes) : String := String.ofList (s.map fun b => Char.ofNat b.toNat)

/-- `assert(config.identities[info.identity], ...)` -/
def findIdentity (name : Bytes) (identity : Option Bytes) : Eff (State S) Identity := do
  match identity with
  | none => throw "bad argument #1 to 'format' (string expected, got nil)"
  | some identity =>
    let s ← get
    match s.config.bind fun c => c.identities.lookup identity with
    | some ident => return ident
    | none => throw s!"no identity \"{text identity}\" (needed by network \"{text name}\")"

/-- The body of the loop over the networks, once the network is known to be there. -/
def addNetwork (name : Bytes) (info : Network S) : Eff (State S) Unit := do
  modify fun s => s.setNetwork name (info.rename name)
  match info.fields.channels with
  | none => throw "bad argument #1 to 'pairs' (table expected, got nil)"
  | some channels =>
    let net := { info.rename name with autojoin := some (channels.map ChannelEntry.channel) }
    modify fun s => s.setNetwork name net
    let ident ← findIdentity name info.identity
    addClient surround name net ident

def useNetwork (entry : Bytes × Network S) : Eff (State S) Unit := do
  let s ← get
  match s.clientsbyname.lookup entry.1 with
  | some _ => pure ()
  | none => addNetwork surround entry.1 entry.2

/-- `client:disconnect(); clients[client] = nil; clientsbyname[name] = nil` -/
def removeClient (entry : Bytes × Nat) : Eff (State S) Unit := do
  onClient surround entry.2 fun env => Irc.Client.disconnect env .absent
  modify fun s => { s with
    clients := s.clients.erase entry.2
    clientsbyname := s.clientsbyname.erase entry.1 }

/-- A plugin that is not loaded yet is loaded and run. -/
def usePlugin (entry : Bytes × Option Bytes) : Eff (State S) Unit := do
  let s ← get
  match s.plugins.lookup entry.1, entry.2 with
  | some _, _ => pure ()
  | none, none => throw "attempt to concatenate field '?' (a nil value)"
  | none, some file =>
    match plugin entry.1 with
    | .unloadable err =>
      print (lit "***** failed to load \"" ++ entry.1 ++ lit "\" plugin (filename: \"" ++ file ++
        lit "\", error: \"" ++ err ++ lit "\")")
    | .raises err =>
      printError (fun err => lit "***** error in \"" ++ entry.1 ++ lit "\" plugin: " ++ err) err
    | .returns => modify fun s => { s with
        tables := s.tables + 2
        plugins := s.plugins.insert entry.1 s.tables
        pluginenvs := s.pluginenvs.insert entry.1 (s.tables + 1) }

def removePlugin (name : Bytes) : Eff (State S) Unit :=
  modify fun s => { s with plugins := s.plugins.erase name, pluginenvs := s.pluginenvs.erase name }

/-- What `load_config` makes of a table: defaults, and the identities with their names. -/
def Config.prepare (c : Config S) : Config S :=
  { c with
    defaultMinQueueInterval := some (c.defaultMinQueueInterval.getD (2 / 5))
    maxQueueSize := some (c.maxQueueSize.getD 40)
    identities := Table.mapVals (fun name ident => { ident with name := some name }) c.identities }

/-- The Clients by name, without those that the config still has. -/
def removedClients (s : State S) (c : Config S) : Table Nat :=
  Table.ofPairs ((s.clients.entries.map fun e => (e.2.name, e.1)).filter fun e =>
    (c.networks.lookup e.1).isNone)

/-- The rest of `load_config` once there is a new table. The lists are traversed in their order. -/
def useConfig (newconfig : Config S) : Eff (State S) Unit := do
  modify fun s => { s.setConfig { newconfig with table := s.tables } with tables := s.tables + 1 }
  modify fun s => { s with config := s.config.map Config.prepare }
  let s ← get
  let removed := removedClients s newconfig
  newconfig.networks.pairs.forM (useNetwork surround)
  removed.pairs.forM (removeClient surround)
  let s ← get
  let removedPlugins := s.plugins.keys.filter fun name => (newconfig.plugins.lookup name).isNone
  newconfig.plugins.pairs.forM (usePlugin plugin)
  removedPlugins.forM removePlugin

/-- `load_config`. It returns false when it returns early. -/
def loadConfig (outcome : Outcome S) : Eff (State S) Bool := do
  match outcome with
  | .returns newconfig =>
    useConfig surround plugin newconfig
    return true
  | .raises err =>
    let s ← get
    if s.config.isSome then
      printError (fun err => lit "***** error in config file: " ++ err) err
      return false
    else
      throw "error in config file"

end TuxBot.Bot.Reload
