import TuxBot.Bot.PluginEvents

/-! The prefixes of bot commands, from the table of a network in the config file through `load_config`
to the callback that looks for a command in a message. -/
namespace TuxBot.Bot.CommandPrefixes

open TuxBot.Lua TuxBot.Irc TuxBot.Bot.PluginEvents

/-- The `channels` of a network: the names under number keys, and the `command_prefixes` of the
channels that have a table. -/
structure Channels where
  listed : List Bytes
  special : Table (Option (List Bytes))

/-- A value in the table of a network; `other` is one that only the Client reads. -/
inductive Field where
  | text (s : Bytes)
  | list (items : List Bytes)
  | channels (entries : Channels)
  | other (id : Nat)

/-- The table of a network, by the names of its fields. -/
abbrev Info := Table Field

def Field.items : Field → Option (List Bytes)
  | list items => some items
  | _ => none

def Field.entries : Field → Option Channels
  | channels entries => some entries
  | _ => none

/-- A network as the README describes it. -/
structure Network where
  address : Bytes
  port : Option Nat
  ssl : Option Nat
  channels : Channels
  identity : Bytes
  commandPrefixes : Option (List Bytes)
  ignore : Option (List Bytes)
  sentcolor : Option Bytes
  receivedcolor : Option Bytes

/-- `info[key]` -/
def field (info : Info) (key : Bytes) : Option Field := info.lookup key

/-- `info[key] = value` -/
def assign (key : Bytes) (value : Option Field) (info : Info) : Info :=
  match value with
  | some v => info.insert key v
  | none => info.erase key

/-- The table that the config file gives for the network. -/
def Network.info (n : Network) : Info :=
  assign "address" (some (.text n.address)) <|
  assign "port" (n.port.map .other) <|
  assign "ssl" (n.ssl.map .other) <|
  assign "channels" (some (.channels n.channels)) <|
  assign "identity" (some (.text n.identity)) <|
  assign "command_prefixes" (n.commandPrefixes.map .list) <|
  assign "ignore" (n.ignore.map .list) <|
  assign "sentcolor" (n.sentcolor.map .text) <|
  assign "receivedcolor" (n.receivedcolor.map .text) ∅

/-- `info[new], info[old] = info[old], nil` -/
def rename (old new : Bytes) (info : Info) : Info :=
  assign old none (assign new (field info old) info)

/-- What `load_config` does to the table of a network without a Client. Without `channels`, `pairs`
raises. -/
def loadNetwork (name : Bytes) (info : Info) : Option Info :=
  let info := assign "name" (some (.text name)) info
  let info := rename "channels" "_channels" info
  let info := rename "sentcolor" "_sentcolor" info
  let info := rename "receivedcolor" "_receivedcolor" info
  let info := rename "commandprefixes" "_commandprefixes" info
  let info := rename "ignore" "_ignore" info
  ((field info "_channels").bind Field.entries).map fun entries =>
    assign "autojoin" (some (.list (entries.listed ++ entries.special.keys))) info

/-- What the callbacks of the Client read in the table: `_ignore`, `_channels` and
`_command_prefixes`. -/
def netOf (info : Info) : Net where
  ignore := (field info "_ignore").bind Field.items
  channels := (((field info "_channels").bind Field.entries).map Channels.special).getD ∅
  commandPrefixes := (field info "_command_prefixes").bind Field.items

/-- The rule: the prefixes of the configured channel that is the target, if it has some, otherwise
those of the network, otherwise the global ones. -/
def Resolves (m : CaseMapping) (n : Network) (global : List Bytes) (target : Bytes)
    (prefixes : List Bytes) : Prop :=
  (∃ chan, n.channels.special.lookup chan = some (some prefixes) ∧ m.nameeq chan target = true) ∨
    (∀ chan ps, n.channels.special.lookup chan = some (some ps) → m.nameeq chan target = false) ∧
      prefixes = n.commandPrefixes.getD global

/-- The prefixes that count are found: the target is spelled like a channel that has some, or an equal
channel has the global ones, or no equal channel has some and the network has none or the global ones. -/
def Reached (m : CaseMapping) (n : Network) (global : List Bytes) (target : Bytes) : Prop :=
  (∃ ps, n.channels.special.lookup target = some (some ps)) ∨
    (∃ chan, n.channels.special.lookup chan = some (some global) ∧ m.nameeq chan target = true) ∨
    (∀ chan ps, n.channels.special.lookup chan = some (some ps) → m.nameeq chan target = false) ∧
      (n.commandPrefixes = none ∨ n.commandPrefixes = some global)

/-- Entries for one channel, however they are spelled, have the same prefixes. -/
def Unambiguous (m : CaseMapping) (n : Network) : Prop :=
  ∀ a b ps qs, n.channels.special.lookup a = some (some ps) →
    n.channels.special.lookup b = some (some qs) → m.nameeq a b = true → ps = qs

section Lookup

variable {key old new x : Bytes} {value : Option Field} {info : Info}

theorem field_assign :
    field (assign key value info) x = if x = key then value else field info x := by
  cases value with
  | none => exact Table.lookup_erase
  | some v => exact Table.lookup_insert

theorem field_rename : field (rename old new info) x =
    if x = old then none else if x = new then field info old else field info x := by
  rw [rename, field_assign, field_assign]

end Lookup

variable {m : CaseMapping} {n : Network} {global : List Bytes} {target target' : Bytes}

theorem bind_items (list : Option (List Bytes)) : (list.map Field.list).bind Field.items = list := by
  cases list <;> rfl

/-- The callbacks find the channels, but no prefixes of the network: these stay under
`command_prefixes`. -/
theorem loadNetwork_info (n : Network) (name : Bytes) : ∃ info,
    loadNetwork name n.info = some info ∧ netOf info = ⟨n.ignore, n.channels.special, none⟩ := by
  have hchannels : (loadNetwork name n.info).isSome := by
    simp +decide [loadNetwork, Network.info, field_rename, field_assign, Field.entries]
  obtain ⟨info, hinfo⟩ := Option.isSome_iff_exists.mp hchannels
  refine ⟨info, hinfo, ?_⟩
  rw [loadNetwork] at hinfo
  obtain ⟨entries, -, hentries⟩ := Option.map_eq_some_iff.mp hinfo
  rw [← hentries]
  simp +decide [netOf, Network.info, field_rename, field_assign, Field.entries, bind_items]

/-- So the prefixes that are used are those of the channel spelled like the target, or the global
ones. -/
theorem prefixes_eq {s : World} (hnet : s.net = ⟨n.ignore, n.channels.special, none⟩) :
    s.prefixes target =
      ((n.channels.special.lookup target).join).getD s.commandPrefixes := by
  rw [World.prefixes, hnet, Option.or_none]

theorem resolves_iff : Resolves m n global target
      (((n.channels.special.lookup target).join).getD global) ↔ Reached m n global target := by
  cases hexact : (n.channels.special.lookup target).join with
  | some ps =>
    have hlookup : n.channels.special.lookup target = some (some ps) := Option.join_eq_some_iff.mp hexact
    exact iff_of_true (Or.inl ⟨target, hlookup, by simp⟩) (Or.inl ⟨ps, hlookup⟩)
  | none =>
    have hnot : ¬ ∃ ps, n.channels.special.lookup target = some (some ps) := by
      rintro ⟨ps, hps⟩
      simp [hps] at hexact
    rw [Option.getD_none, Reached, or_iff_right hnot, Resolves]
    refine or_congr Iff.rfl (and_congr_right fun _ => ?_)
    cases n.commandPrefixes with
    | none => simp
    | some ps => simp [eq_comm]

/-- The rule gives equal targets the same prefixes. -/
theorem resolves_unique {ps qs : List Bytes} (hone : Unambiguous m n)
    (hname : m.nameeq target target' = true) (hps : Resolves m n global target ps)
    (hqs : Resolves m n global target' qs) : ps = qs := by
  simp only [Resolves, Unambiguous, Bool.eq_false_iff, ne_eq, CaseMapping.nameeq_iff] at *
  rcases hps with ⟨a, ha, hat⟩ | ⟨hnone, rfl⟩ <;> rcases hqs with ⟨b, hb, hbt⟩ | ⟨hnone', rfl⟩
  · exact hone a b ps qs ha hb (hat.trans (hname.trans hbt.symm))
  · exact absurd (hat.trans hname) (hnone' a ps ha)
  · exact absurd (hbt.trans hname.symm) (hnone b qs hb)
  · rfl

/-- Exactly for the targets that are spelled so that it makes no difference, the callback uses the
prefixes that the rule gives; of two equal targets of this kind it treats messages alike. -/
theorem prefixes_resolved_iff (n : Network) (name : Bytes) : ∃ info,
    loadNetwork name n.info = some info ∧ ∀ s : World, s.net = netOf info →
      (∀ target, Resolves s.session.mapping n s.commandPrefixes target (s.prefixes target) ↔
        Reached s.session.mapping n s.commandPrefixes target) ∧
      ∀ target target', s.session.mapping.nameeq target target' = true →
        Unambiguous s.session.mapping n → Reached s.session.mapping n s.commandPrefixes target →
        Reached s.session.mapping n s.commandPrefixes target' →
        s.prefixes target = s.prefixes target' := by
  obtain ⟨info, hload, hnet⟩ := loadNetwork_info n name
  refine ⟨info, hload, fun s hs => ?_⟩
  have hresolves (target : Bytes) :
      Resolves s.session.mapping n s.commandPrefixes target (s.prefixes target) ↔
        Reached s.session.mapping n s.commandPrefixes target := by
    rw [prefixes_eq (hs.trans hnet)]
    exact resolves_iff
  exact ⟨hresolves, fun target target' hname hone h h' =>
    resolves_unique hone hname ((hresolves target).mpr h) ((hresolves target').mpr h')⟩

/-- A network with prefixes of its own and a channel that has others. -/
def esperNet : Network where
  address := "irc.esper.net"
  port := none
  ssl := none
  channels := ⟨["#linux"], Table.ofPairs [(lit "#Lua", some ["@"])]⟩
  identity := "testbot"
  commandPrefixes := some ["?"]
  ignore := none
  sentcolor := none
  receivedcolor := none

/-- The bot on it, with `!` as the global prefix. -/
def esperWorld : World where
  plugins := []
  commandPrefixes := ["!"]
  maxQueueSize := 40
  net := ((loadNetwork "EsperNet" esperNet.info).map netOf).getD ⟨none, ∅, none⟩
  known := true
  queueLength := 0
  session := ⟨.connected, "TuxBot", .rfc1459, .default⟩
  nickattempt := none
  nickattemptstate := none
  calls := []
  queued := []
  sent := []

/-- In `#linux` the network's prefixes are not used, and in `#lua` not even those of `#Lua`. -/
theorem prefixes_missed :
    esperWorld.prefixes "#linux" = ["!"] ∧ ¬ Resolves .rfc1459 esperNet ["!"] "#linux" ["!"] ∧
      esperWorld.prefixes "#Lua" = ["@"] ∧ esperWorld.prefixes "#lua" = ["!"] ∧
      ¬ Resolves .rfc1459 esperNet ["!"] "#lua" ["!"] := by
  have hentry (chan : Bytes) (ps : List Bytes)
      (h : esperNet.channels.special.lookup chan = some (some ps)) : ps = [lit "@"] := by
    have hmem := Table.mem_of_lookup_ofPairs h
    simp only [List.mem_singleton, Prod.mk.injEq, Option.some.injEq] at hmem
    exact hmem.2
  have hnot (target : Bytes) : ¬ Resolves .rfc1459 esperNet [lit "!"] target [lit "!"] := by
    rintro (⟨chan, hchan, -⟩ | ⟨-, hprefixes⟩)
    · exact absurd (hentry chan _ hchan) (by decide)
    · exact absurd hprefixes (by decide)
  exact ⟨by decide +kernel, hnot "#linux", by decide +kernel, by decide +kernel, hnot "#lua"⟩

end TuxBot.Bot.CommandPrefixes
