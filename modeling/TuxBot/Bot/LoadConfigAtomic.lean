import TuxBot.Bot.LoadConfig

/-! What a reload of the config leaves behind when it does not complete. -/
namespace TuxBot.Bot.Reload

open TuxBot.Lua TuxBot.Lua.Eff TuxBot.Machine

variable {S : Type} {surround : Surroundings S} {plugin : Bytes → PluginOutcome} {s t : State S}
  {c : Config S} {outcome : Outcome S} {client : Nat} {e : Entry S} {name : Bytes}

/-- A state that runs of the Client lead to. -/
def Reached (env : Irc.Env) (client : Irc.ClientLoop) : Prop :=
  ∃ nick now inputs, run (Irc.ClientLoop.step env) (.new nick now) inputs = some client

/-- The config has a number of its own, and the Clients are in states that they can be in. -/
structure Sound (surround : Surroundings S) (s : State S) : Prop where
  fresh : ∀ c ∈ s.config, c.table < s.tables
  reached : ∀ client e, s.clients.lookup client = some e → Reached (e.env surround) e.client

/-- What a reload may change only if it completes. -/
structure Same (s t : State S) : Prop where
  config : t.config = s.config
  clients : t.clients = s.clients
  clientsbyname : t.clientsbyname = s.clientsbyname
  plugins : t.plugins = s.plugins
  pluginenvs : t.pluginenvs = s.pluginenvs

/-- A reload completes or changes nothing. -/
def Atomic (surround : Surroundings S) (plugin : Bytes → PluginOutcome) (s : State S)
    (outcome : Outcome S) : Prop :=
  match loadConfig surround plugin outcome s with
  | .ok true _ => True
  | .ok false t => Same s t
  | .error _ t => Same s t

/-- The network lists its channels, and the identity it names exists. -/
def Provided (c : Config S) (info : Network S) : Prop :=
  info.fields.channels.isSome ∧ ∃ identity ∈ info.identity, (c.identities.lookup identity).isSome

/-- The plugin has a file that does not raise anything but strings. -/
def Runnable (plugin : Bytes → PluginOutcome) (entry : Bytes × Option Bytes) : Prop :=
  entry.2.isSome ∧ plugin entry.1 ≠ .raises none

/-- The file failed, or everything in it that is new can be used. -/
def Usable (plugin : Bytes → PluginOutcome) (s : State S) : Outcome S → Prop
  | .raises _ => True
  | .returns c =>
    (∀ entry ∈ c.networks.pairs, (s.clientsbyname.lookup entry.1).isSome ∨ Provided c entry.2) ∧
      ∀ entry ∈ c.plugins.pairs, (s.plugins.lookup entry.1).isSome ∨ Runnable plugin entry

/-! ### Clients -/

theorem reached_step {env : Irc.Env} {client next : Irc.ClientLoop} {i : Irc.ClientInput}
    (h : Reached env client) (hstep : client.step env i = some next) : Reached env next := by
  obtain ⟨nick, now, inputs, hrun⟩ := h
  refine ⟨nick, now, inputs ++ [i], ?_⟩
  rw [run_append, hrun, Option.bind_some, run, hstep]
  rfl

theorem reached_new {env : Irc.Env} (nick : Bytes) (now : ℚ) : Reached env (.new nick now) :=
  ⟨nick, now, [], rfl⟩

theorem connect_new (env : Irc.Env) (nick : Bytes) (now : ℚ) :
    ∃ w, Irc.Client.connect env (.new nick now) = .ok ⟨⟩ w := ⟨_, rfl⟩

/-- What a call of a Client makes of its entry. -/
theorem sound_setWorld {w : Irc.World} (h : Sound surround s)
    (hreached : Reached (e.env surround) { e.client with world := w }) :
    Sound surround (s.setWorld client e w) := by
  refine ⟨h.fresh, fun k x hx => ?_⟩
  by_cases hk : k = client
  · subst hk
    obtain rfl := Option.some.inj ((AList.lookup_insert _).symm.trans hx)
    exact hreached
  · exact h.reached k x ((AList.lookup_insert_ne hk).symm.trans hx)

/-- A call that a step of the Client stands for, and that does not raise. -/
theorem onClient_returns (client : Nat) (m : Irc.Env → Eff Irc.World Unit)
    (h : Sound surround s)
    (hcall : ∀ e, s.clients.lookup client = some e → ∃ w, m (e.env surround) e.client.world = .ok ⟨⟩ w ∧
      Reached (e.env surround) { e.client with world := w }) :
    ∃ u, onClient surround client m s = .ok ⟨⟩ u ∧ Sound surround u ∧ u.config = s.config ∧
      u.tables = s.tables ∧ u.clientsbyname = s.clientsbyname ∧ u.plugins = s.plugins := by
  unfold onClient
  cases hlookup : s.clients.lookup client with
  | none => exact ⟨s, rfl, h, rfl, rfl, rfl, rfl⟩
  | some e =>
    obtain ⟨w, hw, hreached⟩ := hcall e hlookup
    refine ⟨s.setWorld client e w, ?_, sound_setWorld h hreached, rfl, rfl, rfl, rfl⟩
    simp only [hw]

/-! ### The networks -/

/-- While a new config is used: `n` is the number of its table. -/
structure Loading (surround : Surroundings S) (c : Config S) (n : Nat) (plugins : Table Nat)
    (t : State S) : Prop where
  sound : Sound surround t
  table : t.config.map Config.table = some n
  identities : ∀ identity, (t.config.bind fun c => c.identities.lookup identity).isSome =
    (c.identities.lookup identity).isSome
  plugins : t.plugins = plugins

variable {n : Nat} {plugins : Table Nat} {info : Network S} {identity : Option Bytes}
  {known : Bytes → Bool}

theorem loading_setNetwork (h : Loading surround c n plugins t) :
    Loading surround c n plugins (t.setNetwork name info) := by
  obtain ⟨current, hcurrent⟩ := Option.map_eq_some_iff.mp h.table
  have hset : (t.setNetwork name info).config =
      some { current with networks := current.networks.insert name info } := by
    rw [State.setNetwork, hcurrent.1, Option.map_some]
  refine ⟨⟨fun x hx => ?_, h.sound.reached⟩, ?_, fun identity => ?_, h.plugins⟩
  · obtain rfl := Option.some.inj (hset.symm.trans hx)
    exact h.sound.fresh current hcurrent.1
  · rw [hset]
    exact congrArg some hcurrent.2
  · rw [← h.identities identity, hset, hcurrent.1]
    rfl

/-- Loading a network whose name is not among the names that are left. -/
abbrev Adding (surround : Surroundings S) (c : Config S) (n : Nat) (plugins : Table Nat)
    (known : Bytes → Bool) (names : List Bytes) (t : State S) : Prop :=
  Loading surround c n plugins t ∧ names.Nodup ∧
    ∀ name ∈ names, (t.clientsbyname.lookup name).isSome = known name

/-- Looking for the identity changes nothing. -/
theorem loading_findIdentity {P : State S → Prop} (hp : ∀ t, P t → Loading surround c n plugins t) :
    Triple P (findIdentity name identity)
      (fun _ t => (∃ i ∈ identity, (c.identities.lookup i).isSome) ∧ P t)
      fun t => (¬ ∃ i ∈ identity, (c.identities.lookup i).isSome) ∧ P t := by
  cases identity with
  | none => exact triple_throw fun t h => ⟨by simp, h⟩
  | some i =>
    refine triple_get_bind fun t h => ?_
    have hsame := (hp t h).identities i
    cases hfound : t.config.bind fun c => c.identities.lookup i with
    | none =>
      rw [hfound] at hsame
      exact triple_throw fun u hu => hu ▸ ⟨by simp [← hsame], h⟩
    | some ident =>
      rw [hfound] at hsame
      exact triple_pure fun u hu => hu ▸ ⟨⟨i, rfl, hsame.symm⟩, h⟩

theorem sound_addEntry (h : Sound surround s) (hreached : Reached (e.env surround) e.client) :
    Sound surround (s.addEntry e) := by
  refine ⟨fun x hx => Nat.lt_succ_of_lt (h.fresh x hx), fun k x hx => ?_⟩
  by_cases hk : k = s.tables
  · subst hk
    obtain rfl := Option.some.inj ((AList.lookup_insert _).symm.trans hx)
    exact hreached
  · exact h.reached k x ((AList.lookup_insert_ne hk).symm.trans hx)

/-- A new Client connects. -/
theorem reached_connect (env : Irc.Env) (nick : Bytes) (now : ℚ) :
    ∃ w, Irc.Client.connect env (.new nick now) = .ok ⟨⟩ w ∧
      Reached env { Irc.ClientLoop.new nick now with world := w } := by
  obtain ⟨w, hw⟩ := connect_new env nick now
  refine ⟨w, hw, reached_step (i := .connect) (reached_new nick now) ?_⟩
  simp only [Irc.ClientLoop.step, Irc.ClientLoop.call, Irc.ClientLoop.new, pcall, hw]

theorem adding_addClient {names : List Bytes} {net : Network S} {ident : Identity} :
    Triple (Adding surround c n plugins known (name :: names)) (addClient surround name net ident)
      (fun _ => Adding surround c n plugins known names) fun _ => False := by
  refine triple_get_bind fun t h => ?_
  obtain ⟨hloading, hnodup, hknown⟩ := h
  obtain ⟨hfirst, hnodup⟩ := List.nodup_cons.mp hnodup
  rintro u rfl
  rw [bind_of_ok (modify_eq _ u)]
  set e := u.newEntry name net ident with he
  have hsound : Sound surround (u.addEntry e) := sound_addEntry hloading.sound (reached_new _ _)
  obtain ⟨x, hx, hsound', hconfig, -, hbyname, hplugins⟩ :=
    onClient_returns u.tables Irc.Client.connect hsound fun y hy => by
      obtain rfl := Option.some.inj ((AList.lookup_insert _).symm.trans hy)
      exact reached_connect _ _ _
  rw [hx]
  refine ⟨⟨hsound', ?_, ?_, hplugins.trans hloading.plugins⟩, hnodup, fun other hother => ?_⟩
  · rw [hconfig]
    exact hloading.table
  · rw [hconfig]
    exact hloading.identities
  · rw [hbyname, ← hknown other (List.mem_cons_of_mem name hother)]
    have hne : other ≠ name := fun heq => hfirst (heq ▸ hother)
    exact congrArg Option.isSome (AList.lookup_insert_ne hne)

theorem adding_addNetwork {names : List Bytes} :
    Triple (Adding surround c n plugins known (name :: names)) (addNetwork surround name info)
      (fun _ t => Provided c info ∧ Adding surround c n plugins known names t)
      fun t => ¬ Provided c info ∧ Loading surround c n plugins t := by
  have hset : ∀ (info : Network S) (t : State S),
      Adding surround c n plugins known (name :: names) t →
        Adding surround c n plugins known (name :: names) (t.setNetwork name info) :=
    fun info t h => ⟨loading_setNetwork h.1, h.2⟩
  refine triple_bind (Q := fun _ => Adding surround c n plugins known (name :: names))
    (triple_modify (hset _)) fun _ => ?_
  cases hchannels : info.fields.channels with
  | none =>
    refine triple_throw fun t h => ⟨fun hprovided => ?_, h.1⟩
    simp [Provided, hchannels] at hprovided
  | some channels =>
    refine triple_bind (Q := fun _ => Adding surround c n plugins known (name :: names))
      (triple_modify (hset _)) fun _ => ?_
    refine triple_bind (Q := fun _ t => (∃ i ∈ info.identity, (c.identities.lookup i).isSome) ∧
      Adding surround c n plugins known (name :: names) t) ?_ fun ident => ?_
    · exact triple_conseq (loading_findIdentity fun t h => h.1) (fun _ h => h) (fun _ _ h => h)
        fun t h => ⟨fun hprovided => h.1 hprovided.2, h.2.1⟩
    · rintro t ⟨hidentity, h⟩
      have hprovided : Provided c info := ⟨by simp [hchannels], hidentity⟩
      exact triple_conseq adding_addClient (fun _ h => h) (fun _ _ h => ⟨hprovided, h⟩)
        (fun _ h => h.elim) t h

theorem adding_useNetwork {entry : Bytes × Network S} {rest : List (Bytes × Network S)} :
    Triple (Adding surround c n plugins known ((entry :: rest).map Prod.fst))
      (useNetwork surround entry)
      (fun _ t => (known entry.1 ∨ Provided c entry.2) ∧
        Adding surround c n plugins known (rest.map Prod.fst) t)
      fun t => ¬ (known entry.1 ∨ Provided c entry.2) ∧ Loading surround c n plugins t := by
  refine triple_get_bind fun t h => ?_
  have hentry := h.2.2 entry.1 List.mem_cons_self
  cases hfound : t.clientsbyname.lookup entry.1 with
  | some client =>
    rw [hfound] at hentry
    have hrest : Adding surround c n plugins known (rest.map Prod.fst) t :=
      ⟨h.1, h.2.1.of_cons, fun other hother => h.2.2 other (List.mem_cons_of_mem _ hother)⟩
    exact triple_pure fun u hu => hu ▸ ⟨Or.inl hentry.symm, hrest⟩
  | none =>
    rw [hfound] at hentry
    have hunknown : known entry.1 ≠ true := by simp [← hentry]
    refine triple_at (triple_conseq adding_addNetwork (fun _ h => h)
      (fun _ t h => ⟨Or.inr h.1, h.2⟩) fun t h => ⟨?_, h.2⟩) h
    rintro (hknown | hprovided)
    · exact hunknown hknown
    · exact h.1 hprovided

/-! ### The Clients that are removed, and the plugins -/

theorem loading_removeClient (hcalls : ∀ d net ident, (surround d net ident).Harmless)
    {entry : Bytes × Nat} :
    Triple (Loading surround c n plugins) (removeClient surround entry)
      (fun _ => Loading surround c n plugins) fun _ => False := by
  intro t h
  obtain ⟨u, hu, hsound, hconfig, htables, -, hplugins⟩ :=
    onClient_returns entry.2 (fun env => Irc.Client.disconnect env .absent) h.sound
      fun e he => by
        obtain ⟨nick, now, inputs, hrun⟩ := h.sound.reached entry.2 e he
        obtain ⟨w, hw⟩ := Irc.disconnect_returns (hcalls _ _ _) hrun .absent
        refine ⟨w, hw, reached_step (i := .disconnect .absent) ⟨nick, now, inputs, hrun⟩ ?_⟩
        simp only [Irc.ClientLoop.step, Irc.ClientLoop.call, pcall, Entry.env, hw]
  rw [removeClient, bind_of_ok hu]
  refine ⟨⟨hsound.fresh, fun k x hx => ?_⟩, ?_, ?_, hplugins.trans h.plugins⟩
  · by_cases hk : k = entry.2
    · subst hk
      cases (AList.lookup_erase _ _).symm.trans hx
    · exact hsound.reached k x ((AList.lookup_erase_ne hk).symm.trans hx)
  · exact (congrArg (Option.map Config.table) hconfig).trans h.table
  · intro identity
    rw [← h.identities identity, ← hconfig]

/-- The new config is in place. -/
abbrev Placed (surround : Surroundings S) (n : Nat) (t : State S) : Prop :=
  Sound surround t ∧ t.config.map Config.table = some n

/-- Running plugins, of which those that are left are loaded already when `known` says so. -/
abbrev Running (surround : Surroundings S) (n : Nat) (known : Bytes → Bool) (names : List Bytes)
    (t : State S) : Prop :=
  Placed surround n t ∧ names.Nodup ∧ ∀ name ∈ names, (t.plugins.lookup name).isSome = known name

theorem running_usePlugin {entry : Bytes × Option Bytes} {rest : List (Bytes × Option Bytes)} :
    Triple (Running surround n known ((entry :: rest).map Prod.fst)) (usePlugin plugin entry)
      (fun _ t => (known entry.1 ∨ Runnable plugin entry) ∧
        Running surround n known (rest.map Prod.fst) t)
      fun t => ¬ (known entry.1 ∨ Runnable plugin entry) ∧ Placed surround n t := by
  refine triple_get_bind fun t h => ?_
  have hentry := h.2.2 entry.1 List.mem_cons_self
  have hnodup := List.nodup_cons.mp h.2.1
  have hprinted : ∀ lines : List Bytes, Running surround n known (rest.map Prod.fst)
      { t with printed := lines } := fun lines =>
    ⟨⟨⟨h.1.1.fresh, h.1.1.reached⟩, h.1.2⟩, hnodup.2,
      fun other hother => h.2.2 other (List.mem_cons_of_mem _ hother)⟩
  cases hfound : t.plugins.lookup entry.1 with
  | some number =>
    rw [hfound] at hentry
    exact triple_pure fun u hu => hu ▸ ⟨Or.inl hentry.symm, hprinted t.printed⟩
  | none =>
    rw [hfound] at hentry
    have hunknown : known entry.1 ≠ true := by simp [← hentry]
    cases hfile : entry.2 with
    | none =>
      refine triple_throw fun u hu => ⟨?_, hu ▸ h.1⟩
      rintro (hknown | hrunnable)
      · exact hunknown hknown
      · simp [Runnable, hfile] at hrunnable
    | some file =>
      have hfile : entry.2.isSome := by simp [hfile]
      cases hplugin : plugin entry.1 with
      | unloadable err =>
        refine triple_modify fun u hu => hu ▸ ⟨Or.inr ⟨hfile, ?_⟩, hprinted _⟩
        simp [hplugin]
      | raises err =>
        cases err with
        | none =>
          refine triple_throw fun u hu => ⟨?_, hu ▸ h.1⟩
          rintro (hknown | hrunnable)
          · exact hunknown hknown
          · exact hrunnable.2 hplugin
        | some err =>
          refine triple_modify fun u hu => hu ▸ ⟨Or.inr ⟨hfile, ?_⟩, hprinted _⟩
          simp [hplugin]
      | returns =>
        refine triple_modify fun u hu => ⟨Or.inr ⟨hfile, by simp [hplugin]⟩, ?_⟩
        subst hu
        refine ⟨⟨⟨fun x hx => (h.1.1.fresh x hx).trans_le (Nat.le_add_right _ 2), h.1.1.reached⟩,
          h.1.2⟩, hnodup.2, fun other hother => ?_⟩
        have hne : other ≠ entry.1 := fun heq => hnodup.1 (heq ▸ hother)
        rw [← h.2.2 other (List.mem_cons_of_mem _ hother)]
        exact congrArg Option.isSome (AList.lookup_insert_ne hne)

/-! ### Loading a config -/

theorem placed_useConfig (plugin : Bytes → PluginOutcome) (c : Config S)
    (hcalls : ∀ d net ident, (surround d net ident).Harmless)
    (hsound : Sound surround s) :
    Triple (· = s) (useConfig surround plugin c)
      (fun _ t => Usable plugin s (.returns c) ∧ Sound surround t)
      fun t => ¬ Usable plugin s (.returns c) ∧ Placed surround s.tables t := by
  set known : Bytes → Bool := fun name => (s.clientsbyname.lookup name).isSome with hknown
  have hstart : Adding surround c s.tables s.plugins known (c.networks.pairs.map Prod.fst)
      { s.setConfig ({ c with table := s.tables } : Config S).prepare with
        tables := s.tables + 1 } := by
    refine ⟨⟨⟨fun x hx => ?_, hsound.reached⟩, rfl, fun identity => ?_, rfl⟩,
      Table.nodup_pairs c.networks, fun name _ => rfl⟩
    · obtain rfl := Option.some.inj hx
      exact Nat.lt_succ_self _
    · exact (congrArg Option.isSome (Table.lookup_mapVals _)).trans (by simp)
  have hnetworks : Triple _ (c.networks.pairs.forM (useNetwork surround)) _ _ :=
    triple_forM_decides (I := fun entries => Adding surround c s.tables s.plugins known
      (entries.map Prod.fst)) (fun _ _ => adding_useNetwork) c.networks.pairs
  rintro u rfl
  rw [useConfig, bind_of_ok (modify_eq _ u), bind_of_ok (modify_eq _ _), get_bind_eq]
  refine triple_bind (triple_conseq hnetworks (fun _ h => h) (fun _ _ h => h) fun t h => ?_)
    (fun _ => ?_) _ hstart
  · exact ⟨fun husable => h.1 husable.1, h.2.sound, h.2.table⟩
  rintro t ⟨hprovided, hloading, -⟩
  refine triple_bind (Q := fun _ => Loading surround c u.tables u.plugins)
    (triple_conseq (triple_forM (fun _ => loading_removeClient hcalls) _) (fun _ h => h)
      (fun _ _ h => h) fun _ h => h.elim) (fun _ => ?_) t hloading
  refine triple_get_bind fun v hv => ?_
  have hplugins : Triple _ (c.plugins.pairs.forM (usePlugin plugin)) _ _ :=
    triple_forM_decides (I := fun entries => Running surround u.tables
      (fun name => (u.plugins.lookup name).isSome) (entries.map Prod.fst))
      (fun _ _ => running_usePlugin) c.plugins.pairs
  have hrunning : Running surround u.tables (fun name => (u.plugins.lookup name).isSome)
      (c.plugins.pairs.map Prod.fst) v :=
    ⟨⟨hv.sound, hv.table⟩, Table.nodup_pairs c.plugins, fun name _ => by rw [hv.plugins]⟩
  refine triple_bind (triple_at (triple_conseq hplugins (fun _ h => h) (fun _ _ h => h)
    fun t h => ?_) hrunning) fun _ => ?_
  · exact ⟨fun husable => h.1 husable.2, h.2⟩
  rintro t ⟨hrunnable, hplaced, -⟩
  refine triple_conseq (triple_forM (P := Placed surround u.tables) (E := fun _ => False)
    (fun name => ?_) _) (fun _ h => h) (fun _ _ h => ⟨⟨hprovided, hrunnable⟩, h.1⟩)
    (fun _ h => h.elim) t hplaced
  exact triple_modify fun x hx => ⟨⟨hx.1.fresh, hx.1.reached⟩, hx.2⟩

/-- A config file that fails changes nothing, and a table is used from then on. -/
theorem loadConfig_returns (plugin : Bytes → PluginOutcome)
    (hcalls : ∀ d net ident, (surround d net ident).Harmless) (hsound : Sound surround s) (c : Config S) :
    (Usable plugin s (.returns c) ∧
        ∃ t, loadConfig surround plugin (.returns c) s = .ok true t ∧ Sound surround t) ∨
      ¬ Usable plugin s (.returns c) ∧
        ∃ err t, loadConfig surround plugin (.returns c) s = .error err t ∧
          Placed surround s.tables t := by
  have hused := placed_useConfig plugin c hcalls hsound s rfl
  cases hrun : useConfig surround plugin c s with
  | ok a t =>
    rw [hrun] at hused
    refine Or.inl ⟨hused.1, t, ?_, hused.2⟩
    exact bind_of_ok hrun
  | error err t =>
    rw [hrun] at hused
    refine Or.inr ⟨hused.1, err, t, ?_, hused.2⟩
    simp only [loadConfig, bind, EStateM.bind, hrun]

theorem loadConfig_raises (surround : Surroundings S) (plugin : Bytes → PluginOutcome)
    (hconfig : s.config.isSome) (err : Option Bytes) :
    ∃ lines, loadConfig surround plugin (.raises err) s = .ok false { s with printed := lines } ∨
      ∃ e, loadConfig surround plugin (.raises err) s = .error e { s with printed := lines } := by
  have hloads : loadConfig surround plugin (.raises err) s = (do
      printError (fun err => lit "***** error in config file: " ++ err) err
      return false : Eff (State S) Bool) s := by
    rw [loadConfig, get_bind_eq, if_pos hconfig]
  rw [hloads]
  cases err with
  | none => exact ⟨s.printed, Or.inr ⟨_, rfl⟩⟩
  | some err => exact ⟨_, Or.inl rfl⟩

/-- A reload keeps the state sound, however it ends. -/
theorem sound_loadConfig (hcalls : ∀ d net ident, (surround d net ident).Harmless)
    (hsound : Sound surround s) (hconfig : s.config.isSome) (outcome : Outcome S) :
    Sound surround ((loadConfig surround plugin outcome).pcall s).2 := by
  cases outcome with
  | returns c =>
    rcases loadConfig_returns plugin hcalls hsound c with
      ⟨-, t, hrun, ht⟩ | ⟨-, err, t, hrun, ht⟩
    · simpa only [pcall, hrun] using ht
    · simpa only [pcall, hrun] using ht.1
  | raises err =>
    obtain ⟨lines, hrun | ⟨e, hrun⟩⟩ := loadConfig_raises surround plugin hconfig err
    · rw [pcall, hrun]
      exact ⟨hsound.fresh, hsound.reached⟩
    · rw [pcall, hrun]
      exact ⟨hsound.fresh, hsound.reached⟩

/-- So does a step of a Client. -/
theorem sound_client {i : Irc.ClientInput} {next : Irc.ClientLoop} (hsound : Sound surround s)
    (hclient : s.clients.lookup client = some e) (hstep : e.client.step (e.env surround) i = some next) :
    Sound surround { s with clients := s.clients.insert client { e with client := next } } := by
  refine ⟨hsound.fresh, fun k x hx => ?_⟩
  by_cases hk : k = client
  · subst hk
    obtain rfl := Option.some.inj ((AList.lookup_insert _).symm.trans hx)
    exact reached_step (hsound.reached k e hclient) hstep
  · exact hsound.reached k x ((AList.lookup_insert_ne hk).symm.trans hx)

/-- A reload is atomic exactly when the file fails or all that is new in it can be used. -/
theorem reload_atomic_iff (hcalls : ∀ d net ident, (surround d net ident).Harmless)
    (hsound : Sound surround s) (hconfig : s.config.isSome) (outcome : Outcome S) :
    Atomic surround plugin s outcome ↔ Usable plugin s outcome := by
  cases outcome with
  | raises err =>
    refine iff_of_true ?_ trivial
    obtain ⟨lines, hrun | ⟨e, hrun⟩⟩ := loadConfig_raises surround plugin hconfig err
    · rw [Atomic, hrun]
      exact ⟨rfl, rfl, rfl, rfl, rfl⟩
    · rw [Atomic, hrun]
      exact ⟨rfl, rfl, rfl, rfl, rfl⟩
  | returns c =>
    rcases loadConfig_returns plugin hcalls hsound c with
      ⟨husable, t, hrun, -⟩ | ⟨husable, err, t, hrun, -, htable⟩
    · rw [Atomic, hrun]
      exact iff_of_true trivial husable
    · rw [Atomic, hrun]
      refine iff_of_false (fun hsame => ?_) husable
      obtain ⟨current, hcurrent⟩ := Option.isSome_iff_exists.mp hconfig
      rw [hsame.config, hcurrent] at htable
      have hfresh := hsound.fresh current hcurrent
      exact hfresh.ne (Option.some.inj htable)

/-! ### A small config -/

def tux : Identity := ⟨none, none, ["tux"], none, none, none, none, rfl⟩

/-- A network with one channel. -/
def network (identity : Bytes) : Network Unit where
  name := none
  identity := some identity
  fields := ⟨some [.plain "#linux"], none, none, none, none⟩
  renamed := ⟨none, none, none, none, none⟩
  autojoin := none
  settings := ()

/-- A config with the identity `tux` and these networks. -/
def configOf (networks : Table (Network Unit)) : Config Unit where
  table := 0
  identities := Table.ofPairs [("tux", tux)]
  networks := networks
  plugins := ∅
  netdefaults := none
  defaultMinQueueInterval := none
  maxQueueSize := none

/-- A bot whose config has no networks. -/
def quiet : State Unit where
  now := 0
  tables := 1
  config := some (configOf ∅)
  clients := ∅
  clientsbyname := ∅
  plugins := ∅
  pluginenvs := ∅
  printed := []

def silent : Surroundings Unit := fun _ _ _ => .silent

theorem sound_quiet : Sound silent quiet := by
  refine ⟨fun c hc => ?_, fun client e he => ?_⟩
  · obtain rfl := Option.some.inj hc
    exact Nat.zero_lt_one
  · cases he

/-- The bot once it has loaded a config with one network: the Client of EsperNet connects. -/
def oneClient : State Unit :=
  ((loadConfig silent (fun _ => .returns)
    (.returns (configOf (Table.ofPairs [("EsperNet", network "tux")])))).pcall quiet).2

theorem sound_oneClient : Sound silent oneClient :=
  sound_loadConfig (fun _ _ _ => Irc.harmless_silent) sound_quiet rfl _

/-- With one Client, a reload that adds a network completes, a file that fails leaves everything as
it was, and a network whose identity does not exist does not. -/
theorem reload_atomic_tux :
    (oneClient.clientsbyname.lookup (lit "EsperNet")).isSome ∧
      Atomic silent (fun _ => .returns) oneClient (.returns (configOf (Table.ofPairs
        [("OFTC", network "tux"), ("EsperNet", network "tux")]))) ∧
      Atomic silent (fun _ => .returns) oneClient (.raises (some (lit "unfinished string"))) ∧
      ¬ Atomic silent (fun _ => .returns) oneClient (.returns (configOf (Table.ofPairs
        [("OFTC", network "nobody"), ("EsperNet", network "tux")]))) := by
  have hiff := fun outcome => @reload_atomic_iff Unit silent (fun _ => .returns) oneClient
    (fun _ _ _ => Irc.harmless_silent) sound_oneClient (by decide +kernel) outcome
  refine ⟨by decide +kernel, (hiff _).mpr ⟨fun entry hentry => ?_, fun entry hentry => ?_⟩,
    (hiff _).mpr trivial, fun hatomic => ?_⟩
  · refine Or.inr ?_
    obtain rfl | rfl := List.mem_pair.mp hentry
    · exact ⟨rfl, "tux", rfl, rfl⟩
    · exact ⟨rfl, "tux", rfl, rfl⟩
  · cases hentry
  · have hnetworks := ((hiff _).mp hatomic).1 ("OFTC", network "nobody")
      (List.mem_pair.mpr (Or.inr rfl))
    obtain hclient | ⟨-, identity, hidentity, hexists⟩ := hnetworks
    · exact absurd hclient (by decide +kernel)
    · obtain rfl := Option.some.inj hidentity
      cases hexists

/-- What is left of the bot: the number of its config, and the state of the Client of a network. -/
def remains (name : Bytes) (s : State Unit) : Option Nat × Option Irc.ClientState :=
  (s.config.map Config.table,
    ((s.clientsbyname.lookup name).bind fun client => s.clients.lookup client).map fun e =>
      e.client.world.session.state)

/-- The second network names an identity that does not exist. The config is replaced all the same,
and the Client of the first network connects. -/
theorem reload_half_done :
    let outcome := Outcome.returns (configOf (Table.ofPairs
      [("OFTC", network "nobody"), ("EsperNet", network "tux")]))
    Sound silent quiet ∧ quiet.config.isSome ∧
      (∃ err t, loadConfig silent (fun _ => .returns) outcome quiet = .error err t ∧
        remains "EsperNet" quiet = (some 0, none) ∧
        remains "EsperNet" t = (some 1, some .connecting)) ∧
      ¬ Atomic silent (fun _ => .returns) quiet outcome := by
  intro outcome
  have hremains : (match loadConfig silent (fun _ => .returns) outcome quiet with
      | .ok _ _ => none
      | .error _ t => some (remains "EsperNet" t)) = some (some 1, some .connecting) := by
    decide +kernel
  cases hrun : loadConfig silent (fun _ => .returns) outcome quiet with
  | ok a t => simp [hrun] at hremains
  | error err t =>
    have hleft : remains "EsperNet" t = (some 1, some .connecting) := by
      simpa [hrun] using hremains
    refine ⟨sound_quiet, rfl, ⟨err, t, rfl, rfl, hleft⟩, ?_⟩
    rw [Atomic, hrun]
    intro hsame
    have htable : t.config.map Config.table = some 1 := congrArg Prod.fst hleft
    rw [hsame.config] at htable
    cases htable

end TuxBot.Bot.Reload
