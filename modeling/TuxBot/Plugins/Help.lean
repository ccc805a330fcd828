import TuxBot.Irc.Wire
import TuxBot.Lua.Effect
import TuxBot.Lua.ReadLine
import TuxBot.Lua.Table
import TuxBot.Machine

/-! The help plugin: texts in a cache, and the file that the cache is loaded from. -/
namespace TuxBot.Plugins

open TuxBot.Lua TuxBot.Lua.Pattern TuxBot.Irc TuxBot.Machine

/-- The plugin: its file, if there is one, the table `cache` and what was replied. A file that is
opened for writing can be opened. -/
structure Help where
  db : Option Bytes
  cache : Table Bytes
  replies : List Bytes
  deriving DecidableEq

namespace Help

/-- `'^([^ ]+) ([^ ].*)'` -/
def linePattern : List (Item UInt8) :=
  [.start, .plus (noneOf " "), .stop, .one (oneOf " "), .start, .one (noneOf " "), .star anyByte, .stop]

/-- `'^ *([^ ]+) +([^ ].*)'` -/
def sethelpPattern : List (Item UInt8) :=
  [.star (oneOf " "), .start, .plus (noneOf " "), .stop, .plus (oneOf " "), .start,
    .one (noneOf " "), .star anyByte, .stop]

/-- `'^ *([^ ]+) *$'` -/
def rmhelpPattern : List (Item UInt8) :=
  [.star (oneOf " "), .start, .plus (noneOf " "), .stop, .star (oneOf " "), .eos]

/-- The two captures of a match, if that is what it has. -/
def twoCaptures (m : Option (Match UInt8)) : Option (Bytes × Bytes) :=
  match m.map Match.values with
  | some [key, text] => some (key, text)
  | _ => none

def loadLine (line : Bytes) : Option (Bytes × Bytes) := twoCaptures (matchHere linePattern line)

/-- What the plugin loads: of two lines with one key the later counts. -/
def load (size : Nat) (db : Option Bytes) : Table Bytes :=
  match db with
  | some file => Table.ofPairs ((fileLines size file).filterMap loadLine)
  | none => ∅

/-- `('%s %s\n'):format(key, text)` -/
def formatLine (entry : Bytes × Bytes) : Bytes :=
  formatString entry.1 ++ lit " " ++ formatString entry.2 ++ lit "\n"

/-- An order in which `pairs` may go through the cache. -/
abbrev Traversal := { order : List (Bytes × Bytes) → List (Bytes × Bytes) // ∀ es, (order es).Perm es }

def writedb (pairs : Traversal) (s : Help) : Help :=
  { s with db := some ((pairs.1 s.cache.pairs).flatMap formatLine) }

def sethelp (pairs : Traversal) (key : Bytes) (text : Option Bytes) (s : Help) : Help :=
  match text with
  | some text =>
    if (s.cache.lookup key).isSome then
      writedb pairs { s with cache := s.cache.insert key text }
    else
      { s with
        cache := s.cache.insert key text
        db := some (s.db.getD [] ++ formatLine (key, text)) }
  | none =>
    if (s.cache.lookup key).isSome then writedb pairs { s with cache := s.cache.erase key } else s

/-- `bot.reply(msg, msg.sender.nick..': '..text)` -/
def reply (nick : Option Bytes) (text : Bytes) : Eff Help Unit :=
  match nick with
  | some nick => modify fun s => { s with replies := s.replies ++ [nick ++ lit ": " ++ text] }
  | none => throw "attempt to concatenate field 'nick' (a nil value)"

/-- `check` is how `bot.plugins.perms.check` ended. -/
def sethelpHandler (pairs : Traversal) (check : Except String Bool) (nick : Option Bytes)
    (arg : Bytes) : Eff Help Unit :=
  match check with
  | .error e => throw e
  | .ok false => reply nick "You are not permitted to use this command."
  | .ok true =>
    match twoCaptures (matchHere sethelpPattern arg) with
    | some (key, text) => modify (sethelp pairs (lower key) (some text))
    | none => reply nick "Usage: sethelp <key> <text>"

def rmhelpHandler (pairs : Traversal) (check : Except String Bool) (nick : Option Bytes)
    (arg : Bytes) : Eff Help Unit :=
  match check with
  | .error e => throw e
  | .ok false => reply nick "You are not permitted to use this command."
  | .ok true =>
    match capture (matchHere rmhelpPattern arg) with
    | some key => modify (sethelp pairs (lower key) none)
    | none => reply nick "Usage: rmhelp <key>"

/-- The commands that change texts, with the nick of the sender. -/
inductive Command where
  | sethelp (pairs : Traversal) (check : Except String Bool) (nick : Option Bytes) (arg : Bytes)
  | rmhelp (pairs : Traversal) (check : Except String Bool) (nick : Option Bytes) (arg : Bytes)

def step (s : Help) : Command → Option Help
  | .sethelp pairs check nick arg => some ((sethelpHandler pairs check nick arg).pcall s).2
  | .rmhelp pairs check nick arg => some ((rmhelpHandler pairs check nick arg).pcall s).2

/-- The plugin has just been loaded. -/
def start (size : Nat) (db : Option Bytes) : Help := ⟨db, load size db, []⟩

/-- The file holds the cache. -/
def Persists (size : Nat) (s : Help) : Prop :=
  ∀ key, (load size s.db).lookup key = s.cache.lookup key

/-- A text is set under a key that both fit in a line, and a line is appended only where one may
begin. -/
def Fits (size : Nat) (s : Help) : Command → Prop
  | .sethelp _ check _ arg => check = .ok true → ∀ e ∈ twoCaptures (matchHere sethelpPattern arg),
    OneLine (lower e.1) ∧ OneLine e.2 ∧
      ((s.cache.lookup (lower e.1)).isNone → (Reader.read size (s.db.getD [])).AtLineStart)
  | .rmhelp .. => True

instance decidableFits (size : Nat) (s : Help) (c : Command) : Decidable (Fits size s c) := by
  cases c <;> unfold Fits <;> infer_instance

variable {size : Nat} {key text line arg : Bytes} {s t : Help} {es : List (Bytes × Bytes)}

/-! ### Lines -/

/-- A key and a text that a line can hold. -/
structure Entry (e : Bytes × Bytes) : Prop where
  key_ne : e.1 ≠ []
  key : ∀ b ∈ e.1, b ≠ 32
  text : ∃ b u, e.2 = b :: u ∧ b ≠ 32

theorem noneOf_space {b : UInt8} : noneOf (lit " ") b = true ↔ b ≠ 32 := by simp [noneOf, lit]

theorem oneOf_space {b : UInt8} : oneOf (lit " ") b = true ↔ b = 32 := by simp [oneOf, lit]

/-- A capture of all that is left, which does not begin with a space. -/
theorem doMatch_text {u : Bytes} {b : UInt8} (cs : List (Capture UInt8)) (hb : b ≠ 32) :
    doMatch [.start, .one (noneOf " "), .star anyByte, .stop] cs (b :: u) =
      some (.closed (b :: u) :: cs, []) := by
  rw [doMatch_start, doMatch_one (noneOf_space.mpr hb), doMatch_star]
  have hall := maxExpand_append (c := anyByte) (u := u) (v := [])
    (k := doMatch [.stop] (.unfinished (b :: u) :: cs)) (fun _ _ => rfl) nofun
    (r := (.closed (b :: u) :: cs, [])) (by simp [doMatch, endCapture])
  rwa [List.append_nil] at hall

theorem text_of_doMatch {x : Bytes} {cs cs' : List (Capture UInt8)} {rest : Bytes}
    (h : doMatch [.start, .one (noneOf " "), .star anyByte, .stop] cs x = some (cs', rest)) :
    ∃ b u, x = b :: u ∧ b ≠ 32 ∧ cs' = .closed x :: cs ∧ rest = [] := by
  cases x with
  | nil => simp [doMatch] at h
  | cons b u =>
    by_cases hb : b = 32
    · subst hb
      simp [doMatch, noneOf, lit] at h
    · rw [doMatch_text cs hb] at h
      cases h
      exact ⟨b, u, rfl, hb, rfl, rfl⟩

/-- The loader reads back an entry. -/
theorem loadLine_entry {e : Bytes × Bytes} (h : Entry e) : loadLine (e.1 ++ 32 :: e.2) = some e := by
  obtain ⟨key, text⟩ := e
  obtain ⟨b, u, rfl, hb⟩ := h.text
  obtain ⟨a, key, rfl⟩ := List.exists_cons_of_ne_nil h.key_ne
  have hkey : ∀ x ∈ key, noneOf (lit " ") x = true := fun x hx =>
    noneOf_space.mpr (h.key x (List.mem_cons_of_mem a hx))
  have hm : doMatch linePattern [] ((a :: key) ++ 32 :: (b :: u)) =
      some ([.closed (b :: u), .closed (a :: key)], []) := by
    rw [linePattern, doMatch_start, List.cons_append,
      doMatch_plus (noneOf_space.mpr (h.key a List.mem_cons_self))]
    refine maxExpand_append hkey (by simp [noneOf, lit]) ?_
    have hstop := endCapture_append (a :: key) (32 :: b :: u) []
    rw [List.cons_append] at hstop
    rw [doMatch_stop, hstop, doMatch_one rfl]
    exact doMatch_text _ hb
  rw [loadLine, matchHere, hm]
  rfl

/-- A capture that is a key. -/
theorem key_of_doMatch {p : List (Item UInt8)} {x : Bytes} {cs : List (Capture UInt8)} {rest : Bytes}
    (h : doMatch (.start :: .plus (noneOf " ") :: .stop :: p) [] x = some (cs, rest)) :
    ∃ key y, x = key ++ y ∧ key ≠ [] ∧ (∀ b ∈ key, b ≠ 32) ∧
      doMatch p [.closed key] y = some (cs, rest) := by
  rw [doMatch_start] at h
  cases x with
  | nil => simp [doMatch] at h
  | cons a x =>
    by_cases ha : noneOf (lit " ") a = true
    · rw [doMatch_plus ha] at h
      obtain ⟨u, y, rfl, hu, hy⟩ := maxExpand_split h
      have hstop := endCapture_append (a :: u) y []
      rw [List.cons_append] at hstop
      rw [doMatch_stop, hstop] at hy
      refine ⟨a :: u, y, rfl, List.cons_ne_nil a u, fun b hb => ?_, hy⟩
      rcases List.mem_cons.mp hb with rfl | hb
      · exact noneOf_space.mp ha
      · exact noneOf_space.mp (hu b hb)
    · simp [doMatch, ha] at h

theorem values_of_closed {x : Bytes} {p : List (Item UInt8)} (rest : Bytes)
    (h : doMatch p [] x = some ([.closed text, .closed key], rest)) :
    twoCaptures (matchHere p x) = some (key, text) := by
  rw [matchHere, h]
  rfl

/-- What the loader accepts is an entry, and the line is made of it. -/
theorem entry_of_loadLine {e : Bytes × Bytes} (h : loadLine line = some e) :
    Entry e ∧ line = e.1 ++ 32 :: e.2 := by
  cases hm : doMatch linePattern [] line with
  | none => simp [loadLine, matchHere, hm, twoCaptures] at h
  | some result =>
    obtain ⟨cs, rest⟩ := result
    obtain ⟨key, y, rfl, hne, hkey, hy⟩ := key_of_doMatch hm
    cases y with
    | nil => simp [doMatch] at hy
    | cons d z =>
      by_cases hd : oneOf (lit " ") d = true
      · rw [doMatch_one hd] at hy
        obtain ⟨b, u, hz, hb, rfl, rfl⟩ := text_of_doMatch hy
        have hvalues : loadLine (key ++ d :: z) = some (key, z) := values_of_closed [] hm
        cases hvalues.symm.trans h
        exact ⟨⟨hne, hkey, b, u, hz, hb⟩, by rw [oneOf_space.mp hd]⟩
      · simp [doMatch, hd] at hy

/-- What `sethelp` takes is an entry. -/
theorem entry_of_sethelp (h : twoCaptures (matchHere sethelpPattern arg) = some (key, text)) :
    Entry (key, text) := by
  cases hm : doMatch sethelpPattern [] arg with
  | none => simp [matchHere, hm, twoCaptures] at h
  | some result =>
    obtain ⟨cs, rest⟩ := result
    have hall := hm
    rw [sethelpPattern, doMatch_star] at hm
    obtain ⟨_, x, rfl, -, hx⟩ := maxExpand_split hm
    obtain ⟨key', y, rfl, hne, hkey, hy⟩ := key_of_doMatch hx
    cases y with
    | nil => simp [doMatch] at hy
    | cons d z =>
      by_cases hd : oneOf (lit " ") d = true
      · rw [doMatch_plus hd] at hy
        obtain ⟨_, z', rfl, -, hz'⟩ := maxExpand_split hy
        obtain ⟨b, u, hz, hb, rfl, rfl⟩ := text_of_doMatch hz'
        cases (values_of_closed [] hall).symm.trans h
        exact ⟨hne, hkey, b, u, hz, hb⟩
      · simp [doMatch, hd] at hy

theorem lower_space {b : UInt8} (hb : b ≠ 32) : toLower b ≠ 32 := by
  revert hb
  exact forall_byte (P := fun b => b ≠ 32 → toLower b ≠ 32) (by decide +kernel) b

theorem entry_lower (h : Entry (key, text)) : Entry (lower key, text) where
  key_ne := by simpa [lower] using h.key_ne
  key := by
    intro b hb
    obtain ⟨a, ha, rfl⟩ := List.mem_map.mp hb
    exact lower_space (h.key a ha)
  text := h.text

/-! ### The file and the cache -/

/-- An entry of the file takes one line. -/
def Storable (e : Bytes × Bytes) : Prop := Entry e ∧ OneLine e.1 ∧ OneLine e.2

theorem formatString_eq {x : Bytes} (h : OneLine x) : formatString x = x :=
  formatString_of_ne_zero fun b hb => (h b hb).2

theorem formatLine_eq {e : Bytes × Bytes} (h : Storable e) :
    formatLine e = (e.1 ++ 32 :: e.2) ++ [10] := by
  rw [formatLine, formatString_eq h.2.1, formatString_eq h.2.2]
  simp [lit]

theorem oneLine_entry {e : Bytes × Bytes} (h : Storable e) : OneLine (e.1 ++ 32 :: e.2) := by
  intro b hb
  rcases List.mem_append.mp hb with hb | hb
  · exact h.2.1 b hb
  rcases List.mem_cons.mp hb with rfl | hb
  · decide
  · exact h.2.2 b hb

theorem flatMap_formatLine (hes : ∀ e ∈ es, Storable e) :
    es.flatMap formatLine = (es.map fun e => e.1 ++ 32 :: e.2).flatMap fun line => line ++ [10] := by
  induction es with
  | nil => rfl
  | cons e es ih =>
    rw [List.flatMap_cons, List.map_cons, List.flatMap_cons,
      ih fun x hx => hes x (List.mem_cons_of_mem e hx), formatLine_eq (hes e List.mem_cons_self)]

theorem filterMap_loadLine (hes : ∀ e ∈ es, Storable e) :
    (es.map fun e => e.1 ++ 32 :: e.2).filterMap loadLine = es := by
  induction es with
  | nil => rfl
  | cons e es ih =>
    rw [List.map_cons, List.filterMap_cons, loadLine_entry (hes e List.mem_cons_self).1,
      ih fun x hx => hes x (List.mem_cons_of_mem e hx)]

/-- The loader reads back what `writedb` wrote. -/
theorem load_written (hes : ∀ e ∈ es, Storable e) :
    load size (some (es.flatMap formatLine)) = Table.ofPairs es := by
  rw [load, flatMap_formatLine hes, fileLines_flatMap, filterMap_loadLine hes]
  intro line hline
  obtain ⟨e, he, rfl⟩ := List.mem_map.mp hline
  exact oneLine_entry (hes e he)

/-- The loader reads what was appended after the rest. -/
theorem load_appended {e : Bytes × Bytes} (db : Option Bytes) (he : Storable e)
    (hstart : (Reader.read size (db.getD [])).AtLineStart) {x : Bytes} :
    (load size (some (db.getD [] ++ formatLine e))).lookup x =
      if x = e.1 then some e.2 else (load size db).lookup x := by
  have hold : load size db = Table.ofPairs ((fileLines size (db.getD [])).filterMap loadLine) := by
    cases db <;> rfl
  rw [hold, load, formatLine_eq he, fileLines_append (oneLine_entry he) hstart,
    List.filterMap_append, List.filterMap_cons, loadLine_entry he.1, List.filterMap_nil,
    Table.lookup_ofPairs_snoc]

/-- What is loaded can be stored. -/
theorem storable_load {db : Option Bytes} (h : (load size db).lookup key = some text) :
    Storable (key, text) := by
  cases db with
  | none => cases h
  | some file =>
    obtain ⟨line, hline, he⟩ := List.mem_filterMap.mp (Table.mem_of_lookup_ofPairs h)
    obtain ⟨hentry, rfl⟩ := entry_of_loadLine he
    have hone := oneLine_of_mem_fileLines hline
    exact ⟨hentry, fun b hb => hone b (List.mem_append_left _ hb),
      fun b hb => hone b (List.mem_append_right _ (List.mem_cons_of_mem 32 hb))⟩

/-! ### Every run -/

structure Inv (size : Nat) (s : Help) : Prop where
  persists : Persists size s
  storable : ∀ key text, s.cache.lookup key = some text → Storable (key, text)

theorem inv_writedb (pairs : Traversal)
    (hs : ∀ key text, s.cache.lookup key = some text → Storable (key, text)) :
    Inv size (writedb pairs s) := by
  refine ⟨fun key => ?_, hs⟩
  have hstorable : ∀ e ∈ pairs.1 s.cache.pairs, Storable e := fun e he =>
    hs e.1 e.2 (Table.mem_pairs.mp ((pairs.2 _).mem_iff.mp he))
  have hnodup : ((pairs.1 s.cache.pairs).map Prod.fst).Nodup :=
    ((pairs.2 _).map Prod.fst).nodup_iff.mpr s.cache.nodup_pairs
  ext text
  rw [writedb, load_written hstorable]
  exact (Table.lookup_ofPairs hnodup).trans ((pairs.2 _).mem_iff.trans Table.mem_pairs)

theorem inv_set {pairs : Traversal} (h : Inv size s) (he : Storable (key, text))
    (hstart : (s.cache.lookup key).isNone → (Reader.read size (s.db.getD [])).AtLineStart) :
    Inv size (sethelp pairs key (some text) s) := by
  have hstorable : ∀ x y, (s.cache.insert key text).lookup x = some y → Storable (x, y) := by
    intro x y hxy
    rw [Table.lookup_insert] at hxy
    split at hxy
    · rename_i hx
      cases hxy
      exact hx ▸ he
    · exact h.storable x y hxy
  simp only [sethelp]
  split
  · exact inv_writedb pairs hstorable
  · rename_i hnone
    refine ⟨fun x => ?_, hstorable⟩
    have hnew := hstart (by simpa using hnone)
    rw [load_appended s.db he hnew, h.persists x, Table.lookup_insert]

theorem inv_remove {pairs : Traversal} (h : Inv size s) :
    Inv size (sethelp pairs key none s) := by
  simp only [sethelp]
  split
  · refine inv_writedb pairs fun x y hxy => ?_
    rw [Table.lookup_erase] at hxy
    split at hxy
    · cases hxy
    · exact h.storable x y hxy
  · exact h

theorem inv_reply {nick : Option Bytes} {answer : Bytes} (h : Inv size s) :
    Inv size ((reply nick answer).pcall s).2 := by
  cases nick with
  | none => exact h
  | some nick => exact ⟨h.persists, h.storable⟩

theorem inv_step {c : Command} (h : Inv size s) (hfits : Fits size s c) (hstep : step s c = some t) :
    Inv size t := by
  cases c with
  | sethelp pairs check nick arg =>
    obtain rfl := Option.some.inj hstep
    match check with
    | .error e => exact h
    | .ok false => exact inv_reply h
    | .ok true =>
      rw [sethelpHandler]
      cases hargs : twoCaptures (matchHere sethelpPattern arg) with
      | none => exact inv_reply h
      | some captures =>
        obtain ⟨key, text⟩ := captures
        obtain ⟨hkey, htext, hstart⟩ := hfits rfl (key, text) hargs
        exact inv_set h ⟨entry_lower (entry_of_sethelp hargs), hkey, htext⟩ hstart
  | rmhelp pairs check nick arg =>
    obtain rfl := Option.some.inj hstep
    match check with
    | .error e => exact h
    | .ok false => exact inv_reply h
    | .ok true =>
      rw [rmhelpHandler]
      cases capture (matchHere rmhelpPattern arg) with
      | none => exact inv_reply h
      | some key => exact inv_remove h

/-- After every command of a run whose keys and texts fit, the file holds the cache. -/
theorem help_persists {db : Option Bytes} {commands : List Command}
    (hfits : Along step (Fits size) (start size db) commands)
    (hrun : run step (start size db) commands = some t) : Persists size t :=
  (run_keeps_along (I := Inv size) (fun _ _ _ h hfits hstep => inv_step h hfits hstep)
    ⟨fun _ => rfl, fun _ _ h => storable_load h⟩ hfits hrun).persists

/-- The examples go through the cache as it is. -/
def inOrder : Traversal := ⟨id, List.Perm.refl⟩

/-- The arguments of commands as they come from the server. -/
def setHelp (arg : Bytes) : Command := .sethelp inOrder (.ok true) (some "Ann") (lowlevelDequote arg)

def luaTexts : List Command :=
  [setHelp " lua A language", setHelp " Lua  Brazilian", .rmhelp inOrder (.ok true) none " C"]

theorem help_persists_lua : ∃ t, run step (start 8190 none) luaTexts = some t ∧ Persists 8190 t := by
  have hfits : Along step (Fits 8190) (start 8190 none) luaTexts := by decide +kernel
  exact ⟨_, rfl, help_persists hfits rfl⟩

/-- A quoted newline in a text ends the line of the file. -/
theorem newline_splits_text : ∃ t,
    run step (start 8190 none) [setHelp (lit " lua A language" ++ [16] ++ lit "nfrom Brazil")] = some t ∧
      t.cache.pairs = [(lit "lua", lit "A language" ++ [10] ++ lit "from Brazil")] ∧
      (load 8190 t.db).pairs = [(lit "from", lit "Brazil"), (lit "lua", lit "A language")] ∧
      ¬ Persists 8190 t := by
  have hrun : (run step (start 8190 none)
      [setHelp (lit " lua A language" ++ [16] ++ lit "nfrom Brazil")]).map
        (fun t => (t.cache.pairs, (load 8190 t.db).pairs)) =
      some ([(lit "lua", lit "A language" ++ [10] ++ lit "from Brazil")],
        [(lit "from", lit "Brazil"), (lit "lua", lit "A language")]) := by
    decide +kernel
  obtain ⟨t, ht, hseen⟩ := Option.map_eq_some_iff.mp hrun
  obtain ⟨hcache, hdb⟩ := Prod.mk.inj hseen
  refine ⟨t, ht, hcache, hdb, fun h => ?_⟩
  have hloaded : (load 8190 t.db).lookup (lit "from") = some (lit "Brazil") :=
    Table.mem_pairs.mp (hdb ▸ List.mem_cons_self)
  have hcached := Table.mem_pairs.mpr ((h (lit "from")).symm.trans hloaded)
  rw [hcache] at hcached
  exact absurd hcached (by decide +kernel)

end Help

end TuxBot.Plugins
