import TuxBot.Plugins.UrlTitle

/-! Which hosts urltitle connects to: the whitelist walk, and where the check and the use of a URL
agree. -/
namespace TuxBot.Plugins.UrlTitle

open TuxBot.Lua TuxBot.Lua.Pattern TuxBot.Irc TuxBot.Machine

/-- A host is covered by an entry equal to it, or to what follows one of its dots. -/
def Covered (whitelist : List Bytes) (addr : Bytes) : Prop :=
  addr ∈ whitelist ∨ ∃ pre rest, addr = pre ++ 46 :: rest ∧ rest ∈ whitelist

section Walk

variable {whitelist : List Bytes} {addr rest : Bytes} {b : UInt8}

/-- What follows the first dot that something follows. -/
def afterDot : Bytes → Option Bytes
  | [] => none
  | b :: s => if b = 46 ∧ s ≠ [] then some s else afterDot s

theorem doMatch_labelPattern (b : UInt8) (s : Bytes) :
    doMatch labelPattern [] (b :: s) = if b = 46 ∧ s ≠ [] then some ([.closed s], []) else none := by
  by_cases hb : b = 46
  · subst hb
    rw [labelPattern, doMatch_one rfl, doMatch_start]
    cases s with
    | nil => rfl
    | cons d s =>
      rw [doMatch_plus rfl]
      have hclose := endCapture_append (d :: s) [] []
      simp only [List.append_nil] at hclose
      have hrun := maxExpand_append (c := anyByte) (u := s) (v := [])
        (k := doMatch [.stop, .eos] [.unfinished (d :: s)]) (fun _ _ => rfl) (by simp)
        (by rw [doMatch_stop, hclose]; rfl)
      rw [List.append_nil] at hrun
      simpa using hrun
  · have hdot : oneOf "." b = false := by simpa [oneOf, lit] using hb
    simp [labelPattern, doMatch, hdot, hb]

theorem search_labelPattern (addr : Bytes) :
    capture (search labelPattern addr) = afterDot addr := by
  induction addr with
  | nil => rfl
  | cons b s ih =>
    have hhere := capture_matchHere (p := labelPattern) (s := b :: s)
    rw [doMatch_labelPattern] at hhere
    rw [search, afterDot]
    by_cases h : b = 46 ∧ s ≠ []
    · rw [if_pos h] at hhere
      cases hm : matchHere labelPattern (b :: s) with
      | none => simp [hm, capture] at hhere
      | some m =>
        rw [hm] at hhere
        simpa [h, Capture.text] using hhere
    · have hnone : matchHere labelPattern (b :: s) = none := by
        apply matchHere_of_none
        rw [doMatch_labelPattern, if_neg h]
      simpa [hnone, h] using ih

theorem afterDot_some (h : afterDot addr = some rest) :
    rest ≠ [] ∧ ∃ pre, addr = pre ++ 46 :: rest := by
  induction addr with
  | nil => cases h
  | cons b s ih =>
    by_cases hb : b = 46 ∧ s ≠ []
    · obtain rfl : s = rest := by simpa [afterDot, hb] using h
      exact ⟨hb.2, [], by simp [hb.1]⟩
    · obtain ⟨hne, pre, rfl⟩ := ih (by simpa [afterDot, hb] using h)
      exact ⟨hne, b :: pre, rfl⟩

/-- Every dot that something follows is reached by the walk. -/
theorem afterDot_append (pre : Bytes) (hne : rest ≠ []) :
    ∃ r, afterDot (pre ++ 46 :: rest) = some r ∧ (r = rest ∨ ∃ pre', r = pre' ++ 46 :: rest) := by
  induction pre with
  | nil => exact ⟨rest, by simp [afterDot, hne], Or.inl rfl⟩
  | cons b pre ih =>
    by_cases hb : b = 46
    · exact ⟨pre ++ 46 :: rest, by simp [afterDot, hb], Or.inr ⟨pre, rfl⟩⟩
    · obtain ⟨r, hr, hcases⟩ := ih
      exact ⟨r, by simpa [afterDot, hb] using hr, hcases⟩

/-- How the loop of `msghandler` ends for a host, if it does. -/
inductive Walks (whitelist : List Bytes) : Bytes → Bool → Prop
  | found {addr : Bytes} (hin : addr ∈ whitelist) : Walks whitelist addr true
  | ended {addr : Bytes} (hin : addr ∉ whitelist)
      (hmatch : capture (search labelPattern addr) = none) : Walks whitelist addr false
  | next {addr rest : Bytes} {ok : Bool} (hin : addr ∉ whitelist)
      (hmatch : capture (search labelPattern addr) = some rest) (hrest : Walks whitelist rest ok) :
      Walks whitelist addr ok

/-- An entry is the host, or a remainder of it that starts just after a dot. -/
def Admits (whitelist : List Bytes) (addr : Bytes) : Prop :=
  addr ∈ whitelist ∨ ∃ pre rest, addr = pre ++ 46 :: rest ∧ rest ≠ [] ∧ rest ∈ whitelist

theorem afterDot_length (h : afterDot addr = some rest) : rest.length < addr.length := by
  obtain ⟨-, pre, rfl⟩ := afterDot_some h
  simp only [List.length_append, List.length_cons]
  omega

/-- What is left after the first dot is admitted exactly when an entry follows some dot. -/
theorem admits_afterDot (h : afterDot addr = some rest) (hin : addr ∉ whitelist) :
    Admits whitelist addr ↔ Admits whitelist rest := by
  obtain ⟨hne, pre, rfl⟩ := afterDot_some h
  constructor
  · rintro (hmem | ⟨pre', rest', he, hne', hmem⟩)
    · exact absurd hmem hin
    · obtain ⟨r, hr, hcases⟩ := afterDot_append pre' hne'
      obtain rfl : rest = r := by
        rw [he, hr] at h
        exact (Option.some.inj h).symm
      rcases hcases with rfl | ⟨pre'', rfl⟩
      · exact Or.inl hmem
      · exact Or.inr ⟨pre'', rest', rfl, hne', hmem⟩
  · rintro (hmem | ⟨pre', rest', rfl, hne', hmem⟩)
    · exact Or.inr ⟨pre, rest, rfl, hne, hmem⟩
    · exact Or.inr ⟨pre ++ 46 :: pre', rest', by simp, hne', hmem⟩

/-- Without a dot that something follows, only the host itself can be an entry. -/
theorem admits_of_afterDot_none (h : afterDot addr = none) :
    Admits whitelist addr ↔ addr ∈ whitelist := by
  refine ⟨?_, Or.inl⟩
  rintro (hmem | ⟨pre, rest, rfl, hne, -⟩)
  · exact hmem
  · obtain ⟨r, hr, -⟩ := afterDot_append pre hne
    rw [hr] at h
    cases h

/-- A round for each byte is enough, so the loop ends. -/
theorem walks_whitelistedN {n : Nat} (hn : addr.length < n) :
    Walks whitelist addr (whitelistedN whitelist n addr) := by
  induction n generalizing addr with
  | zero => omega
  | succ n ih =>
    by_cases hin : addr ∈ whitelist
    · simpa [whitelistedN, hin] using Walks.found hin
    · cases hdot : afterDot addr with
      | none =>
        have hmatch := (search_labelPattern addr).trans hdot
        simpa [whitelistedN, hin, hmatch] using Walks.ended hin hmatch
      | some rest =>
        have hmatch := (search_labelPattern addr).trans hdot
        have hlt := afterDot_length hdot
        have hrest : Walks whitelist rest (whitelistedN whitelist n rest) := ih (by omega)
        simpa [whitelistedN, hin, hmatch] using Walks.next hin hmatch hrest

/-- However the loop ends, it tells whether the host is admitted. -/
theorem Walks.admits {ok : Bool} (h : Walks whitelist addr ok) :
    ok = true ↔ Admits whitelist addr := by
  induction h with
  | found hin => exact iff_of_true rfl (Or.inl hin)
  | ended hin hmatch =>
    rw [search_labelPattern] at hmatch
    rw [admits_of_afterDot_none hmatch]
    simpa using hin
  | next hin hmatch _ ih =>
    rw [search_labelPattern] at hmatch
    rw [admits_afterDot hmatch hin]
    exact ih

/-- An entry admits a longer host only where a dot stands before it. -/
theorem admits_append {pre entry : Bytes} (h : Admits [entry] (pre ++ entry)) (hne : pre ≠ []) :
    pre.getLast? = some 46 := by
  rcases h with hmem | ⟨pre', rest, he, -, hmem⟩
  · exact absurd (List.append_left_eq_self.mp (List.mem_singleton.mp hmem)) hne
  · obtain rfl := List.mem_singleton.mp hmem
    have hpre : pre = pre' ++ [46] := List.append_cancel_right (he.trans (by simp))
    simp [hpre]

/-- The loop ends for every host, always in one way, and admits it exactly if it or what follows one
of its dots is an entry. -/
theorem walks_iff (whitelist : List Bytes) (addr : Bytes) :
    (∀ ok, Walks whitelist addr ok ↔ whitelisted whitelist addr = ok) ∧
      (whitelisted whitelist addr = true ↔ Admits whitelist addr) ∧
      ∀ pre entry, pre ≠ [] → pre.getLast? ≠ some 46 →
        whitelisted [entry] (pre ++ entry) = false := by
  have hends (whitelist : List Bytes) (addr : Bytes) :
      Walks whitelist addr (whitelisted whitelist addr) := walks_whitelistedN (Nat.lt_succ_self _)
  refine ⟨fun ok => ⟨fun h => ?_, fun h => h ▸ hends whitelist addr⟩, (hends whitelist addr).admits,
    fun pre entry hne hdot => ?_⟩
  · exact Bool.eq_iff_iff.mpr ((hends whitelist addr).admits.trans h.admits.symm)
  · by_contra htrue
    exact hdot (admits_append ((hends _ _).admits.mp (Bool.eq_true_of_not_eq_false htrue)) hne)

theorem Admits.covered (h : Admits whitelist addr) : Covered whitelist addr := by
  rcases h with hin | ⟨pre, rest, he, -, hin⟩
  · exact Or.inl hin
  · exact Or.inr ⟨pre, rest, he, hin⟩

theorem whitelisted_covered (h : whitelisted whitelist addr = true) : Covered whitelist addr :=
  ((walks_whitelistedN (Nat.lt_succ_self _)).admits.mp h).covered

/-- The walk accepts a host exactly when an entry covers it, but for an empty entry. -/
theorem whitelisted_iff (hne : [] ∉ whitelist) :
    whitelisted whitelist addr = true ↔ Covered whitelist addr := by
  refine ⟨whitelisted_covered, fun h => (walks_whitelistedN (Nat.lt_succ_self _)).admits.mpr ?_⟩
  rcases h with hin | ⟨pre, rest, he, hin⟩
  · exact Or.inl hin
  · exact Or.inr ⟨pre, rest, he, fun h => hne (h ▸ hin), hin⟩

end Walk

section Host

variable {cfg : Config} {p q : Plugin} {msg : Message} {url addr : Bytes} {i : Input}

theorem doMatch_literal (u : Bytes) (p : List (Item UInt8)) (cs : List (Capture UInt8))
    (s : Bytes) : doMatch (literal u ++ p) cs (u ++ s) = doMatch p cs s := by
  induction u with
  | nil => rfl
  | cons b u ih =>
    rw [literal, List.map_cons, List.cons_append, List.cons_append,
      doMatch_one (by simp [oneOf])]
    exact ih

/-- The check and the use of a plain http URL read the same host. -/
theorem checkPattern_http (rest : Bytes) :
    doMatch checkPattern [] (lit "http://" ++ rest) = doMatch hostItems [] rest := by
  have hforced : maxExpand isAlnum (doMatch (literal "://" ++ hostItems) [])
      (lit "ttp" ++ (lit "://" ++ rest)) =
      doMatch (literal "://" ++ hostItems) [] (lit "://" ++ rest) := by
    apply maxExpand_forced
    · decide +kernel
    · intro b hb
      obtain rfl : b = 58 := by simpa [lit] using hb.symm
      rfl
    · intro x hx hne
      obtain ⟨b, x, rfl⟩ := List.exists_cons_of_ne_nil hne
      have hb : ∀ b ∈ lit "ttp", oneOf [58] b = false := by decide +kernel
      have hcolon := hb b (hx.subset (by simp))
      simp [literal, lit, doMatch, hcolon]
  rw [doMatch_literal] at hforced
  exact (doMatch_plus rfl).trans hforced

theorem addressPattern_http (rest : Bytes) :
    doMatch addressPattern [] (lit "http://" ++ rest) = doMatch hostItems [] rest :=
  doMatch_literal _ _ _ _

theorem address_of_http (hurl : lit "http://" <+: url)
    (hcheck : capture (matchHere checkPattern url) = some addr) :
    capture (search addressPattern url) = some addr := by
  obtain ⟨rest, rfl⟩ := hurl
  rw [capture_matchHere, checkPattern_http, ← addressPattern_http, ← capture_matchHere] at hcheck
  cases hm : matchHere addressPattern (lit "http://" ++ rest) with
  | none => simp [hm, capture] at hcheck
  | some m =>
    have hsearch : search addressPattern (lit "http://" ++ rest) = some m := by
      have hcons : lit "http://" ++ rest = 104 :: (lit "ttp://" ++ rest) := rfl
      rw [hcons] at hm ⊢
      rw [search, hm]
      rfl
    rw [hsearch]
    simpa [hm] using hcheck

/-- The host `gettitle` would connect to for a URL. -/
def fetchAddress (cfg : Config) (url : Bytes) : Option Bytes :=
  if cfg.extensionBlacklist.any fun ext => (search ext (lower url)).isSome then none
  else capture (search addressPattern url)

theorem address_gettitle (cfg : Config) (msg : Message) (url : Bytes) (redirected : Bool) :
    (gettitle cfg msg url redirected).map Fetch.address = fetchAddress cfg url := by
  unfold gettitle fetchAddress
  split
  · rfl
  · simp [Option.map_map, Function.comp_def]

/-- The checked URL asks the host that was checked when it is a plain http URL. -/
theorem covered_of_http {text : Bytes} (h : checkedUrl cfg.whitelist text = some url)
    (hurl : lit "http://" <+: url) (haddr : fetchAddress cfg url = some addr) :
    Covered cfg.whitelist addr := by
  unfold checkedUrl at h
  cases hm : search urlPattern text with
  | none => simp [hm] at h
  | some m =>
    simp only [hm] at h
    split at h
    · cases h
    · rename_i host hhost
      split at h
      · rename_i hok
        obtain rfl := Option.some.inj h
        have huse := address_of_http hurl hhost
        unfold fetchAddress at haddr
        split at haddr
        · cases haddr
        · obtain rfl : host = addr := by simpa [huse] using haddr
          exact whitelisted_covered hok
      · cases h

/-- Every host the plugin has connected to is on the whitelist. -/
def OnlyCovered (cfg : Config) (p : Plugin) : Prop :=
  ∀ addr, Act.connect addr ∈ p.log → Covered cfg.whitelist addr

/-- The Location that a resumed coroutine would follow. -/
def Plugin.followed (p : Plugin) (i : Nat) (ev : Event) : Option Bytes :=
  match p.fetches[i]?.bind fun f => f.round ev with
  | some (.follow location) => some location
  | _ => none

/-- A message whose checked URL is plain http, or asks a covered host or none; a reply that
redirects to a covered host or to none. -/
def SafeInput (cfg : Config) (p : Plugin) : Input → Prop
  | .message msg => msg.cmd = lit "PRIVMSG" →
    ∀ url, msg.args[1]?.bind (checkedUrl cfg.whitelist) = some url → lit "http://" <+: url ∨
      ∀ addr, fetchAddress cfg url = some addr → Covered cfg.whitelist addr
  | .resume i ev => ∀ location, p.followed i ev = some location →
    ∀ addr, fetchAddress cfg location = some addr → Covered cfg.whitelist addr

theorem onlyCovered_start (f : Option Fetch) : OnlyCovered cfg (p.start f) ↔
    OnlyCovered cfg p ∧ ∀ addr, f.map Fetch.address = some addr → Covered cfg.whitelist addr := by
  cases f with
  | none => simp [Plugin.start]
  | some f =>
    constructor
    · intro h
      refine ⟨fun addr hm => h addr (List.mem_append_left _ hm), ?_⟩
      rintro addr ⟨⟩
      exact h _ (List.mem_append_right _ (List.mem_singleton_self _))
    · rintro ⟨hp, hf⟩ addr hm
      rcases List.mem_append.mp hm with hm | hm
      · exact hp addr hm
      · obtain ⟨rfl⟩ : addr = f.address := by simpa using hm
        exact hf _ rfl

theorem onlyCovered_act {acts : List Act} (h : ∀ addr, Act.connect addr ∉ acts) :
    OnlyCovered cfg (p.act acts) ↔ OnlyCovered cfg p := by
  constructor
  · intro hp addr hm
    exact hp addr (List.mem_append_left _ hm)
  · intro hp addr hm
    rcases List.mem_append.mp hm with hm | hm
    · exact hp addr hm
    · exact absurd hm (h addr)

theorem connect_not_mem_replyTo (msg : Message) (title addr : Bytes) :
    Act.connect addr ∉ replyTo msg title := by
  unfold replyTo
  split
  · split <;> simp
  · simp

theorem onlyCovered_msghandler (msg : Message) : OnlyCovered cfg (msghandler cfg p msg) ↔
    OnlyCovered cfg p ∧ SafeInput cfg p (.message msg) := by
  unfold msghandler SafeInput
  by_cases hcmd : msg.cmd = lit "PRIVMSG"
  · cases hurl : msg.args[1]?.bind (checkedUrl cfg.whitelist) with
    | none => simp [hcmd, hurl]
    | some url =>
      simp only [hcmd, hurl, if_true, onlyCovered_start, address_gettitle, forall_const,
        Option.some.injEq, forall_eq']
      apply and_congr_right
      intro _
      obtain ⟨text, -, hchecked⟩ := Option.bind_eq_some_iff.mp hurl
      constructor
      · exact Or.inr
      · rintro (hhttp | hcov) addr haddr
        · exact covered_of_http hchecked hhttp haddr
        · exact hcov addr haddr
  · simp [hcmd]

theorem onlyCovered_resume {k : Nat} {ev : Event} (h : p.resume cfg k ev = some q) :
    OnlyCovered cfg q ↔ OnlyCovered cfg p ∧ SafeInput cfg p (.resume k ev) := by
  unfold Plugin.resume at h
  obtain ⟨f, hf, rfl⟩ := Option.map_eq_some_iff.mp h
  have hfollow : p.followed k ev = match f.round ev with
      | some (.follow location) => some location
      | _ => none := by simp [Plugin.followed, hf]
  have hnone (hn : p.followed k ev = none) (q : Plugin)
      (hq : OnlyCovered cfg q ↔ OnlyCovered cfg p) :
      OnlyCovered cfg q ↔ OnlyCovered cfg p ∧ SafeInput cfg p (.resume k ev) := by
    simp [SafeInput, hn, hq]
  cases ev with
  | timeout =>
    apply hnone hfollow
    cases f.stage <;> exact Iff.rfl
  | ready got =>
    cases hs : f.stage with
    | dead => exact hnone (by simp [hfollow, Fetch.round, hs]) _ Iff.rfl
    | connecting =>
      apply hnone (by simp [hfollow, Fetch.round, hs])
      exact (onlyCovered_act (by simp)).trans Iff.rfl
    | receiving r =>
      cases hr : r.next f.redirected got with
      | more r' =>
        simp only [hr]
        exact hnone (by simp [hfollow, Fetch.round, hs, hr]) _ Iff.rfl
      | follow location =>
        have hloc : p.followed k (.ready got) = some location := by
          simp [hfollow, Fetch.round, hs, hr]
        simp only [hr, onlyCovered_start, address_gettitle, SafeInput, hloc, Option.some.injEq,
          forall_eq']
        exact Iff.rfl
      | done title =>
        have hn : p.followed k (.ready got) = none := by simp [hfollow, Fetch.round, hs, hr]
        cases title with
        | none =>
          simp only [hr]
          exact hnone hn _ Iff.rfl
        | some title =>
          simp only [hr]
          exact hnone hn _ ((onlyCovered_act (connect_not_mem_replyTo _ _)).trans Iff.rfl)

/-- The plugin connects to covered hosts only in exactly the runs whose inputs are all safe: every
checked URL is plain http or asks a covered host, and so does every redirect that is followed. -/
theorem connects_covered_iff (cfg : Config) (inputs : List Input) (p : Plugin)
    (hrun : run (step cfg) ⟨[], []⟩ inputs = some p) :
    (∀ addr, Act.connect addr ∈ p.log → Covered cfg.whitelist addr) ↔
      Along (step cfg) (SafeInput cfg) ⟨[], []⟩ inputs := by
  have hiff : OnlyCovered cfg p ↔
      OnlyCovered cfg ⟨[], []⟩ ∧ Along (step cfg) (SafeInput cfg) ⟨[], []⟩ inputs := by
    apply run_iff_along (I := fun _ => True) _ (fun _ _ _ _ _ => trivial) trivial hrun
    rintro s i t - hst
    cases i with
    | message msg =>
      obtain rfl : msghandler cfg s msg = t := by simpa [step] using hst
      exact onlyCovered_msghandler msg
    | resume k ev => exact onlyCovered_resume hst
  have hinit : OnlyCovered cfg ⟨[], []⟩ := by
    intro addr hm
    cases hm
  exact hiff.trans (and_iff_right hinit)

/-- A message of a channel member. -/
def said (text : Bytes) : Message :=
  ⟨0, [], ⟨some "ann", none, none, none⟩, "PRIVMSG", [lit "#c", text]⟩

/-- A plain http URL of a subdomain. -/
theorem connects_covered_subdomain : ∃ p, run (step ⟨defaultExtensionBlacklist, [lit "lua.org"]⟩)
      ⟨[], []⟩ [.message (said "see http://en.lua.org/a#b")] = some p ∧
    Act.connect "en.lua.org" ∈ p.log ∧
    ∀ addr, Act.connect addr ∈ p.log → Covered [lit "lua.org"] addr := by
  let cfg : Config := ⟨defaultExtensionBlacklist, [lit "lua.org"]⟩
  let msg := said "see http://en.lua.org/a#b"
  have hurl : checkedUrl cfg.whitelist (lit "see http://en.lua.org/a#b") =
      some (lit "http://en.lua.org/a") := by decide +kernel
  have hsafe : SafeInput cfg ⟨[], []⟩ (.message msg) := by
    intro _ url hchecked
    obtain rfl := Option.some.inj (hurl.symm.trans hchecked)
    exact Or.inl (by decide)
  have hrun : run (step cfg) ⟨[], []⟩ [.message msg] =
      some ⟨[⟨msg, false, "en.lua.org", "/a", .connecting⟩], [.connect "en.lua.org"]⟩ := by
    decide +kernel
  refine ⟨_, hrun, List.mem_cons_self, ?_⟩
  exact (connects_covered_iff cfg [.message msg] _ hrun).mpr ⟨hsafe, fun _ _ => trivial⟩

/-- The check reads the host after `https://`, the connection the first one after `http://`. -/
theorem https_url_connects_elsewhere : ∃ p, run (step ⟨defaultExtensionBlacklist, [lit "lua.org"]⟩)
      ⟨[], []⟩ [.message (said "https://lua.org/http://evil.org/")] = some p ∧
    Act.connect "evil.org" ∈ p.log ∧ ¬ Covered [lit "lua.org"] "evil.org" := by
  refine ⟨⟨[⟨said "https://lua.org/http://evil.org/", false, "evil.org", "/", .connecting⟩],
    [.connect "evil.org"]⟩, by decide +kernel, by simp, ?_⟩
  rw [← whitelisted_iff (by decide)]
  decide +kernel

end Host

end TuxBot.Plugins.UrlTitle
