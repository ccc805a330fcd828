import TuxBot.Irc.Session
import TuxBot.Plugins.UrlTitleHosts

/-! What urltitle makes of the escaped text of a title. -/
namespace TuxBot.Plugins.UrlTitle

open TuxBot.Lua TuxBot.Lua.Pattern TuxBot.Irc

/-- The bytes that HTML escapes, with their entities. -/
def entities : List (UInt8 × Bytes) := [(60, lit "&lt;"), (62, lit "&gt;"), (38, lit "&amp;")]

/-- A byte, escaped if the table has an entity for it. -/
def encode (table : List (UInt8 × Bytes)) (b : UInt8) : Bytes := (table.lookup b).getD [b]

def escape (t : Bytes) : Bytes := t.flatMap (encode entities)

/-- An escaped text with tags between the encodings of its characters. -/
inductive Marked : Bytes → Bytes → Prop
  | nil : Marked [] []
  | char {t content : Bytes} (b : UInt8) (h : Marked t content) :
      Marked (b :: t) (encode entities b ++ content)
  | tag {t content : Bytes} (body : Bytes) (hbody : 62 ∉ body) (h : Marked t content) :
      Marked t (60 :: body ++ 62 :: content)

/-- The only white space of a text is single spaces between other characters. -/
structure Spaced (t : Bytes) : Prop where
  first : ∀ b ∈ t.head?, isSpace b = false
  last : ∀ b ∈ t.getLast?, isSpace b = false
  space : ∀ b ∈ t, isSpace b = true → b = 32
  single : t.IsChain fun a b => isSpace a = false ∨ isSpace b = false

/-- A title as a page may give it: a marked text with white space around it. -/
def Titles (t content : Bytes) : Prop :=
  ∃ before marked after, content = before ++ marked ++ after ∧ Marked t marked ∧
    (∀ b ∈ before, isSpace b = true) ∧ ∀ b ∈ after, isSpace b = true

section Gsub

variable {p : List (Item UInt8)} {f : Match UInt8 → Bytes} {u s : Bytes} {b c : UInt8}

/-- What cannot begin a match stays. -/
theorem gsub_append_of_none (h : ∀ b ∈ u, ∀ s, matchHere p (b :: s) = none) (s : Bytes) :
    gsub p f (u ++ s) = u ++ gsub p f s := by
  induction u with
  | nil => rfl
  | cons b u ih =>
    rw [List.cons_append, gsub_cons_of_none (h b List.mem_cons_self _),
      ih fun b hb => h b (List.mem_cons_of_mem _ hb), List.cons_append]

theorem matchHere_one_none (hc : oneOf [c] b = false) (s : Bytes) :
    matchHere (.one (oneOf [c]) :: p) (b :: s) = none :=
  matchHere_of_none (by simp [doMatch, hc])

theorem oneOf_eq_false (h : b ≠ c) : oneOf [c] b = false := by simp [oneOf, h]

/-- A literal text is replaced where it stands. -/
theorem gsub_literal (hu : u ≠ []) (s : Bytes) :
    gsub (literal u) f (u ++ s) = f ⟨u, [], s⟩ ++ gsub (literal u) f s := by
  have hdo : doMatch (literal u) [] (u ++ s) = some ([], s) := by
    simpa [doMatch] using doMatch_literal u [] [] s
  have hmatch := matchHere_of_some hdo
  cases u with
  | nil => exact absurd rfl hu
  | cons a u => exact gsub_cons_of_some hmatch hu

/-- Without its first two bytes a literal text is not found. -/
theorem matchHere_literal_none {w : Bytes} {a d : UInt8} (hd : d ≠ c) (s : Bytes) :
    matchHere (literal (a :: c :: w)) (a :: d :: s) = none := by
  apply matchHere_of_none
  rw [literal, List.map_cons, List.map_cons, doMatch_one (by simp [oneOf])]
  simp [doMatch, oneOf_eq_false hd]

end Gsub

section Entities

variable {table : List (UInt8 × Bytes)} {e w : Bytes} {x b : UInt8} {s : Bytes}

/-- Another entity, which has one ampersand only, is passed over. -/
theorem gsub_entity {f : Match UInt8 → Bytes} {c d : UInt8} {v : Bytes} (hd : d ≠ c)
    (hv : 38 ∉ d :: v) (s : Bytes) : gsub (literal (38 :: c :: w)) f (38 :: d :: v ++ s) =
      38 :: d :: v ++ gsub (literal (38 :: c :: w)) f s := by
  have hrest : ∀ b ∈ d :: v, ∀ s, matchHere (literal (38 :: c :: w)) (b :: s) = none :=
    fun b hb s => matchHere_one_none (oneOf_eq_false (ne_of_mem_of_not_mem hb hv)) s
  rw [List.cons_append, List.cons_append, gsub_cons_of_none (matchHere_literal_none hd _),
    ← List.cons_append, gsub_append_of_none hrest]
  rfl

/-- Replacing one entity decodes one byte: the ampersand of every other entity stays. -/
theorem gsub_encode (hx : table.lookup x = none)
    (hother : ∀ entity ∈ table, ∀ s, gsub (literal (38 :: w)) (fun _ => [x]) (entity.2 ++ s) =
      entity.2 ++ gsub (literal (38 :: w)) (fun _ => [x]) s)
    (hamp : x = 38 ∨ (table.lookup 38).isSome) (t s : Bytes) :
    gsub (literal (38 :: w)) (fun _ => [x]) (t.flatMap (encode ((x, 38 :: w) :: table)) ++ s) =
      t.flatMap (encode table) ++ gsub (literal (38 :: w)) (fun _ => [x]) s := by
  have hone (b : UInt8) (s : Bytes) :
      gsub (literal (38 :: w)) (fun _ => [x]) (encode ((x, 38 :: w) :: table) b ++ s) =
        encode table b ++ gsub (literal (38 :: w)) (fun _ => [x]) s := by
    by_cases hb : b = x
    · subst hb
      have hentity : encode ((b, 38 :: w) :: table) b = 38 :: w := by simp [encode]
      have hbyte : encode table b = [b] := by simp [encode, hx]
      rw [hentity, hbyte]
      exact gsub_literal (List.cons_ne_nil 38 w) s
    · have hsame : encode ((x, 38 :: w) :: table) b = encode table b := by
        simp [encode, List.lookup_cons, beq_eq_false_iff_ne.mpr hb]
      rw [hsame, encode]
      cases hlookup : table.lookup b with
      | some d =>
        obtain ⟨before, after, rfl, -⟩ := List.lookup_eq_some_iff.mp hlookup
        exact hother (b, d) (by simp) s
      | none =>
        have hne : b ≠ 38 := by
          rintro rfl
          rcases hamp with rfl | hsome
          · exact hb rfl
          · simp [hlookup] at hsome
        exact gsub_cons_of_none (matchHere_one_none (oneOf_eq_false hne) s)
  induction t with
  | nil => rfl
  | cons b t ih =>
    rw [List.flatMap_cons, List.append_assoc, hone, ih, List.flatMap_cons, List.append_assoc]

theorem isSpace_ne : ∀ b, isSpace b = true → b ≠ 60 ∧ b ≠ 38 := forall_byte (by decide +kernel)

/-- White space at the ends is not part of an entity. -/
theorem gsub_entity_space {f : Match UInt8 → Bytes} (hs : ∀ b ∈ s, isSpace b = true) (u : Bytes) :
    gsub (literal (38 :: w)) f (s ++ u) = s ++ gsub (literal (38 :: w)) f u :=
  gsub_append_of_none
    (fun b hb => matchHere_one_none (oneOf_eq_false (isSpace_ne b (hs b hb)).2)) u

theorem gsub_decode (x : UInt8) (w : Bytes) (table : List (UInt8 × Bytes)) {before after : Bytes}
    (hbefore : ∀ b ∈ before, isSpace b = true) (hafter : ∀ b ∈ after, isSpace b = true)
    (hx : table.lookup x = none)
    (hother : ∀ entity ∈ table, ∀ s, gsub (literal (38 :: w)) (fun _ => [x]) (entity.2 ++ s) =
      entity.2 ++ gsub (literal (38 :: w)) (fun _ => [x]) s)
    (hamp : x = 38 ∨ (table.lookup 38).isSome) (t : Bytes) :
    gsub (literal (38 :: w)) (fun _ => [x])
        (before ++ t.flatMap (encode ((x, 38 :: w) :: table)) ++ after) =
      before ++ t.flatMap (encode table) ++ after := by
  have hend : gsub (literal (38 :: w)) (fun _ => [x]) after = after := by
    have hnil : gsub (literal (38 :: w)) (fun _ => [x]) [] = [] :=
      gsub_nil_of_none (matchHere_of_none rfl)
    simpa [hnil] using gsub_entity_space (w := w) (f := fun _ => [x]) hafter []
  rw [List.append_assoc, gsub_entity_space hbefore, gsub_encode hx hother hamp, hend,
    List.append_assoc]

/-- The entities go one after another, the ampersand's last. -/
theorem decode_escape {before after : Bytes} (hbefore : ∀ b ∈ before, isSpace b = true)
    (hafter : ∀ b ∈ after, isSpace b = true) (t : Bytes) :
    gsub (literal "&amp;") (fun _ => "&") (gsub (literal "&gt;") (fun _ => ">")
      (gsub (literal "&lt;") (fun _ => "<") (before ++ escape t ++ after))) =
        before ++ t ++ after := by
  have hlt := gsub_decode 60 (lit "lt;") [(62, lit "&gt;"), (38, lit "&amp;")] hbefore hafter rfl
    (List.forall_mem_cons.mpr ⟨gsub_entity (by decide) (by decide),
      List.forall_mem_cons.mpr ⟨gsub_entity (by decide) (by decide), nofun⟩⟩) (Or.inr rfl) t
  have hgt := gsub_decode 62 (lit "gt;") [(38, lit "&amp;")] hbefore hafter rfl
    (List.forall_mem_cons.mpr ⟨gsub_entity (by decide) (by decide), nofun⟩) (Or.inr rfl) t
  have hamp := gsub_decode 38 (lit "amp;") [] hbefore hafter rfl nofun (Or.inl rfl) t
  have hnone : t.flatMap (encode []) = t := List.flatMap_singleton' t
  rw [hnone] at hamp
  exact (congrArg _ ((congrArg _ hlt).trans hgt)).trans hamp

end Entities

section Clean

variable {t content before after s : Bytes} {b : UInt8}

/-- `'<.->'` -/
def tagPattern : List (Item UInt8) := [.one (oneOf "<"), .lazy anyByte, .one (oneOf ">")]

/-- `'^%s*(.-)%s*$'`, which is anchored. -/
def trimPattern : List (Item UInt8) :=
  [.star isSpace, .start, .lazy anyByte, .stop, .star isSpace, .eos]

/-- A tag ends at its first closing bracket. -/
theorem gsub_tag {body : Bytes} (hbody : 62 ∉ body) (s : Bytes) :
    gsub tagPattern (fun _ => []) (60 :: body ++ 62 :: s) = gsub tagPattern (fun _ => []) s := by
  have hclose : doMatch [.one (oneOf "<"), .lazy anyByte, .one (oneOf ">")] []
      (60 :: body ++ [62] ++ s) = some ([], s) := by
    rw [List.append_assoc, List.cons_append, doMatch_one rfl]
    refine minExpand_append (fun _ _ => rfl) (fun x hx hne => ?_) rfl
    obtain ⟨b, x, rfl⟩ := List.exists_cons_of_ne_nil hne
    have hb : b ≠ 62 := ne_of_mem_of_not_mem (hx.subset List.mem_cons_self) hbody
    have hout : oneOf (lit ">") b = false := oneOf_eq_false hb
    simp [doMatch, hout]
  have hmatch := matchHere_of_some hclose
  rw [show 60 :: body ++ 62 :: s = 60 :: body ++ [62] ++ s by simp, tagPattern]
  exact gsub_cons_of_some hmatch (by simp)

theorem notMem_encode (b : UInt8) : 60 ∉ encode entities b := by
  revert b
  exact forall_byte (by decide +kernel)

theorem matchHere_tag_none (hb : b ≠ 60) (s : Bytes) : matchHere tagPattern (b :: s) = none :=
  matchHere_one_none (oneOf_eq_false hb) s

/-- Removing the tags leaves the escaped text. -/
theorem gsub_marked (h : Marked t content) (s : Bytes) :
    gsub tagPattern (fun _ => []) (content ++ s) = escape t ++ gsub tagPattern (fun _ => []) s := by
  induction h with
  | nil => rfl
  | @char t content b _ ih =>
    have hb : ∀ c ∈ encode entities b, ∀ s, matchHere tagPattern (c :: s) = none :=
      fun c hc => matchHere_tag_none (ne_of_mem_of_not_mem hc (notMem_encode b))
    rw [List.append_assoc, gsub_append_of_none hb, ih, ← List.append_assoc]
    rfl
  | @tag t content body hbody _ ih =>
    have hassoc : 60 :: body ++ 62 :: content ++ s = 60 :: body ++ 62 :: (content ++ s) := by simp
    rw [hassoc, gsub_tag hbody, ih]

/-- White space passes through a substitution of something that begins with `<` or `&`. -/
theorem gsub_tag_space (hs : ∀ b ∈ s, isSpace b = true) (u : Bytes) :
    gsub tagPattern (fun _ => []) (s ++ u) = s ++ gsub tagPattern (fun _ => []) u :=
  gsub_append_of_none (fun b hb => matchHere_tag_none (isSpace_ne b (hs b hb)).1) u

/-- A text between white space is cut out. -/
theorem trim_eq (hne : t ≠ []) (hfirst : ∀ b ∈ t.head?, isSpace b = false)
    (hlast : ∀ b ∈ t.getLast?, isSpace b = false) (hbefore : ∀ b ∈ before, isSpace b = true)
    (hafter : ∀ b ∈ after, isSpace b = true) :
    gsubHere trimPattern (fun m => m.captures.flatten) (before ++ t ++ after) = t := by
  have hspaces : doMatch [.star isSpace, .eos] [.closed t] after = some ([.closed t], []) := by
    rw [doMatch_star, ← List.append_nil after]
    exact maxExpand_append hafter nofun rfl
  have hstays (x : Bytes) (hx : x <:+ t) (hxne : x ≠ []) :
      doMatch [.stop, .star isSpace, .eos] [.unfinished (t ++ after)] (x ++ after) = none := by
    rw [doMatch_stop, doMatch_star]
    by_contra hsome
    obtain ⟨r, hr⟩ := Option.ne_none_iff_exists'.mp hsome
    obtain ⟨u, y, hu, hall, hend⟩ := maxExpand_split hr
    obtain rfl : y = [] := by
      by_contra hy
      simp [doMatch, hy] at hend
    obtain ⟨z, rfl⟩ := hx
    have hmem : x.getLast hxne ∈ u := by
      rw [List.append_nil] at hu
      exact hu ▸ List.mem_append_left after (List.getLast_mem hxne)
    have hspace := hlast (x.getLast hxne)
      (by simp [List.getLast?_append, List.getLast?_eq_some_getLast hxne])
    rw [hall _ hmem] at hspace
    cases hspace
  have htext : doMatch [.start, .lazy anyByte, .stop, .star isSpace, .eos] [] (t ++ after) =
      some ([.closed t], []) := by
    rw [doMatch_start]
    refine minExpand_append (fun _ _ => rfl) hstays ?_
    rw [doMatch_stop, endCapture_append]
    exact hspaces
  have hdo : doMatch trimPattern [] (before ++ t ++ after ++ []) = some ([.closed t], []) := by
    rw [List.append_nil, List.append_assoc, trimPattern, doMatch_star]
    refine maxExpand_append hbefore (fun b hb => ?_) htext
    cases t with
    | nil => exact absurd rfl hne
    | cons a t => exact hfirst b hb
  have hmatch := matchHere_of_some hdo
  rw [List.append_nil] at hmatch
  rw [gsubHere, hmatch]
  simp [Capture.text]

/-- Single spaces stay as they are. -/
theorem collapse_eq (hlast : ∀ b ∈ t.getLast?, isSpace b = false)
    (hspace : ∀ b ∈ t, isSpace b = true → b = 32)
    (hsingle : t.IsChain fun a b => isSpace a = false ∨ isSpace b = false) :
    gsub [.plus isSpace] (fun _ => " ") t = t := by
  induction t with
  | nil => exact gsub_nil_of_none rfl
  | cons b t ih =>
    have hrest : gsub [.plus isSpace] (fun _ => lit " ") t = t := by
      cases t with
      | nil => exact gsub_nil_of_none rfl
      | cons c t =>
        exact ih hlast (fun b hb => hspace b (List.mem_cons_of_mem _ hb))
          (List.isChain_cons_cons.mp hsingle).2
    by_cases hb : isSpace b = true
    · obtain rfl := hspace b List.mem_cons_self hb
      have hnext : ∀ c ∈ t.head?, isSpace c = false := by
        cases t with
        | nil => nofun
        | cons c t =>
          rintro c' ⟨⟩
          exact (List.isChain_cons_cons.mp hsingle).1.resolve_left (by simp [hb])
      have hdo : doMatch [.plus isSpace] [] ([32] ++ t) = some ([], t) := by
        rw [List.singleton_append, doMatch_plus hb, maxExpand_of_head hnext]
        rfl
      have hmatch := matchHere_of_some hdo
      rw [List.singleton_append] at hmatch
      rw [gsub_cons_of_some hmatch (by simp), hrest]
      rfl
    · have hnone : matchHere [.plus isSpace] (b :: t) = none :=
        matchHere_of_none (by simp [doMatch, hb])
      rw [gsub_cons_of_none hnone, hrest]

/-- The clean-up undoes the escaping once, whatever the text looks like. -/
theorem cleanTitle_eq (hne : t ≠ []) (ht : Spaced t) (h : Titles t content) :
    cleanTitle content = t := by
  obtain ⟨before, marked, after, rfl, hmarked, hbefore, hafter⟩ := h
  have htags : gsub tagPattern (fun _ => []) (before ++ marked ++ after) =
      before ++ escape t ++ after := by
    have hend : gsub tagPattern (fun _ => []) after = after := by
      have hnil : gsub tagPattern (fun _ => []) [] = [] := gsub_nil_of_none rfl
      simpa [hnil] using gsub_tag_space hafter []
    rw [List.append_assoc, gsub_tag_space hbefore, gsub_marked hmarked, hend, List.append_assoc]
  show gsub [.plus isSpace] (fun _ => " ") (gsubHere trimPattern (fun m => m.captures.flatten)
    (gsub (literal "&amp;") (fun _ => "&") (gsub (literal "&gt;") (fun _ => ">")
      (gsub (literal "&lt;") (fun _ => "<")
        (gsub tagPattern (fun _ => []) (before ++ marked ++ after)))))) = t
  rw [htags, decode_escape hbefore hafter, trim_eq hne ht.first ht.last hbefore hafter,
    collapse_eq ht.last ht.space ht.single]

/-- A title is never shorter than its text. -/
theorem length_titles (h : Titles t content) : t.length ≤ content.length := by
  obtain ⟨before, marked, after, rfl, hmarked, -, -⟩ := h
  have hlen : t.length ≤ marked.length := by
    induction hmarked with
    | nil => exact Nat.le_refl _
    | char b _ ih =>
      have hb : 1 ≤ (encode entities b).length :=
        forall_byte (P := fun b => 1 ≤ (encode entities b).length) (by decide +kernel) b
      simp only [List.length_cons, List.length_append]
      omega
    | tag body _ _ ih =>
      simp only [List.length_cons, List.length_append]
      omega
  simp only [List.length_append]
  omega

theorem formatString_eq_iff : formatString s = s ↔ (s.length < 100 → 0 ∉ s) := by
  unfold formatString
  split
  · simp_all
  · rw [List.takeWhile_eq_self_iff]
    constructor
    · intro h _ hmem
      simpa using h 0 hmem
    · intro h b hb
      simpa using ne_of_mem_of_not_mem hb (h (by omega))

/-- The reply is the text, behind the nick in brackets. -/
def Shows (nick chan t : Bytes) (acts : List Act) : Prop :=
  acts = [.reply (if ischanname chan then chan else nick)
    (lit "(" ++ formatString nick ++ lit ") " ++ t)]

/-- The text of an escaped title is what the bot replies, but for a NUL in a text of less than 100
bytes, which `format` cuts there. -/
theorem title_shown_iff {msg : Message} {nick chan : Bytes} (hnick : msg.sender.nick = some nick)
    (hchan : msg.args.head? = some chan) (hne : t ≠ []) (ht : Spaced t) (h : Titles t content)
    (hlen : content.length < 300) :
    Shows nick chan t (replyTo msg content) ↔ (t.length < 100 → 0 ∉ t) := by
  have hcontent : content ≠ [] := by
    rintro rfl
    have hzero := length_titles h
    exact hne (List.length_eq_zero_iff.mp (by simpa using hzero))
  rw [Shows, replyTo, hnick, hchan, cleanTitle_eq hne ht h]
  simp only [hcontent, hlen, ne_eq, not_false_eq_true, and_self, if_true]
  rw [← formatString_eq_iff]
  simp

/-- `a <b>`, which looks like a tag, with an `i` element around the `a`. -/
theorem title_shown_tag : Shows "Ann" "#c" "a <b>"
    (replyTo (heard "Ann" "PRIVMSG" ["#c", "http://lua.org/"]) " <i>a</i> &lt;b&gt;\n") :=
  (@title_shown_iff (lit "a <b>") _ (heard "Ann" "PRIVMSG" ["#c", "http://lua.org/"]) (lit "Ann")
    (lit "#c") rfl rfl (by decide +kernel)
    ⟨by decide +kernel, by decide +kernel, by decide +kernel, by decide +kernel⟩
    ⟨lit " ", lit "<i>a</i> &lt;b&gt;", lit "\n", rfl,
      .tag (lit "i") (by decide) (.char 97 (.tag (lit "/i") (by decide) (.char 32 (.char 60
        (.char 98 (.char 62 .nil)))))), by decide +kernel, by decide +kernel⟩
    (by decide +kernel)).mpr (by decide +kernel)

/-- The reply to `a`, NUL, `b` shows `a` alone. -/
theorem nul_ends_title : Spaced [97, 0, 98] ∧ Titles [97, 0, 98] [97, 0, 98] ∧
    replyTo (heard "Ann" "PRIVMSG" ["#c", "http://lua.org/"]) [97, 0, 98] =
      [.reply "#c" "(Ann) a"] ∧
    ¬ Shows "Ann" "#c" [97, 0, 98]
      (replyTo (heard "Ann" "PRIVMSG" ["#c", "http://lua.org/"]) [97, 0, 98]) := by
  refine ⟨⟨by decide +kernel, by decide +kernel, by decide +kernel, by decide +kernel⟩,
    ⟨[], [97, 0, 98], [], rfl, .char 97 (.char 0 (.char 98 .nil)), nofun, nofun⟩,
    by decide +kernel, ?_⟩
  unfold Shows
  decide +kernel

end Clean

end TuxBot.Plugins.UrlTitle
