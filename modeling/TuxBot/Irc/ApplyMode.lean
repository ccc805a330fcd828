import TuxBot.Irc.Session

/-! `applymode` as an operation on sets of letters: what it gives is their canonical form. -/
namespace TuxBot.Irc

open TuxBot.Lua

variable {mode change base diff s l : Bytes} {x : UInt8} {P Q : UInt8 → Prop}

/-- The letters that `applymode` applies, and the mode before its letters are sorted. -/
def changeLetters (diff : Bytes) : Bytes :=
  (if diff.head? = some 43 ∨ diff.head? = some 45 then diff.tail else diff).filter
    fun c => ¬ oneOf "-+" c

def addLetter (s : Bytes) (c : UInt8) : Bytes := if s.contains c then s else s ++ [c]

def removeLetter (s : Bytes) (c : UInt8) : Bytes := if c = 0 then s else s.filter (· ≠ c)

def applied (str diff : Bytes) : Bytes :=
  (changeLetters diff).foldl (fun s c =>
    if diff.head? = some 45 then removeLetter s c else addLetter s c) str

theorem applymode_eq (str diff : Bytes) : applymode str diff =
    match applied str diff with
    | b :: s =>
      if oneOf "+-" b then b :: s.insertionSort (· ≤ ·) else 43 :: (b :: s).insertionSort (· ≤ ·)
    | [] => [43] := rfl

theorem mem_changeLetters : x ∈ changeLetters diff ↔ x ∈ diff ∧ x ≠ 43 ∧ x ≠ 45 := by
  have hsign : oneOf "-+" x = true ↔ x = 45 ∨ x = 43 := by simp [oneOf, lit]
  have htail : x ∈ diff.tail → x ∈ diff := List.mem_of_mem_tail
  simp only [changeLetters, List.mem_filter, decide_eq_true_iff, hsign, not_or]
  constructor
  · rintro ⟨hx, hminus, hplus⟩
    refine ⟨?_, hplus, hminus⟩
    split at hx
    · exact htail hx
    · exact hx
  · rintro ⟨hx, hplus, hminus⟩
    refine ⟨?_, hminus, hplus⟩
    split
    · rename_i hhead
      obtain ⟨d, t, rfl⟩ := List.exists_cons_of_ne_nil (List.ne_nil_of_mem hx)
      rcases List.mem_cons.mp hx with rfl | hx
      · simp [hplus, hminus] at hhead
      · exact hx
    · exact hx

section Fold

variable {letters : Bytes}

theorem mem_addLetter {c : UInt8} : x ∈ addLetter s c ↔ x ∈ s ∨ x = c := by
  unfold addLetter
  by_cases hc : c ∈ s
  · have hmem : x = c → x ∈ s := fun hx => hx ▸ hc
    simpa [hc] using hmem
  · simp [hc]

theorem nodup_addLetter {c : UInt8} (hs : s.Nodup) : (addLetter s c).Nodup := by
  unfold addLetter
  by_cases hc : c ∈ s
  · simpa [hc] using hs
  · simpa [hc] using hs.concat hc

theorem mem_foldl_addLetter (letters s : Bytes) :
    x ∈ letters.foldl addLetter s ↔ x ∈ s ∨ x ∈ letters := by
  induction letters generalizing s with
  | nil => simp
  | cons c letters ih => rw [List.foldl_cons, ih, mem_addLetter, List.mem_cons, or_assoc]

theorem nodup_foldl_addLetter (letters : Bytes) (hs : s.Nodup) :
    (letters.foldl addLetter s).Nodup := by
  induction letters generalizing s with
  | nil => exact hs
  | cons c letters ih => exact ih (nodup_addLetter hs)

/-- Removing one letter after the other keeps the rest in its order. -/
theorem foldl_removeLetter (h : ∀ c ∈ letters, c ≠ 0) (s : Bytes) :
    letters.foldl removeLetter s = s.filter (· ∉ letters) := by
  induction letters generalizing s with
  | nil => simp
  | cons c letters ih =>
    rw [List.foldl_cons, removeLetter, if_neg (h c List.mem_cons_self),
      ih fun d hd => h d (List.mem_cons_of_mem c hd), List.filter_filter]
    apply List.filter_congr
    intro d _
    by_cases hd : d = c <;> simp [hd]

/-- A sign at the front stays there. -/
theorem foldl_addLetter_append {front : Bytes} (h : ∀ c ∈ letters, c ∉ front) (s : Bytes) :
    letters.foldl addLetter (front ++ s) = front ++ letters.foldl addLetter s := by
  induction letters generalizing s with
  | nil => rfl
  | cons c letters ih =>
    have hfront := h c List.mem_cons_self
    have hstep : addLetter (front ++ s) c = front ++ addLetter s c := by
      unfold addLetter
      by_cases hc : c ∈ s <;> simp [hc, hfront]
    rw [List.foldl_cons, List.foldl_cons, hstep, ih fun d hd => h d (List.mem_cons_of_mem c hd)]

theorem mem_applied (hdiff : ∀ c ∈ diff, c ≠ 0) : x ∈ applied mode diff ↔
    if x ∈ changeLetters diff then diff.head? ≠ some 45 else x ∈ mode := by
  have hletters : ∀ c ∈ changeLetters diff, c ≠ 0 := fun c hc => hdiff c (mem_changeLetters.mp hc).1
  unfold applied
  by_cases hneg : diff.head? = some 45
  · simp only [hneg, if_true]
    rw [foldl_removeLetter hletters]
    by_cases hx : x ∈ changeLetters diff <;> simp [hx]
  · simp only [hneg, if_false]
    rw [mem_foldl_addLetter]
    by_cases hx : x ∈ changeLetters diff <;> simp [hx, hneg]

end Fold

/-- What `applymode` does to one letter: only the sign at the front counts. -/
theorem mem_applymode_change (hdiff : ∀ c ∈ diff, c ≠ 0) (hx : x ≠ 43) : x ∈ applymode mode diff ↔
    if x ∈ changeLetters diff then diff.head? ≠ some 45 else x ∈ mode := by
  rw [← mem_applied hdiff, applymode_eq]
  -- the front sign and the order of the letters do not matter to a letter
  cases applied mode diff with
  | nil => simp [hx]
  | cons b s => by_cases hb : oneOf "+-" b <;> simp [hb, hx, List.mem_insertionSort]

/-- The letters with `P` in strictly increasing order, each once. -/
structure Listing (P : UInt8 → Prop) (l : Bytes) : Prop where
  increasing : l.Pairwise (· < ·)
  mem : ∀ c, c ∈ l ↔ P c

theorem Listing.nodup (h : Listing P l) : l.Nodup :=
  h.increasing.imp fun hlt heq => by simp [heq] at hlt

/-- There is one listing of a set. -/
theorem Listing.unique {l' : Bytes} (h : Listing P l) (h' : Listing Q l') (hpq : ∀ c, P c ↔ Q c) :
    l = l' := by
  have hperm : l.Perm l' := (List.perm_ext_iff_of_nodup h.nodup h'.nodup).mpr fun c =>
    ((h.mem c).trans (hpq c)).trans (h'.mem c).symm
  refine hperm.eq_of_pairwise (fun a b _ _ hab hba => ?_) h.increasing h'.increasing
  exact absurd (UInt8.lt_trans hab hba) (UInt8.lt_irrefl a)

theorem listing_insertionSort (h : s.Nodup) : Listing (· ∈ s) (s.insertionSort (· ≤ ·)) := by
  have hperm := List.perm_insertionSort (· ≤ ·) s
  refine ⟨?_, fun c => List.mem_insertionSort _⟩
  have hle : (s.insertionSort (· ≤ ·)).Pairwise (· ≤ ·) := List.pairwise_insertionSort _ s
  have hne : (s.insertionSort (· ≤ ·)).Pairwise (· ≠ ·) := hperm.nodup_iff.mpr h
  exact (hle.and hne).imp fun ⟨hle, hne⟩ => UInt8.lt_of_le_of_ne hle hne

/-- The sign at the front of a mode string, if it has one. -/
def signText : Option Bool → Bytes
  | none => []
  | some true => "+"
  | some false => "-"

/-- The sign that `applymode` puts in front of the letters. -/
def frontSign : Option Bool → Bytes
  | some false => "-"
  | _ => "+"

/-- The letters after an update: those of `base` and `diff`, or those of `base` less those of
`diff`. -/
def Updated (sign : Option Bool) (base diff : Bytes) (c : UInt8) : Prop :=
  if sign = some false then c ∈ base ∧ c ∉ diff else c ∈ base ∨ c ∈ diff

section Canonical

variable {bs ds : Option Bool}

theorem alpha_ne (h : isAlpha x) : x ≠ 43 ∧ x ≠ 45 ∧ x ≠ 0 := by
  refine ⟨?_, ?_, ?_⟩ <;> rintro rfl <;> exact absurd h (by decide)

theorem head?_signText (hdiff : ∀ c ∈ diff, isAlpha c) :
    (signText ds ++ diff).head? = some 45 ↔ ds = some false := by
  rcases ds with _ | _ | _
  · simp only [signText, List.nil_append, reduceCtorEq, iff_false]
    intro hhead
    exact (alpha_ne (hdiff 45 (List.mem_of_head? hhead))).2.1 rfl
  · simp [signText, lit]
  · simp [signText, lit]

theorem changeLetters_signText (hdiff : ∀ c ∈ diff, isAlpha c) :
    changeLetters (signText ds ++ diff) = diff := by
  have hkeep : diff.filter (fun c => ¬ oneOf "-+" c) = diff := by
    apply List.filter_eq_self.mpr
    intro c hc
    obtain ⟨hplus, hminus, -⟩ := alpha_ne (hdiff c hc)
    simp [oneOf, lit, hplus, hminus]
  have htail : (if (signText ds ++ diff).head? = some 43 ∨ (signText ds ++ diff).head? = some 45
      then (signText ds ++ diff).tail else signText ds ++ diff) = diff := by
    rcases ds with _ | _ | _
    · refine if_neg ?_
      rintro (hhead | hhead)
      · exact (alpha_ne (hdiff 43 (List.mem_of_head? hhead))).1 rfl
      · exact (alpha_ne (hdiff 45 (List.mem_of_head? hhead))).2.1 rfl
    · rfl
    · rfl
  rw [changeLetters, htail, hkeep]

theorem not_mem_signText (hx : isAlpha x) : x ∉ signText bs := by
  obtain ⟨hplus, hminus, -⟩ := alpha_ne hx
  rcases bs with _ | _ | _
  · simp [signText]
  · simpa [signText, lit] using hminus
  · simpa [signText, lit] using hplus

/-- Only the letters behind the sign are changed, and they stay distinct. -/
theorem applied_signText (bs ds : Option Bool) (hbase : base.Nodup) (hdiff : ∀ c ∈ diff, isAlpha c) :
    ∃ s, applied (signText bs ++ base) (signText ds ++ diff) = signText bs ++ s ∧ s.Nodup ∧
      ∀ c, c ∈ s ↔ Updated ds base diff c := by
  unfold applied Updated
  rw [changeLetters_signText hdiff]
  simp only [head?_signText hdiff]
  by_cases hneg : ds = some false
  · simp only [hneg, if_true]
    have hkeep : (signText bs).filter (· ∉ diff) = signText bs := List.filter_eq_self.mpr fun c hc =>
      decide_eq_true fun hmem => not_mem_signText (hdiff c hmem) hc
    refine ⟨base.filter (· ∉ diff), ?_, hbase.filter _, by simp⟩
    rw [foldl_removeLetter fun c hc => (alpha_ne (hdiff c hc)).2.2, List.filter_append, hkeep]
  · simp only [hneg, if_false]
    exact ⟨_, foldl_addLetter_append (fun c hc => not_mem_signText (hdiff c hc)) base,
      nodup_foldl_addLetter diff hbase, fun c => mem_foldl_addLetter diff base⟩

theorem updated_alpha (hbase : ∀ c ∈ base, isAlpha c) (hdiff : ∀ c ∈ diff, isAlpha c)
    (h : Updated ds base diff x) : isAlpha x := by
  unfold Updated at h
  split at h
  · exact hbase x h.1
  · exact h.elim (hbase x) (hdiff x)

/-- The sign of the base, then the letters of the update in strictly increasing order. -/
theorem applymode_listing (bs ds : Option Bool) (hbase : ∀ c ∈ base, isAlpha c)
    (hdistinct : base.Nodup) (hdiff : ∀ c ∈ diff, isAlpha c) :
    ∃ l, applymode (signText bs ++ base) (signText ds ++ diff) = frontSign bs ++ l ∧
      Listing (Updated ds base diff) l := by
  obtain ⟨s, happlied, hnodup, hmem⟩ := applied_signText bs ds hdistinct hdiff
  obtain ⟨hincreasing, hsorted⟩ := listing_insertionSort hnodup
  refine ⟨s.insertionSort (· ≤ ·), ?_, hincreasing, fun c => (hsorted c).trans (hmem c)⟩
  rw [applymode_eq, happlied]
  rcases bs with _ | _ | _
  · cases s with
    | nil => rfl
    | cons b s =>
      have hb := updated_alpha hbase hdiff ((hmem b).mp List.mem_cons_self)
      obtain ⟨hplus, hminus, -⟩ := alpha_ne hb
      simp [signText, frontSign, oneOf, lit, hplus, hminus]
  · rfl
  · rfl

/-- The result is a mode string again. -/
theorem frontSign_signText (bs : Option Bool) : ∃ bs', frontSign bs = signText bs' ∧
    frontSign bs' = frontSign bs := by
  rcases bs with _ | _ | _
  · exact ⟨some true, rfl, rfl⟩
  · exact ⟨some false, rfl, rfl⟩
  · exact ⟨some true, rfl, rfl⟩

/-- A second update of an updated mode. -/
theorem applymode_applymode (bs ds es : Option Bool) {diff' : Bytes}
    (hbase : ∀ c ∈ base, isAlpha c) (hdistinct : base.Nodup) (hdiff : ∀ c ∈ diff, isAlpha c)
    (hdiff' : ∀ c ∈ diff', isAlpha c) :
    ∃ l l', applymode (applymode (signText bs ++ base) (signText ds ++ diff))
        (signText es ++ diff') = frontSign bs ++ l' ∧
      Listing (Updated ds base diff) l ∧ Listing (Updated es l diff') l' := by
  obtain ⟨l, hfirst, hl⟩ := applymode_listing bs ds hbase hdistinct hdiff
  obtain ⟨bs', hsign, hfront⟩ := frontSign_signText bs
  have halpha : ∀ c ∈ l, isAlpha c := fun c hc => updated_alpha hbase hdiff ((hl.mem c).mp hc)
  obtain ⟨l', hsecond, hl'⟩ := applymode_listing bs' es halpha hl.nodup hdiff'
  refine ⟨l, l', ?_, hl, hl'⟩
  rw [hfirst, hsign, hsecond, hfront, hsign]

/-- `applymode` is the update of a set in canonical form. -/
theorem applymode_canonical (bs ds : Option Bool) (base diff : Bytes)
    (hbase : ∀ c ∈ base, isAlpha c) (hdistinct : base.Nodup) (hdiff : ∀ c ∈ diff, isAlpha c) :
    (∃ l, applymode (signText bs ++ base) (signText ds ++ diff) = frontSign bs ++ l ∧
      Listing (Updated ds base diff) l) ∧
    applymode (applymode (signText bs ++ base) (signText ds ++ diff)) (signText ds ++ diff) =
      applymode (signText bs ++ base) (signText ds ++ diff) ∧
    (∀ base' diff', base'.Perm base → (∀ c, c ∈ diff' ↔ c ∈ diff) →
      applymode (signText bs ++ base') (signText ds ++ diff') =
        applymode (signText bs ++ base) (signText ds ++ diff)) ∧
    (ds ≠ some false →
      ∃ l, applymode (applymode (signText bs ++ base) (signText ds ++ diff))
          (signText (some false) ++ diff) = frontSign bs ++ l ∧
        Listing (fun c => c ∈ base ∧ c ∉ diff) l) := by
  obtain ⟨l, hfirst, hl⟩ := applymode_listing bs ds hbase hdistinct hdiff
  refine ⟨⟨l, hfirst, hl⟩, ?_, fun base' diff' hperm hsame => ?_, fun hpos => ?_⟩
  · obtain ⟨l₁, l₂, hsecond, hl₁, hl₂⟩ := applymode_applymode bs ds ds hbase hdistinct hdiff hdiff
    have hsame : ∀ c, Updated ds l₁ diff c ↔ Updated ds base diff c := by
      intro c
      have hmem := hl₁.mem c
      unfold Updated at hmem ⊢
      split <;> simp_all
    rw [hsecond, hfirst, hl₂.unique hl hsame]
  · have hbase' : ∀ c ∈ base', isAlpha c := fun c hc => hbase c (hperm.mem_iff.mp hc)
    have hdiff' : ∀ c ∈ diff', isAlpha c := fun c hc => hdiff c ((hsame c).mp hc)
    obtain ⟨l', hother, hl'⟩ :=
      applymode_listing bs ds hbase' (hperm.nodup_iff.mpr hdistinct) hdiff'
    have hupdated : ∀ c, Updated ds base' diff' c ↔ Updated ds base diff c := fun c => by
      unfold Updated
      rw [hperm.mem_iff, hsame]
    rw [hother, hfirst, hl'.unique hl hupdated]
  · obtain ⟨l₁, l₂, hsecond, hl₁, hl₂⟩ :=
      applymode_applymode bs ds (some false) hbase hdistinct hdiff hdiff
    refine ⟨l₂, hsecond, hl₂.increasing, fun c => (hl₂.mem c).trans ?_⟩
    have hmem := hl₁.mem c
    simp only [Updated, hpos, if_false, if_true] at hmem ⊢
    rw [hmem]
    exact ⟨fun ⟨h, hn⟩ => ⟨h.resolve_right hn, hn⟩, fun ⟨h, hn⟩ => ⟨.inl h, hn⟩⟩

theorem applymode_canonical_bca : ∃ l, applymode (lit "bca") (lit "-cxc") = lit "+" ++ l ∧
    Listing (Updated (some false) (lit "bca") (lit "cxc")) l :=
  (applymode_canonical none (some false) (lit "bca") (lit "cxc") (by decide +kernel) (by decide)
    (by decide +kernel)).1

end Canonical

end TuxBot.Irc
