import TuxBot.Lua.Bytes
import TuxBot.Lua.Pattern

/-! Patterns that are built at run time to match a text: what `string.match` reads of them. -/
namespace TuxBot.Lua.Pattern

/-- `%p` in the C locale. -/
def isPunct (b : UInt8) : Bool := 33 ≤ b && b ≤ 126 && !isAlnum b

/-- A character that stands for something else than itself, or for the end of the pattern. -/
def isMagic (b : UInt8) : Bool := (0 :: lit "^$()%.[*+-?").contains b

/-- A repetition sign. -/
def isSuffix (b : UInt8) : Bool := (lit "*+-?").contains b

/-- The items of a pattern of single characters, each plain or escaped. A pattern ends at its first
NUL. There are none for any other pattern, and none for a malformed one, which ends with `%`. -/
def plainItems : Bytes → Option (List (Item UInt8))
  | [] => some []
  | [b] => if b = 0 then some [] else if isMagic b then none else some [.one (· == b)]
  | b :: c :: p =>
    if b = 0 then some []
    else if b = 37 then
      if c = 0 || isAlnum c || p.head?.any isSuffix then none
      else (plainItems p).map fun items => .one (· == c) :: items
    else if isMagic b || isSuffix c then none
    else (plainItems (c :: p)).map fun items => .one (· == b) :: items

/-- `string.gsub(str, '[...]', '%%%1')` where the class is `c`. -/
def escape (c : UInt8 → Bool) (str : Bytes) : Bytes := gsub [.one c] (fun m => 37 :: m.whole) str

/-- The second result of `gsub`: how many matches it replaced. `n` rounds of its loop. -/
def gsubCountN {α : Type} (p : List (Item α)) : Nat → List α → Nat
  | 0, _ => 0
  | n + 1, s =>
    match matchHere p s, s with
    | none, [] => 0
    | none, _ :: s => gsubCountN p n s
    | some _, [] => 1
    | some m, _ :: s => 1 + if m.whole.isEmpty then gsubCountN p n s else gsubCountN p n m.rest

def gsubCount {α : Type} (p : List (Item α)) (s : List α) : Nat := gsubCountN p (s.length + 1) s

/-- `string.match(s, pattern, init)` for an `init` that is not negative: the search begins at that
position, the first one being 1. -/
def searchFrom {α : Type} (p : List (Item α)) (init : Nat) (s : List α) : Option (Match α) :=
  search p (s.drop (init - 1))

/-- The items that match a text and nothing else. -/
def textItems (t : Bytes) : List (Item UInt8) := t.map fun b => .one (· == b)

theorem escape_cons (c : UInt8 → Bool) (b : UInt8) (t : Bytes) :
    escape c (b :: t) = (if c b then [37, b] else [b]) ++ escape c t := by
  have hescape : ∀ t, escape c t = t.flatMap fun b => if c b then [37, b] else [b] := fun t =>
    gsub_one (g := fun b => [37, b]) (fun _ _ => rfl) t
  rw [hescape, hescape, List.flatMap_cons]

theorem gsubCount_one {α : Type} (c : α → Bool) (s : List α) :
    gsubCount [.one c] s = s.countP c := by
  suffices h : ∀ n, s.length < n → gsubCountN [.one c] n s = s.countP c from h _ (Nat.lt_succ_self _)
  induction s with
  | nil =>
    intro n hn
    obtain ⟨n, rfl⟩ : ∃ m, n = m + 1 := ⟨n - 1, by simp at hn; omega⟩
    simp [gsubCountN, matchHere_one_nil]
  | cons b s ih =>
    intro n hn
    obtain ⟨n, rfl⟩ : ∃ m, n = m + 1 := ⟨n - 1, by simp at hn; omega⟩
    have hrest := ih n (by simpa using hn)
    by_cases hb : c b
    · simp [gsubCountN, matchHere_one_cons, hb, hrest, Nat.add_comm]
    · simp [gsubCountN, matchHere_one_cons, hb, hrest]

section Escape

variable {c : UInt8 → Bool} {b : UInt8} {t s : Bytes}

theorem isMagic_of_isSuffix : ∀ b, isSuffix b = true → isMagic b = true ∧ b ≠ 0 :=
  forall_byte (by decide +kernel)

/-- An escaped text does not begin with a repetition sign. -/
theorem escape_head (hmagic : ∀ b, isMagic b = true → b ≠ 0 → c b = true) (t : Bytes) :
    (escape c t).head?.any isSuffix = false := by
  cases t with
  | nil => rfl
  | cons b t =>
    rw [escape_cons]
    split_ifs with hb
    · rfl
    · cases hs : isSuffix b with
      | false => simp [hs]
      | true =>
        obtain ⟨hm, hne⟩ := isMagic_of_isSuffix b hs
        exact absurd (hmagic b hm hne) hb

theorem plainItems_escaped (hb : b ≠ 0) (halnum : isAlnum b = false)
    (ht : t.head?.any isSuffix = false) :
    plainItems (37 :: b :: t) = (plainItems t).map fun items => .one (· == b) :: items := by
  simp [plainItems, hb, halnum, ht]

theorem plainItems_plain (hb : isMagic b = false) (ht : t.head?.any isSuffix = false) :
    plainItems (b :: t) = (plainItems t).map fun items => .one (· == b) :: items := by
  have hzero : b ≠ 0 := by
    rintro rfl
    cases hb
  have hescape : b ≠ 37 := by
    rintro rfl
    cases hb
  cases t with
  | nil => simp [plainItems, hb, hzero]
  | cons d t =>
    have hd : isSuffix d = false := by simpa using ht
    simp [plainItems, hb, hd, hzero, hescape]

/-- Escaping what is magic, and nothing that is alphanumeric, gives a pattern that matches the text
as it is. -/
theorem plainItems_escape (hmagic : ∀ b, isMagic b = true → b ≠ 0 → c b = true)
    (halnum : ∀ b, c b = true → isAlnum b = false) (ht : ∀ b ∈ t, b ≠ 0) :
    plainItems (escape c t) = some (textItems t) := by
  induction t with
  | nil => rfl
  | cons b t ih =>
    have hrest := ih fun d hd => ht d (List.mem_cons_of_mem b hd)
    have hzero := ht b List.mem_cons_self
    have hhead := escape_head hmagic t
    rw [escape_cons]
    split_ifs with hb
    · rw [List.cons_append, List.singleton_append,
        plainItems_escaped hzero (halnum b hb) hhead, hrest]
      rfl
    · have hplain : isMagic b = false := by
        cases hm : isMagic b with
        | false => rfl
        | true => exact absurd (hmagic b hm hzero) hb
      rw [List.singleton_append, plainItems_plain hplain hhead, hrest]
      rfl

theorem doMatch_textItems (t s : Bytes) (cs : List (Capture UInt8)) :
    doMatch (textItems t) cs s = if t <+: s then some (cs, s.drop t.length) else none := by
  induction t generalizing s with
  | nil => simp [textItems, doMatch]
  | cons b t ih =>
    cases s with
    | nil => simp [textItems, doMatch]
    | cons d s =>
      by_cases hd : d = b
      · subst hd
        simpa [textItems, doMatch] using ih s
      · have hne : b ≠ d := fun h => hd h.symm
        simp [textItems, doMatch, hd, hne]

/-- The pattern of a text is found where the text occurs. -/
theorem search_textItems (t s : Bytes) : (search (textItems t) s).isSome = true ↔ t <:+: s := by
  have hhere : ∀ s, (matchHere (textItems t) s).isSome = true ↔ t <+: s := by
    intro s
    rw [matchHere, doMatch_textItems]
    by_cases h : t <+: s <;> simp [h]
  induction s with
  | nil => simpa [search] using hhere []
  | cons b s ih => simp [search, Option.isSome_or, hhere, ih, List.infix_cons_iff]

end Escape

end TuxBot.Lua.Pattern
