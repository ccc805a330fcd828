import Mathlib.Data.List.TakeWhile
import Mathlib.Data.Fin.Basic

/-! Byte strings and the character classes of the C locale. -/
namespace TuxBot.Lua

/-- A Lua string: any sequence of bytes. -/
abbrev Bytes := List UInt8

/-- The bytes of an ASCII literal. -/
def lit (s : String) : Bytes := s.toList.map fun c => UInt8.ofNat c.toNat

instance : Coe String Bytes := ⟨lit⟩

def isUpper (b : UInt8) : Bool := 65 ≤ b && b ≤ 90
def isLower (b : UInt8) : Bool := 97 ≤ b && b ≤ 122
def isAlpha (b : UInt8) : Bool := isUpper b || isLower b
def isDigit (b : UInt8) : Bool := 48 ≤ b && b ≤ 57
def isAlnum (b : UInt8) : Bool := isAlpha b || isDigit b
def isSpace (b : UInt8) : Bool := b == 32 || (9 ≤ b && b ≤ 13)

def toUpper (b : UInt8) : UInt8 := if isLower b then b - 32 else b
def toLower (b : UInt8) : UInt8 := if isUpper b then b + 32 else b

/-- `string.upper` and `string.lower`. -/
def upper (s : Bytes) : Bytes := s.map toUpper
def lower (s : Bytes) : Bytes := s.map toLower

/-- `%s` in `string.format`: the C function cuts a short string at its first NUL. -/
def formatString (s : Bytes) : Bytes := if 100 ≤ s.length then s else s.takeWhile (· ≠ 0)

theorem formatString_of_ne_zero {s : Bytes} (h : ∀ b ∈ s, b ≠ 0) : formatString s = s := by
  rw [formatString]
  split
  · rfl
  · rw [List.takeWhile_eq_self_iff]
    intro b hb
    simpa using h b hb

/-- A statement about every byte is a check of 256 cases. -/
theorem forall_byte {P : UInt8 → Prop} (h : ∀ n : Fin 256, P (UInt8.ofNat n.val)) (b : UInt8) :
    P b := by
  have hb := h ⟨b.toNat, b.toNat_lt⟩
  simpa using hb

/-- The longest run of `p` at the front of a string, and what follows it. -/
theorem exists_span {α : Type} (p : α → Bool) (s : List α) : ∃ u v, s = u ++ v ∧
    (∀ b ∈ u, p b = true) ∧ ∀ b ∈ v.head?, p b = false := by
  refine ⟨s.takeWhile p, s.dropWhile p, List.takeWhile_append_dropWhile.symm, ?_, ?_⟩
  · intro b hb
    exact List.mem_takeWhile_imp hb
  · intro b hb
    have hhead := List.head?_dropWhile_not p s
    rw [Option.mem_def.mp hb] at hhead
    exact hhead

/-- A suffix of `u ++ v` lies in `v` or begins inside `u`. -/
theorem suffix_append_cases {α : Type} {x u v : List α} (h : x <:+ u ++ v) :
    x <:+ v ∨ ∃ b ∈ u, x.head? = some b := by
  induction u with
  | nil => exact Or.inl h
  | cons b u ih =>
    rcases List.suffix_cons_iff.mp h with rfl | hx
    · exact Or.inr ⟨b, by simp, rfl⟩
    · rcases ih hx with hv | ⟨d, hd, he⟩
      · exact Or.inl hv
      · exact Or.inr ⟨d, by simp [hd], he⟩

end TuxBot.Lua
