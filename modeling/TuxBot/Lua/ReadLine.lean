import TuxBot.Lua.Bytes

/-! Reading a file line by line: `read_line` of liolib.c, which takes what `fgets` stored up to its
first NUL. -/
namespace TuxBot.Lua

/-- The reader of a file: the complete lines, what the present line has so far, how many bytes `fgets`
may store beside the next one, and whether it has stored a NUL. -/
structure Reader where
  lines : List Bytes
  line : Bytes
  room : Nat
  cut : Bool
  deriving DecidableEq

namespace Reader

/-- The next byte, where `fgets` stores at most `size + 1` of them. A newline that `fgets` stored after
a NUL does not end the line. -/
def byte (size : Nat) (r : Reader) (b : UInt8) : Reader :=
  if b = 10 then
    if r.cut then { r with room := size, cut := false }
    else ⟨r.lines ++ [r.line], [], size, false⟩
  else
    let cut := r.cut || b == 0
    let line := if cut then r.line else r.line ++ [b]
    match r.room with
    | 0 => { r with line, room := size, cut := false }
    | room + 1 => { r with line, room, cut }

def read (size : Nat) (file : Bytes) : Reader := file.foldl (byte size) ⟨[], [], size, false⟩

/-- The reader stands at the beginning of a line. -/
def AtLineStart (r : Reader) : Prop := r.line = [] ∧ r.cut = false

instance decidableAtLineStart (r : Reader) : Decidable r.AtLineStart :=
  inferInstanceAs (Decidable (r.line = [] ∧ r.cut = false))

/-- The end of the file ends a line that has something in it. -/
def all (r : Reader) : List Bytes := if r.line = [] then r.lines else r.lines ++ [r.line]

end Reader

/-- The lines that `f:lines()` yields. -/
def fileLines (size : Nat) (file : Bytes) : List Bytes := (Reader.read size file).all

/-- No byte of it ends a line or a C string. -/
def OneLine (s : Bytes) : Prop := ∀ b ∈ s, b ≠ 10 ∧ b ≠ 0

instance decidableOneLine (s : Bytes) : Decidable (OneLine s) :=
  decidable_of_iff (s.all fun b => b != 10 && b != 0) (by simp [OneLine])

namespace Reader

variable {size : Nat} {r : Reader} {b : UInt8} {s file : Bytes}

theorem read_append : read size (file ++ s) = s.foldl (byte size) (read size file) := by
  rw [read, read, List.foldl_append]

theorem byte_plain (size : Nat) (hb : b ≠ 10 ∧ b ≠ 0) (hcut : r.cut = false) :
    (r.byte size b).lines = r.lines ∧ (r.byte size b).line = r.line ++ [b] ∧
      (r.byte size b).cut = false := by
  have hnul : (b == 0) = false := by simpa using hb.2
  rw [byte, if_neg hb.1, hcut, hnul]
  cases r.room <;> exact ⟨rfl, rfl, rfl⟩

/-- A string without newline and NUL is read as it is, however it falls into calls of `fgets`. -/
theorem foldl_plain (size : Nat) (hs : OneLine s) (hcut : r.cut = false) :
    (s.foldl (byte size) r).lines = r.lines ∧ (s.foldl (byte size) r).line = r.line ++ s ∧
      (s.foldl (byte size) r).cut = false := by
  induction s generalizing r with
  | nil => exact ⟨rfl, (List.append_nil _).symm, hcut⟩
  | cons b s ih =>
    obtain ⟨hlines, hline, hstill⟩ := byte_plain size (hs b List.mem_cons_self) hcut
    obtain ⟨hlines', hline', hstill'⟩ := ih (fun x hx => hs x (List.mem_cons_of_mem b hx)) hstill
    refine ⟨hlines'.trans hlines, ?_, hstill'⟩
    rw [List.foldl_cons, hline', hline, List.append_assoc, List.singleton_append]

theorem byte_newline (hcut : r.cut = false) :
    r.byte size 10 = ⟨r.lines ++ [r.line], [], size, false⟩ := by simp [byte, hcut]

/-- A whole line read from the beginning of one. -/
theorem foldl_line (hs : OneLine s) (hr : r.AtLineStart) :
    (s ++ [10]).foldl (byte size) r = ⟨r.lines ++ [s], [], size, false⟩ := by
  obtain ⟨hlines, hline, hcut⟩ := foldl_plain size hs hr.2
  rw [List.foldl_append, List.foldl_cons, List.foldl_nil, byte_newline hcut, hlines, hline, hr.1,
    List.nil_append]

/-- Whole lines read from the beginning of one. -/
theorem foldl_lines (size : Nat) {lines : List Bytes} (hlines : ∀ s ∈ lines, OneLine s) (hr : r.AtLineStart) :
    ((lines.flatMap fun s => s ++ [10]).foldl (byte size) r).lines = r.lines ++ lines ∧
      ((lines.flatMap fun s => s ++ [10]).foldl (byte size) r).AtLineStart := by
  induction lines generalizing r with
  | nil => exact ⟨(List.append_nil _).symm, hr⟩
  | cons s lines ih =>
    rw [List.flatMap_cons, List.foldl_append, foldl_line (hlines s List.mem_cons_self) hr]
    obtain ⟨hall, hstart⟩ := ih (r := ⟨r.lines ++ [s], [], size, false⟩)
      (fun x hx => hlines x (List.mem_cons_of_mem s hx)) ⟨rfl, rfl⟩
    exact ⟨hall.trans (by simp), hstart⟩

theorem all_of_atLineStart (hr : r.AtLineStart) : r.all = r.lines := if_pos hr.1

/-- Nothing that was read has a newline or a NUL. -/
def Clean (r : Reader) : Prop := (∀ s ∈ r.lines, OneLine s) ∧ OneLine r.line

theorem clean_byte (hr : r.Clean) : (r.byte size b).Clean := by
  have hempty : OneLine [] := nofun
  rw [byte]
  split
  · split
    · exact hr
    · refine ⟨fun s hs => ?_, hempty⟩
      rcases List.mem_append.mp hs with hs | hs
      · exact hr.1 s hs
      · rw [List.mem_singleton.mp hs]
        exact hr.2
  · rename_i hb
    have hline : OneLine (if (r.cut || b == 0) = true then r.line else r.line ++ [b]) := by
      split
      · exact hr.2
      · rename_i hcut
        have hnul : b ≠ 0 := fun h => hcut (by simp [h])
        intro x hx
        rcases List.mem_append.mp hx with hx | hx
        · exact hr.2 x hx
        · rw [List.mem_singleton.mp hx]
          exact ⟨hb, hnul⟩
    cases r.room <;> exact ⟨hr.1, hline⟩

theorem clean_read (size : Nat) (file : Bytes) : (read size file).Clean := by
  have hfold : ∀ (s : Bytes) (r : Reader), r.Clean → (s.foldl (byte size) r).Clean := by
    intro s
    induction s with
    | nil => exact fun r hr => hr
    | cons b s ih => exact fun r hr => ih _ (clean_byte hr)
  exact hfold file _ ⟨nofun, nofun⟩

end Reader

variable {size : Nat} {file s : Bytes}

theorem oneLine_of_mem_fileLines (h : s ∈ fileLines size file) : OneLine s := by
  obtain ⟨hlines, hline⟩ := Reader.clean_read size file
  rw [fileLines, Reader.all] at h
  split at h
  · exact hlines s h
  · rcases List.mem_append.mp h with h | h
    · exact hlines s h
    · rw [List.mem_singleton.mp h]
      exact hline

/-- What was written as lines is read as these lines. -/
theorem fileLines_flatMap {lines : List Bytes} (hlines : ∀ s ∈ lines, OneLine s) :
    fileLines size (lines.flatMap fun s => s ++ [10]) = lines := by
  obtain ⟨hall, hstart⟩ := Reader.foldl_lines size (r := ⟨[], [], size, false⟩) hlines ⟨rfl, rfl⟩
  rw [fileLines, Reader.read, Reader.all_of_atLineStart hstart, hall, List.nil_append]

/-- A line appended to a file is read after the others, if the file ends where a line may begin. -/
theorem fileLines_append (hs : OneLine s) (hstart : (Reader.read size file).AtLineStart) :
    fileLines size (file ++ (s ++ [10])) = fileLines size file ++ [s] := by
  rw [fileLines, Reader.read_append, Reader.foldl_line hs hstart, fileLines,
    Reader.all_of_atLineStart hstart]
  rfl

end TuxBot.Lua
