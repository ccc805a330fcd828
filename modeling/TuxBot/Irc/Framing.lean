import TuxBot.Irc.Wire

/-! The line loop of `_on_readable`: its pattern, its reference, and why chunks do not matter. -/
namespace TuxBot.Irc

open TuxBot.Lua TuxBot.Lua.Pattern

def isCrlf (b : UInt8) : Bool := oneOf [13, 10] b

/-- `'^([\r\n]*(..-)[\r\n])'` -/
def linePattern : List (Item UInt8) :=
  [.start, .star isCrlf, .start, .one anyByte, .lazy anyByte, .stop, .one isCrlf, .stop]

/-- One pass of the loop: the line and the buffer without the match. -/
def nextLine (buf : Bytes) : Option (Bytes × Bytes) :=
  match (matchHere linePattern buf).map Match.values with
  | some [m, line] => some (line, buf.drop m.length)
  | _ => none

/-- `n` passes of the loop: the lines in order and the buffer left. -/
def drainN : Nat → Bytes → List Bytes × Bytes
  | 0, buf => ([], buf)
  | n + 1, buf =>
    match nextLine buf with
    | none => ([], buf)
    | some (line, rest) => (line :: (drainN n rest).1, (drainN n rest).2)

/-- Each pass removes bytes, so the loop ends within `buf.length` passes. -/
def drain (buf : Bytes) : List Bytes × Bytes := drainN buf.length buf

/-- Successive receive results appended to `_recvbuf`, each followed by the loop. -/
def feed : Bytes → List Bytes → List Bytes × Bytes
  | buf, [] => ([], buf)
  | buf, chunk :: chunks =>
    ((drain (buf ++ chunk)).1 ++ (feed (drain (buf ++ chunk)).2 chunks).1,
      (feed (drain (buf ++ chunk)).2 chunks).2)

/-- The messages the loop makes of what `feed` frames. -/
def received (nick : Bytes) (time : Int) (buf : Bytes) (chunks : List Bytes) : List Message :=
  (feed buf chunks).1.filterMap fun line => messageLineToTable nick time (lowlevelDequote line)

/-- The reference: the maximal runs without CR and LF that one of them follows, and the
unfinished run at the end. `part` is the run read so far. -/
def scan : Bytes → Bytes → List Bytes × Bytes
  | part, [] => ([], part)
  | part, b :: s =>
    if isCrlf b then
      if part = [] then scan [] s else (part :: (scan [] s).1, (scan [] s).2)
    else scan (part ++ [b]) s

section Scan

variable {part s t u : Bytes}

theorem scan_append (part s t : Bytes) : scan part (s ++ t) =
    ((scan part s).1 ++ (scan (scan part s).2 t).1, (scan (scan part s).2 t).2) := by
  induction s generalizing part with
  | nil => rfl
  | cons b s ih =>
    by_cases hb : isCrlf b
    · by_cases hp : part = []
      · simpa [scan, hb, hp] using ih []
      · simp [scan, hb, hp, ih []]
    · simpa [scan, hb] using ih (part ++ [b])

theorem scan_terminators (h : ∀ b ∈ t, isCrlf b = true) : scan [] t = ([], []) := by
  induction t with
  | nil => rfl
  | cons b t ih =>
    have hb := h b (by simp)
    simpa [scan, hb] using ih fun x hx => h x (by simp [hx])

theorem scan_run (part : Bytes) (h : ∀ b ∈ u, isCrlf b = false) :
    scan part u = ([], part ++ u) := by
  induction u generalizing part with
  | nil => simp [scan]
  | cons b u ih =>
    have hb := h b (by simp)
    simpa [scan, hb] using ih (part ++ [b]) fun x hx => h x (by simp [hx])

end Scan

/-! The pattern after its greedy `[\r\n]*`: some byte, a lazy run and a terminator. -/

def afterTerminators : List (Item UInt8) :=
  [.start, .one anyByte, .lazy anyByte, .stop, .one isCrlf, .stop]

section Pattern

variable {buf t u w s : Bytes} {b d : UInt8}

/-- The line runs to the first terminator after its first byte. -/
theorem afterTerminators_some (hu : ∀ x ∈ u, isCrlf x = false) (hd : isCrlf d = true) :
    doMatch afterTerminators [.unfinished (w ++ s)] (b :: (u ++ d :: s)) =
      some ([.closed (b :: u), .closed w], s) := by
  have hlazy : minExpand anyByte
      (doMatch [.stop, .one isCrlf, .stop]
        [.unfinished (b :: (u ++ d :: s)), .unfinished (w ++ s)]) (u ++ d :: s) =
      some ([.closed (b :: u), .closed w], s) := by
    apply minExpand_append (fun _ _ => rfl)
    · rintro x hx hne
      obtain ⟨y, x, rfl⟩ := List.exists_cons_of_ne_nil hne
      have hy := hu y (hx.subset (by simp))
      simp [doMatch, hy]
    · have hline := endCapture_append (b :: u) (d :: s) [.unfinished (w ++ s)]
      have hwhole := endCapture_append w s []
      simp only [List.cons_append] at hline
      simp [doMatch, hd, hline, endCapture_closed, hwhole]
  simpa [afterTerminators, doMatch, anyByte] using hlazy

/-- Without a terminator after the first byte there is no line. -/
theorem afterTerminators_none (hu : ∀ x ∈ u.tail, isCrlf x = false) :
    doMatch afterTerminators [.unfinished buf] u = none := by
  cases u with
  | nil => rfl
  | cons b u =>
    have hlazy : minExpand anyByte
        (doMatch [.stop, .one isCrlf, .stop] [.unfinished (b :: u), .unfinished buf]) u = none := by
      apply minExpand_eq_none
      intro x hx
      cases x with
      | nil => simp [doMatch]
      | cons y x =>
        have hy := hu y (hx.subset (by simp))
        simp [doMatch, hy]
    simpa [afterTerminators, doMatch, anyByte] using hlazy

theorem doMatch_linePattern (buf : Bytes) : doMatch linePattern [] buf =
    maxExpand isCrlf (doMatch afterTerminators [.unfinished buf]) buf := rfl

theorem nextLine_of_some {line rest whole : Bytes} (h : doMatch linePattern [] (whole ++ rest) =
      some ([.closed line, .closed whole], rest)) :
    nextLine (whole ++ rest) = some (line, rest) := by
  simp [nextLine, matchHere_of_some h, Match.values, Capture.text]

theorem nextLine_of_none (h : doMatch linePattern [] buf = none) : nextLine buf = none := by
  simp [nextLine, matchHere_of_none h]

/-- A finished run is the line, whatever terminators stand before it. -/
theorem nextLine_run (ht : ∀ x ∈ t, isCrlf x = true) (hb : isCrlf b = false)
    (hu : ∀ x ∈ u, isCrlf x = false) (hd : isCrlf d = true) :
    nextLine (t ++ b :: (u ++ d :: s)) = some (b :: u, s) := by
  have hm := maxExpand_append (v := b :: (u ++ d :: s)) ht (by simpa using hb)
    (afterTerminators_some (w := t ++ b :: (u ++ [d])) (s := s) (b := b) hu hd)
  have hsplit : t ++ b :: (u ++ d :: s) = t ++ b :: (u ++ [d]) ++ s := by simp
  rw [hsplit] at hm ⊢
  exact nextLine_of_some hm

/-- Two leftover terminators before an unfinished run: the pattern gives one of them back to its
first dot, so they make a line of a single terminator. -/
theorem nextLine_terminators {e : UInt8} (ht : ∀ x ∈ t, isCrlf x = true) (hd : isCrlf d = true)
    (he : isCrlf e = true) (hu : ∀ x ∈ u, isCrlf x = false) :
    nextLine (t ++ d :: e :: u) = some ([d], u) := by
  have hnone : ∀ x, x <:+ e :: u →
      doMatch afterTerminators [.unfinished (t ++ [d, e] ++ u)] x = none := by
    intro x hx
    apply afterTerminators_none
    intro y hy
    apply hu
    rcases List.suffix_cons_iff.mp hx with rfl | hx
    · exact hy
    · exact hx.subset (List.mem_of_mem_tail hy)
  have htwo : doMatch afterTerminators [.unfinished (t ++ [d, e] ++ u)] (d :: e :: u) =
      some ([.closed [d], .closed (t ++ [d, e])], u) :=
    afterTerminators_some (u := []) (by simp) he
  have hm := maxExpand_giveBack ht hd hnone htwo
  have hsplit : t ++ d :: e :: u = t ++ [d, e] ++ u := by simp
  rw [hsplit, ← doMatch_linePattern] at hm
  rw [hsplit]
  exact nextLine_of_some hm

/-- At most one leftover terminator before an unfinished run: no line yet. -/
theorem nextLine_unfinished (ht : t.length ≤ 1) (hu : ∀ x ∈ u, isCrlf x = false) :
    nextLine (t ++ u) = none := by
  apply nextLine_of_none
  rw [doMatch_linePattern]
  apply maxExpand_eq_none
  intro x hx
  apply afterTerminators_none
  intro y hy
  apply hu
  match t, ht with
  | [], _ => exact hx.subset (List.mem_of_mem_tail hy)
  | [d], _ =>
    rcases List.suffix_cons_iff.mp hx with rfl | hx
    · exact hy
    · exact hx.subset (List.mem_of_mem_tail hy)

end Pattern

/-- A line the loop frames: a finished run, or one terminator the pattern gave back. -/
def Framed (line : Bytes) : Prop :=
  (line ≠ [] ∧ ∀ b ∈ line, isCrlf b = false) ∨ ∃ d, isCrlf d = true ∧ line = [d]

/-- The finished runs among the framed lines. -/
def runs (lines : List Bytes) : List Bytes := lines.filter fun line => line.all fun b => !isCrlf b

theorem runs_append (l m : List Bytes) : runs (l ++ m) = runs l ++ runs m := List.filter_append ..

/-- A buffer is some terminators, an unfinished run, and nothing or a terminator and a rest. -/
theorem split_buffer (buf : Bytes) : ∃ t u s, buf = t ++ u ++ s ∧ (∀ b ∈ t, isCrlf b = true) ∧
    (∀ b ∈ u, isCrlf b = false) ∧ (∀ b ∈ s.head?, isCrlf b = true) ∧ (u = [] → s = []) := by
  obtain ⟨t, x, rfl, ht, hx⟩ := exists_span isCrlf buf
  obtain ⟨u, s, rfl, hu, hs⟩ := exists_span (fun b => !isCrlf b) x
  refine ⟨t, u, s, (List.append_assoc ..).symm, ht, ?_, ?_, ?_⟩
  · intro b hb
    simpa using hu b hb
  · intro b hb
    simpa using hs b hb
  · rintro rfl
    cases s with
    | nil => rfl
    | cons b s =>
      have hb := hx b (by simp)
      simp [hb] at hs

/-- One pass of the loop, in every shape a buffer can have: it reads what `scan` reads. -/
theorem nextLine_scan (buf : Bytes) :
    (nextLine buf = none ∧ (scan [] buf).1 = []) ∨
    ∃ line rest, nextLine buf = some (line, rest) ∧ rest.length < buf.length ∧ Framed line ∧
      scan [] buf = (runs [line] ++ (scan [] rest).1, (scan [] rest).2) := by
  obtain ⟨t, u, s, rfl, ht, hu, hs, hnil⟩ := split_buffer buf
  cases s with
  | cons d s =>
    -- the run is finished: it is the line, whatever stands before it
    have hd : isCrlf d = true := hs d (by simp)
    have hne : u ≠ [] := fun h => by simpa using hnil h
    obtain ⟨b, u, rfl⟩ := List.exists_cons_of_ne_nil hne
    have hb : isCrlf b = false := hu b (by simp)
    have hu' : ∀ x ∈ u, isCrlf x = false := fun x hx => hu x (by simp [hx])
    have hline := nextLine_run (s := s) ht hb hu' hd
    refine Or.inr ⟨b :: u, s, by simpa using hline, by simp; omega, Or.inl ⟨by simp, hu⟩, ?_⟩
    have hrun : runs [b :: u] = [b :: u] := by
      simp only [runs, List.filter_cons, List.filter_nil]
      simpa using hu
    rw [List.append_assoc, scan_append, scan_terminators ht, scan_append, scan_run [] hu, hrun]
    simp [scan, hd]
  | nil =>
    rw [List.append_nil]
    rcases Nat.lt_or_ge 1 t.length with hlen | hlen
    · -- the greedy run must give back: the line is the last terminator but one
      obtain ⟨t, d, e, rfl⟩ : ∃ t' d e, t = t' ++ [d, e] := by
        rcases t.eq_nil_or_concat with rfl | ⟨t, e, rfl⟩
        · simp at hlen
        · rcases t.eq_nil_or_concat with rfl | ⟨t, d, rfl⟩
          · simp at hlen
          · exact ⟨t, d, e, by simp⟩
      have hd : isCrlf d = true := ht d (by simp)
      have he : isCrlf e = true := ht e (by simp)
      have ht' : ∀ x ∈ t, isCrlf x = true := fun x hx => ht x (by simp [hx])
      have hline := nextLine_terminators ht' hd he hu
      refine Or.inr ⟨[d], u, by simpa using hline, by simp; omega, Or.inr ⟨d, hd, rfl⟩, ?_⟩
      have hrun : runs [[d]] = [] := by simp [runs, hd]
      rw [scan_append, scan_terminators ht, hrun]
    · refine Or.inl ⟨nextLine_unfinished hlen hu, ?_⟩
      rw [scan_append, scan_terminators ht, scan_run [] hu]
      rfl

/-- The loop ends: after `buf.length` passes there is no further line. It reads every finished
run, and what it leaves in the buffer is the unfinished one. -/
theorem drainN_scan {n : Nat} {buf : Bytes} (hn : buf.length ≤ n) :
    (∀ line ∈ (drainN n buf).1, Framed line) ∧ nextLine (drainN n buf).2 = none ∧
    scan [] buf = (runs (drainN n buf).1, (scan [] (drainN n buf).2).2) ∧
    (scan [] (drainN n buf).2).1 = [] := by
  induction n generalizing buf with
  | zero =>
    obtain rfl : buf = [] := List.length_eq_zero_iff.mp (by omega)
    exact ⟨by simp [drainN], rfl, rfl, rfl⟩
  | succ n ih =>
    rcases nextLine_scan buf with ⟨hnext, hscan⟩ | ⟨line, rest, hnext, hlen, hline, hscan⟩
    · simp only [drainN, hnext]
      exact ⟨by simp, trivial, Prod.ext hscan rfl, hscan⟩
    · obtain ⟨hframed, hdone, hrest, hempty⟩ := ih (show rest.length ≤ n by omega)
      simp only [drainN, hnext]
      refine ⟨?_, hdone, ?_, hempty⟩
      · intro l hl
        rcases List.mem_cons.mp hl with rfl | hl
        · exact hline
        · exact hframed l hl
      · rw [hscan, hrest, ← runs_append]
        rfl

/-- Any cut of a stream into chunks frames the same finished runs. -/
theorem feed_scan (buf : Bytes) (chunks : List Bytes) :
    (∀ line ∈ (feed buf chunks).1, Framed line) ∧
    ((scan [] buf).1 = [] → runs (feed buf chunks).1 = (scan [] (buf ++ chunks.flatten)).1) := by
  induction chunks generalizing buf with
  | nil => exact ⟨by simp [feed], fun h => by simpa [feed, runs] using h.symm⟩
  | cons chunk chunks ih =>
    obtain ⟨hframed, _, hscan, hempty⟩ := drainN_scan (Nat.le_refl (buf ++ chunk).length)
    obtain ⟨hframed', hruns⟩ := ih (drain (buf ++ chunk)).2
    refine ⟨?_, ?_⟩
    · intro line hl
      rcases List.mem_append.mp hl with hl | hl
      · exact hframed line hl
      · exact hframed' line hl
    · intro _
      have hrest := hruns hempty
      have hread : scan [] (buf ++ chunk) = (runs (drain (buf ++ chunk)).1,
        (scan [] (drain (buf ++ chunk)).2).2) := hscan
      have hleft : (scan [] (drain (buf ++ chunk)).2).1 = [] := hempty
      rw [List.flatten_cons, ← List.append_assoc, scan_append, hread]
      rw [scan_append, hleft] at hrest
      simpa [feed, runs_append] using hrest

end TuxBot.Irc
