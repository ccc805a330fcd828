import TuxBot.Lua.Bytes

/-! Patterns as `lstrlib.c` reads them: byte by byte while they are matched, with captures that are
undone where a match fails. -/
namespace TuxBot.Lua.Lstrlib

/-- The length of a capture, or what stands for it. -/
inductive CapLen where
  | unfinished
  | position
  | chars (n : Nat)
  deriving DecidableEq

/-- A capture; `init` is what is left of the subject where it begins. -/
structure Cap where
  init : Bytes
  len : CapLen
  deriving DecidableEq

/-- What a call of `match` leaves: the captures, the last one first, and what is left of the subject
if it succeeds. The messages are those that `luaL_error` is given. -/
abbrev Result := Except Bytes (List Cap × Option Bytes)

def LUA_MAXCAPTURES : Nat := 32

def isCntrl (b : UInt8) : Bool := b < 32 || b == 127
def isPunct (b : UInt8) : Bool := 33 ≤ b && b ≤ 126 && !isAlnum b
def isXdigit (b : UInt8) : Bool := isDigit b || (65 ≤ b && b ≤ 70) || (97 ≤ b && b ≤ 102)

/-! ### Single characters -/

/-- The letters of the cases are a, c, d, l, p, s, u, w, x and z. -/
def match_class (c cl : UInt8) : Bool :=
  let res : Option Bool :=
    match toLower cl with
    | 97 => some (isAlpha c)
    | 99 => some (isCntrl c)
    | 100 => some (isDigit c)
    | 108 => some (isLower c)
    | 112 => some (isPunct c)
    | 115 => some (isSpace c)
    | 117 => some (isUpper c)
    | 119 => some (isAlnum c)
    | 120 => some (isXdigit c)
    | 122 => some (c == 0)
    | _ => none
  match res with
  | some res => if isLower cl then res else !res
  | none => cl == c

/-- The loop of `classend` that looks for a `]`; `%` takes the next character with it. -/
def bracketend : Bytes → Except Bytes Bytes
  | [] => .error "malformed pattern (missing ']')"
  | 37 :: _ :: p => if p.head? = some 93 then .ok p.tail else bracketend p
  | _ :: p => if p.head? = some 93 then .ok p.tail else bracketend p

/-- What follows a single character class. -/
def classend : Bytes → Except Bytes Bytes
  | [] => .ok []
  | [37] => .error "malformed pattern (ends with '%')"
  | 37 :: _ :: p => .ok p
  | 91 :: 94 :: p => bracketend p
  | 91 :: p => bracketend p
  | _ :: p => .ok p

/-- The loop of `matchbracketclass`; `%` at the end of the set takes the `]` behind it. -/
def inset (c : UInt8) : Bytes → Bool
  | [] => false
  | [37] => match_class c 93
  | 37 :: cl :: set => match_class c cl || inset c set
  | lo :: 45 :: hi :: set => (lo ≤ c && c ≤ hi) || inset c set
  | b :: set => b == c || inset c set

/-- `set` is what stands between the brackets. -/
def matchbracketclass (c : UInt8) : Bytes → Bool
  | 94 :: set => !inset c set
  | set => inset c set

/-- `item` reaches from `p` to `ep`. -/
def singlematch (c : UInt8) (item : Bytes) : Bool :=
  match item with
  | [] => false
  | 46 :: _ => true
  | 37 :: cl :: _ => match_class c cl
  | 91 :: set => matchbracketclass c set.dropLast
  | b :: _ => b == c

/-! ### Matching -/

/-- The loop of `matchbalance`, with `cont` openings more than closings. -/
def balance (b e : UInt8) : Nat → Bytes → Option Bytes
  | _, [] => none
  | cont, a :: s =>
    if a = e then
      if cont = 1 then some s else balance b e (cont - 1) s
    else if a = b then balance b e (cont + 1) s
    else balance b e cont s

def matchbalance (b e : UInt8) : Bytes → Option Bytes
  | [] => none
  | a :: s => if a = b then balance b e 1 s else none

/-- A call of `match`, and what is done when it has failed. -/
def orelse (res : Result) (next : List Cap → Result) : Result := do
  match ← res with
  | (ms, some s) => return (ms, some s)
  | (ms, none) => next ms

section

variable (k : List Cap → Bytes → Result)

/-- The second loop of `max_expand`, from `i` repetitions down. -/
def maxLoop (s : Bytes) : Nat → List Cap → Result
  | 0, ms => k ms s
  | i + 1, ms => orelse (k ms (s.drop (i + 1))) (maxLoop s i)

def max_expand (single : UInt8 → Bool) (ms : List Cap) (s : Bytes) : Result :=
  maxLoop k s (s.takeWhile single).length ms

def min_expand (single : UInt8 → Bool) (ms : List Cap) : Bytes → Result
  | [] => k ms []
  | b :: s => orelse (k ms (b :: s)) fun ms =>
    if single b then min_expand single ms s else .ok (ms, none)

def start_capture (ms : List Cap) (s : Bytes) (what : CapLen) : Result :=
  if ms.length ≥ LUA_MAXCAPTURES then .error "too many captures"
  else orelse (k (⟨s, what⟩ :: ms) s) fun ms => .ok (ms.tail, none)

def capture_to_close (ms : List Cap) : Option Nat := ms.findIdx? fun c => c.len = .unfinished

def end_capture (ms : List Cap) (s : Bytes) : Result :=
  match capture_to_close ms with
  | none => .error "invalid pattern capture"
  | some l =>
    orelse (k (ms.modify l fun c => { c with len := .chars (c.init.length - s.length) }) s) fun ms =>
      .ok (ms.modify l fun c => { c with len := .unfinished }, none)

end

/-- `l` is the digit that names the capture. -/
def match_capture (ms : List Cap) (s : Bytes) (l : UInt8) : Except Bytes (Option Bytes) :=
  if l < 49 ∨ ms.length ≤ (l - 49).toNat then .error "invalid capture index"
  else
    match ms[ms.length - 1 - (l - 49).toNat]? with
    | some ⟨init, .chars n⟩ =>
      .ok (if n ≤ s.length ∧ s.take n = init.take n then some (s.drop n) else none)
    | some ⟨_, .position⟩ => .ok none
    | _ => .error "invalid capture index"

/-- The part of `match` for a pattern item, with `rec` for the calls of `match`. -/
def matchitem (rec : List Cap → Bytes → Bytes → Result) (ms : List Cap) (s p : Bytes) : Result := do
  let ep ← classend p
  let single c := singlematch c (p.take (p.length - ep.length))
  let m := s.head?.any single
  match ep with
  | 63 :: p => if m then orelse (rec ms s.tail p) fun ms => rec ms s p else rec ms s p
  | 42 :: p => max_expand (rec · · p) single ms s
  | 43 :: p => if m then max_expand (rec · · p) single ms s.tail else return (ms, none)
  | 45 :: p => min_expand (rec · · p) single ms s
  | p => if m then rec ms s.tail p else return (ms, none)

/-- `match`. Every call of itself is for less of the pattern, so that its length is enough fuel. -/
def do_match (src : Bytes) : Nat → List Cap → Bytes → Bytes → Result
  | 0, ms, _, _ => .ok (ms, none)
  | fuel + 1, ms, s, p =>
    match p with
    | [] => .ok (ms, some s)
    | 40 :: 41 :: p => start_capture (do_match src fuel · · p) ms s .position
    | 40 :: p => start_capture (do_match src fuel · · p) ms s .unfinished
    | 41 :: p => end_capture (do_match src fuel · · p) ms s
    | 37 :: 98 :: b :: e :: p =>
      match matchbalance b e s with
      | none => .ok (ms, none)
      | some s => do_match src fuel ms s p
    | 37 :: 98 :: _ => .error "unbalanced pattern"
    | 37 :: 102 :: p => do
      if p.head? ≠ some 91 then .error "missing '[' after '%f' in pattern"
      else
        let ep ← classend p
        let set := (p.take (p.length - ep.length)).tail.dropLast
        let previous := if s.length = src.length then 0 else src.getD (src.length - s.length - 1) 0
        if matchbracketclass previous set ∨ ¬ matchbracketclass (s.headD 0) set then return (ms, none)
        else do_match src fuel ms s ep
    | 37 :: d :: q =>
      if isDigit d then do
        match ← match_capture ms s d with
        | none => return (ms, none)
        | some s => do_match src fuel ms s q
      else matchitem (do_match src fuel) ms s (37 :: d :: q)
    | [36] => .ok (ms, if s = [] then some s else none)
    | p => matchitem (do_match src fuel) ms s p

/-! ### The functions of the library -/

inductive Pushed where
  | string (text : Bytes)
  | integer (n : Nat)
  deriving DecidableEq

def push_onecapture (src : Bytes) (ms : List Cap) (i : Nat) (s e : Bytes) : Except Bytes Pushed :=
  if ms.length ≤ i then
    if i = 0 then .ok (.string (s.take (s.length - e.length)))
    else .error "invalid capture index"
  else
    match ms[ms.length - 1 - i]? with
    | some ⟨init, .chars n⟩ => .ok (.string (init.take n))
    | some ⟨init, .position⟩ => .ok (.integer (src.length - init.length + 1))
    | _ => .error "unfinished capture"

def push_captures (src : Bytes) (ms : List Cap) (s e : Bytes) : Except Bytes (List Pushed) :=
  (List.range (if ms.length = 0 then 1 else ms.length)).mapM fun i => push_onecapture src ms i s e

/-- A C string ends at its first NUL. -/
def cstring (p : Bytes) : Bytes := p.takeWhile (· ≠ 0)

/-- A call of `match` with no captures yet. -/
def matchat (src p s : Bytes) : Result := do_match src (p.length + 1) [] s p

/-- The loop of `str_find_aux`: the captures, and what is left of the subject where the match begins
and where it ends. -/
def str_find_aux (src p : Bytes) (anchor : Bool) :
    Bytes → Except Bytes (Option (List Cap × Bytes × Bytes))
  | [] => do
    match ← matchat src p [] with
    | (ms, some e) => return some (ms, [], e)
    | (_, none) => return none
  | b :: s => do
    match ← matchat src p (b :: s) with
    | (ms, some e) => return some (ms, b :: s, e)
    | (_, none) => if anchor then return none else str_find_aux src p anchor s

/-- The pattern behind its anchor. -/
def unanchored (p : Bytes) : Bytes × Bool :=
  match p with
  | 94 :: p => (p, true)
  | p => (p, false)

/-- `string.match(src, p)` -/
def str_match (src p : Bytes) : Except Bytes (Option (List Pushed)) := do
  let (p, anchor) := unanchored (cstring p)
  match ← str_find_aux src p anchor src with
  | some (ms, s, e) => return some (← push_captures src ms s e)
  | none => return none

/-- The values of `string.gmatch(src, p)`, at most `n` times, from where the last match has ended.
Here `^` is no anchor. -/
def gmatch_aux (src p : Bytes) : Nat → Bytes → Except Bytes (List (List Pushed))
  | 0, _ => .ok []
  | n + 1, s => do
    match ← str_find_aux src p false s with
    | none => return []
    | some (ms, s, e) =>
      let values ← push_captures src ms s e
      -- the next search begins behind the end of the subject
      if e = s ∧ e = [] then return [values]
      else return values :: (← gmatch_aux src p n (if e = s then e.tail else e))

def gmatch (src p : Bytes) : Except Bytes (List (List Pushed)) :=
  gmatch_aux src (cstring p) (src.length + 1) src

/-- What `luaL_addvalue` makes of a capture. -/
def Pushed.text : Pushed → Bytes
  | string text => text
  | integer n => lit (toString n)

/-- The replacement string `news`, with its digits replaced. A `%` at the end takes the NUL behind it. -/
def add_s (src : Bytes) (ms : List Cap) (s e : Bytes) : Bytes → Except Bytes Bytes
  | [] => .ok []
  | [37] => .ok [0]
  | 37 :: d :: news => do
    let piece ←
      if !isDigit d then .ok [d]
      else if d = 48 then .ok (s.take (s.length - e.length))
      else return (← push_onecapture src ms (d - 49).toNat s e).text
    return piece ++ (← add_s src ms s e news)
  | b :: news => return b :: (← add_s src ms s e news)

/-- The loop of `str_gsub` over what is left of the subject: what it adds to the buffer, and how
often it has replaced something. `add` stands for `add_value`. -/
def gsubLoop (src p : Bytes) (anchor : Bool) (add : List Cap → Bytes → Bytes → Except Bytes Bytes)
    (max_s : Nat) : Nat → Nat → Bytes → Except Bytes (Bytes × Nat)
  | 0, n, s => .ok (s, n)
  | fuel + 1, n, s => do
    if n < max_s then
      let (ms, res) ← matchat src p s
      let value ← match res with
        | some e => add ms s e
        | none => .ok []
      let n := if res.isSome then n + 1 else n
      match res.filter fun e => e.length < s.length, s with
      | some e, _ =>
        let (rest, n) ← if anchor then .ok (e, n) else gsubLoop src p anchor add max_s fuel n e
        return (value ++ rest, n)
      | none, b :: s =>
        let (rest, n) ← if anchor then .ok (s, n) else gsubLoop src p anchor add max_s fuel n s
        return (value ++ b :: rest, n)
      | none, [] => return (value, n)
    else return (s, n)

/-- `string.gsub`, with as many replacements as there are places. -/
def str_gsub (src p : Bytes) (add : List Cap → Bytes → Bytes → Except Bytes Bytes) :
    Except Bytes (Bytes × Nat) :=
  let (p, anchor) := unanchored (cstring p)
  gsubLoop src p anchor add (src.length + 1) (src.length + 1) 0 src

end TuxBot.Lua.Lstrlib
