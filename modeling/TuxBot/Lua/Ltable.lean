import Mathlib.Algebra.Group.Int.Defs
import Mathlib.Algebra.Group.Nat.Defs
import Mathlib.Algebra.GroupWithZero.Nat
import Mathlib.Data.Nat.Log
import TuxBot.Borders
import TuxBot.Chains
import TuxBot.Lua.Bytes

/-! Lua tables as `ltable.c` keeps them: an array part, and a chained scatter table for the rest. -/
namespace TuxBot.Lua.Ltable

/-- What the main position of a key is computed from. -/
inductive Hash where
  | pow2 (h : Nat)
  | mod (h : Nat)

/-- Values that a key can have. Two keys are equal if `luaO_rawequalObj` holds of them, so that one key
stands for both zeros, and NaN is none. -/
class Key (K : Type) where
  hash : K → Hash
  /-- The C integer that a number is equal to. -/
  toInt : K → Option Int
  ofInt : Int → K
  collectable : K → Bool
  toInt_ofInt : ∀ i : Int, -2 ^ 31 ≤ i → i < 2 ^ 31 → toInt (ofInt i) = some i
  ofInt_of_toInt : ∀ {k : K} {i : Int}, toInt k = some i → ofInt i = k

/-- What a table is indexed with. -/
inductive Index (K : Type) where
  | nil
  | nan
  | key (k : K)

/-- A dead key keeps its address, which stands for the object that was there. -/
inductive NodeKey (K : Type) where
  | nil
  | key (k : K)
  | dead (k : K)
  deriving DecidableEq

structure Node (K V : Type) where
  key : NodeKey K
  val : Option V
  next : Option Nat
  deriving DecidableEq

def dummynode {K V : Type} : Node K V := ⟨.nil, none, none⟩

/-- A hash part without nodes is the one that consists of `dummynode`. -/
structure Table (K V : Type) where
  array : List (Option V)
  lsizenode : Nat
  node : List (Node K V)
  lastfree : Nat
  deriving DecidableEq

/-- Where a value is kept. -/
inductive Slot where
  | array (i : Nat)
  | node (i : Nat)

inductive Error where
  | run (msg : Bytes)
  /-- `newkey` has called itself more often than it was given leave to. -/
  | depth
  deriving DecidableEq

def MAXBITS : Nat := 26
def MAXASIZE : Nat := 2 ^ MAXBITS

/-- `luaO_log2` reads from a table, eight bits at a time, how many bits a number has. -/
def ceillog2 (x : Nat) : Nat := if x ≤ 1 then 0 else (x - 1).log2 + 1

section

variable {K V : Type} [Key K] [DecidableEq K]

/-- -1 for a key that cannot live in an array. -/
def arrayindex (k : K) : Int := (Key.toInt k).getD (-1)

/-- The loop of `computesizes`: `a` keys are at most `2 ^ i / 2`, and `na` of them fit into `n` slots. -/
def computesizesLoop (nums : List Nat) (narray : Nat) : Nat → Nat → Nat → Nat → Nat → Nat × Nat
  | 0, _, _, na, n => (na, n)
  | fuel + 1, i, a, na, n =>
    let twotoi := 2 ^ i
    if twotoi / 2 < narray then
      let a := a + nums.getD i 0
      let (na, n) := if nums.getD i 0 > 0 ∧ a > twotoi / 2 then (a, twotoi) else (na, n)
      if a = narray then (na, n) else computesizesLoop nums narray fuel (i + 1) a na n
    else (na, n)

/-- How many keys go to the array part, and its size. -/
def computesizes (nums : List Nat) (narray : Nat) : Nat × Nat :=
  computesizesLoop nums narray (MAXBITS + 1) 0 0 0 0

def countint (k : K) (nums : List Nat) : List Nat × Nat :=
  let i := arrayindex k
  if 0 < i ∧ i ≤ MAXASIZE then (nums.modify (ceillog2 i.toNat) (· + 1), 1) else (nums, 0)

namespace Table

def gnode (t : Table K V) (i : Nat) : Node K V := t.node.getD i dummynode
def gnext (t : Table K V) (i : Nat) : Option Nat := (t.gnode i).next
def sizenode (t : Table K V) : Nat := 2 ^ t.lsizenode

def setnode (t : Table K V) (i : Nat) (n : Node K V) : Table K V := { t with node := t.node.set i n }

def mainposition (t : Table K V) (k : K) : Nat :=
  match Key.hash k with
  | .pow2 h => h % t.sizenode
  | .mod h => h % ((t.sizenode - 1) ||| 1)

/-! ### Reading -/

def value (t : Table K V) : Slot → Option V
  | .array i => t.array.getD i none
  | .node i => (t.gnode i).val

def setvalue (t : Table K V) (slot : Slot) (v : Option V) : Table K V :=
  match slot with
  | .array i => { t with array := t.array.set i v }
  | .node i => t.setnode i { t.gnode i with val := v }

/-- The walk along a chain, to the first node with a property. -/
def walk (t : Table K V) (p : Node K V → Bool) (i : Nat) : Option Nat :=
  seek t.gnext (fun i => p (t.gnode i)) (t.node.length + 1) i

/-- The loop that the search functions end with. -/
def search (t : Table K V) (k : K) : Option Nat :=
  t.walk (fun n => n.key = .key k) (t.mainposition k)

/-- No slot is `luaO_nilobject`. -/
def luaH_getnum (t : Table K V) (key : Int) : Option Slot :=
  if 1 ≤ key ∧ key ≤ t.array.length then some (.array (key - 1).toNat)
  else (t.search (Key.ofInt key)).map .node

def luaH_get (t : Table K V) : Index K → Option Slot
  | .nil => none
  | .nan => none
  | .key k =>
    match Key.toInt k with
    | some i => t.luaH_getnum i
    | none => (t.search k).map .node

/-! ### Sizes -/

def setarrayvector (t : Table K V) (size : Nat) : Table K V :=
  { t with array := t.array.take size ++ List.replicate (size - t.array.length) none }

def setnodevector (t : Table K V) (size : Nat) : Except Error (Table K V) :=
  if size = 0 then .ok { t with node := [], lsizenode := 0, lastfree := 0 }
  else
    let lsize := ceillog2 size
    if lsize > MAXBITS then .error (.run "table overflow")
    else
      let size := 2 ^ lsize
      .ok { t with node := List.replicate size ⟨.nil, none, none⟩, lsizenode := lsize, lastfree := size }

def luaH_new (narray nhash : Nat) : Except Error (Table K V) :=
  setnodevector (setarrayvector ⟨[], 0, [], 0⟩ narray) nhash

def inuse (t : Table K V) (i : Nat) : Bool := (t.array.getD (i - 1) none).isSome

/-- The loop of `numusearray` over the slices that are left, with `i` as the next key. -/
def numusearrayLoop (t : Table K V) : List Nat → Nat → List Nat → Nat → List Nat × Nat
  | [], _, nums, ause => (nums, ause)
  | lg :: lgs, i, nums, ause =>
    let lim := min (2 ^ lg) t.array.length
    if 2 ^ lg > t.array.length ∧ i > lim then (nums, ause)
    else
      let lc := (List.range' i (lim + 1 - i)).countP t.inuse
      numusearrayLoop t lgs (lim + 1) (nums.modify lg (· + lc)) (ause + lc)

def numusearray (t : Table K V) (nums : List Nat) : List Nat × Nat :=
  numusearrayLoop t (List.range (MAXBITS + 1)) 1 nums 0

/-- The loop of `numusehash` over the nodes from the last to the first. -/
def numusehashLoop : List (Node K V) → List Nat → Nat → Nat → List Nat × Nat × Nat
  | [], nums, ause, totaluse => (nums, ause, totaluse)
  | n :: ns, nums, ause, totaluse =>
    match n.key, n.val with
    | .key k, some _ =>
      let (nums, c) := countint k nums
      numusehashLoop ns nums (ause + c) (totaluse + 1)
    | _, _ => numusehashLoop ns nums ause totaluse

def numusehash (t : Table K V) (nums : List Nat) (pnasize : Nat) : List Nat × Nat × Nat :=
  let (nums, ause, totaluse) := numusehashLoop t.node.reverse nums 0 0
  (nums, pnasize + ause, totaluse)

/-! ### Writing -/

section

variable (new : Table K V → K → Except Error (Table K V × Slot))

/-- `luaH_set` of a value that is neither nil nor NaN, with `new` for `newkey`. -/
def setkey (t : Table K V) (k : K) : Except Error (Table K V × Slot) :=
  match t.luaH_get (.key k) with
  | some slot => .ok (t, slot)
  | none => new t k

def setnum (t : Table K V) (key : Int) : Except Error (Table K V × Slot) :=
  match t.luaH_getnum key with
  | some slot => .ok (t, slot)
  | none => new t (Key.ofInt key)

/-- The elements of the vanishing slice, the first of them under the key `i`. -/
def reinsertslice : List (Option V) → Nat → Table K V → Except Error (Table K V)
  | [], _, t => .ok t
  | none :: vs, i, t => reinsertslice vs (i + 1) t
  | some v :: vs, i, t => do
    let (t, slot) ← setnum new t i
    reinsertslice vs (i + 1) (t.setvalue slot (some v))

/-- The elements of the nodes, one after another. -/
def reinsertnodes : List (Node K V) → Table K V → Except Error (Table K V)
  | [], t => .ok t
  | old :: olds, t =>
    match old.key, old.val with
    | .key k, some v => do
      let (t, slot) ← setkey new t k
      reinsertnodes olds (t.setvalue slot (some v))
    | _, _ => reinsertnodes olds t

def resize (t : Table K V) (nasize nhsize : Nat) : Except Error (Table K V) := do
  let oldasize := t.array.length
  let nold := t.node
  let t := if nasize > oldasize then t.setarrayvector nasize else t
  let t ← t.setnodevector nhsize
  let t ←
    if nasize < oldasize then
      reinsertslice new (t.array.drop nasize) (nasize + 1) (t.setarrayvector nasize)
    else .ok t
  reinsertnodes new nold.reverse t

def rehash (t : Table K V) (ek : K) : Except Error (Table K V) :=
  let nums := List.replicate (MAXBITS + 1) 0
  let (nums, nasize) := t.numusearray nums
  let totaluse := nasize
  let (nums, nasize, used) := t.numusehash nums nasize
  let totaluse := totaluse + used
  let (nums, c) := countint ek nums
  let nasize := nasize + c
  let totaluse := totaluse + 1
  let (na, nasize) := computesizes nums nasize
  resize new t nasize (totaluse - na)

end

/-- The place that `lastfree` comes to when it moves down from `i`. -/
def getfreepos (t : Table K V) : Nat → Option Nat
  | 0 => none
  | i + 1 => if (t.gnode i).key = .nil then some i else getfreepos t i

/-- The key is put into its main position `mp` or into the free place `n`. -/
def occupy (t : Table K V) (k : K) (mp n : Nat) : Table K V × Slot :=
  match (t.gnode mp).key with
  | .key k' =>
    let othern := t.mainposition k'
    if othern ≠ mp then
      match t.walk (fun n => n.next = some mp) othern with
      | some previous =>
        let t := t.setnode previous { t.gnode previous with next := some n }
        let t := t.setnode n (t.gnode mp)
        (t.setnode mp ⟨.key k, none, none⟩, .node mp)
      -- the colliding node is on the chain from its main position
      | none => (t, .node mp)
    else
      let t := t.setnode n { t.gnode n with key := .key k, next := t.gnext mp }
      (t.setnode mp { t.gnode mp with next := some n }, .node n)
  -- the colliding node has a value, and so a key
  | _ => (t, .node mp)

/-- A call that may rehash so many levels deep. -/
def newkey (depth : Nat) (t : Table K V) (k : K) : Except Error (Table K V × Slot) :=
  let mp := t.mainposition k
  if (t.gnode mp).val.isSome ∨ t.node = [] then
    match t.getfreepos t.lastfree with
    | some n => .ok (occupy { t with lastfree := n } k mp n)
    | none =>
      match depth with
      | 0 => .error .depth
      | depth + 1 => do
        let t ← rehash (newkey depth) t k
        setkey (newkey depth) t k
  else .ok (t.setnode mp { t.gnode mp with key := .key k }, .node mp)

/-- Nothing that is put back by a rehash makes another one necessary. -/
def luaH_set (t : Table K V) : Index K → Except Error (Table K V × Slot)
  | .nil => .error (.run "table index is nil")
  | .nan => .error (.run "table index is NaN")
  | .key k => setkey (newkey 1) t k

def luaH_setnum (t : Table K V) (key : Int) : Except Error (Table K V × Slot) :=
  setnum (newkey 1) t key

def luaH_resizearray (t : Table K V) (nasize : Nat) : Except Error (Table K V) :=
  let nsize := if t.node = [] then 0 else t.sizenode
  resize (newkey 1) t nasize nsize

/-- The collector marks what is left of a removed element. -/
def removeentry (n : Node K V) : Node K V :=
  match n.key, n.val with
  | .key k, none => if Key.collectable k then { n with key := .dead k } else n
  | _, _ => n

def traversetable (t : Table K V) : Table K V := { t with node := t.node.map removeentry }

/-! ### The length -/

def present (t : Table K V) (i : Nat) : Bool := ((t.luaH_getnum i).bind t.value).isSome

/-- The doubling loop; it ends with a window for the halving one, or with the result of the linear
search. -/
def doubling (t : Table K V) : Nat → Nat → Nat → Nat ⊕ Nat × Nat
  | 0, i, j => .inr (i, j)
  | fuel + 1, i, j =>
    if t.present j then
      if j * 2 > 2 ^ 31 - 1 then .inl (scan t.present (t.array.length + t.node.length) 1 - 1)
      else doubling t fuel j (j * 2)
    else .inr (i, j)

def unbound_search (t : Table K V) (j : Nat) : Nat :=
  match t.doubling 32 j (j + 1) with
  | .inl n => n
  | .inr (i, j) => bisect t.present j i j

def luaH_getn (t : Table K V) : Nat :=
  let j := t.array.length
  if 0 < j ∧ (t.array.getD (j - 1) none).isNone then bisect t.inuse j 0 j
  else if t.node = [] then j
  else t.unbound_search j

/-! ### The traversal -/

/-- The node has the key, or what the collector has left of it. -/
def samekey (k : K) (n : Node K V) : Bool := n.key = .key k ∨ n.key = .dead k

/-- The number behind that of the element with the key: first come the slots of the array part, then the
nodes. -/
def findindex (t : Table K V) : Index K → Except Error Nat
  | .nil => .ok 0
  | .nan => .error (.run "invalid key to 'next'")
  | .key k =>
    let i := arrayindex k
    if 0 < i ∧ i ≤ t.array.length then .ok i.toNat
    else
      match t.walk (samekey k) (t.mainposition k) with
      | some i => .ok (t.array.length + i + 1)
      | none => .error (.run "invalid key to 'next'")

/-- What is kept under a number. -/
def element (t : Table K V) (i : Nat) : Option (K × V) :=
  if i < t.array.length then (t.array.getD i none).map fun v => (Key.ofInt (i + 1 : Nat), v)
  else
    match (t.gnode (i - t.array.length)).key, (t.gnode (i - t.array.length)).val with
    | .key k, some v => some (k, v)
    | _, _ => none

/-- The element that follows the key. -/
def luaH_next (t : Table K V) (key : Index K) : Except Error (Option (K × V)) := do
  let i ← t.findindex key
  return (List.range' i (t.array.length + t.node.length - i)).findSome? t.element

end Table

end

/-! ### Integers as keys -/

/-- The two words of a double added up, for an integer other than 0 that has one. -/
def hashnum (z : Int) : Nat :=
  let e := z.natAbs.log2
  let mantissa := z.natAbs * 2 ^ (52 - e) - 2 ^ 52
  let sign := if z < 0 then 2 ^ 31 else 0
  (sign + (e + 1023) * 2 ^ 20 + mantissa / 2 ^ 32 + mantissa % 2 ^ 32) % 2 ^ 32

instance : Key Int where
  hash z := if z = 0 then .pow2 0 else .mod (hashnum z)
  toInt z := if -2 ^ 31 ≤ z ∧ z < 2 ^ 31 then some z else none
  ofInt z := z
  collectable _ := false
  toInt_ofInt _ hlow hhigh := if_pos ⟨hlow, hhigh⟩
  ofInt_of_toInt {k i} h := by
    split at h
    · exact (Option.some.inj h).symm
    · cases h

end TuxBot.Lua.Ltable
