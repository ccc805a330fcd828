import TuxBot.Lua.LtableRehash

/-! Tables along whole runs: they are finite maps from keys to values. -/
namespace TuxBot.Lua.Ltable

variable {K V : Type} [DecidableEq K]

/-- What is done to a table. `reserve` is how `OP_SETLIST` begins, and `traverse` comes from the
collector. -/
inductive Op (K V : Type) where
  | set (key : Index K) (v : Option V)
  | setnum (key : Int) (v : Option V)
  | reserve (last : Nat)
  | traverse

/-- Keys of `setnum` are C integers; no list of a constructor is longer than the largest array part. -/
def Op.Valid : Op K V → Prop
  | .setnum key _ => -2 ^ 31 ≤ key ∧ key < 2 ^ 31
  | .reserve last => last ≤ MAXASIZE
  | _ => True

variable [Key K]

def step (t : Table K V) : Op K V → Except Error (Table K V)
  | .set key v => do
    let (t, slot) ← t.luaH_set key
    return t.setvalue slot v
  | .setnum key v => do
    let (t, slot) ← t.luaH_setnum key
    return t.setvalue slot v
  | .reserve last => if last > t.array.length then t.luaH_resizearray last else .ok t
  | .traverse => .ok t.traversetable

def run : List (Op K V) → Table K V → Except Error (Table K V)
  | [], t => .ok t
  | op :: ops, t => step t op >>= run ops

/-- What an operation makes of the values under the keys. -/
def Op.apply (m : K → Option V) : Op K V → K → Option V
  | .set (.key k) v => Function.update m k v
  | .setnum key v => Function.update m (Key.ofInt key) v
  | _ => m

/-- What the operations put under the keys of an empty table. -/
def contents (ops : List (Op K V)) : K → Option V := ops.foldl Op.apply fun _ => none

/-- Why an operation may fail: its key, or too many elements. -/
inductive Raises : Op K V → Table K V → Error → Prop
  | nil (v : Option V) (t : Table K V) : Raises (.set .nil v) t (.run "table index is nil")
  | nan (v : Option V) (t : Table K V) : Raises (.set .nan v) t (.run "table index is NaN")
  | overflow (op : Op K V) {t : Table K V} (hmany : 2 ^ MAXBITS ≤ t.elements.length) :
    Raises op t (.run "table overflow")

namespace Table

variable {t t' t₀ : Table K V} {op : Op K V} {ops : List (Op K V)} {k : K} {e : Error}
  {i narray nhash : Nat}

/-- What an operation has done that did not fail. -/
structure Steps (t : Table K V) (op : Op K V) (t' : Table K V) : Prop where
  sound : t'.Sound
  lookup : t'.lookup = op.apply t.lookup

/-- Assigning to a key that is a value. -/
theorem Sound.assign (h : t.Sound) (k : K) (w : Option V) :
    2 ^ MAXBITS ≤ t.elements.length ∧
        Table.setkey (Table.newkey 1) t k = .error (.run "table overflow") ∨
      ∃ t' slot, Table.setkey (Table.newkey 1) t k = .ok (t', slot) ∧ (t'.setvalue slot w).Sound ∧
        (t'.setvalue slot w).lookup = Function.update t.lookup k w := by
  have hupdate {t' : Table K V} (hlookup : ∀ k', t'.lookup k' = if k' = k then w else t.lookup k') :
      t'.lookup = Function.update t.lookup k w := by
    funext k'
    rw [hlookup, Function.update_apply]
  rw [Table.setkey]
  cases hget : t.luaH_get (.key k) with
  | some slot =>
    have hwrites := h.writes hget w
    exact Or.inr ⟨t, slot, rfl, hwrites.sound, hupdate hwrites.lookup⟩
  | none =>
    rcases h.luaH_get_cases (k := k) with ⟨i, -, hslot⟩ | ⟨i, -, hslot⟩ | ⟨hfresh, -⟩
    · rw [hget] at hslot
      cases hslot
    · rw [hget] at hslot
      cases hslot
    · rcases h.newkey_total hfresh 0 w with hfull | ⟨t', slot, hnew, hsound, hlookup⟩
      · exact Or.inl hfull
      · exact Or.inr ⟨t', slot, hnew, hsound, hupdate hlookup⟩

/-- The elements of the nodes are all that is outside the array part. -/
theorem Sound.outsiders_le (h : t.Sound) : t.outsiders t.elements ≤ t.node.length := by
  have hinside : t.outsiders (arrayelements t.array 1) = 0 :=
    List.countP_eq_zero.mpr fun p hp => by
      simpa using Option.isSome_iff_ne_none.mp ((mem_arrayelements_iff h.asize).mp hp).1
  have happend : t.outsiders t.elements =
      t.outsiders (arrayelements t.array 1) + t.outsiders (nodeelements t.node) := List.countP_append
  have hle : t.outsiders (nodeelements t.node) ≤ t.node.length :=
    Nat.le_trans List.countP_le_length (List.length_filterMap_le _ _)
  omega

theorem Sound.reserve (h : t.Sound) {last : Nat} (hlast : last ≤ MAXASIZE)
    (hmore : last > t.array.length) :
    ∃ t', t.luaH_resizearray last = .ok t' ∧ t'.Sound ∧ t'.lookup = t.lookup := by
  have hsize : (if t.node = [] then 0 else t.sizenode) = t.node.length := by
    split
    · rename_i hnil
      rw [hnil]
      rfl
    · rename_i hnode
      exact (h.size.resolve_left hnode).symm
  have hadd := outsiders_add h.asize t.elements
  have hout := h.outsiders_le
  have hmono : (candidates t.elements).countP (fun i => i ≤ t.array.length) ≤
      (candidates t.elements).countP fun i => i ≤ last := by
    refine List.countP_mono_left fun i _ hi => ?_
    simp only [decide_eq_true_eq] at hi ⊢
    omega
  have hroom : t.elements.length ≤
      t.node.length + (candidates t.elements).countP fun i => i ≤ last := by
    omega
  rw [luaH_resizearray, hsize]
  rcases h.resize hlast 1 hroom with ⟨hmany, -⟩ | ⟨t', hok, hresized⟩
  · have hbound := h.length_node_le
    omega
  · exact ⟨t', hok, hresized.sound, funext hresized.lookup⟩

omit [DecidableEq K] in
theorem gnode_traversetable (t : Table K V) (i : Nat) :
    t.traversetable.gnode i = removeentry (t.gnode i) := by
  by_cases hi : i < t.node.length
  · have hi' : i < t.traversetable.node.length := by rwa [traversetable, List.length_map]
    rw [gnode_eq_getElem hi', gnode_eq_getElem hi]
    exact List.getElem_map ..
  · have hi' : t.traversetable.node.length ≤ i := by
      rw [traversetable, List.length_map]
      exact Nat.le_of_not_lt hi
    rw [gnode_of_le hi', gnode_of_le (Nat.le_of_not_lt hi)]
    rfl

omit [DecidableEq K] in
/-- The collector touches nothing that has a value. -/
theorem removeentry_cases (n : Node K V) :
    removeentry n = n ∨
      ∃ k, n.key = .key k ∧ n.val = none ∧ removeentry n = { n with key := .dead k } := by
  obtain ⟨key, val, next⟩ := n
  cases key with
  | nil => exact Or.inl rfl
  | dead k => exact Or.inl rfl
  | key k =>
    cases val with
    | some v => exact Or.inl rfl
    | none =>
      by_cases hk : Key.collectable k = true
      · exact Or.inr ⟨k, rfl, rfl, if_pos hk⟩
      · exact Or.inl (if_neg hk)

theorem Sound.traverse (h : t.Sound) : t.traversetable.Sound ∧ t.traversetable.lookup = t.lookup := by
  have hlive {i : Nat} {v : V} (hv : (t.traversetable.gnode i).val = some v) :
      t.traversetable.gnode i = t.gnode i := by
    rw [gnode_traversetable] at hv ⊢
    rcases removeentry_cases (t.gnode i) with heq | ⟨k, -, hnone, heq⟩
    · exact heq
    · rw [heq] at hv
      rw [hnone] at hv
      cases hv
  have hsound : t.traversetable.Sound := by
    refine h.congr rfl (List.length_map _) rfl rfl (fun i => ?_) (fun i => ?_) fun {i v} hv => ?_
    · rw [gnext, gnode_traversetable, gnext]
      rcases removeentry_cases (t.gnode i) with heq | ⟨k, -, -, heq⟩ <;> rw [heq]
    · rw [gnode_traversetable]
      rcases removeentry_cases (t.gnode i) with heq | ⟨k, hk, -, heq⟩
      · exact Or.inl (congrArg Node.key heq)
      · exact Or.inr ⟨k, hk, congrArg Node.key heq⟩
    · have hsame := hlive hv
      rw [hsame] at hv
      obtain ⟨k, hk⟩ := h.keyed hv
      exact ⟨k, by rwa [Holds, hsame]⟩
  refine ⟨hsound, funext fun k => ?_⟩
  have hcongr : t.traversetable.arrayslot k = t.arrayslot k := arrayslot_congr rfl k
  cases hslot : t.arrayslot k with
  | some i =>
    rw [lookup_array (hcongr.trans hslot), lookup_array hslot]
    rfl
  | none =>
    refine Option.ext fun v => ?_
    rw [hsound.lookup_node (hcongr.trans hslot), h.lookup_node hslot]
    constructor
    · rintro ⟨i, hi, hv⟩
      rw [Holds] at hi
      rw [hlive hv] at hi hv
      exact ⟨i, hi, hv⟩
    · rintro ⟨i, hi, hv⟩
      have hsame : t.traversetable.gnode i = t.gnode i := by
        rw [gnode_traversetable]
        rcases removeentry_cases (t.gnode i) with heq | ⟨k, -, hnone, -⟩
        · exact heq
        · rw [hnone] at hv
          cases hv
      exact ⟨i, by rwa [Holds, hsame], by rwa [hsame]⟩

/-- An operation does what it is to do with the values, or fails for a reason. -/
theorem Sound.step (h : t.Sound) (hop : op.Valid) :
    (∃ e, step t op = .error e ∧ Raises op t e) ∨ ∃ t', step t op = .ok t' ∧ Steps t op t' := by
  cases op with
  | set key v =>
    cases key with
    | nil => exact Or.inl ⟨_, rfl, .nil v t⟩
    | nan => exact Or.inl ⟨_, rfl, .nan v t⟩
    | key k =>
      rcases h.assign k v with ⟨hmany, herror⟩ | ⟨t', slot, hok, hsound, hlookup⟩
      · exact Or.inl ⟨_, by rw [Ltable.step, luaH_set, herror]; rfl, .overflow _ hmany⟩
      · exact Or.inr ⟨_, by rw [Ltable.step, luaH_set, hok]; rfl, hsound, hlookup⟩
  | setnum z v =>
    have hset : t.luaH_setnum z = Table.setkey (Table.newkey 1) t (Key.ofInt z) := by
      rw [luaH_setnum, setnum, luaH_getnum_eq t hop.1 hop.2, Table.setkey]
    rcases h.assign (Key.ofInt z) v with ⟨hmany, herror⟩ | ⟨t', slot, hok, hsound, hlookup⟩
    · exact Or.inl ⟨_, by rw [Ltable.step, hset, herror]; rfl, .overflow _ hmany⟩
    · exact Or.inr ⟨_, by rw [Ltable.step, hset, hok]; rfl, hsound, hlookup⟩
  | reserve last =>
    rw [Ltable.step]
    by_cases hmore : last > t.array.length
    · obtain ⟨t', hok, hsound, hlookup⟩ := h.reserve hop hmore
      exact Or.inr ⟨t', by rw [if_pos hmore, hok], hsound, hlookup⟩
    · exact Or.inr ⟨t, if_neg hmore, h, rfl⟩
  | traverse => exact Or.inr ⟨_, rfl, h.traverse.1, h.traverse.2⟩

/-- A table that is made has nothing in it. -/
theorem sound_new (hnew : luaH_new narray nhash = .ok t) (hsize : narray ≤ MAXASIZE) :
    t.Sound ∧ t.lookup = fun _ => none := by
  have hlength : (setarrayvector (⟨[], 0, [], 0⟩ : Table K V) narray).array.length = narray :=
    length_setarrayvector _ narray
  rw [luaH_new] at hnew
  rcases setnodevector_cases (hlength.symm ▸ hsize) nhash with ⟨-, herror⟩ | ⟨t', hok, harray, hbare, -⟩
  · rw [herror] at hnew
    cases hnew
  · obtain rfl := Except.ok.inj (hok.symm.trans hnew)
    refine ⟨hbare.sound, funext fun k => Option.eq_none_iff_forall_ne_some.mpr fun v hv => ?_⟩
    rw [hbare.lookup, harray, setarrayvector, List.take_nil, List.nil_append, arrayelements_none] at hv
    cases hv

/-- Where a run ends: with what its operations make of the values, or at one that fails. -/
theorem Sound.run (h : t.Sound) (hops : ∀ op ∈ ops, op.Valid) :
    (∃ t', run ops t = .ok t' ∧ t'.Sound ∧ t'.lookup = ops.foldl Op.apply t.lookup) ∨
      ∃ before op after t' e, ops = before ++ op :: after ∧ run before t = .ok t' ∧ t'.Sound ∧
        t'.lookup = before.foldl Op.apply t.lookup ∧ Raises op t' e ∧ run ops t = .error e := by
  induction ops generalizing t with
  | nil => exact Or.inl ⟨t, rfl, h, rfl⟩
  | cons op ops ih =>
    rcases h.step (hops op List.mem_cons_self) with ⟨e, herror, hraises⟩ | ⟨t₁, hok, hsteps⟩
    · exact Or.inr ⟨[], op, ops, t, e, rfl, rfl, h, rfl, hraises, by rw [Ltable.run, herror]; rfl⟩
    · have hhead (ops : List (Op K V)) : Ltable.run (op :: ops) t = Ltable.run ops t₁ := by
        rw [Ltable.run, hok]
        rfl
      rw [hhead]
      rcases ih hsteps.sound fun op' hop' => hops op' (List.mem_cons_of_mem op hop') with
        ⟨t', hrun, hsound, hlookup⟩ |
        ⟨before, op', after, t', e, rfl, hrun, hsound, hlookup, hraises, herror⟩
      · exact Or.inl ⟨t', hrun, hsound, by rw [hlookup, hsteps.lookup]; rfl⟩
      · refine Or.inr ⟨op :: before, op', after, t', e, rfl, by rw [hhead, hrun], hsound, ?_, hraises,
          herror⟩
        rw [hlookup, hsteps.lookup]
        rfl

end Table

/-! ### Reachable tables -/

open Table

variable {t t₀ : Table K V} {ops : List (Op K V)} {narray nhash : Nat}

/-- A table is a finite map: after any operations on a new table, each key has the value that was
assigned to it last. An operation fails only for its key, or when there are too many elements. -/
theorem run_eq_contents (hsize : narray ≤ MAXASIZE) (hnew : luaH_new narray nhash = .ok t₀)
    (hops : ∀ op ∈ ops, op.Valid) :
    (∃ t, run ops t₀ = .ok t ∧ t.lookup = contents ops) ∨
      ∃ before op after t e, ops = before ++ op :: after ∧ run before t₀ = .ok t ∧
        t.lookup = contents before ∧ Raises op t e ∧ run ops t₀ = .error e := by
  obtain ⟨hsound, hempty⟩ := sound_new hnew hsize
  rcases hsound.run hops with ⟨t, hrun, -, hlookup⟩ |
    ⟨before, op, after, t, e, heq, hrun, -, hlookup, hraises, herror⟩
  · exact Or.inl ⟨t, hrun, by rw [hlookup, hempty]; rfl⟩
  · exact Or.inr ⟨before, op, after, t, e, heq, hrun, by rw [hlookup, hempty]; rfl, hraises, herror⟩

/-- Two keys that collide, and a node whose value is cleared. -/
def collisions : List (Op Int Nat) :=
  [.set (.key 1) (some 10), .set (.key 100) (some 20), .set (.key 104) (some 30), .set (.key 100) none,
    .traverse]

theorem valid_collisions : ∀ op ∈ collisions, op.Valid := by simp [collisions, Op.Valid]

theorem run_eq_contents_collisions :
    ∃ t, run collisions ⟨[], 0, [], 0⟩ = .ok t ∧ t.lookup = contents collisions := by
  rcases run_eq_contents (Nat.zero_le MAXASIZE) (show luaH_new 0 0 = .ok ⟨[], 0, [], 0⟩ from rfl)
    valid_collisions with hok | ⟨-, -, -, -, e, -, -, -, -, herror⟩
  · exact hok
  · have hok : (run collisions ⟨[], 0, [], 0⟩).isOk = true := by decide +kernel
    rw [herror] at hok
    cases hok

/-- What `collisions` leaves. -/
def collided : Table Int Nat :=
  ⟨[some 10], 1, [⟨.key 100, none, some 1⟩, ⟨.key 104, some 30, none⟩], 1⟩

theorem run_collisions : run collisions ⟨[], 0, [], 0⟩ = .ok collided := by decide +kernel

/-- What holds of a table that a run has come to. -/
theorem sound_run (hsize : narray ≤ MAXASIZE) (hnew : luaH_new narray nhash = .ok t₀)
    (hops : ∀ op ∈ ops, op.Valid) (hrun : run ops t₀ = .ok t) : t.Sound ∧ t.lookup = contents ops := by
  obtain ⟨hsound, hempty⟩ := sound_new hnew hsize
  rcases hsound.run hops with ⟨t', hok, hsound', hlookup⟩ | ⟨-, -, -, -, e, -, -, -, -, -, herror⟩
  · obtain rfl := Except.ok.inj (hok.symm.trans hrun)
    rw [hempty] at hlookup
    exact ⟨hsound', hlookup⟩
  · rw [herror] at hrun
    cases hrun

end TuxBot.Lua.Ltable
