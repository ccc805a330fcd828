import TuxBot.Irc.Session

/-! Tables with a name-key metatable, as Lua reads and writes them: the metamethods are called only
for a key that the raw table lacks. -/
namespace TuxBot.Irc.NameKeys

open TuxBot.Lua

variable {V : Type}

/-- `tbl[key]`. For a key with a value Lua does not call `__index`. -/
def index (lower : Bytes → Bytes) (t : Table V) (key : Bytes) : Option V :=
  match t.lookup key with
  | some val => some val
  | none => t.lookup (lower key)

/-- `tbl[key] = val`. For a key with a value Lua does not call `__newindex`. -/
def newindex (lower : Bytes → Bytes) (t : Table V) (key : Bytes) (val : Option V) : Table V :=
  match t.lookup key with
  | some _ => t.rawset key val
  | none => t.rawset (lower key) val

inductive Access (V : Type) where
  | assign (key : Bytes) (val : Option V)
  | read (key : Bytes)

def Access.perform (lower : Bytes → Bytes) (t : Table V) : Access V → Table V
  | assign key val => newindex lower t key val
  | read _ => t

/-- An initially empty table after some accesses. -/
def run (lower : Bytes → Bytes) (accesses : List (Access V)) : Table V :=
  accesses.foldl (Access.perform lower) ∅

/-- Every key stored is its own fold. -/
def Folded (lower : Bytes → Bytes) (t : Table V) : Prop := ∀ key ∈ t, lower key = key

/-- None of the accesses assigns to a name equal to `key`. -/
def Untouched (m : CaseMapping) (key : Bytes) (accesses : List (Access V)) : Prop :=
  ∀ k val, .assign k val ∈ accesses → m.nameeq key k = false

section Folding

variable {lower : Bytes → Bytes} {t : Table V} {key x : Bytes} {val : Option V}
  {accesses : List (Access V)}

/-- In a folded table a read is a raw read of the fold. -/
theorem index_eq_get (ht : Folded lower t) : index lower t key = t.get lower key := by
  unfold index
  cases hraw : t.lookup key with
  | none => rfl
  | some val =>
    have hkey : lower key = key := ht key (AList.lookup_isSome.mp (by simp [hraw]))
    rw [Table.get, hkey, hraw]

theorem newindex_eq_rawset (ht : Folded lower t) :
    newindex lower t key val = t.rawset (lower key) val := by
  unfold newindex
  cases hraw : t.lookup key with
  | none => rfl
  | some _ =>
    have hkey : lower key = key := ht key (AList.lookup_isSome.mp (by simp [hraw]))
    rw [hkey]

/-- In a folded table an assignment is what `Table.set` and `Table.remove` do. -/
theorem newindex_eq_set (ht : Folded lower t) (v : V) :
    newindex lower t key (some v) = t.set lower key v := newindex_eq_rawset ht

theorem newindex_eq_remove (ht : Folded lower t) :
    newindex lower t key none = t.remove lower key := newindex_eq_rawset ht

theorem folded_newindex (hlower : ∀ s, lower (lower s) = lower s) (ht : Folded lower t) :
    Folded lower (newindex lower t key val) := by
  intro x hx
  rw [newindex_eq_rawset ht, ← AList.lookup_isSome, Table.lookup_rawset] at hx
  split at hx
  · rename_i he
    rw [he, hlower]
  · exact ht x (AList.lookup_isSome.mp hx)

theorem folded_empty : Folded lower (∅ : Table V) := fun _ hkey => absurd hkey (AList.notMem_empty _)

theorem folded_set (hlower : ∀ s, lower (lower s) = lower s) (ht : Folded lower t) (v : V) :
    Folded lower (t.set lower key v) :=
  newindex_eq_set ht v ▸ folded_newindex hlower ht

theorem folded_remove (hlower : ∀ s, lower (lower s) = lower s) (ht : Folded lower t) :
    Folded lower (t.remove lower key) :=
  newindex_eq_remove ht ▸ folded_newindex hlower ht

theorem folded_foldl (hlower : ∀ s, lower (lower s) = lower s) (ht : Folded lower t) :
    Folded lower (accesses.foldl (Access.perform lower) t) := by
  induction accesses generalizing t with
  | nil => exact ht
  | cons access accesses ih =>
    cases access with
    | assign key val => exact ih (folded_newindex hlower ht)
    | read key => exact ih ht

theorem folded_run (hlower : ∀ s, lower (lower s) = lower s) : Folded lower (run lower accesses) :=
  folded_foldl hlower folded_empty

end Folding

section Mapping

variable {m : CaseMapping} {t : Table V} {key k : Bytes} {val : Option V}
  {accesses : List (Access V)}

theorem nameeq_eq_false (h : m.nameeq key k = false) : m.lower key ≠ m.lower k := by
  intro he
  rw [(CaseMapping.nameeq_iff m key k).mpr he] at h
  cases h

/-- Assignments to other names leave a name as it is. -/
theorem get_foldl (ht : Folded m.lower t) (huntouched : Untouched m key accesses) :
    (accesses.foldl (Access.perform m.lower) t).get m.lower key = t.get m.lower key := by
  induction accesses generalizing t with
  | nil => rfl
  | cons access accesses ih =>
    have hrest : Untouched m key accesses := fun k val h =>
      huntouched k val (List.mem_cons_of_mem _ h)
    cases access with
    | read k => exact ih ht hrest
    | assign k val =>
      have hne := nameeq_eq_false (huntouched k val List.mem_cons_self)
      rw [List.foldl_cons, Access.perform, ih (folded_newindex m.lower_lower ht) hrest,
        newindex_eq_rawset ht, Table.get, Table.lookup_rawset, if_neg hne, Table.get]

theorem index_run_untouched (huntouched : Untouched m key accesses) :
    index m.lower (run m.lower accesses) key = none := by
  rw [index_eq_get (folded_run m.lower_lower), run,
    get_foldl folded_empty huntouched]
  rfl

/-- A read finds what was last assigned to an equal name. -/
theorem index_run_assigned {before after : List (Access V)} (hname : m.nameeq key k = true)
    (huntouched : Untouched m key after) :
    index m.lower (run m.lower (before ++ .assign k val :: after)) key = val := by
  have hbefore : Folded m.lower (run m.lower before) := folded_run m.lower_lower
  have hassigned : Folded m.lower (newindex m.lower (run m.lower before) k val) :=
    folded_newindex m.lower_lower hbefore
  have hsplit : run m.lower (before ++ .assign k val :: after) =
      after.foldl (Access.perform m.lower) (newindex m.lower (run m.lower before) k val) := by
    rw [run, List.foldl_append]
    rfl
  rw [index_eq_get (folded_run m.lower_lower), hsplit, get_foldl hassigned huntouched,
    newindex_eq_rawset hbefore, Table.get, Table.lookup_rawset,
    if_pos ((CaseMapping.nameeq_iff m key k).mp hname)]

/-- No two keys stored are equal names. -/
theorem pairwise_keys (ht : Folded m.lower t) :
    t.keys.Pairwise fun a b => m.nameeq a b = false := by
  refine List.Pairwise.imp_of_mem ?_ t.keys_nodup
  intro a b ha hb hne
  rw [Bool.eq_false_iff, ne_eq, CaseMapping.nameeq_iff, ht a (AList.mem_keys.mpr ha),
    ht b (AList.mem_keys.mpr hb)]
  exact hne

theorem nameeq_equivalence (m : CaseMapping) : Equivalence fun a b => m.nameeq a b = true := by
  simp only [CaseMapping.nameeq_iff]
  exact ⟨fun _ => rfl, Eq.symm, Eq.trans⟩

end Mapping

section Upper

/-- What `upper` does to each byte. -/
def upperByte : CaseMapping → UInt8 → UInt8
  | .ascii => toUpper
  | .strictRfc1459 => fun b => replaceByte strictRfc1459UpperTable (toUpper b)
  | .rfc1459 => fun b => replaceByte rfc1459UpperTable (toUpper b)

theorem upper_eq_map (m : CaseMapping) (str : Bytes) : m.upper str = str.map (upperByte m) := by
  cases m with
  | ascii => rfl
  | strictRfc1459 =>
    simp [CaseMapping.upper, strictRfc1459Upper, CaseMapping.replaceBytes_eq_map, TuxBot.Lua.upper,
      upperByte]
  | rfc1459 =>
    simp [CaseMapping.upper, rfc1459Upper, CaseMapping.replaceBytes_eq_map, TuxBot.Lua.upper,
      upperByte]

theorem lowerByte_upperByte (m : CaseMapping) (b : UInt8) :
    m.lowerByte (upperByte m b) = m.lowerByte b ∧ upperByte m (m.lowerByte b) = upperByte m b := by
  revert b
  cases m <;> exact forall_byte (by decide +kernel)

theorem lower_upper (m : CaseMapping) (str : Bytes) : m.lower (m.upper str) = m.lower str := by
  simp [CaseMapping.lower_eq_map, upper_eq_map, (lowerByte_upperByte m _).1]

theorem upper_lower (m : CaseMapping) (str : Bytes) : m.upper (m.lower str) = m.upper str := by
  simp [CaseMapping.lower_eq_map, upper_eq_map, (lowerByte_upperByte m _).2]

end Upper

/-- For every case mapping, a table with its name-key metatable is a map on folded names. -/
theorem nameKeys_fold (V : Type) (m : CaseMapping) :
    (∀ (accesses : List (Access V)) (key : Bytes), Untouched m key accesses →
        index m.lower (run m.lower accesses) key = none) ∧
      (∀ (before after : List (Access V)) (key k : Bytes) (val : Option V),
        m.nameeq key k = true → Untouched m key after →
          index m.lower (run m.lower (before ++ .assign k val :: after)) key = val) ∧
      (∀ accesses : List (Access V),
        (∀ key ∈ run m.lower accesses, m.lower key = key) ∧
          (run m.lower accesses).keys.Pairwise fun a b => m.nameeq a b = false) ∧
      (Equivalence fun a b => m.nameeq a b = true) ∧
      ∀ str, m.lower (m.upper str) = m.lower str ∧ m.upper (m.lower str) = m.upper str :=
  ⟨fun _ _ => index_run_untouched, fun _ _ _ _ _ => index_run_assigned,
    fun _ => ⟨folded_run m.lower_lower, pairwise_keys (folded_run m.lower_lower)⟩,
    nameeq_equivalence m, fun str => ⟨lower_upper m str, upper_lower m str⟩⟩

end TuxBot.Irc.NameKeys
