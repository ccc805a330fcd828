import TuxBot.Plugins.Perms

/-! What a permission spec means, and that the functions it is compiled into evaluate it. -/
namespace TuxBot.Plugins.Perms

open TuxBot.Lua TuxBot.Irc

/-- A pattern for the channel, alone or with one for the network. -/
inductive Entry where
  | chan (pattern : Bytes)
  | both (net pattern : Bytes)

inductive Perm where
  | halfop
  | op
  | chanwhitelist (entries : List Entry)
  | and_ (perms : List Perm)
  | or_ (perms : List Perm)

/-- The key in `permtypes`. -/
def Perm.type : Perm → Bytes
  | halfop => "halfop"
  | op => "op"
  | chanwhitelist _ => "chanwhitelist"
  | and_ _ => "and_"
  | or_ _ => "or_"

/-- What a bare type name stands for: there are no arguments. -/
def Perm.Bare : Perm → Prop
  | halfop | op => True
  | chanwhitelist entries => entries = []
  | and_ perms | or_ perms => perms = []

mutual

/-- How deep the operators nest. -/
def Perm.height : Perm → Nat
  | .halfop | .op | .chanwhitelist _ => 0
  | .and_ perms | .or_ perms => heights perms + 1

def heights : List Perm → Nat
  | [] => 0
  | p :: ps => max p.height (heights ps)

end

/-! ### The meaning -/

section Meaning

variable (strmatch : Bytes → Bytes → Option Bool) (q : Query)

def Entry.Matches : Entry → Prop
  | .chan pattern => strmatch q.chan pattern = some true
  | .both net pattern => strmatch q.netname net = some true ∧ strmatch q.chan pattern = some true

/-- The permission is given. -/
inductive Perm.Holds : Perm → Prop
  | halfop {mode : Bytes} (hmode : q.mode = some mode) (hletter : 104 ∈ mode ∨ 111 ∈ mode) :
      Holds .halfop
  | op {mode : Bytes} (hmode : q.mode = some mode) (hletter : 111 ∈ mode) : Holds .op
  | chanwhitelist {entries : List Entry} {entry : Entry} (hentry : entry ∈ entries)
      (hmatches : entry.Matches strmatch q) : Holds (.chanwhitelist entries)
  | and_ {perms : List Perm} (hall : ∀ p ∈ perms, Holds p) : Holds (.and_ perms)
  | or_ {perms : List Perm} {p : Perm} (hp : p ∈ perms) (hholds : Holds p) : Holds (.or_ perms)

/-- The patterns of an entry do not raise, whatever they are tried on. -/
def Entry.Wellformed : Entry → Prop
  | .chan pattern => ∀ s, (strmatch s pattern).isSome
  | .both net pattern => ∀ s, (strmatch s net).isSome ∧ (strmatch s pattern).isSome

/-- No pattern of the expression raises. -/
inductive Perm.Wellformed : Perm → Prop
  | halfop : Wellformed .halfop
  | op : Wellformed .op
  | chanwhitelist {entries : List Entry} (hall : ∀ entry ∈ entries, entry.Wellformed strmatch) :
      Wellformed (.chanwhitelist entries)
  | and_ {perms : List Perm} (hall : ∀ p ∈ perms, Wellformed p) : Wellformed (.and_ perms)
  | or_ {perms : List Perm} (hall : ∀ p ∈ perms, Wellformed p) : Wellformed (.or_ perms)

end Meaning

/-! ### Expressions in the heap -/

/-- The values are the entries of a whitelist; `refs` are the tables among them. -/
inductive SpellsEntries (w : World) : List Value → List Entry → List Nat → Prop
  | nil : SpellsEntries w [] [] []
  | chan {pattern : Bytes} {values : List Value} {entries : List Entry} {refs : List Nat}
      (hrest : SpellsEntries w values entries refs) :
      SpellsEntries w (.str pattern :: values) (.chan pattern :: entries) refs
  | both {ref : Nat} {net chan : Bytes} {more values : List Value} {entries : List Entry}
      {refs : List Nat} (href : w.heap[ref]? = some (.str net :: .str chan :: more))
      (hrest : SpellsEntries w values entries refs) :
      SpellsEntries w (.table ref :: values) (.both net chan :: entries) (ref :: refs)

mutual

/-- The value is the expression, as a config file spells it; `refs` are the tables it is made of. -/
inductive Spells (w : World) : Value → Perm → List Nat → Prop
  | name (p : Perm) (hbare : p.Bare) : Spells w (.str p.type) p []
  | table {p : Perm} {ref : Nat} {args : List Value} {refs : List Nat}
      (href : w.heap[ref]? = some (.str p.type :: args)) (hargs : SpellsArgs w args p refs) :
      Spells w (.table ref) p (ref :: refs)

inductive SpellsArgs (w : World) : List Value → Perm → List Nat → Prop
  | halfop (args : List Value) : SpellsArgs w args .halfop []
  | op (args : List Value) : SpellsArgs w args .op []
  | chanwhitelist {args : List Value} {entries : List Entry} {refs : List Nat}
      (hentries : SpellsEntries w args entries refs) : SpellsArgs w args (.chanwhitelist entries) refs
  | and_ {args : List Value} {perms : List Perm} {refs : List Nat}
      (hall : SpellsAll w args perms refs) : SpellsArgs w args (.and_ perms) refs
  | or_ {args : List Value} {perms : List Perm} {refs : List Nat}
      (hall : SpellsAll w args perms refs) : SpellsArgs w args (.or_ perms) refs

inductive SpellsAll (w : World) : List Value → List Perm → List Nat → Prop
  | nil : SpellsAll w [] [] []
  | cons {value : Value} {p : Perm} {refs : List Nat} {values : List Value} {perms : List Perm}
      {more : List Nat} (hone : Spells w value p refs) (hrest : SpellsAll w values perms more) :
      SpellsAll w (value :: values) (p :: perms) (refs ++ more)

end

mutual

/-- The function evaluates the expression; `refs` are the tables it reads. -/
inductive Compiles (w : World) : Func → Perm → List Nat → Prop
  | halfop : Compiles w .halfop .halfop []
  | op : Compiles w .op .op []
  | chanwhitelist {ref : Nat} {first : Value} {args : List Value} {entries : List Entry}
      {refs : List Nat} (href : w.heap[ref]? = some (first :: args))
      (hentries : SpellsEntries w args entries refs) :
      Compiles w (.chanwhitelist ref) (.chanwhitelist entries) (ref :: refs)
  | and_ {ref : Nat} {first : Value} {args : List Value} {perms : List Perm} {refs : List Nat}
      (href : w.heap[ref]? = some (first :: args)) (hall : CompilesAll w args perms refs) :
      Compiles w (.and_ ref) (.and_ perms) (ref :: refs)
  | or_ {ref : Nat} {first : Value} {args : List Value} {perms : List Perm} {refs : List Nat}
      (href : w.heap[ref]? = some (first :: args)) (hall : CompilesAll w args perms refs) :
      Compiles w (.or_ ref) (.or_ perms) (ref :: refs)

inductive CompilesAll (w : World) : List Value → List Perm → List Nat → Prop
  | nil : CompilesAll w [] [] []
  | cons {f : Func} {p : Perm} {refs : List Nat} {values : List Value} {perms : List Perm}
      {more : List Nat} (hone : Compiles w f p refs) (hrest : CompilesAll w values perms more) :
      CompilesAll w (.func f :: values) (p :: perms) (refs ++ more)

end

section Frame

variable {w t : World} {values args : List Value} {entries : List Entry} {perms : List Perm} {p : Perm}
  {v : Value} {f : Func} {refs more : List Nat} {ref : Nat} {P Q R : World → Prop}

/-- The tables are as they were. -/
def Keeps (w t : World) (refs : List Nat) : Prop := ∀ ref ∈ refs, t.heap[ref]? = w.heap[ref]?

/-- What holds is about tables that there are, and holds as long as they stay as they are. -/
structure Framed (w : World) (refs : List Nat) (P : World → Prop) : Prop where
  lt_length : ∀ ref ∈ refs, ref < w.heap.length
  keeps : ∀ t, Keeps w t refs → P t

theorem lt_length (h : w.heap[ref]? = some args) : ref < w.heap.length :=
  (List.getElem?_eq_some_iff.mp h).1

theorem framed_nil (h : ∀ t, P t) : Framed w [] P := ⟨nofun, fun t _ => h t⟩

theorem framed_cons (href : w.heap[ref]? = some args) (h : Framed w refs P)
    (hQ : ∀ t, t.heap[ref]? = some args → P t → Q t) : Framed w (ref :: refs) Q where
  lt_length := List.forall_mem_cons.mpr ⟨Perms.lt_length href, h.lt_length⟩
  keeps t hkeeps := by
    obtain ⟨hone, hrest⟩ := List.forall_mem_cons.mp hkeeps
    exact hQ t (hone.trans href) (h.keeps t hrest)

theorem framed_append (h : Framed w refs P) (h' : Framed w more Q) (hR : ∀ t, P t → Q t → R t) :
    Framed w (refs ++ more) R where
  lt_length := List.forall_mem_append.mpr ⟨h.lt_length, h'.lt_length⟩
  keeps t hkeeps := by
    obtain ⟨hleft, hright⟩ := List.forall_mem_append.mp hkeeps
    exact hR t (h.keeps t hleft) (h'.keeps t hright)

theorem Framed.imp (h : Framed w refs P) (hQ : ∀ t, P t → Q t) : Framed w refs Q :=
  ⟨h.lt_length, fun t hkeeps => hQ t (h.keeps t hkeeps)⟩

theorem SpellsEntries.framed (h : SpellsEntries w values entries refs) :
    Framed w refs fun t => SpellsEntries t values entries refs := by
  induction h with
  | nil => exact framed_nil fun _ => .nil
  | chan _ ih => exact ih.imp fun _ => .chan
  | both href _ ih => exact framed_cons href ih fun _ => .both

/-- By induction on the three relations at once. -/
theorem Spells.framed (h : Spells w v p refs) : Framed w refs fun t => Spells t v p refs :=
  @Spells.rec w (fun v p refs _ => Framed w refs fun t => Spells t v p refs)
    (fun values p refs _ => Framed w refs fun t => SpellsArgs t values p refs)
    (fun values perms refs _ => Framed w refs fun t => SpellsAll t values perms refs)
    (fun p hbare => framed_nil fun _ => .name p hbare)
    (fun href _ ih => framed_cons href ih fun _ => .table)
    (fun args => framed_nil fun _ => .halfop args)
    (fun args => framed_nil fun _ => .op args)
    (fun hentries => hentries.framed.imp fun _ => .chanwhitelist)
    (fun _ ih => ih.imp fun _ => .and_)
    (fun _ ih => ih.imp fun _ => .or_)
    (framed_nil fun _ => .nil)
    (fun _ _ ih ih' => framed_append ih ih' fun _ => .cons) v p refs h

theorem SpellsAll.framed (h : SpellsAll w values perms refs) :
    Framed w refs fun t => SpellsAll t values perms refs := by
  induction values generalizing perms refs with
  | nil =>
    cases h
    exact framed_nil fun _ => .nil
  | cons v values ih =>
    cases h with
    | cons hone hrest => exact framed_append hone.framed (ih hrest) fun _ => .cons

theorem Compiles.framed (h : Compiles w f p refs) : Framed w refs fun t => Compiles t f p refs :=
  @Compiles.rec w (fun f p refs _ => Framed w refs fun t => Compiles t f p refs)
    (fun values perms refs _ => Framed w refs fun t => CompilesAll t values perms refs)
    (framed_nil fun _ => .halfop)
    (framed_nil fun _ => .op)
    (fun href hentries => framed_cons href hentries.framed fun _ => .chanwhitelist)
    (fun href _ ih => framed_cons href ih fun _ => .and_)
    (fun href _ ih => framed_cons href ih fun _ => .or_)
    (framed_nil fun _ => .nil)
    (fun _ _ ih ih' => framed_append ih ih' fun _ => .cons) f p refs h

/-- What compiling the tables `refs` may do to the heap: it makes tables, and the old ones stay but for
`refs`. -/
structure Within (w t : World) (refs : List Nat) : Prop where
  grows : w.heap.length ≤ t.heap.length
  stays : ∀ ref < w.heap.length, ref ∉ refs → t.heap[ref]? = w.heap[ref]?

/-- The tables of a function are those of the expression and new ones. -/
def Among (w : World) (refs refs' : List Nat) : Prop :=
  ∀ ref ∈ refs', ref ∈ refs ∨ w.heap.length ≤ ref

theorem Among.not_mem {refs' : List Nat} (h : Among w refs refs') (hlt : ref < w.heap.length)
    (hnot : ref ∉ refs) : ref ∉ refs' := by
  intro hmem
  rcases h ref hmem with hold | hnew
  · exact hnot hold
  · exact absurd hlt (Nat.not_lt.mpr hnew)

theorem within_refl (w : World) (refs : List Nat) : Within w w refs := ⟨Nat.le_refl _, fun _ _ _ => rfl⟩

theorem Within.trans {u : World} {more all : List Nat} (hone : Within w t refs)
    (htwo : Within t u more) (hleft : refs ⊆ all) (hright : more ⊆ all) : Within w u all where
  grows := hone.grows.trans htwo.grows
  stays ref hlt hnot := (htwo.stays ref (hlt.trans_le hone.grows) fun h => hnot (hright h)).trans
    (hone.stays ref hlt fun h => hnot (hleft h))

theorem Within.keeps {others : List Nat} (h : Within w t refs)
    (hlt : ∀ ref ∈ others, ref < w.heap.length) (hnot : ∀ ref ∈ others, ref ∉ refs) :
    Keeps w t others :=
  fun ref href => h.stays ref (hlt ref href) (hnot ref href)

end Frame

/-! ### Compiling -/

section Compile

variable {w t : World} {values args : List Value} {perms : List Perm} {p : Perm} {f : Func}
  {refs : List Nat} {ref i depth : Nat} {v : Value}

theorem args_eq (href : w.heap[ref]? = some args) : w.args ref = args := by
  simp [World.args, List.getD_eq_getElem?_getD, href]

theorem heap_setArg (href : w.heap[ref]? = some args) :
    (w.setArg ref i v).heap[ref]? = some (args.set i v) := by
  rw [World.setArg, args_eq href, List.getElem?_set_self (lt_length href)]

theorem within_setArg (w : World) (ref i : Nat) (v : Value) : Within w (w.setArg ref i v) [ref] where
  grows := by simp [World.setArg]
  stays r _ hnot := List.getElem?_set_ne fun h => hnot (by simp [h])

/-- A spec that nests less deep than calls may compiles to a function for it. -/
def CompilesSpelled (depth : Nat) : Prop :=
  ∀ (w : World) (v : Value) (p : Perm) (refs : List Nat), p.height < depth → Spells w v p refs →
    refs.Nodup → ∃ f t refs', permspec2func depth v w = .ok f t ∧ Compiles t f p refs' ∧
      Within w t refs ∧ Among w refs refs'

/-- One turn of the loop of `and_` and `or_`. -/
def compileArg (depth ref i : Nat) : Eff World Unit := do
  let w ← get
  let f ← permspec2func depth ((w.args ref).getD i (.other "nil"))
  modify fun w => w.setArg ref i (.func f)

/-- The operand becomes its function, for which nothing is written to but its own tables and `ref`. -/
theorem compileArg_spelled (hcompile : CompilesSpelled depth) (hspells : Spells w v p refs)
    (hnodup : (ref :: refs).Nodup) (hheight : p.height < depth) (done : List Value)
    (href : w.heap[ref]? = some (done ++ v :: values)) :
    ∃ f t refs', compileArg depth ref done.length w = .ok ⟨⟩ t ∧
      t.heap[ref]? = some (done ++ [.func f] ++ values) ∧ Compiles t f p refs' ∧
      Within w t (ref :: refs) ∧ Among w refs refs' := by
  obtain ⟨hout, hnd⟩ := List.nodup_cons.mp hnodup
  obtain ⟨f, t, refs', hrun, hcompiles, hwithin, hamong⟩ := hcompile w v p refs hheight hspells hnd
  have hlt := lt_length href
  have hread : (w.args ref).getD done.length (.other "nil") = v := by
    rw [args_eq href]
    simp
  have hat : t.heap[ref]? = some (done ++ v :: values) := (hwithin.stays ref hlt hout).trans href
  have hsettled := within_setArg t ref done.length (.func f)
  have hfree : ref ∉ refs' := hamong.not_mem hlt hout
  refine ⟨f, t.setArg ref done.length (.func f), refs', ?_, ?_, ?_, ?_, hamong⟩
  · rw [compileArg, Eff.get_bind_eq, hread, Eff.bind_of_ok hrun]
    rfl
  · rw [heap_setArg hat]
    simp
  · refine hcompiles.framed.keeps _ (hsettled.keeps hcompiles.framed.lt_length fun r hr => ?_)
    exact mt List.mem_singleton.mp (ne_of_mem_of_not_mem hr hfree)
  · exact hwithin.trans hsettled (List.subset_cons_self ref refs) (by simp)

/-- The loop over the operands that are left, behind those that are done. -/
theorem compileArgs_loop (hcompile : CompilesSpelled depth) (hall : SpellsAll w values perms refs)
    (hnodup : (ref :: refs).Nodup) (hheight : heights perms < depth) (done : List Value)
    (href : w.heap[ref]? = some (done ++ values)) :
    ∃ t values' refs',
      (List.range' done.length values.length).forM (compileArg depth ref) w = .ok ⟨⟩ t ∧
      t.heap[ref]? = some (done ++ values') ∧ CompilesAll t values' perms refs' ∧
      Within w t (ref :: refs) ∧ Among w refs refs' := by
  induction values generalizing w perms refs done with
  | nil =>
    cases hall
    exact ⟨w, [], [], rfl, href, .nil, within_refl w _, nofun⟩
  | cons v values ih =>
    cases hall with
    | @cons _ p refs _ perms more hone hrest =>
    simp only [List.nodup_cons, List.mem_append, not_or, List.nodup_append'] at hnodup
    obtain ⟨⟨hout, hout'⟩, hnd, hnd', hdisjoint⟩ := hnodup
    have hp : p.height < depth := (le_max_left _ _).trans_lt hheight
    have hperms : heights perms < depth := (le_max_right _ _).trans_lt hheight
    obtain ⟨f, t, refs', hturn, hset, hcompiles, hwithin, hamong⟩ :=
      compileArg_spelled hcompile hone (List.nodup_cons.mpr ⟨hout, hnd⟩) hp done href
    have hkept : SpellsAll t values perms more :=
      hrest.framed.keeps t (hwithin.keeps hrest.framed.lt_length fun r hr =>
        List.not_mem_cons_of_ne_of_not_mem (ne_of_mem_of_not_mem hr hout') fun h => hdisjoint h hr)
    obtain ⟨u, values', more', hloop, hend, hcompiled, hwithin', hamong'⟩ :=
      ih hkept (List.nodup_cons.mpr ⟨hout', hnd'⟩) hperms (done ++ [.func f]) hset
    -- no table of the first function is written to for the others
    have hother (r : Nat) (hr : r ∈ refs') : r ∉ ref :: more :=
      List.not_mem_cons_of_ne_of_not_mem
        (ne_of_mem_of_not_mem hr (hamong.not_mem (lt_length href) hout)) fun hmem =>
          hamong.not_mem (hrest.framed.lt_length r hmem) (fun h => hdisjoint h hmem) hr
    have hfirst : Compiles u f p refs' :=
      hcompiles.framed.keeps u (hwithin'.keeps hcompiles.framed.lt_length hother)
    refine ⟨u, .func f :: values', refs' ++ more', ?_, by simpa using hend, .cons hfirst hcompiled,
      ?_, ?_⟩
    · rw [List.length_append, List.length_singleton] at hloop
      rw [List.length_cons, List.range'_succ]
      exact (Eff.bind_of_ok hturn).trans hloop
    · exact hwithin.trans hwithin' (List.cons_subset_cons ref (List.subset_append_left refs more))
        (List.cons_subset_cons ref (List.subset_append_right refs more))
    · intro r hr
      rcases List.mem_append.mp hr with hr | hr
      · exact (hamong r hr).imp_left (List.mem_append_left more)
      · exact (hamong' r hr).imp (List.mem_append_right refs) hwithin.grows.trans

/-- The operands of `and_` and `or_` become functions. -/
theorem compileArgs_spelled (hcompile : CompilesSpelled depth)
    (href : w.heap[ref]? = some (v :: args)) (hall : SpellsAll w args perms refs)
    (hnodup : (ref :: refs).Nodup) (hheight : heights perms < depth) :
    ∃ t values' refs', compileArgs (permspec2func depth) ref w = .ok ⟨⟩ t ∧
      t.heap[ref]? = some (v :: values') ∧ CompilesAll t values' perms refs' ∧
      Within w t (ref :: refs) ∧ Among w (ref :: refs) (ref :: refs') := by
  obtain ⟨t, values', refs', hloop, hend, hcompiled, hwithin, hamong⟩ :=
    compileArgs_loop hcompile hall hnodup hheight [v] href
  refine ⟨t, values', refs', ?_, hend, hcompiled, hwithin, List.forall_mem_cons.mpr
    ⟨Or.inl List.mem_cons_self, fun r hr => (hamong r hr).imp_left (List.mem_cons_of_mem ref)⟩⟩
  have hlength : (w.args ref).length - 1 = args.length := by simp [args_eq href]
  rw [compileArgs, Eff.get_bind_eq, hlength]
  exact hloop

/-- What a table with this type becomes. -/
def compileType (depth ref : Nat) : Perm → Eff World Func
  | .halfop => pure .halfop
  | .op => pure .op
  | .chanwhitelist _ => pure (.chanwhitelist ref)
  | .and_ _ => do
    compileArgs (permspec2func depth) ref
    return .and_ ref
  | .or_ _ => do
    compileArgs (permspec2func depth) ref
    return .or_ ref

theorem permspec2func_table (href : w.heap[ref]? = some (.str p.type :: args)) :
    permspec2func (depth + 1) (.table ref) w = compileType depth ref p w := by
  have hread : w.args ref = .str p.type :: args := args_eq href
  simp only [permspec2func, asTable, pure_bind, Eff.get_bind_eq, hread, List.head?_cons]
  cases p <;> rfl

theorem compile_table (hcompile : CompilesSpelled depth)
    (href : w.heap[ref]? = some (.str p.type :: args)) (hargs : SpellsArgs w args p refs)
    (hnodup : (ref :: refs).Nodup) (hheight : p.height < depth + 1) :
    ∃ f t refs', permspec2func (depth + 1) (.table ref) w = .ok f t ∧ Compiles t f p refs' ∧
      Within w t (ref :: refs) ∧ Among w (ref :: refs) refs' := by
  rw [permspec2func_table href]
  cases hargs with
  | halfop => exact ⟨.halfop, w, [], rfl, .halfop, within_refl w _, nofun⟩
  | op => exact ⟨.op, w, [], rfl, .op, within_refl w _, nofun⟩
  | chanwhitelist hentries =>
    exact ⟨.chanwhitelist ref, w, ref :: refs, rfl, .chanwhitelist href hentries, within_refl w _,
      fun _ => Or.inl⟩
  | and_ hall =>
    obtain ⟨t, values', refs', hloop, hend, hcompiled, hwithin, hamong⟩ :=
      compileArgs_spelled hcompile href hall hnodup (Nat.lt_of_succ_lt_succ hheight)
    exact ⟨.and_ ref, t, ref :: refs', Eff.bind_of_ok hloop, .and_ hend hcompiled, hwithin, hamong⟩
  | or_ hall =>
    obtain ⟨t, values', refs', hloop, hend, hcompiled, hwithin, hamong⟩ :=
      compileArgs_spelled hcompile href hall hnodup (Nat.lt_of_succ_lt_succ hheight)
    exact ⟨.or_ ref, t, ref :: refs', Eff.bind_of_ok hloop, .or_ hend hcompiled, hwithin, hamong⟩

/-- A bare name has no arguments. -/
theorem spellsArgs_bare (w : World) (hbare : p.Bare) : SpellsArgs w [] p [] := by
  cases p with
  | halfop => exact .halfop []
  | op => exact .op []
  | chanwhitelist entries => exact hbare ▸ .chanwhitelist .nil
  | and_ perms => exact hbare ▸ .and_ .nil
  | or_ perms => exact hbare ▸ .or_ .nil

theorem compilesSpelled (depth : Nat) : CompilesSpelled depth := by
  induction depth with
  | zero => exact fun _ _ _ _ hheight => absurd hheight (Nat.not_lt_zero _)
  | succ depth ih =>
    intro w v p refs hheight hspells hnodup
    cases hspells with
    | table href hargs => exact compile_table ih href hargs hnodup hheight
    | name p hbare =>
      -- the name is put into a new table
      have hnew : ({ w with heap := w.heap ++ [[.str p.type]] } : World).heap[w.heap.length]? =
          some [.str p.type] := by simp
      obtain ⟨f, t, refs', hrun, hcompiles, hwithin, hamong⟩ :=
        compile_table ih hnew (spellsArgs_bare _ hbare) (List.nodup_singleton _) hheight
      have hgrows : w.heap.length < t.heap.length := by
        have hlen := hwithin.grows
        simp only [List.length_append, List.length_singleton] at hlen
        omega
      refine ⟨f, t, refs', hrun, hcompiles, ⟨hgrows.le, fun r hr _ => ?_⟩, fun r hr => ?_⟩
      · rw [hwithin.stays r (by simp; omega) (by simp; omega), List.getElem?_append_left hr]
      · rcases hamong r hr with hmem | hlen
        · exact Or.inr (by simpa using (List.mem_singleton.mp hmem).ge)
        · simp only [List.length_append, List.length_singleton] at hlen
          exact Or.inr (by omega)

end Compile

/-! ### Checking -/

/-- A result that is true exactly if `P` holds, and that there is if `W` holds. -/
def Decides (r : Option Bool) (P W : Prop) : Prop := (∀ b, r = some b → (b = true ↔ P)) ∧ (W → r.isSome)

section Decides

variable {α β : Type} {k : α → Option Bool} {l : List α} {m : List β} {P P' W W' : Prop}
  {r : Option Bool}

theorem decides_some {b : Bool} (h : b = true ↔ P) : Decides (some b) P W :=
  ⟨fun _ hc => Option.some.inj hc ▸ h, fun _ => rfl⟩

theorem Decides.iff (h : Decides r P W) (hP : P ↔ P') (hW : W' → W) : Decides r P' W' :=
  ⟨fun b hb => (h.1 b hb).trans hP, fun hw => h.2 (hW hw)⟩

/-- A loop that ends at the first that is false. -/
theorem decides_allM {Q V : β → Prop}
    (h : List.Forall₂ (fun a b => Decides (k a) (Q b) (V b)) l m) :
    Decides (l.allM k) (∀ b ∈ m, Q b) (∀ b ∈ m, V b) := by
  induction h with
  | nil => exact decides_some (by simp)
  | @cons a b l m hone _ ih =>
    rw [List.allM, List.forall_mem_cons, List.forall_mem_cons]
    cases ha : k a with
    | none => exact ⟨nofun, fun hw => absurd (hone.2 hw.1) (by simp [ha])⟩
    | some r =>
      have hr := hone.1 r ha
      cases r with
      | false =>
        exact decides_some (iff_of_false Bool.false_ne_true fun h => Bool.false_ne_true (hr.mpr h.1))
      | true => exact ih.iff (by simp [hr.mp rfl]) And.right

/-- A loop that ends at the first that is true. -/
theorem decides_anyM {Q V : β → Prop}
    (h : List.Forall₂ (fun a b => Decides (k a) (Q b) (V b)) l m) :
    Decides (l.anyM k) (∃ b ∈ m, Q b) (∀ b ∈ m, V b) := by
  induction h with
  | nil => exact decides_some (by simp)
  | @cons a b l m hone _ ih =>
    rw [List.anyM, List.exists_mem_cons_iff, List.forall_mem_cons]
    cases ha : k a with
    | none => exact ⟨nofun, fun hw => absurd (hone.2 hw.1) (by simp [ha])⟩
    | some r =>
      have hr := hone.1 r ha
      cases r with
      | false =>
        have hnot : ¬ Q b := fun h => Bool.false_ne_true (hr.mpr h)
        exact ih.iff (by simp [hnot]) And.right
      | true => exact decides_some (iff_of_true rfl (Or.inl (hr.mp rfl)))

end Decides

section Check

variable {strmatch : Bytes → Bytes → Option Bool} {w : World} {q : Query} {values : List Value}
  {entries : List Entry} {perms : List Perm} {refs : List Nat} {depth : Nat} {k : Value → Option Bool}

theorem holds_chanwhitelist : (Perm.chanwhitelist entries).Holds strmatch q ↔
    ∃ entry ∈ entries, entry.Matches strmatch q :=
  ⟨fun | .chanwhitelist hentry hmatches => ⟨_, hentry, hmatches⟩,
    fun ⟨_, hentry, hmatches⟩ => .chanwhitelist hentry hmatches⟩

theorem holds_and : (Perm.and_ perms).Holds strmatch q ↔ ∀ p ∈ perms, p.Holds strmatch q :=
  ⟨fun | .and_ hall => hall, .and_⟩

theorem holds_or : (Perm.or_ perms).Holds strmatch q ↔ ∃ p ∈ perms, p.Holds strmatch q :=
  ⟨fun | .or_ hp hholds => ⟨_, hp, hholds⟩, fun ⟨_, hp, hholds⟩ => .or_ hp hholds⟩

/-- One entry of a whitelist, in a table or not. -/
theorem decides_entries (h : SpellsEntries w values entries refs) :
    List.Forall₂ (fun value entry => Decides (whitelists strmatch w q value)
      (entry.Matches strmatch q) (entry.Wellformed strmatch)) values entries := by
  induction h with
  | nil => exact .nil
  | @chan pattern values entries refs _ ih =>
    refine .cons ⟨fun b hb => ?_, fun hw => hw _⟩ ih
    have hchan : strmatch q.chan pattern = some b := hb
    simp [Entry.Matches, hchan]
  | @both ref net pattern more values entries refs href _ ih =>
    refine .cons ?_ ih
    have hread : whitelists strmatch w q (.table ref) = (do
        if ← strmatch q.netname net then strmatch q.chan pattern else some false) := by
      rw [whitelists, args_eq href]
    rw [hread]
    cases hnet : strmatch q.netname net with
    | none => exact ⟨nofun, fun hw => absurd (hw q.netname).1 (by simp [hnet])⟩
    | some matched =>
      cases matched with
      | false => exact decides_some (by simp [Entry.Matches, hnet])
      | true =>
        refine ⟨fun b hb => ?_, fun hw => (hw q.chan).2⟩
        have hchan : strmatch q.chan pattern = some b := hb
        simp [Entry.Matches, hnet, hchan]

/-- The operands, each function being called as `k` does. -/
theorem decides_operands (hall : CompilesAll w values perms refs)
    (hone : ∀ f p refs, p ∈ perms → Compiles w f p refs →
      Decides (k (.func f)) (p.Holds strmatch q) (p.Wellformed strmatch)) :
    List.Forall₂ (fun value p => Decides (k value) (p.Holds strmatch q) (p.Wellformed strmatch))
      values perms := by
  induction values generalizing perms refs with
  | nil =>
    cases hall
    exact .nil
  | cons v values ih =>
    cases hall with
    | @cons f p refs _ perms more hfirst hrest =>
    exact .cons (hone f p refs List.mem_cons_self hfirst)
      (ih hrest fun f p refs hp => hone f p refs (List.mem_cons_of_mem _ hp))

theorem height_le {p : Perm} (hp : p ∈ perms) : p.height ≤ heights perms := by
  induction perms with
  | nil => cases hp
  | cons first perms ih =>
    rcases List.mem_cons.mp hp with rfl | hp
    · exact le_max_left _ _
    · exact (ih hp).trans (le_max_right _ _)

/-- The mode letters of the member, as `op` and `halfop` look for them. -/
theorem mode_any (mode : Option Bytes) (letters : String) :
    (mode.any fun mode => mode.any (oneOf letters)) = true ↔
      ∃ m, mode = some m ∧ ∃ b ∈ m, b ∈ lit letters := by
  cases mode <;> simp [oneOf]

/-- A call evaluates the expression. -/
theorem decides_call {f : Func} {p : Perm} (h : Compiles w f p refs) (hdepth : p.height < depth) :
    Decides (call strmatch w q depth f) (p.Holds strmatch q) (p.Wellformed strmatch) := by
  induction depth generalizing f p refs with
  | zero => exact absurd hdepth (Nat.not_lt_zero _)
  | succ depth ih =>
    cases h with
    | halfop =>
      refine decides_some ((mode_any q.mode "ho").trans ⟨?_, ?_⟩)
      · rintro ⟨mode, hmode, b, hb, hletter⟩
        have hletter : b = 104 ∨ b = 111 := by simpa [lit] using hletter
        rcases hletter with rfl | rfl
        · exact .halfop hmode (Or.inl hb)
        · exact .halfop hmode (Or.inr hb)
      · rintro ⟨hmode, hb | hb⟩
        · exact ⟨_, hmode, 104, hb, by decide⟩
        · exact ⟨_, hmode, 111, hb, by decide⟩
    | op =>
      refine decides_some ((mode_any q.mode "o").trans ⟨?_, ?_⟩)
      · rintro ⟨mode, hmode, b, hb, hletter⟩
        obtain rfl : b = 111 := by simpa [lit] using hletter
        exact .op hmode hb
      · intro hholds
        cases hholds with
        | op hmode hb => exact ⟨_, hmode, 111, hb, by decide⟩
    | @chanwhitelist ref first args entries refs href hentries =>
      have hread : (w.args ref).tail = args := congrArg List.tail (args_eq href)
      rw [call, hread]
      refine (decides_anyM (decides_entries hentries)).iff holds_chanwhitelist.symm fun hw => ?_
      cases hw with
      | chanwhitelist hall => exact hall
    | @and_ ref first args perms refs href hall =>
      have hread : (w.args ref).tail = args := congrArg List.tail (args_eq href)
      have hheight : heights perms < depth := Nat.lt_of_succ_lt_succ hdepth
      rw [call, hread]
      refine (decides_allM (decides_operands hall fun f p refs hp hf => ?_)).iff holds_and.symm
        fun hw => ?_
      · exact ih hf ((height_le hp).trans_lt hheight)
      · cases hw with
        | and_ hall => exact hall
    | @or_ ref first args perms refs href hall =>
      have hread : (w.args ref).tail = args := congrArg List.tail (args_eq href)
      have hheight : heights perms < depth := Nat.lt_of_succ_lt_succ hdepth
      rw [call, hread]
      refine (decides_anyM (decides_operands hall fun f p refs hp hf => ?_)).iff holds_or.symm
        fun hw => ?_
      · exact ih hf ((height_le hp).trans_lt hheight)
      · cases hw with
        | or_ hall => exact hall

end Check

/-! ### Loading -/

/-- The configuration spells these expressions; `refs` are the tables of each action, none of which is
in two places. -/
structure Configures (w : World) (rules : Bytes → Option Perm) (refs : Bytes → List Nat) : Prop where
  spelled : ∀ a v, w.config.lookup a = some v → ∃ p, rules a = some p ∧ Spells w v p (refs a)
  unconfigured : ∀ a, w.config.lookup a = none → rules a = none
  unshared : (w.config.keys.flatMap refs).Nodup

/-- The actions of `todo` are as they were configured, and the others are compiled. -/
structure Loading (rules : Bytes → Option Perm) (refs : Bytes → List Nat) (todo : List Bytes)
    (w : World) : Prop where
  spelled : ∀ a ∈ todo, ∃ v p, w.config.lookup a = some v ∧ rules a = some p ∧ Spells w v p (refs a)
  compiled : ∀ a p, a ∉ todo → rules a = some p → ∃ f refs', w.config.lookup a = some (.func f) ∧
    Compiles w f p refs' ∧ ∀ b ∈ todo, ∀ ref ∈ refs', ref ∉ refs b
  denied : ∀ a, rules a = none → w.config.lookup a = none

section Load

variable {strmatch : Bytes → Bytes → Option Bool} {w t : World} {rules : Bytes → Option Perm}
  {refs : Bytes → List Nat} {todo actions : List Bytes} {action : Bytes} {depth : Nat}

theorem Configures.mem_keys {p : Perm} (h : Configures w rules refs) (hrule : rules action = some p) :
    action ∈ w.config.keys := by
  by_contra hnot
  have hnone : w.config.lookup action = none := AList.lookup_eq_none.mpr hnot
  rw [h.unconfigured action hnone] at hrule
  cases hrule

theorem Configures.loading (h : Configures w rules refs) (horder : actions.Perm w.config.keys) :
    Loading rules refs actions w where
  spelled a ha := by
    have hmem : a ∈ w.config := AList.mem_keys.mpr (horder.mem_iff.mp ha)
    obtain ⟨v, hv⟩ := Option.isSome_iff_exists.mp (AList.lookup_isSome.mpr hmem)
    obtain ⟨p, hp, hspells⟩ := h.spelled a v hv
    exact ⟨v, p, hv, hp, hspells⟩
  compiled a p hnot hp := absurd (horder.mem_iff.mpr (h.mem_keys hp)) hnot
  denied a hnone := by
    cases hv : w.config.lookup a with
    | none => rfl
    | some v =>
      obtain ⟨p, hp, -⟩ := h.spelled a v hv
      rw [hnone] at hp
      cases hp

/-- Nothing else is configured when an action is compiled. -/
theorem loadAction_ok {v : Value} {f : Func} (hlookup : w.config.lookup action = some v)
    (hrun : permspec2func depth v w = .ok f t) :
    loadAction depth action w = .ok ⟨⟩ { t with config := w.config.insert action (.func f) } := by
  have hconfig : t.config = w.config := by
    have hmoves := keepsConfig_permspec2func depth v w w rfl
    rwa [hrun] at hmoves
  rw [loadAction, Eff.get_bind_eq, hlookup, ← hconfig]
  exact Eff.bind_of_ok hrun

theorem loading_loadAction (h : Loading rules refs (action :: todo) w)
    (hnodup : (action :: todo).Nodup) (hunshared : ((action :: todo).flatMap refs).Nodup)
    (hheight : ∀ p, rules action = some p → p.height < depth) :
    ∃ t, loadAction depth action w = .ok ⟨⟩ t ∧ Loading rules refs todo t := by
  rw [List.flatMap_cons, List.nodup_append'] at hunshared
  obtain ⟨hnd, -, hdisjoint⟩ := hunshared
  obtain ⟨hout, -⟩ := List.nodup_cons.mp hnodup
  obtain ⟨v, p, hlookup, hrule, hspells⟩ := h.spelled action List.mem_cons_self
  obtain ⟨f, t, refs', hrun, hcompiles, hwithin, hamong⟩ :=
    compilesSpelled depth w v p (refs action) (hheight p hrule) hspells hnd
  refine ⟨_, loadAction_ok hlookup hrun, ⟨fun b hb => ?_, fun b r hnot hr => ?_, fun b hnone => ?_⟩⟩
  · -- what is still to do is in other tables
    obtain ⟨v', p', hlookup', hrule', hspells'⟩ := h.spelled b (List.mem_cons_of_mem _ hb)
    have hkept : Keeps w t (refs b) := hwithin.keeps hspells'.framed.lt_length fun ref href hmem =>
      hdisjoint hmem (List.mem_flatMap.mpr ⟨b, hb, href⟩)
    refine ⟨v', p', ?_, hrule', hspells'.framed.keeps _ hkept⟩
    rw [Table.lookup_insert, if_neg (ne_of_mem_of_not_mem hb hout), hlookup']
  · by_cases heq : b = action
    · obtain rfl := heq
      obtain rfl : p = r := Option.some.inj (hrule.symm.trans hr)
      have hkept : Keeps t _ refs' := fun _ _ => rfl
      refine ⟨f, refs', by rw [Table.lookup_insert, if_pos rfl], hcompiles.framed.keeps _ hkept, ?_⟩
      intro c hc ref href hmem
      obtain ⟨_, _, -, -, hspells'⟩ := h.spelled c (List.mem_cons_of_mem _ hc)
      have hnot : ref ∉ refs b := fun hold => hdisjoint hold (List.mem_flatMap.mpr ⟨c, hc, hmem⟩)
      exact hamong.not_mem (hspells'.framed.lt_length ref hmem) hnot href
    · obtain ⟨f', more, hlookup', hcompiles', hfree⟩ := h.compiled b r (by simp [heq, hnot]) hr
      have hkept : Keeps w t more :=
        hwithin.keeps hcompiles'.framed.lt_length (hfree action List.mem_cons_self)
      refine ⟨f', more, ?_, hcompiles'.framed.keeps _ hkept, fun c hc =>
        hfree c (List.mem_cons_of_mem _ hc)⟩
      rw [Table.lookup_insert, if_neg heq, hlookup']
  · have hne : b ≠ action := by
      rintro rfl
      rw [hrule] at hnone
      cases hnone
    rw [Table.lookup_insert, if_neg hne, h.denied b hnone]

theorem loading_load (h : Loading rules refs actions w) (hnodup : actions.Nodup)
    (hunshared : (actions.flatMap refs).Nodup)
    (hheight : ∀ a p, rules a = some p → p.height < depth) :
    ∃ t, load depth actions w = .ok ⟨⟩ t ∧ Loading rules refs [] t := by
  induction actions generalizing w with
  | nil => exact ⟨w, rfl, h⟩
  | cons action actions ih =>
    obtain ⟨t, hone, hloading⟩ := loading_loadAction h hnodup hunshared (hheight action)
    have hrest : (actions.flatMap refs).Nodup := by
      rw [List.flatMap_cons, List.nodup_append'] at hunshared
      exact hunshared.2.1
    obtain ⟨u, hload, hend⟩ := ih hloading (List.nodup_cons.mp hnodup).2 hrest
    exact ⟨u, (Eff.bind_of_ok hone).trans hload, hend⟩

theorem Loading.check (h : Loading rules refs [] w) (q : Query)
    (hheight : ∀ a p, rules a = some p → p.height < depth) (action : Bytes) :
    (rules action = none → check strmatch w q depth action = some false) ∧
      ∀ p, rules action = some p → Decides (check strmatch w q depth action) (p.Holds strmatch q)
        (p.Wellformed strmatch) := by
  refine ⟨fun hnone => ?_, fun p hp => ?_⟩
  · rw [Perms.check, h.denied action hnone]
  · obtain ⟨f, refs', hlookup, hcompiles, -⟩ := h.compiled action p (List.not_mem_nil) hp
    rw [Perms.check, hlookup]
    exact decides_call hcompiles (hheight action p hp)

theorem height_lt (h : Configures w rules refs) {p : Perm} (hrule : rules action = some p) :
    p.height < heights (w.config.keys.filterMap rules) + 1 :=
  Nat.lt_succ_of_le (height_le (List.mem_filterMap.mpr ⟨action, h.mem_keys hrule, hrule⟩))

/-- After the first load `check` evaluates the configured expression, whatever the order of `pairs`;
calls must be allowed to nest as deep as the expressions do. A pattern that is none raises. -/
theorem check_evaluates (strmatch : Bytes → Bytes → Option Bool) (h : Configures w rules refs)
    (horder : actions.Perm w.config.keys) :
    ∃ enough, ∀ depth ≥ enough, ∃ t, load depth actions w = .ok ⟨⟩ t ∧ ∀ calls ≥ enough, ∀ q action,
      (rules action = none → check strmatch t q calls action = some false) ∧
        ∀ p, rules action = some p → Decides (check strmatch t q calls action)
          (p.Holds strmatch q) (p.Wellformed strmatch) := by
  refine ⟨heights (w.config.keys.filterMap rules) + 1, fun depth hdepth => ?_⟩
  have hnodup : actions.Nodup := horder.nodup_iff.mpr w.config.nodupKeys
  have hunshared : (actions.flatMap refs).Nodup := (horder.flatMap_right refs).nodup_iff.mpr h.unshared
  obtain ⟨t, hload, hloading⟩ := loading_load (h.loading horder) hnodup hunshared fun a p hp =>
    (height_lt h hp).trans_le hdepth
  exact ⟨t, hload, fun calls hcalls q => hloading.check q fun a p hp =>
    (height_lt h hp).trans_le hcalls⟩

end Load

/-- What `kickConfig` spells. -/
def kickRules (action : Bytes) : Option Perm :=
  if action = lit "kick" then some (.or_ [.op, .halfop]) else none

/-- `string.match` with a pattern that has no special characters in it, for the whole string. -/
def equals (str pattern : Bytes) : Option Bool := some (str == pattern)

/-- An operator may kick, and so may a half-operator. -/
theorem kickConfig_evaluates : ∃ enough, ∀ depth ≥ enough, ∃ t,
    load depth ["kick"] kickConfig = .ok ⟨⟩ t ∧ ∀ calls ≥ enough, ∀ q action,
      (kickRules action = none → check equals t q calls action = some false) ∧
        ∀ p, kickRules action = some p → Decides (check equals t q calls action) (p.Holds equals q)
          (p.Wellformed equals) := by
  have hlookup (a : Bytes) : kickConfig.config.lookup a =
      if a = lit "kick" then some (.table 0) else none := Table.lookup_set
  have hname (p : Perm) (hbare : p.Bare) : Spells kickConfig (.str p.type) p [] := .name p hbare
  refine @check_evaluates kickConfig kickRules (fun _ => [0]) _ equals
    ⟨fun a v hv => ?_, fun a ha => ?_, ?_⟩ ?_
  · rw [hlookup] at hv
    split at hv
    · obtain rfl := Option.some.inj hv
      refine ⟨.or_ [.op, .halfop], if_pos ‹_›, .table rfl (.or_ ?_)⟩
      exact .cons (hname .op trivial) (.cons (hname .halfop trivial) .nil)
    · cases hv
  · rw [hlookup] at ha
    split at ha
    · cases ha
    · exact if_neg ‹_›
  · exact List.nodup_singleton 0
  · exact List.Perm.refl _

end TuxBot.Plugins.Perms
