import DualView.Proofs.Schema.Registry
import DualView.Proofs.Table
import DualView.Schema.Indexed

/-!
# The index of declarations

The table of a registry is *in step* if it indexes the declarations by their names
(`IndexedTypeSystem.InStep`).  An addition that is accepted keeps it in step, since the name is new,
and one that is refused leaves everything as it was.  What is found through the table is then what a
search finds, so that the registry does what a `TypeSystem` does.  Freezing keeps the table, and the
positions that it lists beside a declaration are those of the names the declaration refers to.

* `IndexedTypeSystem.InStep.insert`, `IndexedTypeSystem.InStep.addEach`: one addition, and a
  sequence.
* `IndexedTypeSystem.InStep.step_addEach`: one addition on the way.
* `IndexedTypeSystem.InStep.addEach_plain`, `IndexedTypeSystem.InStep.finalize_plain`: the table
  changes nothing of what a `TypeSystem` does.
* `IndexedTypeSystem.FrozenAs`: table, declarations and references of a frozen registry agree.
* `IndexedTypeSystem.written_once`: all of it, for the two ways to begin.
-/

namespace DualView

/-! ## References listed and in place -/

theorem zipWith_types_resolved {ρ σ ε : Type} {g : ρ → Except ε σ} {fields : List (Field ρ)}
    {resolved : List (Field σ)}
    (each : List.Forall₂ (fun f f' => (do
      return (⟨f.name, ← g f.type, f.optional, f.nullable⟩ : Field σ)) = .ok f') fields resolved) :
    fields.zipWith (fun f type => (⟨f.name, type, f.optional, f.nullable⟩ : Field σ))
      (resolved.map (·.type)) = resolved := by
  induction each with
  | nil => rfl
  | cons found _ ih =>
    obtain ⟨t, -, found⟩ := bind_eq_ok_iff.mp found
    cases found
    rw [List.map_cons, List.zipWith_cons_cons, ih]

/-- **References that are listed in order can be put in their places.** -/
theorem Body.withRefs?_references {ρ σ ε : Type} {g : ρ → Except ε σ} {body : Body ρ}
    {resolved : Body σ} (h : body.resolve g = .ok resolved) :
    body.withRefs? resolved.references = some resolved := by
  cases body with
  | scalar kind =>
    cases h
    rfl
  | enum members repr =>
    cases h
    rfl
  | list elem nullable =>
    obtain ⟨t, -, h⟩ := bind_eq_ok_iff.mp h
    cases h
    rfl
  | map key value nullable nulls =>
    obtain ⟨k, -, h⟩ := bind_eq_ok_iff.mp h
    obtain ⟨v, -, h⟩ := bind_eq_ok_iff.mp h
    cases h
    rfl
  | struct fields repr =>
    obtain ⟨resolved, each, h⟩ := bind_eq_ok_iff.mp h
    cases h
    have each := mapM_eq_ok_iff.mp each
    rw [references, withRefs?, if_pos (by rw [List.length_map, each.length_eq]),
      zipWith_types_resolved each]
  | union members repr =>
    obtain ⟨resolved, each, h⟩ := bind_eq_ok_iff.mp h
    cases h
    rw [references, withRefs?, if_pos (mapM_eq_ok_iff.mp each).length_eq.symm]

/-! ## Frozen declarations without the table -/

namespace IndexedSchema

variable (s : IndexedSchema) (id : TypeId)

theorem body_plain : s.plain.body id =
    (s.entries[id]?.bind fun e => e.decl.body.withRefs? e.refs).getD Schema.vacant.body := by
  rw [Schema.body, Schema.decl, plain, List.getElem?_map]
  cases s.entries[id]? <;> rfl

theorem listElem?_mapEntry?_plain :
    s.plain.listElem? id = s.listElem? id ∧ s.plain.mapEntry? id = s.mapEntry? id := by
  rw [Schema.listElem?, Schema.mapEntry?, body_plain, listElem?, mapEntry?]
  rcases s.entries[id]? with - | ⟨⟨name, body⟩, refs⟩
  · exact ⟨rfl, rfl⟩
  · -- too few or too many positions leave the vacant type, which is neither
    cases body with
    | scalar kind => cases refs <;> exact ⟨rfl, rfl⟩
    | enum members repr => cases refs <;> exact ⟨rfl, rfl⟩
    | list elem nullable => rcases refs with - | ⟨elem, - | _⟩ <;> exact ⟨rfl, rfl⟩
    | map key value nullable nulls =>
      rcases refs with - | ⟨key, - | ⟨value, - | _⟩⟩ <;> exact ⟨rfl, rfl⟩
    | struct fields repr =>
      by_cases length : refs.length = fields.length <;> simp [Body.withRefs?, length, Schema.vacant]
    | union members repr =>
      by_cases length : refs.length = members.length <;> simp [Body.withRefs?, length, Schema.vacant]

end IndexedSchema

namespace IndexedTypeSystem

variable {ts : IndexedTypeSystem} {d : Decl String} {ds : List (Decl String)} {name : String}

/-! ## One addition -/

theorem add_of_held (held : ts.contains d.name = true) :
    ts.add d = .error (.duplicateName d.name) := by
  rw [add, if_pos held]

theorem add_of_new (new : ts.contains d.name = false) : ts.add d = .ok (ts.size, ts.insert d) := by
  rw [add, if_neg (Bool.eq_false_iff.mp new)]

theorem addEach_cons_of_held (held : ts.contains d.name = true) :
    ts.addEach (d :: ds) =
      (.error (.duplicateName d.name) :: (ts.addEach ds).1, (ts.addEach ds).2) := by
  rw [addEach, add_of_held held]

theorem addEach_cons_of_new (new : ts.contains d.name = false) :
    ts.addEach (d :: ds) =
      (.ok ts.size :: ((ts.insert d).addEach ds).1, ((ts.insert d).addEach ds).2) := by
  rw [addEach, add_of_new new]

/-- The table has the position of each declaration under its name, and nothing else. -/
def InStep (ts : IndexedTypeSystem) : Prop := ts.index.Indexes (·.name) ts.decls

namespace InStep

theorem contains_iff (h : ts.InStep) : ts.contains name = true ↔ name ∈ ts.plain.names := by
  rw [contains, Table.Indexes.isSome_iff h, TypeSystem.names, List.mem_map]
  rfl

/-- **A declaration under a new name keeps the table in step.** -/
theorem insert (h : ts.InStep) (new : ts.contains d.name = false) : (ts.insert d).InStep :=
  Table.Indexes.push h (Option.isSome_eq_false_iff.mp new |> Option.isNone_iff_eq_none.mp)

/-- **Additions keep the table in step, whether or not they are refused.** -/
theorem addEach (h : ts.InStep) (ds : List (Decl String)) : (ts.addEach ds).2.InStep := by
  induction ds generalizing ts with
  | nil => exact h
  | cons d ds ih =>
    cases held : ts.contains d.name with
    | true =>
      rw [addEach_cons_of_held held]
      exact ih h
    | false =>
      rw [addEach_cons_of_new held]
      exact ih (h.insert held)

end InStep

theorem inStep_empty : empty.InStep := Table.indexes_empty

theorem inStep_of_fresh {start : IndexedTypeSystem} (fresh : start = empty ∨ start = prelude) :
    start.InStep := by
  rcases fresh with rfl | rfl
  · exact inStep_empty
  · have added : prelude = (empty.addEach TypeSystem.prelude.decls).2 := rfl
    rw [added]
    exact inStep_empty.addEach _

/-! ## Many additions -/

theorem addEach_append (ts : IndexedTypeSystem) (before after : List (Decl String)) :
    ts.addEach (before ++ after) =
      ((ts.addEach before).1 ++ ((ts.addEach before).2.addEach after).1,
        ((ts.addEach before).2.addEach after).2) := by
  induction before generalizing ts with
  | nil => rfl
  | cons d before ih =>
    rw [List.cons_append]
    cases held : ts.contains d.name with
    | true =>
      rw [addEach_cons_of_held held, addEach_cons_of_held held, ih]
      rfl
    | false =>
      rw [addEach_cons_of_new held, addEach_cons_of_new held, ih]
      rfl

theorem length_addEach (ts : IndexedTypeSystem) (ds : List (Decl String)) :
    (ts.addEach ds).1.length = ds.length := by
  induction ds generalizing ts with
  | nil => rfl
  | cons d ds ih =>
    cases held : ts.contains d.name with
    | true => rw [addEach_cons_of_held held, List.length_cons, List.length_cons, ih]
    | false => rw [addEach_cons_of_new held, List.length_cons, List.length_cons, ih]

/-- The outcome of one addition, and what it leaves. -/
def Adds (before : IndexedTypeSystem) (d : Decl String) (outcome : Except SchemaError TypeId)
    (after : IndexedTypeSystem) : Prop :=
  (d.name ∈ before.plain.names → outcome = .error (.duplicateName d.name) ∧ after = before) ∧
    (d.name ∉ before.plain.names → outcome = .ok before.size ∧ after = before.insert d)

namespace InStep

/-- **Each addition on the way finds what the ones before it have left.** -/
theorem step_addEach (h : ts.InStep) {i : Nat} (at_i : ds[i]? = some d) :
    ∃ outcome, (ts.addEach ds).1[i]? = some outcome ∧
      (ts.addEach (ds.take i)).2.Adds d outcome (ts.addEach (ds.take (i + 1))).2 := by
  obtain ⟨bound, rfl⟩ := List.getElem?_eq_some_iff.mp at_i
  have split : ds = ds.take i ++ ds[i] :: ds.drop (i + 1) := by
    rw [← List.drop_eq_getElem_cons bound, List.take_append_drop]
  have next : ds.take (i + 1) = ds.take i ++ [ds[i]] := List.take_succ_eq_append_getElem bound
  have place : (ts.addEach (ds.take i)).1.length = i := by
    rw [length_addEach, List.length_take, Nat.min_eq_left (Nat.le_of_lt bound)]
  have outcomes := congrArg (fun ds => (ts.addEach ds).1[i]?) split
  rw [addEach_append, List.getElem?_append_right (Nat.le_of_eq place), place, Nat.sub_self]
    at outcomes
  rw [outcomes, next, addEach_append]
  have names : (ts.addEach (ds.take i)).2.contains ds[i].name = true ↔ _ :=
    (h.addEach (ds.take i)).contains_iff
  generalize (ts.addEach (ds.take i)).2 = before at names
  cases held : before.contains ds[i].name with
  | true =>
    rw [addEach_cons_of_held held, addEach_cons_of_held held]
    exact ⟨_, rfl, fun _ => ⟨rfl, rfl⟩, fun new => absurd (names.mp held) new⟩
  | false =>
    rw [addEach_cons_of_new held, addEach_cons_of_new held]
    refine ⟨_, rfl, fun mem => ?_, fun _ => ⟨rfl, rfl⟩⟩
    rw [names.mpr mem] at held
    contradiction

/-- The table changes nothing of which declarations are refused and which are kept. -/
theorem addEach_plain (h : ts.InStep) (ds : List (Decl String)) :
    ts.plain.addEach ds = ((ts.addEach ds).1, (ts.addEach ds).2.plain) := by
  induction ds generalizing ts with
  | nil => rfl
  | cons d ds ih =>
    cases held : ts.contains d.name with
    | true =>
      rw [addEach_cons_of_held held, TypeSystem.addEach_cons_of_mem (h.contains_iff.mp held), ih h]
    | false =>
      have new : d.name ∉ ts.plain.names := fun mem => by
        rw [h.contains_iff.mpr mem] at held
        contradiction
      have ih := ih (h.insert held)
      rw [addEach_cons_of_new held, TypeSystem.addEach_cons_of_not_mem new]
      exact congrArg (fun p => (Except.ok ts.size :: p.1, p.2)) ih

/-! ## What is found through the table -/

/-- A name resolves as it does without the table, and always to something. -/
theorem resolve_plain (h : ts.InStep) (name : String) :
    ts.resolve name = some (ts.plain.resolve name) := by
  have found := Table.Indexes.bind_eq_find? h name
  rw [resolve, TypeSystem.resolve, plain, ← found]
  cases at_id : ts.index.get? name with
  | none => rfl
  | some id =>
    obtain ⟨d, hd, -⟩ := (h name id).mp at_id
    simp only [Option.bind_some, hd, Option.map_some]

theorem reference_plain (h : ts.InStep) (source name : String) :
    ts.reference source name = ts.plain.reference source name := by
  rw [reference, TypeSystem.reference, Table.Indexes.get?_eq h]
  rfl

/-- The positions that are listed are those that a closed declaration has in place. -/
theorem freeze_plain (h : ts.InStep) (d : Decl String) :
    SchemaEntry.plain <$> ts.freeze d = ts.plain.close d := by
  have refs : d.references.mapM (ts.reference d.name) =
      Body.references <$> d.body.resolve (ts.plain.reference d.name) := by
    rw [Body.references_resolve]
    exact mapM_congr fun name _ => h.reference_plain d.name name
  rw [freeze, refs, TypeSystem.close, Decl.resolve]
  cases resolved : d.body.resolve (ts.plain.reference d.name) with
  | error e => rfl
  | ok body =>
    have inPlace : d.body.withRefs? body.references = some body :=
      Body.withRefs?_references resolved
    change Except.ok (SchemaEntry.plain ⟨d, body.references⟩) = Except.ok ⟨d.name, body⟩
    rw [SchemaEntry.plain, inPlace, Option.getD_some]

/-- **Freezing does what it does without the table.** -/
theorem finalize_plain (h : ts.InStep) :
    IndexedSchema.plain <$> ts.finalize = ts.plain.finalize := by
  have entries : List.map SchemaEntry.plain <$> ts.decls.mapM ts.freeze =
      ts.decls.mapM ts.plain.close := by
    rw [map_mapM]
    exact mapM_congr fun d _ => h.freeze_plain d
  rw [finalize, TypeSystem.finalize, map_bind]
  change _ = (ts.decls.mapM ts.plain.close >>= _)
  rw [← entries, bind_map_left]
  refine bind_congr fun entries => ?_
  dsimp only [Function.comp_apply, IndexedSchema.plain]
  cases Schema.firstError? ⟨entries.map (·.plain)⟩ <;> rfl

end InStep

/-! ## Freezing -/

/-- The schema is that of the registry: it has the declarations in order and finds them as before,
the table has the position of each, and the positions listed beside a declaration are those of the
names it refers to. -/
structure FrozenAs (ts : IndexedTypeSystem) (s : IndexedSchema) : Prop where
  decls_eq : s.entries.map (·.decl) = ts.decls
  index_eq : s.index = ts.index
  resolve_eq : ∀ name, s.resolve name = ts.resolve name
  idOf_name : ∀ id d, s.get? id = some d → s.idOf d.name = .ok id
  refs : ∀ id d, s.get? id = some d → ∃ refs, s.refs? id = some refs ∧
    List.Forall₂ (fun t name => ∃ d', s.get? t = some d' ∧ d'.name = name) refs d.references

theorem freeze_eq_ok_iff {e : SchemaEntry} : ts.freeze d = .ok e ↔
    e.decl = d ∧ List.Forall₂ (fun name t => ts.index.get? name = some t) d.references e.refs := by
  have found (name : String) (t : TypeId) :
      ts.reference d.name name = .ok t ↔ ts.index.get? name = some t := by
    rw [reference]
    cases ts.index.get? name <;> simp
  obtain ⟨decl, refs⟩ := e
  rw [freeze, bind_eq_ok_iff]
  simp only [mapM_eq_ok_iff, found, pure_eq_ok, Except.ok.injEq, SchemaEntry.mk.injEq]
  constructor
  · rintro ⟨refs, each, rfl, rfl⟩
    exact ⟨rfl, each⟩
  · rintro ⟨rfl, each⟩
    exact ⟨refs, each, rfl, rfl⟩

theorem entries_of_finalize {s : IndexedSchema} (frozen : ts.finalize = .ok s) :
    List.Forall₂ (fun d e => ts.freeze d = .ok e) ts.decls s.entries ∧ s.index = ts.index := by
  obtain ⟨entries, each, frozen⟩ := bind_eq_ok_iff.mp frozen
  dsimp only at frozen
  split at frozen
  · contradiction
  · cases frozen
    exact ⟨mapM_eq_ok_iff.mp each, rfl⟩

/-- **What is frozen agrees with what was collected.** -/
theorem InStep.frozenAs (h : ts.InStep) {s : IndexedSchema} (frozen : ts.finalize = .ok s) :
    ts.FrozenAs s := by
  obtain ⟨each, index_eq⟩ := entries_of_finalize frozen
  have same : List.Forall₂ Eq (s.entries.map (·.decl)) ts.decls :=
    List.forall₂_map_left_iff.mpr (each.flip.imp fun e d found => (freeze_eq_ok_iff.mp found).1)
  have decls_eq : s.entries.map (·.decl) = ts.decls := List.forall₂_eq_eq_eq ▸ same
  have get?_eq (id : TypeId) : s.get? id = ts.decls[id]? := by
    rw [IndexedSchema.get?, ← List.getElem?_map, decls_eq]
  refine ⟨decls_eq, index_eq, fun name => ?_, fun id d at_id => ?_, fun id d at_id => ?_⟩
  · rw [IndexedSchema.resolve, IndexedSchema.idOf, index_eq, resolve]
    cases ts.index.get? name with
    | none => rfl
    | some id => exact congrArg (Option.map Except.ok) (get?_eq id)
  · have position : ts.index.get? d.name = some id := (h d.name id).mpr ⟨d, get?_eq id ▸ at_id, rfl⟩
    rw [IndexedSchema.idOf, index_eq, position]
  · obtain ⟨e, he, rfl⟩ := Option.map_eq_some_iff.mp at_id
    obtain ⟨d, e', -, he', found⟩ | ⟨-, none⟩ := rel_iff.mp (getElem?_of_forall₂ each id)
    · cases he.symm.trans he'
      obtain ⟨rfl, refs⟩ := freeze_eq_ok_iff.mp found
      refine ⟨e.refs, by rw [IndexedSchema.refs?, he, Option.map_some], refs.flip.imp ?_⟩
      intro t name at_t
      obtain ⟨d', hd', names⟩ := (h name t).mp at_t
      exact ⟨d', (get?_eq t).trans hd', names⟩
    · cases he.symm.trans none

/-! ## From the beginning -/

/-- **A registry is written once, and its table and lists stay in step.**  Begun empty or with the
scalars, it refuses a declaration exactly if it holds the name, and is then left as it was, with its
table.  What it accepts comes last and is told where it stands.  The table has the position of each
declaration under its name and nothing else, so that a name resolves to the first declaration that
was added under it.  If the declarations can be frozen, the schema has them all in order, the table
leads from the name of each to its position, and beside each are listed the positions of what it
refers to, in order.  Without the table all comes to the same. -/
theorem written_once {start : IndexedTypeSystem} (fresh : start = empty ∨ start = prelude)
    (ds : List (Decl String)) :
    let outcomes := (start.addEach ds).1
    let ts := (start.addEach ds).2
    (∀ i d, ds[i]? = some d → ∃ outcome, outcomes[i]? = some outcome ∧
      (start.addEach (ds.take i)).2.Adds d outcome (start.addEach (ds.take (i + 1))).2) ∧
    (∃ added, ts.decls = start.decls ++ added ∧
      TypeSystem.accepted ds outcomes = added.zipIdx start.size) ∧
    (∀ name id, ts.index.get? name = some id ↔ ∃ d, ts.decls[id]? = some d ∧ d.name = name) ∧
    (∀ name d, ts.resolve name = some (.ok d) ↔ IsFirst (·.name = name) (start.decls ++ ds) d) ∧
    (∀ name, ts.resolve name = some (.error (.notFound name)) ↔ ∀ d ∈ ts.decls, d.name ≠ name) ∧
    (∀ s, ts.finalize = .ok s → ts.FrozenAs s) ∧
    start.plain.addEach ds = (outcomes, ts.plain) ∧
      IndexedSchema.plain <$> ts.finalize = ts.plain.finalize := by
  intro outcomes ts
  have started : start.InStep := inStep_of_fresh fresh
  have inStep : ts.InStep := started.addEach ds
  have plain : start.plain.addEach ds = (outcomes, ts.plain) := started.addEach_plain ds
  have kept := TypeSystem.decls_addEach start.plain ds
  have resolves := TypeSystem.resolve_addEach start.plain ds
  rw [plain] at kept
  simp only [plain] at resolves
  refine ⟨fun i d at_i => started.step_addEach at_i, kept, inStep, fun name d => ?_, fun name => ?_,
    fun s frozen => inStep.frozenAs frozen, plain, inStep.finalize_plain⟩
  · rw [inStep.resolve_plain, Option.some.injEq]
    exact resolves name d
  · rw [← Table.Indexes.eq_none_iff inStep, resolve]
    cases at_id : ts.index.get? name with
    | none => simp
    | some id =>
      obtain ⟨d, hd, -⟩ := (inStep name id).mp at_id
      simp [hd]

end IndexedTypeSystem

/-! ### Two types that refer to each other -/

namespace Sample

def branch : Decl String :=
  ⟨"Branch",
    .struct [⟨"left", "Int", false, false⟩, ⟨"right", "Branches", true, false⟩] (.map .none)⟩

/-- Two declarations that refer to each other, and two under names that are held. -/
def branches : List (Decl String) :=
  [branch, ⟨"Int", .list "Branch" false⟩, ⟨"Branches", .list "Branch" false⟩,
    ⟨"Branch", .scalar .int⟩]

end Sample

theorem IndexedTypeSystem.written_once_branches :
    let ts := (prelude.addEach Sample.branches).2
    (prelude.addEach Sample.branches).1 =
        [.ok 6, .error (.duplicateName "Int"), .ok 7, .error (.duplicateName "Branch")] ∧
      ts.index.get? "Branches" = some 7 ∧ ts.resolve "Branch" = some (.ok Sample.branch) ∧
      ∃ s, ts.finalize = .ok s ∧ s.refs? 6 = some [1, 7] ∧ ts.FrozenAs s := by
  obtain ⟨-, -, position, resolves, -, freezes, -⟩ := written_once (.inr rfl) Sample.branches
  refine ⟨rfl, ?_, ?_, _, rfl, rfl, freezes _ rfl⟩
  · exact (position "Branches" 7).mpr ⟨_, rfl, rfl⟩
  · exact (resolves "Branch" Sample.branch).mpr ⟨6, rfl, rfl, by decide⟩

end DualView
