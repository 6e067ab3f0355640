import DualView.Proofs.Layout.Decisions

/-!
# Cycles of containment

A cycle of containment leads from a type through fields of structs and members of unions back to
that type.  Layouts are decided for the fields of structs only, so it is there that cycles are cut: a
compiled model keeps every field on a cycle behind a pointer.  What it keeps in place goes round in
a cycle only where unions have each other as members.

* `Schema.Route`: a path of containment with the position of every step.
* `Schema.fieldLayout_of_returns`: a field that leads back to its struct is behind a pointer.
* `Schema.cycles_cut`: a cycle is cut at every field on it, and what is kept in place has no cycle
  through a struct.
* `Schema.union_cycle_uncut`: a union that is a member of itself compiles, with nothing cut.
-/

namespace DualView

/-! ## Routes -/

/-- One step of containment: the type that contains, the position of a field or a member in it, and
the type of that field or member. -/
structure Hop where
  owner : TypeId
  index : Nat
  type : TypeId
  deriving DecidableEq

namespace Schema

variable {ts : TypeSystem} {s : Schema} {c : Config} {m : Model} {t u : TypeId} {links : List Hop}
  {l : Hop}

inductive HasHop (s : Schema) : Hop → Prop
  | field {owner : TypeId} {fields : List (Field TypeId)} {repr : StructRepr} {i : Nat}
      {f : Field TypeId} (body : s.body owner = .struct fields repr) (found : fields[i]? = some f) :
      HasHop s ⟨owner, i, f.type⟩
  | member {owner : TypeId} {members : List TypeId} {repr : UnionRepr} {i : Nat} {member : TypeId}
      (body : s.body owner = .union members repr) (found : members[i]? = some member) :
      HasHop s ⟨owner, i, member⟩

/-- A path of containment from one type to another, step by step. -/
inductive Route (s : Schema) : TypeId → List Hop → TypeId → Prop
  | here (t : TypeId) : Route s t [] t
  | step {l : Hop} {links : List Hop} {t : TypeId} (first : s.HasHop l)
      (rest : Route s l.type links t) : Route s l.owner (l :: links) t

def IsStruct (s : Schema) (t : TypeId) : Prop := ∃ fields repr, s.body t = .struct fields repr

def IsUnion (s : Schema) (t : TypeId) : Prop := ∃ members repr, s.body t = .union members repr

theorem HasHop.holds (h : s.HasHop l) : s.Holds l.owner l.type := by
  cases h with
  | field body found => exact .field body (List.mem_of_getElem? found)
  | member body found => exact .member body (List.mem_of_getElem? found)

theorem Route.reaches (h : s.Route t links u) : Relation.ReflTransGen s.Holds t u := by
  induction h with
  | here t => exact .refl
  | step first _ ih => exact .head first.holds ih

theorem Route.hasHop (h : s.Route t links u) (mem : l ∈ links) : s.HasHop l := by
  induction h with
  | here t => contradiction
  | step first _ ih =>
    rcases List.mem_cons.mp mem with rfl | mem
    · exact first
    · exact ih mem

theorem Route.through (h : s.Route t links u) (mem : l ∈ links) :
    Relation.ReflTransGen s.Holds t l.owner ∧ Relation.ReflTransGen s.Holds l.type u := by
  induction h with
  | here t => contradiction
  | step first rest ih =>
    rcases List.mem_cons.mp mem with rfl | mem
    · exact ⟨.refl, rest.reaches⟩
    · obtain ⟨before, after⟩ := ih mem
      exact ⟨.head first.holds before, after⟩

/-- Each step of a cycle leads back to where it starts: on to the end of the route, and from there,
which is its beginning, up to the step. -/
theorem Route.returns (h : s.Route t links t) (mem : l ∈ links) :
    Relation.ReflTransGen s.Holds l.type l.owner := by
  obtain ⟨before, after⟩ := h.through mem
  exact after.trans before

/-! ## Cuts -/

/-- A field that leads back to its struct is behind a pointer. -/
theorem fieldLayout_of_returns (frozen : ts.finalize = .ok s) (compiled : s.compile c = .ok m)
    {fields : List (Field TypeId)} {repr : StructRepr} {i : Nat} {f : Field TypeId}
    (body : s.body t = .struct fields repr) (found : fields[i]? = some f)
    (back : Relation.ReflTransGen s.Holds f.type t) : m.fieldLayout t i = .indirect := by
  have closes : s.Closes t f := (Relation.reflTransGen_iff_eq_or_transGen.mp back).imp_left Eq.symm
  have laid := fieldLaid_of_compile frozen compiled body found
  generalize m.fieldLayout t i = layout at laid
  cases laid with
  | cycle _ => rfl
  | maybe clear _ _ => exact absurd closes clear
  | plain clear _ _ => exact absurd closes clear

end Schema

/-- A type keeps another in place: a struct the types of the fields that are not behind a pointer, a
union its members. -/
inductive Model.KeepsInPlace (m : Model) (owner : TypeId) : TypeId → Prop
  | field {fields : List (Field TypeId)} {repr : StructRepr} {i : Nat} {f : Field TypeId}
      (body : m.schema.body owner = .struct fields repr) (found : fields[i]? = some f)
      (embedded : m.fieldLayout owner i = .embedded) : m.KeepsInPlace owner f.type
  | member {members : List TypeId} {repr : UnionRepr} {member : TypeId}
      (body : m.schema.body owner = .union members repr) (mem : member ∈ members) :
      m.KeepsInPlace owner member

theorem Model.KeepsInPlace.holds {m : Model} {t u : TypeId} (h : m.KeepsInPlace t u) :
    m.schema.Holds t u := by
  cases h with
  | field body found _ => exact .field body (List.mem_of_getElem? found)
  | member body mem => exact .member body mem

namespace Schema

variable {ts : TypeSystem} {s : Schema} {c : Config} {m : Model} {t : TypeId}

theorem isUnion_of_keepsInPlace (frozen : ts.finalize = .ok s) (compiled : s.compile c = .ok m)
    (cycle : Relation.TransGen m.KeepsInPlace t t) : s.IsUnion t := by
  obtain rfl := schema_of_compile compiled
  obtain ⟨u, first, rest⟩ := Relation.TransGen.head'_iff.mp cycle
  have back : Relation.ReflTransGen m.schema.Holds u t := rest.lift id fun _ _ step => step.holds
  cases first with
  | member body mem => exact ⟨_, _, body⟩
  | field body found embedded =>
    have indirect := fieldLayout_of_returns frozen compiled body found back
    exact absurd (embedded.symm.trans indirect) nofun

/-- **Every cycle of containment is cut at each field on it.**  So what is kept in place goes round
in a cycle only through unions that are members of each other. -/
theorem cycles_cut (frozen : ts.finalize = .ok s) (compiled : s.compile c = .ok m) :
    (∀ t links, s.Route t links t → ∀ l ∈ links, s.IsStruct l.owner →
      m.fieldLayout l.owner l.index = .indirect) ∧
    ∀ t, Relation.TransGen m.KeepsInPlace t t → s.IsUnion t := by
  refine ⟨?_, fun t => isUnion_of_keepsInPlace frozen compiled⟩
  rintro t links cycle l mem ⟨fields, repr, struct⟩
  have back := cycle.returns mem
  cases cycle.hasHop mem with
  | field body found => exact fieldLayout_of_returns frozen compiled body found back
  | member body _ => exact absurd (struct.symm.trans body) nofun

/-- The cycle of a term and its operand is cut at the operand, and that of a cell at its fields. -/
theorem cycles_cut_linked :
    linkedTypes.finalize = .ok linkedSchema ∧
      ∃ m, linkedSchema.compile .empty = .ok m ∧ m.fieldLayout 2 0 = .indirect ∧
        m.fieldLayout 1 2 = .indirect ∧ ¬ Relation.TransGen m.KeepsInPlace 2 2 := by
  have frozen : linkedTypes.finalize = .ok linkedSchema := rfl
  obtain ⟨cut, inPlace⟩ := cycles_cut frozen compile_linkedSchema
  have operand : linkedSchema.HasHop ⟨2, 0, 3⟩ :=
    .field (f := ⟨"operand", 3, false, false⟩) rfl rfl
  have again : linkedSchema.HasHop ⟨3, 0, 2⟩ := .member rfl rfl
  have last : linkedSchema.HasHop ⟨1, 2, 1⟩ := .field (f := ⟨"last", 1, false, true⟩) rfl rfl
  have term : linkedSchema.Route 2 [⟨2, 0, 3⟩, ⟨3, 0, 2⟩] 2 := .step operand (.step again (.here 2))
  have cell : linkedSchema.Route 1 [⟨1, 2, 1⟩] 1 := .step last (.here 1)
  refine ⟨frozen, _, compile_linkedSchema, ?_, ?_, ?_⟩
  · exact cut 2 _ term ⟨2, 0, 3⟩ List.mem_cons_self ⟨_, _, rfl⟩
  · exact cut 1 _ cell ⟨1, 2, 1⟩ List.mem_cons_self ⟨_, _, rfl⟩
  · intro cycle
    obtain ⟨members, repr, body⟩ := inPlace 2 cycle
    contradiction

/-! ## Unions among themselves -/

/-- A loop is a loop again or an int. -/
def loopTypes : TypeSystem := ⟨
  [ ⟨"Int", .scalar .int⟩,
    ⟨"Loop", .union ["Loop", "Int"] (.keyed ⟨[("Loop", "loop"), ("Int", "int")]⟩)⟩ ]⟩

def loopSchema : Schema := ⟨
  [ ⟨"Int", .scalar .int⟩,
    ⟨"Loop", .union [1, 0] (.keyed ⟨[("Loop", "loop"), ("Int", "int")]⟩)⟩ ]⟩

def loopModel : Model := ⟨loopSchema, .empty, [⟨.embedded, [], false⟩, ⟨.indirect, [], true⟩]⟩

/-- A union that is a member of itself compiles: it goes round in a cycle without any field, and so
nothing on it is behind a pointer. -/
theorem union_cycle_uncut :
    loopTypes.finalize = .ok loopSchema ∧ loopSchema.compile .empty = .ok loopModel ∧
      loopSchema.Route 1 [⟨1, 0, 1⟩] 1 ∧
      ¬ (∃ l ∈ [(⟨1, 0, 1⟩ : Hop)],
        loopSchema.IsStruct l.owner ∧ loopModel.fieldLayout l.owner l.index = .indirect) ∧
      Relation.TransGen loopModel.KeepsInPlace 1 1 := by
  have compiled : loopSchema.compile .empty = .ok loopModel := by
    have types : (List.range loopSchema.size).mapM (loopSchema.typeLayout .empty) =
        .ok loopModel.layouts := by decide +kernel
    rw [compile, types]
    rfl
  have again : loopSchema.HasHop ⟨1, 0, 1⟩ := .member rfl rfl
  refine ⟨rfl, compiled, .step again (.here 1), ?_, .single (.member rfl ?_)⟩
  · rintro ⟨l, mem, ⟨fields, repr, struct⟩, -⟩
    obtain rfl := List.mem_singleton.mp mem
    contradiction
  · exact List.mem_cons_self

end Schema

end DualView
