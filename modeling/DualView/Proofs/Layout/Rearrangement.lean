import DualView.Proofs.Layout.Decisions
import DualView.Proofs.Schema.Rearrangement

/-!
# Models of declarations in another order

A frozen schema and a compiled model keep what they know under positions, which follow the order of
the declarations.  Asked by name, they do not show that order.  Containment is a relation between
names (`TypeSystem.Holds`), and each layout is decided by that relation, the declarations and the
configuration.

* `TypeSystem.contains_position_iff`: one type contains another if their names say so.
* `TypeSystem.Rearranges.typeLayout_eq`: the layouts of the type of a name do not depend on the
  order of the declarations.
* `Model.answersAlike_of_corresponds`: models that have the same declaration and the same layouts
  under each name give the same answers.
* `TypeSystem.order_immaterial`: declarations in another order are frozen alike, compile alike, and
  their models give the same answers.
-/

namespace DualView

/-! ## References replaced -/

namespace Body

variable {ρ σ : Type} {g : ρ → σ} {h : σ → ρ}

def inPlace : Body ρ → List ρ
  | struct fields _ => fields.map (·.type)
  | union members _ => members
  | scalar _ | list _ _ | map _ _ _ _ | enum _ _ => []

theorem mem_references_of_mem_inPlace {body : Body ρ} {r : ρ} (h : r ∈ body.inPlace) :
    r ∈ body.references := by
  cases body with
  | struct fields repr => exact h
  | union members repr => exact h
  | _ => exact absurd h List.not_mem_nil

theorem inPlace_mapRefs (g : ρ → σ) (body : Body ρ) :
    (body.mapRefs g).inPlace = body.inPlace.map g := by
  cases body with
  | struct fields repr =>
    rw [mapRefs, inPlace, inPlace, List.map_map, List.map_map]
    rfl
  | _ => rfl

theorem fields_mapRefs (g : ρ → σ) (body : Body ρ) :
    (body.mapRefs g).fields?.getD [] = (body.fields?.getD []).map (·.map g) := by
  cases body <;> rfl

theorem defaultLayout_mapRefs (g : ρ → σ) (body : Body ρ) :
    (body.mapRefs g).defaultLayout = body.defaultLayout := by
  cases body <;> rfl

/-- References that are replaced, and then put back, are as they were. -/
theorem mapRefs_mapRefs_eq_self {body : Body ρ} (back : ∀ r ∈ body.references, h (g r) = r) :
    (body.mapRefs g).mapRefs h = body := by
  cases body with
  | scalar kind => rfl
  | enum members repr => rfl
  | list elem nullable =>
    rw [mapRefs, mapRefs, back elem List.mem_cons_self]
  | map key value nullable nulls =>
    rw [mapRefs, mapRefs, back key List.mem_cons_self,
      back value (List.mem_cons_of_mem key List.mem_cons_self)]
  | struct fields repr =>
    have same : (fields.map (·.map g)).map (·.map h) = fields := by
      rw [List.map_map]
      refine (List.map_congr_left fun f hf => ?_).trans (List.map_id fields)
      have type : h (g f.type) = f.type := back f.type (List.mem_map_of_mem hf)
      rw [Function.comp, Field.map, Field.map, type]
      rfl
    rw [mapRefs, mapRefs, same]
  | union members repr =>
    have same : (members.map g).map h = members := by
      rw [List.map_map]
      exact (List.map_congr_left back).trans (List.map_id members)
    rw [mapRefs, mapRefs, same]

end Body

theorem Schema.holds_iff {s : Schema} {owner t : TypeId} :
    s.Holds owner t ↔ t ∈ (s.body owner).inPlace := by
  rw [← mem_contained_iff, contained.eq_def]
  cases body : s.body owner <;> simp only [references_eq, body] <;> rfl

namespace TypeSystem

variable {ts ts' : TypeSystem} {c : Config} {name a b : String} {d : Decl String} {id : TypeId}

/-! ## Declarations by name -/

theorem mem_of_resolve (found : ts.resolve name = .ok d) : d ∈ ts.decls :=
  List.mem_of_getElem? (resolve_spec found).2.1

theorem positioned_body (found : ts.resolve name = .ok d) :
    ts.positioned.body (ts.position name) = d.body.mapRefs ts.position := by
  rw [Schema.body, decl_position found]
  rfl

/-- The declaration at the position of a name, with names for positions again. -/
theorem named_position (closed : ts.Closed) (found : ts.resolve name = .ok d) :
    ts.positioned.named (ts.position name) = d := by
  have same : (d.body.mapRefs ts.position).mapRefs ts.positioned.nameOf = d.body :=
    Body.mapRefs_mapRefs_eq_self fun r hr => nameOf_position (closed d (mem_of_resolve found) r hr)
  rw [Schema.named, decl_position found, Decl.mapRefs, Decl.mapRefs, same]

theorem idOf_positioned (ts : TypeSystem) (name : String) : ts.positioned.idOf name =
    if ts.contains name then .ok (ts.position name) else .error (.notFound name) := by
  have found : ts.positioned.id? name = ts.decls.findIdx? (·.name == name) := List.findIdx?_map
  have declared : ts.contains name = (ts.decls.findIdx? (·.name == name)).isSome :=
    List.findIdx?_isSome.symm
  rw [Schema.idOf, found, declared, position]
  cases ts.decls.findIdx? (·.name == name) <;> rfl

theorem position_lt (declared : ts.contains name = true) :
    ts.position name < ts.positioned.size := by
  obtain ⟨d, found⟩ := contains_iff.mp declared
  obtain ⟨bound, -⟩ := List.getElem?_eq_some_iff.mp (resolve_spec found).2.1
  rw [Schema.size, positioned, List.length_map]
  exact bound

theorem exists_position_eq (apart : ts.names.Nodup) (bound : id < ts.positioned.size) :
    ∃ name, ts.contains name = true ∧ ts.position name = id := by
  rw [Schema.size, positioned, List.length_map] at bound
  have declared : ts.contains ts.decls[id].name = true :=
    List.any_eq_true.mpr ⟨_, List.getElem_mem bound, beq_self_eq_true _⟩
  have found : ts.decls.findIdx? (·.name == ts.decls[id].name) = some id :=
    (findIdx?_eq_some_iff_of_nodup Decl.name apart).mpr ⟨_, List.getElem?_eq_getElem bound, rfl⟩
  exact ⟨ts.decls[id].name, declared, by rw [position, found, Option.getD_some]⟩

/-! ## Containment by name -/

/-- A declaration holds another in place. -/
def Holds (ts : TypeSystem) (owner name : String) : Prop :=
  ∃ d, ts.resolve owner = .ok d ∧ name ∈ d.body.inPlace

theorem Holds.declared (closed : ts.Closed) (h : ts.Holds a b) : ts.contains b = true := by
  obtain ⟨d, found, mem⟩ := h
  exact closed d (mem_of_resolve found) b (Body.mem_references_of_mem_inPlace mem)

/-- The position of a declared name holds the positions of what the name holds. -/
theorem holds_position_iff (declared : ts.contains a = true) :
    ts.positioned.Holds (ts.position a) id ↔ ∃ b, ts.Holds a b ∧ ts.position b = id := by
  obtain ⟨d, found⟩ := contains_iff.mp declared
  rw [Schema.holds_iff, positioned_body found, Body.inPlace_mapRefs, List.mem_map]
  constructor
  · rintro ⟨b, mem, rfl⟩
    exact ⟨b, ⟨d, found, mem⟩, rfl⟩
  · rintro ⟨b, ⟨d', found', mem⟩, rfl⟩
    cases found.symm.trans found'
    exact ⟨b, mem, rfl⟩

theorem Holds.position (h : ts.Holds a b) :
    ts.positioned.Holds (ts.position a) (ts.position b) := by
  obtain ⟨d, found, mem⟩ := h
  have declared : ts.contains a = true := contains_iff.mpr ⟨d, found⟩
  exact (holds_position_iff declared).mpr ⟨b, ⟨d, found, mem⟩, rfl⟩

theorem position_inj (ha : ts.contains a = true) (hb : ts.contains b = true)
    (same : ts.position a = ts.position b) : a = b := by
  rw [← nameOf_position ha, ← nameOf_position hb, same]

/-- **One type contains another exactly if a path of names leads to it.** -/
theorem contains_position_iff (closed : ts.Closed) (ha : ts.contains a = true)
    (hb : ts.contains b = true) :
    ts.positioned.Contains (ts.position a) (ts.position b) ↔ Relation.TransGen ts.Holds a b := by
  -- A path by position passes positions of declared names only, for what is held is declared.
  have reached {id : TypeId} (path : ts.positioned.Contains (ts.position a) id) :
      ∃ b, ts.contains b = true ∧ Relation.TransGen ts.Holds a b ∧ ts.position b = id := by
    induction path with
    | single step =>
      obtain ⟨b, held, rfl⟩ := (holds_position_iff ha).mp step
      exact ⟨b, held.declared closed, .single held, rfl⟩
    | tail _ step ih =>
      obtain ⟨m, hm, before, rfl⟩ := ih
      obtain ⟨b, held, rfl⟩ := (holds_position_iff hm).mp step
      exact ⟨b, held.declared closed, before.tail held, rfl⟩
  constructor
  · intro path
    obtain ⟨b', hb', path', same⟩ := reached path
    exact position_inj hb' hb same ▸ path'
  · exact fun path => path.lift ts.position fun _ _ held => held.position

/-! ## Layouts by name -/

theorem isRecursive_position_iff (frozen : ts.finalize = .ok ts.positioned)
    (declared : ts.contains name = true) :
    ts.positioned.isRecursive (ts.position name) = true ↔ Relation.TransGen ts.Holds name name :=
  (Schema.isRecursive_iff frozen).trans
    (contains_position_iff (closed_of_finalize frozen) declared declared)

theorem closesCycle_position_iff (frozen : ts.finalize = .ok ts.positioned)
    (ha : ts.contains a = true) (hb : ts.contains b = true) :
    ts.positioned.closesCycle (ts.position a) (ts.position b) = true ↔
      b = a ∨ Relation.TransGen ts.Holds b a := by
  have same : ts.position b = ts.position a ↔ b = a := ⟨position_inj hb ha, congrArg ts.position⟩
  rw [Schema.closesCycle_iff frozen, same, contains_position_iff (closed_of_finalize frozen) hb ha]

namespace Rearranges

theorem holds_eq (h : ts.Rearranges ts') : ts'.Holds = ts.Holds := by
  funext a b
  rw [Holds, Holds, h.resolve_eq]

theorem nameOf_eq (h : ts.Rearranges ts') (declared : ts.contains name = true) :
    ts'.positioned.nameOf (ts'.position name) = ts.positioned.nameOf (ts.position name) := by
  rw [nameOf_position declared, nameOf_position (h.contains_iff.mpr declared)]

theorem maybeLayout_eq (h : ts.Rearranges ts') (c : Config) (declared : ts.contains name = true) :
    ts'.positioned.maybeLayout c (ts'.position name) =
      ts.positioned.maybeLayout c (ts.position name) := by
  obtain ⟨d, found⟩ := TypeSystem.contains_iff.mp declared
  have found' : ts'.resolve name = .ok d := (h.resolve_eq name).trans found
  rw [Schema.maybeLayout, Schema.maybeLayout, h.nameOf_eq declared, positioned_body found,
    positioned_body found', Body.defaultLayout_mapRefs, Body.defaultLayout_mapRefs]

section Frozen

variable (h : ts.Rearranges ts') (frozen : ts.finalize = .ok ts.positioned)
  (frozen' : ts'.finalize = .ok ts'.positioned)

include h frozen frozen'

theorem isRecursive_eq (declared : ts.contains name = true) :
    ts'.positioned.isRecursive (ts'.position name) =
      ts.positioned.isRecursive (ts.position name) := by
  rw [Bool.eq_iff_iff, isRecursive_position_iff frozen declared,
    isRecursive_position_iff frozen' (h.contains_iff.mpr declared), h.holds_eq]

theorem closesCycle_eq (ha : ts.contains a = true) (hb : ts.contains b = true) :
    ts'.positioned.closesCycle (ts'.position a) (ts'.position b) =
      ts.positioned.closesCycle (ts.position a) (ts.position b) := by
  rw [Bool.eq_iff_iff, closesCycle_position_iff frozen ha hb,
    closesCycle_position_iff frozen' (h.contains_iff.mpr ha) (h.contains_iff.mpr hb), h.holds_eq]

theorem fieldLayout_eq (c : Config) (declared : ts.contains name = true) {f : Field String}
    (hf : ts.contains f.type = true) :
    ts'.positioned.fieldLayout c (ts'.position name) (f.map ts'.position) =
      ts.positioned.fieldLayout c (ts.position name) (f.map ts.position) := by
  have closes : ts'.positioned.closesCycle (ts'.position name) (f.map ts'.position).type =
      ts.positioned.closesCycle (ts.position name) (f.map ts.position).type :=
    h.closesCycle_eq frozen frozen' declared hf
  have type : ts'.positioned.nameOf (f.map ts'.position).type =
      ts.positioned.nameOf (f.map ts.position).type := h.nameOf_eq hf
  have maybe : ts'.positioned.maybeLayout c (f.map ts'.position).type =
      ts.positioned.maybeLayout c (f.map ts.position).type := h.maybeLayout_eq c hf
  rw [Schema.fieldLayout, Schema.fieldLayout, closes, type, maybe, h.nameOf_eq declared]
  rfl

/-- The layouts of the type of a name do not depend on the order of the declarations. -/
theorem typeLayout_eq (c : Config) (declared : ts.contains name = true) :
    ts'.positioned.typeLayout c (ts'.position name) =
      ts.positioned.typeLayout c (ts.position name) := by
  obtain ⟨d, found⟩ := TypeSystem.contains_iff.mp declared
  have found' : ts'.resolve name = .ok d := (h.resolve_eq name).trans found
  have fields : (d.body.fields?.getD []).mapM
        (ts'.positioned.fieldLayout c (ts'.position name) ∘ (·.map ts'.position)) =
      (d.body.fields?.getD []).mapM
        (ts.positioned.fieldLayout c (ts.position name) ∘ (·.map ts.position)) := by
    refine mapM_congr fun f hf => h.fieldLayout_eq frozen frozen' c declared ?_
    exact closed_of_finalize frozen d (mem_of_resolve found) f.type (Body.type_mem_references hf)
  rw [Schema.typeLayout, Schema.typeLayout, positioned_body found, positioned_body found',
    Body.fields_mapRefs, Body.fields_mapRefs, List.mapM_map, List.mapM_map, fields,
    h.maybeLayout_eq c declared, h.isRecursive_eq frozen frozen' declared]

end Frozen

end Rearranges

end TypeSystem

/-! ## Compiling -/

theorem Schema.exists_compile_iff {s : Schema} {c : Config} :
    (∃ m, s.compile c = .ok m) ↔ ∀ id < s.size, ∃ t, s.typeLayout c id = .ok t := by
  constructor
  · rintro ⟨m, compiled⟩ id bound
    obtain ⟨t, -, laid⟩ := typeLayout_of_compile compiled bound
    exact ⟨t, laid⟩
  · intro laid
    obtain ⟨layouts, all⟩ := exists_forall₂_iff.mpr fun id hid => laid id (List.mem_range.mp hid)
    exact ⟨⟨s, c, layouts⟩, by rw [compile, mapM_eq_ok_iff.mpr all]; rfl⟩

namespace Model

/-- Two models have the same declaration, with the same layouts, at a position of each. -/
structure Matches (m m' : Model) (id id' : TypeId) : Prop where
  named : m.schema.named id = m'.schema.named id'
  layouts : m.layouts[id]? = m'.layouts[id']?

/-- Questions by name, those about symbols apart, have the same answers in two models. -/
structure AnswersAlike (m m' : Model) : Prop where
  references : ∀ name, m.referencesOf name = m'.referencesOf name
  kind : ∀ name, m.kindOf name = m'.kindOf name
  reprKind : ∀ name, m.reprKindOf name = m'.reprKindOf name
  strategy : ∀ name, m.strategyOf name = m'.strategyOf name
  maybeLayout : ∀ name, m.maybeLayoutOf name = m'.maybeLayoutOf name
  fieldLayout : ∀ name field, m.fieldLayoutOf name field = m'.fieldLayoutOf name field
  recursive : ∀ name, m.isRecursiveOf name = m'.isRecursiveOf name

variable {m m' : Model}

/-- Models that match under every name give the same answers. -/
theorem answersAlike_of_corresponds
    (h : ∀ name, Corresponds (m.Matches m') (m.idOf name) (m'.idOf name)) : m.AnswersAlike m' := by
  have ask {α : Type} {g g' : TypeId → α} (same : ∀ id id', m.Matches m' id id' → g id = g' id')
      (name : String) : g <$> m.idOf name = g' <$> m'.idOf name := by
    rcases (h name).error_or_ok with ⟨e, he, he'⟩ | ⟨id, id', hid, hid', hm⟩
    · rw [he, he']
      rfl
    · rw [hid, hid']
      exact congrArg Except.ok (same id id' hm)
  have decl : ∀ name, m.declOf name = m'.declOf name := ask fun _ _ hm => hm.named
  have index (name field : String) : m.fieldIndexOf name field = m'.fieldIndexOf name field := by
    rw [fieldIndexOf, fieldIndexOf, decl]
  constructor
  · intro name
    rw [referencesOf, referencesOf, decl]
  · intro name
    rw [kindOf, kindOf, decl]
  · intro name
    rw [reprKindOf, reprKindOf, decl]
  · intro name
    rw [strategyOf, strategyOf, decl]
  · refine ask fun id id' hm => ?_
    rw [maybeLayout, maybeLayout, hm.layouts]
  · intro name field
    rcases (h name).error_or_ok with ⟨e, he, he'⟩ | ⟨id, id', hid, hid', hm⟩
    · rw [fieldLayoutOf, fieldLayoutOf, he, he']
      rfl
    · have layout : m.fieldLayout id = m'.fieldLayout id' := by
        funext i
        rw [fieldLayout, fieldLayout, hm.layouts]
      rw [fieldLayoutOf, fieldLayoutOf, hid, hid', index]
      exact congrArg (· <$> m'.fieldIndexOf name field) layout
  · refine ask fun id id' hm => ?_
    rw [isRecursive, isRecursive, hm.layouts]

end Model

namespace TypeSystem

variable {ts ts' : TypeSystem} {c : Config} {m m' : Model}

namespace Rearranges

variable (h : ts.Rearranges ts') (frozen : ts.finalize = .ok ts.positioned)
  (frozen' : ts'.finalize = .ok ts'.positioned)

include h frozen frozen'

theorem exists_compile (compiled : ∃ m, ts.positioned.compile c = .ok m) :
    ∃ m', ts'.positioned.compile c = .ok m' := by
  rw [Schema.exists_compile_iff] at compiled ⊢
  intro id bound
  obtain ⟨name, declared', rfl⟩ := exists_position_eq h.symm.apart bound
  have declared : ts.contains name = true := h.contains_iff.mp declared'
  obtain ⟨t, laid⟩ := compiled _ (position_lt declared)
  exact ⟨t, (h.typeLayout_eq frozen frozen' c declared).trans laid⟩

theorem layouts_eq (compiled : ts.positioned.compile c = .ok m)
    (compiled' : ts'.positioned.compile c = .ok m') {name : String}
    (declared : ts.contains name = true) :
    m.layouts[ts.position name]? = m'.layouts[ts'.position name]? := by
  have declared' : ts'.contains name = true := h.contains_iff.mpr declared
  obtain ⟨t, ht, laid⟩ := Schema.typeLayout_of_compile compiled (position_lt declared)
  obtain ⟨t', ht', laid'⟩ := Schema.typeLayout_of_compile compiled' (position_lt declared')
  rw [h.typeLayout_eq frozen frozen' c declared, laid] at laid'
  cases laid'
  exact ht.trans ht'.symm

theorem corresponds (compiled : ts.positioned.compile c = .ok m)
    (compiled' : ts'.positioned.compile c = .ok m') (name : String) :
    Corresponds (m.Matches m') (m.idOf name) (m'.idOf name) := by
  rw [Model.idOf, Model.idOf, Schema.schema_of_compile compiled,
    Schema.schema_of_compile compiled', idOf_positioned, idOf_positioned]
  refine Corresponds.mapError ?_ LayoutError.schema
  by_cases declared : ts.contains name = true
  · have declared' : ts'.contains name = true := h.contains_iff.mpr declared
    obtain ⟨d, found⟩ := TypeSystem.contains_iff.mp declared
    have found' : ts'.resolve name = .ok d := (h.resolve_eq name).trans found
    rw [if_pos declared, if_pos declared']
    refine .ok ⟨?_, h.layouts_eq frozen frozen' compiled compiled' declared⟩
    rw [Schema.schema_of_compile compiled, Schema.schema_of_compile compiled',
      named_position (closed_of_finalize frozen) found,
      named_position (closed_of_finalize frozen') found']
  · rw [if_neg declared, if_neg (mt h.contains_iff.mp declared)]
    exact .error (SchemaError.notFound name)

end Rearranges

/-- **The order of declarations does not matter.**  Declarations under names that are all different
are added in any order.  In one order they are frozen exactly if they are in another, the schemas
compile with the same configurations, and the models give the same answers by name. -/
theorem order_immaterial (start : TypeSystem) {ds ds' : List (Decl String)} (perm : ds.Perm ds')
    (apart : (start.names ++ ds.map (·.name)).Nodup) :
    ∃ ts ts', start.addAll ds = .ok ts ∧ start.addAll ds' = .ok ts' ∧
      ((∃ s, ts.finalize = .ok s) ↔ ∃ s', ts'.finalize = .ok s') ∧
      ∀ s s', ts.finalize = .ok s → ts'.finalize = .ok s' → ∀ c,
        ((∃ m, s.compile c = .ok m) ↔ ∃ m', s'.compile c = .ok m') ∧
        ∀ m m', s.compile c = .ok m → s'.compile c = .ok m' → m.AnswersAlike m' := by
  have apart' : (start.names ++ ds'.map (·.name)).Nodup :=
    ((perm.map _).append_left start.names).nodup_iff.mp apart
  have h : Rearranges ⟨start.decls ++ ds⟩ ⟨start.decls ++ ds'⟩ :=
    ⟨perm.append_left start.decls, by rw [names, List.map_append]; exact apart⟩
  refine ⟨_, _, addAll_of_nodup apart, addAll_of_nodup apart', h.exists_finalize_iff, ?_⟩
  intro s s' frozen frozen' c
  obtain rfl := eq_positioned_of_finalize frozen
  obtain rfl := eq_positioned_of_finalize frozen'
  refine ⟨⟨h.exists_compile frozen frozen', h.symm.exists_compile frozen' frozen⟩, ?_⟩
  intro m m' compiled compiled'
  exact Model.answersAlike_of_corresponds (h.corresponds frozen frozen' compiled compiled')

/-- Cells and terms that are declared the other way round compile as well, and their model knows
the operand of a term behind a pointer, and operands that contain themselves. -/
theorem order_immaterial_linked :
    ∃ ts s m, empty.addAll Schema.linkedTypes.decls.reverse = .ok ts ∧ ts.finalize = .ok s ∧
      s.compile .empty = .ok m ∧ m.referencesOf "Operand" = .ok ["Term", "Int"] ∧
      m.fieldLayoutOf "Term" "operand" = .ok .indirect ∧
      m.fieldLayoutOf "Cell" "value" = .ok .embedded ∧ m.isRecursiveOf "Operand" = .ok true := by
  obtain ⟨ts, ts', added, added', frozen, compiled⟩ :=
    order_immaterial empty (List.reverse_perm Schema.linkedTypes.decls).symm (by decide)
  obtain rfl : Schema.linkedTypes = ts := Except.ok.inj added
  have linked : Schema.linkedTypes.finalize = .ok Schema.linkedSchema := rfl
  obtain ⟨s', frozen'⟩ := frozen.mp ⟨_, linked⟩
  obtain ⟨iff, alike⟩ := compiled _ _ linked frozen' .empty
  obtain ⟨m', compiled'⟩ := iff.mp ⟨_, Schema.compile_linkedSchema⟩
  have same := alike _ _ Schema.compile_linkedSchema compiled'
  refine ⟨ts', s', m', added', frozen', compiled', ?_, ?_, ?_, ?_⟩
  · exact (same.references "Operand").symm
  · exact (same.fieldLayout "Term" "operand").symm
  · exact (same.fieldLayout "Cell" "value").symm
  · exact (same.recursive "Operand").symm

end TypeSystem

end DualView
