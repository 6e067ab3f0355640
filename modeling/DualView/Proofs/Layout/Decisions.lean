import DualView.Layout.Model
import DualView.Proofs.Layout.Containment

/-!
# What compiling decides

The rules by which slots are laid out, said without the search that applies them.  A field that
closes a cycle of containment is kept behind a pointer; any other field that may lack a value
follows the configuration or the default of its type; the rest is kept in place.  A configuration
is refused where it asks for a field that closes a cycle, and may lack a value, to be kept in place.

* `Schema.MaybeLaid`, `Schema.FieldLaid`: the rules for slots and for fields.
* `Schema.Refused`, `Schema.FirstRefused`: the fields for which a configuration is refused.
* `Schema.compile_decides`: compiling fails for the first such field, and if there is none it
  decides every layout by the rules.
-/

namespace DualView

namespace Schema

/-! ## The rules -/

/-- A field closes a cycle: its type is that of the struct around it, or contains it. -/
def Closes (s : Schema) (owner : TypeId) (f : Field TypeId) : Prop :=
  f.type = owner ∨ s.Contains f.type owner

/-- How a slot is laid out that may lack a value of a type. -/
inductive MaybeLaid (s : Schema) (c : Config) (type : TypeId) : Layout → Prop
  /-- As the configuration asks. -/
  | asked {layout : Layout} (found : c.maybeLayout? (s.nameOf type) = some layout) :
      MaybeLaid s c type layout
  /-- Scalars and enums are kept in place. -/
  | leaf (silent : c.maybeLayout? (s.nameOf type) = none)
      (leaf : (s.body type).kind.isRecursive = false) : MaybeLaid s c type .embedded
  /-- Lists, maps, structs and unions are kept behind a pointer. -/
  | compound (silent : c.maybeLayout? (s.nameOf type) = none)
      (compound : (s.body type).kind.isRecursive = true) : MaybeLaid s c type .indirect

/-- How a field of a struct is laid out. -/
inductive FieldLaid (s : Schema) (c : Config) (owner : TypeId) (f : Field TypeId) : Layout → Prop
  | cycle (closes : s.Closes owner f) : FieldLaid s c owner f .indirect
  | maybe {layout : Layout} (clear : ¬ s.Closes owner f)
      (lacks : f.optional = true ∨ f.nullable = true) (laid : s.MaybeLaid c f.type layout) :
      FieldLaid s c owner f layout
  | plain (clear : ¬ s.Closes owner f) (required : f.optional = false) (full : f.nullable = false) :
      FieldLaid s c owner f .embedded

/-- A configuration asks what cannot be of a field: it may lack a value and closes a cycle, and is
to be kept in place. -/
structure Refused (s : Schema) (c : Config) (owner : TypeId) (i : Nat) (f : Field TypeId) :
    Prop where
  field : ∃ fields repr, s.body owner = .struct fields repr ∧ fields[i]? = some f
  lacks : f.optional = true ∨ f.nullable = true
  closes : s.Closes owner f
  asked : c.maybeLayout? (s.nameOf f.type) = some .embedded

/-- No field is refused before this one: not in an earlier declaration, nor earlier in its own. -/
structure FirstRefused (s : Schema) (c : Config) (owner : TypeId) (i : Nat) (f : Field TypeId) :
    Prop extends s.Refused c owner i f where
  first : ∀ owner' i' f', s.Refused c owner' i' f' → owner < owner' ∨ owner = owner' ∧ i ≤ i'

/-! ## One slot -/

variable {ts : TypeSystem} {s : Schema} {c : Config} {owner : TypeId} {i : Nat} {f : Field TypeId}

theorem isMaybe_iff : f.isMaybe = true ↔ f.optional = true ∨ f.nullable = true := by
  rw [Field.isMaybe, Bool.or_eq_true]

theorem maybeLaid_maybeLayout (s : Schema) (c : Config) (type : TypeId) :
    s.MaybeLaid c type (s.maybeLayout c type) := by
  rw [maybeLayout]
  cases asked : c.maybeLayout? (s.nameOf type) with
  | some layout => exact .asked asked
  | none =>
    rw [Option.getD_none]
    cases body : s.body type with
    | scalar kind => exact .leaf asked (by rw [body]; rfl)
    | enum members repr => exact .leaf asked (by rw [body]; rfl)
    | list elem nullable => exact .compound asked (by rw [body]; rfl)
    | map key value nullable nulls => exact .compound asked (by rw [body]; rfl)
    | struct fields repr => exact .compound asked (by rw [body]; rfl)
    | union members repr => exact .compound asked (by rw [body]; rfl)

theorem fieldLaid_of_fieldLayout (frozen : ts.finalize = .ok s) {layout : Layout}
    (h : s.fieldLayout c owner f = .ok layout) : s.FieldLaid c owner f layout := by
  have closes : s.closesCycle owner f.type = true ↔ s.Closes owner f := closesCycle_iff frozen
  rw [fieldLayout] at h
  by_cases hc : s.closesCycle owner f.type = true
  · rw [if_pos hc] at h
    split at h
    · contradiction
    · cases h
      exact .cycle (closes.mp hc)
  · have clear : ¬ s.Closes owner f := fun hn => hc (closes.mpr hn)
    rw [if_neg hc] at h
    cases h
    by_cases hm : f.isMaybe = true
    · rw [if_pos hm]
      exact .maybe clear (isMaybe_iff.mp hm) (maybeLaid_maybeLayout s c f.type)
    · rw [if_neg hm]
      rw [isMaybe_iff, not_or, Bool.not_eq_true, Bool.not_eq_true] at hm
      exact .plain clear hm.1 hm.2

/-- A field has no layout exactly if the configuration asks what cannot be. -/
theorem fieldLayout_eq_error_iff (frozen : ts.finalize = .ok s) {e : LayoutError}
    {fields : List (Field TypeId)} {repr : StructRepr} (body : s.body owner = .struct fields repr)
    (at_field : fields[i]? = some f) :
    s.fieldLayout c owner f = .error e ↔
      s.Refused c owner i f ∧ e = .embeddedRecursion (s.nameOf owner) f.name (s.nameOf f.type) := by
  have closes : s.closesCycle owner f.type = true ↔ s.Closes owner f := closesCycle_iff frozen
  rw [fieldLayout]
  constructor
  · intro h
    split at h
    · rename_i hc
      split at h
      · rename_i asked
        rw [Bool.and_eq_true, beq_iff_eq] at asked
        cases h
        exact ⟨⟨⟨fields, repr, body, at_field⟩, isMaybe_iff.mp asked.1, closes.mp hc, asked.2⟩, rfl⟩
      · contradiction
    · contradiction
  · rintro ⟨refused, rfl⟩
    have asked : (f.isMaybe && c.maybeLayout? (s.nameOf f.type) == some .embedded) = true := by
      rw [refused.asked, isMaybe_iff.mpr refused.lacks]
      rfl
    rw [if_pos (closes.mpr refused.closes), if_pos asked]

/-! ## One type -/

theorem typeLayout_eq_ok {t : TypeLayout} (h : s.typeLayout c owner = .ok t) :
    t.maybe = s.maybeLayout c owner ∧ t.recursive = s.isRecursive owner ∧
      List.Forall₂ (fun f layout => s.fieldLayout c owner f = .ok layout)
        ((s.body owner).fields?.getD []) t.fields := by
  obtain ⟨layouts, hl, h⟩ := bind_eq_ok_iff.mp h
  cases h
  exact ⟨rfl, rfl, mapM_eq_ok_iff.mp hl⟩

theorem exists_refused_of_typeLayout (frozen : ts.finalize = .ok s) {e : LayoutError}
    (h : s.typeLayout c owner = .error e) :
    ∃ i f, s.Refused c owner i f ∧ (∀ i' f', s.Refused c owner i' f' → i ≤ i') ∧
      e = .embeddedRecursion (s.nameOf owner) f.name (s.nameOf f.type) := by
  obtain ⟨i, f, hi, hf, before⟩ := exists_error_of_mapM (bind_pure_eq_error_iff.mp h)
  obtain ⟨fields, repr, body⟩ : ∃ fields repr, s.body owner = .struct fields repr := by
    cases body : s.body owner with
    | struct fields repr => exact ⟨fields, repr, rfl⟩
    | _ => simp [body, Body.fields?] at hi
  rw [body, Body.fields?, Option.getD_some] at hi before
  obtain ⟨refused, he⟩ := (fieldLayout_eq_error_iff frozen body hi).mp hf
  refine ⟨i, f, refused, ?_, he⟩
  intro i' f' refused'
  by_contra hlt
  obtain ⟨fields', repr', body', hi'⟩ := refused'.field
  cases body.symm.trans body'
  obtain ⟨layout, ok⟩ := before i' (Nat.lt_of_not_le hlt) f' hi'
  have error := (fieldLayout_eq_error_iff frozen body hi').mpr ⟨refused', rfl⟩
  exact absurd (ok.symm.trans error) nofun

theorem not_refused_of_typeLayout (frozen : ts.finalize = .ok s) {t : TypeLayout}
    (h : s.typeLayout c owner = .ok t) : ¬ s.Refused c owner i f := by
  intro refused
  obtain ⟨fields, repr, body, hi⟩ := refused.field
  have all := getElem?_of_forall₂ (typeLayout_eq_ok h).2.2 i
  rw [body, Body.fields?, Option.getD_some, hi] at all
  obtain ⟨f', layout, hf', -, ok⟩ | ⟨hnone, -⟩ := rel_iff.mp all
  · cases hf'
    have error := (fieldLayout_eq_error_iff frozen body hi).mpr ⟨refused, rfl⟩
    exact absurd (ok.symm.trans error) nofun
  · contradiction

/-! ## All types -/

theorem schema_of_compile {m : Model} (h : s.compile c = .ok m) : m.schema = s := by
  obtain ⟨layouts, -, h⟩ := bind_eq_ok_iff.mp h
  cases h
  rfl

theorem typeLayout_of_compile {m : Model} (h : s.compile c = .ok m) {type : TypeId}
    (bound : type < s.size) :
    ∃ t, m.layouts[type]? = some t ∧ s.typeLayout c type = .ok t := by
  obtain ⟨layouts, hl, h⟩ := bind_eq_ok_iff.mp h
  cases h
  have all := getElem?_of_forall₂ (mapM_eq_ok_iff.mp hl) type
  rw [List.getElem?_range bound] at all
  obtain ⟨type', t, ht', ht, ok⟩ | ⟨hnone, -⟩ := rel_iff.mp all
  · cases ht'
    exact ⟨t, ht, ok⟩
  · contradiction

theorem lt_of_struct {fields : List (Field TypeId)} {repr : StructRepr}
    (body : s.body owner = .struct fields repr) : owner < s.size := by
  by_contra outside
  rw [Schema.body, decl, List.getElem?_eq_none (Nat.le_of_not_lt outside)] at body
  contradiction

theorem Refused.lt (h : s.Refused c owner i f) : owner < s.size := by
  obtain ⟨fields, repr, body, -⟩ := h.field
  exact lt_of_struct body

theorem not_refused_of_compile (frozen : ts.finalize = .ok s) {m : Model}
    (h : s.compile c = .ok m) : ¬ s.Refused c owner i f := by
  intro refused
  obtain ⟨t, -, ok⟩ := typeLayout_of_compile h refused.lt
  exact not_refused_of_typeLayout frozen ok refused

/-- Where compiling fails, a field is refused, and it fails for the first. -/
theorem exists_firstRefused_of_compile (frozen : ts.finalize = .ok s) {e : LayoutError}
    (h : s.compile c = .error e) :
    ∃ owner i f, s.FirstRefused c owner i f ∧
      e = .embeddedRecursion (s.nameOf owner) f.name (s.nameOf f.type) := by
  obtain ⟨j, owner, hj, hf, before⟩ := exists_error_of_mapM (bind_pure_eq_error_iff.mp h)
  obtain ⟨bound, he⟩ := List.getElem?_eq_some_iff.mp hj
  obtain rfl : j = owner := (List.getElem_range bound).symm.trans he
  obtain ⟨i, f, refused, firstField, he⟩ := exists_refused_of_typeLayout frozen hf
  refine ⟨j, i, f, ⟨refused, ?_⟩, he⟩
  intro owner' i' f' refused'
  rcases Nat.lt_trichotomy j owner' with later | rfl | earlier
  · exact .inl later
  · exact .inr ⟨rfl, firstField i' f' refused'⟩
  · have hj' := List.getElem?_range refused'.lt
    obtain ⟨t, ok⟩ := before owner' earlier owner' hj'
    exact absurd refused' (not_refused_of_typeLayout frozen ok)

theorem FirstRefused.unique {owner' : TypeId} {i' : Nat} {f' : Field TypeId}
    (h : s.FirstRefused c owner i f) (h' : s.FirstRefused c owner' i' f') :
    owner = owner' ∧ f = f' := by
  obtain ⟨rfl, rfl⟩ : owner = owner' ∧ i = i' := by
    rcases h.first owner' i' f' h'.toRefused with lt | ⟨rfl, le⟩ <;>
      rcases h'.first owner i f h.toRefused with gt | ⟨he, ge⟩
    · exact absurd gt (Nat.lt_asymm lt)
    · exact absurd lt (he ▸ Nat.lt_irrefl _)
    · exact absurd gt (Nat.lt_irrefl _)
    · exact ⟨rfl, Nat.le_antisymm le ge⟩
  obtain ⟨fields, repr, body, hi⟩ := h.field
  obtain ⟨fields', repr', body', hi'⟩ := h'.field
  cases body.symm.trans body'
  exact ⟨rfl, Option.some.inj (hi.symm.trans hi')⟩

theorem fieldLaid_of_compile (frozen : ts.finalize = .ok s) {m : Model} (h : s.compile c = .ok m)
    {fields : List (Field TypeId)} {repr : StructRepr} (body : s.body owner = .struct fields repr)
    (at_field : fields[i]? = some f) : s.FieldLaid c owner f (m.fieldLayout owner i) := by
  have bound : owner < s.size := lt_of_struct body
  obtain ⟨t, ht, ok⟩ := typeLayout_of_compile h bound
  have all := getElem?_of_forall₂ (typeLayout_eq_ok ok).2.2 i
  rw [body, Body.fields?, Option.getD_some, at_field] at all
  obtain ⟨f', layout, hf', hl, laid⟩ | ⟨hnone, -⟩ := rel_iff.mp all
  · cases hf'
    rw [Model.fieldLayout, ht, Option.bind_some, hl, Option.getD_some]
    exact fieldLaid_of_fieldLayout frozen laid
  · contradiction

/-- **Compiling fails for the first field that is refused, and otherwise decides every layout by
the rules.**  A type is marked as recursive exactly if it contains itself. -/
theorem compile_decides (frozen : ts.finalize = .ok s) (c : Config) :
    ((∃ e, s.compile c = .error e) ↔ ∃ owner i f, s.Refused c owner i f) ∧
    (∀ e, s.compile c = .error e ↔ ∃ owner i f, s.FirstRefused c owner i f ∧
      e = .embeddedRecursion (s.nameOf owner) f.name (s.nameOf f.type)) ∧
    ∀ m, s.compile c = .ok m → ∀ type < s.size,
      (m.isRecursive type = true ↔ s.Contains type type) ∧
      s.MaybeLaid c type (m.maybeLayout type) ∧
      ∀ fields repr, s.body type = .struct fields repr → ∀ i f, fields[i]? = some f →
        s.FieldLaid c type f (m.fieldLayout type i) := by
  have fails (refused : ∃ owner i f, s.Refused c owner i f) : ∃ e, s.compile c = .error e := by
    obtain ⟨owner, i, f, refused⟩ := refused
    cases h : s.compile c with
    | error e => exact ⟨e, rfl⟩
    | ok m => exact absurd refused (not_refused_of_compile frozen h)
  refine ⟨⟨?_, fails⟩, fun e => ⟨exists_firstRefused_of_compile frozen, ?_⟩, ?_⟩
  · rintro ⟨e, he⟩
    obtain ⟨owner, i, f, first, -⟩ := exists_firstRefused_of_compile frozen he
    exact ⟨owner, i, f, first.toRefused⟩
  · rintro ⟨owner, i, f, first, rfl⟩
    obtain ⟨e, he⟩ := fails ⟨owner, i, f, first.toRefused⟩
    obtain ⟨owner', i', f', first', rfl⟩ := exists_firstRefused_of_compile frozen he
    obtain ⟨rfl, rfl⟩ := first.unique first'
    exact he
  · intro m hm type bound
    obtain ⟨t, ht, ok⟩ := typeLayout_of_compile hm bound
    obtain ⟨maybe, recursive, -⟩ := typeLayout_eq_ok ok
    refine ⟨?_, ?_, ?_⟩
    · rw [Model.isRecursive, ht, Option.map_some, Option.getD_some, recursive]
      exact isRecursive_iff frozen
    · rw [Model.maybeLayout, ht, Option.map_some, Option.getD_some, maybe]
      exact maybeLaid_maybeLayout s c type
    · intro fields repr body i f hi
      exact fieldLaid_of_compile frozen hm body hi

/-- Cells linked both ways, and terms whose operand may be a term again. -/
def linkedTypes : TypeSystem := ⟨
  [ ⟨"Int", .scalar .int⟩,
    ⟨"Cell", .struct [⟨"value", "Int", false, true⟩, ⟨"next", "Cell", true, false⟩,
      ⟨"last", "Cell", false, true⟩] (.map .none)⟩,
    ⟨"Term", .struct [⟨"operand", "Operand", false, false⟩] .tuple⟩,
    ⟨"Operand", .union ["Term", "Int"] .kinded⟩ ]⟩

def linkedSchema : Schema := ⟨
  [ ⟨"Int", .scalar .int⟩,
    ⟨"Cell", .struct [⟨"value", 0, false, true⟩, ⟨"next", 1, true, false⟩,
      ⟨"last", 1, false, true⟩] (.map .none)⟩,
    ⟨"Term", .struct [⟨"operand", 3, false, false⟩] .tuple⟩,
    ⟨"Operand", .union [2, 0] .kinded⟩ ]⟩

def linkedModel : Model := ⟨linkedSchema, .empty,
  [ ⟨.embedded, [], false⟩, ⟨.indirect, [.embedded, .indirect, .indirect], true⟩,
    ⟨.indirect, [.indirect], true⟩, ⟨.indirect, [], true⟩ ]⟩

theorem compile_linkedSchema : linkedSchema.compile .empty = .ok linkedModel := by
  have types : (List.range linkedSchema.size).mapM (linkedSchema.typeLayout .empty) =
      .ok linkedModel.layouts := by decide +kernel
  rw [compile, types]
  rfl

/-- Kept in place, cells are refused for the field `next`; without a configuration that field is
kept behind a pointer, and so is the operand of a term. -/
theorem compile_decides_linked :
    linkedTypes.finalize = .ok linkedSchema ∧
      (∃ owner i f, linkedSchema.FirstRefused (.setMaybeLayout .empty "Cell" .embedded) owner i f ∧
        linkedSchema.nameOf owner = "Cell" ∧ f.name = "next") ∧
      linkedSchema.FieldLaid .empty 1 ⟨"next", 1, true, false⟩ .indirect ∧
      linkedSchema.FieldLaid .empty 2 ⟨"operand", 3, false, false⟩ .indirect ∧
      linkedSchema.Contains 3 3 := by
  have frozen : linkedTypes.finalize = .ok linkedSchema := rfl
  have refused : linkedSchema.compile (.setMaybeLayout .empty "Cell" .embedded) =
      .error (.embeddedRecursion "Cell" "next" "Cell") := by
    have types : (List.range linkedSchema.size).mapM
        (linkedSchema.typeLayout (.setMaybeLayout .empty "Cell" .embedded)) =
          .error (.embeddedRecursion "Cell" "next" "Cell") := by decide +kernel
    rw [compile, types]
    rfl
  obtain ⟨owner, i, f, first, he⟩ :=
    ((compile_decides frozen (.setMaybeLayout .empty "Cell" .embedded)).2.1 _).mp refused
  obtain ⟨ho, hf, -⟩ := LayoutError.embeddedRecursion.inj he
  have decided := (compile_decides frozen .empty).2.2 _ compile_linkedSchema
  refine ⟨frozen, ⟨owner, i, f, first, ho.symm, hf.symm⟩, ?_, ?_, ?_⟩
  · exact (decided 1 (by decide)).2.2 _ _ rfl 1 _ rfl
  · exact (decided 2 (by decide)).2.2 _ _ rfl 0 _ rfl
  · exact (decided 3 (by decide)).1.mp rfl

end Schema

end DualView
