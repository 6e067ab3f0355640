import DualView.Proofs.Schema.Collection
import DualView.Proofs.Schema.Valid

/-!
# What freezing accepts

Declarations are well-formed if every name that they refer to is declared, and every one of them is
sound: what it says of its representation suits its fields or its members.  Both are said here by
name, as the declarations have it, and without the order in which they are checked.

* `TypeSystem.Sound`, `TypeSystem.WellFormed`: what is asked of declarations.
* `Body.references_resolve`: a body is resolved reference by reference.
* `TypeSystem.fault?_eq_none_iff`: a declaration has no fault exactly if it is sound.
* `TypeSystem.finalize_accepts`: freezing accepts the well-formed declarations and no others.  A
  name that is not declared, wherever it stands, comes before any declaration that is not sound, and
  among either kind of offence the first is named.
-/

namespace DualView

/-! ## First offences -/

/-- An element is the first of a list for which something holds. -/
def IsFirst {α : Type} (P : α → Prop) (l : List α) (a : α) : Prop :=
  ∃ i : Nat, l[i]? = some a ∧ P a ∧ ∀ j < i, ∀ b, l[j]? = some b → ¬ P b

namespace IsFirst

variable {α : Type} {P : α → Prop} {l before after : List α} {a b : α}

theorem mem (h : IsFirst P l a) : a ∈ l := by
  obtain ⟨i, hi, -, -⟩ := h
  exact List.mem_of_getElem? hi

theorem holds (h : IsFirst P l a) : P a := by
  obtain ⟨i, -, ha, -⟩ := h
  exact ha

theorem unique (ha : IsFirst P l a) (hb : IsFirst P l b) : a = b := by
  obtain ⟨i, hi, pa, noneBefore⟩ := ha
  obtain ⟨j, hj, pb, noneBefore'⟩ := hb
  rcases Nat.lt_trichotomy i j with lt | rfl | gt
  · exact absurd pa (noneBefore' i lt a hi)
  · exact Option.some.inj (hi.symm.trans hj)
  · exact absurd pb (noneBefore j gt b hj)

theorem of_append (ha : P a) (none : ∀ b ∈ before, ¬ P b) :
    IsFirst P (before ++ a :: after) a := by
  refine ⟨before.length, by simp, ha, ?_⟩
  intro j hj b hb
  rw [List.getElem?_append_left hj] at hb
  exact none b (List.mem_of_getElem? hb)

end IsFirst

/-! ## Well-formed declarations -/

/-- A renaming suits names: it renames nothing else, and no two of them have one key. -/
structure Renaming.Suits (r : Renaming) (names : List String) : Prop where
  declared : ∀ p ∈ r.pairs, p.1 ∈ names
  injective : ∀ a ∈ names, ∀ b ∈ names, r.keyOf a = r.keyOf b → a = b

/-- Labels suit members: each member is listed exactly once, and no label twice. -/
structure Labels.Suits {β : Type} (l : Labels β) (members : List String) : Prop where
  listed : (l.pairs.map (·.1)).Perm members
  distinct : (l.pairs.map (·.2)).Nodup

def EnumRepr.Suits (members : List String) : EnumRepr → Prop
  | .string keys => keys.Suits members
  | .int values => values.Suits members

namespace TypeSystem

variable (ts : TypeSystem)

/-- A name is that of a type that is represented with a kind. -/
def RepresentsAs (name : String) (kind : Kind) : Prop :=
  ∃ d, ts.resolve name = .ok d ∧ d.reprKind? = some kind

def IsText (name : String) : Prop := ∃ d, ts.resolve name = .ok d ∧ d.body = .scalar .string

def SuitsFields (fields : List (Field String)) : StructRepr → Prop
  | .map keys | .listpairs keys => keys.Suits (fields.map (·.name))
  | .tuple => ∀ f ∈ fields, f.optional = false
  | .stringjoin separator => separator ≠ "" ∧ fields ≠ [] ∧
      ∀ f ∈ fields, f.optional = false ∧ f.nullable = false ∧ ts.IsText f.type

def SuitsMembers (members : List String) : UnionRepr → Prop
  | .keyed discriminants => discriminants.Suits members
  | .kinded => (∀ m ∈ members, ∃ kind, ts.RepresentsAs m kind) ∧
      ∀ m ∈ members, ∀ m' ∈ members, ∀ kind,
        ts.RepresentsAs m kind → ts.RepresentsAs m' kind → m = m'

/-- What the body of a declaration says of its representation can be done. -/
def Sound : Body String → Prop
  | .scalar _ | .list _ _ => True
  | .map key _ _ _ => ts.RepresentsAs key (.scalar .string)
  | .struct fields repr => (fields.map (·.name)).Nodup ∧ ts.SuitsFields fields repr
  | .union members repr => members ≠ [] ∧ members.Nodup ∧ ts.SuitsMembers members repr
  | .enum members repr => members.Nodup ∧ repr.Suits members

def Closed : Prop := ∀ d ∈ ts.decls, ∀ name ∈ d.references, ts.contains name = true

/-- Every name that is referred to is declared, and every declaration is sound. -/
structure WellFormed : Prop where
  closed : ts.Closed
  sound : ∀ d ∈ ts.decls, ts.Sound d.body

/-- A declaration is the first to refer to a name that is not declared, and that name is the first
of those that it refers to. -/
def FirstMissing (source missing : String) : Prop :=
  ∃ d, IsFirst (fun d => ∃ name ∈ d.references, ts.contains name = false) ts.decls d ∧
    d.name = source ∧ IsFirst (fun name => ts.contains name = false) d.references missing

/-- A declaration is the first that is not sound. -/
def FirstUnsound (name : String) : Prop :=
  ∃ d, IsFirst (fun d => ¬ ts.Sound d.body) ts.decls d ∧ d.name = name

end TypeSystem

/-! ## Resolving -/

section Resolving

variable {ρ σ ε : Type} {g : ρ → Except ε σ} {h : ρ → σ}

theorem types_resolve (g : ρ → Except ε σ) (fields : List (Field ρ)) :
    (List.map Field.type <$> fields.mapM fun f => do
      return (⟨f.name, ← g f.type, f.optional, f.nullable⟩ : Field σ)) =
        (fields.map (·.type)).mapM g := by
  induction fields with
  | nil => rfl
  | cons f rest ih =>
    rw [List.map_cons, List.mapM_cons, List.mapM_cons, ← ih]
    cases g f.type with
    | error e => rfl
    | ok t => cases (rest.mapM fun f => _ : Except ε (List (Field σ))) <;> rfl

/-- **A body is resolved reference by reference.** -/
theorem Body.references_resolve (g : ρ → Except ε σ) (body : Body ρ) :
    references <$> body.resolve g = body.references.mapM g := by
  cases body with
  | scalar kind => rfl
  | enum members repr => rfl
  | list elem nullable =>
    simp only [resolve, references, List.mapM_cons, List.mapM_nil, map_bind, map_pure, pure_bind]
  | map key value nullable nulls =>
    simp only [resolve, references, List.mapM_cons, List.mapM_nil, map_bind, map_pure, pure_bind,
      bind_assoc]
  | struct fields repr =>
    rw [references, ← types_resolve]
    simp only [resolve, bind_pure_comp, Functor.map_map]
    rfl
  | union members repr =>
    simp only [resolve, map_bind, map_pure, references, bind_pure]

/-- Where each reference is found, a body is resolved by putting in place what is found. -/
theorem Body.resolve_eq_mapRefs {body : Body ρ} (found : ∀ r ∈ body.references, g r = .ok (h r)) :
    body.resolve g = .ok (body.mapRefs h) := by
  cases body with
  | scalar kind => rfl
  | enum members repr => rfl
  | list elem nullable =>
    rw [resolve, found elem List.mem_cons_self]
    rfl
  | map key value nullable nulls =>
    rw [resolve, found key List.mem_cons_self,
      found value (List.mem_cons_of_mem key List.mem_cons_self)]
    rfl
  | struct fields repr =>
    have all : fields.mapM (fun f => do
        return (⟨f.name, ← g f.type, f.optional, f.nullable⟩ : Field σ)) =
          .ok (fields.map (·.map h)) := by
      rw [mapM_eq_ok_iff, List.forall₂_map_right_iff, List.forall₂_same]
      intro f hf
      rw [found f.type (List.mem_map_of_mem hf)]
      rfl
    rw [resolve, all]
    rfl
  | union members repr =>
    have all : members.mapM g = .ok (members.map h) := by
      rw [mapM_eq_ok_iff, List.forall₂_map_right_iff, List.forall₂_same]
      exact found
    rw [resolve, all]
    rfl

end Resolving

/-! ## Names and positions -/

namespace TypeSystem

variable {ts : TypeSystem} {name : String} {d : Decl String}

def position (ts : TypeSystem) (name : String) : TypeId :=
  (ts.decls.findIdx? (·.name == name)).getD 0

def positioned (ts : TypeSystem) : Schema := ⟨ts.decls.map (·.mapRefs ts.position)⟩

theorem contains_iff : ts.contains name = true ↔ ∃ d, ts.resolve name = .ok d := by
  constructor
  · intro declared
    have some : (ts.decls.find? (·.name == name)).isSome := by
      rw [List.find?_isSome]
      exact List.any_eq_true.mp declared
    obtain ⟨d, found⟩ := Option.isSome_iff_exists.mp some
    exact ⟨d, by rw [resolve, found]⟩
  · rintro ⟨d, found⟩
    rw [resolve] at found
    split at found
    · rename_i d' hd
      have named : d'.name = name := by simpa using List.find?_some hd
      exact List.any_eq_true.mpr ⟨d', List.mem_of_find?_eq_some hd, beq_iff_eq.mpr named⟩
    · contradiction

/-- What a name resolves to has that name, and stands where references to it lead. -/
theorem resolve_spec (found : ts.resolve name = .ok d) :
    d.name = name ∧ ts.decls[ts.position name]? = some d ∧
      ∀ source, ts.reference source name = .ok (ts.position name) := by
  rw [resolve] at found
  split at found
  · rename_i d' hd
    cases found
    obtain ⟨named, i, hi, rfl, before⟩ := List.find?_eq_some_iff_getElem.mp hd
    have at_i : ts.decls.findIdx? (·.name == name) = some i :=
      List.findIdx?_eq_some_iff_getElem.mpr ⟨hi, named, fun j hj => by simpa using before j hj⟩
    have position_eq : ts.position name = i := by rw [position, at_i, Option.getD_some]
    refine ⟨eq_of_beq named, ?_, fun source => ?_⟩
    · rw [position_eq, List.getElem?_eq_getElem hi]
    · rw [reference, at_i, position_eq]
  · contradiction

theorem reference_eq_error_iff {source : String} {e : SchemaError} :
    ts.reference source name = .error e ↔
      ts.contains name = false ∧ e = .unresolvedReference source name := by
  rw [reference]
  cases found : ts.decls.findIdx? (·.name == name) with
  | some i =>
    have declared : ts.contains name = true := by
      obtain ⟨hi, named, -⟩ := List.findIdx?_eq_some_iff_getElem.mp found
      exact List.any_eq_true.mpr ⟨_, List.getElem_mem hi, named⟩
    simp [declared]
  | none =>
    have missing : ts.contains name = false := by
      rw [contains, List.any_eq_false]
      simpa using List.findIdx?_eq_none_iff.mp found
    simp [missing, eq_comm]

theorem decl_position (found : ts.resolve name = .ok d) :
    ts.positioned.decl (ts.position name) = d.mapRefs ts.position := by
  obtain ⟨-, at_position, -⟩ := resolve_spec found
  rw [Schema.decl, positioned, List.getElem?_map, at_position, Option.map_some, Option.getD_some]

theorem nameOf_position (declared : ts.contains name = true) :
    ts.positioned.nameOf (ts.position name) = name := by
  obtain ⟨d, found⟩ := contains_iff.mp declared
  rw [Schema.nameOf, decl_position found]
  exact (resolve_spec found).1

theorem reprKind?_position (declared : ts.contains name = true) {kind : Kind} :
    (ts.positioned.decl (ts.position name)).reprKind? = some kind ↔
      ts.RepresentsAs name kind := by
  obtain ⟨d, found⟩ := contains_iff.mp declared
  have same : (d.mapRefs ts.position).reprKind? = d.reprKind? := by
    obtain ⟨name, body⟩ := d
    cases body with
    | struct fields repr => cases repr <;> rfl
    | union members repr => cases repr <;> rfl
    | enum members repr => cases repr <;> rfl
    | _ => rfl
  rw [decl_position found, same, RepresentsAs]
  constructor
  · intro kinded
    exact ⟨d, found, kinded⟩
  · rintro ⟨d', found', kinded⟩
    cases found.symm.trans found'
    exact kinded

theorem body_position (declared : ts.contains name = true) :
    ts.positioned.body (ts.position name) = .scalar .string ↔ ts.IsText name := by
  obtain ⟨d, found⟩ := contains_iff.mp declared
  have same : (d.mapRefs ts.position).body = .scalar .string ↔ d.body = .scalar .string := by
    obtain ⟨name, body⟩ := d
    cases body <;> simp [Decl.mapRefs, Body.mapRefs]
  rw [Schema.body, decl_position found, same, IsText]
  constructor
  · intro text
    exact ⟨d, found, text⟩
  · rintro ⟨d', found', text⟩
    cases found.symm.trans found'
    exact text

/-! ## Closing -/

theorem declared_of_reference {source : String} {id : TypeId}
    (found : ts.reference source name = .ok id) : ts.contains name = true := by
  by_contra undeclared
  rw [Bool.not_eq_true] at undeclared
  have failed : ts.reference source name = .error (.unresolvedReference source name) :=
    reference_eq_error_iff.mpr ⟨undeclared, rfl⟩
  exact absurd (found.symm.trans failed) nofun

theorem declared_of_close {d' : Decl TypeId} (h : ts.close d = .ok d') :
    ∀ name ∈ d.references, ts.contains name = true := by
  obtain ⟨body, resolved, -⟩ := bind_eq_ok_iff.mp h
  intro name mem
  obtain ⟨id, found⟩ := exists_forall₂_iff.mp ⟨_, Body.resolve_references resolved⟩ name mem
  exact declared_of_reference found

/-- A declaration that does not close refers to a name that is not declared, and fails for the first
of those. -/
theorem missing_of_close {e : SchemaError} (h : ts.close d = .error e) :
    ∃ missing, e = .unresolvedReference d.name missing ∧
      IsFirst (fun name => ts.contains name = false) d.references missing := by
  have refs : d.body.references.mapM (ts.reference d.name) = .error e := by
    rw [← Body.references_resolve, bind_pure_eq_error_iff.mp h]
    rfl
  obtain ⟨i, missing, hi, failed, before⟩ := exists_error_of_mapM refs
  obtain ⟨undeclared, rfl⟩ := reference_eq_error_iff.mp failed
  refine ⟨missing, rfl, i, hi, undeclared, ?_⟩
  intro j hj name hname (undeclared : ts.contains name = false)
  obtain ⟨id, found⟩ := before j hj name hname
  rw [declared_of_reference found] at undeclared
  contradiction

theorem close_eq_mapRefs (declared : ∀ name ∈ d.references, ts.contains name = true) :
    ts.close d = .ok (d.mapRefs ts.position) := by
  have found : ∀ name ∈ d.body.references,
      ts.reference d.name name = .ok (ts.position name) := by
    intro name mem
    obtain ⟨d', resolved⟩ := contains_iff.mp (declared name mem)
    exact (resolve_spec resolved).2.2 d.name
  rw [close, Decl.resolve, Body.resolve_eq_mapRefs found]
  rfl

theorem firstMissing_of_close {e : SchemaError} (h : ts.decls.mapM ts.close = .error e) :
    ∃ source missing, e = .unresolvedReference source missing ∧
      ts.FirstMissing source missing := by
  obtain ⟨i, d, hi, failed, before⟩ := exists_error_of_mapM h
  obtain ⟨missing, rfl, first⟩ := missing_of_close failed
  refine ⟨d.name, missing, rfl, d, ⟨i, hi, ⟨missing, first.mem, first.holds⟩, ?_⟩, rfl, first⟩
  rintro j hj d' hd' ⟨name, mem, undeclared⟩
  obtain ⟨closed, hclosed⟩ := before j hj d' hd'
  rw [declared_of_close hclosed name mem] at undeclared
  contradiction

theorem Closed.mapM_close (closed : ts.Closed) : ts.decls.mapM ts.close = .ok ts.positioned.decls := by
  rw [mapM_eq_ok_iff, positioned, List.forall₂_map_right_iff, List.forall₂_same]
  intro d hd
  exact close_eq_mapRefs (closed d hd)

end TypeSystem

/-! ## Faults -/

/-- Among names that are all different, the renamings that suit them are those that separate them. -/
theorem Renaming.separates_iff_suits {r : Renaming} {names : List String} (once : names.Nodup) :
    r.Separates names ↔ r.Suits names := by
  constructor
  · rintro ⟨declared, apart⟩
    exact ⟨declared, fun a ha b hb same => List.inj_on_of_nodup_map apart ha hb same⟩
  · rintro ⟨declared, injective⟩
    exact ⟨declared, once.map_on injective⟩

/-- Among members that are all different, the labels that suit them are those that cover them: a
label for each of as many members as there are labels leaves none out. -/
theorem Labels.covers_iff_suits {β : Type} {l : Labels β} {members : List String}
    (once : members.Nodup) : l.Covers members ↔ l.Suits members := by
  constructor
  · rintro ⟨declared, listedOnce, apart, length⟩
    have subset : l.pairs.map (·.1) ⊆ members := List.forall_mem_map.mpr declared
    have listed := (List.subperm_of_subset listedOnce subset).perm_of_length_le (by simp [length])
    exact ⟨listed, apart⟩
  · rintro ⟨listed, apart⟩
    refine ⟨fun p hp => ?_, listed.nodup_iff.mpr once, apart, ?_⟩
    · exact listed.subset (List.mem_map_of_mem hp)
    · rw [← listed.length_eq, List.length_map]

namespace TypeSystem

variable {ts : TypeSystem}

theorem mapFault?_eq_none_iff {key : String} (declared : ts.contains key = true) :
    ts.positioned.mapFault? (ts.position key) = none ↔
      ts.RepresentsAs key (.scalar .string) := by
  rw [Schema.mapFault?, ← reprKind?_position declared]
  simp

theorem joinedFault?_eq_none_iff {f : Field String} (declared : ts.contains f.type = true) :
    ts.positioned.joinedFault? (f.map ts.position) = none ↔
      f.optional = false ∧ f.nullable = false ∧ ts.IsText f.type := by
  rw [Schema.joinedFault?, ← body_position declared, Field.isMaybe, Field.map]
  cases f.optional <;> cases f.nullable <;> simp

theorem structFault?_eq_none_iff {fields : List (Field String)} {repr : StructRepr}
    (declared : ∀ f ∈ fields, ts.contains f.type = true) :
    ts.positioned.structFault? (fields.map (·.map ts.position)) repr = none ↔
      (fields.map (·.name)).Nodup ∧ ts.SuitsFields fields repr := by
  have names : (fields.map (·.map ts.position)).map (·.name) = fields.map (·.name) := by
    rw [List.map_map]
    rfl
  rw [Schema.structFault?.eq_def, Option.orElse_eq_none, Option.map_eq_none_iff, names,
    firstRepeat_nil_eq_none_iff, and_congr_right_iff]
  intro once
  cases repr with
  | map keys => exact Schema.Valid.keysFault?_eq_none_iff.trans (Renaming.separates_iff_suits once)
  | listpairs keys =>
    exact Schema.Valid.keysFault?_eq_none_iff.trans (Renaming.separates_iff_suits once)
  | tuple =>
    rw [Option.map_eq_none_iff, List.find?_eq_none, List.forall_mem_map, SuitsFields]
    simp [Field.map]
  | stringjoin separator =>
    have joined : (fields.map (·.map ts.position)).findSome? ts.positioned.joinedFault? = none ↔
        ∀ f ∈ fields, f.optional = false ∧ f.nullable = false ∧ ts.IsText f.type := by
      rw [List.findSome?_eq_none_iff, List.forall_mem_map]
      exact forall₂_congr fun f hf => joinedFault?_eq_none_iff (declared f hf)
    rw [SuitsFields, ← joined]
    by_cases empty : separator = ""
    · simp [empty]
    · by_cases nothing : fields = []
      · simp [empty, nothing]
      · simp [empty, nothing]

theorem kindsFault?_eq_none_iff {members : List String}
    (declared : ∀ m ∈ members, ts.contains m = true) (once : members.Nodup) :
    ts.positioned.kindsFault? [] (members.map ts.position) = none ↔
      ts.SuitsMembers members .kinded := by
  let kind? (m : String) : Option Kind := (ts.positioned.decl (ts.position m)).reprKind?
  have kind_iff {m : String} (hm : m ∈ members) {kind : Kind} :
      kind? m = some kind ↔ ts.RepresentsAs m kind := reprKind?_position (declared m hm)
  rw [Schema.Valid.kindsFault?_eq_none_iff, List.map_map, SuitsMembers]
  constructor
  · rintro ⟨kinds, eq, apart, -⟩
    have eq : kinds.map some = members.map kind? := eq.symm
    have apart : (members.map kind?).Nodup := eq ▸ apart.map (Option.some_injective Kind)
    refine ⟨fun m hm => ?_, fun m hm m' hm' kind as as' => ?_⟩
    · obtain ⟨kind, -, hk⟩ := exists_mem_of_map_eq eq hm
      exact ⟨kind, (kind_iff hm).mp hk.symm⟩
    · have same : kind? m = kind? m' := ((kind_iff hm).mpr as).trans ((kind_iff hm').mpr as').symm
      exact List.inj_on_of_nodup_map apart hm hm' same
  · rintro ⟨fixed, distinct⟩
    obtain ⟨kinds, eq, -⟩ := exists_map_eq (f := kind?) (g := some) (P := fun _ => True)
      fun m hm => (fixed m hm).imp fun kind as => ⟨((kind_iff hm).mpr as).symm, trivial⟩
    have apart : (members.map kind?).Nodup := once.map_on fun m hm m' hm' same => by
      obtain ⟨kind, as⟩ := fixed m hm
      exact distinct m hm m' hm' kind as ((kind_iff hm').mp (same ▸ (kind_iff hm).mpr as))
    exact ⟨kinds, eq.symm, List.Nodup.of_map some (eq ▸ apart), fun _ _ => List.not_mem_nil⟩

theorem unionFault?_eq_none_iff {members : List String} {repr : UnionRepr}
    (declared : ∀ m ∈ members, ts.contains m = true) :
    ts.positioned.unionFault? (members.map ts.position) repr = none ↔
      members ≠ [] ∧ members.Nodup ∧ ts.SuitsMembers members repr := by
  have names : (members.map ts.position).map ts.positioned.nameOf = members := by
    rw [List.map_map]
    exact (List.map_congr_left fun m hm => nameOf_position (declared m hm)).trans (List.map_id _)
  rw [Schema.unionFault?.eq_def, names, List.isEmpty_map]
  by_cases nothing : members = []
  · simp [nothing]
  · rw [if_neg (by simpa using nothing), Option.orElse_eq_none, Option.map_eq_none_iff,
      firstRepeat_nil_eq_none_iff, and_iff_right nothing, and_congr_right_iff]
    intro once
    cases repr with
    | keyed discriminants =>
      rw [Option.map_eq_none_iff, Labels.fault?_eq_none_iff, Labels.covers_iff_suits once]
      rfl
    | kinded => exact kindsFault?_eq_none_iff declared once

theorem enumFault?_eq_none_iff {members : List String} {repr : EnumRepr} :
    Schema.enumFault? members repr = none ↔ members.Nodup ∧ repr.Suits members := by
  rw [Schema.enumFault?.eq_def, Option.orElse_eq_none, Option.map_eq_none_iff,
    firstRepeat_nil_eq_none_iff, and_congr_right_iff]
  intro once
  cases repr with
  | string keys =>
    rw [Option.orElse_eq_none, Option.map_eq_none_iff, Option.map_eq_none_iff,
      Renaming.separates_iff, Renaming.separates_iff_suits once]
    rfl
  | int values =>
    rw [Option.map_eq_none_iff, Labels.fault?_eq_none_iff, Labels.covers_iff_suits once]
    rfl

/-- **A declaration has no fault exactly if it is sound.** -/
theorem fault?_eq_none_iff {body : Body String}
    (declared : ∀ name ∈ body.references, ts.contains name = true) :
    ts.positioned.fault? (body.mapRefs ts.position) = none ↔ ts.Sound body := by
  cases body with
  | scalar kind => simp [Body.mapRefs, Schema.fault?, Sound]
  | list elem nullable => simp [Body.mapRefs, Schema.fault?, Sound]
  | map key value nullable nulls => exact mapFault?_eq_none_iff (declared key List.mem_cons_self)
  | struct fields repr => exact structFault?_eq_none_iff (List.forall_mem_map.mp declared)
  | union members repr => exact unionFault?_eq_none_iff declared
  | enum members repr => exact enumFault?_eq_none_iff

/-! ## Freezing -/

theorem Closed.finalize (closed : ts.Closed) :
    (∃ s, ts.finalize = .ok s) ∧ (∀ d ∈ ts.decls, ts.Sound d.body) ∨
      ∃ name fault, ts.finalize = .error (.invalidRepresentation name fault) ∧
        ts.FirstUnsound name := by
  have outcome : ts.finalize = (ts.positioned.firstError?.map .error).getD (.ok ts.positioned) := by
    rw [TypeSystem.finalize, closed.mapM_close]
    simp only [bind, Except.bind]
    cases ts.positioned.firstError? <;> rfl
  have sound_iff {d : Decl String} (hd : d ∈ ts.decls) :
      ts.positioned.fault? (d.body.mapRefs ts.position) = none ↔ ts.Sound d.body :=
    fault?_eq_none_iff (closed d hd)
  have first : ts.positioned.firstError? = ts.decls.findSome? fun d =>
      (ts.positioned.fault? (d.body.mapRefs ts.position)).map (.invalidRepresentation d.name) :=
    List.findSome?_map ..
  rw [outcome]
  cases faulty : ts.positioned.firstError? with
  | none =>
    refine .inl ⟨⟨ts.positioned, rfl⟩, fun d hd => ?_⟩
    rw [first] at faulty
    exact (sound_iff hd).mp (Option.map_eq_none_iff.mp (List.findSome?_eq_none_iff.mp faulty d hd))
  | some e =>
    rw [first] at faulty
    obtain ⟨before, d, after, decls, found, none⟩ := List.findSome?_eq_some_iff.mp faulty
    obtain ⟨fault, hfault, rfl⟩ := Option.map_eq_some_iff.mp found
    refine .inr ⟨d.name, fault, rfl, d, ?_, rfl⟩
    have unsound : ¬ ts.Sound d.body := by
      intro sound
      have faultless := (sound_iff (decls ▸ List.mem_append_right before List.mem_cons_self)).mpr sound
      exact Option.some_ne_none fault (hfault.symm.trans faultless)
    rw [decls]
    refine .of_append unsound fun d' hd' => not_not_intro ?_
    have mem : d' ∈ ts.decls := decls ▸ List.mem_append_left (d :: after) hd'
    exact (sound_iff mem).mp (Option.map_eq_none_iff.mp (none d' hd'))

theorem finalize_cases (ts : TypeSystem) :
    (∃ s, ts.finalize = .ok s) ∧ ts.WellFormed ∨
    (∃ source missing, ts.finalize = .error (.unresolvedReference source missing) ∧
      ts.FirstMissing source missing) ∨
    ∃ name fault, ts.finalize = .error (.invalidRepresentation name fault) ∧
      ts.Closed ∧ ts.FirstUnsound name := by
  cases h : ts.decls.mapM ts.close with
  | error e =>
    obtain ⟨source, missing, rfl, first⟩ := firstMissing_of_close h
    refine .inr (.inl ⟨source, missing, ?_, first⟩)
    rw [TypeSystem.finalize, h]
    rfl
  | ok ds =>
    have closed : ts.Closed := by
      intro d hd
      obtain ⟨d', hd'⟩ := exists_forall₂_iff.mp ⟨ds, mapM_eq_ok_iff.mp h⟩ d hd
      exact declared_of_close hd'
    rcases closed.finalize with ⟨ok, sound⟩ | ⟨name, fault, failed, first⟩
    · exact .inl ⟨ok, closed, sound⟩
    · exact .inr (.inr ⟨name, fault, failed, closed, first⟩)

theorem FirstMissing.not_closed {source missing : String} (h : ts.FirstMissing source missing) :
    ¬ ts.Closed := by
  obtain ⟨d, first, -, -⟩ := h
  obtain ⟨name, mem, undeclared⟩ := first.holds
  intro closed
  rw [closed d first.mem name mem] at undeclared
  contradiction

theorem FirstMissing.unique {source missing source' missing' : String}
    (h : ts.FirstMissing source missing) (h' : ts.FirstMissing source' missing') :
    source = source' ∧ missing = missing' := by
  obtain ⟨d, first, rfl, name⟩ := h
  obtain ⟨d', first', rfl, name'⟩ := h'
  obtain rfl := first.unique first'
  exact ⟨rfl, name.unique name'⟩

theorem FirstUnsound.not_wellFormed {name : String} (h : ts.FirstUnsound name) :
    ¬ ts.WellFormed := by
  obtain ⟨d, first, -⟩ := h
  intro well
  exact first.holds (well.sound d first.mem)

theorem FirstUnsound.unique {name name' : String} (h : ts.FirstUnsound name)
    (h' : ts.FirstUnsound name') : name = name' := by
  obtain ⟨d, first, rfl⟩ := h
  obtain ⟨d', first', rfl⟩ := h'
  rw [first.unique first']

/-- **Freezing accepts exactly the well-formed declarations.**  A name that is not declared is
reported before any declaration that is not sound, and of either kind the first is reported. -/
theorem finalize_accepts (ts : TypeSystem) :
    ((∃ s, ts.finalize = .ok s) ↔ ts.WellFormed) ∧
    (∀ source missing, ts.finalize = .error (.unresolvedReference source missing) ↔
      ts.FirstMissing source missing) ∧
    (∀ name, (∃ fault, ts.finalize = .error (.invalidRepresentation name fault)) ↔
      ts.Closed ∧ ts.FirstUnsound name) ∧
    ∀ e, ts.finalize = .error e →
      (∃ source missing, e = .unresolvedReference source missing) ∨
        ∃ name fault, e = .invalidRepresentation name fault := by
  rcases ts.finalize_cases with ⟨⟨s, ok⟩, well⟩ | ⟨source, missing, failed, first⟩ |
    ⟨name, fault, failed, closed, first⟩
  · rw [ok]
    refine ⟨⟨fun _ => well, fun _ => ⟨s, rfl⟩⟩, fun source missing => ⟨nofun, ?_⟩,
      fun name => ⟨nofun, ?_⟩, nofun⟩
    · exact fun first => absurd well.closed first.not_closed
    · exact fun ⟨_, first⟩ => absurd well first.not_wellFormed
  · rw [failed]
    refine ⟨⟨nofun, fun well => absurd well.closed first.not_closed⟩,
      fun source' missing' => ⟨?_, fun first' => ?_⟩, fun name => ⟨nofun, ?_⟩, ?_⟩
    · intro same
      cases same
      exact first
    · obtain ⟨rfl, rfl⟩ := first.unique first'
      rfl
    · exact fun ⟨closed, _⟩ => absurd closed first.not_closed
    · intro e same
      cases same
      exact .inl ⟨source, missing, rfl⟩
  · rw [failed]
    refine ⟨⟨nofun, fun well => absurd well first.not_wellFormed⟩,
      fun source missing => ⟨nofun, fun first => absurd closed first.not_closed⟩,
      fun name' => ⟨?_, fun ⟨_, first'⟩ => ?_⟩, ?_⟩
    · rintro ⟨fault', same⟩
      cases same
      exact ⟨closed, first⟩
    · exact ⟨fault, by rw [first.unique first']⟩
    · intro e same
      cases same
      exact .inr ⟨name, fault, rfl⟩

end TypeSystem

end DualView
