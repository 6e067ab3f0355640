import DualView.Proofs.Assembly.Failures
import DualView.Proofs.Node.Tree

/-!
# Kinds that are refused

The representation of a type asks for content of one kind; only a kinded union takes a kind for each
of its members.  `Opening.Refuses` says which kinds an opening in the representation view does not
take, and which error answers them; it says nothing of how scalars are assigned or compounds begin.

* `Schema.target?_cases`: which type takes a kind.
* `Schema.begin_refuses_iff`: whatever is begun at that type fails for a kind where it is refused.
* `Opening.Rejects`: the topmost level of a tree is rejected for its kind.
* `Opening.rejects_value_iff`, `Opening.rejects_pair_iff`, `Opening.rejects_name_iff`: it is
  rejected exactly if its kind is refused.
-/

namespace DualView

/-! ## Kinds that are refused -/

/-- An opening in the representation view takes nothing of a kind, and says so with an error. -/
inductive Opening.Refuses (s : Schema) : Opening → Kind → NodeError → Prop
  /-- A type is represented with another kind. -/
  | value {type : TypeId} {nullable : Bool} {expected found : Kind}
      (required : (s.body type).reprKind? = some expected) (other : found ≠ expected) :
      Refuses s ⟨.value type, .representation, nullable⟩ found
        (.representation (.mismatch (s.nameOf type) expected found))
  /-- No member of a kinded union is represented with the kind. -/
  | member {type : TypeId} {nullable : Bool} {members : List TypeId} {found : Kind}
      (body : s.body type = .union members .kinded)
      (none : ∀ t ∈ members, (s.body t).reprKind? ≠ some found) :
      Refuses s ⟨.value type, .representation, nullable⟩ found
        (.representation (.noKindedMember (s.nameOf type) found))
  /-- A field is represented as a list of its key and its value. -/
  | pair {owner : TypeId} {keys : Renaming} {fields : List (Field TypeId)}
      {slots : List (Slot Value)} {found : Kind} (other : found ≠ .list) :
      Refuses s ⟨.pair owner keys fields slots, .representation, false⟩ found
        (.representation (.mismatch (s.nameOf owner) .list found))
  /-- The key of a field is text. -/
  | key {owner : TypeId} {found : Kind} (other : found ≠ .scalar .string) :
      Refuses s ⟨.name owner, .representation, false⟩ found
        (.assembly (.kindMismatch (s.nameOf owner) (.scalar .string) found))

theorem error_ofKind_iff {α : Type} {e e' : NodeError} (ofKind : e'.OfKind) :
    (.error e' : Except NodeError α) = .error e ∧ e.OfKind ↔ e = e' := by
  constructor
  · rintro ⟨⟨⟩, -⟩
    rfl
  · rintro rfl
    exact ⟨rfl, ofKind⟩

namespace Schema

variable {s : Schema} {type : TypeId} {kind : Kind}

theorem kindedMember?_eq_none_iff {members : List TypeId} :
    s.kindedMember? members kind = none ↔ ∀ t ∈ members, (s.body t).reprKind? ≠ some kind := by
  constructor
  · intro h t mem same
    cases hi : members.findIdx? fun m => (s.decl m).reprKind? == some kind with
    | none =>
      have other := List.findIdx?_eq_none_iff.mp hi t mem
      exact absurd (beq_iff_eq.mpr same) (Bool.eq_false_iff.mp other)
    | some i =>
      obtain ⟨hlt, -, -⟩ := List.findIdx?_eq_some_iff_getElem.mp hi
      rw [kindedMember?, hi, Option.bind_some, List.getElem?_eq_getElem hlt] at h
      contradiction
  · intro h
    cases hk : s.kindedMember? members kind with
    | none => rfl
    | some p =>
      obtain ⟨mem, same⟩ := kindedMember?_spec hk
      exact absurd same (h p.2 (List.mem_of_getElem? mem))

/-- A type that is represented with a kind takes all content itself; a kinded union has a member
take it that is represented with its kind, if there is one. -/
theorem target?_cases (s : Schema) (type : TypeId) (kind : Kind) :
    (∃ expected, (s.body type).reprKind? = some expected ∧
      s.target? .representation type kind = some (none, type)) ∨
    ∃ members, s.body type = .union members .kinded ∧
      ((∃ i target, target ∈ members ∧ (s.body target).reprKind? = some kind ∧
          s.target? .representation type kind = some (some i, target)) ∨
        (∀ t ∈ members, (s.body t).reprKind? ≠ some kind) ∧
          s.target? .representation type kind = none) := by
  rw [target?.eq_def]
  cases body : s.body type with
  | union members repr =>
    cases repr with
    | keyed discriminants => exact .inl ⟨.map, rfl, rfl⟩
    | kinded =>
      dsimp only
      refine .inr ⟨members, rfl, ?_⟩
      cases hk : s.kindedMember? members kind with
      | none => exact .inr ⟨kindedMember?_eq_none_iff.mp hk, rfl⟩
      | some p =>
        obtain ⟨mem, same⟩ := kindedMember?_spec hk
        exact .inl ⟨p.1, p.2, List.mem_of_getElem? mem, same, rfl⟩
  | struct fields repr => cases repr <;> exact .inl ⟨_, rfl, rfl⟩
  | enum members repr => cases repr <;> exact .inl ⟨_, rfl, rfl⟩
  | scalar k => exact .inl ⟨_, rfl, rfl⟩
  | list elem nullable => exact .inl ⟨_, rfl, rfl⟩
  | map key value nullable nulls => exact .inl ⟨_, rfl, rfl⟩

theorem refuses_represented_iff {nullable : Bool} {expected : Kind} {e : NodeError}
    (required : (s.body type).reprKind? = some expected) :
    Opening.Refuses s ⟨.value type, .representation, nullable⟩ kind e ↔
      kind ≠ expected ∧ e = s.mismatch .representation type kind := by
  have error : s.mismatch .representation type kind =
      .representation (.mismatch (s.nameOf type) expected kind) := by
    simp only [mismatch, required]
  rw [error]
  constructor
  · intro h
    cases h with
    | value required' other =>
      cases required.symm.trans required'
      exact ⟨other, rfl⟩
    | member body none => cases required.symm.trans (congrArg Body.reprKind? body)
  · rintro ⟨other, rfl⟩
    exact .value required other

theorem refuses_kinded_iff {nullable : Bool} {members : List TypeId} {e : NodeError}
    (body : s.body type = .union members .kinded) :
    Opening.Refuses s ⟨.value type, .representation, nullable⟩ kind e ↔
      (∀ t ∈ members, (s.body t).reprKind? ≠ some kind) ∧
        e = s.mismatch .representation type kind := by
  have unkinded : (s.body type).reprKind? = none := congrArg Body.reprKind? body
  have error : s.mismatch .representation type kind =
      .representation (.noKindedMember (s.nameOf type) kind) := by
    simp only [mismatch, unkinded]
  rw [error]
  constructor
  · intro h
    cases h with
    | value required other => cases unkinded.symm.trans required
    | member body' others =>
      cases body.symm.trans body'
      exact ⟨others, rfl⟩
  · rintro ⟨others, rfl⟩
    exact .member body others

/-- Where a type is expected, a kind is refused if whatever takes it is represented otherwise. -/
theorem refuses_value_iff {nullable : Bool} {e : NodeError} :
    Opening.Refuses s ⟨.value type, .representation, nullable⟩ kind e ↔
      (∀ member target, s.target? .representation type kind = some (member, target) →
        (s.body target).reprKind? ≠ some kind) ∧ e = s.mismatch .representation type kind := by
  obtain ⟨expected, required, ht⟩ | ⟨members, body, taken⟩ := s.target?_cases type kind
  · rw [refuses_represented_iff required, ht]
    refine and_congr_left fun _ => ⟨?_, fun other same => ?_⟩
    · rintro other _ _ ⟨⟩ same
      exact other (Option.some.inj (same.symm.trans required))
    · exact other none type rfl (same ▸ required)
  · rw [refuses_kinded_iff body]
    refine and_congr_left fun _ => ?_
    obtain ⟨i, target, mem, same, ht⟩ | ⟨others, ht⟩ := taken
    · exact iff_of_false (fun others => others target mem same)
        fun other => other (some i) target ht same
    · refine iff_of_true others fun member target ht' => ?_
      cases ht.symm.trans ht'

/-- What is begun at the type that takes a kind fails for the kind exactly where this is refused, if
that is so at types that are represented with a kind. -/
theorem begin_refuses_iff {α : Type} {nullable : Bool} {e : NodeError}
    {outcome : Except NodeError α} (begin : Option Nat → TypeId → Except NodeError α)
    (untaken : s.target? .representation type kind = none →
      outcome = .error (s.mismatch .representation type kind))
    (taken : ∀ member target, s.target? .representation type kind = some (member, target) →
      outcome = begin member target)
    (fit : ∀ member target, (s.body target).reprKind? = some kind →
      Proper NodeError.OfForm (fun _ => True) (begin member target))
    (unfit : ∀ member target expected, (s.body target).reprKind? = some expected →
      kind ≠ expected → begin member target = .error (s.mismatch .representation target kind)) :
    outcome = .error e ∧ e.OfKind ↔
      Opening.Refuses s ⟨.value type, .representation, nullable⟩ kind e := by
  have refused (h : outcome = .error (s.mismatch .representation type kind)) :
      outcome = .error e ∧ e.OfKind ↔ e = s.mismatch .representation type kind := by
    rw [h]
    exact error_ofKind_iff (s.mismatch_ofKind _ _ _)
  rw [refuses_value_iff]
  cases ht : s.target? .representation type kind with
  | none =>
    rw [refused (untaken ht)]
    exact (and_iff_right (by rintro _ _ ⟨⟩)).symm
  | some p =>
    obtain ⟨member, target⟩ := p
    by_cases same : (s.body target).reprKind? = some kind
    · refine iff_of_false ?_ fun h => h.1 member target rfl same
      rintro ⟨failed, ofKind⟩
      have proper := fit member target same
      rw [← taken member target ht, failed] at proper
      exact proper.2 ofKind
    · obtain ⟨expected, required, ht'⟩ | ⟨members, body, ⟨i, _, -, same', ht'⟩ | ⟨-, ht'⟩⟩ :=
        s.target?_cases type kind
      · cases ht.symm.trans ht'
        have failed := (taken _ _ ht).trans (unfit _ _ _ required fun h => same (h ▸ required))
        rw [refused failed]
        refine (and_iff_right ?_).symm
        rintro _ _ ⟨⟩
        exact same
      · cases ht.symm.trans ht'
        exact absurd same' same
      · cases ht.symm.trans ht'

theorem content_refuses_iff {α β : Type} {nullable : Bool} {e : NodeError}
    {outcome : Except NodeError α} (content? : TypeId → Option β)
    (frame : Option Nat → TypeId → β → α)
    (untaken : s.target? .representation type kind = none →
      outcome = .error (s.mismatch .representation type kind))
    (taken : ∀ member target, s.target? .representation type kind = some (member, target) →
      outcome = (content? target).elim (.error (s.mismatch .representation target kind))
        fun content => .ok (frame member target content))
    (isSome : ∀ target expected, (s.body target).reprKind? = some expected →
      ((content? target).isSome = true ↔ expected = kind)) :
    outcome = .error e ∧ e.OfKind ↔
      Opening.Refuses s ⟨.value type, .representation, nullable⟩ kind e := by
  refine begin_refuses_iff _ untaken taken (fun member target same => ?_)
    fun member target expected required other => ?_
  · obtain ⟨content, begun⟩ := Option.isSome_iff_exists.mp ((isSome target kind same).mpr rfl)
    rw [begun]
    trivial
  · have none : content? target = none := by
      simpa [other.symm] using isSome target expected required
    rw [none, Option.elim_none]

end Schema

/-! ## One level -/

namespace Model

variable {m : Model} {type : TypeId} {a : Scalar}

/-- A scalar of the kind that represents a type may stand for nothing there, but not for its
kind. -/
theorem ofScalar_fit (same : (m.schema.body type).reprKind? = some (.scalar a.kind)) :
    Proper NodeError.OfForm (fun _ => True) (m.ofScalar .representation type a) := by
  rw [ofScalar.eq_def]
  cases body : m.schema.body type with
  | scalar kind =>
    rw [body] at same
    cases same
    dsimp only
    rw [if_pos rfl]
    trivial
  | enum members repr =>
    rw [body] at same
    cases repr with
    | string keys =>
      cases a with
      | string text => exact m.schema.recognized_proper type _ _
      | _ => cases same
    | int values =>
      cases a with
      | int x => exact m.schema.recognized_proper type _ _
      | _ => cases same
  | struct fields repr =>
    rw [body] at same
    cases repr with
    | stringjoin separator =>
      cases a with
      | string text =>
        dsimp only [Model.joined]
        split
        · trivial
        · exact ⟨.representation _, by rintro ⟨⟩⟩
      | _ => cases same
    | _ => cases same
  | union members repr =>
    rw [body] at same
    cases repr <;> cases same
  | _ =>
    rw [body] at same
    cases same

theorem ofScalar_unfit {expected : Kind} (required : (m.schema.body type).reprKind? = some expected)
    (other : .scalar a.kind ≠ expected) :
    m.ofScalar .representation type a =
      .error (m.schema.mismatch .representation type (.scalar a.kind)) := by
  rw [ofScalar.eq_def]
  split
  · rename_i kind body
    rw [body] at required
    cases required
    exact if_neg fun same => other (congrArg Kind.scalar same)
  · rename_i members repr body
    rw [body] at required
    cases repr <;> cases required <;> cases a <;> first | rfl | exact absurd rfl other
  · rename_i fields separator body
    rw [body] at required
    cases required
    cases a <;> first | rfl | exact absurd rfl other
  · rfl

theorem contents_isSome {expected : Kind}
    (required : (m.schema.body type).reprKind? = some expected) :
    ((m.mapContent? .representation type).isSome = true ↔ expected = .map) ∧
      ((m.listContent? .representation type).isSome = true ↔ expected = .list) := by
  rw [mapContent?_isSome_iff, listContent?_isSome_iff]
  cases body : m.schema.body type with
  | struct fields repr =>
    rw [body] at required
    cases repr <;> cases required <;> simp [Body.assembledKind?]
  | union members repr =>
    rw [body] at required
    cases repr with
    | keyed discriminants =>
      cases required
      simp [Body.assembledKind?]
    | kinded => cases required
  | enum members repr =>
    rw [body] at required
    cases repr <;> cases required <;> simp [Body.assembledKind?]
  | _ =>
    rw [body] at required
    cases required
    simp [Body.assembledKind?]

end Model

namespace Opening

variable {m : Model} {e : NodeError}

theorem scalar_refuses_iff {type : TypeId} {nullable : Bool} {a : Scalar} :
    scalar m ⟨.value type, .representation, nullable⟩ a = .error e ∧ e.OfKind ↔
      Refuses m.schema ⟨.value type, .representation, nullable⟩ (.scalar a.kind) e := by
  refine Schema.begin_refuses_iff (fun member target =>
    (fun v => .content (some v)) <$> Value.wrap member <$> m.ofScalar .representation target a)
    (fun ht => ?_) (fun member target ht => ?_) (fun member target same => ?_)
    fun member target expected required other => ?_
  · simp only [scalar, Model.assign, ht]
    rfl
  · simp only [scalar, Model.assign, ht]
  · refine Proper.map (P := fun _ => True) ?_ fun _ _ => trivial
    exact (Model.ofScalar_fit same).map fun _ _ => trivial
  · rw [Model.ofScalar_unfit required other]
    rfl

theorem openMap_refuses_iff {type : TypeId} {nullable : Bool} :
    openMap m ⟨.value type, .representation, nullable⟩ = .error e ∧ e.OfKind ↔
      Refuses m.schema ⟨.value type, .representation, nullable⟩ .map e := by
  refine Schema.content_refuses_iff (m.mapContent? .representation)
    (fun member target content => ⟨target, .representation, member, content, .idle⟩)
    (fun ht => ?_) (fun member target ht => ?_)
    fun target expected required => (Model.contents_isSome required).1
  · simp only [openMap, ht]
    rfl
  · simp only [openMap, ht]
    cases m.mapContent? .representation target <;> rfl

theorem openList_refuses_iff {type : TypeId} {nullable : Bool} :
    openList m ⟨.value type, .representation, nullable⟩ = .error e ∧ e.OfKind ↔
      Refuses m.schema ⟨.value type, .representation, nullable⟩ .list e := by
  refine Schema.content_refuses_iff (m.listContent? .representation)
    (fun member target content => ⟨target, .representation, member, content, false⟩)
    (fun ht => ?_) (fun member target ht => ?_)
    fun target expected required => (Model.contents_isSome required).2
  · simp only [openList, ht]
    rfl
  · simp only [openList, ht]
    cases m.listContent? .representation target <;> rfl

theorem refuses_pair_iff {s : Schema} {owner : TypeId} {keys : Renaming}
    {fields : List (Field TypeId)} {slots : List (Slot Value)} {found : Kind} :
    Refuses s ⟨.pair owner keys fields slots, .representation, false⟩ found e ↔
      found ≠ .list ∧ e = .representation (.mismatch (s.nameOf owner) .list found) := by
  constructor
  · rintro ⟨⟩
    exact ⟨‹_›, rfl⟩
  · rintro ⟨other, rfl⟩
    exact .pair other

theorem refuses_name_iff {s : Schema} {owner : TypeId} {found : Kind} :
    Refuses s ⟨.name owner, .representation, false⟩ found e ↔ found ≠ .scalar .string ∧
      e = .assembly (.kindMismatch (s.nameOf owner) (.scalar .string) found) := by
  constructor
  · rintro ⟨⟩
    exact ⟨‹_›, rfl⟩
  · rintro ⟨other, rfl⟩
    exact .key other

/-- The topmost level of a tree is rejected for its kind. -/
def Rejects (m : Model) (o : Opening) (t : Tree) (e : NodeError) : Prop :=
  match t with
  | .null => False
  | .scalar a => o.scalar m a = .error e ∧ e.OfKind
  | .list _ => o.openList m = .error e ∧ e.OfKind
  | .map _ => o.openMap m = .error e ∧ e.OfKind

theorem Rejects.error {o : Opening} {t : Tree} (h : o.Rejects m t e) :
    o.copy m t = .error e ∧ e.OfKind := by
  cases t with
  | null => exact h.elim
  | scalar a => exact h
  | list items =>
    rw [copy]
    exact ⟨bind_error h.1, h.2⟩
  | map entries =>
    rw [copy]
    exact ⟨bind_error h.1, h.2⟩

theorem rejects_value_iff {type : TypeId} {nullable : Bool} {t : Tree} :
    Rejects m ⟨.value type, .representation, nullable⟩ t e ↔ t.kind ≠ .null ∧
      Refuses m.schema ⟨.value type, .representation, nullable⟩ t.kind e := by
  cases t with
  | null => simp [Rejects, Tree.kind]
  | scalar a => exact scalar_refuses_iff.trans (and_iff_right (by rintro ⟨⟩)).symm
  | list items => exact openList_refuses_iff.trans (and_iff_right (by rintro ⟨⟩)).symm
  | map entries => exact openMap_refuses_iff.trans (and_iff_right (by rintro ⟨⟩)).symm

theorem rejects_pair_iff {owner : TypeId} {keys : Renaming} {fields : List (Field TypeId)}
    {slots : List (Slot Value)} {t : Tree} :
    Rejects m ⟨.pair owner keys fields slots, .representation, false⟩ t e ↔ t.kind ≠ .null ∧
      Refuses m.schema ⟨.pair owner keys fields slots, .representation, false⟩ t.kind e := by
  rw [refuses_pair_iff]
  cases t with
  | null => simp [Rejects, Tree.kind]
  | list items => simp [Rejects, Tree.kind, openList]
  | scalar a => exact (error_ofKind_iff (.mismatch _ _ _)).trans (by simp [Tree.kind])
  | map entries => exact (error_ofKind_iff (.mismatch _ _ _)).trans (by simp [Tree.kind])

theorem rejects_name_iff {owner : TypeId} {t : Tree} :
    Rejects m ⟨.name owner, .representation, false⟩ t e ↔ t.kind ≠ .null ∧
      Refuses m.schema ⟨.name owner, .representation, false⟩ t.kind e := by
  rw [refuses_name_iff]
  cases t with
  | null => simp [Rejects, Tree.kind]
  | list items => exact (error_ofKind_iff (.kindMismatch _ _ _)).trans (by simp [Tree.kind])
  | map entries => exact (error_ofKind_iff (.kindMismatch _ _ _)).trans (by simp [Tree.kind])
  | scalar a =>
    cases a with
    | string text => simp [Rejects, Tree.kind, Scalar.kind, scalar]
    | _ => exact (error_ofKind_iff (.kindMismatch _ _ _)).trans (by simp [Tree.kind, Scalar.kind])

end Opening

end DualView
