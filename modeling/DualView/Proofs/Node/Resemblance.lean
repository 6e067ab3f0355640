import DualView.Proofs.Node.Listing
import DualView.Proofs.Value.Plain

/-!
# Reading in the typed view

Two values that hold the same under schemas that differ in representation alone cannot be told apart
in the typed view: nodes of them give the same answers, and what the answers lead to gives the same
answers again.  Keys of entries are followed as nodes of their own, for a text that stands for a key
in one representation may stand for another in the other.

* `Schema.Twins.read`: they show the same level.
* `Node.Resembles.lookup`, `Node.Resembles.entries?`: names and keys lead to the same.
* `Node.Resembles.sameTyped`: they cannot be told apart.
-/

namespace DualView

/-! ## What cannot be told apart -/

/-- Two nodes give the same answers in the typed view, and what these lead to goes together again.
The keys of entries lead from each node to its own values. -/
structure Node.TypedAnswers (R : Node → Node → Prop) (n n' : Node) : Prop where
  kind : n.kind = n'.kind
  length : n.length = n'.length
  asBool : n.asBool = n'.asBool
  asInt : n.asInt = n'.asInt
  asFloat : n.asFloat = n'.asFloat
  asString : n.asString = n'.asString
  asBytes : n.asBytes = n'.asBytes
  asLink : n.asLink = n'.asLink
  tree : n.tree = n'.tree
  values : Corresponds (List.Forall₂ R) n.values n'.values
  entries : Corresponds (List.Forall₂ fun c c' =>
    R c.1 c'.1 ∧ R c.2 c'.2 ∧ Corresponds R (n.lookupNode c.1) (n'.lookupNode c'.1))
    n.entries n'.entries
  lookup : ∀ key, Corresponds R (n.lookup key) (n'.lookup key)
  lookupIndex : ∀ index, Corresponds R (n.lookupIndex index) (n'.lookupIndex index)

/-- Two nodes cannot be told apart in the typed view, nor can those that are reached from them. -/
def Node.SameTyped (n n' : Node) : Prop :=
  ∃ R : Node → Node → Prop, (∀ n n', R n n' → TypedAnswers R n n') ∧ R n n'

/-! ## Levels -/

section Levels

variable (s s' : Schema)

/-- What a slot of a type holds under each schema, with one plain value. -/
inductive Maybe.Resembles (type : TypeId) : Maybe Value → Maybe Value → Prop
  | absent : Resembles type .absent .absent
  | null : Resembles type .null .null
  | value {v v' : Value} (same : v.plain = v'.plain) (fits : s.Fits type v)
      (fits' : s'.Fits type v') :
      Resembles type (.value v) (.value v')

def Slot.Resembles (type : TypeId) (slot slot' : Slot Value) : Prop :=
  slot.content.Resembles s s' type slot'.content

/-- Levels of the typed view with the same in them. -/
inductive Reading.Resembles : Reading → Reading → Prop
  | scalar (a : Scalar) : Resembles (.scalar a) (.scalar a)
  | items {elem : TypeId} {slots slots' : List (Slot Value)}
      (all : List.Forall₂ (Slot.Resembles s s' elem) slots slots') :
      Resembles (.items elem slots) (.items elem slots')
  | entries {type key value : TypeId} {nullable : Bool} {nulls nulls' : NullPolicy}
      {dict dict' : Dict Value} (body : s.body type = .map key value nullable nulls)
      (body' : s'.body type = .map key value nullable nulls')
      (all : List.Forall₂ (s.SameEntry s' key value nullable) dict.entries dict'.entries) :
      Resembles (.entries key value dict false) (.entries key value dict' false)
  | fields {fields : List (Field TypeId)} {slots slots' : List (Slot Value)}
      (same : slots.map Slot.plain = slots'.map Slot.plain)
      (fits : s.FitsFields fields slots) (fits' : s'.FitsFields fields slots') :
      Resembles (.fields .none fields slots) (.fields .none fields slots')
  | choice {key : String} {member : TypeId} {v v' : Value} (same : v.plain = v'.plain)
      (fits : s.Fits member v) (fits' : s'.Fits member v') :
      Resembles (.choice key member v) (.choice key member v')

end Levels

variable {s s' : Schema} {type : TypeId}

theorem Slot.resembles_of_admits {slot slot' : Slot Value} (same : slot.plain = slot'.plain)
    {optional nullable optional' nullable' : Bool}
    (admits : s.Admits type optional nullable slot.content)
    (admits' : s'.Admits type optional' nullable' slot'.content) :
    slot.Resembles s s' type slot' := by
  obtain ⟨layout, content⟩ := slot
  obtain ⟨layout', content'⟩ := slot'
  have same : content.map Value.plain = content'.map Value.plain := congrArg Slot.content same
  cases content <;> cases content' <;> first | contradiction | skip
  · exact .absent
  · exact .null
  · exact .value (Maybe.value.inj same) admits admits'

/-- **Values that hold the same show the same level in the typed view.** -/
theorem Schema.Twins.read (twins : s.Twins s') {v v' : Value} (same : v.plain = v'.plain)
    (fits : s.Fits type v) (fits' : s'.Fits type v') :
    (s.read .typed type v).Resembles s s' (s'.read .typed type v') := by
  have bodies := twins.resembles.body type
  cases fits with
  | scalar body =>
    cases fits' with
    | scalar body' =>
      simp only [Value.plain_scalar, Value.scalar.injEq] at same
      subst same
      simpa [Schema.read, body, body'] using .scalar _
    | _ => simp at same
  | list body states values =>
    cases fits' with
    | list body' states' values' =>
      rw [body, body'] at bodies
      cases bodies
      have admits := (fits_list_iff body).mp (.list body states values)
      have admits' := (fits_list_iff body').mp (.list body' states' values')
      simp only [Value.plain_list, Value.list.injEq] at same
      simp only [Schema.read, body, body']
      exact .items (forall₂_of_map_eq same fun slot hs slot' hs' same =>
        Slot.resembles_of_admits same (admits slot hs) (admits' slot' hs'))
    | _ => simp at same
  | map body keys texts apart states values =>
    cases fits' with
    | map body' keys' texts' apart' states' values' =>
      rw [body, body'] at bodies
      cases bodies
      simp only [Value.plain_map, Value.map.injEq] at same
      have all := sameEntries_of_plain_eq body body' (.map body keys texts apart states values)
        (.map body' keys' texts' apart' states' values') same
      simp only [Schema.read, body, body']
      exact .entries body body' all
    | _ => simp at same
  | struct body length states values =>
    cases fits' with
    | struct body' length' states' values' =>
      rw [body, body'] at bodies
      cases bodies
      have admits := (fits_struct_iff body).mp (.struct body length states values)
      have admits' := (fits_struct_iff body').mp (.struct body' length' states' values')
      simp only [Value.plain_struct, Value.struct.injEq] at same
      simp only [Schema.read, body, body']
      exact .fields same ⟨admits.1, admits.2⟩ ⟨admits'.1, admits'.2⟩
    | _ => simp at same
  | union body at_member value =>
    cases fits' with
    | union body' at_member' value' =>
      rw [body, body'] at bodies
      cases bodies
      simp only [Value.plain_union, Value.union.injEq] at same
      obtain ⟨rfl, same⟩ := same
      cases at_member.symm.trans at_member'
      simp only [Schema.read, body, body', at_member, twins.resembles.nameOf_eq]
      exact .choice same value value'
    | _ => simp at same
  | enum body bound =>
    cases fits' with
    | enum body' bound' =>
      rw [body, body'] at bodies
      cases bodies
      simp only [Value.plain_enum, Value.enum.injEq] at same
      subst same
      simp only [Schema.read, body, body', readEnum, List.getElem?_eq_getElem bound]
      exact .scalar _
    | _ => simp at same

/-! ## Nodes -/

/-- Nodes of the typed view: of values that hold the same, of a null, or of one name. -/
inductive Node.Resembles (s s' : Schema) : Node → Node → Prop
  | typed {type : TypeId} {v v' : Value} (same : v.plain = v'.plain) (fits : s.Fits type v)
      (fits' : s'.Fits type v') :
      Resembles s s' (.typed ⟨s, type, .typed, v⟩) (.typed ⟨s', type, .typed, v'⟩)
  | null : Resembles s s' .null .null
  | key (text : String) : Resembles s s' (.key text) (.key text)

namespace TypedNode

variable {v v' : Value} {slot slot' : Slot Value} {owner : TypeId}

theorem slot?_resembles (same : slot.Resembles s s' type slot') :
    Option.Rel (Node.Resembles s s') (slot? ⟨s, owner, .typed, v⟩ type slot)
      (slot? ⟨s', owner, .typed, v'⟩ type slot') := by
  obtain ⟨layout, content⟩ := slot
  obtain ⟨layout', content'⟩ := slot'
  cases same with
  | absent => exact .none
  | null => exact .some .null
  | value same fits fits' => exact .some (.typed same fits fits')

theorem slot_resembles (same : slot.Resembles s s' type slot') :
    Node.Resembles s s' (TypedNode.slot ⟨s, owner, .typed, v⟩ type slot)
      (TypedNode.slot ⟨s', owner, .typed, v'⟩ type slot') := by
  rw [TypedNode.slot, TypedNode.slot]
  obtain ⟨c, c', hc, hc', child⟩ | ⟨hc, hc'⟩ := rel_iff.mp (slot?_resembles same) <;>
    rw [hc, hc']
  · exact child
  · exact .null

end TypedNode

theorem Schema.FitsFields.zip {fields : List (Field TypeId)} {slots slots' : List (Slot Value)}
    (fits : s.FitsFields fields slots) (fits' : s'.FitsFields fields slots')
    (same : slots.map Slot.plain = slots'.map Slot.plain) :
    List.Forall₂ (fun p p' => p.1 = p'.1 ∧ p.2.Resembles s s' p.1.type p'.2)
      (fields.zip slots) (fields.zip slots') := by
  have zips : (fields.zip slots).map (Prod.map id Slot.plain) =
      (fields.zip slots').map (Prod.map id Slot.plain) := by
    rw [← List.zip_map_right, ← List.zip_map_right, same]
  refine forall₂_of_map_eq zips ?_
  rintro ⟨f, slot⟩ hp ⟨f', slot'⟩ hp' eq
  obtain ⟨rfl, plain⟩ : f = f' ∧ slot.plain = slot'.plain := Prod.mk.inj eq
  exact ⟨rfl, Slot.resembles_of_admits plain (fits.admits _ hp) (fits'.admits _ hp')⟩

namespace Node.Resembles

variable (twins : s.Twins s') {n n' : Node} (h : n.Resembles s s' n')
include twins h

theorem kind_eq : n.kind = n'.kind := by
  cases h with
  | @typed type v v' same fits fits' =>
    have level := twins.read same fits fits'
    rw [kind, kind, TypedNode.reading, TypedNode.reading]
    generalize s.read .typed type v = r, s'.read .typed type v' = r' at level
    cases level <;> rfl
  | null => rfl
  | key text => rfl

theorem scalar?_eq : n.scalar? = n'.scalar? := by
  cases h with
  | @typed type v v' same fits fits' =>
    have level := twins.read same fits fits'
    rw [scalar?, scalar?, TypedNode.reading, TypedNode.reading]
    generalize s.read .typed type v = r, s'.read .typed type v' = r' at level
    cases level <;> rfl
  | null => rfl
  | key text => rfl

theorem length_eq : n.length = n'.length := by
  cases h with
  | @typed type v v' same fits fits' =>
    have level := twins.read same fits fits'
    rw [length, length, TypedNode.length, TypedNode.length, TypedNode.reading, TypedNode.reading]
    generalize s.read .typed type v = r, s'.read .typed type v' = r' at level
    cases level with
    | scalar a => rfl
    | items all => simp only [all.length_eq]
    | entries body body' all => simp [Dict.size, all.length_eq]
    | @fields fields slots slots' same fits fits' =>
      have counted := congrArg (List.countP (!·.isAbsent)) same
      simp only [List.countP_map, Function.comp_def, Slot.isAbsent_plain] at counted
      simp only [counted]
    | choice same fits fits' => rfl
  | null => rfl
  | key text => rfl

theorem items? : Option.Rel (List.Forall₂ (Node.Resembles s s')) n.items? n'.items? := by
  cases h with
  | @typed type v v' same fits fits' =>
    have level := twins.read same fits fits'
    rw [Node.items?, Node.items?, TypedNode.items?, TypedNode.items?, TypedNode.reading,
      TypedNode.reading]
    dsimp only
    generalize s.read .typed type v = r, s'.read .typed type v' = r' at level
    cases level with
    | items all =>
      refine .some (List.rel_map ?_ all)
      intro slot slot' same
      exact TypedNode.slot_resembles same
    | _ => exact .none
  | null => exact .none
  | key text => exact .none

theorem lookupIndex (index : Nat) :
    Corresponds (Node.Resembles s s') (n.lookupIndex index) (n'.lookupIndex index) := by
  cases h with
  | @typed type v v' same fits fits' =>
    have level := twins.read same fits fits'
    rw [Node.lookupIndex, Node.lookupIndex, TypedNode.lookupIndex, TypedNode.lookupIndex,
      TypedNode.reading, TypedNode.reading]
    dsimp only
    generalize s.read .typed type v = r, s'.read .typed type v' = r' at level
    cases level with
    | items all =>
      obtain ⟨slot, slot', hs, hs', same⟩ | ⟨hs, hs'⟩ :=
        rel_iff.mp (getElem?_of_forall₂ all index) <;>
        simp only [hs, hs', all.length_eq]
      · exact .ok (TypedNode.slot_resembles same)
      · exact .error _
    | _ => exact .error _
  | null => exact .error _
  | key text => exact .error _

end Node.Resembles

/-! ### Names and keys -/

namespace TypedNode

variable {v v' : Value} {owner key value : TypeId} {nullable : Bool} {nulls nulls' : NullPolicy}

/-- A text in the typed view stands for one key, which each schema represents in its way, or for
none. -/
theorem storedText?_cases (twins : s.Twins s') (body : s.body type = .map key value nullable nulls)
    (body' : s'.body type = .map key value nullable nulls') (text : String) :
    (storedText? ⟨s, owner, .typed, v⟩ key text = none ∧
      storedText? ⟨s', owner, .typed, v'⟩ key text = none) ∨
    ∃ k t t', s.Fits key k ∧ s'.Fits key k ∧ s.Text key k t ∧ s'.Text key k t' ∧
      storedText? ⟨s, owner, .typed, v⟩ key text = some t ∧
      storedText? ⟨s', owner, .typed, v'⟩ key text = some t' := by
  obtain ⟨string, string'⟩ | ⟨members, keys, keys', enum, enum'⟩ := twins.textKeys body body'
  · refine .inr ⟨.scalar (.string text), text, text, .scalar string, .scalar string', ?_, ?_, ?_,
      ?_⟩
    · exact (Schema.TextKey.text_string_iff string).mpr rfl
    · exact (Schema.TextKey.text_string_iff string').mpr rfl
    · simp [storedText?, string]
    · simp [storedText?, string']
  · simp only [storedText?, enum, enum']
    cases found : members.idxOf? text with
    | none => exact .inl ⟨rfl, rfl⟩
    | some i =>
      obtain ⟨bound, -⟩ := List.findIdx?_eq_some_iff_getElem.mp found
      have name := List.getElem?_eq_getElem bound
      refine .inr ⟨.enum i, keys.keyOf members[i], keys'.keyOf members[i], .enum enum bound,
        .enum enum' bound, ?_, ?_, ?_, ?_⟩
      · exact (Schema.TextKey.text_enum_iff enum).mpr ⟨_, name, rfl⟩
      · exact (Schema.TextKey.text_enum_iff enum').mpr ⟨_, name, rfl⟩
      · simp [EnumRepr.text?, name]
      · simp [EnumRepr.text?, name]

/-- A key finds values that go together. -/
theorem entryAt?_rel (twins : s.Twins s') (body : s.body type = .map key value nullable nulls)
    (body' : s'.body type = .map key value nullable nulls') {dict dict' : Dict Value}
    (all : List.Forall₂ (s.SameEntry s' key value nullable) dict.entries dict'.entries) {k : Value}
    (fits : s.Fits key k) (fits' : s'.Fits key k) {text text' : String} (ht : s.Text key k text)
    (ht' : s'.Text key k text') :
    Option.Rel (Node.Resembles s s') (entryAt? ⟨s, owner, .typed, v⟩ value dict false text)
      (entryAt? ⟨s', owner, .typed, v'⟩ value dict' false text') := by
  rw [entryAt?, entryAt?]
  have found := twins.get?_rel body body' fits fits' ht ht' all
  obtain ⟨e, e', he, he', same⟩ | ⟨he, he'⟩ := rel_iff.mp found <;> rw [he, he']
  · exact slot?_resembles (Slot.resembles_of_admits (congrArg Entry.slot same.plain_eq)
      same.fits.slot_admits same.fits'.slot_admits)
  · exact .none

/-- The key of an entry finds values that go together, and does find some. -/
theorem entryAt?_own (twins : s.Twins s') (body : s.body type = .map key value nullable nulls)
    (body' : s'.body type = .map key value nullable nulls') {dict dict' : Dict Value}
    (all : List.Forall₂ (s.SameEntry s' key value nullable) dict.entries dict'.entries)
    {e e' : Entry Value} (mem : e ∈ dict.entries) (same : s.SameEntry s' key value nullable e e') :
    ∃ c c', entryAt? ⟨s, owner, .typed, v⟩ value dict false e.text = some c ∧
      entryAt? ⟨s', owner, .typed, v'⟩ value dict' false e'.text = some c' ∧
      c.Resembles s s' c' := by
  have key_eq := twins.key_eq body body' same.fits.key_fits same.fits'.key_fits
    (congrArg Entry.key same.plain_eq)
  have fits' := same.fits'.key_fits
  have text' := same.fits'.text_eq
  rw [← key_eq] at fits' text'
  obtain found | ⟨missing, -⟩ := rel_iff.mp (entryAt?_rel twins body body' all same.fits.key_fits
    fits' same.fits.text_eq text')
  · exact found
  · have kept : dict.contains e.text = true := List.any_eq_true.mpr ⟨e, mem, beq_self_eq_true _⟩
    rw [Dict.contains_eq_isSome] at kept
    obtain ⟨e₀, e₀', he₀, -, same₀⟩ | ⟨he, -⟩ := rel_iff.mp
      (twins.get?_rel body body' same.fits.key_fits fits' same.fits.text_eq text' all)
    · have shown := isSome_slot? ⟨s, owner, .typed, v⟩ value e₀.slot
      rw [same₀.fits.present] at shown
      rw [entryAt?, he₀] at missing
      rw [show slot? _ value e₀.slot = none from missing] at shown
      contradiction
    · rw [he] at kept
      contradiction

theorem fieldAt?_rel {fields : List (Field TypeId)} {slots slots' : List (Slot Value)}
    (same : slots.map Slot.plain = slots'.map Slot.plain) (fits : s.FitsFields fields slots)
    (fits' : s'.FitsFields fields slots') (name : String) :
    Option.Rel (Node.Resembles s s') (fieldAt? ⟨s, owner, .typed, v⟩ fields slots name)
      (fieldAt? ⟨s', owner, .typed, v'⟩ fields slots' name) := by
  rw [fieldAt?, fieldAt?]
  cases Field.index? fields name with
  | none => exact .none
  | some i =>
    have at_i : slots[i]?.map Slot.plain = slots'[i]?.map Slot.plain := by
      rw [← List.getElem?_map, same, List.getElem?_map]
    cases hf : fields[i]? with
    | none =>
      simp only [Option.bind_eq_bind, Option.bind_some, hf, Option.bind_none]
      exact .none
    | some f =>
      cases hs : slots[i]? <;> cases hs' : slots'[i]? <;> simp only [hs, hs'] at at_i <;>
        first | contradiction | skip
      · simp only [Option.bind_eq_bind, Option.bind_some, hf, hs, hs', Option.bind_none]
        exact .none
      · have plain := Option.some.inj at_i
        simpa [hf, hs, hs'] using slot?_resembles (Slot.resembles_of_admits plain
          (forall_mem_zip_iff.mp fits.admits i _ _ hf hs)
          (forall_mem_zip_iff.mp fits'.admits i _ _ hf hs'))

end TypedNode

namespace TypedNode

variable {n : TypedNode}

theorem lookupNode_of_entryAt? {key value : TypeId} {dict : Dict Value} {omitNulls : Bool}
    (hr : n.reading = .entries key value dict omitNulls) {k : Node} {text : String}
    (ht : k.keyText = .ok text) {child : Node}
    (found : n.entryAt? value dict omitNulls text = some child) :
    (Node.typed n).lookupNode k = .ok child := by
  have led : n.lookupText text = .ok child := by
    rw [lookupText, hr]
    simp only [found]
  rw [Node.lookupNode, ht]
  exact led

theorem lookupNode_name
    (hr : ∀ key value dict omitNulls, n.reading ≠ .entries key value dict omitNulls)
    (name : String) : (Node.typed n).lookupNode (.key name) = (Node.typed n).lookup name := by
  have led : n.lookupText name = n.lookup name := by
    rw [lookupText]
    split
    · rename_i h
      exact absurd h (hr _ _ _ _)
    · rfl
  exact led

end TypedNode

theorem found_corresponds {R : Node → Node → Prop} {x y : Option Node} (key : String) :
    Option.Rel R x y → Corresponds R
      (match x with
        | some node => Except.ok node
        | none => .error (AccessError.notExists key))
      (match y with
        | some node => Except.ok node
        | none => .error (AccessError.notExists key)) := by
  intro h
  obtain ⟨a, b, rfl, rfl, hab⟩ | ⟨rfl, rfl⟩ := rel_iff.mp h
  · exact .ok hab
  · exact .error _

namespace Node.Resembles

variable (twins : s.Twins s') {n n' : Node} (h : n.Resembles s s' n')
include twins h

/-- **A name or a key leads to the same.** -/
theorem lookup (key : String) :
    Corresponds (Node.Resembles s s') (n.lookup key) (n'.lookup key) := by
  cases h with
  | @typed type v v' same fits fits' =>
    have level := twins.read same fits fits'
    rw [Node.lookup, Node.lookup, TypedNode.lookup, TypedNode.lookup, TypedNode.reading,
      TypedNode.reading]
    dsimp only
    generalize s.read .typed type v = r, s'.read .typed type v' = r' at level
    cases level with
    | entries body body' all =>
      refine found_corresponds key ?_
      obtain ⟨ht, ht'⟩ | ⟨k, t, t', fits, fits', text, text', ht, ht'⟩ :=
        TypedNode.storedText?_cases twins body body' key <;> rw [ht, ht']
      · exact .none
      · exact TypedNode.entryAt?_rel twins body body' all fits fits' text text'
    | fields same fits fits' =>
      exact found_corresponds key (TypedNode.fieldAt?_rel same fits fits' key)
    | @choice present member w w' same fits fits' =>
      refine found_corresponds key ?_
      split
      · exact .some (.typed same fits fits')
      · exact .none
    | _ => exact .error _
  | null => exact .error _
  | key text => exact .error _

/-- **Keys and values of maps go together**, and the keys lead each to its own value. -/
theorem entries? : Option.Rel (List.Forall₂ fun c c' => c.1.Resembles s s' c'.1 ∧
      c.2.Resembles s s' c'.2 ∧
      Corresponds (Node.Resembles s s') (n.lookupNode c.1) (n'.lookupNode c'.1))
    n.entries? n'.entries? := by
  have named := h.lookup twins
  cases h with
  | @typed type v v' same fits fits' =>
    have level := twins.read same fits fits'
    rw [Node.entries?, Node.entries?, TypedNode.entries?, TypedNode.entries?]
    dsimp only
    have hr : TypedNode.reading ⟨s, type, .typed, v⟩ = s.read .typed type v := rfl
    have hr' : TypedNode.reading ⟨s', type, .typed, v'⟩ = s'.read .typed type v' := rfl
    rw [hr, hr']
    generalize s.read .typed type v = r, s'.read .typed type v' = r' at level hr hr'
    cases level with
    | @entries _ key value nullable nulls nulls' dict dict' body body' all =>
      have members := (List.forall₂_and_left _ _).mpr ⟨fun e (he : e ∈ dict.entries) => he, all⟩
      refine .some (List.rel_filterMap ?_ members)
      rintro e e' ⟨mem, same⟩
      obtain ⟨c, c', found, found', leads⟩ : ∃ c c',
          TypedNode.entryAt? ⟨s, type, .typed, v⟩ value dict false e.text = some c ∧
          TypedNode.entryAt? ⟨s', type, .typed, v'⟩ value dict' false e'.text = some c' ∧ _ :=
        TypedNode.entryAt?_own twins body body' all mem same
      have slots : Option.Rel (Node.Resembles s s')
          (TypedNode.slot? ⟨s, type, .typed, v⟩ value e.slot)
          (TypedNode.slot? ⟨s', type, .typed, v'⟩ value e'.slot) :=
        TypedNode.slot?_resembles (Slot.resembles_of_admits (congrArg Entry.slot same.plain_eq)
          same.fits.slot_admits same.fits'.slot_admits)
      rw [TypedNode.entry?, TypedNode.entry?, Bool.false_and, Bool.false_and]
      obtain ⟨child, child', hs, hs', values⟩ | ⟨hs, hs'⟩ := rel_iff.mp slots <;> rw [hs, hs']
      · refine .some ⟨.typed (congrArg Entry.key same.plain_eq) same.fits.key_fits
          same.fits'.key_fits, values, ?_⟩
        have led := TypedNode.lookupNode_of_entryAt? hr
          (k := .typed ⟨s, key, .typed, e.key⟩) same.fits.text_eq found
        have led' := TypedNode.lookupNode_of_entryAt? hr'
          (k := .typed ⟨s', key, .typed, e'.key⟩) same.fits'.text_eq found'
        simp only [TypedNode.sub, led, led']
        exact .ok leads
      · exact .none
    | @fields fields slots slots' same fits fits' =>
      refine .some (List.rel_filterMap ?_ (fits.zip fits' same))
      rintro ⟨f, slot⟩ ⟨f', slot'⟩ ⟨rfl, same⟩
      have slots : Option.Rel (Node.Resembles s s')
          (TypedNode.slot? ⟨s, type, .typed, v⟩ f.type slot)
          (TypedNode.slot? ⟨s', type, .typed, v'⟩ f.type slot') :=
        TypedNode.slot?_resembles same
      simp only [TypedNode.field?]
      obtain ⟨child, child', hs, hs', values⟩ | ⟨hs, hs'⟩ := rel_iff.mp slots <;> rw [hs, hs']
      · refine .some ⟨.key _, values, ?_⟩
        rw [TypedNode.lookupNode_name (by simp [hr]), TypedNode.lookupNode_name (by simp [hr'])]
        exact named _
      · exact .none
    | @choice key member w w' same fits fits' =>
      refine .some (.cons ⟨.key key, .typed same fits fits', ?_⟩ .nil)
      rw [TypedNode.lookupNode_name (by simp [hr]), TypedNode.lookupNode_name (by simp [hr'])]
      exact named key
    | _ => exact .none
  | null => exact .none
  | key text => exact .none

end Node.Resembles

/-! ## All answers -/

/-- **The typed view dumps the same.** -/
theorem Node.Resembles.tree_eq (twins : s.Twins s') (n n' : Node) (h : n.Resembles s s' n') :
    n.tree = n'.tree := by
  rw [Node.tree_eq, Node.tree_eq n', h.scalar?_eq twins]
  obtain ⟨is, is', hi, hi', all⟩ | ⟨hi, hi'⟩ := rel_iff.mp (h.items? twins)
  · rw [hi, hi']
    refine congrArg Tree.list ?_
    have below := (List.forall₂_and_left _ _).mpr ⟨fun c (hc : c ∈ is) => hc, all⟩
    refine map_eq_map_of_forall₂ below ?_
    rintro c c' ⟨hc, same⟩
    have := weight_lt_of_mem_items hi hc
    exact tree_eq twins c c' same
  rw [hi, hi']
  obtain ⟨es, es', he, he', all⟩ | ⟨he, he'⟩ := rel_iff.mp (h.entries? twins)
  · rw [he, he']
    refine congrArg Tree.map ?_
    have below := (List.forall₂_and_left _ _).mpr ⟨fun c (hc : c ∈ es) => hc, all⟩
    refine map_eq_map_of_forall₂ below ?_
    rintro c c' ⟨hc, key, value, -⟩
    have := weight_lt_of_mem_entries he hc
    rw [tree_eq twins c.1 c'.1 key, tree_eq twins c.2 c'.2 value]
  · rw [he, he']
termination_by n.weight

namespace Node.Resembles

variable (twins : s.Twins s') {n n' : Node} (h : n.Resembles s s' n')
include twins h

/-- **Nodes of values that hold the same give the same answers.** -/
theorem answers :
    TypedAnswers (Node.Resembles s s') n n' where
  kind := h.kind_eq twins
  length := h.length_eq twins
  asBool := by rw [asBool, asBool, h.scalar?_eq twins, h.kind_eq twins]
  asInt := by rw [asInt, asInt, h.scalar?_eq twins, h.kind_eq twins]
  asFloat := by rw [asFloat, asFloat, h.scalar?_eq twins, h.kind_eq twins]
  asString := by rw [asString, asString, h.scalar?_eq twins, h.kind_eq twins]
  asBytes := by rw [asBytes, asBytes, h.scalar?_eq twins, h.kind_eq twins]
  asLink := by rw [asLink, asLink, h.scalar?_eq twins, h.kind_eq twins]
  tree := tree_eq twins n n' h
  values := by
    rw [values, values, h.kind_eq twins]
    obtain ⟨is, is', hi, hi', all⟩ | ⟨hi, hi'⟩ := rel_iff.mp (h.items? twins) <;> rw [hi, hi']
    · exact .ok all
    · exact .error _
  entries := by
    rw [Node.entries, Node.entries, h.kind_eq twins]
    obtain ⟨es, es', he, he', all⟩ | ⟨he, he'⟩ := rel_iff.mp (h.entries? twins) <;> rw [he, he']
    · exact .ok all
    · exact .error _
  lookup := h.lookup twins
  lookupIndex := h.lookupIndex twins

/-- **They cannot be told apart in the typed view.** -/
theorem sameTyped : n.SameTyped n' :=
  ⟨Node.Resembles s s', fun _ _ => answers twins, h⟩

end Node.Resembles

end DualView
