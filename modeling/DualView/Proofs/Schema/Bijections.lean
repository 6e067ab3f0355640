import DualView.Proofs.Schema.Valid

/-!
# Tables of a frozen schema

Freezing keeps the keys of fields apart, and the texts of the members of an enum, but does not ask
that a name be renamed once.  A second key of a name is never written, yet it is read as that name,
and it may be the key of another.  So what is written is read back exactly if every listed key
leads to a name that has it.

Discriminants, ints and kinds are counted as well as kept apart: there is one for each member.  So
these tables are read back from both sides without a further condition.

* `Schema.field_keys_inverse_iff`: the keys of the fields of a struct.
* `Schema.enum_texts_inverse_iff`: the texts of the members of an enum.
* `Schema.tables_inverse`: the discriminants of a keyed union, the ints of an enum and the kinds of
  a kinded union.
-/

namespace DualView

/-! ## A schema to rename in -/

namespace Renamed

def fields : List (Field TypeId) := [⟨"low", 0, false, false⟩, ⟨"high", 0, false, false⟩]

def types (keys : Renaming) : TypeSystem := ⟨
  [ ⟨"Count", .scalar .int⟩,
    ⟨"Range", .struct [⟨"low", "Count", false, false⟩, ⟨"high", "Count", false, false⟩] (.map keys)⟩,
    ⟨"Level", .enum ["low", "high"] (.string keys)⟩ ]⟩

def schema (keys : Renaming) : Schema := ⟨
  [ ⟨"Count", .scalar .int⟩, ⟨"Range", .struct fields (.map keys)⟩,
    ⟨"Level", .enum ["low", "high"] (.string keys)⟩ ]⟩

/-- Two names change places, and one of them says so twice. -/
def swapped : Renaming := ⟨[("low", "high"), ("high", "low"), ("low", "high")]⟩

/-- The second key of one name is the key of the other. -/
def shadowed : Renaming := ⟨[("low", "l"), ("low", "h"), ("high", "h")]⟩

end Renamed

/-! ## A schema to label in -/

namespace Labelled

/-- The members stand in another order than they are declared in. -/
def discriminants : Labels String := ⟨[("Note", "n"), ("Count", "c")]⟩

def values : Labels Int64 := ⟨[("high", 1), ("low", -1)]⟩

def types : TypeSystem := ⟨
  [ ⟨"Count", .scalar .int⟩,
    ⟨"Note", .scalar .string⟩,
    ⟨"Entry", .union ["Count", "Note"] (.keyed discriminants)⟩,
    ⟨"Level", .enum ["low", "high"] (.int values)⟩,
    ⟨"Remark", .union ["Count", "Note"] .kinded⟩ ]⟩

def schema : Schema := ⟨
  [ ⟨"Count", .scalar .int⟩,
    ⟨"Note", .scalar .string⟩,
    ⟨"Entry", .union [0, 1] (.keyed discriminants)⟩,
    ⟨"Level", .enum ["low", "high"] (.int values)⟩,
    ⟨"Remark", .union [0, 1] .kinded⟩ ]⟩

end Labelled

namespace Schema

variable {ts : TypeSystem} {s : Schema} {type : TypeId}

/-! ## Fields -/

/-- **The keys of the fields of a struct lead back to the fields, and no field is read under another
key, exactly if every listed key leads to a name that has it.** -/
theorem field_keys_inverse_iff (frozen : ts.finalize = .ok s) {fields : List (Field TypeId)}
    {repr : StructRepr} {keys : Renaming} (body : s.body type = .struct fields repr)
    (keyed : repr.keys? = some keys) :
    ((∀ f ∈ fields, keys.nameOf? (keys.keyOf f.name) = some f.name) ∧
      ∀ f ∈ fields, ∀ key, keys.nameOf? key = some f.name → keys.keyOf f.name = key) ↔
        keys.Reciprocal := by
  rw [← ((valid_of_finalize frozen).separates body keyed).inverse_iff_reciprocal,
    List.forall_mem_map, List.forall_mem_map]

theorem field_keys_inverse_swapped :
    (Renamed.types Renamed.swapped).finalize = .ok (Renamed.schema Renamed.swapped) ∧
      (Renamed.schema Renamed.swapped).body 1 = .struct Renamed.fields (.map Renamed.swapped) ∧
      (∀ f ∈ Renamed.fields,
        Renamed.swapped.nameOf? (Renamed.swapped.keyOf f.name) = some f.name) ∧
      ∀ f ∈ Renamed.fields, ∀ key,
        Renamed.swapped.nameOf? key = some f.name → Renamed.swapped.keyOf f.name = key := by
  have frozen : (Renamed.types Renamed.swapped).finalize = .ok (Renamed.schema Renamed.swapped) :=
    rfl
  have body : (Renamed.schema Renamed.swapped).body 1 =
      .struct Renamed.fields (.map Renamed.swapped) := rfl
  exact ⟨frozen, body, (field_keys_inverse_iff frozen body rfl).mpr (by decide)⟩

/-- A frozen schema in which the key of one field is read as another field. -/
theorem field_keys_not_inverse_shadowed :
    (Renamed.types Renamed.shadowed).finalize = .ok (Renamed.schema Renamed.shadowed) ∧
      (Renamed.schema Renamed.shadowed).body 1 = .struct Renamed.fields (.map Renamed.shadowed) ∧
      (¬ ∀ f ∈ Renamed.fields,
        Renamed.shadowed.nameOf? (Renamed.shadowed.keyOf f.name) = some f.name) ∧
      ¬ ∀ f ∈ Renamed.fields, ∀ key,
        Renamed.shadowed.nameOf? key = some f.name → Renamed.shadowed.keyOf f.name = key := by
  refine ⟨rfl, rfl, by decide, fun h => ?_⟩
  have := h ⟨"low", 0, false, false⟩ (by decide) "h" (by decide)
  exact absurd this (by decide)

/-! ## Members of an enum -/

theorem ofText?_eq_some_iff {members : List String} (apart : members.Nodup) {keys : Renaming}
    {text : String} {i : Nat} : (EnumRepr.string keys).ofText? members text = some i ↔
      ∃ name, keys.nameOf? text = some name ∧ members[i]? = some name := by
  rw [EnumRepr.ofText?, Option.bind_eq_some_iff]
  simp only [idxOf?_eq_some_iff_of_nodup apart]

/-- **The texts of the members of an enum lead back to the members, and no member is read from
another text, exactly if every listed text leads to a name that has it.** -/
theorem enum_texts_inverse_iff (frozen : ts.finalize = .ok s) {members : List String}
    {keys : Renaming} (body : s.body type = .enum members (.string keys)) :
    ((∀ i < members.length, ((EnumRepr.string keys).text? members i).bind
        ((EnumRepr.string keys).ofText? members) = some i) ∧
      ∀ text i, (EnumRepr.string keys).ofText? members text = some i →
        (EnumRepr.string keys).text? members i = some text) ↔ keys.Reciprocal := by
  have apart := (valid_of_finalize frozen).enum_nodup body
  have sep := (valid_of_finalize frozen).enum_separates body
  have text_at {i : Nat} {name : String} (hi : members[i]? = some name) :
      (EnumRepr.string keys).text? members i = some (keys.keyOf name) := by
    rw [EnumRepr.text?.eq_def, hi]
  constructor
  · rintro ⟨-, htext⟩ p hp hf
    obtain ⟨i, hi⟩ := List.mem_iff_getElem?.mp (sep.declared p hp)
    have hread := (ofText?_eq_some_iff apart).mpr ⟨p.1, Renaming.nameOf?_of_find? hf, hi⟩
    exact Option.some.inj ((text_at hi).symm.trans (htext p.2 i hread))
  · intro h
    refine ⟨fun i hlt => ?_, fun text i hread => ?_⟩
    · have hi := List.getElem?_eq_getElem hlt
      rw [text_at hi, Option.bind_some, ofText?_eq_some_iff apart]
      exact ⟨members[i], h.nameOf?_keyOf sep (List.getElem_mem hlt), hi⟩
    · obtain ⟨name, hn, hi⟩ := (ofText?_eq_some_iff apart).mp hread
      rw [text_at hi, h.keyOf_of_nameOf? hn]

theorem enum_texts_inverse_swapped :
    (Renamed.types Renamed.swapped).finalize = .ok (Renamed.schema Renamed.swapped) ∧
      (Renamed.schema Renamed.swapped).body 2 =
        .enum ["low", "high"] (.string Renamed.swapped) ∧
      (∀ i < 2, ((EnumRepr.string Renamed.swapped).text? ["low", "high"] i).bind
        ((EnumRepr.string Renamed.swapped).ofText? ["low", "high"]) = some i) ∧
      ∀ text i, (EnumRepr.string Renamed.swapped).ofText? ["low", "high"] text = some i →
        (EnumRepr.string Renamed.swapped).text? ["low", "high"] i = some text := by
  have frozen : (Renamed.types Renamed.swapped).finalize = .ok (Renamed.schema Renamed.swapped) :=
    rfl
  have body : (Renamed.schema Renamed.swapped).body 2 =
      .enum ["low", "high"] (.string Renamed.swapped) := rfl
  exact ⟨frozen, body, (enum_texts_inverse_iff frozen body).mpr (by decide)⟩

/-- A frozen schema in which the text of one member is read as another member. -/
theorem enum_texts_not_inverse_shadowed :
    (Renamed.types Renamed.shadowed).finalize = .ok (Renamed.schema Renamed.shadowed) ∧
      (Renamed.schema Renamed.shadowed).body 2 =
        .enum ["low", "high"] (.string Renamed.shadowed) ∧
      (EnumRepr.string Renamed.shadowed).text? ["low", "high"] 1 = some "h" ∧
      (EnumRepr.string Renamed.shadowed).ofText? ["low", "high"] "h" = some 0 ∧
      (EnumRepr.string Renamed.shadowed).text? ["low", "high"] 0 = some "l" := by
  decide +kernel

/-! ## One label for each member -/

/-- Two searches undo each other on a domain: each element of it is led to something, and what leads
to what is the same from both sides. -/
structure Inverse {α β : Type} (domain : α → Prop) (there : α → Option β) (back : β → Option α) :
    Prop where
  total : ∀ a, domain a → ∃ b, there a = some b
  returns : ∀ a b, domain a → there a = some b → back b = some a
  sound : ∀ a b, back b = some a → domain a ∧ there a = some b

/-- Labels that cover the members are read back from both sides. -/
theorem inverse_of_covers {β : Type} [DecidableEq β] {l : Labels β} {members : List String}
    (h : l.Covers members) : Inverse (· ∈ members) l.labelOf? l.nameOf? where
  total _ hm := h.exists_label hm
  returns _ _ _ hl := h.labelOf?_iff_nameOf?.mp hl
  sound member label hn :=
    ⟨h.declared (member, label) (h.nameOf?_iff.mp hn), h.labelOf?_iff_nameOf?.mpr hn⟩

/-- The ints of an enum are the labels of its members, told by their positions. -/
theorem enum_ints_inverse {members : List String} (apart : members.Nodup) {values : Labels Int64}
    (h : values.Covers members) :
    Inverse (· < members.length) ((EnumRepr.int values).int? members)
      ((EnumRepr.int values).ofInt? members) := by
  have labels := inverse_of_covers h
  have int_at {i : Nat} (hi : i < members.length) :
      (EnumRepr.int values).int? members i = values.labelOf? members[i] := by
    rw [EnumRepr.int?.eq_def, List.getElem?_eq_getElem hi]
  have ofInt_iff {value : Int64} {i : Nat} :
      (EnumRepr.int values).ofInt? members value = some i ↔
        ∃ name, values.nameOf? value = some name ∧ members[i]? = some name := by
    rw [EnumRepr.ofInt?, Option.bind_eq_some_iff]
    simp only [idxOf?_eq_some_iff_of_nodup apart]
  refine ⟨fun i hi => ?_, fun i value hi hv => ?_, fun i value hread => ?_⟩
  · rw [int_at hi]
    exact labels.total members[i] (List.getElem_mem hi)
  · rw [int_at hi] at hv
    have hn := labels.returns members[i] value (List.getElem_mem hi) hv
    exact ofInt_iff.mpr ⟨members[i], hn, List.getElem?_eq_getElem hi⟩
  · obtain ⟨name, hn, hname⟩ := ofInt_iff.mp hread
    obtain ⟨hi, rfl⟩ := List.getElem?_eq_some_iff.mp hname
    exact ⟨hi, by rw [int_at hi]; exact (labels.sound members[i] value hn).2⟩

theorem Valid.kinds_inverse (h : s.Valid) {members : List TypeId}
    (body : s.body type = .union members .kinded) :
    Inverse (fun member => members[member.1]? = some member.2)
      (fun member => (s.decl member.2).reprKind?) (s.kindedMember? members) := by
  refine ⟨fun ⟨i, member⟩ hm => ?_, fun ⟨i, member⟩ kind hm hk => ?_, fun ⟨i, member⟩ kind hf => ?_⟩
  · obtain ⟨kinds, he, -⟩ := h.kinds body
    have hkind : (s.decl member).reprKind? ∈ kinds.map some := by
      rw [← he]
      exact List.mem_map_of_mem (List.mem_of_getElem? hm)
    obtain ⟨kind, -, hk⟩ := List.mem_map.mp hkind
    exact ⟨kind, hk.symm⟩
  · exact (h.kindedMember?_iff body).mpr ⟨hm, hk⟩
  · exact kindedMember?_spec hf

/-- **The discriminants of a keyed union, the ints of an enum and the kinds of a kinded union are
one for each member, and lead back to it.** -/
theorem tables_inverse (frozen : ts.finalize = .ok s) (type : TypeId) :
    (∀ members ds, s.body type = .union members (.keyed ds) →
      Inverse (· ∈ members.map s.nameOf) (UnionRepr.keyed ds).discriminantOf?
        (UnionRepr.keyed ds).memberOf?) ∧
    (∀ members values, s.body type = .enum members (.int values) →
      Inverse (· < members.length) ((EnumRepr.int values).int? members)
        ((EnumRepr.int values).ofInt? members)) ∧
    ∀ members, s.body type = .union members .kinded →
      Inverse (fun member => members[member.1]? = some member.2)
        (fun member => (s.decl member.2).reprKind?) (s.kindedMember? members) := by
  have valid := valid_of_finalize frozen
  refine ⟨fun members ds body => ?_, fun members values body => ?_, fun members body => ?_⟩
  · exact inverse_of_covers (valid.discriminants body)
  · exact enum_ints_inverse (valid.enum_nodup body) (valid.enum_values body)
  · exact valid.kinds_inverse body

theorem tables_inverse_labelled :
    Labelled.types.finalize = .ok Labelled.schema ∧
      Inverse (· ∈ ["Count", "Note"]) (UnionRepr.keyed Labelled.discriminants).discriminantOf?
        (UnionRepr.keyed Labelled.discriminants).memberOf? ∧
      Inverse (· < 2) ((EnumRepr.int Labelled.values).int? ["low", "high"])
        ((EnumRepr.int Labelled.values).ofInt? ["low", "high"]) ∧
      Inverse (fun member => [0, 1][member.1]? = some member.2)
        (fun member => (Labelled.schema.decl member.2).reprKind?)
        (Labelled.schema.kindedMember? [0, 1]) := by
  have frozen : Labelled.types.finalize = .ok Labelled.schema := rfl
  exact ⟨frozen, (tables_inverse frozen 2).1 [0, 1] Labelled.discriminants rfl,
    (tables_inverse frozen 3).2.1 ["low", "high"] Labelled.values rfl,
    (tables_inverse frozen 4).2.2 [0, 1] rfl⟩

end Schema

end DualView
