import DualView.Proofs.Assembly.Copying

/-!
# Keys of fields, members and entries

In a valid schema whose renamings name nothing twice, keys and positions determine each other: the
key of a field or member leads to it and to nothing else, and a text stands for one key of a map.

* `Renaming.Tells.found_iff`: the field that a key stands for.
* `Schema.Valid.memberFound_typed_iff`, `Schema.Valid.memberFound_keyed_iff`: the member that a key
  stands for.
* `Model.Copies.read_scalar`: what is copied from a scalar reads as that scalar.
-/

namespace DualView

/-! ## Fields -/

structure Renaming.Tells (keys : Renaming) (fields : List (Field TypeId)) : Prop where
  names : (fields.map (·.name)).Nodup
  once : keys.NamesOnce
  separates : keys.Separates (fields.map (·.name))

namespace Renaming.Tells

variable {keys : Renaming} {fields : List (Field TypeId)}

/-- **A key stands for the field whose key it is.** -/
theorem found_iff (h : keys.Tells fields) {key : String} {i : Nat} :
    Field.Found keys fields key i ↔ ∃ f, fields[i]? = some f ∧ keys.keyOf f.name = key := by
  rw [Field.Found, Option.bind_eq_some_iff]
  constructor
  · rintro ⟨name, hn, hi⟩
    obtain ⟨f, hf, rfl⟩ := (findIdx?_eq_some_iff_of_nodup Field.name h.names).mp hi
    exact ⟨f, hf, keyOf_of_nameOf? h.once hn⟩
  · rintro ⟨f, hf, rfl⟩
    have hm : f.name ∈ fields.map (·.name) := List.mem_map_of_mem (List.mem_of_getElem? hf)
    exact ⟨f.name, nameOf?_keyOf h.once h.separates hm,
      (findIdx?_eq_some_iff_of_nodup Field.name h.names).mpr ⟨f, hf, rfl⟩⟩

theorem keyOf_inj (h : keys.Tells fields) {i j : Nat} {f g : Field TypeId}
    (hf : fields[i]? = some f) (hg : fields[j]? = some g)
    (he : keys.keyOf f.name = keys.keyOf g.name) : i = j ∧ f = g := by
  have hi := h.found_iff.mpr ⟨f, hf, rfl⟩
  have hj := h.found_iff.mpr ⟨g, hg, rfl⟩
  rw [he] at hi
  obtain rfl := Option.some.inj (hi.symm.trans hj)
  exact ⟨rfl, Option.some.inj (hf.symm.trans hg)⟩

/-- Fields are given under different keys exactly if they stand at different positions. -/
theorem apart_iff {α : Type} (h : keys.Tells fields) {ks : List α} {key : α → String}
    {index : α → Nat} (found : ∀ p ∈ ks, Field.Found keys fields (key p) (index p)) :
    (ks.map key).Nodup ↔ (ks.map index).Nodup := by
  constructor
  · intro hk
    have : ks.map key =
        (ks.map index).map fun i => ((fields[i]?.map (·.name)).map keys.keyOf).getD "" := by
      rw [List.map_map]
      apply List.map_congr_left
      intro p hp
      obtain ⟨f, hf, he⟩ := h.found_iff.mp (found p hp)
      simp [hf, he]
    exact List.Nodup.of_map _ (this ▸ hk)
  · intro hi
    have : ks.map index =
        (ks.map key).map fun k => ((keys.nameOf? k).bind (Field.index? fields)).getD 0 := by
      rw [List.map_map]
      apply List.map_congr_left
      intro p hp
      have hf : (keys.nameOf? (key p)).bind (Field.index? fields) = some (index p) := found p hp
      simp [hf]
    exact List.Nodup.of_map _ (this ▸ hi)

end Renaming.Tells

namespace Schema

variable {s : Schema} {type : TypeId}

theorem Valid.tells_entries (valid : s.Valid) {view : View}
    (once : view = .representation → s.RenamesOnce) {fields : List (Field TypeId)}
    {repr : StructRepr} {keys : Renaming} (body : s.body type = .struct fields repr)
    (keyed : repr.entryKeys? view = some keys) : keys.Tells fields := by
  have names := valid.fields_nodup body
  cases view with
  | typed =>
    cases keyed
    exact ⟨names, Renaming.namesOnce_none, Renaming.separates_none names⟩
  | representation =>
    cases repr with
    | map keys' =>
      cases keyed
      exact ⟨names, (once rfl).struct body rfl, valid.separates body rfl⟩
    | _ => contradiction

theorem Valid.tells_pairs (valid : s.Valid) (once : s.RenamesOnce)
    {fields : List (Field TypeId)} {keys : Renaming}
    (body : s.body type = .struct fields (.listpairs keys)) : keys.Tells fields :=
  ⟨valid.fields_nodup body, once.struct body rfl, valid.separates body rfl⟩

/-- A struct that shows as a map shows its fields under their keys. -/
theorem read_entries {view : View} {fields : List (Field TypeId)} {repr : StructRepr}
    {keys : Renaming} (body : s.body type = .struct fields repr)
    (keyed : repr.entryKeys? view = some keys) (slots : List (Slot Value)) :
    s.read view type (.struct slots) = .fields keys fields slots := by
  simp only [read, body]
  cases view with
  | typed =>
    cases keyed
    rfl
  | representation =>
    cases repr with
    | map keys' =>
      cases keyed
      rfl
    | _ => contradiction

theorem read_struct {fields : List (Field TypeId)} {repr : StructRepr}
    (body : s.body type = .struct fields repr) (slots : List (Slot Value)) :
    s.read .representation type (.struct slots) = readStruct .representation fields repr slots := by
  simp only [read, body]

/-! ## Members -/

variable {members : List TypeId} {key : String} {i : Nat}

theorem Valid.memberFound_typed_iff (valid : s.Valid) {repr : UnionRepr}
    (body : s.body type = .union members repr) :
    s.MemberFound .typed members repr key i ↔
      ∃ member, members[i]? = some member ∧ s.nameOf member = key :=
  findIdx?_eq_some_iff_of_nodup s.nameOf (valid.members_nodup body)

theorem Valid.memberFound_keyed_iff (valid : s.Valid) {ds : Labels String}
    (body : s.body type = .union members (.keyed ds)) :
    s.MemberFound .representation members (.keyed ds) key i ↔
      ∃ member, members[i]? = some member ∧ ds.labelOf? (s.nameOf member) = some key := by
  have covers := valid.discriminants body
  rw [MemberFound, memberIndex?, Option.bind_eq_some_iff]
  constructor
  · rintro ⟨name, hn, hi⟩
    obtain ⟨member, hm, rfl⟩ :=
      (findIdx?_eq_some_iff_of_nodup s.nameOf (valid.members_nodup body)).mp hi
    exact ⟨member, hm, covers.labelOf?_iff_nameOf?.mpr hn⟩
  · rintro ⟨member, hm, hl⟩
    exact ⟨s.nameOf member, covers.labelOf?_iff_nameOf?.mp hl,
      (findIdx?_eq_some_iff_of_nodup s.nameOf (valid.members_nodup body)).mpr ⟨member, hm, rfl⟩⟩

theorem Valid.read_choice (valid : s.Valid) {view : View} {repr : UnionRepr}
    (body : s.body type = .union members repr) (found : s.MemberFound view members repr key i)
    {member : TypeId} (hm : members[i]? = some member) (v : Value) :
    s.read view type (.union i v) = .choice key member v := by
  cases view with
  | typed =>
    obtain ⟨member', hm', rfl⟩ := (valid.memberFound_typed_iff body).mp found
    cases hm.symm.trans hm'
    simp only [read, body, hm]
  | representation =>
    cases repr with
    | kinded => contradiction
    | keyed ds =>
      obtain ⟨member', hm', hl⟩ := (valid.memberFound_keyed_iff body).mp found
      cases hm.symm.trans hm'
      simp only [read, body, hm, hl]

theorem read_kinded (body : s.body type = .union members .kinded) {member : TypeId}
    (hm : members[i]? = some member) (v : Value) :
    s.read .representation type (.union i v) = s.read .representation member v := by
  rw [read]
  simp only [body, hm]

theorem tree_kinded (body : s.body type = .union members .kinded) {member : TypeId}
    (hm : members[i]? = some member) (v : Value) :
    s.tree .representation type (.union i v) = s.tree .representation member v := by
  rw [tree_eq, tree_eq, read_kinded body hm]

end Schema

/-! ## Scalars -/

/-- **What is copied from a scalar reads as that scalar.** -/
theorem Model.Copies.read_scalar {m : Model} (valid : m.schema.Valid) {view : View}
    (once : view = .representation → m.schema.RenamesOnce) {nullable : Bool} {type : TypeId}
    {a : Scalar} {v : Value} (h : m.Copies view nullable type (.scalar a) (some v)) :
    m.schema.read view type v = .scalar a := by
  have read_builds {type : TypeId} {t : Tree} {v : Value} (hb : m.Builds view type t v)
      (ht : t = .scalar a) : m.schema.read view type v = .scalar a := by
    cases hb with
    | scalar denotes =>
      cases ht
      exact denotes.read valid once
    | struct body shows apart required values => cases shows <;> contradiction
    | _ => contradiction
  rcases (copies_some_iff valid).mp h with hb | ⟨members, i, member, w, rfl, body, hk, hb, rfl⟩
  · exact read_builds hb rfl
  · rw [Schema.read_kinded body (Schema.kindedMember?_spec hk).1]
    exact read_builds hb rfl

theorem Model.Copies.text_eq {m : Model} (valid : m.schema.Valid) (once : m.schema.RenamesOnce)
    {type : TypeId} {k text : String} {v : Value}
    (h : m.Copies .representation false type (.scalar (.string k)) (some v))
    (ht : m.schema.Text type v text) : text = k := by
  have := (Schema.text_iff_read.mp ht).symm.trans (h.read_scalar valid fun _ => once)
  simpa using this

end DualView
