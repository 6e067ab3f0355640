import DualView.Proofs.Assembly.Scalars

/-!
# Schemas that differ in representation alone

Two schemas *resemble* each other if they declare the same types, in the same order, and differ at
most in how maps, structs, unions and enums are represented.  Nothing that the typed view asks of a
schema tells them apart.

The one thing that a map keeps of its representation are the texts of its keys.  Where no key is a
struct, a text stands for one key, and every key has a text.

* `Schema.Resembles.nameOf_eq`, `Schema.Resembles.body`: what such schemas share.
* `Schema.TextKey.exists_text`, `Schema.TextKey.text_eq_iff`: the texts of keys tell keys apart.
* `Schema.Twins`: two valid schemas that resemble each other, without structs for keys.
-/

namespace DualView

/-! ## Declarations -/

/-- Two bodies declare the same, however it is represented. -/
inductive Body.Resembles {ρ : Type} : Body ρ → Body ρ → Prop
  | scalar (kind : ScalarKind) : Resembles (.scalar kind) (.scalar kind)
  | list (elem : ρ) (nullable : Bool) : Resembles (.list elem nullable) (.list elem nullable)
  | map (key value : ρ) (nullable : Bool) (nulls nulls' : NullPolicy) :
      Resembles (.map key value nullable nulls) (.map key value nullable nulls')
  | struct (fields : List (Field ρ)) (repr repr' : StructRepr) :
      Resembles (.struct fields repr) (.struct fields repr')
  | union (members : List ρ) (repr repr' : UnionRepr) :
      Resembles (.union members repr) (.union members repr')
  | enum (members : List String) (repr repr' : EnumRepr) :
      Resembles (.enum members repr) (.enum members repr')

namespace Body.Resembles

variable {ρ : Type} {b b' : Body ρ}

theorem symm (h : b.Resembles b') : b'.Resembles b := by
  cases h <;> constructor

theorem kind_eq (h : b.Resembles b') : b.kind = b'.kind := by
  cases h <;> rfl

theorem assembledKind?_eq (h : b.Resembles b') :
    b.assembledKind? .typed = b'.assembledKind? .typed := by
  cases h <;> rfl

end Body.Resembles

namespace Schema

/-- Two schemas declare the same types in the same order, however these are represented. -/
def Resembles (s s' : Schema) : Prop :=
  List.Forall₂ (fun d d' : Decl TypeId => d.name = d'.name ∧ d.body.Resembles d'.body)
    s.decls s'.decls

/-- No map has structs for keys. -/
def NoStructKeys (s : Schema) : Prop := ∀ d ∈ s.decls,
  match d.body with
  | .map key _ _ _ => ∀ fields repr, s.body key ≠ .struct fields repr
  | _ => True

theorem NoStructKeys.key {s : Schema} (h : s.NoStructKeys) {type key value : TypeId}
    {nullable : Bool} {nulls : NullPolicy} (body : s.body type = .map key value nullable nulls)
    (fields : List (Field TypeId)) (repr : StructRepr) : s.body key ≠ .struct fields repr := by
  rw [Schema.body, decl] at body
  cases hd : s.decls[type]? with
  | none => simp [hd, vacant] at body
  | some d =>
    rw [hd, Option.getD_some] at body
    have := h d (List.mem_of_getElem? hd)
    rw [body] at this
    exact this fields repr

namespace Resembles

variable {s s' : Schema} (h : s.Resembles s') (id : TypeId)
include h

theorem decl : (s.decl id).name = (s'.decl id).name ∧
    (s.decl id).body.Resembles (s'.decl id).body := by
  rw [Schema.decl, Schema.decl]
  obtain ⟨d, d', hd, hd', same⟩ | ⟨hd, hd'⟩ := rel_iff.mp (getElem?_of_forall₂ h id) <;>
    rw [hd, hd']
  · exact same
  · exact ⟨rfl, .enum ..⟩

theorem nameOf_eq : s.nameOf id = s'.nameOf id := (h.decl id).1

theorem body : (s.body id).Resembles (s'.body id) := (h.decl id).2

theorem symm : s'.Resembles s :=
  h.flip.imp fun _ _ ⟨name, body⟩ => ⟨name.symm, body.symm⟩

theorem mismatch_eq (found : Kind) : s.mismatch .typed id found = s'.mismatch .typed id found := by
  rw [mismatch, mismatch, h.nameOf_eq, (h.body id).kind_eq]

theorem unrecognized_eq (key : String) : s.unrecognized id key = s'.unrecognized id key := by
  rw [unrecognized, unrecognized, h.nameOf_eq]

theorem noStructKeys (keys : s.NoStructKeys) : s'.NoStructKeys := by
  intro d' mem
  obtain ⟨i, hi⟩ := List.mem_iff_getElem?.mp mem
  obtain ⟨d, d'', hd, hd', -, bodies⟩ | ⟨-, hd'⟩ := rel_iff.mp (getElem?_of_forall₂ h i)
  · obtain rfl := Option.some.inj (hi.symm.trans hd')
    have unstructured := keys d (List.mem_of_getElem? hd)
    generalize d.body = b, d'.body = b' at bodies unstructured ⊢
    cases bodies with
    | map key value nullable nulls nulls' =>
      intro fields repr hkey
      have struct := h.body key
      rw [hkey] at struct
      generalize hk : s.body key = k at struct
      cases struct
      exact unstructured _ _ hk
    | _ => trivial
  · rw [hi] at hd'
    contradiction

end Resembles

/-! ## Keys -/

/-- A type of keys that are text in both views. -/
inductive TextKey (s : Schema) (key : TypeId) : Prop
  | string (body : s.body key = .scalar .string)
  | enum {members : List String} {keys : Renaming}
      (body : s.body key = .enum members (.string keys))

/-- The keys of a map are text in both views, or structs that are joined to text. -/
theorem Valid.mapKey_cases {s : Schema} (valid : s.Valid) {type key value : TypeId}
    {nullable : Bool} {nulls : NullPolicy} (body : s.body type = .map key value nullable nulls) :
    s.TextKey key ∨ ∃ fields separator, s.body key = .struct fields (.stringjoin separator) := by
  have kind : (s.body key).reprKind? = some (.scalar .string) := valid.mapKey body
  cases hk : s.body key with
  | scalar k =>
    rw [hk] at kind
    cases kind
    exact .inl (.string hk)
  | enum members repr =>
    cases repr with
    | string keys => exact .inl (.enum hk)
    | int values => simp [hk, Body.reprKind?] at kind
  | struct fields repr =>
    cases repr with
    | stringjoin separator => exact .inr ⟨fields, separator, rfl⟩
    | _ => simp [hk, Body.reprKind?] at kind
  | union members repr => cases repr <;> simp [hk, Body.reprKind?] at kind
  | _ => simp [hk, Body.reprKind?] at kind

/-- The keys of a map are strings or members of an enum, unless they are structs. -/
theorem Valid.textKey {s : Schema} (valid : s.Valid) (keys : s.NoStructKeys)
    {type key value : TypeId} {nullable : Bool} {nulls : NullPolicy}
    (body : s.body type = .map key value nullable nulls) :
    s.TextKey key := by
  rcases valid.mapKey_cases body with text | ⟨fields, separator, joined⟩
  · exact text
  · exact absurd joined (keys.key body fields _)

namespace TextKey

variable {s : Schema} {key : TypeId} {k j : Value} {text text' : String}

theorem kind_eq (h : s.TextKey key) : (s.body key).kind = .scalar .string := by
  cases h with
  | string body => rw [body]; rfl
  | enum body => rw [body]; rfl

theorem text_enum_iff {members : List String} {keys : Renaming}
    (body : s.body key = .enum members (.string keys)) {i : Nat} :
    s.Text key (.enum i) text ↔ ∃ name, members[i]? = some name ∧ keys.keyOf name = text := by
  rw [text_iff_read]
  simp only [read, body, readEnum, EnumRepr.scalar?, EnumRepr.text?, EnumRepr.int?]
  cases members[i]? <;> simp

theorem text_string_iff (body : s.body key = .scalar .string) {content : String} :
    s.Text key (.scalar (.string content)) text ↔ content = text := by
  rw [text_iff_read]
  simp [read, body, Scalar.kind]

theorem fits_enum {members : List String} {repr : EnumRepr} (body : s.body key = .enum members repr)
    (fits : s.Fits key k) : ∃ i, k = .enum i ∧ i < members.length := by
  cases fits with
  | enum body' bound =>
    cases body.symm.trans body'
    exact ⟨_, rfl, bound⟩
  | scalar body' => simp [body] at body'
  | list body' states values => simp [body] at body'
  | map body' keys texts apart states values => simp [body] at body'
  | struct body' length states values => simp [body] at body'
  | union body' at_member value => simp [body] at body'

/-- **Every key has a text.** -/
theorem exists_text (h : s.TextKey key) (fits : s.Fits key k) : ∃ text, s.Text key k text := by
  cases h with
  | string body =>
    obtain ⟨content, rfl⟩ := fits_text body fits
    exact ⟨content, (text_string_iff body).mpr rfl⟩
  | enum body =>
    obtain ⟨i, rfl, bound⟩ := fits_enum body fits
    exact ⟨_, (text_enum_iff body).mpr ⟨_, List.getElem?_eq_getElem bound, rfl⟩⟩

/-- **A text stands for one key.** -/
theorem text_eq_iff (h : s.TextKey key) (valid : s.Valid) (fits : s.Fits key k)
    (fits' : s.Fits key j) (ht : s.Text key k text) (ht' : s.Text key j text') :
    text = text' ↔ k = j := by
  cases h with
  | string body =>
    obtain ⟨content, rfl⟩ := fits_text body fits
    obtain ⟨content', rfl⟩ := fits_text body fits'
    obtain rfl := (text_string_iff body).mp ht
    obtain rfl := (text_string_iff body).mp ht'
    simp
  | enum body =>
    obtain ⟨i, rfl, -⟩ := fits_enum body fits
    obtain ⟨i', rfl, -⟩ := fits_enum body fits'
    obtain ⟨name, hi, rfl⟩ := (text_enum_iff body).mp ht
    obtain ⟨name', hi', rfl⟩ := (text_enum_iff body).mp ht'
    constructor
    · intro same
      have apart := (valid.enum_separates body).apart
      obtain rfl := List.inj_on_of_nodup_map apart (List.mem_of_getElem? hi)
        (List.mem_of_getElem? hi') same
      obtain ⟨bound, -⟩ := List.getElem?_eq_some_iff.mp hi
      rw [(List.getElem?_inj bound (valid.enum_nodup body)).mp (hi.trans hi'.symm)]
    · intro same
      cases same
      rw [Option.some.inj (hi.symm.trans hi')]

end TextKey

/-! ## Twins -/

/-- Two valid schemas that differ in representation alone, without structs for keys. -/
structure Twins (s s' : Schema) : Prop where
  valid : s.Valid
  valid' : s'.Valid
  resembles : s.Resembles s'
  keys : s.NoStructKeys

namespace Twins

variable {s s' : Schema} (h : s.Twins s')
include h

theorem symm : s'.Twins s :=
  ⟨h.valid', h.valid, h.resembles.symm, h.resembles.noStructKeys h.keys⟩

theorem textKey {type key value : TypeId} {nullable : Bool} {nulls : NullPolicy}
    (body : s.body type = .map key value nullable nulls) : s.TextKey key :=
  h.valid.textKey h.keys body

theorem textKeys {type key value : TypeId} {nullable : Bool} {nulls nulls' : NullPolicy}
    (body : s.body type = .map key value nullable nulls)
    (body' : s'.body type = .map key value nullable nulls') :
    (s.body key = .scalar .string ∧ s'.body key = .scalar .string) ∨
      ∃ members keys keys', s.body key = .enum members (.string keys) ∧
        s'.body key = .enum members (.string keys') := by
  have bodies := h.resembles.body key
  cases h.textKey body with
  | string string =>
    rw [string] at bodies
    cases h.symm.textKey body' with
    | string string' => exact .inl ⟨string, string'⟩
    | enum enum' =>
      rw [enum'] at bodies
      contradiction
  | enum enum =>
    rw [enum] at bodies
    cases h.symm.textKey body' with
    | string string' =>
      rw [string'] at bodies
      contradiction
    | enum enum' =>
      rw [enum'] at bodies
      cases bodies
      exact .inr ⟨_, _, _, enum, enum'⟩

end Twins

end Schema

end DualView
