import DualView.Proofs.Layout.Decisions
import DualView.Proofs.Schema.Valid
import DualView.Proofs.Text.Split
import DualView.Proofs.Value.Fits

/-!
# What scalars stand for

`Model.Denotes` lists the five ways in which a scalar stands for a value of a type: as itself, as
the name, the text or the int of a member of an enum, or as the joined text of a struct.

* `Model.ofScalar_eq_ok_iff`: these are the only ways.
* `Model.Denotes.fits`: the value is one of the type.
* `Model.Denotes.read`: read through the same view, the value shows the scalar again.
-/

namespace DualView

namespace Model

/-- A scalar stands for a value of a type, in a view. -/
inductive Denotes (m : Model) (view : View) (type : TypeId) : Scalar → Value → Prop
  | scalar {a : Scalar} (body : m.schema.body type = .scalar a.kind) :
      Denotes m view type a (.scalar a)
  | name {members : List String} {repr : EnumRepr} {text : String} {i : Nat}
      (seen : view = .typed) (body : m.schema.body type = .enum members repr)
      (found : members.idxOf? text = some i) : Denotes m view type (.string text) (.enum i)
  | text {members : List String} {keys : Renaming} {text : String} {i : Nat}
      (seen : view = .representation) (body : m.schema.body type = .enum members (.string keys))
      (found : (keys.nameOf? text).bind members.idxOf? = some i) :
      Denotes m view type (.string text) (.enum i)
  | int {members : List String} {values : Labels Int64} {x : Int64} {i : Nat}
      (seen : view = .representation) (body : m.schema.body type = .enum members (.int values))
      (found : (values.nameOf? x).bind members.idxOf? = some i) :
      Denotes m view type (.int x) (.enum i)
  | joined {fields : List (Field TypeId)} {separator text : String}
      (seen : view = .representation)
      (body : m.schema.body type = .struct fields (.stringjoin separator))
      (arity : (Text.split separator text).length = fields.length) :
      Denotes m view type (.string text) (.struct ((Text.split separator text).mapIdx
        fun i part => ⟨m.fieldLayout type i, .value (.scalar (.string part))⟩))

variable {m : Model} {view : View} {type : TypeId} {a : Scalar} {v : Value}

theorem Denotes.ofScalar (h : m.Denotes view type a v) : m.ofScalar view type a = .ok v := by
  cases h with
  | scalar body => simp [Model.ofScalar, body]
  | name seen body found => simp [Model.ofScalar, body, seen, Schema.enumMember, found]
  | text seen body found =>
    simp [Model.ofScalar, body, seen, Schema.enumMember, EnumRepr.ofText?, found]
  | int seen body found =>
    simp [Model.ofScalar, body, seen, Schema.enumMember, EnumRepr.ofInt?, found]
  | joined seen body arity => simp [Model.ofScalar, body, seen, Model.joined, arity]

theorem denotes_of_enumMember {members : List String} {repr : EnumRepr}
    (body : m.schema.body type = .enum members repr)
    (h : m.schema.enumMember view type members repr a = .ok v) : m.Denotes view type a v := by
  rw [Schema.enumMember.eq_def] at h
  dsimp only at h
  split at h
  · split at h
    · cases h
      exact .name rfl body ‹_›
    · contradiction
  · split at h
    · cases h
      exact .text rfl body ‹_›
    · contradiction
  · split at h
    · cases h
      exact .int rfl body ‹_›
    · contradiction
  · contradiction

/-- **A scalar is taken for a value exactly if it stands for it.** -/
theorem ofScalar_eq_ok_iff : m.ofScalar view type a = .ok v ↔ m.Denotes view type a v := by
  refine ⟨fun h => ?_, Denotes.ofScalar⟩
  rw [Model.ofScalar.eq_def] at h
  split at h
  · rename_i kind body
    split at h
    · rename_i hk
      cases h
      exact .scalar (body.trans (by rw [hk]))
    · contradiction
  · rename_i members repr body
    exact denotes_of_enumMember body h
  · rename_i fields separator body
    split at h
    · rw [Model.joined] at h
      split at h
      · cases h
        exact .joined rfl body ‹_›
      · contradiction
    · contradiction
  · contradiction

theorem filterMap_text?_joined (layout : Nat → Layout) (parts : List String) :
    (parts.mapIdx fun i part => (⟨layout i, .value (.scalar (.string part))⟩ : Slot Value)).filterMap
      Slot.text? = parts := by
  induction parts generalizing layout with
  | nil => rfl
  | cons p parts ih =>
    rw [List.mapIdx_cons, List.filterMap_cons]
    exact congrArg (p :: ·) (ih fun i => layout (i + 1))

theorem fits_joined {s : Schema} (valid : s.Valid) {fields : List (Field TypeId)}
    {separator : String} (body : s.body type = .struct fields (.stringjoin separator))
    (layout : Nat → Layout) {parts : List String} (length : parts.length = fields.length) :
    s.Fits type (.struct (parts.mapIdx fun i part =>
      ⟨layout i, .value (.scalar (.string part))⟩)) := by
  refine (Schema.fits_struct_iff body).mpr ⟨by rw [List.length_mapIdx, length], ?_⟩
  rintro ⟨f, slot⟩ hp
  obtain ⟨i, hi, rfl⟩ := List.mem_mapIdx.mp (List.of_mem_zip hp).2
  exact .scalar ((valid.joined body).2.2 f (List.of_mem_zip hp).1).2.2

/-- **The value that a scalar stands for is one of the type.** -/
theorem Denotes.fits (valid : m.schema.Valid) (h : m.Denotes view type a v) :
    m.schema.Fits type v := by
  cases h with
  | scalar body => exact .scalar body
  | name seen body found =>
    exact .enum body (List.findIdx?_eq_some_iff_getElem.mp found).1
  | text seen body found =>
    obtain ⟨name, -, found⟩ := Option.bind_eq_some_iff.mp found
    exact .enum body (List.findIdx?_eq_some_iff_getElem.mp found).1
  | int seen body found =>
    obtain ⟨name, -, found⟩ := Option.bind_eq_some_iff.mp found
    exact .enum body (List.findIdx?_eq_some_iff_getElem.mp found).1
  | joined seen body arity => exact fits_joined valid body (m.fieldLayout type) arity

/-- **Read through the same view, the value shows the scalar again.** -/
theorem Denotes.read (valid : m.schema.Valid)
    (once : view = .representation → m.schema.RenamesOnce)
    (h : m.Denotes view type a v) : m.schema.read view type v = .scalar a := by
  cases h with
  | scalar body => simp [Schema.read, body]
  | name seen body found =>
    have hm := (idxOf?_eq_some_iff_of_nodup (valid.enum_nodup body)).mp found
    simp [Schema.read, body, seen, Schema.readEnum, hm]
  | @text members keys text i seen body found =>
    obtain ⟨name, hn, found⟩ := Option.bind_eq_some_iff.mp found
    have hm := (idxOf?_eq_some_iff_of_nodup (valid.enum_nodup body)).mp found
    have hk := Renaming.keyOf_of_nameOf? ((once seen).enum body) hn
    simp [Schema.read, body, seen, Schema.readEnum, EnumRepr.scalar?, EnumRepr.text?, hm, hk]
  | int seen body found =>
    obtain ⟨name, hn, found⟩ := Option.bind_eq_some_iff.mp found
    have hm := (idxOf?_eq_some_iff_of_nodup (valid.enum_nodup body)).mp found
    have hl := (valid.enum_values body).labelOf?_iff_nameOf?.mpr hn
    simp [Schema.read, body, seen, Schema.readEnum, EnumRepr.scalar?, EnumRepr.text?,
      EnumRepr.int?, hm, hl]
  | joined seen body arity =>
    simp only [Schema.read, body, seen, Schema.readStruct, filterMap_text?_joined,
      Text.join_split (valid.joined body).1]

/-- The text that represents a key. -/
theorem keyText_eq_ok_iff {text : String} :
    m.keyText type v = .ok text ↔ m.schema.Text type v text := by
  rw [keyText, mapError_eq_ok_iff]
  rfl

end Model

theorem Schema.text_iff_read {s : Schema} {type : TypeId} {v : Value} {text : String} :
    s.Text type v text ↔ s.read .representation type v = .scalar (.string text) := by
  rw [Schema.Text, Node.asString, Node.scalar?, TypedNode.reading]
  dsimp only
  cases h : s.read .representation type v with
  | scalar a => cases a <;> simp
  | _ => simp

end DualView
