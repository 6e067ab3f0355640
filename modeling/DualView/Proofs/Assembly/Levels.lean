import DualView.Proofs.Assembly.Soundness

/-!
# Levels of a tree

Copying a tree into an opening takes one step of a frame after another.  Seen from outside, one
level of the tree makes one level of the value: `Model.Builds` has one constructor for each way in
which a level is made, and says nothing of frames, phases or the order of checks.

* `Model.Copies`: a tree copies to a value, or to a null.
* `Model.Builds`: a level of a tree builds a level of a value.
* `Opening.copyItems_cons_iff`, `Opening.copyEntries_cons_iff`: one item and one entry of a run.
-/

namespace DualView

/-! ## Levels -/

/-- A tree is copied where a type is expected. -/
def Model.Copies (m : Model) (view : View) (nullable : Bool) (type : TypeId) (t : Tree)
    (c : Option Value) : Prop :=
  Opening.copy m ⟨.value type, view, nullable⟩ t = .ok (.content c)

structure CopiedField where
  index : Nat
  tree : Tree
  content : Option Value

def CopiedField.given (p : CopiedField) : Nat × Option Value := (p.index, p.content)

@[simp] theorem CopiedField.given_mk (i : Nat) (t : Tree) (c : Option Value) :
    CopiedField.given ⟨i, t, c⟩ = (i, c) := rfl

@[simp] theorem map_given_index (ps : List CopiedField) :
    (ps.map CopiedField.given).map (·.1) = ps.map (·.index) :=
  List.map_map

structure CopiedEntry where
  keyTree : Tree
  tree : Tree
  key : Value
  text : String
  content : Option Value

def CopiedEntry.stored (layout : Layout) (e : CopiedEntry) : Entry Value :=
  ⟨e.key, e.text, ⟨layout, .given e.content⟩⟩

theorem StructRepr.keys_of_entryKeys? {view : View} {repr : StructRepr} {keys : Renaming} :
    repr.entryKeys? view = some keys →
      (match view with
        | .typed => Renaming.none
        | .representation => repr.keys?.getD .none) = keys := by
  intro h
  cases view with
  | typed => exact Option.some.inj h
  | representation =>
    cases repr with
    | map keys' => exact Option.some.inj h
    | _ => contradiction

/-- A tree shows fields of a struct, each at its position: under its key in a map, with its key in
a pair, or by its place in a list. -/
inductive ShowsFields (view : View) (fields : List (Field TypeId)) :
    StructRepr → Tree → List CopiedField → Prop
  | entries {repr : StructRepr} {keys : Renaming} {ks : List (String × CopiedField)}
      (keyed : repr.entryKeys? view = some keys)
      (found : ∀ p ∈ ks, Field.Found keys fields p.1 p.2.index) :
      ShowsFields view fields repr (.map (ks.map fun p => (.scalar (.string p.1), p.2.tree)))
        (ks.map (·.2))
  | pairs {keys : Renaming} {ks : List (String × CopiedField)} (seen : view = .representation)
      (found : ∀ p ∈ ks, Field.Found keys fields p.1 p.2.index) :
      ShowsFields view fields (.listpairs keys)
        (.list (ks.map fun p => .list [.scalar (.string p.1), p.2.tree])) (ks.map (·.2))
  | tuple {ps : List CopiedField} (seen : view = .representation)
      (places : ps.map (·.index) = List.range fields.length) :
      ShowsFields view fields .tuple (.list (ps.map (·.tree))) ps

/-- One level of a tree builds one level of a value of a type. -/
inductive Model.Builds (m : Model) (view : View) (type : TypeId) : Tree → Value → Prop
  | scalar {a : Scalar} {v : Value} (denotes : m.Denotes view type a v) :
      Builds m view type (.scalar a) v
  | list {elem : TypeId} {nullable : Bool} {ps : List (Tree × Option Value)}
      (body : m.schema.body type = .list elem nullable)
      (items : ∀ p ∈ ps, m.Copies view nullable elem p.1 p.2) :
      Builds m view type (.list (ps.map (·.1)))
        (.list (ps.map fun p => ⟨m.elementLayout elem nullable, .given p.2⟩))
  | map {key value : TypeId} {nullable : Bool} {nulls : NullPolicy} {es : List CopiedEntry}
      (body : m.schema.body type = .map key value nullable nulls)
      (keys : ∀ e ∈ es, m.Copies view false key e.keyTree (some e.key))
      (texts : ∀ e ∈ es, m.schema.Text key e.key e.text)
      (apart : (es.map (·.text)).Nodup)
      (values : ∀ e ∈ es, m.Copies view nullable value e.tree e.content) :
      Builds m view type (.map (es.map fun e => (e.keyTree, e.tree)))
        (.map ⟨es.map (CopiedEntry.stored (m.elementLayout value nullable))⟩)
  | struct {fields : List (Field TypeId)} {repr : StructRepr} {t : Tree} {ps : List CopiedField}
      (body : m.schema.body type = .struct fields repr)
      (shows : ShowsFields view fields repr t ps)
      (apart : (ps.map (·.index)).Nodup)
      (required : ∀ (i : Nat) f, fields[i]? = some f → f.optional = false → i ∈ ps.map (·.index))
      (values : ∀ p ∈ ps, ∀ f, fields[p.index]? = some f →
        m.Copies view f.nullable f.type p.tree p.content) :
      Builds m view type t
        (.struct (m.filled type fields (ps.map CopiedField.given)))
  | choice {members : List TypeId} {repr : UnionRepr} {key : String} {i : Nat} {member : TypeId}
      {t : Tree} {v : Value} (body : m.schema.body type = .union members repr)
      (found : m.schema.MemberFound view members repr key i)
      (at_member : members[i]? = some member)
      (value : m.Copies view false member t (some v)) :
      Builds m view type (.map [(.scalar (.string key), t)]) (.union i v)

namespace Opening

variable {m : Model} {view : View}

/-! ## Openings for values, names and pairs -/

theorem copy_list_iff {o : Opening} {items : List Tree} {piece : Piece} :
    o.copy m (.list items) = .ok piece ↔
      ∃ f f', o.openList m = .ok f ∧ copyItems m f items = .ok f' ∧ f'.close m = .ok piece := by
  rw [copy]
  simp only [bind_eq_ok_iff]
  constructor
  · rintro ⟨f, hf, f', hf', hc⟩
    exact ⟨f, f', hf, hf', hc⟩
  · rintro ⟨f, f', hf, hf', hc⟩
    exact ⟨f, hf, f', hf', hc⟩

theorem copy_map_iff {o : Opening} {entries : List (Tree × Tree)} {piece : Piece} :
    o.copy m (.map entries) = .ok piece ↔
      ∃ f f', o.openMap m = .ok f ∧ copyEntries m f entries = .ok f' ∧ f'.close m = .ok piece := by
  rw [copy]
  simp only [bind_eq_ok_iff]
  constructor
  · rintro ⟨f, hf, f', hf', hc⟩
    exact ⟨f, f', hf, hf', hc⟩
  · rintro ⟨f, f', hf, hf', hc⟩
    exact ⟨f, hf, f', hf', hc⟩

theorem copyItems_cons_iff {f f' : ListFrame} {t : Tree} {rest : List Tree} :
    copyItems m f (t :: rest) = .ok f' ↔
      ∃ f₁ o piece, f.item m = .ok (f₁, o) ∧ o.copy m t = .ok piece ∧
        copyItems m (f₁.place piece) rest = .ok f' := by
  rw [copyItems]
  simp only [bind_eq_ok_iff]
  constructor
  · rintro ⟨⟨f₁, o⟩, hi, piece, hp, hr⟩
    exact ⟨f₁, o, piece, hi, hp, hr⟩
  · rintro ⟨f₁, o, piece, hi, hp, hr⟩
    exact ⟨(f₁, o), hi, piece, hp, hr⟩

theorem copyEntries_cons_iff {f f' : MapFrame} {k t : Tree} {rest : List (Tree × Tree)} :
    copyEntries m f ((k, t) :: rest) = .ok f' ↔
      ∃ f₁ ok key f₂ o piece, f.key m = .ok (f₁, ok) ∧ ok.copy m k = .ok key ∧
        (f₁.place key).value m = .ok (f₂, o) ∧ o.copy m t = .ok piece ∧
        copyEntries m (f₂.place piece) rest = .ok f' := by
  rw [copyEntries]
  simp only [bind_eq_ok_iff]
  constructor
  · rintro ⟨⟨f₁, ok⟩, hk, key, hkp, ⟨f₂, o⟩, hv, piece, hp, hr⟩
    exact ⟨f₁, ok, key, f₂, o, piece, hk, hkp, hv, hp, hr⟩
  · rintro ⟨f₁, ok, key, f₂, o, piece, hk, hkp, hv, hp, hr⟩
    exact ⟨(f₁, ok), hk, key, hkp, (f₂, o), hv, piece, hp, hr⟩

theorem copy_value_content (valid : m.schema.Valid) {type : TypeId} {nullable : Bool} {t : Tree}
    {piece : Piece} (h : copy m ⟨.value type, view, nullable⟩ t = .ok piece) :
    ∃ c, piece = .content c := by
  cases t with
  | null =>
    rw [copy, null] at h
    split at h
    · cases h
      exact ⟨none, rfl⟩
    · contradiction
  | scalar a =>
    obtain ⟨v, -, rfl⟩ := map_eq_ok_iff.mp h
    exact ⟨some v, rfl⟩
  | list items =>
    obtain ⟨f, f', hf, hi, hc⟩ := copy_list_iff.mp h
    obtain ⟨hs, -⟩ := openList_sound hf
    obtain ⟨hs', hy⟩ := copyItems_sound valid items hs hi
    have hy := hy piece (ListFrame.close_yields hs' hc)
    obtain ⟨member, target, content, -, hcontent, rfl⟩ := openList_eq_ok_iff.mp hf
    have hpair := (listContent?_sound hcontent).2
    cases content with
    | pair keys fields slots stage => exact absurd rfl (hpair keys fields slots stage)
    | _ =>
      obtain ⟨v, -, rfl⟩ := hy
      exact ⟨_, rfl⟩
  | map entries =>
    obtain ⟨f, f', hf, hi, hc⟩ := copy_map_iff.mp h
    obtain ⟨-, -, hc⟩ := bind_eq_ok_iff.mp hc
    obtain ⟨v, -, hc⟩ := bind_eq_ok_iff.mp hc
    cases hc
    exact ⟨_, rfl⟩

/-- What is copied as the name of a field or member. -/
theorem copy_name_iff {owner : TypeId} {t : Tree} {piece : Piece} :
    copy m ⟨.name owner, view, false⟩ t = .ok piece ↔
      ∃ key, t = .scalar (.string key) ∧ piece = .content (some (.scalar (.string key))) := by
  cases t with
  | null => simp [copy, null]
  | scalar a => cases a <;> simp [copy, scalar, eq_comm]
  | list items => simp [copy_list_iff, openList]
  | map entries => simp [copy_map_iff, openMap]

end Opening

end DualView
