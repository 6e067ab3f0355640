import DualView.Proofs.Assembly.Refusals

/-!
# Content of another kind

Decoding goes through a data tree from the left and stops at the first place that does not take what
stands there.  If that is content of a kind that is refused, the error is that of a representation
which does not fit; only at the key of a field that is given as a pair, it is that of a call.

* `Opening.Meets`: a copy comes to a part of a tree.
* `Opening.copy_kind_error_iff`: a copy fails for a kind exactly if it comes to what is rejected.
* `Opening.Decodes`: what there may be to decode at an opening.
* `Prototype.fromRepresentation_kind_error`: what decoding answers to content of another kind.
-/

namespace DualView

/-! ## Coming to a part of a tree -/

namespace Opening

mutual

/-- A copy into an opening comes to a part of the tree, for which it has another opening. -/
inductive Meets (m : Model) : Opening → Tree → Opening → Tree → Prop
  | here (o : Opening) (t : Tree) : Meets m o t o t
  | list {o o' : Opening} {f : ListFrame} {items : List Tree} {x : Tree}
      (begun : o.openList m = .ok f) (below : ItemsMeet m f items o' x) :
      Meets m o (.list items) o' x
  | map {o o' : Opening} {f : MapFrame} {entries : List (Tree × Tree)} {x : Tree}
      (begun : o.openMap m = .ok f) (below : EntriesMeet m f entries o' x) :
      Meets m o (.map entries) o' x

/-- The part is in one of the items, and those before it are in place. -/
inductive ItemsMeet (m : Model) : ListFrame → List Tree → Opening → Tree → Prop
  | first {f f' : ListFrame} {o o' : Opening} {t x : Tree} {rest : List Tree}
      (opened : f.item m = .ok (f', o)) (below : Meets m o t o' x) :
      ItemsMeet m f (t :: rest) o' x
  | later {f f' : ListFrame} {o o' : Opening} {t x : Tree} {rest : List Tree} {piece : Piece}
      (opened : f.item m = .ok (f', o)) (copied : o.copy m t = .ok piece)
      (below : ItemsMeet m (f'.place piece) rest o' x) : ItemsMeet m f (t :: rest) o' x

/-- The part is in a key or a value of one of the entries, and what is before it is in place. -/
inductive EntriesMeet (m : Model) : MapFrame → List (Tree × Tree) → Opening → Tree → Prop
  | key {f f' : MapFrame} {o o' : Opening} {k t x : Tree} {rest : List (Tree × Tree)}
      (opened : f.key m = .ok (f', o)) (below : Meets m o k o' x) :
      EntriesMeet m f ((k, t) :: rest) o' x
  | value {f f₁ f₂ : MapFrame} {o₁ o₂ o' : Opening} {k t x : Tree} {rest : List (Tree × Tree)}
      {key : Piece} (opened : f.key m = .ok (f₁, o₁)) (known : o₁.copy m k = .ok key)
      (opened' : (f₁.place key).value m = .ok (f₂, o₂)) (below : Meets m o₂ t o' x) :
      EntriesMeet m f ((k, t) :: rest) o' x
  | later {f f₁ f₂ : MapFrame} {o₁ o₂ o' : Opening} {k t x : Tree} {rest : List (Tree × Tree)}
      {key piece : Piece} (opened : f.key m = .ok (f₁, o₁)) (known : o₁.copy m k = .ok key)
      (opened' : (f₁.place key).value m = .ok (f₂, o₂)) (copied : o₂.copy m t = .ok piece)
      (below : EntriesMeet m (f₂.place piece) rest o' x) : EntriesMeet m f ((k, t) :: rest) o' x

end

variable {m : Model} {e : NodeError}

mutual

/-- **A copy that comes to a part fails for whatever that part fails for.** -/
theorem Meets.error {o o' : Opening} {t x : Tree} (failed : o'.copy m x = .error e) :
    Meets m o t o' x → o.copy m t = .error e
  | .here _ _ => failed
  | .list begun below => by
    rw [copy]
    exact bind_error_of_ok begun (bind_error (below.error failed))
  | .map begun below => by
    rw [copy]
    exact bind_error_of_ok begun (bind_error (below.error failed))

theorem ItemsMeet.error {f : ListFrame} {items : List Tree} {o' : Opening} {x : Tree}
    (failed : o'.copy m x = .error e) : ItemsMeet m f items o' x → copyItems m f items = .error e
  | .first opened below => by
    rw [copyItems]
    exact bind_error_of_ok opened (bind_error (below.error failed))
  | .later opened copied below => by
    rw [copyItems]
    exact bind_error_of_ok opened (bind_error_of_ok copied (below.error failed))

theorem EntriesMeet.error {f : MapFrame} {entries : List (Tree × Tree)} {o' : Opening} {x : Tree}
    (failed : o'.copy m x = .error e) :
    EntriesMeet m f entries o' x → copyEntries m f entries = .error e
  | .key opened below => by
    rw [copyEntries]
    exact bind_error_of_ok opened (bind_error (below.error failed))
  | .value opened known opened' below => by
    rw [copyEntries]
    refine bind_error_of_ok opened (bind_error_of_ok known ?_)
    exact bind_error_of_ok opened' (bind_error (below.error failed))
  | .later opened known opened' copied below => by
    rw [copyEntries]
    refine bind_error_of_ok opened (bind_error_of_ok known ?_)
    exact bind_error_of_ok opened' (bind_error_of_ok copied (below.error failed))

end

mutual

/-- Where a copy fails for a kind, it has come to what is rejected for it. -/
theorem exists_rejected (valid : m.schema.Valid) (ofKind : e.OfKind) (o : Opening) :
    (t : Tree) → o.copy m t = .error e → ∃ o' x, Meets m o t o' x ∧ o'.Rejects m x e
  | .null, failed => ((o.null_proper m.schema).not_ofKind failed ofKind).elim
  | .scalar a, failed => ⟨o, .scalar a, .here _ _, failed, ofKind⟩
  | .list items, failed => by
    obtain begun | ⟨f, begun, failed⟩ := bind_eq_error_iff.mp failed
    · exact ⟨o, .list items, .here _ _, begun, ofKind⟩
    have ready : f.Ready := (ListFrame.openList_proper o).of_ok begun
    obtain failed | ⟨f', run, failed⟩ := bind_eq_error_iff.mp failed
    · obtain ⟨o', x, meets, rejects⟩ := exists_rejected_item valid ofKind items ready failed
      exact ⟨o', x, .list begun meets, rejects⟩
    · have ready' : f'.Ready := (copyItems_proper valid items ready).of_ok run
      exact ((ListFrame.close_proper ready').not_ofKind failed ofKind).elim
  | .map entries, failed => by
    obtain begun | ⟨f, begun, failed⟩ := bind_eq_error_iff.mp failed
    · exact ⟨o, .map entries, .here _ _, begun, ofKind⟩
    have ready : f.Ready m.schema := (MapFrame.openMap_proper o).of_ok begun
    obtain failed | ⟨f', run, failed⟩ := bind_eq_error_iff.mp failed
    · obtain ⟨o', x, meets, rejects⟩ := exists_rejected_entry valid ofKind entries ready failed
      exact ⟨o', x, .map begun meets, rejects⟩
    · have ready' : f'.Ready m.schema := (copyEntries_proper valid entries ready).of_ok run
      exact ((MapFrame.close_proper ready').not_ofKind failed ofKind).elim

theorem exists_rejected_item (valid : m.schema.Valid) (ofKind : e.OfKind) {f : ListFrame} :
    (items : List Tree) → f.Ready → copyItems m f items = .error e →
      ∃ o' x, ItemsMeet m f items o' x ∧ o'.Rejects m x e
  | t :: rest, ready, failed => by
    have proper := ListFrame.item_proper valid ready
    obtain failed | ⟨⟨f', o⟩, opened, failed⟩ := bind_eq_error_iff.mp failed
    · exact (proper.not_ofKind failed ofKind).elim
    obtain failed | ⟨piece, copied, failed⟩ := bind_eq_error_iff.mp failed
    · obtain ⟨o', x, meets, rejects⟩ := exists_rejected valid ofKind o t failed
      exact ⟨o', x, .first opened meets, rejects⟩
    · have ready' := proper.of_ok opened t piece copied
      obtain ⟨o', x, meets, rejects⟩ := exists_rejected_item valid ofKind rest ready' failed
      exact ⟨o', x, .later opened copied meets, rejects⟩

theorem exists_rejected_entry (valid : m.schema.Valid) (ofKind : e.OfKind) {f : MapFrame} :
    (entries : List (Tree × Tree)) → f.Ready m.schema → copyEntries m f entries = .error e →
      ∃ o' x, EntriesMeet m f entries o' x ∧ o'.Rejects m x e
  | (k, t) :: rest, ready, failed => by
    have proper := MapFrame.key_proper valid ready
    obtain failed | ⟨⟨f₁, o₁⟩, opened, failed⟩ := bind_eq_error_iff.mp failed
    · exact (proper.not_ofKind failed ofKind).elim
    obtain failed | ⟨key, known, failed⟩ := bind_eq_error_iff.mp failed
    · obtain ⟨o', x, meets, rejects⟩ := exists_rejected valid ofKind o₁ k failed
      exact ⟨o', x, .key opened meets, rejects⟩
    have proper' := MapFrame.value_proper valid (proper.of_ok opened k key known)
    obtain failed | ⟨⟨f₂, o₂⟩, opened', failed⟩ := bind_eq_error_iff.mp failed
    · exact (proper'.not_ofKind failed ofKind).elim
    obtain failed | ⟨piece, copied, failed⟩ := bind_eq_error_iff.mp failed
    · obtain ⟨o', x, meets, rejects⟩ := exists_rejected valid ofKind o₂ t failed
      exact ⟨o', x, .value opened known opened' meets, rejects⟩
    · have ready' := proper'.of_ok opened' t piece copied
      obtain ⟨o', x, meets, rejects⟩ := exists_rejected_entry valid ofKind rest ready' failed
      exact ⟨o', x, .later opened known opened' copied meets, rejects⟩

end

/-- **A copy fails for a kind exactly if it comes to what is rejected for its kind.** -/
theorem copy_kind_error_iff (valid : m.schema.Valid) (o : Opening) (t : Tree) :
    o.copy m t = .error e ∧ e.OfKind ↔ ∃ o' x, Meets m o t o' x ∧ o'.Rejects m x e := by
  constructor
  · rintro ⟨failed, ofKind⟩
    exact exists_rejected valid ofKind o t failed
  · rintro ⟨o', x, meets, rejects⟩
    exact ⟨meets.error rejects.error.1, rejects.error.2⟩

end Opening

/-! ## Decoding -/

/-- What there may be to decode at an opening: at the name of a field or member, anything if it is
the key of a pair, but else text, since the keys of data trees are text. -/
inductive Opening.Decodes (s : Schema) : Opening → Datum → Prop
  | value (type : TypeId) (nullable : Bool) (d : Datum) :
      Decodes s ⟨.value type, .representation, nullable⟩ d
  | pair {owner : TypeId} {keys : Renaming} {fields : List (Field TypeId)}
      (body : s.body owner = .struct fields (.listpairs keys)) (slots : List (Slot Value))
      (d : Datum) : Decodes s ⟨.pair owner keys fields slots, .representation, false⟩ d
  | key {owner : TypeId} {keys : Renaming} {fields : List (Field TypeId)}
      (body : s.body owner = .struct fields (.listpairs keys)) (d : Datum) :
      Decodes s ⟨.name owner, .representation, false⟩ d
  | name (owner : TypeId) (text : String) :
      Decodes s ⟨.name owner, .representation, false⟩ (.scalar (.string text))

/-- A list that is decoded; pairs belong to a struct that is represented as pairs. -/
structure ListFrame.Decodes (s : Schema) (f : ListFrame) : Prop where
  seen : f.view = .representation
  pairs : match f.content with
    | .pairs keys fields _ | .pair keys fields _ _ =>
      s.body f.type = .struct fields (.listpairs keys)
    | _ => True

namespace ListFrame

variable {m : Model} {f f' : ListFrame} {o : Opening}

theorem openList_decodes {d : Datum} (h : o.Decodes m.schema d) (begun : o.openList m = .ok f) :
    f.Decodes m.schema := by
  cases h with
  | value type nullable d =>
    obtain ⟨member, target, content, -, hcontent, rfl⟩ := Opening.openList_eq_ok_iff.mp begun
    refine ⟨rfl, ?_⟩
    cases Model.listContent?_eq_some_iff.mp hcontent with
    | items body => trivial
    | tuple body seen => trivial
    | pairs body seen => exact body
  | pair body slots d =>
    cases begun
    exact ⟨rfl, body⟩
  | key body d => contradiction
  | name owner text => contradiction

theorem place_decodes {s : Schema} (h : f.Decodes s) (piece : Piece) :
    (f.place piece).Decodes s := by
  obtain ⟨type, view, member, content, busy⟩ := f
  obtain ⟨seen, pairs⟩ := h
  rw [place.eq_def]
  dsimp only
  split <;> exact ⟨seen, pairs⟩

theorem item_decodes (h : f.Decodes m.schema) (opened : f.item m = .ok (f', o)) :
    f'.Decodes m.schema ∧ ∀ d, o.Decodes m.schema d := by
  obtain ⟨type, view, member, content, busy⟩ := f
  obtain ⟨rfl, pairs⟩ := h
  cases content with
  | items elem nullable layout slots =>
    obtain ⟨-, -, opened⟩ := bind_eq_ok_iff.mp opened
    cases opened
    exact ⟨⟨rfl, trivial⟩, fun d => .value _ _ d⟩
  | tuple fields slots next =>
    obtain ⟨-, -, opened⟩ := bind_eq_ok_iff.mp opened
    dsimp only at opened
    split at opened
    · cases opened
      exact ⟨⟨rfl, trivial⟩, fun d => .value _ _ d⟩
    · contradiction
  | pairs keys fields slots =>
    obtain ⟨-, -, opened⟩ := bind_eq_ok_iff.mp opened
    cases opened
    exact ⟨⟨rfl, pairs⟩, fun d => .pair pairs _ d⟩
  | pair keys fields slots stage =>
    cases stage with
    | empty =>
      cases opened
      exact ⟨⟨rfl, pairs⟩, fun d => .key pairs d⟩
    | keyed key =>
      obtain ⟨⟨i, o'⟩, field, opened⟩ := bind_eq_ok_iff.mp opened
      cases opened
      obtain ⟨-, g, slot, -, -, -, rfl⟩ := Schema.openField_eq_ok_iff.mp field
      exact ⟨⟨rfl, pairs⟩, fun d => .value _ _ d⟩
    | _ => contradiction

end ListFrame

namespace MapFrame

variable {m : Model} {f f' : MapFrame} {o : Opening}

theorem openMap_view {d : Datum} (h : o.Decodes m.schema d) (begun : o.openMap m = .ok f) :
    f.view = .representation := by
  cases h with
  | value type nullable d =>
    obtain ⟨member, target, content, -, -, rfl⟩ := Opening.openMap_eq_ok_iff.mp begun
    rfl
  | pair body slots d => contradiction
  | key body d => contradiction
  | name owner text => contradiction

@[simp] theorem place_view (f : MapFrame) (piece : Piece) : (f.place piece).view = f.view := by
  rw [place.eq_def]
  split <;> rfl

theorem key_decodes (seen : f.view = .representation) (opened : f.key m = .ok (f', o)) :
    f'.view = .representation ∧ ∀ text, o.Decodes m.schema (.scalar (.string text)) := by
  obtain ⟨type, view, member, content, phase⟩ := f
  obtain rfl : view = .representation := seen
  obtain ⟨-, -, opened⟩ := bind_eq_ok_iff.mp opened
  cases opened
  cases content with
  | entries kt vt nullable layout dict => exact ⟨rfl, fun text => .value _ _ _⟩
  | fields fields repr slots => exact ⟨rfl, fun text => .name _ _⟩
  | choice members repr present => exact ⟨rfl, fun text => .name _ _⟩

theorem openNamed_decodes {key : String} (seen : f.view = .representation)
    (opened : f.openNamed m key = .ok (f', o)) :
    f'.view = .representation ∧ ∀ d, o.Decodes m.schema d := by
  obtain ⟨type, view, member, content, phase⟩ := f
  obtain rfl : view = .representation := seen
  cases content with
  | entries kt vt nullable layout dict => contradiction
  | fields fields repr slots =>
    obtain ⟨⟨i, o'⟩, named, opened⟩ := bind_eq_ok_iff.mp opened
    cases opened
    obtain ⟨-, g, slot, -, -, -, rfl⟩ := Schema.openField_eq_ok_iff.mp named
    exact ⟨rfl, fun d => .value _ _ d⟩
  | choice members repr present =>
    obtain ⟨⟨i, o'⟩, named, opened⟩ := bind_eq_ok_iff.mp opened
    cases opened
    obtain ⟨-, -, target, -, rfl⟩ := Schema.openMember_eq_ok_iff.mp named
    exact ⟨rfl, fun d => .value _ _ d⟩

theorem value_decodes (seen : f.view = .representation) (opened : f.value m = .ok (f', o)) :
    f'.view = .representation ∧ ∀ d, o.Decodes m.schema d := by
  rw [value.eq_def] at opened
  split at opened
  · split at opened
    · rw [openEntry, bind_eq_ok_iff] at opened
      obtain ⟨text, -, opened⟩ := opened
      split at opened
      · contradiction
      · cases opened
        refine ⟨seen, fun d => ?_⟩
        rw [seen]
        exact .value _ _ d
    · exact openNamed_decodes seen opened
    · contradiction
  · contradiction

end MapFrame

namespace Opening

variable {m : Model} {e : NodeError}

mutual

/-- **What decoding a data tree comes to is a data tree**, at an opening where there may be one. -/
theorem Meets.decodes {o o' : Opening} {t x : Tree} :
    Meets m o t o' x → ∀ d : Datum, t = d.tree → o.Decodes m.schema d →
      ∃ d', x = d'.tree ∧ o'.Decodes m.schema d'
  | .here _ _, d, shown, decodes => ⟨d, shown, decodes⟩
  | .list begun below, d, shown, decodes => by
    obtain ⟨ds, -, shown⟩ := Datum.tree_eq_list_iff.mp shown.symm
    exact below.decodes ds shown.symm (ListFrame.openList_decodes decodes begun)
  | .map begun below, d, shown, decodes => by
    obtain ⟨ps, -, shown⟩ := Datum.tree_eq_map_iff.mp shown.symm
    exact below.decodes ps shown.symm (MapFrame.openMap_view decodes begun)

theorem ItemsMeet.decodes {f : ListFrame} {items : List Tree} {o' : Opening} {x : Tree} :
    ItemsMeet m f items o' x → ∀ ds : List Datum, items = ds.map Datum.tree →
      f.Decodes m.schema → ∃ d', x = d'.tree ∧ o'.Decodes m.schema d'
  | .first opened below, ds, shown, decodes => by
    obtain ⟨d, -, -, shown, -⟩ := List.map_eq_cons_iff.mp shown.symm
    exact below.decodes d shown.symm ((ListFrame.item_decodes decodes opened).2 d)
  | .later opened _ below, ds, shown, decodes => by
    obtain ⟨-, ds, -, -, shown⟩ := List.map_eq_cons_iff.mp shown.symm
    have decodes' := (ListFrame.item_decodes decodes opened).1
    exact below.decodes ds shown.symm (ListFrame.place_decodes decodes' _)

theorem EntriesMeet.decodes {f : MapFrame} {entries : List (Tree × Tree)} {o' : Opening}
    {x : Tree} : EntriesMeet m f entries o' x → ∀ ps : List (String × Datum),
      entries = ps.map Datum.entryTree → f.view = .representation →
        ∃ d', x = d'.tree ∧ o'.Decodes m.schema d'
  | .key opened below, ps, shown, seen => by
    obtain ⟨p, -, -, shown, -⟩ := List.map_eq_cons_iff.mp shown.symm
    have shown' := (Prod.mk.inj shown).1.symm.trans (Datum.tree_scalar (.string p.1)).symm
    exact below.decodes _ shown' ((MapFrame.key_decodes seen opened).2 p.1)
  | .value opened _ opened' below, ps, shown, seen => by
    obtain ⟨p, -, -, shown, -⟩ := List.map_eq_cons_iff.mp shown.symm
    have seen' := (MapFrame.key_decodes seen opened).1
    rw [← MapFrame.place_view] at seen'
    exact below.decodes p.2 (Prod.mk.inj shown).2.symm
      ((MapFrame.value_decodes seen' opened').2 p.2)
  | .later opened _ opened' _ below, ps, shown, seen => by
    obtain ⟨-, ps, -, -, shown⟩ := List.map_eq_cons_iff.mp shown.symm
    have seen' := (MapFrame.key_decodes seen opened).1
    rw [← MapFrame.place_view] at seen'
    have seen'' := (MapFrame.value_decodes seen' opened').1
    rw [← MapFrame.place_view] at seen''
    exact below.decodes ps shown.symm seen''

end

/-- **Where a data tree is decoded, it is rejected exactly if its kind is refused.** -/
theorem rejects_iff {o : Opening} {d : Datum} (decodes : o.Decodes m.schema d) :
    o.Rejects m d.tree e ↔ d.kind ≠ .null ∧ o.Refuses m.schema d.kind e := by
  rw [← Datum.kind_tree]
  cases decodes with
  | value type nullable d => exact rejects_value_iff
  | pair body slots d => exact rejects_pair_iff
  | key body d => exact rejects_name_iff
  | name owner text => exact rejects_name_iff

end Opening

namespace Sample

def settingTypes : TypeSystem := ⟨
  [ ⟨"Text", .scalar .string⟩,
    ⟨"Setting", .struct [⟨"name", "Text", false, false⟩] (.listpairs .none)⟩ ]⟩

def settingSchema : Schema := ⟨
  [ ⟨"Text", .scalar .string⟩,
    ⟨"Setting", .struct [⟨"name", 0, false, false⟩] (.listpairs .none)⟩ ]⟩

def settingModel : Model := ⟨settingSchema, .empty,
  [ ⟨.embedded, [], false⟩, ⟨.indirect, [.embedded], false⟩ ]⟩

def settingPrototype : Prototype := ⟨settingModel, 1, .representation⟩

theorem finalize_settings : settingTypes.finalize = .ok settingSchema := rfl

theorem compile_settings : settingSchema.compile .empty = .ok settingModel := by
  have layouts : (List.range settingSchema.size).mapM (settingSchema.typeLayout .empty) =
      .ok settingModel.layouts := by
    decide +kernel
  rw [Schema.compile, layouts]
  rfl

def settingPair : Opening :=
  ⟨.pair 1 .none [⟨"name", 0, false, false⟩] [⟨.embedded, .absent⟩], .representation, false⟩

def misplacedPair : Datum := .list [.scalar (.int 1)]

def misplacedKey : Datum := .list [.list [.scalar (.int 1), .scalar (.string "x")]]

end Sample

namespace Prototype

variable {p : Prototype}

theorem fromRepresentation_error_iff {n : Node} {e : NodeError} (ofKind : e.OfKind) :
    p.fromRepresentation n = .error e ↔
      (p.inView .representation).root.copy p.model n.tree = .error e := by
  rw [fromRepresentation, buildFrom, bind_eq_error_iff]
  refine or_iff_left ?_
  rintro ⟨piece, -, unfinished⟩
  rw [finish.eq_def] at unfinished
  split at unfinished
  · contradiction
  · cases unfinished
    cases ofKind

/-- **Decoding fails for a kind exactly if it comes to content of a kind that is refused there.**
The error is that of a representation, except at the key of a field that is given as a pair: what
stands there and is not text, is answered like a call that does not fit. -/
theorem fromRepresentation_kind_error {ts : TypeSystem} {s : Schema} {c : Config}
    (frozen : ts.finalize = .ok s) (compiled : s.compile c = .ok p.model) (d : Datum) :
    (∀ e, p.fromRepresentation (.basic d) = .error e ∧ e.OfKind ↔
      ∃ (o : Opening) (x : Datum), (p.inView .representation).root.Meets p.model d.tree o x.tree ∧
        x.kind ≠ .null ∧ o.Refuses s x.kind e) ∧
    ∀ name expected found,
      p.fromRepresentation (.basic d) = .error (.assembly (.kindMismatch name expected found)) ↔
        ∃ owner fields keys, ∃ x : Datum, s.body owner = .struct fields (.listpairs keys) ∧
          (p.inView .representation).root.Meets p.model d.tree
            ⟨.name owner, .representation, false⟩ x.tree ∧
          x.kind ≠ .null ∧ x.kind ≠ .scalar .string ∧
          name = s.nameOf owner ∧ expected = .scalar .string ∧ found = x.kind := by
  obtain rfl := Schema.schema_of_compile compiled
  have valid := Schema.valid_of_finalize frozen
  have decodes {o : Opening} {t : Tree}
      (meets : (p.inView .representation).root.Meets p.model d.tree o t) :
      ∃ x, t = x.tree ∧ o.Decodes p.model.schema x :=
    meets.decodes d rfl (.value _ _ d)
  have refused (e : NodeError) : p.fromRepresentation (.basic d) = .error e ∧ e.OfKind ↔
      ∃ (o : Opening) (x : Datum), (p.inView .representation).root.Meets p.model d.tree o x.tree ∧
        x.kind ≠ .null ∧ o.Refuses p.model.schema x.kind e := by
    rw [and_congr_left fromRepresentation_error_iff]
    refine (Opening.copy_kind_error_iff valid _ _).trans ⟨?_, ?_⟩
    · rintro ⟨o, t, meets, rejects⟩
      obtain ⟨x, rfl, known⟩ := decodes meets
      exact ⟨o, x, meets, (Opening.rejects_iff known).mp rejects⟩
    · rintro ⟨o, x, meets, refuses⟩
      obtain ⟨x', same, known⟩ := decodes meets
      obtain rfl := Datum.tree_injective x x' same
      exact ⟨o, x.tree, meets, (Opening.rejects_iff known).mpr refuses⟩
  refine ⟨refused, fun name expected found => ?_⟩
  constructor
  · intro failed
    obtain ⟨o, x, meets, present, refuses⟩ := (refused _).mp ⟨failed, .kindMismatch _ _ _⟩
    obtain ⟨x', same, known⟩ := decodes meets
    obtain rfl := Datum.tree_injective x x' same
    cases refuses with
    | key other =>
      cases known with
      | key body _ => exact ⟨_, _, _, x, body, meets, present, other, rfl, rfl, rfl⟩
      | name owner text => exact absurd rfl other
  · rintro ⟨owner, fields, keys, x, -, meets, present, other, rfl, rfl, rfl⟩
    exact ((refused _).mpr ⟨_, x, meets, present, .key other⟩).1

/-- An int in the place of a pair, and one in the place of its key. -/
theorem fromRepresentation_kind_error_settings :
    Sample.settingTypes.finalize = .ok Sample.settingSchema ∧
      Sample.settingSchema.compile .empty = .ok Sample.settingPrototype.model ∧
      Sample.settingPrototype.fromRepresentation (.basic Sample.misplacedPair) =
        .error (.representation (.mismatch "Setting" .list (.scalar .int))) ∧
      Sample.settingPrototype.fromRepresentation (.basic Sample.misplacedKey) =
        .error (.assembly (.kindMismatch "Setting" (.scalar .string) (.scalar .int))) := by
  have decoding := fromRepresentation_kind_error (p := Sample.settingPrototype)
    Sample.finalize_settings Sample.compile_settings
  refine ⟨Sample.finalize_settings, Sample.compile_settings, ?_, ?_⟩
  · have refused : Sample.settingPair.Refuses Sample.settingSchema (.scalar .int)
        (.representation (.mismatch "Setting" .list (.scalar .int))) := .pair nofun
    refine (((decoding Sample.misplacedPair).1 _).mpr
      ⟨Sample.settingPair, .scalar (.int 1), ?_, nofun, refused⟩).1
    rw [Sample.misplacedPair, Datum.tree_list]
    exact .list rfl (.first rfl (.here _ _))
  · refine ((decoding Sample.misplacedKey).2 _ _ _).mpr
      ⟨1, _, _, .scalar (.int 1), rfl, ?_, nofun, nofun, rfl, rfl, rfl⟩
    rw [Sample.misplacedKey, Datum.tree_list, List.map_singleton, Datum.tree_list]
    exact .list rfl (.first rfl (.list rfl (.first rfl (.here _ _))))

/-- The key of a pair must be text, yet an int there is not answered as a representation that does
not fit. -/
theorem fromRepresentation_misplaced_key :
    Sample.settingTypes.finalize = .ok Sample.settingSchema ∧
      Sample.settingSchema.compile .empty = .ok Sample.settingPrototype.model ∧
      Sample.settingPrototype.fromRepresentation (.basic Sample.misplacedKey) ≠
        .error (.representation (.mismatch "Setting" (.scalar .string) (.scalar .int))) ∧
      Sample.settingPrototype.fromRepresentation (.basic Sample.misplacedKey) =
        .error (.assembly (.kindMismatch "Setting" (.scalar .string) (.scalar .int))) := by
  have failed : Sample.settingPrototype.fromRepresentation (.basic Sample.misplacedKey) =
      .error (.assembly (.kindMismatch "Setting" (.scalar .string) (.scalar .int))) := by
    have shown : (Node.basic Sample.misplacedKey).tree =
        .list [.list [.scalar (.int 1), .scalar (.string "x")]] := by
      change Sample.misplacedKey.tree = _
      simp [Sample.misplacedKey]
    rw [fromRepresentation_error_iff (.kindMismatch _ _ _), shown]
    rfl
  refine ⟨Sample.finalize_settings, Sample.compile_settings, ?_, failed⟩
  rw [failed]
  nofun

end Prototype

end DualView
