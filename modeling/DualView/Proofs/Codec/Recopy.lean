import DualView.Proofs.Assembly.Runs
import DualView.Proofs.Codec.Keys
import DualView.Proofs.Codec.Order
import DualView.Proofs.Node.Bare
import DualView.Proofs.Value.Lossless

/-!
# Copying a value

A value that fits its type is copied through a view to itself, up to layouts, if the view shows all
of it: the typed view always does, the representation if nothing is lost in it.  The proof goes down
the value: each level of what is shown builds that level again, whichever way it is shown.

* `Schema.Recopies`: what a view shows of a value is copied to the same value, up to layouts.
* `Schema.list_recopies`, `Schema.map_recopies`, `Schema.struct_recopies`, `Schema.union_recopies`:
  one level.
* `Schema.Fits.recopies`: what fits, and is shown whole, is copied exactly.
* `Prototype.typed_copy`: every value that fits is built from its typed view, under any model.
-/

namespace DualView

namespace Schema

theorem text_of_bare_eq {s : Schema} {type : TypeId} {v w : Value} (eq : v.bare = w.bare)
    {text : String} (h : s.Text type w text) : s.Text type v text := by
  have nodes : (Node.typed ⟨s, type, .representation, v⟩).bare =
      (Node.typed ⟨s, type, .representation, w⟩).bare := by
    rw [Node.bare, Node.bare, TypedNode.bare, TypedNode.bare, eq]
  exact (Node.readsLike_of_bare_eq nodes).asString.trans h

theorem keyTree_eq {s : Schema} {view : View} {key : TypeId} {e : Entry Value}
    (text : s.Text key e.key e.text) : s.keyTree view key e = s.tree view key e.key := by
  cases view with
  | typed => rfl
  | representation => exact (tree_of_text (text_iff_read.mp text)).symm

variable {m : Model} {view : View} {type : TypeId}

/-- What a view shows of a value is copied through it to the same value, up to layouts. -/
def Recopies (m : Model) (view : View) (type : TypeId) (v : Value) : Prop :=
  ∀ nullable, ∃ w, m.Copies view nullable type (m.schema.tree view type v) (some w) ∧
    w.bare = v.bare

theorem recopies_of_builds (valid : m.schema.Valid) {v w : Value}
    (h : m.Builds view type (m.schema.tree view type v) w) (eq : w.bare = v.bare) :
    Recopies m view type v :=
  fun nullable => ⟨w, h.copies valid nullable, eq⟩

/-- The content of a slot is copied, unless it is absent. -/
theorem content_recopies {nullable : Bool} {content : Maybe Value}
    (present : content.isAbsent = false) (null : content = .null → nullable = true)
    (value : ∀ v, content = .value v → Recopies m view type v) :
    ∃ c, m.Copies view nullable type (m.schema.contentTree view type content) c ∧
      (Maybe.given c).map Value.bare = content.map Value.bare := by
  cases content with
  | absent => contradiction
  | null => exact ⟨none, Opening.copies_null_iff.mpr ⟨null rfl, rfl⟩, rfl⟩
  | value v =>
    obtain ⟨w, hw, eq⟩ := value v rfl nullable
    exact ⟨some w, hw, congrArg Maybe.value eq⟩

/-! ## Scalars and enums -/

theorem scalar_recopies (valid : m.schema.Valid) {a : Scalar}
    (body : m.schema.body type = .scalar a.kind) : Recopies m view type (.scalar a) := by
  have hread : m.schema.read view type (.scalar a) = .scalar a := by
    simp [read, body]
  refine recopies_of_builds valid (w := .scalar a) ?_ rfl
  rw [tree_eq, hread]
  exact .scalar (.scalar body)

theorem enum_recopies (valid : m.schema.Valid)
    (once : view = .representation → m.schema.RenamesOnce) {members : List String}
    {repr : EnumRepr} {i : Nat} (body : m.schema.body type = .enum members repr)
    (bound : i < members.length) : Recopies m view type (.enum i) := by
  have hi := List.getElem?_eq_getElem bound
  have hm := List.getElem_mem bound
  have hidx := (idxOf?_eq_some_iff_of_nodup (valid.enum_nodup body)).mpr hi
  have denoted : ∃ a, m.schema.read view type (.enum i) = .scalar a ∧
      m.Denotes view type a (.enum i) := by
    cases view with
    | typed => exact ⟨.string members[i], by simp [read, body, readEnum, hi], .name rfl body hidx⟩
    | representation =>
      cases repr with
      | string keys =>
        have hname :=
          Renaming.nameOf?_keyOf ((once rfl).enum body) (valid.enum_separates body) hm
        refine ⟨.string (keys.keyOf members[i]), ?_, .text rfl body (by rw [hname]; exact hidx)⟩
        simp [read, body, readEnum, EnumRepr.scalar?, EnumRepr.text?, hi]
      | int values =>
        obtain ⟨x, hx⟩ := (valid.enum_values body).exists_label hm
        have hname := (valid.enum_values body).labelOf?_iff_nameOf?.mp hx
        refine ⟨.int x, ?_, .int rfl body (by rw [hname]; exact hidx)⟩
        simp [read, body, readEnum, EnumRepr.scalar?, EnumRepr.text?, EnumRepr.int?, hi, hx]
  obtain ⟨a, hread, hd⟩ := denoted
  refine recopies_of_builds valid (w := .enum i) ?_ rfl
  rw [tree_eq, hread]
  exact .scalar hd

/-! ## Lists and maps -/

theorem list_recopies (valid : m.schema.Valid) {elem : TypeId} {nullable : Bool}
    {slots : List (Slot Value)} (body : m.schema.body type = .list elem nullable)
    (states : ∀ slot ∈ slots, slot.content.Allowed false nullable)
    (values : ∀ slot ∈ slots, ∀ v, slot.content = .value v → Recopies m view elem v) :
    Recopies m view type (.list slots) := by
  have kept : ∀ slot ∈ slots, ∃ z : Slot Value × Option Value, z.1 = slot ∧
      m.Copies view nullable elem (m.schema.contentTree view elem z.1.content) z.2 ∧
      (Maybe.given z.2).map Value.bare = z.1.content.map Value.bare := fun slot hs => by
    obtain ⟨present, null⟩ := (states slot hs).present
    obtain ⟨c, hc⟩ := content_recopies present null (values slot hs)
    exact ⟨(slot, c), rfl, hc⟩
  obtain ⟨zs, hzs, hall⟩ := exists_map_eq_self kept
  subst hzs
  have hread : m.schema.read view type (.list (zs.map (·.1))) = .items elem (zs.map (·.1)) := by
    simp only [read, body]
  let ps := zs.map fun z => (m.schema.contentTree view elem z.1.content, z.2)
  have hps : ∀ p ∈ ps, m.Copies view nullable elem p.1 p.2 := by
    intro p hp
    obtain ⟨z, hz, rfl⟩ := List.mem_map.mp hp
    exact (hall z hz).1
  refine recopies_of_builds valid
    (w := .list (ps.map fun p => ⟨m.elementLayout elem nullable, .given p.2⟩)) ?_ ?_
  · have htree : m.schema.tree view type (.list (zs.map (·.1))) = .list (ps.map (·.1)) := by
      rw [tree_eq, hread, Reading.tree, List.map_map, List.map_map]
      rfl
    rw [htree]
    exact .list body hps
  · rw [Value.bare_list, Value.bare_list, List.map_map, List.map_map, List.map_map]
    refine congrArg Value.list (List.map_congr_left fun z hz => ?_)
    exact Slot.bare_eq_of_content (hall z hz).2

/-- An entry of a map, and what its key and its slot are copied to. -/
structure KeptEntry where
  entry : Entry Value
  key : Value
  content : Option Value

def KeptEntry.copied (s : Schema) (view : View) (key value : TypeId) (z : KeptEntry) :
    CopiedEntry :=
  ⟨s.keyTree view key z.entry, s.contentTree view value z.entry.slot.content, z.key, z.entry.text,
    z.content⟩

/-- Keys are copied as values are, and the copies have the texts of the keys. -/
theorem map_recopies (valid : m.schema.Valid) {key value : TypeId} {nullable : Bool}
    {nulls : NullPolicy} {dict : Dict Value}
    (body : m.schema.body type = .map key value nullable nulls)
    (texts : ∀ e ∈ dict.entries, m.schema.Text key e.key e.text)
    (apart : (dict.entries.map (·.text)).Nodup)
    (states : ∀ e ∈ dict.entries, e.slot.content.Allowed false nullable)
    (explicit : view = .representation → nulls = .omitNulls →
      ∀ e ∈ dict.entries, e.slot.isNull = false)
    (keys : ∀ e ∈ dict.entries, Recopies m view key e.key)
    (values : ∀ e ∈ dict.entries, ∀ v, e.slot.content = .value v → Recopies m view value v) :
    Recopies m view type (.map dict) := by
  have kept : ∀ e ∈ dict.entries, ∃ z : KeptEntry, z.entry = e ∧
      (m.Copies view false key (m.schema.keyTree view key z.entry) (some z.key) ∧
        z.key.bare = z.entry.key.bare ∧ m.schema.Text key z.key z.entry.text) ∧
      m.Copies view nullable value
        (m.schema.contentTree view value z.entry.slot.content) z.content ∧
      (Maybe.given z.content).map Value.bare = z.entry.slot.content.map Value.bare := fun e he => by
    obtain ⟨k, hk, eq⟩ := keys e he false
    rw [← keyTree_eq (texts e he)] at hk
    obtain ⟨present, null⟩ := (states e he).present
    obtain ⟨c, hc⟩ := content_recopies present null (values e he)
    exact ⟨⟨e, k, c⟩, rfl, ⟨hk, eq, text_of_bare_eq eq (texts e he)⟩, hc⟩
  obtain ⟨zs, hzs, hall⟩ := exists_map_eq_self kept
  let es := zs.map (KeptEntry.copied m.schema view key value)
  have hes {P : CopiedEntry → Prop} (h : ∀ z ∈ zs, P (z.copied m.schema view key value)) :
      ∀ e ∈ es, P e := fun e he => by
    obtain ⟨z, hz, rfl⟩ := List.mem_map.mp he
    exact h z hz
  have hapart : (es.map (·.text)).Nodup := by
    rw [← hzs, List.map_map] at apart
    rwa [List.map_map]
  have shown : ∀ e ∈ dict.entries,
      e.shows (decide (view = .representation ∧ nulls = .omitNulls)) = true := by
    intro e he
    obtain ⟨present, -⟩ := (states e he).present
    rw [Entry.shows, Slot.isAbsent, present]
    by_cases omits : view = .representation ∧ nulls = .omitNulls
    · simp [explicit omits.1 omits.2 e he]
    · simp [omits]
  have htree : m.schema.tree view type (.map dict) =
      .map (es.map fun e => (e.keyTree, e.tree)) := by
    have hread : m.schema.read view type (.map dict) = .entries key value dict
        (decide (view = .representation ∧ nulls = .omitNulls)) := by
      simp only [read, body]
    rw [tree_eq, hread, Reading.tree, List.filter_eq_self.mpr shown, ← hzs, List.map_map,
      List.map_map]
    rfl
  refine recopies_of_builds valid
    (w := .map ⟨es.map (CopiedEntry.stored (m.elementLayout value nullable))⟩) ?_ ?_
  · rw [htree]
    exact .map body (hes fun z hz => (hall z hz).1.1) (hes fun z hz => (hall z hz).1.2.2) hapart
      (hes fun z hz => (hall z hz).2.1)
  · obtain ⟨entries⟩ := dict
    have hentries : zs.map (·.entry) = entries := hzs
    rw [Value.bare_map, Value.bare_map, ← hentries, Dict.bare, Dict.bare, List.map_map, List.map_map,
      List.map_map]
    refine congrArg (fun es => Value.map ⟨es⟩) (List.map_congr_left fun z hz => ?_)
    obtain ⟨⟨-, key_eq, -⟩, -, content_eq⟩ := hall z hz
    exact congrArg₂ (fun k slot => Entry.mk k z.entry.text slot) key_eq
      (Slot.bare_eq_of_content content_eq)

/-! ## Structs -/

/-- A field that is present, and what its slot is copied to. -/
structure KeptField where
  field : Field TypeId
  slot : Slot Value
  index : Nat
  content : Option Value

def KeptField.copied (s : Schema) (view : View) (z : KeptField) : CopiedField :=
  ⟨z.index, s.contentTree view z.field.type z.slot.content, z.content⟩

/-- All fields that are present, and what their slots are copied to. -/
structure Kept (m : Model) (view : View) (fields : List (Field TypeId)) (slots : List (Slot Value))
    (zs : List KeptField) : Prop where
  all : zs.map (fun z => ((z.field, z.slot), z.index)) = presentAt fields slots
  copied : ∀ z ∈ zs, m.Copies view z.field.nullable z.field.type
    (m.schema.contentTree view z.field.type z.slot.content) z.content
  same : ∀ z ∈ zs, (Maybe.given z.content).map Value.bare = z.slot.content.map Value.bare

section Structs

variable {fields : List (Field TypeId)} {slots : List (Slot Value)} {zs : List KeptField}

theorem exists_kept
    (states : ∀ p ∈ fields.zip slots, p.2.content.Allowed p.1.optional p.1.nullable)
    (values : ∀ p ∈ fields.zip slots, ∀ v, p.2.content = .value v → Recopies m view p.1.type v) :
    ∃ zs, Kept m view fields slots zs := by
  have kept : ∀ x ∈ presentAt fields slots, ∃ z : KeptField,
      ((z.field, z.slot), z.index) = x ∧
        m.Copies view z.field.nullable z.field.type
          (m.schema.contentTree view z.field.type z.slot.content) z.content ∧
        (Maybe.given z.content).map Value.bare = z.slot.content.map Value.bare := by
    rintro ⟨⟨f, slot⟩, i⟩ hx
    obtain ⟨hf, hs, present⟩ := mem_presentAt_iff.mp hx
    have hp : (f, slot) ∈ fields.zip slots :=
      List.mem_of_getElem? (List.getElem?_zip_eq_some.mpr ⟨hf, hs⟩)
    have null (hn : slot.content = .null) : f.nullable = true := by
      have := states _ hp
      rwa [hn] at this
    obtain ⟨c, hc⟩ := content_recopies present null (values _ hp)
    exact ⟨⟨f, slot, i, c⟩, rfl, hc⟩
  obtain ⟨zs, hzs, hall⟩ := exists_map_eq_self kept
  exact ⟨zs, hzs, fun z hz => (hall z hz).1, fun z hz => (hall z hz).2⟩

namespace Kept

theorem mem_iff (h : Kept m view fields slots zs) {f : Field TypeId} {slot : Slot Value} {i : Nat} :
    (∃ z ∈ zs, z.field = f ∧ z.slot = slot ∧ z.index = i) ↔
      fields[i]? = some f ∧ slots[i]? = some slot ∧ slot.isAbsent = false := by
  rw [← mem_presentAt_iff, ← h.all, List.mem_map]
  simp [and_assoc]

theorem at_index (h : Kept m view fields slots zs) {z : KeptField} (hz : z ∈ zs) :
    fields[z.index]? = some z.field ∧ slots[z.index]? = some z.slot :=
  have := h.mem_iff.mp ⟨z, hz, rfl, rfl, rfl⟩
  ⟨this.1, this.2.1⟩

theorem present_eq (h : Kept m view fields slots zs) :
    present fields slots = zs.map fun z => (z.field, z.slot) := by
  rw [present_eq_map_presentAt, ← h.all, List.map_map]
  rfl

theorem indices_eq (h : Kept m view fields slots zs) :
    (zs.map (KeptField.copied m.schema view)).map (·.index) =
      (presentAt fields slots).map (·.2) := by
  rw [← h.all, List.map_map, List.map_map]
  rfl

theorem indices_nodup (h : Kept m view fields slots zs) :
    ((zs.map (KeptField.copied m.schema view)).map (·.index)).Nodup := by
  rw [h.indices_eq]
  exact (List.pairwise_map.mpr (presentAt_pairwise fields slots)).imp Nat.ne_of_lt

theorem filled_bare (h : Kept m view fields slots zs) (length : slots.length = fields.length) :
    (m.filled type fields ((zs.map (KeptField.copied m.schema view)).map CopiedField.given)).map
      Slot.bare = slots.map Slot.bare := by
  rw [← List.forall₂_eq_eq_eq, List.forall₂_map_left_iff, List.forall₂_map_right_iff,
    List.forall₂_iff_zip]
  refine ⟨by rw [Model.filled, List.length_mapIdx, length], fun {a b} hp => ?_⟩
  obtain ⟨i, hi⟩ := List.mem_iff_getElem?.mp hp
  obtain ⟨ha, hb⟩ := List.getElem?_zip_eq_some.mp hi
  refine Slot.bare_eq_of_content ?_
  cases hab : b.isAbsent with
  | true =>
    have absent : a.isAbsent = true := (isAbsent_filled_iff ha).mpr fun hin => by
      rw [map_given_index, List.map_map] at hin
      obtain ⟨z, hz, rfl⟩ := List.mem_map.mp hin
      obtain ⟨-, hs, hpresent⟩ := h.mem_iff.mp ⟨z, hz, rfl, rfl, rfl⟩
      cases hb.symm.trans hs
      rw [hab] at hpresent
      contradiction
    obtain ⟨_, ca⟩ := a
    obtain ⟨_, cb⟩ := b
    cases ca <;> cases cb <;> first | rfl | contradiction
  | false =>
    have hlt : i < fields.length := length ▸ (List.getElem?_eq_some_iff.mp hb).1
    have hf := List.getElem?_eq_getElem hlt
    obtain ⟨z, hz, -, rfl, rfl⟩ := h.mem_iff.mpr ⟨hf, hb, hab⟩
    have hmem : z.copied m.schema view ∈ zs.map (KeptField.copied m.schema view) :=
      List.mem_map_of_mem hz
    cases ha.symm.trans (getElem?_filled_given h.indices_nodup hmem hf)
    exact h.same z hz

/-- A struct is copied if the view shows the fields that are present. -/
theorem recopies (h : Kept m view fields slots zs) (valid : m.schema.Valid) {repr : StructRepr}
    (body : m.schema.body type = .struct fields repr) (length : slots.length = fields.length)
    (states : ∀ p ∈ fields.zip slots, p.2.content.Allowed p.1.optional p.1.nullable)
    (shows : ShowsFields view fields repr
      (m.schema.tree view type (.struct slots)) (zs.map (KeptField.copied m.schema view))) :
    Recopies m view type (.struct slots) := by
  have required (i : Nat) (f : Field TypeId) (hf : fields[i]? = some f)
      (ho : f.optional = false) : i ∈ (zs.map (KeptField.copied m.schema view)).map (·.index) := by
    have hlt : i < slots.length := length ▸ (List.getElem?_eq_some_iff.mp hf).1
    have hs := List.getElem?_eq_getElem hlt
    have hstate := forall_mem_zip_iff.mp states i f _ hf hs
    rw [ho] at hstate
    obtain ⟨z, hz, -, -, rfl⟩ := h.mem_iff.mpr ⟨hf, hs, hstate.present.1⟩
    rw [List.map_map]
    exact List.mem_map_of_mem hz
  have values : ∀ p ∈ zs.map (KeptField.copied m.schema view), ∀ f, fields[p.index]? = some f →
      m.Copies view f.nullable f.type p.tree p.content := by
    intro p hp f hf
    obtain ⟨z, hz, rfl⟩ := List.mem_map.mp hp
    cases hf.symm.trans (h.at_index hz).1
    exact h.copied z hz
  refine recopies_of_builds valid (.struct body shows h.indices_nodup required values) ?_
  rw [Value.bare_struct, Value.bare_struct, h.filled_bare length]

/-- Each present field is found under its key. -/
theorem found (h : Kept m view fields slots zs) {keys : Renaming} (tells : keys.Tells fields) :
    ∀ p ∈ zs.map (fun z => (keys.keyOf z.field.name, z.copied m.schema view)),
      Field.Found keys fields p.1 p.2.index := by
  intro p hp
  obtain ⟨z, hz, rfl⟩ := List.mem_map.mp hp
  exact tells.found_iff.mpr ⟨z.field, (h.at_index hz).1, rfl⟩

theorem shows_entries (h : Kept m view fields slots zs) {repr : StructRepr} {keys : Renaming}
    (tells : keys.Tells fields) (body : m.schema.body type = .struct fields repr)
    (keyed : repr.entryKeys? view = some keys) :
    ShowsFields view fields repr
      (m.schema.tree view type (.struct slots)) (zs.map (KeptField.copied m.schema view)) := by
  have hshows := ShowsFields.entries keyed (h.found tells)
  rw [List.map_map, List.map_map] at hshows
  rw [tree_eq, read_entries body keyed, Reading.tree, h.present_eq, List.map_map]
  exact hshows

theorem shows_pairs (h : Kept m .representation fields slots zs) {keys : Renaming}
    (tells : keys.Tells fields) (body : m.schema.body type = .struct fields (.listpairs keys)) :
    ShowsFields .representation fields (.listpairs keys)
      (m.schema.tree .representation type (.struct slots))
      (zs.map (KeptField.copied m.schema .representation)) := by
  have hshows := ShowsFields.pairs rfl (h.found tells)
  rw [List.map_map, List.map_map] at hshows
  rw [tree_eq, read_struct body, readStruct, Reading.tree, h.present_eq, List.map_map]
  exact hshows

/-- The fields of a tuple are all present, so each is shown at its place. -/
theorem shows_tuple (h : Kept m .representation fields slots zs)
    (body : m.schema.body type = .struct fields .tuple) (length : slots.length = fields.length)
    (filled : ∀ p ∈ fields.zip slots, p.2.isAbsent = false) :
    ShowsFields .representation fields .tuple
      (m.schema.tree .representation type (.struct slots))
      (zs.map (KeptField.copied m.schema .representation)) := by
  have hpresent : present fields slots = fields.zip slots :=
    List.filter_eq_self.mpr fun p hp => by rw [filled p hp]; rfl
  have hat : presentAt fields slots = (fields.zip slots).zipIdx :=
    List.filter_eq_self.mpr fun x hx => by
      rw [filled x.1 (List.fst_mem_of_mem_zipIdx hx)]
      rfl
  have places : (zs.map (KeptField.copied m.schema .representation)).map (·.index) =
      List.range fields.length := by
    rw [h.indices_eq, hat, List.zipIdx_map_snd, List.range_eq_range', List.length_zip, length,
      Nat.min_self]
  have hshows := ShowsFields.tuple rfl places
  rw [tree_eq, read_struct body, readStruct, Reading.tree, ← hpresent, h.present_eq, List.map_map]
  rw [List.map_map] at hshows
  exact hshows

end Kept

/-! ### Joined text -/

theorem joined_bare {layout : Nat → Layout}
    (texts : ∀ slot ∈ slots, ∃ text, slot.content = .value (.scalar (.string text))) :
    ((slots.filterMap Slot.text?).mapIdx fun i text =>
      (⟨layout i, .value (.scalar (.string text))⟩ : Slot Value)).map Slot.bare =
        slots.map Slot.bare := by
  induction slots generalizing layout with
  | nil => rfl
  | cons slot slots ih =>
    obtain ⟨⟨text, ht⟩, hrest⟩ := List.forall_mem_cons.mp texts
    have htext : slot.text? = some text := by rw [Slot.text?, ht]
    rw [List.filterMap_cons, htext, List.mapIdx_cons, List.map_cons, List.map_cons, ih hrest]
    exact congrArg (· :: slots.map Slot.bare) (Slot.bare_eq_of_content (by rw [ht]))

theorem joined_slots {s : Schema} (valid : s.Valid) {separator : String}
    (body : s.body type = .struct fields (.stringjoin separator))
    (h : s.Fits type (.struct slots)) :
    ∀ slot ∈ slots, ∃ text, slot.content = .value (.scalar (.string text)) := by
  obtain ⟨length, admits⟩ := (fits_struct_iff body).mp h
  intro slot hs
  obtain ⟨i, hi⟩ := List.mem_iff_getElem?.mp hs
  have hf := List.getElem?_eq_getElem (length ▸ (List.getElem?_eq_some_iff.mp hi).1)
  obtain ⟨optional, nullable, text⟩ := (valid.joined body).2.2 _ (List.mem_of_getElem? hf)
  have hslot := forall_mem_zip_iff.mp admits i _ slot hf hi
  rw [optional, nullable] at hslot
  obtain ⟨layout, content⟩ := slot
  cases content with
  | absent => contradiction
  | null => contradiction
  | value v =>
    obtain ⟨x, hx⟩ := fits_text text hslot
    exact ⟨x, by rw [hx]⟩

theorem length_filterMap_text?
    (texts : ∀ slot ∈ slots, ∃ text, slot.content = .value (.scalar (.string text))) :
    (slots.filterMap Slot.text?).length = slots.length := by
  rw [List.filterMap_length_eq_length]
  intro slot hs
  obtain ⟨text, ht⟩ := texts slot hs
  rw [Slot.text?, ht]
  rfl

theorem joined_recopies (valid : m.schema.Valid) {separator : String}
    (body : m.schema.body type = .struct fields (.stringjoin separator))
    (length : slots.length = fields.length)
    (texts : ∀ slot ∈ slots, ∃ text, slot.content = .value (.scalar (.string text)))
    (splits : Text.split separator (Text.join separator (slots.filterMap Slot.text?)) =
      slots.filterMap Slot.text?) :
    Recopies m .representation type (.struct slots) := by
  have arity : (Text.split separator
      (Text.join separator (slots.filterMap Slot.text?))).length = fields.length := by
    rw [splits, length_filterMap_text? texts, length]
  have htree : m.schema.tree .representation type (.struct slots) =
      .scalar (.string (Text.join separator (slots.filterMap Slot.text?))) := by
    rw [tree_eq, read_struct body]
    rfl
  have built := Model.Builds.scalar (Model.Denotes.joined rfl body arity)
  rw [← htree] at built
  refine recopies_of_builds valid built ?_
  rw [Value.bare_struct, Value.bare_struct, splits, joined_bare texts]

/-- **A struct is copied in each of its representations**, if its fields are, and in the typed
view. -/
theorem struct_recopies (valid : m.schema.Valid)
    (once : view = .representation → m.schema.RenamesOnce) {repr : StructRepr}
    (body : m.schema.body type = .struct fields repr) (length : slots.length = fields.length)
    (states : ∀ p ∈ fields.zip slots, p.2.content.Allowed p.1.optional p.1.nullable)
    (fits : ∀ p ∈ fields.zip slots, ∀ v, p.2.content = .value v → m.schema.Fits p.1.type v)
    (splits : view = .representation → ∀ separator, repr = .stringjoin separator →
      Text.split separator (Text.join separator (slots.filterMap Slot.text?)) =
        slots.filterMap Slot.text?)
    (values : ∀ p ∈ fields.zip slots, ∀ v, p.2.content = .value v → Recopies m view p.1.type v) :
    Recopies m view type (.struct slots) := by
  obtain ⟨zs, h⟩ := exists_kept states values
  have entries {keys : Renaming} (keyed : repr.entryKeys? view = some keys) :=
    h.recopies valid body length states
      (h.shows_entries (valid.tells_entries once body keyed) body keyed)
  cases view with
  | typed => exact entries rfl
  | representation =>
    cases repr with
    | map keys => exact entries rfl
    | listpairs keys =>
      exact h.recopies valid body length states
        (h.shows_pairs (valid.tells_pairs (once rfl) body) body)
    | tuple =>
      refine h.recopies valid body length states (h.shows_tuple body length fun p hp => ?_)
      have hstate := states p hp
      rw [valid.tuple body (List.of_mem_zip hp).1] at hstate
      exact hstate.present.1
    | stringjoin separator =>
      have texts := joined_slots valid body (.struct body length states fits)
      exact joined_recopies valid body length texts (splits rfl separator rfl)

end Structs

/-! ## Unions -/

/-- What a level of the representation builds has the kind that its type is represented with. -/
theorem reprKind?_of_builds {t : Tree} {v : Value} (h : m.Builds .representation type t v) :
    (m.schema.decl type).reprKind? = some t.kind := by
  show (m.schema.body type).reprKind? = some t.kind
  cases h with
  | scalar denotes =>
    cases denotes with
    | name seen body found => contradiction
    | scalar body => rw [body]; rfl
    | text seen body found => rw [body]; rfl
    | int seen body found => rw [body]; rfl
    | joined seen body arity => rw [body]; rfl
  | list body items => rw [body]; rfl
  | map body keys texts apart values => rw [body]; rfl
  | @struct fields repr t ps body shows apart required values =>
    rw [body]
    cases shows with
    | pairs seen found => rfl
    | tuple seen places => rfl
    | entries keyed found =>
      cases repr with
      | map keys => rfl
      | _ => contradiction
  | @choice members repr key i member t v body found at_member value =>
    rw [body]
    cases repr with
    | keyed ds => rfl
    | kinded => contradiction

section Unions

variable {members : List TypeId} {repr : UnionRepr} {i : Nat} {member : TypeId} {v : Value}

theorem choice_recopies (valid : m.schema.Valid) {key : String}
    (body : m.schema.body type = .union members repr)
    (found : m.schema.MemberFound view members repr key i) (at_member : members[i]? = some member)
    (value : Recopies m view member v) : Recopies m view type (.union i v) := by
  obtain ⟨w, hw, eq⟩ := value false
  refine recopies_of_builds valid (w := .union i w) ?_ (by simp [eq])
  rw [tree_eq, valid.read_choice body found at_member, Reading.tree]
  exact .choice body found at_member hw

theorem kinded_recopies (valid : m.schema.Valid) (body : m.schema.body type = .union members .kinded)
    (at_member : members[i]? = some member) (value : Recopies m .representation member v) :
    Recopies m .representation type (.union i v) := by
  obtain ⟨w, hw, eq⟩ := value false
  refine fun nullable => ⟨.union i w, ?_, by simp [eq]⟩
  rw [tree_kinded body at_member]
  rcases (Model.copies_some_iff valid).mp hw with hb | ⟨members', j, member', w', -, body', -⟩
  · have hk := (valid.kindedMember?_iff body).mpr ⟨at_member, reprKind?_of_builds hb⟩
    exact (Model.copies_some_iff valid).mpr (.inr ⟨members, i, member, w, rfl, body, hk, hb, rfl⟩)
  · -- a kinded union has no kind of its own, so it is no member of another
    obtain ⟨kinds, hkinds, -⟩ := valid.kinds body
    have hnone : (m.schema.decl member).reprKind? = none := by
      show (m.schema.body member).reprKind? = none
      rw [body']
      rfl
    have hmem : none ∈ kinds.map some := by
      rw [← hkinds, ← hnone]
      exact List.mem_map_of_mem (List.mem_of_getElem? at_member)
    simp at hmem

theorem union_recopies (valid : m.schema.Valid) (body : m.schema.body type = .union members repr)
    (at_member : members[i]? = some member) (value : Recopies m view member v) :
    Recopies m view type (.union i v) := by
  cases view with
  | typed =>
    have found := (valid.memberFound_typed_iff body).mpr ⟨member, at_member, rfl⟩
    exact choice_recopies valid body found at_member value
  | representation =>
    cases repr with
    | keyed ds =>
      have named : m.schema.nameOf member ∈ members.map m.schema.nameOf :=
        List.mem_map_of_mem (List.mem_of_getElem? at_member)
      obtain ⟨key, hl⟩ := (valid.discriminants body).exists_label named
      have found := (valid.memberFound_keyed_iff body).mpr ⟨member, at_member, hl⟩
      exact choice_recopies valid body found at_member value
    | kinded => exact kinded_recopies valid body at_member value

end Unions

/-! ## All values -/

/-- **What fits its type is copied to itself, up to layouts.**  In the representation nothing may be
lost of it, and no name may be renamed twice; the typed view shows everything. -/
theorem Fits.recopies (valid : m.schema.Valid)
    (once : view = .representation → m.schema.RenamesOnce) {v : Value} (h : m.schema.Fits type v)
    (lossless : view = .representation → m.schema.Lossless type v) : Recopies m view type v := by
  induction h with
  | scalar body => exact scalar_recopies valid body
  | enum body bound => exact enum_recopies valid once body bound
  | list body states _ ih =>
    exact list_recopies valid body states fun slot hs v hv =>
      ih slot hs v hv fun seen => (lossless seen).of_subset (parts_item body hs hv)
  | map body _ texts apart states _ ihk ihv =>
    refine map_recopies valid body texts apart states ?_
      (fun e he => ihk e he fun seen => (lossless seen).of_subset (parts_entry body he).1)
      fun e he v hv => ihv e he v hv fun seen =>
        (lossless seen).of_subset ((parts_entry body he).2 v hv)
    rintro seen rfl
    exact (lossless seen).nulls _ _ _ _ _ (mem_parts_self _) body
  | struct body length states values ih =>
    refine struct_recopies valid once body length states values ?_ fun p hp v hv =>
      ih p hp v hv fun seen => (lossless seen).of_subset (parts_field body hp hv)
    rintro seen separator rfl
    exact (lossless seen).texts _ _ _ _ (mem_parts_self _) body
  | union body at_member _ ih =>
    exact union_recopies valid body at_member
      (ih fun seen => (lossless seen).of_subset (parts_member body at_member _))

end Schema

/-! ## What is built from the typed view -/

namespace Sample

def sheetCalls : List Call :=
  [ .root, .list, .value, .map, .entry "Sheet", .map,
    .entry "tag", .map, .entry "site", .scalar (.string "a:b"), .entry "unit", .scalar (.string "c"),
    .finish, .drop,
    .entry "counts", .map, .key, .scalar (.string "low"), .value, .null, .finish, .drop,
    .finish, .drop, .finish, .drop, .finish, .drop ]

/-- The sheet, its item kept in place.  Its tag is joined to a text that splits elsewhere. -/
def sheet : Value := .list
  [ ⟨.embedded, .value (.union 1 (.struct
      [ ⟨.embedded, .value (.map ⟨[⟨.enum 0, "l", ⟨.embedded, .null⟩⟩]⟩)⟩,
        ⟨.indirect, .value (.struct
          [ ⟨.embedded, .value (.scalar (.string "a:b"))⟩,
            ⟨.embedded, .value (.scalar (.string "c"))⟩ ])⟩ ]))⟩ ]

theorem fits_sheet : schema.Fits 7 sheet :=
  (Builder.built_fits (p := ⟨modelInPlace, 7, .typed⟩) finalize_types compile_inPlace sheetCalls
    rfl).2

end Sample

/-- **Every value that fits its type can be built, from its own typed view.**  The copy is the value
itself, up to the layouts that the model of the copy asks for, so it equals the value unless this
holds a NaN.  Nothing is asked of renamings, of separators in joined texts or of nulls that a
representation omits. -/
theorem Prototype.typed_copy {ts : TypeSystem} {s : Schema} {c c' : Config} {m m' : Model}
    (frozen : ts.finalize = .ok s) (compiled : s.compile c = .ok m)
    (compiled' : s.compile c' = .ok m') {type : TypeId} {w : Value} (fits : s.Fits type w) :
    ∃ v, (⟨m, type, .typed⟩ : Prototype).buildFrom (⟨m', type, w⟩ : TypedValue).node = .ok v ∧
      v.model = m ∧ v.type = type ∧ v.value.bare = w.bare ∧
        (w.NaNFree → v.value.same w = true) := by
  have valid : m.schema.Valid :=
    Schema.schema_of_compile compiled ▸ Schema.valid_of_finalize frozen
  have schema : m'.schema = m.schema := by
    rw [Schema.schema_of_compile compiled', Schema.schema_of_compile compiled]
  rw [← Schema.schema_of_compile compiled] at fits
  have unseen : View.typed ≠ .representation := nofun
  have copied : Schema.Recopies m .typed type w :=
    fits.recopies valid (absurd · unseen) (absurd · unseen)
  obtain ⟨v, hv, eq⟩ := copied false
  refine ⟨⟨m, type, v⟩, (Prototype.buildFrom_eq_ok_iff valid).mpr ⟨v, ?_, rfl⟩, rfl, rfl, eq,
    fun numbers => (Value.same_congr eq w).1.trans (w.same_self numbers)⟩
  rw [← schema] at hv
  exact hv

theorem Prototype.typed_copy_sheet :
    Sample.types.finalize = .ok Sample.schema ∧
      Sample.schema.compile .empty = .ok Sample.model ∧
      Sample.schema.compile Sample.inPlace = .ok Sample.modelInPlace ∧
      Sample.schema.Fits 7 Sample.sheet ∧ Sample.sheet.NaNFree ∧
      ¬ Sample.schema.Lossless 7 Sample.sheet ∧
      ∃ v, (⟨Sample.model, 7, .typed⟩ : Prototype).buildFrom
          (⟨Sample.modelInPlace, 7, Sample.sheet⟩ : TypedValue).node = .ok v ∧
        v.value.same Sample.sheet = true := by
  have numbers : Sample.sheet.NaNFree := by
    unfold Value.NaNFree
    decide +kernel
  obtain ⟨v, hv, -, -, -, same⟩ := Prototype.typed_copy Sample.finalize_types Sample.compile_schema
    Sample.compile_inPlace Sample.fits_sheet
  exact ⟨Sample.finalize_types, Sample.compile_schema, Sample.compile_inPlace, Sample.fits_sheet,
    numbers, by decide +kernel, v, hv, same numbers⟩

end DualView
