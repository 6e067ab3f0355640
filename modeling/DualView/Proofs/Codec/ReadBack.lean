import DualView.Proofs.Codec.Canonical
import DualView.Proofs.Codec.Grammar

/-!
# Reading back

What is built from a data tree, in either view, reads back through that view as the canonical form
of the data tree, and in the representation view it is encoded as that form.

* `Schema.ReadsBack`: what a data tree is copied to reads as its canonical form.
* `Schema.present_filled_canonical`: fields that arrive in any order read back in declaration order.
* `Schema.readsBack`: every data tree reads back, in every slot that takes it.
* `Schema.reads_back_canonical`: so does what is built from a data tree.
-/

namespace DualView

namespace Schema

/-! ## Reading back one level -/

section ReadingBack

variable {m : Model} {view : View}

theorem takes_of_builds {m : Model} {type : TypeId} {t : Tree} {v : Value}
    (h : m.Builds view type t v) (kind : Kind) : m.schema.takes view type kind = type := by
  rw [takes, h.target? kind]
  rfl

/-- What a data tree is copied to, in a slot of a type, reads as its canonical form. -/
def ReadsBack (m : Model) (view : View) (type : TypeId) (d : Datum) : Prop :=
  ∀ nullable c, m.Copies view nullable type d.tree c →
    m.schema.contentTree view type (.given c) = (m.schema.canonical view type d).tree

theorem readsBack_of_value (valid : m.schema.Valid) {type : TypeId} {d : Datum}
    (h : ∀ nullable v, m.Copies view nullable type d.tree (some v) →
      m.schema.tree view type v = (m.schema.canonical view type d).tree) :
    ReadsBack m view type d := by
  intro nullable c hc
  cases c with
  | none =>
    obtain ⟨ht, -⟩ := (Model.copies_none_iff valid).mp hc
    obtain rfl := Datum.tree_eq_null_iff.mp ht
    exact Datum.tree_null.symm
  | some v => exact h nullable v hc

theorem isNone_of_copies (valid : m.schema.Valid) {nullable : Bool} {type : TypeId} {d : Datum}
    {c : Option Value} (h : m.Copies view nullable type d.tree c) :
    c.isNone = (d.kind == .null) := by
  cases c with
  | none =>
    obtain ⟨ht, -⟩ := (Model.copies_none_iff valid).mp h
    obtain rfl := Datum.tree_eq_null_iff.mp ht
    rfl
  | some v =>
    cases d with
    | null =>
      rw [Datum.tree_null] at h
      cases (Opening.copies_null_iff.mp h).2
    | _ => rfl

theorem shows_stored (layout : Layout) (omitNulls : Bool) (e : CopiedEntry) :
    (e.stored layout).shows omitNulls = !(omitNulls && e.content.isNone) := by
  cases hc : e.content <;>
    simp [CopiedEntry.stored, Entry.shows, hc, Maybe.given, Slot.isAbsent, Slot.isNull,
      Maybe.isAbsent, Maybe.isNull]

theorem keyTree_stored (valid : m.schema.Valid) (once : view = .representation → m.schema.RenamesOnce)
    {key : TypeId} {layout : Layout} {e : CopiedEntry} {text : String}
    (shown : e.keyTree = .scalar (.string text))
    (copied : m.Copies view false key e.keyTree (some e.key))
    (stored : m.schema.Text key e.key e.text) :
    m.schema.keyTree view key (e.stored layout) = .scalar (.string text) := by
  rw [shown] at copied
  cases view with
  | typed =>
    have := copied.read_scalar valid once
    exact (m.schema.tree_eq .typed key e.key).trans (by rw [this]; rfl)
  | representation =>
    obtain rfl := copied.text_eq valid (once rfl) stored
    rfl

theorem tree_of_map (valid : m.schema.Valid) (once : view = .representation → m.schema.RenamesOnce)
    {type key value : TypeId} {nullable : Bool} {nulls : NullPolicy} {layout : Layout}
    (body : m.schema.body type = .map key value nullable nulls)
    (takes : m.schema.takes view type .map = type)
    {entries : List (String × Datum)} {es : List CopiedEntry}
    (shown : es.map (fun e => (e.keyTree, e.tree)) = entries.map Datum.entryTree)
    (keys : ∀ e ∈ es, m.Copies view false key e.keyTree (some e.key))
    (texts : ∀ e ∈ es, m.schema.Text key e.key e.text)
    (values : ∀ e ∈ es, m.Copies view nullable value e.tree e.content)
    (smaller : ∀ p ∈ entries, ReadsBack m view value p.2) :
    m.schema.tree view type (.map ⟨es.map (CopiedEntry.stored layout)⟩) =
      (m.schema.canonical view type (.map entries)).tree := by
  have hread : m.schema.read view type (.map ⟨es.map (CopiedEntry.stored layout)⟩) =
      .entries key value ⟨es.map (CopiedEntry.stored layout)⟩
        (decide (view = .representation ∧ nulls = .omitNulls)) := by
    simp only [read, body]
  have hcanonical : m.schema.canonical view type (.map entries) =
      .map ((entries.map fun p => (p.1, m.schema.canonical view value p.2)).filter
        fun p => keepsEntry view nulls p.2) := by
    simp only [canonical, takes, body, canonicalEntries_eq]
    rfl
  rw [tree_eq, hread, hcanonical, Datum.tree_map, Reading.tree, List.filter_map, List.filter_map,
    List.map_map, List.map_map]
  refine congrArg Tree.map (map_filter_eq_of_map_eq shown fun e he p hp heq => ?_)
  obtain ⟨hk, ht⟩ := Prod.mk.inj heq
  have hcopied := ht ▸ values e he
  constructor
  · rw [Function.comp_apply, Function.comp_apply, shows_stored, keepsEntry, kind_canonical,
      isNone_of_copies valid hcopied]
  · exact Prod.ext (keyTree_stored valid once hk (keys e he) (texts e he))
      (smaller p hp nullable e.content hcopied)

/-- The fields of a struct read back in declaration order, each under its key. -/
theorem present_filled_canonical {β : Type} {type : TypeId} {keys : Renaming}
    {fields : List (Field TypeId)} (tells : keys.Tells fields) {ks : List (String × CopiedField)}
    {entries : List (String × Datum)}
    (shown : ks.map (fun p => (.scalar (.string p.1), p.2.tree)) = entries.map Datum.entryTree)
    (found : ∀ p ∈ ks, Field.Found keys fields p.1 p.2.index)
    (apart : (ks.map (·.2.index)).Nodup)
    (values : ∀ p ∈ ks, ∀ f, fields[p.2.index]? = some f →
      m.Copies view f.nullable f.type p.2.tree p.2.content)
    (smaller : ∀ p ∈ entries, ∀ type, ReadsBack m view type p.2) (shape : String → Tree → β) :
    (present fields (m.filled type fields ((ks.map (·.2)).map CopiedField.given))).map
        (fun p => shape (keys.keyOf p.1.name)
          (m.schema.contentTree view p.1.type p.2.content)) =
      (inOrder (fun p => Field.position keys fields p.1) entries).map fun p =>
        shape p.1 (m.schema.canonical? view (Field.typeUnder? keys fields p.1) p.2).tree := by
  refine present_filled_eq apart (fun p hp => ?_) shown fun p hp e he heq => ?_
  · obtain ⟨f, hf⟩ := Field.Found.exists (found p hp)
    exact (List.getElem?_eq_some_iff.mp hf).1
  · obtain ⟨hk, ht⟩ := Prod.mk.inj heq
    have hfound : Field.Found keys fields e.1 p.2.index :=
      Scalar.string.inj (Tree.scalar.inj hk) ▸ found p hp
    have hpos : Field.position keys fields e.1 = p.2.index := by
      rw [Field.position, show _ = some p.2.index from hfound]
      rfl
    refine ⟨hpos, fun f hf => ?_⟩
    obtain ⟨g, hg, hkey⟩ := tells.found_iff.mp hfound
    cases hf.symm.trans hg
    have htype : Field.typeUnder? keys fields e.1 = some f.type := by
      rw [Field.typeUnder?, hpos, hf]
      rfl
    rw [htype, hkey]
    exact congrArg (shape _) (smaller e he f.type f.nullable _ (ht ▸ values p hp f hf)).symm

theorem tree_of_entries {type : TypeId} {fields : List (Field TypeId)} {repr : StructRepr}
    {keys : Renaming} (body : m.schema.body type = .struct fields repr)
    (keyed : repr.entryKeys? view = some keys) (takes : m.schema.takes view type .map = type)
    (tells : keys.Tells fields) {ks : List (String × CopiedField)}
    {entries : List (String × Datum)}
    (shown : ks.map (fun p => (.scalar (.string p.1), p.2.tree)) = entries.map Datum.entryTree)
    (found : ∀ p ∈ ks, Field.Found keys fields p.1 p.2.index)
    (apart : (ks.map (·.2.index)).Nodup)
    (values : ∀ p ∈ ks, ∀ f, fields[p.2.index]? = some f →
      m.Copies view f.nullable f.type p.2.tree p.2.content)
    (smaller : ∀ p ∈ entries, ∀ type, ReadsBack m view type p.2) :
    m.schema.tree view type
        (.struct (m.filled type fields ((ks.map (·.2)).map CopiedField.given))) =
      (m.schema.canonical view type (.map entries)).tree := by
  have hcanonical : m.schema.canonical view type (.map entries) =
      .map ((inOrder (fun p => Field.position keys fields p.1) entries).map fun p =>
        (p.1, m.schema.canonical? view (Field.typeUnder? keys fields p.1) p.2)) := by
    simp only [canonical, takes, body, keyed, canonicalEntries_eq, inOrder_map]
    rfl
  rw [tree_eq, read_entries body keyed, hcanonical, Datum.tree_map, Reading.tree]
  refine congrArg Tree.map ((present_filled_canonical tells shown found apart values smaller
    fun key t => (Tree.scalar (.string key), t)).trans ?_)
  rw [List.map_map]
  rfl

theorem tree_of_pairs {type : TypeId} {fields : List (Field TypeId)} {keys : Renaming}
    (body : m.schema.body type = .struct fields (.listpairs keys))
    (takes : m.schema.takes .representation type .list = type)
    (tells : keys.Tells fields) {ks : List (String × CopiedField)}
    {entries : List (String × Datum)}
    (shown : ks.map (fun p => (.scalar (.string p.1), p.2.tree)) = entries.map Datum.entryTree)
    (found : ∀ p ∈ ks, Field.Found keys fields p.1 p.2.index)
    (apart : (ks.map (·.2.index)).Nodup)
    (values : ∀ p ∈ ks, ∀ f, fields[p.2.index]? = some f →
      m.Copies .representation f.nullable f.type p.2.tree p.2.content)
    (smaller : ∀ p ∈ entries, ∀ type, ReadsBack m .representation type p.2) :
    m.schema.tree .representation type
        (.struct (m.filled type fields ((ks.map (·.2)).map CopiedField.given))) =
      (m.schema.canonical .representation type (.list (entries.map Datum.pair))).tree := by
  have hcanonical :
      m.schema.canonical .representation type (.list (entries.map Datum.pair)) =
        .list ((inOrder (fun p => Field.position keys fields p.1) entries).map fun p =>
          Datum.pair
            (p.1, m.schema.canonical? .representation (Field.typeUnder? keys fields p.1) p.2)) := by
    simp only [canonical, takes, body, canonicalPairs_eq, canonicalEntries_eq, inOrder_map,
      List.map_map]
    rfl
  rw [tree_eq, read_struct body, hcanonical, Datum.tree_list, readStruct, Reading.tree]
  refine congrArg Tree.list ((present_filled_canonical tells shown found apart values smaller
    fun key t => Tree.list [.scalar (.string key), t]).trans ?_)
  rw [List.map_map]
  exact List.map_congr_left fun p _ => by simp [Datum.pair]

theorem tree_of_tuple {type : TypeId} {fields : List (Field TypeId)}
    (body : m.schema.body type = .struct fields .tuple)
    (takes : m.schema.takes .representation type .list = type)
    {ps : List CopiedField} {items : List Datum}
    (places : ps.map (·.index) = List.range fields.length)
    (shown : ps.map (·.tree) = items.map Datum.tree)
    (values : ∀ p ∈ ps, ∀ f, fields[p.index]? = some f →
      m.Copies .representation f.nullable f.type p.tree p.content)
    (smaller : ∀ d ∈ items, ∀ type, ReadsBack m .representation type d) :
    m.schema.tree .representation type
        (.struct (m.filled type fields (ps.map CopiedField.given))) =
      (m.schema.canonical .representation type (.list items)).tree := by
  have hcanonical : m.schema.canonical .representation type (.list items) =
      .list (m.schema.canonicalItems .representation (fields[·]?.map (·.type)) items) := by
    simp only [canonical, takes, body]
  have apart : (ps.map (·.index)).Nodup := places ▸ List.nodup_range
  rw [tree_eq, read_struct body, hcanonical, Datum.tree_list, readStruct, Reading.tree]
  refine congrArg Tree.list (List.ext_getElem? fun i => ?_)
  rw [List.getElem?_map, List.getElem?_map, getElem?_canonicalItems, Option.map_map]
  have hindex : (ps.map (·.index))[i]? = (List.range fields.length)[i]? := by rw [places]
  have htree : (ps.map (·.tree))[i]? = (items.map Datum.tree)[i]? := by rw [shown]
  rw [List.getElem?_map] at hindex
  rw [List.getElem?_map, List.getElem?_map] at htree
  cases hp : ps[i]? with
  | none =>
    rw [hp, Option.map_none] at hindex htree
    rw [Option.map_eq_none_iff.mp htree.symm]
    have hlen : fields.length ≤ i := by simpa using hindex.symm
    have hzip : (fields.zip (m.filled type fields (ps.map CopiedField.given))).length ≤ i := by
      rw [List.length_zip]
      omega
    rw [List.getElem?_eq_none hzip]
    rfl
  | some p =>
    rw [hp, Option.map_some] at hindex htree
    obtain ⟨d, hd, ht⟩ := Option.map_eq_some_iff.mp htree.symm
    obtain ⟨hlt, he⟩ := List.getElem?_eq_some_iff.mp hindex.symm
    obtain rfl : i = p.index := by simpa using he
    rw [List.length_range] at hlt
    have hf := List.getElem?_eq_getElem hlt
    have hmem := List.mem_of_getElem? hp
    have hslot : (fields.zip (m.filled type fields (ps.map CopiedField.given)))[p.index]? =
        some (fields[p.index], ⟨m.fieldLayout type p.index, .given p.content⟩) :=
      List.getElem?_zip_eq_some.mpr ⟨hf, getElem?_filled_given apart hmem hf⟩
    rw [hslot, hd, hf]
    exact congrArg some (smaller d (List.mem_of_getElem? hd) _ _ _ (ht ▸ values p hmem _ hf))

theorem tree_of_choice (valid : m.schema.Valid) {type member : TypeId} {members : List TypeId}
    {repr : UnionRepr} {key : String} {i : Nat} {d : Datum} {v : Value}
    (body : m.schema.body type = .union members repr)
    (takes : m.schema.takes view type .map = type)
    (found : m.schema.MemberFound view members repr key i) (at_member : members[i]? = some member)
    (value : m.Copies view false member d.tree (some v)) (smaller : ReadsBack m view member d) :
    m.schema.tree view type (.union i v) =
      (m.schema.canonical view type (.map [(key, d)])).tree := by
  have hmember : m.schema.memberUnder? view members repr key = some member := by
    rw [memberUnder?, show _ = some i from found]
    exact at_member
  have hcanonical : m.schema.canonical view type (.map [(key, d)]) =
      .map [(key, m.schema.canonical view member d)] := by
    simp only [canonical, takes, body, canonicalEntries_eq, List.map_cons, hmember]
    rfl
  have hvalue : m.schema.tree view member v = (m.schema.canonical view member d).tree :=
    smaller false (some v) value
  rw [tree_eq, valid.read_choice body found at_member, hcanonical, Datum.tree_map, Reading.tree,
    hvalue]
  rfl

/-- One level of a data tree reads back in canonical form, if all below it does. -/
theorem tree_of_builds (valid : m.schema.Valid) (once : view = .representation → m.schema.RenamesOnce)
    {d : Datum} (smaller : ∀ e : Datum, sizeOf e < sizeOf d → ∀ type, ReadsBack m view type e)
    {type : TypeId} {v : Value} (h : m.Builds view type d.tree v) :
    m.schema.tree view type v = (m.schema.canonical view type d).tree := by
  have takes := takes_of_builds h
  generalize ht : d.tree = t at h
  cases h with
  | scalar denotes =>
    obtain rfl := Datum.tree_eq_scalar_iff.mp ht
    rw [tree_eq, denotes.read valid once]
    exact (Datum.tree_scalar _).symm
  | @list elem nullable ps body items =>
    obtain ⟨ds, rfl, shown⟩ := Datum.tree_eq_list_iff.mp ht
    rw [tree_eq]
    simp only [read, canonical, takes, body, canonicalItems_elem, Reading.tree, List.map_map,
      Datum.tree_list]
    refine congrArg Tree.list (map_eq_of_map_eq shown.symm fun p hp e he heq => ?_)
    exact smaller e (Datum.sizeOf_lt_of_mem_items he) elem nullable p.2 (heq ▸ items p hp)
  | map body keys texts apart values =>
    obtain ⟨entries, rfl, shown⟩ := Datum.tree_eq_map_iff.mp ht
    exact tree_of_map valid once body (takes .map) shown.symm keys texts values fun p hp =>
      smaller p.2 (Datum.sizeOf_lt_of_mem_entries hp) _
  | struct body shows apart required values =>
    cases shows with
    | @entries _ keys ks keyed found =>
      obtain ⟨entries, rfl, shown⟩ := Datum.tree_eq_map_iff.mp ht
      rw [List.map_map] at apart
      exact tree_of_entries body keyed (takes .map) (valid.tells_entries once body keyed) shown.symm
        found apart (fun p hp f hf => values p.2 (List.mem_map_of_mem hp) f hf) fun p hp =>
          smaller p.2 (Datum.sizeOf_lt_of_mem_entries hp)
    | @pairs keys ks seen found =>
      obtain ⟨ds, rfl, shown⟩ := Datum.tree_eq_list_iff.mp ht
      obtain ⟨entries, rfl, he⟩ := pairs_of_tree shown.symm
      subst seen
      rw [List.map_map] at apart
      exact tree_of_pairs body (takes .list) (valid.tells_pairs (once rfl) body) he found apart
        (fun p hp f hf => values p.2 (List.mem_map_of_mem hp) f hf) fun p hp =>
          smaller p.2 (Datum.sizeOf_lt_of_mem_pairs hp)
    | tuple seen places =>
      obtain ⟨ds, rfl, shown⟩ := Datum.tree_eq_list_iff.mp ht
      subst seen
      exact tree_of_tuple body (takes .list) places shown.symm values fun e he =>
        smaller e (Datum.sizeOf_lt_of_mem_items he)
  | @choice members repr key i member t v body found at_member value =>
    obtain ⟨entries, rfl, shown⟩ := Datum.tree_eq_map_iff.mp ht
    obtain ⟨⟨k, e⟩, rest, rfl, he, hnil⟩ := List.map_eq_cons_iff.mp shown
    obtain rfl := List.map_eq_nil_iff.mp hnil
    cases he
    have hlt := Datum.sizeOf_lt_of_mem_entries (List.mem_singleton_self (k, e))
    exact tree_of_choice valid body (takes .map) found at_member value (smaller e hlt member)

/-- **A data tree reads back in canonical form.** -/
theorem readsBack (valid : m.schema.Valid) (once : view = .representation → m.schema.RenamesOnce)
    (d : Datum) (type : TypeId) : ReadsBack m view type d := by
  have builds {type : TypeId} {v : Value} (hb : m.Builds view type d.tree v) :
      m.schema.tree view type v = (m.schema.canonical view type d).tree :=
    tree_of_builds valid once (fun e _ => readsBack valid once e) hb
  apply readsBack_of_value valid
  intro nullable v hv
  rcases (Model.copies_some_iff valid).mp hv with hb | ⟨members, i, member, w, rfl, body, hk, hb, rfl⟩
  · exact builds hb
  · rw [tree_kinded body (kindedMember?_spec hk).1, builds hb]
    refine congrArg Datum.tree (canonical_eq_of_takes ?_)
    rw [Datum.kind_tree] at hk
    rw [takes_of_builds hb, takes]
    simp only [target?, body, hk]
    rfl
termination_by sizeOf d

end ReadingBack

/-! ## What is built from a data tree -/

/-- **What is built from a data tree, in either view, reads back as its canonical form**, which has
the content of the data tree.  In the representation view this is what is encoded. -/
theorem reads_back_canonical {ts : TypeSystem} {s : Schema} {c : Config} {m : Model}
    (frozen : ts.finalize = .ok s) (once : s.RenamesOnce) (compiled : s.compile c = .ok m)
    (type : TypeId) (view : View) (d : Datum) {v : TypedValue}
    (built : (⟨m, type, view⟩ : Prototype).buildFrom (.basic d) = .ok v) :
    (v.nodeIn view).tree = (s.canonical view type d).tree ∧
      (view = .representation → v.toRepresentation = .ok (s.canonical view type d)) ∧
      d.Rearranges (decide (view = .representation)) (s.canonical view type d) := by
  obtain rfl := schema_of_compile compiled
  obtain ⟨w, hw, rfl⟩ :=
    (Prototype.buildFrom_eq_ok_iff (valid_of_finalize frozen)).mp built
  have htree : m.schema.tree view type w = (m.schema.canonical view type d).tree :=
    readsBack (valid_of_finalize frozen) (fun _ => once) d type false (some w) hw
  refine ⟨htree, ?_, canonical_rearranges type d⟩
  rintro rfl
  obtain ⟨e, he, het⟩ := (Node.typed ⟨m.schema, type, .representation, w⟩).toDatum_of_represented rfl
  obtain rfl := Datum.tree_injective e _ (het.trans htree)
  exact mapError_eq_ok_iff.mpr he

theorem reads_back_canonical_sample :
    Sample.types.finalize = .ok Sample.schema ∧ Sample.schema.RenamesOnce ∧
      Sample.schema.compile .empty = .ok Sample.model ∧
      Sample.prototype.buildFrom (.basic Sample.datum) = .ok ⟨Sample.model, 7, Sample.value⟩ ∧
      (⟨Sample.model, 7, Sample.value⟩ : TypedValue).toRepresentation =
        .ok (Sample.schema.canonical .representation 7 Sample.datum) :=
  ⟨Sample.finalize_types, Sample.renamesOnce_schema, Sample.compile_schema, Sample.buildFrom_datum,
    (reads_back_canonical Sample.finalize_types Sample.renamesOnce_schema Sample.compile_schema 7
      .representation Sample.datum Sample.buildFrom_datum).2.1 rfl⟩

/-- The fields of the sheet have changed places. -/
example : Sample.schema.canonical .representation 7 Sample.datum = .list
    [ .null,
      .scalar (.int 5),
      .map [ ("c", .map [("l", .scalar (.int 3)), ("high", .null)]),
        ("tag", .scalar (.string "a:b")) ] ] := rfl

end Schema

end DualView
