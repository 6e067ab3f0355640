import DualView.Proofs.Assembly.Runs
import DualView.Proofs.Codec.Keys
import DualView.Prototype

/-!
# The grammar of representations

`Schema.Represents` is the declared grammar of a schema, as one would write it down from the
documentation: it reads the declarations and knows nothing of openings, frames or the order in
which anything is checked.  Decoding accepts exactly the data trees in the grammar.

* `Schema.represents_of_copies`, `Schema.Represents.copies`: the two directions.
* `Schema.decodes_iff_represents`: decoding succeeds exactly on the grammar.
-/

namespace DualView

namespace Schema

/-- The keyed fields of a struct are written as the entries of a map, or as a list of pairs. -/
inductive WritesFields : StructRepr → Renaming → List (String × Datum) → Datum → Prop
  | map {keys : Renaming} {es : List (String × Datum)} : WritesFields (.map keys) keys es (.map es)
  | listpairs {keys : Renaming} {es : List (String × Datum)} :
      WritesFields (.listpairs keys) keys es
        (.list (es.map fun p => .list [.scalar (.string p.1), p.2]))

theorem writesFields_map {repr : StructRepr} {keys : Renaming} {es : List (String × Datum)}
    (keyed : repr.entryKeys? .representation = some keys) :
    WritesFields repr keys es (.map es) := by
  cases repr with
  | map keys' =>
    cases keyed
    exact .map
  | _ => contradiction

/-- A data tree represents a value of a type. -/
inductive Represents (s : Schema) : TypeId → Datum → Prop
  | scalar {type : TypeId} {a : Scalar} (body : s.body type = .scalar a.kind) :
      Represents s type (.scalar a)
  | list {type elem : TypeId} {nullable : Bool} {items : List Datum}
      (body : s.body type = .list elem nullable)
      (nulls : .null ∈ items → nullable = true)
      (values : ∀ d ∈ items, d ≠ .null → Represents s elem d) :
      Represents s type (.list items)
  | map {type key value : TypeId} {nullable : Bool} {policy : NullPolicy}
      {entries : List (String × Datum)} (body : s.body type = .map key value nullable policy)
      (apart : (entries.map (·.1)).Nodup)
      (keys : ∀ p ∈ entries, Represents s key (.scalar (.string p.1)))
      (nulls : ∀ p ∈ entries, p.2 = .null → nullable = true)
      (values : ∀ p ∈ entries, p.2 ≠ .null → Represents s value p.2) :
      Represents s type (.map entries)
  | keyedFields {type : TypeId} {fields : List (Field TypeId)} {repr : StructRepr}
      {keys : Renaming} {entries : List (String × Datum)} {d : Datum}
      (body : s.body type = .struct fields repr) (written : WritesFields repr keys entries d)
      (declared : ∀ p ∈ entries, ∃ f ∈ fields, keys.keyOf f.name = p.1)
      (apart : (entries.map (·.1)).Nodup)
      (required : ∀ f ∈ fields, f.optional = false → keys.keyOf f.name ∈ entries.map (·.1))
      (nulls : ∀ p ∈ entries, ∀ f ∈ fields, keys.keyOf f.name = p.1 → p.2 = .null →
        f.nullable = true)
      (values : ∀ p ∈ entries, ∀ f ∈ fields, keys.keyOf f.name = p.1 → p.2 ≠ .null →
        Represents s f.type p.2) :
      Represents s type d
  | tuple {type : TypeId} {fields : List (Field TypeId)} {items : List Datum}
      (body : s.body type = .struct fields .tuple) (arity : items.length = fields.length)
      (nulls : ∀ p ∈ fields.zip items, p.2 = .null → p.1.nullable = true)
      (values : ∀ p ∈ fields.zip items, p.2 ≠ .null → Represents s p.1.type p.2) :
      Represents s type (.list items)
  | stringjoin {type : TypeId} {fields : List (Field TypeId)} {separator text : String}
      (body : s.body type = .struct fields (.stringjoin separator))
      (arity : (Text.split separator text).length = fields.length) :
      Represents s type (.scalar (.string text))
  | keyed {type member : TypeId} {members : List TypeId} {ds : Labels String} {key : String}
      {d : Datum} (body : s.body type = .union members (.keyed ds)) (declared : member ∈ members)
      (discriminant : ds.labelOf? (s.nameOf member) = some key) (value : Represents s member d) :
      Represents s type (.map [(key, d)])
  | kinded {type member : TypeId} {members : List TypeId} {d : Datum}
      (body : s.body type = .union members .kinded) (declared : member ∈ members)
      (kind : (s.decl member).reprKind? = some d.kind) (value : Represents s member d) :
      Represents s type d
  | text {type : TypeId} {members : List String} {keys : Renaming} {member : String}
      (body : s.body type = .enum members (.string keys)) (declared : member ∈ members) :
      Represents s type (.scalar (.string (keys.keyOf member)))
  | int {type : TypeId} {members : List String} {values : Labels Int64} {member : String}
      {x : Int64} (body : s.body type = .enum members (.int values)) (declared : member ∈ members)
      (value : values.labelOf? member = some x) : Represents s type (.scalar (.int x))

end Schema

variable {m : Model}

/-! ## What is decoded is in the grammar -/

namespace Schema

theorem represents_of_denotes (valid : m.schema.Valid) (once : m.schema.RenamesOnce)
    {type : TypeId} {a : Scalar} {v : Value} (h : m.Denotes .representation type a v) :
    m.schema.Represents type (.scalar a) := by
  cases h with
  | scalar body => exact .scalar body
  | name seen body found => contradiction
  | text seen body found =>
    obtain ⟨name, hn, hi⟩ := Option.bind_eq_some_iff.mp found
    have hm := (idxOf?_eq_some_iff_of_nodup (valid.enum_nodup body)).mp hi
    rw [← Renaming.keyOf_of_nameOf? (once.enum body) hn]
    exact .text body (List.mem_of_getElem? hm)
  | int seen body found =>
    obtain ⟨name, hn, hi⟩ := Option.bind_eq_some_iff.mp found
    have hm := (idxOf?_eq_some_iff_of_nodup (valid.enum_nodup body)).mp hi
    exact .int body (List.mem_of_getElem? hm) ((valid.enum_values body).labelOf?_iff_nameOf?.mpr hn)
  | joined seen body arity => exact .stringjoin body arity

theorem represents_of_copies_scalar (valid : m.schema.Valid) (once : m.schema.RenamesOnce)
    {nullable : Bool} {type : TypeId} {a : Scalar} {v : Value}
    (h : m.Copies .representation nullable type (.scalar a) (some v)) :
    m.schema.Represents type (.scalar a) := by
  obtain ⟨member, target, w, ht, hd, -⟩ := Opening.copies_scalar_iff.mp h
  have hr := represents_of_denotes valid once hd
  rw [target?.eq_def] at ht
  split at ht
  · rename_i members body
    obtain ⟨⟨i, _⟩, hk, he⟩ := Option.map_eq_some_iff.mp ht
    cases he
    obtain ⟨hm, hkind⟩ := kindedMember?_spec hk
    exact .kinded body (List.mem_of_getElem? hm) hkind hr
  · cases ht
    exact hr

/-- A slot takes null where it may, and else what is in the grammar. -/
def RepresentsSlot (s : Schema) (nullable : Bool) (type : TypeId) (d : Datum) : Prop :=
  (d = .null → nullable = true) ∧ (d ≠ .null → s.Represents type d)

theorem representsSlot_of_copies (valid : m.schema.Valid) {type : TypeId} {nullable : Bool}
    {d : Datum} {c : Option Value} (h : m.Copies .representation nullable type d.tree c)
    (values : ∀ v, m.Copies .representation nullable type d.tree (some v) →
      m.schema.Represents type d) : m.schema.RepresentsSlot nullable type d := by
  cases c with
  | none =>
    obtain ⟨ht, hn⟩ := (Model.copies_none_iff valid).mp h
    exact ⟨fun _ => hn, fun hd => absurd (Datum.tree_eq_null_iff.mp ht) hd⟩
  | some v =>
    refine ⟨?_, fun _ => values v h⟩
    rintro rfl
    rw [Datum.tree_null] at h
    exact (Opening.copies_null_iff.mp h).1

theorem represents_entries (valid : m.schema.Valid) (once : m.schema.RenamesOnce)
    {type key value : TypeId} {nullable : Bool} {nulls : NullPolicy}
    (body : m.schema.body type = .map key value nullable nulls)
    {entries : List (String × Datum)} {es : List CopiedEntry}
    (shown : es.map (fun e => (e.keyTree, e.tree)) = entries.map Datum.entryTree)
    (keys : ∀ e ∈ es, m.Copies .representation false key e.keyTree (some e.key))
    (texts : ∀ e ∈ es, m.schema.Text key e.key e.text) (apart : (es.map (·.text)).Nodup)
    (slots : ∀ p ∈ entries, ∀ e ∈ es, e.tree = p.2.tree →
      m.schema.RepresentsSlot nullable value p.2) :
    m.schema.Represents type (.map entries) := by
  have shown_at {p : String × Datum} (hp : p ∈ entries) :
      ∃ e ∈ es, e.keyTree = .scalar (.string p.1) ∧ e.tree = p.2.tree := by
    obtain ⟨e, he, heq⟩ := exists_mem_of_map_eq shown hp
    exact ⟨e, he, Prod.mk.inj heq⟩
  have hslot : ∀ p ∈ entries, m.schema.RepresentsSlot nullable value p.2 := fun p hp => by
    obtain ⟨e, he, -, ht⟩ := shown_at hp
    exact slots p hp e he ht
  refine .map body ?_ (fun p hp => ?_) (fun p hp => (hslot p hp).1) fun p hp => (hslot p hp).2
  · -- the text of each key is the key itself
    have : es.map (·.text) = entries.map (·.1) :=
      map_eq_of_map_eq shown fun e he p _ heq =>
        Model.Copies.text_eq valid once ((Prod.mk.inj heq).1 ▸ keys e he) (texts e he)
    rwa [this] at apart
  · obtain ⟨e, he, hk, -⟩ := shown_at hp
    exact represents_of_copies_scalar valid once (hk ▸ keys e he)

theorem represents_fields {type : TypeId} {fields : List (Field TypeId)} {repr : StructRepr}
    {keys : Renaming} {entries : List (String × Datum)} {d : Datum}
    (body : m.schema.body type = .struct fields repr) (tells : keys.Tells fields)
    (written : WritesFields repr keys entries d) {ks : List (String × CopiedField)}
    (shown : ks.map (fun p => (.scalar (.string p.1), p.2.tree)) = entries.map Datum.entryTree)
    (found : ∀ p ∈ ks, Field.Found keys fields p.1 p.2.index)
    (apart : (ks.map (·.2.index)).Nodup)
    (required : ∀ (i : Nat) f, fields[i]? = some f → f.optional = false →
      i ∈ ks.map (·.2.index))
    (slots : ∀ p ∈ entries, ∀ q ∈ ks, q.2.tree = p.2.tree → ∀ f, fields[q.2.index]? = some f →
      m.schema.RepresentsSlot f.nullable f.type p.2) :
    m.schema.Represents type d := by
  have shown_at {p : String × Datum} (hp : p ∈ entries) :
      ∃ q ∈ ks, q.1 = p.1 ∧ q.2.tree = p.2.tree := by
    obtain ⟨q, hq, heq⟩ := exists_mem_of_map_eq shown hp
    have := Prod.mk.inj heq
    exact ⟨q, hq, Scalar.string.inj (Tree.scalar.inj this.1), this.2⟩
  have hkeys : ks.map (·.1) = entries.map (·.1) := map_eq_of_map_eq shown fun q _ p _ heq =>
    Scalar.string.inj (Tree.scalar.inj (Prod.mk.inj heq).1)
  have hslot : ∀ p ∈ entries, ∀ f ∈ fields, keys.keyOf f.name = p.1 →
      m.schema.RepresentsSlot f.nullable f.type p.2 := fun p hp f hf hk => by
    obtain ⟨q, hq, he, ht⟩ := shown_at hp
    obtain ⟨g, hg, hgk⟩ := tells.found_iff.mp (found q hq)
    obtain ⟨i, hi⟩ := List.mem_iff_getElem?.mp hf
    obtain ⟨-, rfl⟩ := tells.keyOf_inj hg hi (hgk.trans (he.trans hk.symm))
    exact slots p hp q hq ht g hg
  refine .keyedFields body written (fun p hp => ?_) ?_ (fun f hf ho => ?_)
    (fun p hp f hf hk => (hslot p hp f hf hk).1) fun p hp f hf hk => (hslot p hp f hf hk).2
  · obtain ⟨q, hq, he, -⟩ := shown_at hp
    obtain ⟨f, hf, hk⟩ := tells.found_iff.mp (found q hq)
    exact ⟨f, List.mem_of_getElem? hf, hk.trans he⟩
  · rw [← hkeys]
    exact (tells.apart_iff found).mpr apart
  · obtain ⟨i, hi⟩ := List.mem_iff_getElem?.mp hf
    obtain ⟨q, hq, rfl⟩ := List.mem_map.mp (required i f hi ho)
    obtain ⟨g, hg, hk⟩ := tells.found_iff.mp (found q hq)
    cases hi.symm.trans hg
    rw [hk, ← hkeys]
    exact List.mem_map_of_mem hq

theorem pairs_of_tree {ks : List (String × CopiedField)} {ds : List Datum}
    (h : ks.map (fun p => Tree.list [.scalar (.string p.1), p.2.tree]) = ds.map Datum.tree) :
    ∃ entries : List (String × Datum),
      ds = entries.map (fun p => .list [.scalar (.string p.1), p.2]) ∧
        ks.map (fun p => (.scalar (.string p.1), p.2.tree)) = entries.map Datum.entryTree := by
  induction ds generalizing ks with
  | nil =>
    rw [List.map_nil, List.map_eq_nil_iff] at h
    exact ⟨[], rfl, by rw [h]; rfl⟩
  | cons d ds ih =>
    obtain ⟨p, ks, rfl, hd, hrest⟩ := List.map_eq_cons_iff.mp h
    obtain ⟨entries, rfl, he⟩ := ih hrest
    have hd' : d.tree = (Tree.list [.scalar (.string p.1), p.2.tree]) := hd.symm
    cases d with
    | list items =>
      rw [Datum.tree_list, Tree.list.injEq] at hd'
      obtain ⟨k, items, rfl, hk, hitems⟩ := List.map_eq_cons_iff.mp hd'
      obtain ⟨e, items, rfl, ht, hnil⟩ := List.map_eq_cons_iff.mp hitems
      obtain rfl := List.map_eq_nil_iff.mp hnil
      obtain rfl := Datum.tree_eq_scalar_iff.mp hk
      refine ⟨(p.1, e) :: entries, rfl, ?_⟩
      rw [List.map_cons, List.map_cons, he, Datum.entryTree, ht]
    | _ => simp at hd'

theorem represents_tuple {type : TypeId} {fields : List (Field TypeId)} {items : List Datum}
    {ps : List CopiedField} (body : m.schema.body type = .struct fields .tuple)
    (places : ps.map (·.index) = List.range fields.length)
    (shown : items.map Datum.tree = ps.map (·.tree))
    (slots : ∀ d ∈ items, ∀ q ∈ ps, q.tree = d.tree → ∀ f, fields[q.index]? = some f →
      m.schema.RepresentsSlot f.nullable f.type d) :
    m.schema.Represents type (.list items) := by
  have hslot : ∀ p ∈ fields.zip items, m.schema.RepresentsSlot p.1.nullable p.1.type p.2 := by
    refine forall_mem_zip_iff.mpr ?_
    intro i f d hf hd
    have hps : (ps.map (·.tree))[i]? = some d.tree := by
      rw [← shown, List.getElem?_map, hd, Option.map_some]
    rw [List.getElem?_map] at hps
    obtain ⟨q, hq, he⟩ := Option.map_eq_some_iff.mp hps
    have hindex : (List.range fields.length)[i]? = some q.index := by
      rw [← places, List.getElem?_map, hq, Option.map_some]
    obtain rfl : i = q.index := by
      obtain ⟨hlt, he⟩ := List.getElem?_eq_some_iff.mp hindex
      simpa using he
    exact slots d (List.mem_of_getElem? hd) q (List.mem_of_getElem? hq) he f hf
  refine .tuple body ?_ (fun p hp => (hslot p hp).1) fun p hp => (hslot p hp).2
  have hplaces : ps.length = fields.length := by simpa using congrArg List.length places
  have hshown : items.length = ps.length := by simpa using congrArg List.length shown
  exact hshown.trans hplaces

theorem represents_of_builds (valid : m.schema.Valid) (once : m.schema.RenamesOnce) {d : Datum}
    (smaller : ∀ e : Datum, sizeOf e < sizeOf d → ∀ nullable type v,
      m.Copies .representation nullable type e.tree (some v) → m.schema.Represents type e)
    {type : TypeId} {v : Value} (h : m.Builds .representation type d.tree v) :
    m.schema.Represents type d := by
  have slot {e : Datum} (he : sizeOf e < sizeOf d) {nullable : Bool} {type : TypeId}
      {c : Option Value} (hc : m.Copies .representation nullable type e.tree c) :
      m.schema.RepresentsSlot nullable type e :=
    representsSlot_of_copies valid hc fun v hv => smaller e he nullable type v hv
  generalize ht : d.tree = t at h
  cases h with
  | scalar denotes =>
    obtain rfl := Datum.tree_eq_scalar_iff.mp ht
    exact represents_of_denotes valid once denotes
  | @list elem nullable ps body items =>
    obtain ⟨ds, rfl, shown⟩ := Datum.tree_eq_list_iff.mp ht
    have hslot : ∀ d ∈ ds, m.schema.RepresentsSlot nullable elem d := fun d hd => by
      obtain ⟨p, hp, he⟩ := exists_mem_of_map_eq shown.symm hd
      exact slot (Datum.sizeOf_lt_of_mem_items hd) (he ▸ items p hp)
    exact .list body (fun hn => (hslot _ hn).1 rfl) fun d hd => (hslot d hd).2
  | map body keys texts apart values =>
    obtain ⟨entries, rfl, shown⟩ := Datum.tree_eq_map_iff.mp ht
    apply represents_entries valid once body shown.symm keys texts apart
    intro p hp e he heq
    exact slot (Datum.sizeOf_lt_of_mem_entries hp) (heq ▸ values e he)
  | struct body shows apart required values =>
    cases shows with
    | @entries _ keys ks keyed found =>
      obtain ⟨entries, rfl, shown⟩ := Datum.tree_eq_map_iff.mp ht
      have tells := valid.tells_entries (fun _ => once) body keyed
      rw [List.map_map] at apart
      simp only [List.map_map] at required
      refine represents_fields body tells (writesFields_map keyed) shown.symm found apart required
        fun p hp q hq heq f hf => ?_
      have copied := values q.2 (List.mem_map_of_mem hq) f hf
      exact slot (Datum.sizeOf_lt_of_mem_entries hp) (heq ▸ copied)
    | @pairs keys ks seen found =>
      obtain ⟨ds, rfl, shown⟩ := Datum.tree_eq_list_iff.mp ht
      obtain ⟨entries, rfl, he⟩ := pairs_of_tree shown.symm
      rw [List.map_map] at apart
      simp only [List.map_map] at required
      refine represents_fields body (valid.tells_pairs once body) .listpairs he found apart required
        fun p hp q hq heq f hf => ?_
      have copied := values q.2 (List.mem_map_of_mem hq) f hf
      exact slot (Datum.sizeOf_lt_of_mem_pairs hp) (heq ▸ copied)
    | tuple seen places =>
      obtain ⟨ds, rfl, shown⟩ := Datum.tree_eq_list_iff.mp ht
      exact represents_tuple body places shown fun d hd q hq he f hf =>
        slot (Datum.sizeOf_lt_of_mem_items hd) (he ▸ values q hq f hf)
  | @choice members repr key i member t v body found at_member value =>
    cases repr with
    | kinded => contradiction
    | keyed ds =>
      obtain ⟨member', hm, hl⟩ := (valid.memberFound_keyed_iff body).mp found
      cases at_member.symm.trans hm
      obtain ⟨entries, rfl, shown⟩ := Datum.tree_eq_map_iff.mp ht
      obtain ⟨⟨k, e⟩, rest, rfl, he, hnil⟩ := List.map_eq_cons_iff.mp shown
      obtain rfl := List.map_eq_nil_iff.mp hnil
      cases he
      have hlt := Datum.sizeOf_lt_of_mem_entries (List.mem_singleton_self (k, e))
      exact .keyed body (List.mem_of_getElem? hm) hl (smaller e hlt false member v value)

/-- **What is decoded is in the grammar.** -/
theorem represents_of_copies (valid : m.schema.Valid) (once : m.schema.RenamesOnce) (d : Datum)
    (nullable : Bool) (type : TypeId) (v : Value)
    (h : m.Copies .representation nullable type d.tree (some v)) :
    m.schema.Represents type d := by
  have builds {type : TypeId} {v : Value} (hb : m.Builds .representation type d.tree v) :=
    represents_of_builds valid once
      (fun e _ nullable type v he => represents_of_copies valid once e nullable type v he) hb
  rcases (Model.copies_some_iff valid).mp h with hb | ⟨members, i, member, w, -, body, hk, hb, -⟩
  · exact builds hb
  · obtain ⟨hm, hkind⟩ := kindedMember?_spec hk
    rw [Datum.kind_tree] at hkind
    exact .kinded body (List.mem_of_getElem? hm) hkind (builds hb)
termination_by sizeOf d

/-! ## What is in the grammar is decoded -/

theorem copies_of_slot {type : TypeId} {nullable : Bool} {d : Datum}
    (null : d = .null → nullable = true)
    (value : d ≠ .null → ∃ v, m.Copies .representation nullable type d.tree (some v)) :
    ∃ c, m.Copies .representation nullable type d.tree c := by
  by_cases hd : d = .null
  · subst hd
    rw [Datum.tree_null]
    exact ⟨none, Opening.copies_null_iff.mpr ⟨null rfl, rfl⟩⟩
  · obtain ⟨v, hv⟩ := value hd
    exact ⟨some v, hv⟩

theorem builds_of_entries (valid : m.schema.Valid) (once : m.schema.RenamesOnce)
    {type key value : TypeId} {nullable : Bool} {nulls : NullPolicy}
    (body : m.schema.body type = .map key value nullable nulls)
    {entries : List (String × Datum)} (apart : (entries.map (·.1)).Nodup)
    (keys : ∀ p ∈ entries, ∃ k,
      m.Copies .representation false key (.scalar (.string p.1)) (some k))
    (values : ∀ p ∈ entries, ∃ c, m.Copies .representation nullable value p.2.tree c) :
    ∃ v, m.Builds .representation type (Datum.map entries).tree v := by
  have copied : ∀ p ∈ entries, ∃ e : CopiedEntry,
      (e.keyTree, e.tree) = Datum.entryTree p ∧ e.keyTree = .scalar (.string e.text) ∧
        m.Copies .representation false key e.keyTree (some e.key) ∧
        m.Copies .representation nullable value e.tree e.content := fun p hp => by
    obtain ⟨k, hk⟩ := keys p hp
    obtain ⟨c, hc⟩ := values p hp
    exact ⟨⟨_, _, k, p.1, c⟩, rfl, rfl, hk, hc⟩
  obtain ⟨es, hes, hall⟩ := exists_map_eq copied
  have htexts : es.map (·.text) = entries.map (·.1) := map_eq_of_map_eq hes fun e he p _ heq => by
    have := (hall e he).1.symm.trans (Prod.mk.inj heq).1
    exact Scalar.string.inj (Tree.scalar.inj this)
  rw [Datum.tree_map, ← hes]
  refine ⟨_, .map body (fun e he => (hall e he).2.1) (fun e he => ?_) (htexts ▸ apart)
    fun e he => (hall e he).2.2⟩
  have := (hall e he).2.1
  rw [(hall e he).1] at this
  exact text_iff_read.mpr (this.read_scalar valid fun _ => once)

theorem builds_of_fields {type : TypeId} {fields : List (Field TypeId)} {repr : StructRepr}
    {keys : Renaming} {entries : List (String × Datum)} {d : Datum}
    (body : m.schema.body type = .struct fields repr) (tells : keys.Tells fields)
    (written : WritesFields repr keys entries d)
    (declared : ∀ p ∈ entries, ∃ f ∈ fields, keys.keyOf f.name = p.1)
    (apart : (entries.map (·.1)).Nodup)
    (required : ∀ f ∈ fields, f.optional = false → keys.keyOf f.name ∈ entries.map (·.1))
    (values : ∀ p ∈ entries, ∀ f ∈ fields, keys.keyOf f.name = p.1 →
      ∃ c, m.Copies .representation f.nullable f.type p.2.tree c) :
    ∃ v, m.Builds .representation type d.tree v := by
  have copied : ∀ p ∈ entries, ∃ q : String × CopiedField,
      (Tree.scalar (.string q.1), q.2.tree) = Datum.entryTree p ∧
        Field.Found keys fields q.1 q.2.index ∧ ∀ f, fields[q.2.index]? = some f →
          m.Copies .representation f.nullable f.type q.2.tree q.2.content := fun p hp => by
    obtain ⟨f, hf, hk⟩ := declared p hp
    obtain ⟨c, hc⟩ := values p hp f hf hk
    obtain ⟨i, hi⟩ := List.mem_iff_getElem?.mp hf
    refine ⟨(p.1, ⟨i, p.2.tree, c⟩), rfl, tells.found_iff.mpr ⟨f, hi, hk⟩, fun g hg => ?_⟩
    cases hi.symm.trans hg
    exact hc
  obtain ⟨ks, hks, hall⟩ := exists_map_eq copied
  have hkeys : ks.map (·.1) = entries.map (·.1) := map_eq_of_map_eq hks fun q _ p _ heq =>
    Scalar.string.inj (Tree.scalar.inj (Prod.mk.inj heq).1)
  have found : ∀ q ∈ ks, Field.Found keys fields q.1 q.2.index := fun q hq => (hall q hq).1
  have hshows : ShowsFields .representation fields repr d.tree (ks.map (·.2)) := by
    cases written with
    | map =>
      rw [Datum.tree_map, ← hks]
      exact .entries rfl found
    | listpairs =>
      have : entries.map (fun p => (Datum.list [.scalar (.string p.1), p.2]).tree) =
          ks.map fun q => .list [.scalar (.string q.1), q.2.tree] := by
        refine (map_eq_of_map_eq hks fun q _ p _ heq => ?_).symm
        obtain ⟨hk, ht⟩ := Prod.mk.inj heq
        simp [hk, ht]
      rw [Datum.tree_list, List.map_map]
      exact (congrArg Tree.list this) ▸ .pairs rfl found
  refine ⟨_, .struct body hshows ?_ (fun i f hf ho => ?_) fun p hp f hf => ?_⟩
  · rw [List.map_map]
    exact (tells.apart_iff found).mp (hkeys ▸ apart)
  · rw [List.map_map]
    have := required f (List.mem_of_getElem? hf) ho
    rw [← hkeys] at this
    obtain ⟨q, hq, hk⟩ := List.mem_map.mp this
    obtain ⟨g, hg, hgk⟩ := tells.found_iff.mp (found q hq)
    obtain ⟨rfl, -⟩ := tells.keyOf_inj hg hf (hgk.trans hk)
    exact List.mem_map_of_mem hq
  · obtain ⟨q, hq, rfl⟩ := List.mem_map.mp hp
    exact (hall q hq).2 f hf

theorem builds_of_tuple {type : TypeId} {fields : List (Field TypeId)} {items : List Datum}
    (body : m.schema.body type = .struct fields .tuple) (arity : items.length = fields.length)
    (values : ∀ p ∈ fields.zip items,
      ∃ c, m.Copies .representation p.1.nullable p.1.type p.2.tree c) :
    ∃ v, m.Builds .representation type (Datum.list items).tree v := by
  have copied : ∀ p ∈ items.zipIdx, ∃ q : CopiedField, (q.tree, q.index) = (p.1.tree, p.2) ∧
      ∀ f, fields[q.index]? = some f →
        m.Copies .representation f.nullable f.type q.tree q.content := by
    rintro ⟨d, i⟩ hp
    have hd : items[i]? = some d := List.mem_zipIdx_iff_getElem?.mp hp
    have hlt : i < fields.length := arity ▸ (List.getElem?_eq_some_iff.mp hd).1
    have hf := List.getElem?_eq_getElem hlt
    obtain ⟨c, hc⟩ := forall_mem_zip_iff.mp values i _ d hf hd
    refine ⟨⟨i, d.tree, c⟩, rfl, fun g hg => ?_⟩
    cases hf.symm.trans hg
    exact hc
  obtain ⟨ps, hps, hall⟩ := exists_map_eq copied
  have htrees : ps.map (·.tree) = items.map Datum.tree := by
    rw [← List.zipIdx_map_fst 0 items, List.map_map]
    exact map_eq_of_map_eq hps fun q _ p _ heq => (Prod.mk.inj heq).1
  have hplaces : ps.map (·.index) = List.range fields.length := by
    rw [List.range_eq_range', ← arity, ← List.zipIdx_map_snd 0 items]
    exact map_eq_of_map_eq hps fun q _ p _ heq => (Prod.mk.inj heq).2
  rw [Datum.tree_list, ← htrees]
  refine ⟨_, .struct body (.tuple rfl hplaces) ?_ (fun i f hf _ => ?_) hall⟩
  · rw [hplaces]
    exact List.nodup_range
  · rw [hplaces]
    exact List.mem_range.mpr (List.getElem?_eq_some_iff.mp hf).1

/-- **What is in the grammar is decoded.** -/
theorem Represents.copies (valid : m.schema.Valid) (once : m.schema.RenamesOnce) {type : TypeId}
    {d : Datum} (h : m.schema.Represents type d) (nullable : Bool) :
    ∃ v, m.Copies .representation nullable type d.tree (some v) := by
  have lift {type : TypeId} {d : Datum} {nullable : Bool}
      (h : ∃ v, m.Builds .representation type d.tree v) :
      ∃ v, m.Copies .representation nullable type d.tree (some v) :=
    h.imp fun _ hb => hb.copies valid nullable
  have denotes {type : TypeId} {a : Scalar} {v : Value} {nullable : Bool}
      (h : m.Denotes .representation type a v) :
      ∃ v, m.Copies .representation nullable type (Datum.scalar a).tree (some v) :=
    lift ⟨v, (Datum.tree_scalar a).symm ▸ .scalar h⟩
  induction h generalizing nullable with
  | scalar body => exact denotes (.scalar body)
  | @list _ elem elemNullable items body nulls _ ih =>
    obtain ⟨ps, hps, hall⟩ := exists_map_eq (f := Datum.tree) (g := Prod.fst)
      (P := fun p : Tree × Option Value => m.Copies .representation elemNullable elem p.1 p.2)
      fun d hd => by
        obtain ⟨c, hc⟩ := copies_of_slot (fun e => nulls (e ▸ hd)) fun hne => ih d hd hne elemNullable
        exact ⟨(d.tree, c), rfl, hc⟩
    refine lift ?_
    rw [Datum.tree_list, ← hps]
    exact ⟨_, .list body hall⟩
  | map body apart _ nulls _ ihk ihv =>
    refine lift (builds_of_entries valid once body apart (fun p hp => ?_) fun p hp => ?_)
    · simpa using ihk p hp false
    · exact copies_of_slot (nulls p hp) fun hne => ihv p hp hne _
  | @keyedFields _ fields repr keys entries d body written declared apart required nulls _ ih =>
    have tells : keys.Tells fields := by
      cases written with
      | map =>
        have keyed : StructRepr.entryKeys? .representation (.map keys) = some keys := rfl
        exact valid.tells_entries (fun _ => once) body keyed
      | listpairs => exact valid.tells_pairs once body
    refine lift (builds_of_fields body tells written declared apart required fun p hp f hf hk => ?_)
    exact copies_of_slot (nulls p hp f hf hk) fun hne => ih p hp f hf hk hne _
  | tuple body arity nulls _ ih =>
    refine lift (builds_of_tuple body arity fun p hp => ?_)
    exact copies_of_slot (nulls p hp) fun hne => ih p hp hne _
  | stringjoin body arity => exact denotes (.joined rfl body arity)
  | @keyed _ member members ds key d body declared discriminant _ ih =>
    obtain ⟨v, hv⟩ := ih false
    obtain ⟨i, hi⟩ := List.mem_iff_getElem?.mp declared
    have found := (valid.memberFound_keyed_iff body).mpr ⟨member, hi, discriminant⟩
    refine lift ⟨.union i v, ?_⟩
    rw [Datum.tree_map]
    exact .choice body found hi hv
  | @kinded _ member members d body declared kind _ ih =>
    obtain ⟨v, hv⟩ := ih false
    obtain ⟨i, hi⟩ := List.mem_iff_getElem?.mp declared
    have hk := (valid.kindedMember?_iff body).mpr ⟨hi, kind⟩
    rcases (Model.copies_some_iff valid).mp hv with hb | ⟨members', j, member', w, -, body', -⟩
    · refine ⟨.union i v, (Model.copies_some_iff valid).mpr (.inr
        ⟨members, i, member, v, rfl, body, ?_, hb, rfl⟩)⟩
      rwa [Datum.kind_tree]
    · -- the kind of a kinded union is not its own
      rw [Decl.reprKind?, show (m.schema.decl member).body = _ from body'] at kind
      contradiction
  | @text _ members keys member body declared =>
    obtain ⟨i, hi⟩ := List.mem_iff_getElem?.mp declared
    refine denotes (.text rfl body (i := i) ?_)
    rw [Renaming.nameOf?_keyOf (once.enum body) (valid.enum_separates body) declared]
    exact (idxOf?_eq_some_iff_of_nodup (valid.enum_nodup body)).mpr hi
  | @int _ members values member x body declared value =>
    obtain ⟨i, hi⟩ := List.mem_iff_getElem?.mp declared
    refine denotes (.int rfl body (i := i) ?_)
    rw [(valid.enum_values body).labelOf?_iff_nameOf?.mp value]
    exact (idxOf?_eq_some_iff_of_nodup (valid.enum_nodup body)).mpr hi

end Schema

/-! ## Decoding -/

namespace Sample

theorem tree_datum : datum.tree = .list
    [ .null,
      .scalar (.int 5),
      .map [ (.scalar (.string "tag"), .scalar (.string "a:b")),
        (.scalar (.string "c"), .map [ (.scalar (.string "l"), .scalar (.int 3)),
          (.scalar (.string "high"), .null) ]) ] ] := by
  simp [datum, Datum.entryTree]

theorem buildFrom_datum : prototype.buildFrom (.basic datum) = .ok ⟨model, 7, value⟩ := by
  rw [Prototype.buildFrom, show (Node.basic datum).tree = _ from tree_datum]
  rfl

end Sample

namespace Schema

/-- **Decoding succeeds exactly on the data trees in the grammar of the type.** -/
theorem decodes_iff_represents {ts : TypeSystem} {s : Schema} {c : Config}
    (frozen : ts.finalize = .ok s) (once : s.RenamesOnce) (compiled : s.compile c = .ok m)
    (type : TypeId) (view : View) (d : Datum) :
    (∃ v, (⟨m, type, view⟩ : Prototype).fromRepresentation (.basic d) = .ok v) ↔
      s.Represents type d := by
  obtain rfl := schema_of_compile compiled
  have valid := valid_of_finalize frozen
  constructor
  · rintro ⟨v, hv⟩
    obtain ⟨w, hw, -⟩ := (Prototype.buildFrom_eq_ok_iff (p := ⟨m, type, .representation⟩) valid).mp hv
    exact represents_of_copies valid once d false type w hw
  · intro h
    obtain ⟨w, hw⟩ := h.copies valid once false
    exact ⟨_, (Prototype.buildFrom_eq_ok_iff (p := ⟨m, type, .representation⟩) valid).mpr
      ⟨w, hw, rfl⟩⟩

theorem decodes_iff_represents_sample :
    Sample.types.finalize = .ok Sample.schema ∧ Sample.schema.RenamesOnce ∧
      Sample.schema.compile .empty = .ok Sample.model ∧
      Sample.schema.Represents 7 Sample.datum :=
  ⟨Sample.finalize_types, Sample.renamesOnce_schema, Sample.compile_schema,
    (decodes_iff_represents Sample.finalize_types Sample.renamesOnce_schema
      Sample.compile_schema 7 .typed Sample.datum).mp
        ⟨⟨Sample.model, 7, Sample.value⟩, Sample.buildFrom_datum⟩⟩

end Schema

end DualView
