import DualView.Node.Path
import DualView.Proofs.Assembly.Runs
import DualView.Proofs.Node.Listing
import DualView.Proofs.Schema.Resemblance

/-!
# Answers that agree

Length, positions and keys are found in their own ways, but each answer agrees with what is listed:
in both views, and at every node that is reached from a value that is built.  A map is listed from
rows, which are the entries of a map, the fields of a struct or the one member of a union.  To ask
for a key is to look for its row, and rows are told apart by the texts that represent their keys.

* `TypedNode.storedText?_iff`: which key of a map a text asks for.
* `TypedNode.Fits.exists_rows`: the rows of a map, and what is found in them.
* `TypedNode.Shows`: what a node shows of the value that it is of.
* `Node.Inside.list_agrees`, `Node.Inside.map_agrees`: a node inside a value agrees.
* `Node.Inside.take`, `Node.Inside.follow`: what is reached from a node inside a value is inside it.
* `Builder.answers_agree`: so all nodes of a value that is built agree.
-/

namespace DualView

/-! ## Agreement -/

namespace Node

/-- A key is asked for by its own text, or by the one that represents it if it is a struct. -/
def AskedBy (key : Node) (text : String) : Prop :=
  key.asString = .ok text ∨ key.kind = .map ∧ key.keyText = .ok text

/-- The answers of a list agree with its items. -/
structure ListAgrees (n : Node) (items : List Node) : Prop where
  values : n.values = .ok items
  length : n.length = .ok items.length
  lookupIndex : ∀ position, n.lookupIndex position = itemAt items position

/-- The answers of a map agree with its entries. -/
structure MapAgrees (n : Node) (es : List (Node × Node)) : Prop where
  entries : n.entries = .ok es
  length : n.length = .ok es.length
  represented : ∀ c ∈ es, ∃ text, c.1.keyText = .ok text
  apart : (es.map (·.1.keyText)).Nodup
  lookupNode : ∀ c ∈ es, n.lookupNode c.1 = .ok c.2
  lookupNode_only : ∀ key value, n.lookupNode key = .ok value →
    ∃ c ∈ es, c.2 = value ∧ c.1.keyText = key.keyText
  lookup : ∀ c ∈ es, ∀ text, c.1.asString = .ok text → n.lookup text = .ok c.2
  lookup_only : ∀ text value, n.lookup text = .ok value →
    ∃ c ∈ es, c.2 = value ∧ c.1.AskedBy text

theorem askedBy_key {key text : String} : (Node.key key).AskedBy text ↔ key = text := by
  constructor
  · rintro (own | ⟨map, -⟩)
    · exact Except.ok.inj own
    · contradiction
  · rintro rfl
    exact .inl rfl

end Node

/-! ## Keys of maps -/

/-- The keys of what shows as a map are those of a map. -/
theorem Schema.Fits.body_of_entries {s : Schema} {view : View} {type : TypeId} {v : Value}
    (h : s.Fits type v) {key value : TypeId} {dict : Dict Value} {omitNulls : Bool}
    (shown : s.read view type v = .entries key value dict omitNulls) :
    ∃ owner nullable nulls, s.body owner = .map key value nullable nulls := by
  induction h with
  | scalar body => simp [Schema.read, body] at shown
  | list body states values => simp [Schema.read, body] at shown
  | @map type _ _ nullable nulls _ body keys texts apart states values =>
    simp only [Schema.read, body, Reading.entries.injEq] at shown
    obtain ⟨rfl, rfl, -, -⟩ := shown
    exact ⟨type, nullable, nulls, body⟩
  | @struct type fields repr slots body length states values =>
    simp only [Schema.read, body] at shown
    cases view <;> cases repr <;> simp [Schema.readStruct] at shown
  | @union type member members repr i v body at_member value ih =>
    simp only [Schema.read, body, at_member] at shown
    cases view with
    | typed => contradiction
    | representation =>
      cases repr with
      | kinded => exact ih shown
      | keyed ds =>
        dsimp only at shown
        split at shown <;> contradiction
  | @enum type members repr i body bound =>
    simp only [Schema.read, body] at shown
    cases view with
    | typed => cases hm : members[i]? <;> simp [Schema.readEnum, hm] at shown
    | representation => cases hr : repr.scalar? members i <;> simp [Schema.readEnum, hr] at shown

namespace TypedNode

variable {n : TypedNode}

def keyNode (n : TypedNode) (key : TypeId) (e : Entry Value) : Node :=
  match n.view with
  | .typed => .typed (n.sub key e.key)
  | .representation => .key e.text

def shown? (n : TypedNode) (value : TypeId) (omitNulls : Bool) (e : Entry Value) : Option Node :=
  if omitNulls && e.slot.isNull then none else n.slot? value e.slot

theorem entry?_eq (key value : TypeId) (omitNulls : Bool) (e : Entry Value) :
    n.entry? key value omitNulls e = (n.shown? value omitNulls e).map (n.keyNode key e, ·) := by
  rw [TypedNode.entry?, shown?]
  split <;> rfl

theorem keyText_keyNode {key value : TypeId} {nullable : Bool} {e : Entry Value}
    (fits : n.schema.FitsEntry key value nullable e) :
    (n.keyNode key e).keyText = .ok e.text := by
  rw [keyNode]
  cases n.view with
  | typed => exact fits.text_eq
  | representation => rfl

theorem askedBy_of_scalar {own text : String} (h : n.reading = .scalar (.string own)) :
    (Node.typed n).AskedBy text ↔ own = text := by
  have asString : (Node.typed n).asString = .ok own := by
    rw [Node.asString, Node.scalar?, h]
  rw [Node.AskedBy, asString]
  constructor
  · rintro (same | ⟨map, -⟩)
    · exact Except.ok.inj same
    · rw [Node.kind, h] at map
      contradiction
  · rintro rfl
    exact .inl rfl

theorem askedBy_of_fields {keys : Renaming} {fields : List (Field TypeId)}
    {slots : List (Slot Value)} (h : n.reading = .fields keys fields slots) {own text : String}
    (represented : (Node.typed n).keyText = .ok own) :
    (Node.typed n).AskedBy text ↔ own = text := by
  rw [Node.AskedBy, represented]
  constructor
  · rintro (same | ⟨-, same⟩)
    · rw [Node.asString, Node.scalar?, h] at same
      contradiction
    · exact Except.ok.inj same
  · rintro rfl
    refine .inr ⟨?_, rfl⟩
    rw [Node.kind, h]
    rfl

section StoredText

variable {key value : TypeId} {nullable : Bool} {e : Entry Value} {text : String}

theorem reading_sub (hview : n.view = .typed) (type : TypeId) (v : Value) :
    (n.sub type v).reading = n.schema.read .typed type v := by
  rw [reading, ← hview]
  rfl

/-- A text asks for a key that is a string exactly if it is that string. -/
theorem storedText?_string_iff (hview : n.view = .typed)
    (string : n.schema.body key = .scalar .string)
    (fits : n.schema.FitsEntry key value nullable e) :
    n.storedText? key text = some e.text ↔ (Node.typed (n.sub key e.key)).AskedBy text := by
  obtain ⟨own, hown⟩ := Schema.fits_text string fits.key_fits
  have text_eq := fits.text_eq
  rw [hown, Schema.TextKey.text_string_iff string] at text_eq
  have shown : (n.sub key e.key).reading = .scalar (.string own) := by
    rw [reading_sub hview, hown]
    simp [Schema.read, string, Scalar.kind]
  rw [askedBy_of_scalar shown, text_eq]
  simp only [storedText?, hview, string, Option.some.injEq]
  exact eq_comm

/-- A text asks for a key that is an enum exactly if it is the name of that member: the keys of an
enum tell its members apart. -/
theorem storedText?_enum_iff (valid : n.schema.Valid) (hview : n.view = .typed)
    {members : List String} {keys : Renaming}
    (enum : n.schema.body key = .enum members (.string keys))
    (fits : n.schema.FitsEntry key value nullable e) :
    n.storedText? key text = some e.text ↔ (Node.typed (n.sub key e.key)).AskedBy text := by
  obtain ⟨i, hi, bound⟩ := Schema.TextKey.fits_enum enum fits.key_fits
  have text_eq := fits.text_eq
  rw [hi, Schema.TextKey.text_enum_iff enum] at text_eq
  obtain ⟨own, hown, text_eq⟩ := text_eq
  have shown : (n.sub key e.key).reading = .scalar (.string own) := by
    rw [reading_sub hview, hi]
    simp [Schema.read, enum, Schema.readEnum, hown]
  have position (j : Nat) (name : String) : members.idxOf? name = some j ↔ members[j]? = some name :=
    idxOf?_eq_some_iff_of_nodup (valid.enum_nodup enum)
  rw [askedBy_of_scalar shown, ← text_eq]
  simp only [storedText?, hview, enum, Option.bind_eq_some_iff]
  constructor
  · rintro ⟨j, hj, stored⟩
    have hname := (position j text).mp hj
    simp only [EnumRepr.text?, hname, Option.some.injEq] at stored
    exact List.inj_on_of_nodup_map (valid.enum_separates enum).apart
      (List.mem_of_getElem? hown) (List.mem_of_getElem? hname) stored.symm
  · rintro rfl
    refine ⟨i, (position i own).mpr hown, ?_⟩
    simp only [EnumRepr.text?, hown]

theorem storedText?_joined_iff (hview : n.view = .typed) {fields : List (Field TypeId)}
    {separator : String} (joined : n.schema.body key = .struct fields (.stringjoin separator))
    (fits : n.schema.FitsEntry key value nullable e) :
    n.storedText? key text = some e.text ↔ (Node.typed (n.sub key e.key)).AskedBy text := by
  obtain ⟨slots, hslots⟩ := Schema.fits_slots joined fits.key_fits
  have shown : (n.sub key e.key).reading = .fields .none fields slots := by
    rw [reading_sub hview, hslots]
    exact Schema.read_entries joined rfl slots
  have represented : (Node.typed (n.sub key e.key)).keyText = .ok e.text := fits.text_eq
  rw [askedBy_of_fields shown represented]
  simp only [storedText?, hview, joined, Option.some.injEq]
  exact eq_comm

/-- **A text asks for an entry exactly if it leads to the text that the entry is stored under.** -/
theorem storedText?_iff (valid : n.schema.Valid) {owner : TypeId} {nullable' : Bool}
    {nulls : NullPolicy} (body : n.schema.body owner = .map key value nullable' nulls)
    (fits : n.schema.FitsEntry key value nullable e) :
    n.storedText? key text = some e.text ↔ (n.keyNode key e).AskedBy text := by
  rw [keyNode]
  cases hview : n.view with
  | representation =>
    simp only [storedText?, hview, Option.some.injEq]
    rw [Node.askedBy_key]
    exact eq_comm
  | typed =>
    rcases valid.mapKey_cases body with text_key | ⟨fields, separator, joined⟩
    · cases text_key with
      | string string => exact storedText?_string_iff hview string fits
      | enum enum => exact storedText?_enum_iff valid hview enum fits
    · exact storedText?_joined_iff hview joined fits

end StoredText

/-! ## Rows -/

theorem found_eq_ok_iff {node? : Option Node} {key : String} {w : Node} :
    (match node? with
      | some node => Except.ok node
      | none => .error (AccessError.notExists key)) = .ok w ↔ node? = some w := by
  cases node? <;> simp

/-- A map is listed from rows, each with its key, the text that represents the key, and its value
if it is listed.  To ask for a text is to look for the row that has it. -/
structure Rows {α : Type} (n : TypedNode) (rows : List α) (key : α → Node) (text : α → String)
    (value? : α → Option Node) : Prop where
  listed : n.entries? = some (rows.filterMap fun a => (value? a).map (key a, ·))
  texts : ∀ a ∈ rows, (key a).keyText = .ok (text a)
  apart : (rows.map text).Nodup
  lookupText : ∀ t w, n.lookupText t = .ok w ↔ ∃ a ∈ rows, text a = t ∧ value? a = some w
  lookup : ∀ t w, n.lookup t = .ok w ↔ ∃ a ∈ rows, (key a).AskedBy t ∧ value? a = some w

theorem Fits.rows_entries (h : n.Fits) {key value : TypeId} {dict : Dict Value} {omitNulls : Bool}
    (hr : n.reading = .entries key value dict omitNulls) :
    n.Rows dict.entries (n.keyNode key) (·.text) (n.shown? value omitNulls) := by
  obtain ⟨owner, nullable', nulls, body⟩ := h.value.body_of_entries hr
  have level := h.reading
  rw [hr] at level
  cases level with
  | entries fits apart =>
    have entryAt (t : String) (w : Node) : n.entryAt? value dict omitNulls t = some w ↔
        ∃ e ∈ dict.entries, e.text = t ∧ n.shown? value omitNulls e = some w :=
      find?_bind_eq_some_iff Entry.text apart
    refine ⟨?_, fun e he => keyText_keyNode (fits e he), apart, fun t w => ?_, fun t w => ?_⟩
    · rw [entries?, hr]
      simp only [entry?_eq]
    · rw [TypedNode.lookupText, hr]
      exact found_eq_ok_iff.trans (entryAt t w)
    · rw [TypedNode.lookup, hr]
      refine found_eq_ok_iff.trans (Option.bind_eq_some_iff.trans ?_)
      constructor
      · rintro ⟨stored, hstored, found⟩
        obtain ⟨e, he, rfl, shown⟩ := (entryAt stored w).mp found
        exact ⟨e, he, (storedText?_iff h.valid body (fits e he)).mp hstored, shown⟩
      · rintro ⟨e, he, asked, shown⟩
        exact ⟨e.text, (storedText?_iff h.valid body (fits e he)).mpr asked,
          (entryAt e.text w).mpr ⟨e, he, rfl, shown⟩⟩

theorem Fits.rows_fields (h : n.Fits) {keys : Renaming} {fields : List (Field TypeId)}
    {slots : List (Slot Value)} (hr : n.reading = .fields keys fields slots) :
    n.Rows (fields.zip slots) (fun p => .key (keys.keyOf p.1.name))
      (fun p => keys.keyOf p.1.name) (fun p => n.slot? p.1.type p.2) := by
  have level := h.reading
  rw [hr] at level
  cases level with
  | fields tells fits =>
    have apart := tells.zip_apart fits.length
    have found (t : String) (w : Node) : n.lookup t = .ok w ↔
        ∃ p ∈ fields.zip slots, keys.keyOf p.1.name = t ∧ n.slot? p.1.type p.2 = some w := by
      rw [TypedNode.lookup, hr]
      refine found_eq_ok_iff.trans ?_
      rw [Node.fieldAt?_eq n tells fits.length]
      exact find?_bind_eq_some_iff (fun p : Field TypeId × Slot Value => keys.keyOf p.1.name) apart
    refine ⟨?_, fun _ _ => rfl, apart, fun t w => ?_, fun t w => ?_⟩
    · rw [entries?, hr]
      rfl
    · rw [TypedNode.lookupText, hr]
      exact found t w
    · rw [found t w]
      simp only [Node.askedBy_key]

theorem rows_choice {key : String} {member : TypeId} {value : Value}
    (hr : n.reading = .choice key member value) :
    n.Rows [(key, Node.typed (n.sub member value))] (fun p => .key p.1) (·.1)
      (fun p => some p.2) := by
  have found (t : String) (w : Node) :
      n.lookup t = .ok w ↔ key = t ∧ some (Node.typed (n.sub member value)) = some w := by
    rw [TypedNode.lookup, hr]
    refine found_eq_ok_iff.trans ?_
    by_cases same : key = t
    · simp [same]
    · simp [same]
  refine ⟨?_, fun _ _ => rfl, List.nodup_singleton key, fun t w => ?_, fun t w => ?_⟩
  · rw [entries?, hr]
    rfl
  · rw [TypedNode.lookupText, hr]
    simpa using found t w
  · simpa [Node.askedBy_key] using found t w

/-- **Each map is listed from rows.** -/
theorem Fits.exists_rows (h : n.Fits) {es : List (Node × Node)} (he : n.entries? = some es) :
    ∃ (α : Type) (rows : List α) (key : α → Node) (text : α → String)
      (value? : α → Option Node), n.Rows rows key text value? := by
  rw [entries?] at he
  cases hr : n.reading with
  | entries key value dict omitNulls => exact ⟨_, _, _, _, _, h.rows_entries hr⟩
  | fields keys fields slots => exact ⟨_, _, _, _, _, h.rows_fields hr⟩
  | choice key member value => exact ⟨_, _, _, _, _, rows_choice hr⟩
  | _ => simp [hr] at he

namespace Rows

variable {α : Type} {rows : List α} {key : α → Node} {text : α → String} {value? : α → Option Node}
  {es : List (Node × Node)}

theorem mem_iff (h : n.Rows rows key text value?) (he : n.entries? = some es) {c : Node × Node} :
    c ∈ es ↔ ∃ a ∈ rows, key a = c.1 ∧ value? a = some c.2 := by
  obtain rfl := Option.some.inj (h.listed.symm.trans he)
  obtain ⟨k, v⟩ := c
  rw [List.mem_filterMap]
  refine exists_congr fun a => and_congr_right fun _ => ?_
  rw [Option.map_eq_some_iff]
  constructor
  · rintro ⟨w, hw, same⟩
    cases same
    exact ⟨rfl, hw⟩
  · rintro ⟨rfl, hv⟩
    exact ⟨v, hv, rfl⟩

/-- No two entries have one text. -/
theorem keyText_apart (h : n.Rows rows key text value?) (he : n.entries? = some es) :
    (es.map (·.1.keyText)).Nodup := by
  obtain rfl := Option.some.inj (h.listed.symm.trans he)
  rw [List.Nodup, List.pairwise_map, List.pairwise_filterMap]
  refine (List.pairwise_map.mp h.apart).imp_of_mem fun {a b} ha hb apart c hc c' hc' same => ?_
  obtain ⟨w, -, rfl⟩ := Option.map_eq_some_iff.mp hc
  obtain ⟨w', -, rfl⟩ := Option.map_eq_some_iff.mp hc'
  rw [h.texts a ha, h.texts b hb] at same
  exact apart (Except.ok.inj same)

/-- **What is found under a text that represents a key is the value of the entry with that key.** -/
theorem lookupText_iff (h : n.Rows rows key text value?) (he : n.entries? = some es) {t : String}
    {w : Node} : n.lookupText t = .ok w ↔ ∃ c ∈ es, c.1.keyText = .ok t ∧ c.2 = w := by
  rw [h.lookupText]
  constructor
  · rintro ⟨a, ha, rfl, hw⟩
    exact ⟨(key a, w), (h.mem_iff he).mpr ⟨a, ha, rfl, hw⟩, h.texts a ha, rfl⟩
  · rintro ⟨c, hc, ht, rfl⟩
    obtain ⟨a, ha, hk, hv⟩ := (h.mem_iff he).mp hc
    rw [← hk, h.texts a ha] at ht
    exact ⟨a, ha, Except.ok.inj ht, hv⟩

/-- **What is found for a text is the value of the entry whose key is asked for by it.** -/
theorem lookup_iff (h : n.Rows rows key text value?) (he : n.entries? = some es) {t : String}
    {w : Node} : n.lookup t = .ok w ↔ ∃ c ∈ es, c.1.AskedBy t ∧ c.2 = w := by
  rw [h.lookup]
  constructor
  · rintro ⟨a, ha, asked, hw⟩
    exact ⟨(key a, w), (h.mem_iff he).mpr ⟨a, ha, rfl, hw⟩, asked, rfl⟩
  · rintro ⟨c, hc, asked, rfl⟩
    obtain ⟨a, ha, hk, hv⟩ := (h.mem_iff he).mp hc
    exact ⟨a, ha, hk ▸ asked, hv⟩

end Rows

end TypedNode

/-! ## Nodes inside a value -/

namespace Node

/-- Anything but a data tree. -/
def Stored : Node → Prop
  | basic _ => False
  | _ => True

/-- A node inside a value that fits its type. -/
structure Inside (n : Node) : Prop where
  fits : n.Fits
  stored : n.Stored

theorem exists_items_of_kind {n : Node} (kind : n.kind = .list) :
    ∃ items, n.items? = some items := by
  cases n with
  | typed n =>
    rw [Node.kind] at kind
    rw [items?, TypedNode.items?]
    cases hr : n.reading <;> simp [hr, Reading.kind] at kind ⊢
  | pair text value => exact ⟨_, rfl⟩
  | basic d => cases d <;> first | exact ⟨_, rfl⟩ | contradiction
  | null => contradiction
  | key text => contradiction

theorem exists_entries_of_kind {n : Node} (kind : n.kind = .map) :
    ∃ es, n.entries? = some es := by
  cases n with
  | typed n =>
    rw [Node.kind] at kind
    rw [entries?, TypedNode.entries?]
    cases hr : n.reading <;> simp [hr, Reading.kind] at kind ⊢
  | basic d => cases d <;> first | exact ⟨_, rfl⟩ | contradiction
  | null => contradiction
  | key text => contradiction
  | pair text value => contradiction

theorem values_eq_ok_iff {n : Node} {items : List Node} :
    n.values = .ok items ↔ n.items? = some items := by
  rw [values]
  cases n.items? <;> simp

theorem entries_eq_ok_iff {n : Node} {es : List (Node × Node)} :
    n.entries = .ok es ↔ n.entries? = some es := by
  rw [entries]
  cases n.entries? <;> simp

theorem pick_eq_ok_iff {α : Type} {elements : Except AccessError (List α)} {position : Nat}
    {a : α} : pick elements position = .ok a ↔ ∃ l, elements = .ok l ∧ l[position]? = some a := by
  rw [pick, bind_eq_ok_iff]
  simp only [mapError_eq_ok_iff]
  refine exists_congr fun l => and_congr_right fun _ => ?_
  cases l[position]? <;> simp

end Node

/-! ## What is shown -/

theorem Schema.view_of_pairs {s : Schema} {view : View} {type : TypeId} {v : Value}
    {keys : Renaming} {fields : List (Field TypeId)} {slots : List (Slot Value)}
    (shown : s.read view type v = .pairs keys fields slots) : view = .representation := by
  cases view with
  | representation => rfl
  | typed =>
    cases v with
    | struct slots =>
      rw [Schema.read] at shown
      split at shown <;> contradiction
    | enum i =>
      rw [Schema.read] at shown
      split at shown
      · rename_i members repr _
        cases hm : members[i]? <;> simp [Schema.readEnum, hm] at shown
      · contradiction
    | scalar a =>
      rw [Schema.read] at shown
      split at shown
      · split at shown <;> contradiction
      · contradiction
    | list slots =>
      rw [Schema.read] at shown
      split at shown <;> contradiction
    | map dict =>
      rw [Schema.read] at shown
      split at shown <;> contradiction
    | union i v =>
      rw [Schema.read] at shown
      split at shown
      · split at shown <;> contradiction
      · contradiction

namespace TypedNode

variable {n : TypedNode}

/-- What a stored value shows of what is inside it: values in the same view, nulls, texts, and pairs,
which only the representation view has. -/
inductive Shows (n : TypedNode) : Node → Prop
  | value (type : TypeId) (v : Value) : Shows n (.typed (n.sub type v))
  | null : Shows n .null
  | text (text : String) : Shows n (.key text)
  | pair (seen : n.view = .representation) (key : String) {value : Option TypedNode}
      (view_eq : ∀ m, value = some m → m.view = n.view) : Shows n (.pair key value)

theorem Shows.stored {c : Node} (h : n.Shows c) : c.Stored := by
  cases h <;> trivial

theorem shows_of_slot? {type : TypeId} {slot : Slot Value} {c : Node}
    (hc : n.slot? type slot = some c) : n.Shows c := by
  obtain ⟨layout, content⟩ := slot
  cases content with
  | absent => contradiction
  | null =>
    cases hc
    exact .null
  | value v =>
    cases hc
    exact .value type v

theorem shows_slot (type : TypeId) (slot : Slot Value) : n.Shows (n.slot type slot) := by
  rw [TypedNode.slot]
  cases hs : n.slot? type slot with
  | none => exact .null
  | some c => exact shows_of_slot? hs

theorem shows_of_pair? (seen : n.view = .representation) {keys : Renaming} {f : Field TypeId}
    {slot : Slot Value} {c : Node} (hc : n.pair? keys f slot = some c) : n.Shows c := by
  obtain ⟨layout, content⟩ := slot
  cases content with
  | absent => contradiction
  | null =>
    cases hc
    exact .pair seen _ nofun
  | value v =>
    cases hc
    refine .pair seen _ fun m same => ?_
    cases same
    rfl

theorem shows_of_items {items : List Node} (hi : n.items? = some items) {c : Node}
    (hc : c ∈ items) : n.Shows c := by
  rw [items?] at hi
  cases hr : n.reading with
  | items elem slots =>
    simp only [hr, Option.some.injEq] at hi
    obtain ⟨slot, -, rfl⟩ := List.mem_map.mp (hi ▸ hc)
    exact shows_slot elem slot
  | tuple fields slots =>
    simp only [hr, Option.some.injEq] at hi
    obtain ⟨p, -, rfl⟩ := List.mem_map.mp (hi ▸ hc)
    exact shows_slot p.1.type p.2
  | pairs keys fields slots =>
    simp only [hr, Option.some.injEq] at hi
    obtain ⟨p, -, hpair⟩ := List.mem_filterMap.mp (hi ▸ hc)
    exact shows_of_pair? (Schema.view_of_pairs hr) hpair
  | _ => simp [hr] at hi

theorem shows_of_entries {es : List (Node × Node)} (he : n.entries? = some es) {c : Node × Node}
    (hc : c ∈ es) : n.Shows c.1 ∧ n.Shows c.2 := by
  rw [entries?] at he
  cases hr : n.reading with
  | entries key value dict omitNulls =>
    simp only [hr, Option.some.injEq] at he
    obtain ⟨e, -, hentry⟩ := List.mem_filterMap.mp (he ▸ hc)
    rw [TypedNode.entry?] at hentry
    split at hentry
    · contradiction
    · obtain ⟨child, hs, rfl⟩ := Option.map_eq_some_iff.mp hentry
      refine ⟨?_, shows_of_slot? hs⟩
      cases n.view with
      | typed => exact .value key e.key
      | representation => exact .text e.text
  | fields keys fields slots =>
    simp only [hr, Option.some.injEq] at he
    obtain ⟨p, -, hfield⟩ := List.mem_filterMap.mp (he ▸ hc)
    obtain ⟨child, hs, rfl⟩ := Option.map_eq_some_iff.mp hfield
    exact ⟨.text _, shows_of_slot? hs⟩
  | choice key member value =>
    simp only [hr, Option.some.injEq] at he
    obtain rfl := List.mem_singleton.mp (he ▸ hc)
    exact ⟨.text key, .value member value⟩
  | _ => simp [hr] at he

theorem lookupText_of_no_entries (he : n.entries? = none) (text : String) :
    n.lookupText text = .error (.wrongKind .map n.reading.kind) := by
  have led := Node.lookup_of_no_entries (n := .typed n) he text
  rw [entries?] at he
  rw [lookupText]
  cases hr : n.reading <;> simp [hr] at he <;> simpa [Node.lookup, Node.kind, hr] using led

end TypedNode

namespace Node.Inside

variable {n root : Node}

theorem items (h : n.Inside) {items : List Node} (hi : n.items? = some items) {c : Node}
    (hc : c ∈ items) : c.Inside := by
  refine ⟨h.fits.items hi hc, ?_⟩
  cases n with
  | typed n => exact (TypedNode.shows_of_items hi hc).stored
  | pair text value =>
    cases hi
    rcases List.mem_pair.mp hc with rfl | rfl
    · trivial
    · cases value <;> trivial
  | null => contradiction
  | key text => contradiction
  | basic d => exact h.stored.elim

theorem entries (h : n.Inside) {es : List (Node × Node)} (he : n.entries? = some es)
    {c : Node × Node} (hc : c ∈ es) : c.1.Inside ∧ c.2.Inside := by
  obtain ⟨key_fits, value_fits⟩ := h.fits.entries he hc
  cases n with
  | typed n =>
    obtain ⟨key_shown, value_shown⟩ := TypedNode.shows_of_entries he hc
    exact ⟨⟨key_fits, key_shown.stored⟩, ⟨value_fits, value_shown.stored⟩⟩
  | basic d => exact h.stored.elim
  | null => contradiction
  | key text => contradiction
  | pair text value => contradiction

/-- Another view of a node inside a value is inside it. -/
theorem inView (h : n.Inside) (view : View) : (n.inView view).Inside := by
  cases n with
  | typed n => exact ⟨⟨h.fits.valid, h.fits.once, h.fits.value⟩, trivial⟩
  | null => exact h
  | key text => exact h
  | pair text value => exact h
  | basic d => exact h

/-- **The answers of a list inside a value agree with its items.** -/
theorem list_agrees (h : n.Inside) {items : List Node} (hi : n.items? = some items) :
    n.ListAgrees items := by
  exact ⟨values_eq_ok_iff.mpr hi, length_of_items h.fits hi, lookupIndex_of_items h.fits hi⟩

/-- **The answers of a map inside a value agree with its entries.** -/
theorem map_agrees (h : n.Inside) {es : List (Node × Node)} (he : n.entries? = some es) :
    n.MapAgrees es := by
  have length := length_of_entries h.fits he
  have listed : n.entries = .ok es := entries_eq_ok_iff.mpr he
  cases n with
  | typed n =>
    obtain ⟨α, rows, key, text, value?, found⟩ := TypedNode.Fits.exists_rows h.fits he
    have represented : ∀ c ∈ es, ∃ t, c.1.keyText = .ok t := by
      intro c hc
      obtain ⟨a, ha, hk, -⟩ := (found.mem_iff he).mp hc
      exact ⟨text a, hk ▸ found.texts a ha⟩
    refine ⟨listed, length, represented, found.keyText_apart he, ?_, ?_, ?_, ?_⟩
    · intro c hc
      obtain ⟨t, ht⟩ := represented c hc
      rw [lookupNode, ht]
      exact (found.lookupText_iff he).mpr ⟨c, hc, ht, rfl⟩
    · intro k w hw
      obtain ⟨t, ht, hw⟩ := bind_eq_ok_iff.mp hw
      obtain ⟨c, hc, hct, rfl⟩ := (found.lookupText_iff he).mp hw
      exact ⟨c, hc, rfl, hct.trans ht.symm⟩
    · intro c hc t ht
      exact (found.lookup_iff he).mpr ⟨c, hc, .inl ht, rfl⟩
    · intro t w hw
      obtain ⟨c, hc, asked, rfl⟩ := (found.lookup_iff he).mp hw
      exact ⟨c, hc, rfl, asked⟩
  | basic d => exact h.stored.elim
  | null => contradiction
  | key text => contradiction
  | pair text value => contradiction

/-! ### Steps -/

theorem lookup (h : n.Inside) {text : String} {w : Node} (hw : n.lookup text = .ok w) :
    w.Inside := by
  cases he : n.entries? with
  | none =>
    rw [lookup_of_no_entries he] at hw
    contradiction
  | some es =>
    obtain ⟨c, hc, rfl, -⟩ := (h.map_agrees he).lookup_only text w hw
    exact (h.entries he hc).2

theorem lookupNode (h : n.Inside) {key w : Node} (hw : n.lookupNode key = .ok w) : w.Inside := by
  cases he : n.entries? with
  | none =>
    obtain ⟨text, -, hw⟩ := bind_eq_ok_iff.mp hw
    cases n with
    | typed n =>
      have none_found := TypedNode.lookupText_of_no_entries he text
      exact absurd (none_found.symm.trans hw) nofun
    | basic d => exact h.stored.elim
    | null => contradiction
    | key text => contradiction
    | pair text value => contradiction
  | some es =>
    obtain ⟨c, hc, rfl, -⟩ := (h.map_agrees he).lookupNode_only key w hw
    exact (h.entries he hc).2

theorem lookupIndex (h : n.Inside) {position : Nat} {w : Node}
    (hw : n.lookupIndex position = .ok w) : w.Inside := by
  cases hi : n.items? with
  | none =>
    rw [lookupIndex_of_no_items hi] at hw
    contradiction
  | some items =>
    rw [lookupIndex_of_items h.fits hi, itemAt] at hw
    cases hc : items[position]? with
    | none => simp [hc] at hw
    | some c =>
      simp only [hc, Except.ok.injEq] at hw
      exact hw ▸ h.items hi (List.mem_of_getElem? hc)

/-- **A step from a node inside a value leads to one.** -/
theorem take (h : n.Inside) {step : Step} {w : Node} (hw : root.take step n = .ok w) :
    w.Inside := by
  cases step with
  | key text => exact h.lookup (mapError_eq_ok_iff.mp hw)
  | index position => exact h.lookupIndex (mapError_eq_ok_iff.mp hw)
  | datumKey d => exact h.lookupNode (mapError_eq_ok_iff.mp hw)
  | textKey text => exact h.lookupNode (mapError_eq_ok_iff.mp hw)
  | nullKey =>
    have led : n.lookupNode null = .ok w := mapError_eq_ok_iff.mp hw
    exact h.lookupNode led
  | nodeKey path =>
    obtain ⟨key, -, hw⟩ := bind_eq_ok_iff.mp hw
    exact h.lookupNode (mapError_eq_ok_iff.mp hw)
  | entryKey position =>
    obtain ⟨c, hc, rfl⟩ := map_eq_ok_iff.mp hw
    obtain ⟨es, he, mem⟩ := pick_eq_ok_iff.mp hc
    exact (h.entries (entries_eq_ok_iff.mp he) (List.mem_of_getElem? mem)).1
  | entryValue position =>
    obtain ⟨c, hc, rfl⟩ := map_eq_ok_iff.mp hw
    obtain ⟨es, he, mem⟩ := pick_eq_ok_iff.mp hc
    exact (h.entries (entries_eq_ok_iff.mp he) (List.mem_of_getElem? mem)).2
  | item position =>
    obtain ⟨items, hi, mem⟩ := pick_eq_ok_iff.mp hw
    exact h.items (values_eq_ok_iff.mp hi) (List.mem_of_getElem? mem)
  | representation =>
    cases hw
    exact h.inView .representation
  | typed =>
    cases hw
    exact h.inView .typed

/-- **So does a path.** -/
theorem follow (h : n.Inside) {path : List Step} {w : Node}
    (hw : root.follow path n = .ok w) : w.Inside := by
  induction path generalizing n with
  | nil =>
    cases hw
    exact h
  | cons step rest ih =>
    obtain ⟨next, hnext, hw⟩ := bind_eq_ok_iff.mp hw
    exact ih (h.take hnext) hw

end Node.Inside

/-! ## What is built -/

namespace Builder

/-- **Lookups, listings and lengths agree at every node of a value that is built.**  From either
view, and through any steps, one is led to lists and maps only whose answers agree with what they
list. -/
theorem answers_agree {ts : TypeSystem} {s : Schema} {c : Config} {p : Prototype}
    (frozen : ts.finalize = .ok s) (once : s.RenamesOnce) (compiled : s.compile c = .ok p.model)
    (calls : List Call) {v : TypedValue} (built : ((ofPrototype p).run calls).1.build = .ok v)
    (view : View) (path : List Step) {n : Node} (reached : (v.nodeIn view).at? path = .ok n) :
    (n.kind = .list → ∃ items, n.ListAgrees items) ∧ (n.kind = .map → ∃ es, n.MapAgrees es) := by
  obtain ⟨rfl, fits⟩ := built_fits frozen compiled calls built
  have root : (v.nodeIn view).Inside :=
    ⟨⟨Schema.valid_of_finalize frozen, once, fits⟩, trivial⟩
  have inside := root.follow reached
  constructor
  · intro kind
    obtain ⟨items, hi⟩ := Node.exists_items_of_kind kind
    exact ⟨items, inside.list_agrees hi⟩
  · intro kind
    obtain ⟨es, he⟩ := Node.exists_entries_of_kind kind
    exact ⟨es, inside.map_agrees he⟩

theorem answers_agree_sample :
    Sample.types.finalize = .ok Sample.schema ∧ Sample.schema.RenamesOnce ∧
      Sample.schema.compile .empty = .ok Sample.prototype.model ∧
      ((ofPrototype Sample.prototype).run Sample.calls).1.build =
        .ok ⟨Sample.model, 7, Sample.value⟩ ∧
      ∃ counts, (TypedValue.node ⟨Sample.model, 7, Sample.value⟩).at?
          [.index 2, .key "Sheet", .key "counts"] = .ok counts ∧
        ∃ es, counts.MapAgrees es := by
  have reached : ∃ counts, (TypedValue.node ⟨Sample.model, 7, Sample.value⟩).at?
      [.index 2, .key "Sheet", .key "counts"] = .ok counts ∧ counts.kind = .map :=
    ⟨_, rfl, rfl⟩
  obtain ⟨counts, reached, map⟩ := reached
  have agrees := answers_agree (p := Sample.prototype) Sample.finalize_types
    Sample.renamesOnce_schema Sample.compile_schema Sample.calls rfl .typed _ reached
  exact ⟨Sample.finalize_types, Sample.renamesOnce_schema, Sample.compile_schema, rfl, counts,
    reached, agrees.2 map⟩

end Builder

end DualView
