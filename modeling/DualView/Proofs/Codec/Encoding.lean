import DualView.Proofs.Assembly.Runs
import DualView.Proofs.Codec.Keys
import DualView.Proofs.Node.Reading

/-!
# The declared encoding

`Schema.encode` says what the representation of a value is, from the typed view of the value and
the declaration of its type.  It knows nothing of stored values: it goes down the typed tree and
writes each level as the strategy of its type says.

* `Schema.Fits.encodes`: the representation view of a value that fits is the encoding of its typed
  view.
* `Builder.toRepresentation_eq_encode`: so is the representation of every value that is built.
-/

namespace DualView

def Tree.isNull : Tree → Bool
  | .null => true
  | _ => false

/-! ## Leaves and structs -/

/-- A leaf of the typed view: the name of a member of an enum is written as what stands for it. -/
def Body.encodeScalar (body : Body TypeId) (a : Scalar) : Datum :=
  match body, a with
  | .enum _ (.string keys), .string name => .scalar (.string (keys.keyOf name))
  | .enum _ (.int values), .string name => ((values.labelOf? name).map (.scalar ∘ .int)).getD .null
  | _, a => .scalar a

/-- The fields of a struct that are given by name, written in declaration order. -/
def StructRepr.encode (repr : StructRepr) (fields : List (Field TypeId))
    (given : List (String × Datum)) : Datum :=
  match repr with
  | .map keys =>
    .map (fields.filterMap fun f => (given.lookup f.name).map (keys.keyOf f.name, ·))
  | .tuple => .list (fields.map fun f => (given.lookup f.name).getD .null)
  | .listpairs keys =>
    .list (fields.filterMap fun f =>
      (given.lookup f.name).map fun d => .pair (keys.keyOf f.name, d))
  | .stringjoin separator =>
    .scalar (.string (Text.join separator
      (fields.filterMap fun f => (given.lookup f.name).bind Datum.text?)))

/-! ## Trees -/

namespace Schema

mutual

/-- The representation of a value of a type, from the tree of its typed view. -/
def encode (s : Schema) (type : TypeId) : Tree → Datum
  | .null => .null
  | .scalar a => (s.body type).encodeScalar a
  | .list items =>
    match s.body type with
    | .list elem _ => .list (s.encodeItems elem items)
    | _ => .null
  | .map entries =>
    match s.body type with
    | .map key value _ nulls => .map (s.encodeEntries key value nulls entries)
    | .struct fields repr => repr.encode fields (s.encodeFields fields entries)
    | .union members repr => s.encodeMember members repr entries
    | _ => .null

def encodeItems (s : Schema) (elem : TypeId) : List Tree → List Datum
  | [] => []
  | t :: rest => s.encode elem t :: s.encodeItems elem rest

/-- Each key is written as its text; nulls are left out if the map omits them. -/
def encodeEntries (s : Schema) (key value : TypeId) (nulls : NullPolicy) :
    List (Tree × Tree) → List (String × Datum)
  | [] => []
  | (k, t) :: rest =>
    let written := s.encodeEntries key value nulls rest
    if nulls = .omitNulls ∧ t.isNull then written
    else match (s.encode key k).text? with
      | some text => (text, s.encode value t) :: written
      | none => written

def encodeFields (s : Schema) (fields : List (Field TypeId)) :
    List (Tree × Tree) → List (String × Datum)
  | [] => []
  | (k, t) :: rest =>
    let given := s.encodeFields fields rest
    match k with
    | .scalar (.string name) =>
      match fields.find? (·.name == name) with
      | some f => (name, s.encode f.type t) :: given
      | none => given
    | _ => given

def encodeMember (s : Schema) (members : List TypeId) (repr : UnionRepr) :
    List (Tree × Tree) → Datum
  | [(.scalar (.string name), t)] =>
    match members.find? (s.nameOf · == name) with
    | none => .null
    | some member =>
      match repr with
      | .kinded => s.encode member t
      | .keyed discriminants =>
        match discriminants.labelOf? name with
        | some key => .map [(key, s.encode member t)]
        | none => .null
  | _ => .null

end

/-! ## Lists of trees -/

variable {s : Schema}

theorem encodeItems_eq_map (elem : TypeId) (items : List Tree) :
    s.encodeItems elem items = items.map (s.encode elem) := by
  induction items with
  | nil => rw [encodeItems, List.map_nil]
  | cons t rest ih => rw [encodeItems, List.map_cons, ih]

theorem encodeFields_eq_map {fields : List (Field TypeId)} (names : (fields.map (·.name)).Nodup)
    {ps : List (Field TypeId × Slot Value)} (declared : ∀ p ∈ ps, p.1 ∈ fields)
    (shown : Field TypeId × Slot Value → Tree) :
    s.encodeFields fields (ps.map fun p => (.scalar (.string p.1.name), shown p)) =
      ps.map fun p => (p.1.name, s.encode p.1.type (shown p)) := by
  induction ps with
  | nil => rw [List.map_nil, List.map_nil, encodeFields]
  | cons p ps ih =>
    rw [List.forall_mem_cons] at declared
    rw [List.map_cons, List.map_cons, encodeFields, ih declared.2]
    simp only [find?_eq_some_of_nodup Field.name names declared.1]

end Schema

/-! ## Fields by name -/

section Fields

variable {fields : List (Field TypeId)} {slots : List (Slot Value)}

def presentBy {α : Type} (shown : Field TypeId × Slot Value → α) (fields : List (Field TypeId))
    (slots : List (Slot Value)) : List (String × α) :=
  (present fields slots).map fun p => (p.1.name, shown p)

theorem lookup_presentBy {α : Type} {shown : Field TypeId × Slot Value → α}
    (names : (fields.map (·.name)).Nodup) (length : slots.length = fields.length)
    {p : Field TypeId × Slot Value} (hp : p ∈ fields.zip slots) :
    (presentBy shown fields slots).lookup p.1.name =
      if p.2.isAbsent then none else some (shown p) := by
  have apart : ((fields.zip slots).map fun p => p.1.name).Nodup := nodup_map_zip length names
  have once : ((presentBy shown fields slots).map (·.1)).Nodup := by
    rw [presentBy, List.map_map]
    exact apart.sublist (List.filter_sublist.map _)
  cases ha : p.2.isAbsent with
  | true =>
    refine List.lookup_eq_none_iff.mpr fun q hq => bne_iff_ne.mpr fun he => ?_
    obtain ⟨q, hmem, rfl⟩ := List.mem_map.mp hq
    obtain ⟨hzip, hpresent⟩ := List.mem_filter.mp hmem
    obtain rfl := List.inj_on_of_nodup_map apart hp hzip he
    simp [ha] at hpresent
  | false =>
    refine (lookup_eq_some_iff_mem once).mpr (List.mem_map.mpr ⟨p, ?_, rfl⟩)
    exact List.mem_filter.mpr ⟨hp, by simp [ha]⟩

/-- What is written for each field that is found is written for those that are present. -/
theorem filterMap_lookup_presentBy {α β : Type} {shown : Field TypeId × Slot Value → α}
    (names : (fields.map (·.name)).Nodup) (length : slots.length = fields.length)
    (write : Field TypeId → α → Option β) :
    fields.filterMap (fun f => ((presentBy shown fields slots).lookup f.name).bind (write f)) =
      (present fields slots).filterMap fun p => write p.1 (shown p) := by
  let written (f : Field TypeId) := ((presentBy shown fields slots).lookup f.name).bind (write f)
  calc fields.filterMap written
    _ = ((fields.zip slots).map Prod.fst).filterMap written := by
      rw [List.map_fst_zip (Nat.le_of_eq length.symm)]
    _ = (fields.zip slots).filterMap fun p =>
        if !p.2.isAbsent then write p.1 (shown p) else none := by
      rw [List.filterMap_map]
      refine List.filterMap_congr fun p hp => ?_
      have found : (presentBy shown fields slots).lookup p.1.name = _ :=
        lookup_presentBy names length hp
      simp only [Function.comp_apply, written, found]
      cases p.2.isAbsent <;> rfl
    _ = (present fields slots).filterMap fun p => write p.1 (shown p) := by
      rw [present, List.filterMap_filter]

theorem map_lookup_presentBy {α β : Type} {shown : Field TypeId × Slot Value → α}
    (names : (fields.map (·.name)).Nodup) (length : slots.length = fields.length)
    (write : Field TypeId → α → β) :
    fields.filterMap (fun f => ((presentBy shown fields slots).lookup f.name).map (write f)) =
      (present fields slots).map fun p => write p.1 (shown p) := by
  have written : fields.filterMap (fun f =>
        ((presentBy shown fields slots).lookup f.name).bind fun a => some (write f a)) =
      (present fields slots).filterMap fun p => some (write p.1 (shown p)) :=
    filterMap_lookup_presentBy names length fun f a => some (write f a)
  rw [← List.filterMap_eq_map]
  simpa only [Option.map_eq_bind, Function.comp_def] using written

theorem map_getD_presentBy {α : Type} {shown : Field TypeId × Slot Value → α}
    (names : (fields.map (·.name)).Nodup) (length : slots.length = fields.length) {lacking : α}
    (absent : ∀ p, p.2.isAbsent = true → shown p = lacking) :
    fields.map (fun f => ((presentBy shown fields slots).lookup f.name).getD lacking) =
      (fields.zip slots).map shown := by
  let found (f : Field TypeId) := ((presentBy shown fields slots).lookup f.name).getD lacking
  calc fields.map found
    _ = ((fields.zip slots).map Prod.fst).map found := by
      rw [List.map_fst_zip (Nat.le_of_eq length.symm)]
    _ = (fields.zip slots).map shown := by
      rw [List.map_map]
      refine List.map_congr_left fun p hp => ?_
      have at_name : (presentBy shown fields slots).lookup p.1.name = _ :=
        lookup_presentBy names length hp
      simp only [Function.comp_apply, found, at_name]
      cases ha : p.2.isAbsent with
      | true => simp [absent p ha]
      | false => simp

end Fields

/-! ## Levels -/

namespace Schema

variable {s : Schema} {type : TypeId}

def Encodes (s : Schema) (type : TypeId) (v : Value) : Prop :=
  s.tree .representation type v = (s.encode type (s.tree .typed type v)).tree

/-- A value that fits shows something. -/
theorem Fits.isNull_tree (valid : s.Valid) {v : Value} (h : s.Fits type v) :
    (s.tree .typed type v).isNull = false := by
  have unseen : View.typed = .representation → s.RenamesOnce := fun e => nomatch e
  have hr := h.read valid unseen
  rw [tree_eq]
  generalize s.read .typed type v = r at hr
  cases hr <;> rfl

theorem Admits.isNull_tree (valid : s.Valid) {nullable : Bool} {content : Maybe Value}
    (h : s.Admits type false nullable content) :
    (s.contentTree .typed type content).isNull = content.isNull := by
  cases content with
  | absent => contradiction
  | null => rfl
  | value v => exact Fits.isNull_tree valid h

theorem content_encodes {content : Maybe Value}
    (value : ∀ v, content = .value v → s.Encodes type v) :
    s.contentTree .representation type content =
      (s.encode type (s.contentTree .typed type content)).tree := by
  cases content with
  | value v => exact value v rfl
  | _ => rw [contentTree, contentTree, encode, Datum.tree_null]

/-- The text of a key is what its typed tree is written as. -/
theorem encode_key {k : Value} {text : String} (encodes : s.Encodes type k)
    (represented : s.Text type k text) :
    s.encode type (s.tree .typed type k) = .scalar (.string text) := by
  rw [← Datum.tree_eq_scalar_iff, ← encodes]
  exact tree_of_text (text_iff_read.mp represented)

/-! ### Scalars and enums -/

theorem scalar_encodes {a : Scalar} (body : s.body type = .scalar a.kind) :
    s.Encodes type (.scalar a) := by
  have shown (view : View) : s.tree view type (.scalar a) = .scalar a := by
    rw [tree_eq, read, body]
    simp [Reading.tree]
  rw [Encodes, shown, shown, encode, body]
  exact (Datum.tree_scalar a).symm

theorem enum_encodes (valid : s.Valid) {members : List String} {repr : EnumRepr} {i : Nat}
    (body : s.body type = .enum members repr) (bound : i < members.length) :
    s.Encodes type (.enum i) := by
  have hi := List.getElem?_eq_getElem bound
  have typed : s.tree .typed type (.enum i) = .scalar (.string members[i]) := by
    rw [tree_eq, read]
    simp [body, readEnum, hi, Reading.tree]
  rw [Encodes, typed, encode, body, tree_eq, read]
  cases repr with
  | string keys =>
    simp [body, readEnum, EnumRepr.scalar?, EnumRepr.text?, hi, Reading.tree, Body.encodeScalar]
  | int values =>
    obtain ⟨x, hx⟩ := (valid.enum_values body).exists_label (List.getElem_mem bound)
    simp [body, readEnum, EnumRepr.scalar?, EnumRepr.text?, EnumRepr.int?, hi, hx, Reading.tree,
      Body.encodeScalar]

/-! ### Lists and maps -/

theorem list_encodes {elem : TypeId} {nullable : Bool} {slots : List (Slot Value)}
    (body : s.body type = .list elem nullable)
    (values : ∀ slot ∈ slots, ∀ v, slot.content = .value v → s.Encodes elem v) :
    s.Encodes type (.list slots) := by
  have shown (view : View) : s.tree view type (.list slots) =
      .list (slots.map fun slot => s.contentTree view elem slot.content) := by
    rw [tree_eq, read]
    simp only [body, Reading.tree]
  rw [Encodes, shown, shown, encode, body]
  simp only [encodeItems_eq_map, Datum.tree_list, List.map_map]
  exact congrArg Tree.list (List.map_congr_left fun slot hs => content_encodes (values slot hs))

theorem encodeEntries_eq_map (valid : s.Valid) {key value : TypeId} {nullable : Bool}
    {nulls : NullPolicy} {es : List (Entry Value)}
    (fits : ∀ e ∈ es, s.FitsEntry key value nullable e) (keys : ∀ e ∈ es, s.Encodes key e.key) :
    s.encodeEntries key value nulls (es.map fun e =>
        (s.tree .typed key e.key, s.contentTree .typed value e.slot.content)) =
      (es.filter (·.shows (decide (nulls = .omitNulls)))).map fun e =>
        (e.text, s.encode value (s.contentTree .typed value e.slot.content)) := by
  induction es with
  | nil => rw [List.map_nil, encodeEntries]; rfl
  | cons e es ih =>
    rw [List.forall_mem_cons] at fits keys
    have text := encode_key keys.1 fits.1.text_eq
    have isNull : (s.contentTree .typed value e.slot.content).isNull = e.slot.isNull :=
      Admits.isNull_tree valid fits.1.slot_admits
    rw [List.map_cons, encodeEntries, ih fits.2 keys.2, List.filter_cons, Entry.shows,
      fits.1.present, text, isNull]
    by_cases omitted : nulls = .omitNulls ∧ e.slot.isNull = true
    · simp [omitted]
    · have shows : (!false && !(decide (nulls = .omitNulls) && e.slot.isNull)) = true := by
        cases hn : e.slot.isNull <;> simp_all
      simp only [omitted, shows, if_false, if_true, Datum.text?, List.map_cons]

theorem map_encodes (valid : s.Valid) {key value : TypeId} {nullable : Bool} {nulls : NullPolicy}
    {dict : Dict Value} (body : s.body type = .map key value nullable nulls)
    (fits : ∀ e ∈ dict.entries, s.FitsEntry key value nullable e)
    (keys : ∀ e ∈ dict.entries, s.Encodes key e.key)
    (values : ∀ e ∈ dict.entries, ∀ v, e.slot.content = .value v → s.Encodes value v) :
    s.Encodes type (.map dict) := by
  have all : dict.entries.filter (·.shows false) = dict.entries :=
    List.filter_eq_self.mpr fun e he => by
      rw [Entry.shows, (fits e he).present]
      rfl
  have typed : s.tree .typed type (.map dict) = .map (dict.entries.map fun e =>
      (s.tree .typed key e.key, s.contentTree .typed value e.slot.content)) := by
    rw [tree_eq, read]
    simp [body, Reading.tree, all, keyTree]
  have represented : s.tree .representation type (.map dict) =
      .map ((dict.entries.filter (·.shows (decide (nulls = .omitNulls)))).map fun e =>
        (.scalar (.string e.text), s.contentTree .representation value e.slot.content)) := by
    rw [tree_eq, read]
    simp [body, Reading.tree, keyTree]
  rw [Encodes, typed, represented, encode, body]
  simp only [encodeEntries_eq_map valid fits keys, Datum.tree_map, List.map_map]
  refine congrArg Tree.map (List.map_congr_left fun e he => ?_)
  exact Prod.ext rfl (content_encodes (values e (List.mem_of_mem_filter he)))

/-! ### Structs -/

def shownField (s : Schema) (p : Field TypeId × Slot Value) : Tree :=
  s.contentTree .typed p.1.type p.2.content

def writtenField (s : Schema) (p : Field TypeId × Slot Value) : Datum :=
  s.encode p.1.type (s.shownField p)

section Structs

variable {fields : List (Field TypeId)} {repr : StructRepr} {slots : List (Slot Value)}

theorem writtenField_of_absent {p : Field TypeId × Slot Value} (absent : p.2.isAbsent = true) :
    s.writtenField p = .null := by
  obtain ⟨f, layout, content⟩ := p
  cases content with
  | absent => rw [writtenField, shownField, contentTree, encode]
  | _ => contradiction

/-- Fields that are joined hold text, and are written as their text. -/
theorem joined_text_at (valid : s.Valid) {separator : String}
    (body : s.body type = .struct fields (.stringjoin separator)) (fits : s.FitsFields fields slots)
    {p : Field TypeId × Slot Value} (hp : p ∈ fields.zip slots)
    (written : s.contentTree .representation p.1.type p.2.content = (s.writtenField p).tree) :
    p.2.isAbsent = false ∧ (s.writtenField p).text? = p.2.text? := by
  obtain ⟨optional, nullable, text⟩ := (valid.joined body).2.2 p.1 (List.of_mem_zip hp).1
  have admits := fits.admits p hp
  rw [optional, nullable] at admits
  obtain ⟨f, layout, content⟩ := p
  cases content with
  | absent => contradiction
  | null => contradiction
  | value v =>
    obtain ⟨x, rfl⟩ := fits_text text admits
    have shown : s.tree .representation f.type (.scalar (.string x)) = .scalar (.string x) :=
      tree_of_text (by rw [read, text]; rfl)
    have := Datum.tree_eq_scalar_iff.mp (written.symm.trans shown)
    exact ⟨rfl, by rw [this]; rfl⟩

theorem joined_texts (valid : s.Valid) {separator : String}
    (body : s.body type = .struct fields (.stringjoin separator)) (fits : s.FitsFields fields slots)
    (written : ∀ p ∈ fields.zip slots,
      s.contentTree .representation p.1.type p.2.content = (s.writtenField p).tree) :
    fields.filterMap (fun f =>
        ((presentBy s.writtenField fields slots).lookup f.name).bind Datum.text?) =
      slots.filterMap Slot.text? := by
  have text_at (p) (hp : p ∈ fields.zip slots) :=
    joined_text_at valid body fits hp (written p hp)
  have all : present fields slots = fields.zip slots :=
    List.filter_eq_self.mpr fun p hp => by rw [(text_at p hp).1]; rfl
  calc fields.filterMap
        (fun f => ((presentBy s.writtenField fields slots).lookup f.name).bind Datum.text?)
    _ = (present fields slots).filterMap fun p => (s.writtenField p).text? :=
      filterMap_lookup_presentBy (valid.fields_nodup body) fits.length fun _ => Datum.text?
    _ = (fields.zip slots).filterMap (Slot.text? ∘ Prod.snd) := by
      rw [all]
      exact List.filterMap_congr fun p hp => (text_at p hp).2
    _ = slots.filterMap Slot.text? := by
      rw [← List.filterMap_map, List.map_snd_zip (Nat.le_of_eq fits.length)]

theorem encode_struct (valid : s.Valid) (body : s.body type = .struct fields repr)
    (slots : List (Slot Value)) : s.encode type (s.tree .typed type (.struct slots)) =
      repr.encode fields (presentBy s.writtenField fields slots) := by
  have typed : s.tree .typed type (.struct slots) = .map ((present fields slots).map fun p =>
      (.scalar (.string p.1.name), s.shownField p)) := by
    rw [tree_eq, read]
    simp only [body, readStruct, Reading.tree, Renaming.keyOf_none]
    rfl
  have declared : ∀ p ∈ present fields slots, p.1 ∈ fields := fun p hp =>
    (List.of_mem_zip (List.mem_of_mem_filter hp)).1
  rw [typed, encode, body]
  simp only [encodeFields_eq_map (valid.fields_nodup body) declared]
  rfl

theorem struct_encodes (valid : s.Valid) (body : s.body type = .struct fields repr)
    (fits : s.FitsFields fields slots)
    (values : ∀ p ∈ fields.zip slots, ∀ v, p.2.content = .value v → s.Encodes p.1.type v) :
    s.Encodes type (.struct slots) := by
  have names := valid.fields_nodup body
  have written : ∀ p ∈ fields.zip slots,
      s.contentTree .representation p.1.type p.2.content = (s.writtenField p).tree := fun p hp =>
    content_encodes (values p hp)
  rw [Encodes, encode_struct valid body, tree_eq, read_struct body]
  -- what is found by name is what is present, so both sides go through the present fields
  cases repr with
  | map keys =>
    rw [readStruct, Reading.tree, StructRepr.encode,
      map_lookup_presentBy names fits.length fun f d => (keys.keyOf f.name, d), Datum.tree_map,
      List.map_map]
    refine congrArg Tree.map (List.map_congr_left fun p hp => ?_)
    exact Prod.ext rfl (written p (List.mem_of_mem_filter hp))
  | tuple =>
    rw [readStruct, Reading.tree, StructRepr.encode,
      map_getD_presentBy names fits.length fun p => writtenField_of_absent, Datum.tree_list,
      List.map_map]
    exact congrArg Tree.list (List.map_congr_left written)
  | listpairs keys =>
    rw [readStruct, Reading.tree, StructRepr.encode,
      map_lookup_presentBy names fits.length fun f d => Datum.pair (keys.keyOf f.name, d),
      Datum.tree_list, List.map_map]
    refine congrArg Tree.list (List.map_congr_left fun p hp => ?_)
    rw [written p (List.mem_of_mem_filter hp), Function.comp_apply, Datum.pair]
    simp
  | stringjoin separator =>
    rw [readStruct, Reading.tree, StructRepr.encode, joined_texts valid body fits written,
      Datum.tree_scalar]

end Structs

/-! ### Unions -/

theorem union_encodes (valid : s.Valid) {members : List TypeId} {repr : UnionRepr} {i : Nat}
    {member : TypeId} {v : Value} (body : s.body type = .union members repr)
    (at_member : members[i]? = some member) (value : s.Encodes member v) :
    s.Encodes type (.union i v) := by
  have mem := List.mem_of_getElem? at_member
  have found : members.find? (s.nameOf · == s.nameOf member) = some member :=
    find?_eq_some_of_nodup s.nameOf (valid.members_nodup body) mem
  have typed : s.tree .typed type (.union i v) =
      .map [(.scalar (.string (s.nameOf member)), s.tree .typed member v)] := by
    rw [tree_eq, read]
    simp only [body, at_member, Reading.tree]
  rw [Encodes, typed, encode, body]
  simp only [encodeMember, found]
  cases repr with
  | kinded => rw [tree_kinded body at_member, value]
  | keyed ds =>
    obtain ⟨key, hl⟩ := (valid.discriminants body).exists_label (List.mem_map_of_mem mem)
    rw [tree_eq, read]
    have below : s.tree .representation member v = _ := value
    simp only [body, at_member, hl, Reading.tree, Datum.tree_map, List.map_cons, List.map_nil,
      Datum.entryTree, below]

/-- **The representation view of a value that fits is the encoding of its typed view.** -/
theorem Fits.encodes (valid : s.Valid) {v : Value} (h : s.Fits type v) : s.Encodes type v := by
  induction h with
  | scalar body => exact scalar_encodes body
  | list body states values ih => exact list_encodes body ih
  | map body keys texts apart states values ihk ihv =>
    obtain ⟨fits, -⟩ := (fits_map_iff body).mp (.map body keys texts apart states values)
    exact map_encodes valid body fits ihk ihv
  | struct body length states values ih =>
    obtain ⟨-, admits⟩ := (fits_struct_iff body).mp (.struct body length states values)
    exact struct_encodes valid body ⟨length, admits⟩ ih
  | union body at_member value ih => exact union_encodes valid body at_member ih
  | enum body bound => exact enum_encodes valid body bound

/-- A sheet, from the tree of its typed view. -/
example : Sample.schema.encode 5 (.map
    [ (.scalar (.string "counts"), .map
        [ (.scalar (.string "low"), .scalar (.int 3)), (.scalar (.string "high"), .null) ]),
      (.scalar (.string "tag"), .map
        [ (.scalar (.string "site"), .scalar (.string "a")),
          (.scalar (.string "unit"), .scalar (.string "b")) ]) ]) =
    .map [ ("c", .map [("l", .scalar (.int 3)), ("high", .null)]),
      ("tag", .scalar (.string "a:b")) ] :=
  rfl

end Schema

/-! ## What is built -/

namespace Builder

/-- **The representation of a value that is built is the declared encoding of its typed view.** -/
theorem toRepresentation_eq_encode {ts : TypeSystem} {s : Schema} {c : Config} {p : Prototype}
    (frozen : ts.finalize = .ok s) (compiled : s.compile c = .ok p.model) (calls : List Call)
    {v : TypedValue} (built : ((ofPrototype p).run calls).1.build = .ok v) :
    v.toRepresentation = .ok (s.encode v.type v.node.tree) := by
  obtain ⟨rfl, fits⟩ := built_fits frozen compiled calls built
  obtain ⟨d, hd, htree⟩ := v.exists_toRepresentation
  have encodes := fits.encodes (Schema.valid_of_finalize frozen)
  rw [hd, Datum.tree_injective d _ (htree.trans encodes)]
  rfl

theorem toRepresentation_eq_encode_sample :
    Sample.types.finalize = .ok Sample.schema ∧
      Sample.schema.compile .empty = .ok Sample.prototype.model ∧
      ((ofPrototype Sample.prototype).run Sample.calls).1.build =
        .ok ⟨Sample.model, 7, Sample.value⟩ ∧
      (⟨Sample.model, 7, Sample.value⟩ : TypedValue).toRepresentation =
        .ok (Sample.schema.encode 7 (TypedValue.node ⟨Sample.model, 7, Sample.value⟩).tree) :=
  ⟨Sample.finalize_types, Sample.compile_schema, rfl,
    toRepresentation_eq_encode (p := Sample.prototype) Sample.finalize_types Sample.compile_schema
      Sample.calls rfl⟩

end Builder

end DualView
