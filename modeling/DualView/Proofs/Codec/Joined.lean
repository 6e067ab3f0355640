import DualView.Proofs.Codec.Recopy
import DualView.Proofs.Text.Occurrences

/-!
# Structs whose fields are joined

A struct whose fields are joined is represented by one text, and what a text is decoded to are its
parts, wherever the separators in it came from: nothing is escaped.  So a value comes back exactly if
its text is split where it was joined.

* `Model.assign_joined`: what is decoded from a text.
* `TypedValue.returns_iff`: when a value comes back.
* `Prototype.joined_returns`: where no field holds the separator, this is a matter of what the
  fields run into, and nothing runs into a separator such as `:`.
* `Prototype.joined_fails`: where a field holds the separator, decoding fails.
-/

namespace DualView

variable {m : Model} {type : TypeId} {fields : List (Field TypeId)} {separator : String}
  {slots slots' : List (Slot Value)}

/-! ## The texts of the fields -/

theorem Value.sameSlots_texts_iff
    (texts : ∀ slot ∈ slots, ∃ text, slot.content = .value (.scalar (.string text)))
    (texts' : ∀ slot ∈ slots', ∃ text, slot.content = .value (.scalar (.string text))) :
    sameSlots slots slots' = true ↔ slots.filterMap Slot.text? = slots'.filterMap Slot.text? := by
  induction slots generalizing slots' with
  | nil =>
    cases slots' with
    | nil => simp [sameSlots]
    | cons slot' rest' =>
      obtain ⟨⟨text', ht'⟩, -⟩ := List.forall_mem_cons.mp texts'
      simp [sameSlots, Slot.text?, ht']
  | cons slot rest ih =>
    obtain ⟨⟨text, ht⟩, hrest⟩ := List.forall_mem_cons.mp texts
    obtain ⟨layout, content⟩ := slot
    cases ht
    cases slots' with
    | nil => simp [sameSlots, Slot.text?]
    | cons slot' rest' =>
      obtain ⟨⟨text', ht'⟩, hrest'⟩ := List.forall_mem_cons.mp texts'
      obtain ⟨layout', content'⟩ := slot'
      cases ht'
      rw [sameSlots, Bool.and_eq_true, ih hrest hrest']
      simp [Slot.text?, sameMaybe, same, Scalar.same]

namespace Schema

variable {s : Schema}

/-- Values of a struct with joined fields are equal exactly if they hold the same texts. -/
theorem same_joined_iff (valid : s.Valid)
    (body : s.body type = .struct fields (.stringjoin separator)) (h : s.Fits type (.struct slots))
    (h' : s.Fits type (.struct slots')) :
    (Value.struct slots).same (.struct slots') = true ↔
      slots.filterMap Slot.text? = slots'.filterMap Slot.text? := by
  rw [Value.same]
  exact Value.sameSlots_texts_iff (joined_slots valid body h) (joined_slots valid body h')

theorem length_joined (valid : s.Valid)
    (body : s.body type = .struct fields (.stringjoin separator))
    (h : s.Fits type (.struct slots)) : (slots.filterMap Slot.text?).length = fields.length :=
  (length_filterMap_text? (joined_slots valid body h)).trans ((fits_struct_iff body).mp h).1

theorem text_joined (body : s.body type = .struct fields (.stringjoin separator))
    (slots : List (Slot Value)) :
    s.Text type (.struct slots) (Text.join separator (slots.filterMap Slot.text?)) := by
  rw [text_iff_read, read_struct body]
  rfl

theorem target?_joined (body : s.body type = .struct fields (.stringjoin separator)) (kind : Kind) :
    s.target? .representation type kind = some (none, type) := by
  simp only [target?, body]

end Schema

theorem TypedValue.toRepresentation_joined
    (body : m.schema.body type = .struct fields (.stringjoin separator))
    (slots : List (Slot Value)) :
    (⟨m, type, .struct slots⟩ : TypedValue).toRepresentation =
      .ok (.scalar (.string (Text.join separator (slots.filterMap Slot.text?)))) := by
  obtain ⟨d, hd, htree⟩ := (⟨m, type, .struct slots⟩ : TypedValue).exists_toRepresentation
  have shown := Schema.tree_of_text (Schema.text_iff_read.mp (Schema.text_joined body slots))
  rw [hd, Datum.tree_eq_scalar_iff.mp (htree.trans shown)]

/-! ## Decoding -/

/-- **A text is decoded to its parts**, by a type or by the kinded union that it is a member of. -/
theorem Model.assign_joined (body : m.schema.body type = .struct fields (.stringjoin separator))
    {expected : TypeId} {member : Option Nat}
    (target : m.schema.target? .representation expected (.scalar .string) = some (member, type))
    (text : String) :
    m.assign .representation expected (.string text) =
      Value.wrap member <$> m.joined type fields separator text := by
  have kind : (Scalar.string text).kind = .string := rfl
  rw [assign, kind, target]
  simp only [ofScalar, body]

theorem Model.joined_of_arity {text : String}
    (arity : (Text.split separator text).length = fields.length) :
    m.joined type fields separator text = .ok (.struct ((Text.split separator text).mapIdx
      fun i part => ⟨m.fieldLayout type i, .value (.scalar (.string part))⟩)) :=
  if_pos arity

theorem Model.joined_of_arity_ne {text : String}
    (arity : (Text.split separator text).length ≠ fields.length) :
    m.joined type fields separator text = .error (.representation (.stringjoinArity
      (m.schema.nameOf type) text fields.length (Text.split separator text).length)) :=
  if_neg arity

theorem Opening.scalar_value (m : Model) (view : View) (nullable : Bool) (type : TypeId)
    (a : Scalar) : Opening.scalar m ⟨.value type, view, nullable⟩ a =
      (fun v => .content (some v)) <$> m.assign view type a := rfl

theorem Prototype.fromRepresentation_joined
    (body : m.schema.body type = .struct fields (.stringjoin separator)) (view : View) {n : Node}
    {text : String} (shown : n.tree = .scalar (.string text)) :
    (⟨m, type, view⟩ : Prototype).fromRepresentation n =
      (⟨m, type, ·⟩) <$> m.joined type fields separator text := by
  have assigned := Model.assign_joined body (Schema.target?_joined body _) text
  rw [fromRepresentation, buildFrom, shown]
  show Opening.scalar m ⟨.value type, .representation, false⟩ (.string text) >>= _ = _
  rw [Opening.scalar_value, assigned]
  cases m.joined type fields separator text <;> rfl

/-- A value comes back when it is encoded and decoded. -/
def TypedValue.Returns (v : TypedValue) (view : View) : Prop :=
  ∃ d w, v.toRepresentation = .ok d ∧ (v.prototype view).fromRepresentation (.basic d) = .ok w ∧
    w.same v = true

/-- **A value comes back exactly if its text is split where it was joined.** -/
theorem TypedValue.returns_iff (valid : m.schema.Valid)
    (body : m.schema.body type = .struct fields (.stringjoin separator))
    (fits : m.schema.Fits type (.struct slots)) (view : View) :
    (⟨m, type, .struct slots⟩ : TypedValue).Returns view ↔
      Text.split separator (Text.join separator (slots.filterMap Slot.text?)) =
        slots.filterMap Slot.text? := by
  have same_iff {parts : List String} (length : parts.length = fields.length) :
      (Value.struct (parts.mapIdx fun i part =>
          ⟨m.fieldLayout type i, .value (.scalar (.string part))⟩)).same (.struct slots) = true ↔
        parts = slots.filterMap Slot.text? := by
    rw [Schema.same_joined_iff valid body
      (Model.fits_joined valid body (m.fieldLayout type) length) fits,
      Model.filterMap_text?_joined]
  have shown : (Node.basic (.scalar (.string
      (Text.join separator (slots.filterMap Slot.text?))))).tree = _ := Datum.tree_scalar _
  have decoded := Prototype.fromRepresentation_joined body view shown
  constructor
  · rintro ⟨d, w, hd, hw, same⟩
    rw [toRepresentation_joined body] at hd
    cases hd
    obtain ⟨v, hv, rfl⟩ := map_eq_ok_iff.mp (decoded.symm.trans hw)
    rw [Model.joined] at hv
    split at hv
    · rename_i arity
      cases hv
      exact (same_iff arity).mp (Bool.and_eq_true_iff.mp same).2
    · contradiction
  · intro undone
    have arity := (congrArg List.length undone).trans (Schema.length_joined valid body fits)
    rw [Model.joined_of_arity arity] at decoded
    exact ⟨_, _, toRepresentation_joined body slots, decoded,
      Bool.and_eq_true_iff.mpr ⟨beq_self_eq_true _, (same_iff arity).mpr undone⟩⟩

/-! ## Fields that do not hold the separator -/

namespace Schema

/-- A value of a struct with joined fields, none of which holds the separator. -/
structure FreeOf (s : Schema) (type : TypeId) (separator : String) (slots : List (Slot Value)) :
    Prop where
  fits : s.Fits type (.struct slots)
  free : ∀ text ∈ slots.filterMap Slot.text?, ¬ Text.Holds separator text

/-- No field but the last runs into the separator after it. -/
def ClearOf (separator : String) (slots : List (Slot Value)) : Prop :=
  ∀ text ∈ (slots.filterMap Slot.text?).dropLast, ¬ Text.RunsInto separator text

variable {s : Schema}

theorem FreeOf.split_iff (valid : s.Valid)
    (body : s.body type = .struct fields (.stringjoin separator))
    (h : s.FreeOf type separator slots) :
    Text.split separator (Text.join separator (slots.filterMap Slot.text?)) =
      slots.filterMap Slot.text? ↔ ClearOf separator slots := by
  obtain ⟨some, fieldsSome, -⟩ := valid.joined body
  refine Text.split_join_iff some (fun e => fieldsSome ?_) h.free
  rw [← List.length_eq_zero_iff, ← length_joined valid body h.fits, e]
  rfl

/-- A single field is clear, and so are all fields if the separator has no border. -/
theorem FreeOf.clear (valid : s.Valid)
    (body : s.body type = .struct fields (.stringjoin separator))
    (h : s.FreeOf type separator slots)
    (always : fields.length = 1 ∨ Text.Unbordered separator) : ClearOf separator slots := by
  intro text ht
  rcases always with one | unbordered
  · obtain ⟨last, hlast⟩ := List.length_eq_one_iff.mp ((length_joined valid body h.fits).trans one)
    rw [hlast] at ht
    contradiction
  · exact Text.unbordered_iff.mp unbordered text (h.free text (List.mem_of_mem_dropLast ht))

/-- Any text that does not hold the separator is the first of several fields of some value. -/
theorem exists_freeOf (valid : s.Valid)
    (body : s.body type = .struct fields (.stringjoin separator)) (several : 1 < fields.length)
    {text : String} (free : ¬ Text.Holds separator text) :
    ∃ slots, s.FreeOf type separator slots ∧ text ∈ (slots.filterMap Slot.text?).dropLast := by
  obtain ⟨n, hn⟩ := Nat.exists_eq_add_of_lt several
  let parts := text :: "" :: List.replicate n ""
  have length : parts.length = fields.length := by
    rw [List.length_cons, List.length_cons, List.length_replicate]
    omega
  have blank : ¬ Text.Holds separator "" := by
    intro holds
    exact Text.toList_ne_nil (valid.joined body).1 (List.infix_nil.mp holds)
  refine ⟨parts.mapIdx fun _ part => ⟨.embedded, .value (.scalar (.string part))⟩,
    ⟨Model.fits_joined valid body (fun _ => .embedded) length, ?_⟩, ?_⟩
  · rw [Model.filterMap_text?_joined fun _ => .embedded]
    intro part hp
    rcases List.mem_cons.mp hp with rfl | hp
    · exact free
    · rcases List.mem_cons.mp hp with rfl | hp
      · exact blank
      · rw [List.eq_of_mem_replicate hp]
        exact blank
  · rw [Model.filterMap_text?_joined fun _ => .embedded, List.dropLast_cons_cons]
    exact List.mem_cons_self

/-- Fields that are split where they were joined are told by their joined text. -/
theorem same_of_joined_eq (valid : s.Valid)
    (body : s.body type = .struct fields (.stringjoin separator))
    (h : s.FreeOf type separator slots) (clear : ClearOf separator slots)
    (h' : s.FreeOf type separator slots') (clear' : ClearOf separator slots')
    (eq : Text.join separator (slots.filterMap Slot.text?) =
      Text.join separator (slots'.filterMap Slot.text?)) :
    (Value.struct slots).same (.struct slots') = true := by
  rw [same_joined_iff valid body h.fits h'.fits, ← (h.split_iff valid body).mpr clear, eq,
    (h'.split_iff valid body).mpr clear']

theorem joined_not_mem (valid : s.Valid)
    (body : s.body type = .struct fields (.stringjoin separator)) {entries : List (Entry Value)}
    (keys : ∀ e ∈ entries, s.Text type e.key e.text ∧ ∃ slots, e.key = .struct slots ∧
      s.FreeOf type separator slots ∧ ClearOf separator slots)
    (h : s.FreeOf type separator slots) (clear : ClearOf separator slots)
    (new : ∀ e ∈ entries, (Value.struct slots).same e.key = false) :
    Text.join separator (slots.filterMap Slot.text?) ∉ entries.map (·.text) := by
  intro taken
  obtain ⟨e, he, text_eq⟩ := List.mem_map.mp taken
  obtain ⟨text, slots', key_eq, h', clear'⟩ := keys e he
  rw [key_eq] at text
  have joined_eq := Except.ok.inj ((text_joined body slots').symm.trans text)
  have same := same_of_joined_eq valid body h clear h' clear' (text_eq.symm.trans joined_eq.symm)
  rw [← key_eq, new e he] at same
  contradiction

end Schema

namespace Sample

/-- Two texts that are joined at a separator with a border, and a map under such keys. -/
def pairTypes : TypeSystem := ⟨
  [ ⟨"Text", .scalar .string⟩,
    ⟨"Pair", .struct [⟨"left", "Text", false, false⟩, ⟨"right", "Text", false, false⟩]
      (.stringjoin "aa")⟩,
    ⟨"Pairs", .map "Pair" "Text" false .explicit⟩ ]⟩

def pairSchema : Schema := ⟨
  [ ⟨"Text", .scalar .string⟩,
    ⟨"Pair", .struct [⟨"left", 0, false, false⟩, ⟨"right", 0, false, false⟩] (.stringjoin "aa")⟩,
    ⟨"Pairs", .map 1 0 false .explicit⟩ ]⟩

def pairModel : Model := ⟨pairSchema, .empty,
  [ ⟨.embedded, [], false⟩, ⟨.indirect, [.embedded, .embedded], false⟩,
    ⟨.indirect, [], false⟩ ]⟩

def pair (left right : String) : List (Slot Value) :=
  [⟨.embedded, .value (.scalar (.string left))⟩, ⟨.embedded, .value (.scalar (.string right))⟩]

theorem finalize_pairs : pairTypes.finalize = .ok pairSchema := rfl

theorem compile_pairs : pairSchema.compile .empty = .ok pairModel := by
  have layouts : (List.range pairSchema.size).mapM (pairSchema.typeLayout .empty) =
      .ok pairModel.layouts := by
    decide +kernel
  rw [Schema.compile, layouts]
  rfl

theorem body_pair : pairModel.schema.body 1 =
    .struct [⟨"left", 0, false, false⟩, ⟨"right", 0, false, false⟩] (.stringjoin "aa") := rfl

theorem toRepresentation_pair (left right : String) :
    (⟨pairModel, 1, .struct (pair left right)⟩ : TypedValue).toRepresentation =
      .ok (.scalar (.string (Text.join "aa" [left, right]))) :=
  TypedValue.toRepresentation_joined body_pair (pair left right)

theorem fits_pair (left right : String) : pairSchema.Fits 1 (.struct (pair left right)) := by
  refine (Schema.fits_struct_iff rfl).mpr ⟨rfl, ?_⟩
  intro p hp
  rcases List.mem_cons.mp hp with rfl | hp
  · exact .scalar rfl
  · obtain rfl := List.mem_singleton.mp hp
    exact .scalar rfl

theorem freeOf_pair (left right : String) (first : ¬ Text.Holds "aa" left)
    (second : ¬ Text.Holds "aa" right) : pairSchema.FreeOf 1 "aa" (pair left right) := by
  refine ⟨fits_pair left right, ?_⟩
  intro text ht
  rcases List.mem_cons.mp ht with rfl | ht
  · exact first
  · obtain rfl := List.mem_singleton.mp ht
    exact second

theorem clearOf_pair {left : String} (right : String) (clear : ¬ Text.RunsInto "aa" left) :
    Schema.ClearOf "aa" (pair left right) := by
  intro text ht
  obtain rfl := List.mem_singleton.mp ht
  exact clear

end Sample

/-- **Where no field holds the separator, a value comes back exactly if no field but the last runs
into the separator after it.**  That is so of all such values if there is one field, or if no
beginning of the separator is an end of it, and otherwise not.  Such values are told apart by their
joined texts, so as keys of a map they do not collide. -/
theorem Prototype.joined_returns {ts : TypeSystem} {s : Schema} {c : Config} {m : Model}
    (frozen : ts.finalize = .ok s) (compiled : s.compile c = .ok m) {type : TypeId}
    {fields : List (Field TypeId)} {separator : String}
    (body : s.body type = .struct fields (.stringjoin separator)) :
    (∀ slots, s.FreeOf type separator slots → ∀ view,
      ((⟨m, type, .struct slots⟩ : TypedValue).Returns view ↔ Schema.ClearOf separator slots)) ∧
    ((∀ slots, s.FreeOf type separator slots → ∀ view,
        (⟨m, type, .struct slots⟩ : TypedValue).Returns view) ↔
      fields.length = 1 ∨ Text.Unbordered separator) ∧
    (∀ slots slots', s.FreeOf type separator slots → Schema.ClearOf separator slots →
      s.FreeOf type separator slots' → Schema.ClearOf separator slots' →
      (⟨m, type, .struct slots⟩ : TypedValue).toRepresentation =
        (⟨m, type, .struct slots'⟩ : TypedValue).toRepresentation →
      (Value.struct slots).same (.struct slots') = true) ∧
    (∀ owner view member value nullable layout, ∀ dict : Dict Value,
      (∀ e ∈ dict.entries, s.Text type e.key e.text ∧ ∃ slots, e.key = .struct slots ∧
        s.FreeOf type separator slots ∧ Schema.ClearOf separator slots) →
      ∀ slots, s.FreeOf type separator slots → Schema.ClearOf separator slots →
        (∀ e ∈ dict.entries, (Value.struct slots).same e.key = false) →
        ∃ f o, MapFrame.value m ⟨owner, view, member, .entries type value nullable layout dict,
          .keyed (.struct slots)⟩ = .ok (f, o)) := by
  obtain rfl := Schema.schema_of_compile compiled
  have valid := Schema.valid_of_finalize frozen
  have returns_iff (slots) (h : m.schema.FreeOf type separator slots) (view) :
      (⟨m, type, .struct slots⟩ : TypedValue).Returns view ↔ Schema.ClearOf separator slots :=
    (TypedValue.returns_iff valid body h.fits view).trans (h.split_iff valid body)
  refine ⟨returns_iff, ⟨fun all => ?_, fun always slots h view => ?_⟩, ?_, ?_⟩
  · by_cases one : fields.length = 1
    · exact .inl one
    · have some := List.length_pos_iff.mpr (valid.joined body).2.1
      refine .inr (Text.unbordered_iff.mpr fun text free => ?_)
      obtain ⟨slots, h, first⟩ := Schema.exists_freeOf valid body (by omega) free
      exact (returns_iff slots h .typed).mp (all slots h .typed) text first
  · exact (returns_iff slots h view).mpr (h.clear valid body always)
  · intro slots slots' h clear h' clear' eq
    rw [TypedValue.toRepresentation_joined body, TypedValue.toRepresentation_joined body] at eq
    have joined_eq := Scalar.string.inj (Datum.scalar.inj (Except.ok.inj eq))
    exact Schema.same_of_joined_eq valid body h clear h' clear' joined_eq
  · intro owner view member value nullable layout dict keys slots h clear new
    have fresh := Schema.joined_not_mem valid body keys h clear new
    exact ⟨_, _, Opening.value_entries_iff.mpr
      ⟨_, Schema.text_joined body slots, fresh, rfl, rfl⟩⟩

/-- At a separator with a border, some values that do not hold it do not come back, and some do. -/
theorem Prototype.joined_returns_pair :
    Sample.pairTypes.finalize = .ok Sample.pairSchema ∧
      Sample.pairSchema.compile .empty = .ok Sample.pairModel ∧
      Sample.pairSchema.FreeOf 1 "aa" (Sample.pair "x" "ab") ∧
      (⟨Sample.pairModel, 1, .struct (Sample.pair "x" "ab")⟩ : TypedValue).Returns .typed ∧
      Sample.pairSchema.FreeOf 1 "aa" (Sample.pair "xa" "b") ∧
      ¬ (⟨Sample.pairModel, 1, .struct (Sample.pair "xa" "b")⟩ : TypedValue).Returns .typed := by
  have returns := (joined_returns Sample.finalize_pairs Sample.compile_pairs Sample.body_pair).1
  have free := Sample.freeOf_pair "x" "ab" (by decide) (by decide)
  have straddling := Sample.freeOf_pair "xa" "b" (by decide) (by decide)
  refine ⟨Sample.finalize_pairs, Sample.compile_pairs, free, ?_, straddling, ?_⟩
  · exact (returns _ free .typed).mpr (Sample.clearOf_pair "ab" (by decide))
  · intro back
    exact (returns _ straddling .typed).mp back "xa" (List.mem_singleton_self _) (by decide)

/-- **Values that do not hold the separator are joined to one text.**  The text of `xa` and `b` is
that of `x` and `ab` too: it is decoded to these, and under the keys of a map the second of the two
is taken for the first. -/
theorem Prototype.joined_collides :
    Sample.pairTypes.finalize = .ok Sample.pairSchema ∧
      Sample.pairSchema.compile .empty = .ok Sample.pairModel ∧
      Sample.pairSchema.FreeOf 1 "aa" (Sample.pair "xa" "b") ∧
      Sample.pairSchema.FreeOf 1 "aa" (Sample.pair "x" "ab") ∧
      (⟨Sample.pairModel, 1, .struct (Sample.pair "xa" "b")⟩ : TypedValue).toRepresentation =
        .ok (.scalar (.string "xaaab")) ∧
      (⟨Sample.pairModel, 1, .struct (Sample.pair "x" "ab")⟩ : TypedValue).toRepresentation =
        .ok (.scalar (.string "xaaab")) ∧
      (⟨Sample.pairModel, 1, .typed⟩ : Prototype).fromRepresentation
          (.basic (.scalar (.string "xaaab"))) =
        .ok ⟨Sample.pairModel, 1, .struct (Sample.pair "x" "ab")⟩ ∧
      (Value.struct (Sample.pair "x" "ab")).same (.struct (Sample.pair "xa" "b")) = false ∧
      MapFrame.value Sample.pairModel ⟨2, .typed, none, .entries 1 0 false .embedded
          ⟨[⟨.struct (Sample.pair "xa" "b"), "xaaab", ⟨.embedded, .value (.scalar (.string ""))⟩⟩]⟩,
          .keyed (.struct (Sample.pair "x" "ab"))⟩ =
        .error (.assembly (.duplicateKey "Pairs" "xaaab")) := by
  refine ⟨Sample.finalize_pairs, Sample.compile_pairs,
    Sample.freeOf_pair "xa" "b" (by decide) (by decide),
    Sample.freeOf_pair "x" "ab" (by decide) (by decide),
    ?_, ?_, ?_, ?_, ?_⟩
  · rw [Sample.toRepresentation_pair]
    rfl
  · rw [Sample.toRepresentation_pair]
    rfl
  · rw [fromRepresentation_joined Sample.body_pair .typed (Datum.tree_scalar _)]
    rfl
  · simp [Value.same, Sample.pair, Value.sameSlots, Value.sameMaybe, Scalar.same]
  · rfl

/-! ## Fields that hold the separator -/

/-- **Where a field holds the separator, decoding fails**: its text splits into more parts than
there are fields.  So it does wherever the type takes the text, which may be as the member of a
kinded union. -/
theorem Prototype.joined_fails {ts : TypeSystem} {s : Schema} {c : Config} {m : Model}
    (frozen : ts.finalize = .ok s) (compiled : s.compile c = .ok m) {type : TypeId}
    {fields : List (Field TypeId)} {separator : String}
    (body : s.body type = .struct fields (.stringjoin separator)) {slots : List (Slot Value)}
    (fits : s.Fits type (.struct slots))
    (holds : ∃ text ∈ slots.filterMap Slot.text?, Text.Holds separator text) :
    ∃ joined found,
      (⟨m, type, .struct slots⟩ : TypedValue).toRepresentation =
        .ok (.scalar (.string joined)) ∧
      fields.length < found ∧
      (∀ view n, n.tree = .scalar (.string joined) →
        (⟨m, type, view⟩ : Prototype).fromRepresentation n = .error (.representation
          (.stringjoinArity (s.nameOf type) joined fields.length found))) ∧
      ∀ expected member nullable,
        s.target? .representation expected (.scalar .string) = some (member, type) →
        Opening.scalar m ⟨.value expected, .representation, nullable⟩ (.string joined) =
          .error (.representation
            (.stringjoinArity (s.nameOf type) joined fields.length found)) := by
  obtain rfl := Schema.schema_of_compile compiled
  have valid := Schema.valid_of_finalize frozen
  have more := Text.length_lt_length_split_join (valid.joined body).1 holds
  rw [Schema.length_joined valid body fits] at more
  refine ⟨_, _, TypedValue.toRepresentation_joined body slots, more, ?_, ?_⟩
  · intro view n shown
    rw [fromRepresentation_joined body view shown, Model.joined_of_arity_ne more.ne']
    rfl
  · intro expected member nullable target
    rw [Opening.scalar_value, Model.assign_joined body target, Model.joined_of_arity_ne more.ne']
    rfl

theorem Prototype.joined_fails_pair :
    Sample.pairTypes.finalize = .ok Sample.pairSchema ∧
      Sample.pairSchema.compile .empty = .ok Sample.pairModel ∧
      Sample.pairSchema.Fits 1 (.struct (Sample.pair "xaaa" "b")) ∧
      ∃ joined found,
        (⟨Sample.pairModel, 1, .struct (Sample.pair "xaaa" "b")⟩ : TypedValue).toRepresentation =
          .ok (.scalar (.string joined)) ∧ 2 < found ∧
        (⟨Sample.pairModel, 1, .typed⟩ : Prototype).fromRepresentation
            (.basic (.scalar (.string joined))) =
          .error (.representation (.stringjoinArity "Pair" joined 2 found)) := by
  obtain ⟨joined, found, shown, more, fails, -⟩ :=
    joined_fails Sample.finalize_pairs Sample.compile_pairs Sample.body_pair
      (Sample.fits_pair "xaaa" "b") ⟨"xaaa", List.mem_cons_self, by decide⟩
  exact ⟨Sample.finalize_pairs, Sample.compile_pairs, Sample.fits_pair "xaaa" "b", joined, found,
    shown, more, fails .typed _ (Datum.tree_scalar _)⟩

end DualView
