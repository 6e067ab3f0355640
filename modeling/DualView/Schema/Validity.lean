import DualView.Schema.Basic

/-!
# Valid representations

The first fault of each declaration of a schema.  Types of map keys must be represented as text;
the keys of fields, the discriminants of members and the strings and ints of enums must tell
them apart; the members of a kinded union must be told apart by their kinds.
-/

namespace DualView

/-! ## Repetitions -/

/-- The first element that is in `seen` or stands earlier in the list. -/
def firstRepeat {α : Type} [DecidableEq α] (seen : List α) : List α → Option α
  | [] => none
  | x :: rest => if x ∈ seen then some x else firstRepeat (x :: seen) rest

theorem firstRepeat_eq_none_iff {α : Type} [DecidableEq α] {seen xs : List α} :
    firstRepeat seen xs = none ↔ xs.Nodup ∧ ∀ x ∈ xs, x ∉ seen := by
  induction xs generalizing seen with
  | nil => simp [firstRepeat]
  | cons x rest ih =>
    by_cases h : x ∈ seen
    · simp [firstRepeat, h]
    · simp only [firstRepeat, h, if_false, ih, List.nodup_cons, List.mem_cons, not_or,
        forall_eq_or_imp, not_false_eq_true, true_and]
      constructor
      · rintro ⟨hn, hr⟩
        exact ⟨⟨fun hx => (hr x hx).1 rfl, hn⟩, fun y hy => (hr y hy).2⟩
      · rintro ⟨⟨hx, hn⟩, hr⟩
        exact ⟨hn, fun y hy => ⟨fun e => hx (e ▸ hy), hr y hy⟩⟩

/-! ## Labels -/

namespace Labels

variable {β : Type} [DecidableEq β]

/-- The first pair that names no member, or repeats the name or the label of an earlier pair. -/
def firstFault (members : List String) (seen : List (String × β)) :
    List (String × β) → Option (LabelFault β)
  | [] => none
  | (member, label) :: rest =>
    if member ∉ members then some (.foreign member)
    else if member ∈ seen.map (·.1) then some (.second member)
    else if label ∈ seen.map (·.2) then some (.shared label)
    else firstFault members ((member, label) :: seen) rest

/-- The first fault of labels that must give each member one label. -/
def fault? (members : List String) (l : Labels β) : Option (LabelFault β) :=
  firstFault members [] l.pairs <|>
    if l.pairs.length = members.length then none else some .incomplete

end Labels

/-! ## Declarations -/

namespace Schema

variable (s : Schema)

/-- The first fault of a map. -/
def mapFault? (key : TypeId) : Option ReprFault :=
  if (s.decl key).reprKind? = some (.scalar .string) then none
  else some (.mapKey (s.nameOf key))

/-- The first fault of renamed fields. -/
def keysFault? (names : List String) (keys : Renaming) : Option ReprFault :=
  ((keys.pairs.find? (·.1 ∉ names)).map fun p => .renamedNonField p.1) <|>
    (firstRepeat [] (names.map keys.keyOf)).map .sharedKey

/-- The first fault of a field whose text is joined with others. -/
def joinedFault? (f : Field TypeId) : Option ReprFault :=
  if f.isMaybe then some (.joinedMaybe f.name)
  else if s.body f.type = .scalar .string then none
  else some (.joinedNonText f.name)

/-- The first fault of a struct. -/
def structFault? (fields : List (Field TypeId)) (repr : StructRepr) : Option ReprFault :=
  ((firstRepeat [] (fields.map (·.name))).map .repeatedField) <|>
    match repr with
    | .map keys | .listpairs keys => keysFault? (fields.map (·.name)) keys
    | .tuple => (fields.find? (·.optional)).map (.optionalInTuple ·.name)
    | .stringjoin separator =>
      if separator.isEmpty then some .emptySeparator
      else if fields.isEmpty then some .nothingToJoin
      else fields.findSome? s.joinedFault?

/-- The first member of a kinded union without a kind of its own, or with the kind of another. -/
def kindsFault? (seen : List Kind) : List TypeId → Option ReprFault
  | [] => none
  | member :: rest =>
    match (s.decl member).reprKind? with
    | none => some (.unkindedMember (s.nameOf member))
    | some kind => if kind ∈ seen then some (.sharedKind kind) else kindsFault? (kind :: seen) rest

/-- The first fault of a union. -/
def unionFault? (members : List TypeId) (repr : UnionRepr) : Option ReprFault :=
  if members.isEmpty then some .noMembers
  else ((firstRepeat [] (members.map s.nameOf)).map .repeatedMember) <|>
    match repr with
    | .keyed discriminants =>
      (discriminants.fault? (members.map s.nameOf)).map .discriminant
    | .kinded => s.kindsFault? [] members

/-- The first fault of an enum. -/
def enumFault? (members : List String) (repr : EnumRepr) : Option ReprFault :=
  ((firstRepeat [] members).map .repeatedEnumMember) <|>
    match repr with
    | .string keys =>
      ((keys.pairs.find? (·.1 ∉ members)).map fun p => .renamedNonMember p.1) <|>
        (firstRepeat [] (members.map keys.keyOf)).map .sharedText
    | .int values => (values.fault? members).map .value

/-- The first fault of the body of a declaration. -/
def fault? : Body TypeId → Option ReprFault
  | .scalar _ | .list _ _ => none
  | .map key _ _ _ => s.mapFault? key
  | .struct fields repr => s.structFault? fields repr
  | .union members repr => s.unionFault? members repr
  | .enum members repr => enumFault? members repr

/-- The first fault of the schema, in the order of its declarations. -/
def firstError? : Option SchemaError :=
  s.decls.findSome? fun d => (s.fault? d.body).map (.invalidRepresentation d.name)

end Schema

end DualView
