import DualView.Proofs.Assembly.Resemblance
import DualView.Proofs.Assembly.Runs
import DualView.Proofs.Node.Resemblance

/-!
# Runs in the typed view

Two builders under schemas that differ in representation alone *resemble* each other if they have
come equally far and have the same open, all in the typed view.  A call that stays in the typed view
takes them to builders that resemble each other, with the same reply; and so do calls in order.

* `Builder.Resembles.call`, `Builder.Resembles.run`: one call, and a run.
-/

namespace DualView

/-! ## State -/

inductive Frame.Resembles : Frame → Frame → Prop
  | map {f f' : MapFrame} (same : f.Resembles f') : Resembles (.map f) (.map f')
  | list {f f' : ListFrame} (same : f.Resembles f') : Resembles (.list f) (.list f')

inductive Handle.Resembles : Handle → Handle → Prop
  | mk {frame frame' : Frame} (same : frame.Resembles frame') (finished : Bool) :
      Resembles ⟨frame, finished⟩ ⟨frame', finished⟩

inductive Progress.Resembles : Progress → Progress → Prop
  | initial : Resembles .initial .initial
  | building : Resembles .building .building
  | finished {v v' : Value} (same : v.plain = v'.plain) : Resembles (.finished v) (.finished v')
  | errored : Resembles .errored .errored

/-- Builders that have come equally far, with the same open in the typed view. -/
structure Builder.Resembles (b b' : Builder) : Prop where
  progress : b.progress.Resembles b'.progress
  handles : List.Forall₂ Handle.Resembles b.handles b'.handles
  opening : b.opening = b'.opening
  typed : ∀ o, b.opening = some o → o.Typed

/-- The same reply, up to what a finished value keeps of its representation and to the text of a key
that is taken. -/
inductive Reply.Resembles : Reply → Reply → Prop
  | same (r : Reply) : Resembles r r
  | state {p p' : Progress} (same : p.Resembles p') : Resembles (.state p) (.state p')
  | failed {e e' : NodeError} (same : e.keyless = e'.keyless) : Resembles (.failed e) (.failed e')

/-- Two prototypes for the typed view of one type, in models that differ in representation and
layout alone. -/
structure Prototype.Twins (p p' : Prototype) : Prop where
  schemas : p.model.schema.Twins p'.model.schema
  type_eq : p.type = p'.type
  typed : p.view = .typed
  typed' : p'.view = .typed

namespace Frame

variable {m m' : Model} {f f' : Frame}

theorem Resembles.place {s s' : Schema} (h : f.Resembles f') (sound : f.Sound s)
    (sound' : f'.Sound s') {piece piece' : Piece} (pieces : piece.Resembles piece') :
    (f.place piece).Resembles (f'.place piece') := by
  cases h with
  | map same => exact .map (same.place sound sound' pieces)
  | list same => exact .list (same.place pieces)

variable (twins : m.schema.Twins m'.schema) (h : f.Resembles f')
include twins h

theorem Resembles.close : Agrees Piece.Resembles (f.close m) (f'.close m') := by
  cases h with
  | map same => exact same.close twins
  | list same => exact same.close twins

theorem Resembles.inView : Agrees Resembles (f.inView m .typed) (f'.inView m' .typed) := by
  cases h with
  | map same => exact (same.inView twins).map fun _ _ => .map
  | list same => exact (same.inView twins).map fun _ _ => .list

omit twins in
theorem Resembles.type_eq : f.type = f'.type := by
  cases h with
  | map same => cases same; rfl
  | list same => cases same; rfl

end Frame

/-! ## Calls -/

namespace Builder

def SameAnswer (r r' : Builder × Reply) : Prop := r.1.Resembles r'.1 ∧ r.2.Resembles r'.2

variable {b b' : Builder} (h : b.Resembles b')
include h

theorem Resembles.closed :
    Resembles { b with opening := none } { b' with opening := none } :=
  ⟨h.progress, h.handles, rfl, nofun⟩

theorem Resembles.settle {outcome outcome' : Except NodeError (Builder × Reply)}
    (same : Agrees SameAnswer outcome outcome') :
    SameAnswer (b.settle outcome) (b'.settle outcome') := by
  obtain ⟨prototype, progress, handles, opening⟩ := b
  obtain ⟨prototype', progress', handles', opening'⟩ := b'
  cases h.progress with
  | errored => exact ⟨h, .failed rfl⟩
  | finished values =>
    cases same with
    | error keyless => exact ⟨h, .failed keyless⟩
    | ok answer => exact answer
  | initial =>
    cases same with
    | error keyless => exact ⟨⟨.errored, h.handles, h.opening, h.typed⟩, .failed keyless⟩
    | ok answer => exact answer
  | building =>
    cases same with
    | error keyless => exact ⟨⟨.errored, h.handles, h.opening, h.typed⟩, .failed keyless⟩
    | ok answer => exact answer

theorem Resembles.deliver {s s' : Schema} {root root' : TypeId} {handles handles' : List Handle}
    (same : List.Forall₂ Handle.Resembles handles handles') (stacked : Stacked s root handles)
    (stacked' : Stacked s' root' handles') {piece piece' : Piece}
    (pieces : piece.Resembles piece') :
    (b.deliver piece handles).Resembles (b'.deliver piece' handles') := by
  cases same with
  | nil =>
    obtain ⟨given⟩ := pieces
    rename_i c c'
    cases c <;> cases c' <;> first | contradiction | skip
    · exact ⟨h.progress, .nil, h.opening, h.typed⟩
    · exact ⟨.finished (Option.some.inj given), .nil, h.opening, h.typed⟩
  | cons top rest =>
    obtain ⟨frames, finished⟩ := top
    exact ⟨h.progress, .cons ⟨frames.place stacked.1 stacked'.1 pieces, finished⟩ rest, h.opening,
      h.typed⟩

theorem Resembles.fillOpening {p p' : Prototype} (sound : Sound p b) (sound' : Sound p' b')
    {piece piece' : Except NodeError Piece} (same : Agrees Piece.Resembles piece piece') :
    Agrees SameAnswer (b.fillOpening piece) (b'.fillOpening piece') :=
  same.bind fun _ _ _ _ pieces =>
    .ok ⟨h.closed.deliver h.handles sound.stacked sound'.stacked pieces, .same .done⟩

theorem Resembles.enter {frame frame' : Except NodeError Frame}
    (same : Agrees Frame.Resembles frame frame') (reply : Reply) :
    Agrees SameAnswer (b.enter frame reply) (b'.enter frame' reply) := by
  refine same.bind fun f f' _ _ frames => .ok ⟨⟨?_, .cons ⟨frames, false⟩ h.handles, rfl, nofun⟩,
    .same reply⟩
  obtain ⟨prototype, progress, handles, opening⟩ := b
  obtain ⟨prototype', progress', handles', opening'⟩ := b'
  cases h.progress with
  | finished values => exact .finished values
  | errored => exact .errored
  | _ => exact .building

section Calls

variable {p p' : Prototype} (twins : p.Twins p') (sound : Sound p b) (sound' : Sound p' b')
include twins sound sound'

omit h in
theorem schemas_twins : b.model.schema.Twins b'.model.schema := by
  rw [Builder.model, Builder.model, sound.prototype_eq, sound'.prototype_eq]
  exact twins.schemas

/-- **A call to an opening in the typed view has the same outcome.** -/
theorem Resembles.callOpening {o : Opening} (typed : o.Typed) (c : Call) :
    SameAnswer (b.callOpening o c) (b'.callOpening o c) := by
  have schemas := schemas_twins twins sound sound'
  have filled {piece piece' : Except NodeError Piece}
      (same : Agrees Piece.Resembles piece piece') :=
    h.closed.settle (h.fillOpening sound sound' same)
  have entered {frame frame' : Except NodeError Frame} (same : Agrees Frame.Resembles frame frame')
      (reply : Reply) := h.closed.settle (h.enter same reply)
  cases c with
  | drop => exact ⟨h.closed, .same .done⟩
  | null => exact filled (Opening.null_agrees schemas)
  | scalar a => exact filled (typed.scalar_agrees schemas a)
  | copy d => exact filled (typed.copy schemas _)
  | fill d => exact filled (typed.fill schemas d)
  | map => exact entered ((typed.openMap schemas).map fun _ _ => .map) _
  | list => exact entered ((typed.openList schemas).map fun _ _ => .list) _
  | _ => exact ⟨h, .same .notApplicable⟩

omit h in
theorem checkOpen_eq {top top' : Handle} (tops : top.Resembles top') :
    b.checkOpen top = b'.checkOpen top' := by
  have schemas := schemas_twins twins sound sound'
  obtain ⟨frames, finished⟩ := tops
  simp only [checkOpen, frames.type_eq, schemas.resembles.nameOf_eq]

omit twins in
theorem Resembles.stack {top top' : Handle} {outer outer' : List Handle}
    (handles : b.handles = top :: outer) (handles' : b'.handles = top' :: outer') :
    (top.Resembles top' ∧ List.Forall₂ Handle.Resembles outer outer') ∧
      Stacked p.model.schema p.type (top :: outer) ∧
      Stacked p'.model.schema p'.type (top' :: outer') := by
  have same := h.handles
  rw [handles, handles'] at same
  exact ⟨List.forall₂_cons.mp same, handles ▸ sound.stacked, handles' ▸ sound'.stacked⟩

theorem Resembles.finishCompound {top top' : Handle} {outer outer' : List Handle}
    (handles : b.handles = top :: outer) (handles' : b'.handles = top' :: outer') :
    Agrees SameAnswer (b.finishCompound top outer) (b'.finishCompound top' outer') := by
  have schemas := schemas_twins twins sound sound'
  obtain ⟨⟨tops, outers⟩, stacked, stacked'⟩ := h.stack sound sound' handles handles'
  refine Agrees.bind_eq (checkOpen_eq twins sound sound' tops) fun _ _ _ => ?_
  obtain ⟨frames, finished⟩ := tops
  refine (frames.close schemas).bind fun piece piece' _ _ pieces => ?_
  have delivered := h.deliver outers stacked.2.2 stacked'.2.2 pieces
  exact .ok ⟨⟨delivered.progress, .cons ⟨frames, true⟩ delivered.handles, delivered.opening,
    delivered.typed⟩, .same .done⟩

/-- **A call that both maps and lists have has the same outcome** in the typed view. -/
theorem Resembles.callCompound {top top' : Handle} {outer outer' : List Handle}
    (handles : b.handles = top :: outer) (handles' : b'.handles = top' :: outer') {c : Call}
    (stays : c ≠ .view .representation) :
    SameAnswer (b.callCompound top outer c) (b'.callCompound top' outer' c) := by
  have schemas := schemas_twins twins sound sound'
  obtain ⟨⟨⟨frames, finished⟩, outers⟩, -⟩ := h.stack sound sound' handles handles'
  have left : Resembles { b with handles := outer } { b' with handles := outer' } :=
    ⟨h.progress, outers, h.opening, h.typed⟩
  cases c with
  | drop => exact ⟨left, .same .done⟩
  | finish => exact h.settle (h.finishCompound twins sound sound' handles handles')
  | view view =>
    cases view with
    | representation => exact absurd rfl stays
    | typed =>
      refine left.settle ((frames.inView schemas).bind fun f f' _ _ same => ?_)
      refine .ok ⟨⟨h.progress, .cons ⟨same, finished⟩ outers, h.opening, h.typed⟩, ?_⟩
      cases same <;> exact .same _
  | _ => exact ⟨h, .same .notApplicable⟩

/-- A step that opens something has the same outcome, if it does in the compounds. -/
theorem Resembles.callStep {α : Type} {R : α → α → Prop} (frame : α → Frame)
    (wrap : ∀ f f', R f f' → (frame f).Resembles (frame f')) {top top' : Handle}
    {outer outer' : List Handle} (tops : top.Resembles top')
    (outers : List.Forall₂ Handle.Resembles outer outer')
    {step step' : Except NodeError (α × Opening)}
    (same : Agrees (SameStep R) step step') :
    SameAnswer
      (b.settle do
        b.checkOpen top
        let (f, o) ← step
        return b.await (frame f) outer o)
      (b'.settle do
        b'.checkOpen top'
        let (f, o) ← step'
        return b'.await (frame f) outer' o) := by
  refine h.settle (Agrees.bind_eq (checkOpen_eq twins sound sound' tops) fun _ _ _ => ?_)
  refine same.bind fun p p' _ _ step => ?_
  obtain ⟨frames, typed⟩ := step
  refine .ok ⟨⟨h.progress, .cons ⟨wrap _ _ frames, false⟩ outers, rfl, ?_⟩, .same _⟩
  intro o ho
  cases ho
  exact typed

theorem Resembles.callHandle {top top' : Handle} {outer outer' : List Handle}
    (handles : b.handles = top :: outer) (handles' : b'.handles = top' :: outer') {c : Call}
    (stays : c ≠ .view .representation) :
    SameAnswer (b.callHandle top outer c) (b'.callHandle top' outer' c) := by
  have compound := h.callCompound twins sound sound' handles handles' stays
  have schemas := schemas_twins twins sound sound'
  obtain ⟨⟨tops, outers⟩, ⟨fits, -⟩, ⟨fits', -⟩⟩ := h.stack sound sound' handles handles'
  rw [← sound.prototype_eq] at fits
  rw [← sound'.prototype_eq] at fits'
  obtain ⟨frames, finished⟩ := id tops
  cases frames with
  | map same =>
    have opened {step step' : Except NodeError (MapFrame × Opening)}
        (same : Agrees (SameStep MapFrame.Resembles) step step') :=
      h.callStep twins sound sound' Frame.map (fun _ _ => Frame.Resembles.map) tops outers same
    cases c with
    | entry key => exact opened (same.entry schemas fits fits' key)
    | key => exact opened (same.key schemas)
    | value => exact opened (same.value schemas fits fits')
    | _ => exact compound
  | list same =>
    have opened {step step' : Except NodeError (ListFrame × Opening)}
        (same : Agrees (SameStep ListFrame.Resembles) step step') :=
      h.callStep twins sound sound' Frame.list (fun _ _ => Frame.Resembles.list) tops outers same
    cases c with
    | value => exact opened (same.item schemas)
    | _ => exact compound

theorem Resembles.openRoot : Agrees SameAnswer b.openRoot b'.openRoot := by
  have root : b.prototype.root = b'.prototype.root := by
    simp only [sound.prototype_eq, sound'.prototype_eq, Prototype.root, twins.type_eq, twins.typed,
      twins.typed']
  have name : b.typeName = b'.typeName := by
    simp only [typeName, Prototype.typeName, sound.prototype_eq, sound'.prototype_eq, twins.type_eq,
      twins.schemas.resembles.nameOf_eq]
  have waits : b.prototype.root.Typed := by
    rw [sound.prototype_eq, Prototype.root, twins.typed]
    exact .value ..
  rw [Builder.openRoot, Builder.openRoot, name, root]
  rw [root] at waits
  obtain ⟨prototype, progress, handles, opening⟩ := b
  obtain ⟨prototype', progress', handles', opening'⟩ := b'
  cases h.progress with
  | initial =>
    refine .ok ⟨⟨.initial, h.handles, rfl, fun o ho => ?_⟩, .same _⟩
    cases ho
    exact waits
  | _ => exact .error rfl

/-- **A call in the typed view has the same outcome.** -/
theorem Resembles.call {c : Call} (stays : c ≠ .view .representation) :
    SameAnswer (b.call c) (b'.call c) := by
  have same := h.opening
  cases hb : b.opening with
  | some o =>
    rw [hb] at same
    rw [Builder.call.eq_def, Builder.call.eq_def, hb, ← same]
    exact h.callOpening twins sound sound' (h.typed o hb) c
  | none =>
    rw [hb] at same
    cases hs : b.handles with
    | cons top outer =>
      obtain ⟨top', outer', -, -, hs'⟩ := List.forall₂_cons_left_iff.mp (hs ▸ h.handles)
      rw [Builder.call.eq_def, Builder.call.eq_def, hb, ← same, hs, hs']
      exact h.callHandle twins sound sound' hs hs' stays
    | nil =>
      have hs' := List.forall₂_nil_left_iff.mp (hs ▸ h.handles)
      rw [Builder.call.eq_def, Builder.call.eq_def, hb, ← same, hs, hs']
      cases c with
      | root => exact h.settle (h.openRoot twins sound sound')
      | state => exact ⟨h, .state h.progress⟩
      | _ => exact ⟨h, .same .notApplicable⟩

/-- **Calls in order in the typed view have the same outcomes.** -/
theorem Resembles.run {calls : List Call} (stay : ∀ c ∈ calls, c ≠ .view .representation) :
    (b.run calls).1.Resembles (b'.run calls).1 ∧
      List.Forall₂ Reply.Resembles (b.run calls).2 (b'.run calls).2 := by
  induction calls generalizing b b' with
  | nil => exact ⟨h, .nil⟩
  | cons c rest ih =>
    rw [List.forall_mem_cons] at stay
    obtain ⟨builders, reply⟩ := h.call twins sound sound' stay.1
    obtain ⟨final, replies⟩ := ih builders (call_sound twins.schemas.valid sound c)
      (call_sound twins.schemas.valid' sound' c) stay.2
    exact ⟨final, .cons reply replies⟩

end Calls

/-! ## What is built -/

/-- Builders that resemble each other build values that cannot be told apart in the typed view, or
fail alike to build one. -/
theorem Resembles.build {p p' : Prototype} (twins : p.Twins p') (sound : Sound p b)
    (sound' : Sound p' b') :
    Corresponds (fun v v' : TypedValue => v.node.SameTyped v'.node) b.build b'.build := by
  obtain ⟨prototype, progress, handles, opening⟩ := b
  obtain ⟨prototype', progress', handles', opening'⟩ := b'
  obtain rfl : prototype = p := sound.prototype_eq
  obtain rfl : prototype' = p' := sound'.prototype_eq
  cases h.progress with
  | @finished v v' same =>
    have fits' := sound'.result v' rfl
    rw [← twins.type_eq] at fits'
    have alike := (Node.Resembles.typed same (sound.result v rfl) fits').sameTyped twins.schemas
    refine .ok ?_
    rw [TypedValue.node, TypedValue.nodeIn, TypedValue.node, TypedValue.nodeIn, ← twins.type_eq]
    exact alike
  | _ => exact .error _

end Builder

/-! ## Two representations of one type system -/

namespace Sample

/-- Other representations of the same types: counts leave nulls out, tags are tuples, sheets are
lists of pairs, and items stand under labels. -/
def recodedTypes : TypeSystem := ⟨
  [ ⟨"Text", .scalar .string⟩,
    ⟨"Count", .scalar .int⟩,
    ⟨"Level", .enum ["low", "high"] (.string .none)⟩,
    ⟨"Counts", .map "Level" "Count" true .omitNulls⟩,
    ⟨"Tag", .struct [⟨"site", "Text", false, false⟩, ⟨"unit", "Text", false, false⟩] .tuple⟩,
    ⟨"Sheet", .struct [⟨"counts", "Counts", false, false⟩, ⟨"tag", "Tag", true, true⟩]
      (.listpairs ⟨[("tag", "t")]⟩)⟩,
    ⟨"Item", .union ["Count", "Sheet"] (.keyed ⟨[("Count", "n"), ("Sheet", "s")]⟩)⟩,
    ⟨"Items", .list "Item" true⟩ ]⟩

def recoded : Schema := ⟨
  [ ⟨"Text", .scalar .string⟩,
    ⟨"Count", .scalar .int⟩,
    ⟨"Level", .enum ["low", "high"] (.string .none)⟩,
    ⟨"Counts", .map 2 1 true .omitNulls⟩,
    ⟨"Tag", .struct [⟨"site", 0, false, false⟩, ⟨"unit", 0, false, false⟩] .tuple⟩,
    ⟨"Sheet", .struct [⟨"counts", 3, false, false⟩, ⟨"tag", 4, true, true⟩]
      (.listpairs ⟨[("tag", "t")]⟩)⟩,
    ⟨"Item", .union [1, 5] (.keyed ⟨[("Count", "n"), ("Sheet", "s")]⟩)⟩,
    ⟨"Items", .list 6 true⟩ ]⟩

def recodedModel : Model := { model with schema := recoded }

theorem finalize_recodedTypes : recodedTypes.finalize = .ok recoded := rfl

theorem compile_recoded : recoded.compile .empty = .ok recodedModel := by
  have layouts : (List.range recoded.size).mapM (recoded.typeLayout .empty) =
      .ok recodedModel.layouts := by
    decide +kernel
  rw [Schema.compile, layouts]
  rfl

theorem resembles_recoded : schema.Resembles recoded :=
  .cons ⟨rfl, .scalar _⟩ <| .cons ⟨rfl, .scalar _⟩ <| .cons ⟨rfl, .enum ..⟩ <|
    .cons ⟨rfl, .map ..⟩ <| .cons ⟨rfl, .struct ..⟩ <| .cons ⟨rfl, .struct ..⟩ <|
    .cons ⟨rfl, .union ..⟩ <| .cons ⟨rfl, .list ..⟩ .nil

theorem noStructKeys_schema : schema.NoStructKeys := by
  simp [Schema.NoStructKeys, schema, Schema.body, Schema.decl]

def typedCalls : List Call :=
  [ .root, .list, .value, .null, .value, .map, .entry "Count", .scalar (.int 5),
    .finish, .drop,
    .value, .map, .entry "Sheet", .map,
    .entry "counts", .map, .entry "low", .scalar (.int 3), .key, .scalar (.string "high"), .value,
    .null, .finish, .drop,
    .entry "tag", .map, .entry "site", .scalar (.string "a"), .entry "unit", .scalar (.string "b"),
    .finish, .drop,
    .finish, .drop, .finish, .drop, .finish, .drop ]

/-- What they build there: a level is stored under its name. -/
def recodedValue : Value := .list
  [ ⟨.indirect, .null⟩,
    ⟨.indirect, .value (.union 0 (.scalar (.int 5)))⟩,
    ⟨.indirect, .value (.union 1 (.struct
      [ ⟨.embedded, .value (.map ⟨
          [ ⟨.enum 0, "low", ⟨.embedded, .value (.scalar (.int 3))⟩⟩,
            ⟨.enum 1, "high", ⟨.embedded, .null⟩⟩ ]⟩)⟩,
        ⟨.indirect, .value (.struct
          [ ⟨.embedded, .value (.scalar (.string "a"))⟩,
            ⟨.embedded, .value (.scalar (.string "b"))⟩ ])⟩ ]))⟩ ]

end Sample

namespace Builder

/-- **The representation does not show in the typed view.** Under two schemas that differ in
representation alone, without structs for keys, the same calls in the typed view have the same
replies, with the same errors up to the text of a key that is taken; and they build values, or fail
to, alike.  Two values that are built so cannot be told apart in the typed view. -/
theorem representation_unseen {ts ts' : TypeSystem} {s s' : Schema} {c c' : Config} {m m' : Model}
    (frozen : ts.finalize = .ok s) (frozen' : ts'.finalize = .ok s') (resembles : s.Resembles s')
    (keys : s.NoStructKeys) (compiled : s.compile c = .ok m) (compiled' : s'.compile c' = .ok m')
    (type : TypeId) {calls : List Call} (stay : ∀ call ∈ calls, call ≠ .view .representation) :
    let (b, replies) := (ofPrototype ⟨m, type, .typed⟩).run calls
    let (b', replies') := (ofPrototype ⟨m', type, .typed⟩).run calls
    List.Forall₂ Reply.Resembles replies replies' ∧ b.progress.Resembles b'.progress ∧
      Corresponds (fun v v' => v.node.SameTyped v'.node) b.build b'.build := by
  obtain rfl := Schema.schema_of_compile compiled
  obtain rfl := Schema.schema_of_compile compiled'
  have valid := Schema.valid_of_finalize frozen
  have valid' := Schema.valid_of_finalize frozen'
  have twins : Prototype.Twins ⟨m, type, .typed⟩ ⟨m', type, .typed⟩ :=
    ⟨⟨valid, valid', resembles, keys⟩, rfl, rfl, rfl⟩
  have start : (ofPrototype ⟨m, type, .typed⟩).Resembles (ofPrototype ⟨m', type, .typed⟩) :=
    ⟨.initial, .nil, rfl, nofun⟩
  obtain ⟨final, replies⟩ := start.run twins (ofPrototype_sound _) (ofPrototype_sound _) stay
  exact ⟨replies, final.progress, final.build twins (run_sound valid (ofPrototype_sound _) calls)
    (run_sound valid' (ofPrototype_sound _) calls)⟩

theorem representation_unseen_sample :
    Sample.types.finalize = .ok Sample.schema ∧
      Sample.recodedTypes.finalize = .ok Sample.recoded ∧
      Sample.schema.Resembles Sample.recoded ∧ Sample.schema.NoStructKeys ∧
      Sample.schema.compile .empty = .ok Sample.model ∧
      Sample.recoded.compile .empty = .ok Sample.recodedModel ∧
      (∀ call ∈ Sample.typedCalls, call ≠ .view .representation) ∧
      ((ofPrototype ⟨Sample.model, 7, .typed⟩).run Sample.typedCalls).1.build =
        .ok ⟨Sample.model, 7, Sample.value⟩ ∧
      ((ofPrototype ⟨Sample.recodedModel, 7, .typed⟩).run Sample.typedCalls).1.build =
        .ok ⟨Sample.recodedModel, 7, Sample.recodedValue⟩ ∧
      Sample.value ≠ Sample.recodedValue ∧
      (⟨Sample.model, 7, Sample.value⟩ : TypedValue).node.SameTyped
        (⟨Sample.recodedModel, 7, Sample.recodedValue⟩ : TypedValue).node := by
  have stay : ∀ call ∈ Sample.typedCalls, call ≠ .view .representation := by
    simp [Sample.typedCalls]
  obtain ⟨-, -, built⟩ := representation_unseen Sample.finalize_types Sample.finalize_recodedTypes
    Sample.resembles_recoded Sample.noStructKeys_schema Sample.compile_schema Sample.compile_recoded
    7 stay
  refine ⟨Sample.finalize_types, Sample.finalize_recodedTypes, Sample.resembles_recoded,
    Sample.noStructKeys_schema, Sample.compile_schema, Sample.compile_recoded, stay, rfl, rfl,
    by simp [Sample.value, Sample.recodedValue], ?_⟩
  cases built with
  | ok same => exact same

end Builder

end DualView
