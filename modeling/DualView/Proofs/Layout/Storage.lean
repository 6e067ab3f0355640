import DualView.Proofs.Assembly.Bare
import DualView.Proofs.Assembly.Runs

/-!
# Layout is storage only

Two models of one schema differ in layouts alone, and no call tells them apart: with every layout
forgotten, in the model and in all that is under construction, a call has the same reply, or the same
failure, and leaves the same state behind.

* `Builder.call_bare`, `Builder.run_bare`: one call, and calls in order.
* `Builder.runs_alike`: two configurations of one schema build alike, and what they build cannot be
  told apart.
-/

namespace DualView

/-! ## State -/

def Progress.bare : Progress → Progress
  | initial => initial
  | building => building
  | finished v => finished v.bare
  | errored => errored

def Frame.bare : Frame → Frame
  | map f => map f.bare
  | list f => list f.bare

def Handle.bare (h : Handle) : Handle := { h with frame := h.frame.bare }

def Prototype.bare (p : Prototype) : Prototype := { p with model := p.model.bare }

def Builder.bare (b : Builder) : Builder where
  prototype := b.prototype.bare
  progress := b.progress.bare
  handles := b.handles.map Handle.bare
  opening := b.opening.map Opening.bare

/-- The reply with layouts forgotten.  Only the value of a finished builder has any. -/
def Reply.bare : Reply → Reply
  | state p => state p.bare
  | r => r

namespace Frame

variable (m : Model)

@[simp] theorem type_bare (f : Frame) : f.bare.type = f.type := by cases f <;> rfl

theorem place_bare (f : Frame) (piece : Piece) : f.bare.place piece.bare = (f.place piece).bare := by
  cases f with
  | map f => exact congrArg map (f.place_bare piece)
  | list f => exact congrArg list (f.place_bare piece)

theorem close_bare (f : Frame) : f.bare.close m.bare = Piece.bare <$> f.close m := by
  cases f with
  | map f => exact f.close_bare m
  | list f => exact f.close_bare m

theorem inView_bare (f : Frame) (view : View) :
    f.bare.inView m.bare view = bare <$> f.inView m view := by
  cases f with
  | map f =>
    simp only [inView, bare, MapFrame.inView_bare, Functor.map_map]
  | list f =>
    simp only [inView, bare, ListFrame.inView_bare, Functor.map_map]

end Frame

/-! ## Calls -/

namespace Builder

def bareAnswer (r : Builder × Reply) : Builder × Reply := (r.1.bare, r.2.bare)

variable (b : Builder)

@[simp] theorem model_bare : b.bare.model = b.model.bare := rfl

theorem settle_bare (outcome : Except NodeError (Builder × Reply)) :
    b.bare.settle (bareAnswer <$> outcome) = bareAnswer (b.settle outcome) := by
  obtain ⟨prototype, progress, handles, opening⟩ := b
  cases progress <;> cases outcome <;> rfl

theorem deliver_bare (piece : Piece) (handles : List Handle) :
    b.bare.deliver piece.bare (handles.map Handle.bare) = (b.deliver piece handles).bare := by
  cases handles with
  | nil =>
    cases piece with
    | content value => cases value <;> rfl
    | field i value => rfl
  | cons h outer =>
    simp only [deliver, List.map_cons, bare, Handle.bare, Frame.place_bare]

theorem checkOpen_bare (h : Handle) : b.bare.checkOpen h.bare = b.checkOpen h := by
  rw [checkOpen, checkOpen, model_bare, Model.schema_bare, Handle.bare, Frame.type_bare]

theorem openRoot_bare : b.bare.openRoot = bareAnswer <$> b.openRoot := by
  obtain ⟨prototype, progress, handles, opening⟩ := b
  cases progress <;> rfl

theorem fillOpening_bare (piece : Except NodeError Piece) :
    b.bare.fillOpening (Piece.bare <$> piece) = bareAnswer <$> b.fillOpening piece := by
  simp only [fillOpening, bind_map_left, map_bind]
  refine congrArg (_ >>= ·) (funext fun p => ?_)
  exact congrArg (fun b => Except.ok (b, Reply.done))
    (deliver_bare { b with opening := none } p b.handles)

theorem enter_bare (frame : Except NodeError Frame) (reply : Reply) :
    b.bare.enter (Frame.bare <$> frame) reply.bare = bareAnswer <$> b.enter frame reply := by
  obtain ⟨prototype, progress, handles, opening⟩ := b
  cases frame with
  | error e => rfl
  | ok f => cases progress <;> rfl

theorem callOpening_bare (o : Opening) (c : Call) :
    b.bare.callOpening o.bare c = bareAnswer (b.callOpening o c) := by
  have filled (piece : Except NodeError Piece) :=
    settle_bare { b with opening := none } (b.fillOpening piece)
  have entered (frame : Except NodeError Frame) (reply : Reply) :=
    settle_bare { b with opening := none } (b.enter frame reply)
  simp only [← fillOpening_bare] at filled
  simp only [← enter_bare] at entered
  cases c with
  | null =>
    simp only [callOpening, model_bare, Model.schema_bare, Opening.null_bare]
    exact filled _
  | scalar a =>
    simp only [callOpening, model_bare, Opening.scalar_bare]
    exact filled _
  | copy d =>
    simp only [callOpening, model_bare, Opening.copy_bare]
    exact filled _
  | fill d =>
    simp only [callOpening, model_bare, Opening.fill_bare]
    exact filled _
  | map =>
    have entered := entered (.map <$> o.openMap b.model) (.map o.view)
    simp only [callOpening, model_bare, Opening.openMap_bare]
    rw [Functor.map_map] at entered ⊢
    exact entered
  | list =>
    have entered := entered (.list <$> o.openList b.model) (.list o.view)
    simp only [callOpening, model_bare, Opening.openList_bare]
    rw [Functor.map_map] at entered ⊢
    exact entered
  | _ => rfl

theorem finishCompound_bare (h : Handle) (outer : List Handle) :
    b.bare.finishCompound h.bare (outer.map Handle.bare) =
      bareAnswer <$> b.finishCompound h outer := by
  have closed : h.bare.frame.close b.model.bare = Piece.bare <$> h.frame.close b.model :=
    h.frame.close_bare b.model
  simp only [finishCompound, checkOpen_bare, model_bare, closed, bind_map_left, map_bind,
    deliver_bare]
  rfl

theorem callCompound_bare (h : Handle) (outer : List Handle) (c : Call) :
    b.bare.callCompound h.bare (outer.map Handle.bare) c = bareAnswer (b.callCompound h outer c) := by
  cases c with
  | finish =>
    simp only [callCompound, finishCompound_bare, settle_bare]
  | view view =>
    have viewed : h.bare.frame.inView b.model.bare view = Frame.bare <$> h.frame.inView b.model view :=
      h.frame.inView_bare b.model view
    simp only [callCompound, model_bare, viewed, bind_map_left]
    rw [← settle_bare, map_bind]
    refine congrArg (settle _) (congrArg (_ >>= ·) (funext fun f => ?_))
    cases f <;> rfl
  | _ => rfl

theorem callMap_bare (h : Handle) (outer : List Handle)
    (step : Except NodeError (MapFrame × Opening)) :
    b.bare.callMap h.bare (outer.map Handle.bare) (Prod.map MapFrame.bare Opening.bare <$> step) =
      bareAnswer (b.callMap h outer step) := by
  simp only [callMap, checkOpen_bare, bind_map_left]
  rw [← settle_bare]
  simp only [map_bind]
  rfl

theorem callList_bare (h : Handle) (outer : List Handle)
    (step : Except NodeError (ListFrame × Opening)) :
    b.bare.callList h.bare (outer.map Handle.bare) (Prod.map ListFrame.bare Opening.bare <$> step) =
      bareAnswer (b.callList h outer step) := by
  simp only [callList, checkOpen_bare, bind_map_left]
  rw [← settle_bare]
  simp only [map_bind]
  rfl

theorem callHandle_bare (h : Handle) (outer : List Handle) (c : Call) :
    b.bare.callHandle h.bare (outer.map Handle.bare) c = bareAnswer (b.callHandle h outer c) := by
  have compound := b.callCompound_bare h outer c
  obtain ⟨frame, finished⟩ := h
  cases frame with
  | map f =>
    have opened := b.callMap_bare ⟨.map f, finished⟩ outer
    cases c with
    | entry key => exact (congrArg _ (f.entry_bare b.model key)).trans (opened _)
    | key => exact (congrArg _ (f.key_bare b.model)).trans (opened _)
    | value => exact (congrArg _ (f.value_bare b.model)).trans (opened _)
    | _ => exact compound
  | list f =>
    have opened := b.callList_bare ⟨.list f, finished⟩ outer
    cases c with
    | value => exact (congrArg _ (f.item_bare b.model)).trans (opened _)
    | _ => exact compound

/-- **A call does not see layouts.** -/
theorem call_bare (c : Call) : b.bare.call c = bareAnswer (b.call c) := by
  have opening := fun o => b.callOpening_bare o c
  have handle := fun h outer => b.callHandle_bare h outer c
  have root := settle_bare b b.openRoot
  rw [← openRoot_bare] at root
  obtain ⟨prototype, progress, handles, _ | o⟩ := b
  · cases handles with
    | nil =>
      cases c with
      | root => exact root
      | _ => rfl
    | cons h outer => exact handle h outer
  · exact opening o

/-- **Nor do calls in order.** -/
theorem run_bare (calls : List Call) :
    b.bare.run calls = ((b.run calls).1.bare, (b.run calls).2.map Reply.bare) := by
  induction calls generalizing b with
  | nil => rfl
  | cons c rest ih =>
    simp only [run, call_bare, bareAnswer, ih, List.map_cons]

end Builder

/-! ## A value under a second configuration -/

namespace Sample

def valueInPlace : Value :=
  match value with
  | .list slots => .list (slots.map fun slot => { slot with layout := .embedded })
  | v => v

end Sample

/-! ## Two models of one schema -/

/-- Nothing that can be asked of two values tells them apart: they are equal, unless they hold a NaN,
every path goes the same way in both, in either view, and they have one representation. -/
structure TypedValue.Indistinct (v w : TypedValue) : Prop where
  same : v.value.NaNFree → v.same w = true
  walks : ∀ view path, Node.SameWalk (v.nodeIn view) (w.nodeIn view) path
  representation : v.toRepresentation = w.toRepresentation

/-- **Stored values that differ in layouts alone cannot be told apart**, whether they fit their type
or not. -/
theorem TypedValue.indistinct_of_bare_eq {m m' : Model} (schema : m.schema = m'.schema)
    (type : TypeId) {v w : Value} (eq : v.bare = w.bare) :
    Indistinct ⟨m, type, v⟩ ⟨m', type, w⟩ := by
  have nodes (view : View) : (nodeIn ⟨m, type, v⟩ view).bare = (nodeIn ⟨m', type, w⟩ view).bare := by
    simp only [nodeIn, Node.bare, TypedNode.bare, schema, eq]
  refine ⟨fun numbers => ?_, fun view path => Node.walk_of_bare_eq (nodes view) path, ?_⟩
  · rw [TypedValue.same, typeName, typeName, schema, Value.same_of_bare_eq eq numbers]
    simp
  · have datum := (Node.readsLike_of_bare_eq (nodes .representation)).toDatum
    exact congrArg (Except.mapError NodeError.access) datum

namespace Builder

theorem build_bare (b : Builder) :
    b.bare.build = (fun v => ⟨v.model.bare, v.type, v.value.bare⟩) <$> b.build := by
  obtain ⟨prototype, progress, handles, opening⟩ := b
  cases progress <;> rfl

/-- **Layout is storage only.**  Under two configurations of one schema the same calls have the same
replies, with the same errors, and leave builders in the same state; both build a value or fail to
alike, and the two values cannot be told apart.  Nor can any two stored values that differ in layouts
alone. -/
theorem runs_alike {s : Schema} {c c' : Config} {m m' : Model} (compiled : s.compile c = .ok m)
    (compiled' : s.compile c' = .ok m') :
    (∀ type view calls,
      let (b, replies) := (ofPrototype ⟨m, type, view⟩).run calls
      let (b', replies') := (ofPrototype ⟨m', type, view⟩).run calls
      replies.map Reply.bare = replies'.map Reply.bare ∧ b.progress.bare = b'.progress.bare ∧
        Corresponds TypedValue.Indistinct b.build b'.build) ∧
    ∀ type v w, v.bare = w.bare → TypedValue.Indistinct ⟨m, type, v⟩ ⟨m', type, w⟩ := by
  have schema : m.schema = m'.schema := by
    rw [Schema.schema_of_compile compiled, Schema.schema_of_compile compiled']
  refine ⟨?_, fun type v w => TypedValue.indistinct_of_bare_eq schema type⟩
  intro type view calls
  have start : (ofPrototype ⟨m, type, view⟩).bare = (ofPrototype ⟨m', type, view⟩).bare := by
    simp only [ofPrototype, bare, Prototype.bare, Model.bare, schema]
  have runs := (run_bare (ofPrototype ⟨m, type, view⟩) calls).symm.trans
    ((congrArg (run · calls) start).trans (run_bare (ofPrototype ⟨m', type, view⟩) calls))
  obtain ⟨builders, replies⟩ := Prod.mk.inj runs
  refine ⟨replies, congrArg progress builders, ?_⟩
  have built := congrArg build builders
  rw [build_bare, build_bare] at built
  refine (corresponds_of_map_eq built).imp ?_
  rintro ⟨m₁, type₁, v⟩ ⟨m₂, type₂, w⟩ eq
  obtain ⟨models, rfl, values⟩ := TypedValue.mk.inj eq
  have schemas : m₁.schema = m₂.schema := by simpa using congrArg Model.schema models
  exact TypedValue.indistinct_of_bare_eq schemas type₁ values

theorem runs_alike_sample :
    Sample.schema.compile .empty = .ok Sample.model ∧
      Sample.schema.compile Sample.inPlace = .ok Sample.modelInPlace ∧
      ((ofPrototype Sample.prototype).run Sample.calls).1.build =
        .ok ⟨Sample.model, 7, Sample.value⟩ ∧
      ((ofPrototype { Sample.prototype with model := Sample.modelInPlace }).run
        Sample.calls).1.build = .ok ⟨Sample.modelInPlace, 7, Sample.valueInPlace⟩ ∧
      Sample.value ≠ Sample.valueInPlace ∧
      TypedValue.Indistinct ⟨Sample.model, 7, Sample.value⟩
        ⟨Sample.modelInPlace, 7, Sample.valueInPlace⟩ := by
  have alike := runs_alike Sample.compile_schema Sample.compile_inPlace
  obtain ⟨-, -, built⟩ := alike.1 7 .representation Sample.calls
  refine ⟨Sample.compile_schema, Sample.compile_inPlace, rfl, rfl, nofun, ?_⟩
  cases built with
  | ok indistinct => exact indistinct

end Builder

end DualView
