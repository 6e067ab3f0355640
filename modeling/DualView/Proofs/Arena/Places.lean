import DualView.Proofs.Arena.Nesting

/-!
# Filling places

The place that the innermost compound waits at is absent, and takes a null, a scalar, or the draft
of a new cell (`Arena.Placed`).  A new cell stores the empty frame of its type, so the compound that
is begun there is at rest (`Arena.Entered`).

* `Arena.Nest.placed`: a place takes a draft, and the compounds around it stay nested.
* `Arena.assignNull_agrees`, `Arena.assign_agrees`: nulls and scalars fill a place as in a builder.
* `Arena.enterMap_agrees`, `Arena.enterList_agrees`: compounds are begun as in a builder.
-/

namespace DualView

namespace Arena

variable {m : Model} {a a' : Arena} {κ owner id : CellId} {c c' o : Cell} {q p : Place}
  {w w₀ : Opening} {f : Frame} {g : Grip} {gs : List Grip} {hs : List Handle} {s : Spot} {d : Draft}
  {live : List CellId}

/-! ## Placing drafts -/

/-- An absent draft of an unfinished cell may be given, with a loose cell that comes later. -/
theorem Sound.put (h : a.Sound m) (hc : a.cells[κ]? = some c) (unfinished : c.finished = false)
    (absent : c.draftAt? s = some .absent)
    (fresh : ∀ id, d.cell? = some id → a.Loose id ∧ κ < id) : (a.store κ (c.put d s)).Sound m := by
  have like := c.like_put d s
  refine h.store (n := d.cell?.map (s, ·)) hc {
    refers := ?_
    fresh := ?_
    shaped := like.shaped
    finished := like.finished.symm ▸ id
    settled := fun finished => nomatch unfinished.symm.trans (like.finished.symm.trans finished)
    slot := ?_
    pairSlot := ?_
    owned := ?_ }
  · intro s' id hs
    by_cases same : s' = s
    · subst same
      rw [Cell.RefersTo, Cell.draftAt?_put_self absent] at hs
      have he : d.cell? = some id := hs
      exact .inr (by rw [he]; rfl)
    · rw [Cell.RefersTo, like.draftAt? fun he => same (Option.some.inj he).symm] at hs
      exact .inl hs
  · intro s' id he
    obtain ⟨id', hd, he⟩ := Option.map_eq_some_iff.mp he
    cases he
    exact fresh _ hd
  · intro i phase
    rw [like.length]
    exact h.slot hc (like.phase.symm.trans phase)
  · intro owner i phase
    obtain ⟨o, ho, owns⟩ := h.pairSlot hc (like.phase.symm.trans phase)
    have before : owner < κ := h.forest.later (s := .key) ((refersTo_of_cell ho).mpr owns.pending)
    exact ⟨Nat.ne_of_lt before, o, ho, owns⟩
  · intro id e i he phase
    obtain ⟨o, ho, owns⟩ := h.pairSlot he phase
    obtain rfl := Option.some.inj (hc.symm.trans ho)
    refine ⟨like.finished.trans unfinished, like.phase.trans owns.phase, ?_,
      like.length.symm ▸ owns.slot⟩
    -- the pending key is not the draft that is given, since it refers to the pair
    rw [like.pendingKey]
    · exact owns.pending
    · rintro ⟨⟩
      have pending := owns.pending
      rw [Option.some.inj absent] at pending
      cases pending

theorem complete?_with_root (a : Arena) (root d : Draft) (stage : Stage) :
    { a with root := root, stage := stage }.complete? d = a.complete? d := by
  induction d with
  | absent | null | ready v | cell id => rfl
  | member i inner ih => exact ih

theorem runs_refresh {b : Bool} (building : a.stage = .building)
    (complete : a.complete? a.root = some b) :
    Runs refresh a (.ok ()) { a with stage := if b then .finished else .building } := by
  refine (runs_get a).bind ?_
  rw [if_pos building]
  refine (runs_need complete a).bind ?_
  cases b with
  | true => rfl
  | false =>
    rw [if_neg Bool.false_ne_true, if_neg Bool.false_ne_true, ← building]
    rfl

theorem runs_place_root {b : Bool} (complete : a.complete? d = some b) :
    Runs (place d .root) a (.ok ())
      { a with root := d, stage := if b then .finished else .building } := by
  have same := complete?_with_root a d d .building
  exact (runs_modify _ a).bind (runs_refresh rfl (same.trans complete))

theorem runs_place_inside {d' : Draft} (hc : a.cells[κ]? = some c) (hd : c.draftAt? s = some d') :
    Runs (place d (.inside κ s)) a (.ok ()) (a.store κ (c.put d s)) :=
  (runs_cell hc).bind ((runs_need hd a).bind (runs_update hc _))

/-- A draft was put into the place that the innermost compound waits at. -/
structure Placed (m : Model) (w₀ : Opening) (gs : List Grip) (hs : List Handle) (q : Place)
    (w : Opening) (a : Arena) (d : Draft) (b : Bool) (a' : Arena) : Prop where
  run : Runs (place d q) a (.ok ()) a'
  running : Running m (gs.map (·.cell)) a'
  spares : Spares (gs.map (·.cell)) a a'
  nest : Nest m a' w₀ gs hs q w
  draft : a'.draftAt? q = some d
  apart : ∀ {id : CellId}, (∀ s, q ≠ .inside id s) → a'.cells[id]? = a.cells[id]?
  inside : ∀ {id : CellId} {s : Spot} {c : Cell}, q = .inside id s → a.cells[id]? = some c →
    a'.cells[id]? = some (c.put d s)
  stage : a'.stage = match q with
    | .root => if b then .finished else .building
    | .inside _ _ => a.stage

/-- **The place that the innermost compound waits at takes a draft.** -/
theorem Nest.placed {b : Bool} (nest : Nest m a w₀ gs hs q w) (sound : a.Sound m)
    (absent : a.draftAt? q = some .absent)
    (fresh : ∀ id, d.cell? = some id → a.Loose id ∧ Precedes q id)
    (complete : a.complete? d = some b) : ∃ a', Placed m w₀ gs hs q w a d b a' := by
  cases q with
  | root =>
    have sound' := (sound.setRoot fun id he => (fresh id he).1).setStage
      (if b then .finished else .building)
    obtain ⟨rfl, rfl, rfl⟩ : gs = [] ∧ hs = [] ∧ w = w₀ := by
      generalize hp : Place.root = p at nest
      cases nest with
      | root => exact ⟨rfl, rfl, rfl⟩
      | inner outer level apart waits => cases waits <;> exact nomatch hp
    exact ⟨_, runs_place_root complete, ⟨sound', nofun⟩, .of_cells_eq [] rfl rfl, .root, rfl,
      fun _ => rfl, nofun, rfl⟩
  | inside id s =>
    obtain ⟨g, mem, rfl⟩ := nest.mem_of_inside
    obtain ⟨c, hc, unfinished⟩ := nest.underway _ (List.mem_map_of_mem mem)
    have empty : c.draftAt? s = some .absent := (draftAt?_inside hc s).symm.trans absent
    have sound' := sound.put hc unfinished empty fresh
    have spares : Spares [g.cell] a (a.store g.cell (c.put d s)) := .store hc unfinished
    have keeps := spares.keeps sound'
    have one : [g.cell] ⊆ gs.map (·.cell) :=
      List.cons_subset.mpr ⟨List.mem_map_of_mem mem, List.nil_subset _⟩
    have hc' := getElem?_store_self hc (c.put d s)
    refine ⟨_, runs_place_inside hc empty, ⟨sound', (nest.fill hc keeps).underway⟩, spares.mono one,
      nest.fill hc keeps, ?_, fun ne => getElem?_store_of_ne fun he => ne s (he ▸ rfl), ?_, rfl⟩
    · exact (draftAt?_inside hc' s).trans (Cell.draftAt?_put_self empty)
    · intro id s' c' he hc₁
      cases he
      obtain rfl := Option.some.inj (hc.symm.trans hc₁)
      exact hc'

/-! ## Nulls and scalars -/

namespace Asks

variable {spec : PlaceSpec}

theorem nullable_eq (h : Asks m a q spec w) : spec.nullable = w.nullable := by
  cases h <;> rfl

theorem view_eq (h : Asks m a q spec w) : spec.view = w.view := by
  cases h <;> rfl

theorem runs_typeOf (h : Asks m a q spec w) : Runs (typeOf spec) a (.ok w.type) a := by
  cases h with
  | value type view nullable => exact runs_pure _ a
  | name view nullable same => exact same ▸ runs_pure _ a
  | pair nullable ho phase unfinished same fills =>
    exact (runs_cell ho).bind (same ▸ runs_pure _ a)

theorem runs_mismatch {α : Type} (h : Asks m a q spec w) (found : Kind) :
    Runs (mismatch m spec found : Step α) a (.error (w.mismatch m.schema found)) a := by
  cases h with
  | value type view nullable => exact runs_throw _ a
  | name view nullable same => exact same ▸ runs_throw _ a
  | pair nullable ho phase unfinished same fills =>
    exact (runs_cell ho).bind (same ▸ runs_throw _ a)

/-- **A scalar makes a draft of the piece that fills the opening.** -/
theorem scalarDraft_agrees (h : Asks m a q spec w) (s : Scalar) :
    Agrees (· = a) (fun d piece a' => (d.cell? = none ∧ ∀ a, Given m a w d piece) ∧ a' = a)
      (scalarDraft m spec s) a (w.scalar m s) := by
  have mismatched := h.runs_mismatch (α := Draft) (.scalar s.kind)
  cases h with
  | value type view nullable =>
    simp only [Opening.scalar, map_eq_pure_bind]
    refine (Arena.scalarDraft_agrees type view nullable s).map_right _ ?_
    rintro d v _ ⟨value, rfl⟩
    exact ⟨⟨value.cell?, fun a => .value (value.holds a) nofun⟩, rfl⟩
  | name view nullable same =>
    cases s with
    | string text => exact .ok (runs_pure _ a) ⟨⟨rfl, fun a => .name text⟩, rfl⟩
    | _ => exact .error mismatched rfl
  | pair nullable ho phase unfinished same fills => exact .error mismatched rfl

end Asks

/-- What filled an opening is in its place. -/
def Filled (m : Model) (w₀ : Opening) (gs : List Grip) (hs : List Handle) (q : Place) (w : Opening)
    (a : Arena) (piece : Piece) (a' : Arena) : Prop :=
  ∃ d, Placed m w₀ gs hs q w a d true a' ∧ Given m a' w d piece

section Fill

variable {type : TypeId} {view : View} {spec : PlaceSpec}

theorem Given.complete {piece : Piece} (h : Given m a w d piece) : a.complete? d = some true := by
  cases h with
  | value held null => exact held.complete_given
  | name text => rfl

/-- **Null fills an opening as in a builder.** -/
theorem assignNull_agrees (nest : Nest m a ⟨.value type, view, false⟩ gs hs q w) (sound : a.Sound m)
    (absent : a.draftAt? q = some .absent) (asks : Asks m a q spec w) :
    Agrees (· = a) (fun _ => Filled m ⟨.value type, view, false⟩ gs hs q w a) (assignNull m q spec)
      a (w.null m.schema) := by
  rw [assignNull, Opening.null, asks.nullable_eq]
  by_cases nullable : w.nullable = true
  · rw [if_pos nullable, if_pos nullable]
    obtain ⟨a', placed⟩ := nest.placed (d := .null) sound absent (by simp [Draft.cell?]) rfl
    obtain ⟨type, view, rfl⟩ := nest.nullable nullable
    exact .ok placed.run ⟨_, placed, .value (.null type) fun _ => rfl⟩
  · rw [if_neg nullable, if_neg nullable]
    exact .error (asks.runs_typeOf.bind (runs_throw _ a)) rfl

/-- **A scalar fills an opening as in a builder.** -/
theorem assign_agrees (nest : Nest m a w₀ gs hs q w) (sound : a.Sound m)
    (absent : a.draftAt? q = some .absent) (asks : Asks m a q spec w) (s : Scalar) :
    Agrees (· = a) (fun _ => Filled m w₀ gs hs q w a) (assign m q spec s) a (w.scalar m s) := by
  have made := asks.scalarDraft_agrees s
  rw [assign]
  generalize w.scalar m s = y at made ⊢
  cases made with
  | error run same => exact .error run.bind_error same
  | ok run made =>
    obtain ⟨⟨free, given⟩, rfl⟩ := made
    obtain ⟨a', placed⟩ := nest.placed sound absent (fun id he => nomatch free.symm.trans he)
      (given _).complete
    exact .ok (run.bind placed.run) ⟨_, placed, given a'⟩

end Fill

/-! ## Compounds that are begun -/

section Begin

variable {type target : TypeId} {view : View} {member : Option Nat}

theorem fillsList_begin {elem : TypeId} {nullable : Bool}
    (body : m.schema.body type = .list elem nullable) :
    FillsList m a (.begin m type (.list elem nullable)) elem nullable
      (m.elementLayout elem nullable) [] where
  shape := rfl
  body := body
  layout_eq := rfl
  layouts := nofun
  fills := nofun

theorem fillsMap_begin {key value : TypeId} {nullable : Bool} {nulls : NullPolicy}
    (body : m.schema.body type = .map key value nullable nulls) :
    FillsMap m a (.begin m type (.map key value nullable)) key value nullable
      (m.elementLayout value nullable) .empty where
  shape := rfl
  body := ⟨nulls, body⟩
  layout_eq := rfl
  layouts := nofun
  fills := nofun

theorem fillsStruct_begin {fields : List (Field TypeId)} {repr : StructRepr}
    (body : m.schema.body type = .struct fields repr) :
    FillsStruct m a (.begin m type .struct) fields repr none (m.absentSlots type fields) where
  shape := rfl
  body := body
  length := List.length_mapIdx
  layouts := by
    intro i s hs
    rw [Model.absentSlots, List.getElem?_mapIdx] at hs
    obtain ⟨f, -, rfl⟩ := Option.map_eq_some_iff.mp hs
    rfl
  fills := by
    intro i content hi _
    rw [Model.absentSlots, List.getElem?_map, List.getElem?_mapIdx, Option.map_map] at hi
    obtain ⟨f, hf, rfl⟩ := Option.map_eq_some_iff.mp hi
    have references : m.schema.references type = fields.map (·.type) :=
      congrArg Body.references body
    have inside : i < (m.schema.references type).length := by
      rw [references, List.length_map]
      exact (List.getElem?_eq_some_iff.mp hf).1
    exact ⟨.absent, _, List.getElem?_replicate_of_lt inside, List.getElem?_eq_getElem inside,
      .absent _⟩
  unfilled := nofun

theorem fillsUnion_begin {members : List TypeId} {repr : UnionRepr}
    (body : m.schema.body type = .union members repr) :
    FillsUnion m a (.begin m type .union) members repr none none where
  shape := rfl
  body := body
  fills := by
    intro i content hi _
    rw [memberContents, List.getElem?_map] at hi
    obtain ⟨j, hj, rfl⟩ := Option.map_eq_some_iff.mp hi
    have references : m.schema.references type = members := congrArg Body.references body
    have inside : i < (m.schema.references type).length := by
      have inside := (List.getElem?_eq_some_iff.mp hj).1
      rw [List.length_range] at inside
      rwa [references]
    exact ⟨.absent, _, List.getElem?_replicate_of_lt inside, List.getElem?_eq_getElem inside,
      .absent _⟩
  inside := nofun
  unfilled := nofun

/-- **What is assembled as a map is stored in a new cell.** -/
theorem stores_begin_map {content : MapContent} (member : Option Nat)
    (h : m.mapContent? view target = some content) :
    (m.schema.body target).assembledKind? view = some .map ∧
      ∃ shape, (m.schema.body target).cellShape? = some shape ∧
        ∀ a, StoresMap m a ⟨target, view, member, content, .idle⟩ (.begin m target shape) := by
  refine ⟨Model.mapContent?_isSome_iff.mp (h ▸ rfl), ?_⟩
  cases Model.mapContent?_eq_some_iff.mp h with
  | entries body =>
    have fills (a : Arena) := fillsMap_begin (a := a) body
    rw [body]
    exact ⟨_, rfl, fun a => ⟨rfl, rfl, .inr rfl, fills a, rfl⟩⟩
  | fields body keyed =>
    have fills (a : Arena) := fillsStruct_begin (a := a) body
    rw [body]
    exact ⟨_, rfl, fun a => ⟨rfl, rfl, .inr rfl, fills a, trivial⟩⟩
  | choice body keyed =>
    have fills (a : Arena) := fillsUnion_begin (a := a) body
    rw [body]
    exact ⟨_, rfl, fun a => ⟨rfl, rfl, .inr rfl, fills a, trivial⟩⟩

/-- **What is assembled as a list is stored in a new cell.** -/
theorem stores_begin_list {content : ListContent} (member : Option Nat)
    (h : m.listContent? view target = some content) :
    (m.schema.body target).assembledKind? view = some .list ∧
      ∃ shape, (m.schema.body target).cellShape? = some shape ∧
        Frame.isIdle (.list ⟨target, view, member, content, false⟩) = true ∧
          ∀ a, StoresList m a ⟨target, view, member, content, false⟩ (.begin m target shape) := by
  refine ⟨Model.listContent?_isSome_iff.mp (h ▸ rfl), ?_⟩
  cases Model.listContent?_eq_some_iff.mp h with
  | items body =>
    have fills (a : Arena) := fillsList_begin (a := a) body
    rw [body]
    exact ⟨_, rfl, rfl, fun a => ⟨rfl, rfl, fills a, rfl⟩⟩
  | tuple body seen =>
    have fills (a : Arena) := fillsStruct_begin (a := a) body
    rw [body]
    refine ⟨_, rfl, rfl, fun a => ⟨rfl, rfl, fun {i s} hs _ => ?_, fills a, rfl⟩⟩
    rw [Model.absentSlots, List.getElem?_mapIdx] at hs
    obtain ⟨f, -, rfl⟩ := Option.map_eq_some_iff.mp hs
    rfl
  | pairs body seen =>
    have fills (a : Arena) := fillsStruct_begin (a := a) body
    rw [body]
    exact ⟨_, rfl, rfl, fun a => ⟨rfl, rfl, seen, fills a⟩⟩

end Begin

/-! ## Entering compounds -/

/-- A compound was begun in a place, and can be called. -/
structure Entered (m : Model) (w₀ : Opening) (gs : List Grip) (hs : List Handle) (q : Place)
    (w : Opening) (a : Arena) (id : CellId) (f : Frame) (a' : Arena) : Prop where
  running : Running m (id :: gs.map (·.cell)) a'
  rest : Rest m a' w₀ (⟨id, w.view, f.kind⟩ :: gs) (⟨f, false⟩ :: hs)
  stage : a'.stage = match q with
    | .root => .building
    | .inside _ _ => a.stage

section Enter

variable {type target : TypeId} {view : View} {member : Option Nat} {shape : CellShape}
  {spec : PlaceSpec} {want : Kind}

theorem draftAt?_append (hd : a.draftAt? q = some d) (c : Cell) :
    (a.append c).draftAt? q = some d := by
  cases q with
  | root => exact hd
  | inside id s =>
    obtain ⟨c', hc', hd⟩ := Option.bind_eq_some_iff.mp hd
    exact (draftAt?_inside (getElem?_append hc' c) s).trans hd

/-- A new cell is put into the place that the innermost compound waits at. -/
theorem Nest.appended (nest : Nest m a w₀ gs hs q w) (sound : a.Sound m)
    (absent : a.draftAt? q = some .absent) (type : TypeId) (shape : CellShape)
    (hd : d.cell? = some a.cells.length) :
    ∃ a', Placed m w₀ gs hs q w (a.append (.begin m type shape)) d false a' ∧ Keeps m a a' ∧
      a'.cells[a.cells.length]? = some (.begin m type shape) ∧
      ∀ g ∈ gs, g.cell ≠ a.cells.length := by
  have sound' := sound.append type shape
  have spares := Spares.append (gs.map (·.cell)) a (.begin m type shape)
  have old : ∀ g ∈ gs, ∃ c : Cell, a.cells[g.cell]? = some c := fun g mem =>
    (nest.underway _ (List.mem_map_of_mem mem)).imp fun _ => And.left
  have before : ∀ g ∈ gs, g.cell < a.cells.length := fun g mem =>
    (List.getElem?_eq_some_iff.mp (old g mem).choose_spec).1
  have nest' := nest.keep (spares.keeps sound') rfl fun g mem => by
    obtain ⟨c, hc⟩ := old g mem
    rw [getElem?_append hc, hc]
  have hc := getElem?_append_length a (.begin m type shape)
  have precedes : Precedes q a.cells.length := by
    cases q with
    | root => trivial
    | inside id s =>
      obtain ⟨g, mem, rfl⟩ := nest.mem_of_inside
      exact before g mem
  have fresh : ∀ id, d.cell? = some id →
      (a.append (.begin m type shape)).Loose id ∧ Precedes q id := by
    intro id he
    obtain rfl := Option.some.inj (hd.symm.trans he)
    exact ⟨sound.loose_append type shape, precedes⟩
  have incomplete : (a.append (.begin m type shape)).complete? d = some false := by
    rw [complete?_of_cell hd, hc]
    rfl
  obtain ⟨a', placed⟩ := nest'.placed sound' (draftAt?_append absent _) fresh incomplete
  refine ⟨a', placed, (spares.trans placed.spares).keeps placed.running.sound, ?_,
    fun g mem => Nat.ne_of_lt (before g mem)⟩
  · refine (placed.apart fun s he => ?_).trans hc
    obtain ⟨g, mem, he'⟩ := (he ▸ nest).mem_of_inside
    exact absurd he' (Nat.ne_of_lt (before g mem))

theorem runs_allocate (a : Arena) (type : TypeId) (shape : CellShape) :
    Runs (allocate m type shape) a (.ok a.cells.length) (a.append (.begin m type shape)) :=
  (runs_get a).bind ((runs_modify _ a).bind (runs_pure _ _))

theorem runs_cellDraft {nullable : Bool} (a : Arena)
    (found : m.schema.target? view type want = some (member, target))
    (kind : (m.schema.body target).assembledKind? view = some want)
    (shaped : (m.schema.body target).cellShape? = some shape) :
    Runs (cellDraft m ⟨.value type, view, nullable⟩ want) a
      (.ok ((Draft.cell a.cells.length).wrap member, a.cells.length))
      (a.append (.begin m target shape)) := by
  rw [cellDraft]
  dsimp only
  rw [found]
  dsimp only
  rw [shaped]
  dsimp only
  rw [if_pos kind]
  exact (runs_allocate a target shape).bind (runs_pure _ _)

theorem runs_cellDraft_unreached {nullable : Bool} (a : Arena)
    (found : m.schema.target? view type want = none) :
    Runs (cellDraft m ⟨.value type, view, nullable⟩ want) a
      (.error (m.schema.mismatch view type want)) a := by
  rw [cellDraft]
  dsimp only
  rw [found]
  exact runs_throw _ a

theorem runs_cellDraft_refused {nullable : Bool} (a : Arena)
    (found : m.schema.target? view type want = some (member, target))
    (kind : (m.schema.body target).assembledKind? view ≠ some want) :
    Runs (cellDraft m ⟨.value type, view, nullable⟩ want) a
      (.error (m.schema.mismatch view target want)) a := by
  rw [cellDraft]
  dsimp only
  rw [found]
  dsimp only
  cases (m.schema.body target).cellShape? with
  | none => exact runs_throw _ a
  | some shape =>
    dsimp only
    rw [if_neg kind]
    exact runs_throw _ a

theorem not_pair_of_cellShape? {b : Body TypeId} (h : b.cellShape? = some shape) (owner : CellId) :
    shape ≠ .pair owner := by
  rintro rfl
  cases b <;> exact nomatch h

theorem quiet_of_settled (idle : f.isIdle = true) (phase : c.phase = .settled) :
    Quiet m a κ f c := by
  refine ⟨fun waits => (nomatch waits.not_isIdle.symm.trans idle), fun _ => ?_⟩
  rw [settles?, phase]

theorem Placed.enters (placed : Placed m w₀ gs hs q w (a.append c') d false a')
    (level : Level m a' q w ⟨κ, w.view, f.kind⟩ f c) (apart : ∀ g ∈ gs, g.cell ≠ κ)
    (quiet : Quiet m a' κ f c) : Entered m w₀ gs hs q w a κ f a' where
  running := ⟨placed.running.sound, List.forall_mem_cons.mpr
    ⟨⟨c, level.cell, level.stores.unfinished⟩, placed.running.underway⟩⟩
  rest := .top placed.nest level apart quiet
  stage := by
    rw [placed.stage]
    cases q <;> rfl

theorem Nest.enters {nullable : Bool}
    (nest : Nest m a w₀ gs hs q ⟨.value type, f.view, nullable⟩) (sound : a.Sound m)
    (absent : a.draftAt? q = some .absent)
    (found : m.schema.target? f.view type want = some (f.member, f.type))
    (kind : (m.schema.body f.type).assembledKind? f.view = some want)
    (shaped : (m.schema.body f.type).cellShape? = some shape)
    (stores : ∀ a, Stores m a f (.begin m f.type shape)) (idle : f.isIdle = true) :
    ∃ a', Runs (enter m q ⟨.value type, f.view, nullable⟩ want) a (.ok a.cells.length) a' ∧
      Entered m w₀ gs hs q ⟨.value type, f.view, nullable⟩ a a.cells.length f a' := by
  have refers : ((Draft.cell a.cells.length).wrap f.member).cell? = some a.cells.length := by
    cases f.member <;> rfl
  obtain ⟨a', placed, -, hc, apart⟩ := nest.appended sound absent f.type shape refers
  refine ⟨a', (runs_cellDraft a found kind shaped).bind (placed.run.bind (runs_pure _ _)), ?_⟩
  refine placed.enters ⟨hc, stores a', rfl, rfl, .value placed.draft (reaches_of_target? found) ?_⟩
    apart (quiet_of_settled idle rfl)
  exact not_pair_of_cellShape? shaped

/-- **A map is begun in an opening as in a builder.** -/
theorem enterMap_agrees (nest : Nest m a w₀ gs hs q w) (sound : a.Sound m)
    (absent : a.draftAt? q = some .absent) (asks : Asks m a q spec w) :
    Agrees (· = a) (fun id f a' => Entered m w₀ gs hs q w a id (.map f) a')
      (enter m q spec .map) a (w.openMap m) := by
  have mismatched := asks.runs_mismatch (m := m) (α := Draft × CellId) .map
  cases asks with
  | name view nullable same => exact .error mismatched.bind_error rfl
  | pair nullable ho phase unfinished same fills => exact .error mismatched.bind_error rfl
  | value type view nullable =>
    rw [Opening.openMap]
    dsimp only
    cases found : m.schema.target? view type .map with
    | none =>
      exact .error (runs_cellDraft_unreached a found).bind_error rfl
    | some r =>
      obtain ⟨member, target⟩ := r
      dsimp only
      cases begun : m.mapContent? view target with
      | none =>
        have kind : (m.schema.body target).assembledKind? view ≠ some .map := fun kind =>
          nomatch (congrArg Option.isSome begun).symm.trans (Model.mapContent?_isSome_iff.mpr kind)
        exact .error (runs_cellDraft_refused a found kind).bind_error rfl
      | some content =>
        obtain ⟨kind, shape, shaped, stores⟩ := stores_begin_map member begun
        obtain ⟨a', run, entered⟩ := nest.enters (f := .map ⟨target, view, member, content, .idle⟩)
          sound absent found kind shaped stores rfl
        exact .ok run entered

/-- **A list is begun in an opening as in a builder.** -/
theorem enterList_agrees (nest : Nest m a w₀ gs hs q w) (sound : a.Sound m)
    (absent : a.draftAt? q = some .absent) (asks : Asks m a q spec w) :
    Agrees (· = a) (fun id f a' => Entered m w₀ gs hs q w a id (.list f) a')
      (enter m q spec .list) a (w.openList m) := by
  have mismatched := asks.runs_mismatch (m := m) (α := Draft × CellId) .list
  cases asks with
  | name view nullable same => exact .error mismatched.bind_error rfl
  | @pair owner o type keys fields slots nullable ho phase unfinished same fills =>
    obtain ⟨a', placed, keeps, hc, apart⟩ :=
      nest.appended (d := .cell a.cells.length) sound absent o.type (.pair owner) rfl
    have drafted : Runs (cellDraft m ⟨.pair owner, .representation, nullable⟩ .list) a
        (.ok (.cell a.cells.length, a.cells.length)) (a.append (.begin m o.type (.pair owner))) :=
      (runs_cell ho).bind ((runs_allocate a o.type (.pair owner)).bind (runs_pure _ _))
    refine .ok (drafted.bind (placed.run.bind (runs_pure _ _))) ?_
    have ho' := placed.inside rfl (getElem?_append ho _)
    have like := o.like_put (.cell a.cells.length) .key
    have pair : PairFor m a' a.cells.length owner (o.put (.cell a.cells.length) .key)
        ⟨type, .representation, none, .pair keys fields slots .empty, false⟩ keys fields slots
          .empty :=
      ⟨rfl, ho', rfl, phase, unfinished, same, fills.keep keeps ho' like.toExtends nofun⟩
    exact placed.enters ⟨hc, ⟨same, rfl, rfl, owner, rfl, rfl, rfl⟩, rfl, rfl, .pair rfl pair⟩ apart
      (quiet_of_not_waits (fun h => by cases h) nofun)
  | value type view nullable =>
    rw [Opening.openList]
    dsimp only
    cases found : m.schema.target? view type .list with
    | none =>
      exact .error (runs_cellDraft_unreached a found).bind_error rfl
    | some r =>
      obtain ⟨member, target⟩ := r
      dsimp only
      cases begun : m.listContent? view target with
      | none =>
        have kind : (m.schema.body target).assembledKind? view ≠ some .list := fun kind =>
          nomatch (congrArg Option.isSome begun).symm.trans (Model.listContent?_isSome_iff.mpr kind)
        exact .error (runs_cellDraft_refused a found kind).bind_error rfl
      | some content =>
        obtain ⟨kind, shape, shaped, idle, stores⟩ := stores_begin_list member begun
        obtain ⟨a', run, entered⟩ := nest.enters (f := .list ⟨target, view, member, content, false⟩)
          sound absent found kind shaped stores idle
        exact .ok run entered

end Enter

end Arena

end DualView
