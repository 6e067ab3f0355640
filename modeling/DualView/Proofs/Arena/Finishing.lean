import DualView.Proofs.Arena.Places

/-!
# Finishing compounds

A compound is finished when it has nothing open and nothing is lacking.  Its cell is closed, and the
place that waited for it holds the value that its frame closes with (`Arena.Finished`).  A pair has
no value: what it filled is in the struct already, and the struct is told of it.

* `Arena.finish_agrees`, `Arena.finishPair_agrees`: a compound is finished as its frame closes.
* `Arena.checkView_agrees`: a compound is called in another view where its frame allows it.
* `Arena.Level.withView`: and is at rest in that view.
-/

namespace DualView

namespace Arena

variable {m : Model} {a a' : Arena} {κ owner id : CellId} {c c' o : Cell} {q p : Place}
  {w w₀ : Opening} {f : Frame} {g : Grip} {gs : List Grip} {hs : List Handle} {s : Spot} {d : Draft}
  {live : List CellId}

/-! ## Closing frames -/

theorem Stores.type_eq (h : Stores m a f c) : c.type = f.type := by
  cases f with
  | map f => exact StoresMap.type h
  | list f => exact StoresList.type h

/-- A frame is idle exactly if its cell is settled, if it is not a pair. -/
theorem Stores.settles? (h : Stores m a f c) (hc : a.cells[κ]? = some c)
    (single : ∀ owner, c.shape ≠ .pair owner) (quiet : Quiet m a κ f c) :
    a.settles? c = some f.isIdle := by
  cases f with
  | map f => exact StoresMap.settles? h hc quiet
  | list f =>
    rw [StoresList.settles? h hc single quiet]
    obtain ⟨type, view, member, content, busy⟩ := f
    cases content with
    | items elem nullable layout slots | tuple fields slots next | pairs keys fields slots => rfl
    | pair keys fields slots stage =>
      obtain ⟨-, -, -, owner, shape, -⟩ := h
      exact absurd shape (single owner)

/-- **An idle frame closes when nothing is lacking in its cell**, if it is not a pair. -/
theorem Stores.closes (h : Stores m a f c) (single : ∀ owner, c.shape ≠ .pair owner)
    (shaped : c.Shaped m) (idle : f.isIdle = true) :
    Corresponds (fun _ piece => ∃ v, piece = .content (some (v.wrap f.member)) ∧ Finishes m a c v)
      (c.checkFilled m) (f.close m) := by
  cases f with
  | map f =>
    refine StoresMap.closes h ?_ shaped
    obtain ⟨type, view, member, content, phase⟩ := f
    cases phase <;> first | rfl | exact nomatch idle
  | list f =>
    refine StoresList.closes h ?_ single shaped
    obtain ⟨type, view, member, content, busy⟩ := f
    cases content with
    | items elem nullable layout slots | tuple fields slots next | pairs keys fields slots =>
      cases busy <;> first | rfl | exact nomatch idle
    | pair keys fields slots stage =>
      obtain ⟨-, -, -, owner, shape, -⟩ := h
      exact absurd shape (single owner)

theorem Stores.close_busy (h : Stores m a f c) (single : ∀ owner, c.shape ≠ .pair owner)
    (busy : f.isIdle = false) :
    f.close m = .error (.assembly (.incompleteValue (m.schema.nameOf c.type))) := by
  rw [h.type_eq]
  cases f with
  | map f =>
    obtain ⟨type, view, member, content, phase⟩ := f
    cases phase <;> first | rfl | exact nomatch busy
  | list f =>
    obtain ⟨type, view, member, content, busy'⟩ := f
    cases content with
    | items elem nullable layout slots | tuple fields slots next | pairs keys fields slots =>
      cases busy' <;> first | rfl | exact nomatch busy
    | pair keys fields slots stage =>
      obtain ⟨-, -, -, owner, shape, -⟩ := h
      exact absurd shape (single owner)

/-! ## Finishing cells -/

theorem Nest.root_unfinished (nest : Nest m a w₀ (g :: gs) hs q w) :
    a.complete? a.root = some false := by
  cases nest with
  | inner outer level apart waits => exact outer.root_incomplete level.incomplete

/-- **A cell without anything at hand may be finished.** -/
theorem Sound.close (h : a.Sound m) (hc : a.cells[κ]? = some c) (free : Free a κ) :
    (a.store κ c.closed).Sound m :=
  h.store (n := none) hc {
    refers := by
      intro s id hs
      cases s with
      | key | slot i => exact .inl hs
    fresh := nofun
    shaped := id
    finished := fun _ => rfl
    settled := fun _ => rfl
    slot := nofun
    pairSlot := nofun
    owned := fun hd phase => absurd phase (free _ _ _ hd) }

/-- The cell of the innermost compound was finished. -/
structure Ends (m : Model) (w₀ : Opening) (g : Grip) (gs : List Grip) (hs : List Handle) (q : Place)
    (w : Opening) (c : Cell) (a a' : Arena) : Prop where
  running : Running m (gs.map (·.cell)) a'
  keeps : Keeps m a a'
  nest : Nest m a' w₀ gs hs q w
  cell : a'.cells[g.cell]? = some c.closed
  others : ∀ {id : CellId}, id ≠ g.cell → a'.cells[id]? = a.cells[id]?
  draft : a'.draftAt? q = a.draftAt? q
  unfrozen : g.cell ∉ a'.frozen

theorem Nest.ends (outer : Nest m a w₀ gs hs q w) (level : Level m a q w g f c)
    (apart : ∀ g' ∈ gs, g'.cell ≠ g.cell) (sound : a.Sound m) (free : Free a g.cell)
    (stage : Stage) :
    Ends m w₀ g gs hs q w c a { a.store g.cell c.closed with stage := stage } := by
  have unfinished := level.stores.unfinished
  have sound' := (sound.close level.cell free).setStage stage
  have spares : Spares [g.cell] a { a.store g.cell c.closed with stage := stage } :=
    (Spares.store level.cell unfinished).trans (.of_cells_eq _ rfl rfl)
  have keeps := spares.keeps sound'
  have others {id : CellId} (ne : id ≠ g.cell) :
      { a.store g.cell c.closed with stage := stage }.cells[id]? = a.cells[id]? :=
    getElem?_store_of_ne ne
  have nest := outer.keep keeps rfl fun g' mem => others (apart g' mem)
  refine ⟨⟨sound', nest.underway⟩, keeps, nest, getElem?_store_self level.cell _, others, ?_,
    sound.not_frozen_of_unfinished level.cell unfinished⟩
  cases q with
  | root => rfl
  | inside id s =>
    obtain ⟨g', mem, rfl⟩ := outer.mem_of_inside
    rw [draftAt?, draftAt?, others (apart g' mem)]

/-- A compound was finished, and what waited for it has it. -/
structure Finished (m : Model) (type : TypeId) (w₀ : Opening) (g : Grip) (gs : List Grip)
    (hs : List Handle) (c : Cell) (piece : Piece) (a' : Arena) : Prop where
  running : Running m (gs.map (·.cell)) a'
  cell : a'.cells[g.cell]? = some c.closed
  unfrozen : g.cell ∉ a'.frozen
  root : gs = [] → a'.stage = .finished ∧
    ∃ v, piece = .content (some v) ∧ Holds m a' type a'.root (.value v)
  outer : ∀ h hs', hs = h :: hs' → a'.stage = .building ∧
    Rest m a' w₀ gs ({ h with frame := h.frame.place piece } :: hs')

section Finish

variable {type : TypeId} {view : View}

theorem runs_close (hc : a.cells[κ]? = some c) :
    Runs (update κ ({ · with finished := true })) (a.store κ { c with phase := .settled }) (.ok ())
      (a.store κ c.closed) := by
  have run : Runs (update κ ({ · with finished := true })) (a.store κ { c with phase := .settled })
      (.ok ()) ((a.store κ { c with phase := .settled }).store κ c.closed) :=
    runs_update (getElem?_store_self hc _) _
  rwa [store_store] at run

theorem Nest.finishes {target : TypeId} {view' : View} {nullable : Bool} {v : Value}
    (outer : Nest m a ⟨.value type, view, false⟩ gs hs q ⟨.value target, view', nullable⟩)
    (level : Level m a q ⟨.value target, view', nullable⟩ g f c)
    (apart : ∀ g' ∈ gs, g'.cell ≠ g.cell) (sound : a.Sound m) (free : Free a g.cell)
    (building : a.stage = .building) (draft : a.draftAt? q = some d)
    (refers : d.cell? = some g.cell)
    (held : ∀ a', Keeps m a a' → a'.cells[g.cell]? = some c.closed →
      Holds m a' target d (.value v)) :
    ∃ a', Runs refresh (a.store g.cell c.closed) (.ok ()) a' ∧
      Finished m type ⟨.value type, view, false⟩ g gs hs c (.content (some v)) a' := by
  have ends (stage : Stage) := outer.ends level apart sound free stage
  cases outer with
  | root =>
    obtain rfl : a.root = d := Option.some.inj draft
    have complete : (a.store g.cell c.closed).complete? a.root = some true := by
      rw [complete?_of_cell refers, getElem?_store_self level.cell]
      rfl
    have ends := ends .finished
    exact ⟨_, runs_refresh building complete, ends.running, ends.cell, ends.unfrozen,
      fun _ => ⟨rfl, v, rfl, held _ ends.keeps ends.cell⟩, nofun⟩
  | inner outer level apart waits =>
    have complete : (a.store g.cell c.closed).complete? a.root = some false :=
      (ends a.stage).nest.root_unfinished
    have ends := ends .building
    refine ⟨_, runs_refresh building complete, ends.running, ends.cell,
      ends.unfrozen, nofun, fun h hs' e => ⟨rfl, ?_⟩⟩
    cases e
    exact ends.nest.deliver ends.running.sound (ends.draft.trans draft)
      (.value (held _ ends.keeps ends.cell) nofun)

/-- **A compound that is not a pair is finished as its frame closes.** -/
theorem finish_agrees {target : TypeId} {view' : View} {nullable : Bool}
    (outer : Nest m a ⟨.value type, view, false⟩ gs hs q ⟨.value target, view', nullable⟩)
    (level : Level m a q ⟨.value target, view', nullable⟩ g f c)
    (apart : ∀ g' ∈ gs, g'.cell ≠ g.cell) (quiet : Quiet m a g.cell f c)
    (running : Running m ((g :: gs).map (·.cell)) a) (building : a.stage = .building) :
    Agrees (Running m ((g :: gs).map (·.cell)))
      (fun _ piece => Finished m type ⟨.value type, view, false⟩ g gs hs c piece)
      (finish m g.cell) a (f.close m) := by
  have level' := level
  obtain ⟨hc, stores, -, -, begun⟩ := level
  have unfinished := stores.unfinished
  cases begun with
  | value draft reaches single =>
    have settles := stores.settles? hc single quiet
    refine Agrees.after (runs_checkOpen hc unfinished) (Agrees.after (runs_cell hc) ?_)
    split
    · rename_i shape
      exact absurd shape (single _)
    · cases idle : f.isIdle with
      | false =>
        rw [idle] at settles
        rw [stores.close_busy single idle]
        exact .error (runs_settle_error hc settles).bind_error running
      | true =>
        rw [idle] at settles
        have free := running.sound.free_of_settles hc settles
        refine Agrees.after (runs_settle hc settles) ?_
        have checked {r : Except NodeError Unit} (h : c.checkFilled m = r) (a : Arena) :
            Runs (give (c.checkFilled m)) a r a := h ▸ runs_give _ a
        have closes := stores.closes single (running.shaped hc unfinished) idle
        obtain ⟨e, filled, closed⟩ | ⟨⟨⟩, piece, filled, closed, v, rfl, finishes⟩ :=
          closes.error_or_ok
        · rw [closed]
          have moves : Moves m _ g.cell a (a.store g.cell { c with phase := .settled }) :=
            running.rephase hc free unfinished (.inl rfl) (by nofun) (by nofun) c.next
          exact .error (checked filled _).bind_error moves.running
        · rw [closed]
          obtain ⟨a', run, finished⟩ := outer.finishes level' apart running.sound free building
            draft (by cases f.member <;> rfl)
            fun a' keeps hc' => reaches.holds (finishes _ _ _ keeps hc')
          exact .ok ((checked filled _).bind ((runs_close hc).bind run)) finished

theorem runs_finish_arity (hc : a.cells[κ]? = some c) (unfinished : c.finished = false)
    (shape : c.shape = .pair owner) (few : c.next ≠ 2) :
    Runs (finish m κ) a (.error (.representation (.pairArity (m.schema.nameOf c.type)))) a := by
  refine (runs_checkOpen hc unfinished).bind ((runs_cell hc).bind ?_)
  rw [shape]
  dsimp only
  rw [if_pos few]
  exact (runs_throw _ a).bind_error

/-- A pair with two items is finished once it is settled. -/
theorem Agrees.finishPair {β : Type} {E : Arena → Prop} {R : Unit → β → Arena → Prop}
    {y : Except NodeError β} (hc : a.cells[κ]? = some c) (unfinished : c.finished = false)
    (shape : c.shape = .pair owner) (two : c.next = 2)
    (rest : Agrees E R (do settle m κ; update κ ({ · with finished := true }); refresh) a y) :
    Agrees E R (finish m κ) a y := by
  refine Agrees.after (runs_checkOpen hc unfinished) (Agrees.after (runs_cell hc) ?_)
  rw [shape]
  dsimp only
  rw [if_neg (fun ne => ne two)]
  exact rest

/-- **A pair is finished as its frame closes**, and the struct has what it filled. -/
theorem finishPair_agrees {gf : ListFrame} {keys : Renaming} {fields : List (Field TypeId)}
    {slots : List (Slot Value)} {stage : PairStage} {view' : View} {nullable : Bool}
    (outer : Nest m a w₀ gs hs (.inside owner .key)
      ⟨.pair gf.type keys fields slots, view', nullable⟩)
    (level : Level m a (.inside owner .key) ⟨.pair gf.type keys fields slots, view', nullable⟩ g
      (.list gf) c)
    (shape : c.shape = .pair owner) (pair : PairFor m a g.cell owner o gf keys fields slots stage)
    (apart : ∀ g' ∈ gs, g'.cell ≠ g.cell) (quiet : Quiet m a g.cell (.list gf) c)
    (running : Running m ((g :: gs).map (·.cell)) a) (building : a.stage = .building) :
    Agrees (Running m ((g :: gs).map (·.cell)))
      (fun _ piece => Finished m type w₀ g gs hs c piece) (finish m g.cell) a
      ((Frame.list gf).close m) := by
  have hc := level.cell
  obtain ⟨gtype, gview, member, content, busy⟩ := gf
  obtain rfl : content = _ := pair.content
  obtain ⟨same, unfinished, represented, owner', shape', atStage⟩ := level.stores
  obtain rfl : owner' = owner := CellShape.pair.inj (shape'.symm.trans shape)
  obtain rfl : c.type = gtype := same
  cases stage with
  | empty | key | keyed k =>
    exact .error (runs_finish_arity hc unfinished shape (by rw [atStage.1]; decide)) running
  | value i =>
    obtain ⟨two, phase⟩ := atStage
    obtain ⟨s, hs, -⟩ := pair.fills.unfilled rfl
    have inside : i < fields.length :=
      pair.fills.length ▸ (List.getElem?_eq_some_iff.mp hs).1
    have typed := (pair.fills.slotType?_eq (List.getElem?_eq_getElem inside)).1
    rw [pair.same] at typed
    obtain ⟨d, hd, incomplete⟩ := quiet.incomplete (.pairSlot .typed true shape typed)
    have settles := settles?_pairSlot phase hd incomplete
    exact .finishPair hc unfinished shape two
      (.error (runs_settle_error hc settles).bind_error running)
  | full i given =>
    obtain ⟨two, phase⟩ := atStage
    have free := running.sound.free_of_phase hc (by rw [phase]; nofun)
    have ne : owner' ≠ g.cell := Nat.ne_of_lt (pair.lt running.sound)
    have ends (stage : Stage) := outer.ends level apart running.sound free stage
    cases outer with
    | inner outer level₁ apart₁ waits₁ =>
      have complete : (a.store g.cell c.closed).complete? a.root = some false :=
        (ends a.stage).nest.root_unfinished
      have ends := ends .building
      have ho := (ends.others ne).trans pair.ho
      refine .finishPair hc unfinished shape two (.ok ((runs_settle hc (quiet.settles rfl)).bind
        ((runs_close hc).bind (runs_refresh building complete))) ?_)
      refine ⟨ends.running, ends.cell, ends.unfrozen, nofun, fun h hs' e => ⟨rfl, ?_⟩⟩
      cases e
      refine ends.nest.deliver_pair ho ?_
        (FillsStruct.keep pair.fills ends.keeps ho (.refl o) nofun)
      rw [pair.pending, complete?, ends.cell]
      rfl

end Finish

/-! ## Views -/

/-- A cell has the type of a frame, and is a pair exactly if the frame is. -/
inductive ReadsAs (c : Cell) : Frame → Prop
  | map {f : MapFrame} (same : c.type = f.type) (single : ∀ owner, c.shape ≠ .pair owner) :
      ReadsAs c (.map f)
  | list {f : ListFrame} (same : c.type = f.type) (single : ∀ owner, c.shape ≠ .pair owner)
      (plain : ∀ keys fields slots stage, f.content ≠ .pair keys fields slots stage) :
      ReadsAs c (.list f)
  | pair {f : ListFrame} {owner : CellId} {keys : Renaming} {fields : List (Field TypeId)}
      {slots : List (Slot Value)} {stage : PairStage} (same : c.type = f.type)
      (shape : c.shape = .pair owner) (content : f.content = .pair keys fields slots stage) :
      ReadsAs c (.list f)

theorem ReadsAs.type_eq (h : ReadsAs c f) : c.type = f.type := by
  cases h <;> assumption

theorem ReadsAs.closed (h : ReadsAs c f) : ReadsAs c.closed f := by
  cases h with
  | map same single => exact .map same single
  | list same single plain => exact .list same single plain
  | pair same shape content => exact .pair same shape content

theorem Stores.readsAs (h : Stores m a f c) : ReadsAs c f := by
  cases f with
  | map f =>
    obtain ⟨same, -, -, fills, -⟩ := h
    refine .map same fun owner he => ?_
    obtain ⟨type, view, member, content, phase⟩ := f
    cases content with
    | entries key value nullable layout dict => exact nomatch (FillsMap.shape fills).symm.trans he
    | fields fields repr slots => exact nomatch (FillsStruct.shape fills).symm.trans he
    | choice members repr present => exact nomatch (FillsUnion.shape fills).symm.trans he
  | list f =>
    obtain ⟨same, -, fills⟩ := h
    obtain ⟨type, view, member, content, busy⟩ := f
    cases content with
    | items elem nullable layout slots =>
      exact .list same (fun owner he => nomatch fills.1.shape.symm.trans he) nofun
    | tuple fields slots next =>
      exact .list same (fun owner he => nomatch fills.tuple_struct.1.symm.trans he) nofun
    | pairs keys fields slots =>
      exact .list same (fun owner he => nomatch fills.pairs_struct.1.symm.trans he) nofun
    | pair keys fields slots stage =>
      obtain ⟨-, owner, shape, -⟩ := fills
      exact .pair same shape rfl

end Arena

/-- A frame in another view. -/
def Frame.withView (view : View) : Frame → Frame
  | map f => map { f with view := view }
  | list f => list { f with view := view }

theorem Frame.kind_withView (f : Frame) (view : View) : (f.withView view).kind = f.kind := by
  cases f <;> rfl

namespace Arena

theorem ReadsAs.withView (h : ReadsAs c f) (view : View) : ReadsAs c (f.withView view) := by
  cases h with
  | map same single => exact .map same single
  | list same single plain => exact .list same single plain
  | pair same shape content => exact .pair same shape content

theorem inView_of_plain {g : ListFrame} {view : View}
    (plain : ∀ keys fields slots stage, g.content ≠ .pair keys fields slots stage) :
    g.inView m view =
      if (m.schema.body g.type).assembledKind? view = some .list then .ok { g with view := view }
      else .error (.assembly (.kindMismatch (m.schema.nameOf g.type) .list
        (((m.schema.body g.type).assembledKind? view).getD .null))) := by
  obtain ⟨type, view', member, content, busy⟩ := g
  cases content with
  | pair keys fields slots stage => exact (plain _ _ _ _ rfl).elim
  | items elem nullable layout slots | tuple fields slots next | pairs keys fields slots => rfl

theorem ReadsAs.inView_eq (reads : ReadsAs c f) (view : View) :
    f.inView m view =
      if c.kindIn? m view = some f.kind then .ok (f.withView view)
      else .error (.assembly
        (.kindMismatch (m.schema.nameOf c.type) f.kind ((c.kindIn? m view).getD .null))) := by
  have plain (single : ∀ owner, c.shape ≠ .pair owner) :
      c.kindIn? m view = (m.schema.body c.type).assembledKind? view := by
    rw [Cell.kindIn?.eq_def]
    split
    · exact absurd ‹_› (single _)
    · exact absurd ‹_› (single _)
    · rfl
  cases reads with
  | @map f same single =>
    rw [plain single, same, Frame.inView, MapFrame.inView]
    by_cases ok : (m.schema.body f.type).assembledKind? view = some .map
    · rw [if_pos ok]
      exact (if_pos ok).symm
    · rw [if_neg ok]
      exact (if_neg ok).symm
  | @list f same single notPair =>
    rw [plain single, same, Frame.inView, inView_of_plain notPair]
    by_cases ok : (m.schema.body f.type).assembledKind? view = some .list
    · rw [if_pos ok]
      exact (if_pos ok).symm
    · rw [if_neg ok]
      exact (if_neg ok).symm
  | @pair f owner keys fields slots stage same shape content =>
    rw [Cell.kindIn?.eq_def, shape, same]
    obtain ⟨type, view', member, content', busy⟩ := f
    obtain rfl : content' = _ := content
    cases view with
    | typed => rfl
    | representation => rfl

/-- **A compound goes on in another view where its frame does.** -/
theorem checkView_agrees (hc : a.cells[κ]? = some c) (reads : ReadsAs c f) (view : View) :
    Agrees (· = a)
      (fun _ f' a' => c.kindIn? m view = some f.kind ∧ f' = f.withView view ∧ a' = a)
      (checkView m κ view f.kind) a (f.inView m view) := by
  rw [reads.inView_eq]
  by_cases same : c.kindIn? m view = some f.kind
  · rw [if_pos same]
    refine .ok (v := ()) ((runs_cell hc).bind ?_) ⟨same, rfl, rfl⟩
    rw [if_pos same]
    exact runs_pure _ a
  · rw [if_neg same]
    refine .error ((runs_cell hc).bind ?_) rfl
    rw [if_neg same]
    exact runs_throw _ a

theorem Stores.withView {view : View} (h : Stores m a f c)
    (kind : c.kindIn? m view = some f.kind) : Stores m a (f.withView view) c := by
  cases f with
  | map f =>
    have h : StoresMap m a f c := h
    exact ⟨h.type, h.unfinished, h.pending, h.content, h.phase⟩
  | list f =>
    obtain ⟨same, unfinished, fills⟩ := h
    obtain ⟨type, view', member, content, busy⟩ := f
    refine ⟨same, unfinished, ?_⟩
    cases content with
    | items elem nullable layout slots => exact fills
    | tuple fields slots next => exact fills
    | pairs keys fields slots =>
      cases view with
      | typed =>
        obtain ⟨shape, body⟩ := fills.pairs_struct
        rw [Cell.kindIn?.eq_def, shape, body] at kind
        exact nomatch kind
      | representation => exact ⟨rfl, fills.2⟩
    | pair keys fields slots stage =>
      obtain ⟨-, owner, shape, atStage⟩ := fills
      cases view with
      | typed =>
        rw [Cell.kindIn?.eq_def, shape] at kind
        exact nomatch kind
      | representation => exact ⟨rfl, owner, shape, atStage⟩

theorem Waits.of_withView {view : View} (h : Waits m κ c (f.withView view) p w) :
    Waits m κ c f p w := by
  cases f with
  | map f =>
    obtain ⟨type, view', member, content, phase⟩ := f
    cases h with
    | key view => exact .key view
    | fieldName view => exact .fieldName view
    | memberName view => exact .memberName view
    | entry view => exact .entry view
    | field view nullable typed => exact .field view nullable typed
    | member view typed => exact .member view typed
  | list f =>
    obtain ⟨type, view', member, content, busy⟩ := f
    cases h with
    | item view => exact .item view
    | tuple view nullable typed => exact .tuple view nullable typed
    | pair view => exact .pair view
    | pairName view => exact .pairName view
    | pairSlot view nullable shape typed => exact .pairSlot view nullable shape typed

/-- **A compound at rest is at rest in another view.** -/
theorem Level.withView {view : View} (h : Level m a q w g f c) (quiet : Quiet m a g.cell f c)
    (kind : c.kindIn? m view = some f.kind) :
    Level m a q w { g with view := view } (f.withView view) c ∧
      Quiet m a g.cell (f.withView view) c := by
  refine ⟨⟨h.cell, h.stores.withView kind, ?_, ?_, ?_⟩,
    fun waits => quiet.incomplete waits.of_withView, ?_⟩
  · cases f <;> rfl
  · exact h.kind.trans (f.kind_withView view).symm
  · obtain ⟨-, -, -, -, begun⟩ := h
    cases begun with
    | value draft reaches single =>
      cases f with
      | map f => exact .value draft reaches single
      | list f => exact .value draft reaches single
    | @pair owner o gf keys fields slots stage view' nullable shape pair =>
      exact .pair (g := { gf with view := view }) shape ⟨pair.content, pair.ho, pair.pending,
        pair.phase, pair.unfinished, pair.same, pair.fills⟩
  · cases f with
    | map f => exact quiet.settles
    | list f => exact quiet.settles

end Arena

end DualView
