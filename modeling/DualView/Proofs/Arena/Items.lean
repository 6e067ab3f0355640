import DualView.Proofs.Arena.Entries

/-!
# Opening items

A list opens one item after the other.  A pair opens a key first, and then the field that the key
stands for, which is a slot of the struct in the cell of its owner (`Arena.PairFor`).  That the pair
has opened it is noted in the phase of the pair, and leaves the owner as it was.

* `Arena.beginItem_agrees`: the items of lists, of structs by position, and pairs of structs.
* `Arena.beginPairItem_agrees`: the items of pairs.
-/

namespace DualView

namespace Arena

variable {m : Model} {a a' a'' : Arena} {κ owner : CellId} {c c' o : Cell} {live : List CellId}

/-! ## Lists -/

section Lists

variable {g : ListFrame}

/-- **To settle a cell is to find that its frame has nothing at hand**, if it is not a pair. -/
theorem StoresList.settle_agrees (h : StoresList m a g c) (running : Running m live a)
    (hc : a.cells[κ]? = some c) (single : ∀ owner, c.shape ≠ .pair owner)
    (quiet : Quiet m a κ (.list g) c) :
    Agrees (Running m live)
      (fun _ _ a' => Moves m live κ a a' ∧ ∃ c', a'.cells[κ]? = some c' ∧ c'.phase = .settled ∧
        c'.shape = c.shape ∧ g.busy = false ∧ StoresList m a' g c')
      (settle m κ) a (g.settled m) := by
  have settles := h.settles? hc single quiet
  obtain ⟨type, view, member, content, busy⟩ := g
  obtain ⟨same, unfinished, fills⟩ := h
  obtain rfl : c.type = type := same
  cases busy with
  | true => exact .error (runs_settle_error hc settles) running
  | false =>
    refine .ok (runs_settle hc settles) ?_
    have moves : Moves m live κ a (a.store κ { c with phase := .settled }) :=
      running.rephase hc (running.sound.free_of_settles hc settles) unfinished (.inl rfl) (by nofun)
        (by nofun) c.next
    have hc' := getElem?_store_self hc { c with phase := .settled }
    have ext : c.Extends { c with phase := .settled } none := extends_rephase ..
    refine ⟨moves, _, hc', rfl, rfl, rfl, rfl, unfinished, ?_⟩
    cases content with
    | items elem nullable layout slots => exact ⟨fills.1.keep moves.keeps hc' ext nofun, fills.2⟩
    | tuple fields slots next =>
      obtain ⟨absent, fills, next⟩ := fills
      exact ⟨absent, FillsStruct.keep fills moves.keeps hc' ext nofun, next⟩
    | pairs keys fields slots =>
      exact ⟨fills.1, FillsStruct.keep fills.2 moves.keeps hc' ext nofun⟩
    | pair keys fields slots stage =>
      obtain ⟨-, owner, shape, -⟩ := fills
      exact absurd shape (single owner)

theorem Agrees.beginItem {β : Type} {E : Arena → Prop} {R : Place × PlaceSpec → β → Arena → Prop}
    {y : Except NodeError β} {view : View} (hc : a.cells[κ]? = some c)
    (unfinished : c.finished = false) {shape : CellShape}
    (rest : Agrees E R
      (match shape with
        | .pair owner => beginPairItem m κ owner view
        | .list elem nullable => do
          settle m κ
          let c ← cell κ
          update κ Cell.withItem
          return (.inside κ (.slot c.slots.length), ⟨.value elem, view, nullable⟩)
        | .struct => do
          settle m κ
          let c ← cell κ
          match m.schema.body c.type with
          | .struct _ (.listpairs _) =>
            update κ ({ · with pendingKey := .absent, phase := .pair })
            return (.inside κ .key, ⟨.pair κ, view, false⟩)
          | body =>
            let fields := body.fields?.getD []
            match fields[c.next]? with
            | none => throw (.representation (.tupleArity (m.schema.nameOf c.type) fields.length))
            | some f =>
              let type ← need (m.schema.references c.type)[c.next]?
              update κ ({ · with next := c.next + 1, phase := .slot c.next })
              return (.inside κ (.slot c.next), ⟨.value type, view, f.nullable⟩)
        | .map _ _ _ | .union => do
          settle m κ
          misused m κ .map .list) a y)
    (hs : c.shape = shape) : Agrees E R (beginItem m κ view) a y := by
  subst hs
  exact Agrees.after (runs_checkOpen hc unfinished) (Agrees.after (runs_cell hc) rest)

section Settled

variable {type : TypeId} {view : View} {member : Option Nat}

theorem openItem_agrees {elem : TypeId} {nullable : Bool} {layout : Layout}
    {slots : List (Slot Value)} (running : Running m live a) (hc : a.cells[κ]? = some c)
    (settled : c.phase = .settled)
    (h : StoresList m a ⟨type, view, member, .items elem nullable layout slots, false⟩ c) :
    let g : ListFrame := ⟨type, view, member, .items elem nullable layout slots, false⟩
    Agrees (Running m live) (OpensAs m live κ a (.list g) c .list) (do
      let c ← cell κ
      update κ Cell.withItem
      return (.inside κ (.slot c.slots.length), ⟨.value elem, view, nullable⟩)) a (g.item m) := by
  obtain ⟨same, unfinished, fills, length⟩ := h
  have longer : Lengthened c c.withItem := ⟨rfl, rfl, rfl, rfl, rfl, rfl⟩
  have free := running.sound.free_of_phase hc (settled ▸ nofun)
  have moves := longer.moves running hc free unfinished fun _ => by
    rw [Cell.Shaped, Cell.withItem, fills.shape]
    trivial
  have hc' := getElem?_store_self hc c.withItem
  have absent := (draftAt?_inside hc' _).trans longer.absent
  have fills' := fills.keep moves.keeps hc' longer.toExtends (by simp)
  have length' : c.withItem.slots.length = slots.length + 1 :=
    List.length_append.trans (congrArg (· + 1) length)
  exact .ok ((runs_cell hc).bind ((runs_update hc _).bind (runs_pure _ _)))
    ⟨moves, ⟨_, hc', rfl, ⟨same, unfinished, fills', length', congrArg CellPhase.slot length⟩,
      length ▸ .item view⟩, absent, .value .., ⟨rfl, rfl, rfl, rfl⟩⟩

theorem openPosition_agrees {fields : List (Field TypeId)} {slots : List (Slot Value)} {next : Nat}
    (running : Running m live a) (hc : a.cells[κ]? = some c) (settled : c.phase = .settled)
    (h : StoresList m a ⟨type, view, member, .tuple fields slots next, false⟩ c) :
    let g : ListFrame := ⟨type, view, member, .tuple fields slots next, false⟩
    Agrees (Running m live) (OpensAs m live κ a (.list g) c .list)
      (match fields[c.next]? with
        | none => throw (.representation (.tupleArity (m.schema.nameOf c.type) fields.length))
        | some f => do
          let type ← need (m.schema.references c.type)[c.next]?
          update κ ({ · with next := c.next + 1, phase := .slot c.next })
          return (.inside κ (.slot c.next), ⟨.value type, view, f.nullable⟩)) a (g.item m) := by
  obtain ⟨same, unfinished, absent, fills, last⟩ := h
  subst last
  obtain rfl : c.type = type := same
  cases hf : fields[c.next]? with
  | none =>
    simp only [ListFrame.item, hf]
    exact .error (runs_throw _ _) running
  | some f =>
    obtain ⟨reference, typed⟩ := fills.slotType?_eq hf
    obtain ⟨s, d, hs, hd, same⟩ := fills.exists_draft (running.shaped hc unfinished) hf
    have unfilled := absent hs (Nat.le_refl _)
    obtain rfl : d = .absent := eq_absent_of_isAbsent (same.trans unfilled)
    have moves : Moves m live κ a
        (a.store κ { c with next := c.next + 1, phase := .slot c.next }) :=
      running.rephase hc (running.sound.free_of_phase hc (settled ▸ nofun)) unfinished (.inl rfl)
        (by rintro _ ⟨⟩; exact (List.getElem?_eq_some_iff.mp hd).1) (by simp) (c.next + 1)
    have hc' := getElem?_store_self hc { c with next := c.next + 1, phase := .slot c.next }
    have fills' := fills.keep moves.keeps hc' (extends_rephase ..) (by simp)
    simp only [ListFrame.item, hf]
    exact .ok ((runs_need reference a).bind ((runs_update hc _).bind (runs_pure _ _)))
      ⟨moves, ⟨_, hc', rfl,
        ⟨rfl, unfinished, absent, fills'.opening hs unfilled, rfl, rfl⟩,
        .tuple view f.nullable typed⟩,
        (draftAt?_inside hc' _).trans hd, .value .., ⟨rfl, rfl, rfl, rfl⟩⟩

theorem openPair_agrees {keys : Renaming} {fields : List (Field TypeId)}
    {slots : List (Slot Value)} (running : Running m live a) (hc : a.cells[κ]? = some c)
    (settled : c.phase = .settled)
    (h : StoresList m a ⟨type, view, member, .pairs keys fields slots, false⟩ c) :
    let g : ListFrame := ⟨type, view, member, .pairs keys fields slots, false⟩
    Agrees (Running m live) (OpensAs m live κ a (.list g) c .list) (do
      update κ ({ · with pendingKey := .absent, phase := .pair })
      return (.inside κ .key, ⟨.pair κ, view, false⟩)) a (g.item m) := by
  obtain ⟨same, unfinished, represented, fills⟩ := h
  obtain rfl : view = .representation := represented
  have fills : FillsStruct m a c fields (.listpairs keys) none slots := fills
  have moves : Moves m live κ a (a.store κ { c with pendingKey := .absent, phase := .pair }) :=
    running.rephase hc (running.sound.free_of_phase hc (settled ▸ nofun)) unfinished (.inr rfl)
      (by simp) (by simp) c.next
  have hc' := getElem?_store_self hc { c with pendingKey := .absent, phase := .pair }
  have fills' := fills.keep moves.keeps hc' (extends_rephase ..) (by simp)
  exact .ok ((runs_update hc _).bind (runs_pure _ _))
    ⟨moves, ⟨_, hc', rfl, ⟨same, unfinished, rfl, fills.shape, fills.body, rfl⟩, .pair _⟩,
      draftAt?_inside hc' .key, .pair false hc' rfl unfinished same fills', ⟨rfl, rfl, rfl, rfl⟩⟩

end Settled

/-- **The next item is opened as in a frame**, if it is not one of a pair. -/
theorem beginItem_agrees (running : Running m live a) (hc : a.cells[κ]? = some c)
    (h : StoresList m a g c) (single : ∀ owner, c.shape ≠ .pair owner)
    (quiet : Quiet m a κ (.list g) c) :
    Agrees (Running m live) (OpensAs m live κ a (.list g) c .list) (beginItem m κ g.view) a
      (g.item m) := by
  have settled := h.settle_agrees running hc single quiet
  obtain ⟨type, view, member, content, busy⟩ := g
  obtain ⟨-, unfinished, fills⟩ := h
  cases content with
  | items elem nullable layout slots =>
    refine .beginItem hc unfinished ?_ fills.1.shape
    refine settled.bind fun _ _ a₁ settled => ?_
    obtain ⟨moves, c₁, hc₁, phase₁, shape₁, idle, h₁⟩ := settled
    obtain rfl : busy = false := idle
    exact (openItem_agrees moves.running hc₁ phase₁ h₁).mono fun _ _ _ => .of_moves moves shape₁
  | tuple fields slots next =>
    refine .beginItem hc unfinished ?_ (FillsItems.tuple_struct fills).1
    refine settled.bind fun _ _ a₁ settled => ?_
    obtain ⟨moves, c₁, hc₁, phase₁, shape₁, idle, h₁⟩ := settled
    obtain rfl : busy = false := idle
    refine Agrees.after (runs_cell hc₁) ?_
    rw [(FillsItems.tuple_struct h₁.content).2]
    exact (openPosition_agrees moves.running hc₁ phase₁ h₁).mono fun _ _ _ => .of_moves moves shape₁
  | pairs keys fields slots =>
    refine .beginItem hc unfinished ?_ (FillsItems.pairs_struct fills).1
    refine settled.bind fun _ _ a₁ settled => ?_
    obtain ⟨moves, c₁, hc₁, phase₁, shape₁, idle, h₁⟩ := settled
    obtain rfl : busy = false := idle
    refine Agrees.after (runs_cell hc₁) ?_
    rw [(FillsItems.pairs_struct h₁.content).2]
    exact (openPair_agrees moves.running hc₁ phase₁ h₁).mono fun _ _ _ => .of_moves moves shape₁
  | pair keys fields slots stage =>
    obtain ⟨-, owner, shape, -⟩ := fills
    exact absurd shape (single owner)

end Lists

/-! ## Pairs -/

/-- The pair in a cell fills the struct in another cell. -/
structure PairFor (m : Model) (a : Arena) (κ owner : CellId) (o : Cell) (g : ListFrame)
    (keys : Renaming) (fields : List (Field TypeId)) (slots : List (Slot Value))
    (stage : PairStage) : Prop where
  content : g.content = .pair keys fields slots stage
  ho : a.cells[owner]? = some o
  pending : o.pendingKey = .cell κ
  phase : o.phase = .pair
  unfinished : o.finished = false
  same : o.type = g.type
  fills : FillsOwner m a o keys fields slots stage

section Pairs

variable {g : ListFrame} {keys : Renaming} {fields : List (Field TypeId)}
  {slots : List (Slot Value)} {stage : PairStage}

theorem PairFor.lt (h : PairFor m a κ owner o g keys fields slots stage) (sound : a.Sound m) :
    owner < κ := by
  refine sound.forest.later (s := .key) ((refersTo_of_cell h.ho).mpr ?_)
  rw [Cell.RefersTo, Cell.draftAt?, h.pending]
  rfl

theorem PairFor.keep (h : PairFor m a κ owner o g keys fields slots stage) (keeps : Keeps m a a')
    (ho : a'.cells[owner]? = some o) : PairFor m a' κ owner o g keys fields slots stage :=
  ⟨h.content, ho, h.pending, h.phase, h.unfinished, h.same,
    FillsStruct.keep h.fills keeps ho (.refl o) nofun⟩

/-- A step has opened a place for a pair. -/
def OpensPair (m : Model) (live : List CellId) (κ : CellId) (a : Arena) (g : ListFrame) (c : Cell)
    (owner : CellId) (o : Cell) (keys : Renaming) (fields : List (Field TypeId))
    (slots : List (Slot Value)) (r : Place × PlaceSpec) (w : ListFrame × Opening) (a' : Arena) :
    Prop :=
  OpensAs m live κ a (.list g) c .list r w a' ∧
    ∃ stage, PairFor m a' κ owner o w.1 keys fields slots stage

theorem text?_of_incomplete {d : Draft} (h : a.complete? d = some false) : d.text? = none := by
  cases d with
  | ready v => exact nomatch h
  | absent | null | cell id | member i inner => rfl

/-- The phase of the owner of a pair is set back. -/
theorem runs_restore (ho : a.cells[owner]? = some o) (phase : o.phase = .pair) (p : CellPhase) :
    Runs (update owner ({ · with phase := .pair })) (a.store owner { o with phase := p }) (.ok ())
      a := by
  have restored :
      (a.store owner { o with phase := p }).store owner { o with phase := .pair } = a := by
    rw [store_store, ← phase]
    exact store_self ho
  have run : Runs (update owner ({ · with phase := .pair })) (a.store owner { o with phase := p })
      (.ok ()) ((a.store owner { o with phase := p }).store owner { o with phase := .pair }) :=
    runs_update (getElem?_store_self ho _) _
  rwa [restored] at run

theorem Running.moves_pairSlot (running : Running m live a) (hc : a.cells[κ]? = some c)
    (free : Free a κ) (unfinished : c.finished = false) (ne : owner ≠ κ)
    (ho : a.cells[owner]? = some o) {i : Nat} (owns : o.Owns κ i) :
    Moves m live κ a
      (a.store κ { c with next := 2, pendingKey := .absent, phase := .pairSlot owner i }) where
  running := {
    sound := running.sound.store (n := none) hc {
      refers := by
        intro s id hs
        cases s with
        | key => exact nomatch hs
        | slot j => exact .inl hs
      fresh := nofun
      shaped := id
      finished := id
      settled := fun finished => nomatch unfinished.symm.trans finished
      slot := nofun
      pairSlot := by
        rintro _ _ ⟨⟩
        exact ⟨ne, o, ho, owns⟩
      owned := fun hd phase => absurd phase (free _ _ _ hd) }
    underway := by
      intro id mem
      rw [getElem?_store hc]
      split
      · exact ⟨_, rfl, unfinished⟩
      · exact running.underway id mem }
  spares := .store hc unfinished
  root := rfl
  stage := rfl

section Stage

variable {member : Option Nat} {busy : Bool}

theorem openPairKey_agrees (running : Running m live a) (hc : a.cells[κ]? = some c)
    (h : StoresList m a ⟨o.type, .representation, member, .pair keys fields slots .empty, busy⟩ c)
    (shape : c.shape = .pair owner)
    (pair : PairFor m a κ owner o
      ⟨o.type, .representation, member, .pair keys fields slots .empty, busy⟩ keys fields slots
      .empty) :
    let g : ListFrame :=
      ⟨o.type, .representation, member, .pair keys fields slots .empty, busy⟩
    Agrees (Running m live) (OpensPair m live κ a g c owner o keys fields slots)
      (beginPairItem m κ owner .representation) a (g.item m) := by
  have ne : owner ≠ κ := Nat.ne_of_lt (pair.lt running.sound)
  obtain ⟨same, unfinished, -, owner', shape', next, phase⟩ := h
  obtain rfl : owner' = owner := CellShape.pair.inj (shape'.symm.trans shape)
  refine Agrees.after (runs_cell pair.ho) (Agrees.after (runs_cell hc) ?_)
  rw [next]
  have moves : Moves m live κ a
      (a.store κ { c with next := 1, pendingKey := .absent, phase := .key }) :=
    running.rephase hc (running.sound.free_of_phase hc (by rw [phase]; nofun)) unfinished
      (.inr rfl) (by nofun) (by nofun) 1
  have hc' := getElem?_store_self hc { c with next := 1, pendingKey := .absent, phase := .key }
  have pair' := pair.keep moves.keeps ((getElem?_store_of_ne ne).trans pair.ho)
  exact .ok ((runs_update hc _).bind (runs_pure _ _))
    ⟨⟨moves, ⟨_, hc', rfl, ⟨same, unfinished, rfl, owner', shape, rfl, rfl⟩,
      .pairName .representation⟩,
      draftAt?_inside hc' .key, .name _ _ rfl, ⟨rfl, rfl, rfl, rfl⟩⟩,
      .key, rfl, pair'.ho, pair'.pending, pair'.phase, pair'.unfinished, rfl, pair'.fills⟩

/-- A pair with a key opens the field that the key stands for. -/
theorem openPairValue_agrees {k : String} (running : Running m live a) (hc : a.cells[κ]? = some c)
    (h : StoresList m a
      ⟨o.type, .representation, member, .pair keys fields slots (.keyed k), busy⟩ c)
    (shape : c.shape = .pair owner)
    (pair : PairFor m a κ owner o
      ⟨o.type, .representation, member, .pair keys fields slots (.keyed k), busy⟩ keys fields slots
      (.keyed k)) :
    let g : ListFrame :=
      ⟨o.type, .representation, member, .pair keys fields slots (.keyed k), busy⟩
    Agrees (Running m live) (OpensPair m live κ a g c owner o keys fields slots)
      (beginPairItem m κ owner .representation) a (g.item m) := by
  have ne : owner ≠ κ := Nat.ne_of_lt (pair.lt running.sound)
  obtain ⟨same, unfinished, -, owner', shape', next, phase, pending⟩ := h
  obtain rfl : owner' = owner := CellShape.pair.inj (shape'.symm.trans shape)
  refine Agrees.after (runs_cell pair.ho) (Agrees.after (runs_cell hc) ?_)
  rw [next, pending]
  have free := running.sound.free_of_phase hc (by rw [phase]; nofun)
  have moves : Moves m live κ a (a.store κ { c with next := 2, pendingKey := .absent }) :=
    running.rephase hc free unfinished (.inr rfl) (by rw [phase]; nofun) (by rw [phase]; nofun) 2
  have hc₁ := getElem?_store_self hc { c with next := 2, pendingKey := .absent }
  have pair₁ := pair.keep moves.keeps ((getElem?_store_of_ne ne).trans pair.ho)
  refine Agrees.after (runs_update hc _) ?_
  have shaped := moves.running.shaped pair₁.ho pair₁.unfinished
  have opens := openField_agrees pair₁.ho shaped pair₁.fills .representation k
  refine (opens.of_unchanged moves.running).bind ?_
  rintro ⟨p, spec⟩ ⟨i, w⟩ _
    ⟨⟨rfl, absent, ⟨target, view', nullable, typed, rfl, rfl⟩, rfl⟩, s, hs, unfilled⟩
  have marked : Runs (update κ ({ · with phase := .pairSlot owner' i }))
      (a.store κ { c with next := 2, pendingKey := .absent }) (.ok ())
      ((a.store κ { c with next := 2, pendingKey := .absent }).store κ
        { c with next := 2, pendingKey := .absent, phase := .pairSlot owner' i }) :=
    runs_update hc₁ _
  rw [store_store] at marked
  have owns : o.Owns κ i := ⟨pair.unfinished, pair.phase, by rw [pair.pending]; rfl,
    (List.getElem?_eq_some_iff.mp absent).1⟩
  have moves₂ := running.moves_pairSlot hc free unfinished ne pair.ho owns
  have hc₂ := getElem?_store_self hc
    { c with next := 2, pendingKey := .absent, phase := .pairSlot owner' i }
  have pair₂ := pair.keep moves₂.keeps ((getElem?_store_of_ne ne).trans pair.ho)
  refine .ok ((runs_restore pair₁.ho pair₁.phase _).bind (marked.bind (runs_pure _ _)))
    ⟨⟨moves₂, ⟨_, hc₂, rfl, ⟨same, unfinished, rfl, owner', shape, rfl, rfl⟩,
      .pairSlot view' nullable shape ?_⟩, (draftAt?_inside pair₂.ho _).trans absent, .value ..,
      ⟨rfl, rfl, rfl, rfl⟩⟩,
      .value i, rfl, pair₂.ho, pair₂.pending, pair₂.phase, pair₂.unfinished, rfl,
      FillsStruct.opening pair₂.fills hs unfilled⟩
  rw [Cell.slotType?, pair₁.fills.shape] at typed
  exact typed

end Stage

/-- **The next item of a pair is opened as in a frame**: a key, and then the field of the owner that
it stands for. -/
theorem beginPairItem_agrees (running : Running m live a) (hc : a.cells[κ]? = some c)
    (h : StoresList m a g c) (quiet : Quiet m a κ (.list g) c) (shape : c.shape = .pair owner)
    (pair : PairFor m a κ owner o g keys fields slots stage) :
    Agrees (Running m live) (OpensPair m live κ a g c owner o keys fields slots)
      (beginItem m κ g.view) a (g.item m) := by
  obtain ⟨type, view, member, content, busy⟩ := g
  obtain rfl : content = _ := pair.content
  obtain rfl : view = .representation := h.content.1
  obtain rfl : o.type = type := pair.same
  obtain ⟨owner', shape', atStage⟩ := h.content.2
  obtain rfl : owner' = owner := CellShape.pair.inj (shape'.symm.trans shape)
  refine .beginItem hc h.unfinished ?_ shape
  cases stage with
  | empty => exact openPairKey_agrees running hc h shape pair
  | keyed k => exact openPairValue_agrees running hc h shape pair
  | key =>
    obtain ⟨next, phase⟩ := atStage
    obtain ⟨d, hd, incomplete⟩ := quiet.incomplete (.pairName .representation)
    rw [draftAt?_inside hc] at hd
    cases hd
    refine Agrees.after (runs_cell pair.ho) (Agrees.after (runs_cell hc) ?_)
    rw [next, text?_of_incomplete incomplete]
    have moves : Moves m live κ a (a.store κ { c with next := 2, pendingKey := .absent }) :=
      running.rephase hc (running.sound.free_of_phase hc (by rw [phase]; nofun)) h.unfinished
        (.inr rfl) (by rw [phase]; nofun) (by rw [phase]; nofun) 2
    exact .error ((runs_update hc _).bind (runs_throw _ _)) moves.running
  | value i =>
    refine Agrees.after (runs_cell pair.ho) (Agrees.after (runs_cell hc) ?_)
    rw [atStage.1]
    exact .error (runs_throw _ a) running
  | full i given =>
    refine Agrees.after (runs_cell pair.ho) (Agrees.after (runs_cell hc) ?_)
    rw [atStage.1]
    exact .error (runs_throw _ a) running

end Pairs

end Arena

end DualView
