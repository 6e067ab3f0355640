import DualView.Assembly.FlatBuilder
import DualView.Proofs.Assembly.CopyCalls

/-!
# Trees call by call

Whole trees are copied and filled in by the same steps, but for those that open the value of an
entry: a copy assembles the key in an opening of its own, where the other way gives it as text.
`Opening.assemble` has these steps as a parameter.

* `Opening.fill_eq_assemble`, `Opening.copy_eq_assemble`: both ways to fill an opening with a tree.
* `Opening.assemble_value`: what fills an opening for a value that is not null is a value.
* `Builder.calls_bearOut`: the calls for a tree do what assembling it does to the opening.
-/

namespace DualView

/-! ## Assembling trees -/

namespace Opening

variable (m : Model) (enter : MapFrame → String → Except NodeError (MapFrame × Opening))

mutual

/-- Fill an opening with a data tree, where `enter` opens the value of an entry. -/
def assemble (o : Opening) : Datum → Except NodeError Piece
  | .null => o.null m.schema
  | .scalar a => o.scalar m a
  | .list items => do
    let f ← assembleItems (← o.openList m) items
    f.close m
  | .map entries => do
    let f ← assembleEntries (← o.openMap m) entries
    f.close m

def assembleItems (f : ListFrame) : List Datum → Except NodeError ListFrame
  | [] => .ok f
  | d :: rest => do
    let (f, o) ← f.item m
    assembleItems (f.place (← assemble o d)) rest

def assembleEntries (f : MapFrame) : List (String × Datum) → Except NodeError MapFrame
  | [] => .ok f
  | (key, d) :: rest => do
    let (f, o) ← enter f key
    assembleEntries (f.place (← assemble o d)) rest

end

variable {m enter}

mutual

/-- **To fill in a tree is to assemble it with keys as text.** -/
theorem fill_eq_assemble : (d : Datum) → ∀ o : Opening,
    o.fill m d = o.assemble m (fun f key => f.entry m key) d
  | .null, o => by rw [fill, assemble]
  | .scalar a, o => by rw [fill, assemble]
  | .list items, o => by simp only [fill, assemble, fillItems_eq_assemble items]
  | .map entries, o => by simp only [fill, assemble, fillEntries_eq_assemble entries]

theorem fillItems_eq_assemble : (items : List Datum) → ∀ f : ListFrame,
    fillItems m f items = assembleItems m (fun f key => f.entry m key) f items
  | [], f => by rw [fillItems, assembleItems]
  | d :: rest, f => by
    simp only [fillItems, assembleItems, fill_eq_assemble d, fillItems_eq_assemble rest]

theorem fillEntries_eq_assemble : (entries : List (String × Datum)) → ∀ f : MapFrame,
    fillEntries m f entries = assembleEntries m (fun f key => f.entry m key) f entries
  | [], f => by rw [fillEntries, assembleEntries]
  | (key, d) :: rest, f => by
    simp only [fillEntries, assembleEntries, fill_eq_assemble d, fillEntries_eq_assemble rest]

end

/-- Open the value of an entry after its key, which is assembled in an opening of its own. -/
def enterKey (m : Model) (f : MapFrame) (key : String) : Except NodeError (MapFrame × Opening) := do
  let (f, o) ← f.key m
  (f.place (← o.scalar m (.string key))).value m

mutual

/-- **To copy a tree is to assemble it with keys in openings of their own.** -/
theorem copy_eq_assemble : (d : Datum) → ∀ o : Opening,
    o.copy m d.tree = o.assemble m (enterKey m) d
  | .null, o => by rw [Datum.tree_null, copy, assemble]
  | .scalar a, o => by rw [Datum.tree_scalar, copy, assemble]
  | .list items, o => by
    simp only [Datum.tree_list, copy, assemble, copyItems_eq_assemble items]
  | .map entries, o => by
    simp only [Datum.tree_map, copy, assemble, copyEntries_eq_assemble entries]

theorem copyItems_eq_assemble : (items : List Datum) → ∀ f : ListFrame,
    copyItems m f (items.map Datum.tree) = assembleItems m (enterKey m) f items
  | [], f => by rw [List.map_nil, copyItems, assembleItems]
  | d :: rest, f => by
    simp only [List.map_cons, copyItems, assembleItems, copy_eq_assemble d,
      copyItems_eq_assemble rest]

theorem copyEntries_eq_assemble : (entries : List (String × Datum)) → ∀ f : MapFrame,
    copyEntries m f (entries.map Datum.entryTree) = assembleEntries m (enterKey m) f entries
  | [], f => by rw [List.map_nil, copyEntries, assembleEntries]
  | (key, d) :: rest, f => by
    simp only [List.map_cons, Datum.entryTree, copyEntries, assembleEntries, enterKey, copy,
      copy_eq_assemble d, copyEntries_eq_assemble rest, bind_assoc]

end

end Opening

/-! ## Pieces that are values -/

/-- The items are those of a pair. -/
def ListContent.isPair : ListContent → Bool
  | .pair _ _ _ _ => true
  | .items _ _ _ _ | .tuple _ _ _ | .pairs _ _ _ => false

namespace ListFrame

variable {m : Model} {f f' : ListFrame} {o : Opening} {piece : Piece}

theorem isPair_item (h : f.item m = .ok (f', o)) : f'.content.isPair = f.content.isPair := by
  obtain ⟨type, view, member, content, busy⟩ := f
  cases content with
  | items elem nullable layout slots =>
    obtain ⟨⟨⟩, -, h⟩ := bind_eq_ok_iff.mp h
    cases h
    rfl
  | tuple fields slots next =>
    obtain ⟨⟨⟩, -, h⟩ := bind_eq_ok_iff.mp h
    dsimp only at h
    split at h
    · cases h
      rfl
    · contradiction
  | pairs keys fields slots =>
    obtain ⟨⟨⟩, -, h⟩ := bind_eq_ok_iff.mp h
    cases h
    rfl
  | pair keys fields slots stage =>
    cases stage with
    | empty =>
      cases h
      rfl
    | keyed key =>
      obtain ⟨⟨i, o⟩, -, h⟩ := bind_eq_ok_iff.mp h
      cases h
      rfl
    | key | value | full => exact nomatch h

theorem isPair_place (f : ListFrame) (piece : Piece) :
    (f.place piece).content.isPair = f.content.isPair := by
  obtain ⟨type, view, member, content, busy⟩ := f
  cases content with
  | items elem nullable layout slots | tuple fields slots next | pairs keys fields slots =>
    cases piece <;> rfl
  | pair keys fields slots stage =>
    rw [place.eq_def]
    split <;> first | rfl | contradiction

theorem close_value (h : f.close m = .ok piece) (single : f.content.isPair = false) :
    ∃ v, piece = .content (some v) := by
  obtain ⟨type, view, member, content, busy⟩ := f
  cases content with
  | items elem nullable layout slots =>
    obtain ⟨⟨⟩, -, h⟩ := bind_eq_ok_iff.mp h
    cases h
    exact ⟨_, rfl⟩
  | tuple fields slots next | pairs keys fields slots =>
    obtain ⟨⟨⟩, -, h⟩ := bind_eq_ok_iff.mp h
    exact ⟨_, (struct_eq_ok_iff.mp h).2⟩
  | pair keys fields slots stage => exact nomatch single

end ListFrame

namespace Opening

variable {m : Model} {enter : MapFrame → String → Except NodeError (MapFrame × Opening)}

theorem isPair_assembleItems {items : List Datum} {f f' : ListFrame}
    (h : assembleItems m enter f items = .ok f') : f'.content.isPair = f.content.isPair := by
  induction items generalizing f with
  | nil =>
    cases h
    rfl
  | cons d rest ih =>
    obtain ⟨⟨f₁, o⟩, item, h⟩ := bind_eq_ok_iff.mp h
    obtain ⟨piece, -, h⟩ := bind_eq_ok_iff.mp h
    rw [ih h, ListFrame.isPair_place, ListFrame.isPair_item item]

/-- **What fills an opening for a value that is not null is a value.** -/
theorem assemble_value {type : TypeId} {view : View} {d : Datum} {piece : Piece}
    (h : assemble m enter ⟨.value type, view, false⟩ d = .ok piece) :
    ∃ v, piece = .content (some v) := by
  cases d with
  | null => exact nomatch h
  | scalar a =>
    obtain ⟨v, -, rfl⟩ := map_eq_ok_iff.mp h
    exact ⟨v, rfl⟩
  | list items =>
    obtain ⟨f, begun, h⟩ := bind_eq_ok_iff.mp h
    obtain ⟨f', added, closed⟩ := bind_eq_ok_iff.mp h
    obtain ⟨member, target, content, -, hcontent, rfl⟩ := openList_eq_ok_iff.mp begun
    refine ListFrame.close_value closed ((isPair_assembleItems added).trans ?_)
    have plain := (listContent?_sound hcontent).2
    cases content with
    | pair keys fields slots stage => exact absurd rfl (plain keys fields slots stage)
    | items | tuple | pairs => rfl
  | map entries =>
    obtain ⟨f, -, h⟩ := bind_eq_ok_iff.mp h
    obtain ⟨f', -, closed⟩ := bind_eq_ok_iff.mp h
    obtain ⟨⟨⟩, -, closed⟩ := bind_eq_ok_iff.mp closed
    obtain ⟨v, -, closed⟩ := bind_eq_ok_iff.mp closed
    cases closed
    exact ⟨_, rfl⟩

end Opening

/-! ## Calls for trees -/

namespace Builder

variable {α β : Type} {p : Prototype} {q : Progress} {handles outer : List Handle} {o : Opening}
  {enter : MapFrame → String → Except NodeError (MapFrame × Opening)}
  {keyCalls : String → List Call}

theorem andThen_assoc (r : Builder × Reply) (next later : Builder → Builder × Reply) :
    andThen (andThen r next) later = andThen r fun b => andThen (next b) later := by
  rw [andThen, andThen, andThen]
  by_cases accepted : r.2.accepted = true
  · rw [if_pos accepted, if_pos accepted]
    rfl
  · rw [if_neg accepted, if_neg accepted, if_neg accepted]

theorem forEach_append (step : Builder → α → Builder × Reply) (b : Builder) (l l' : List α) :
    b.forEach step (l ++ l') = andThen (b.forEach step l) fun b => b.forEach step l' := by
  induction l generalizing b with
  | nil => rfl
  | cons a l ih =>
    rw [List.cons_append, forEach, forEach, andThen_assoc]
    exact congrArg _ (funext fun b => ih b)

def done (after : α → Progress → Builder × Reply) (a : α) (q : Progress) : Builder × Reply :=
  ((after a q).1, .done)

theorem BearsOut.last {after : α → Progress → Builder × Reply} {x : Except NodeError α}
    {r : Builder × Reply} (h : BearsOut after x r)
    (accepted : ∀ a q, (after a q).2.accepted = true) :
    BearsOut (done after) x (Builder.andThen r fun b => (b, .done)) := by
  have later : BearsOut (done after) (x >>= pure) (Builder.andThen r fun b => (b, .done)) :=
    h.andThen accepted fun a q live => .ok a live
  rwa [bind_pure] at later

/-- The calls for a key bear out how the value of an entry is opened. -/
def OpensEntries (p : Prototype)
    (enter : MapFrame → String → Except NodeError (MapFrame × Opening))
    (keyCalls : String → List Call) : Prop :=
  ∀ (f : MapFrame) (key : String) {q : Progress} (outer : List Handle), q.Live →
    BearsOut (done (opened p .map outer)) (enter f key)
      (forEach call ⟨p, q, ⟨.map f, false⟩ :: outer, none⟩ (keyCalls key))

theorem opensEntries_entry (p : Prototype) :
    OpensEntries p (fun f key => f.entry p.model key) fun key => [.entry key] :=
  fun f key _ _ live =>
    BearsOut.last (step_bearsOut .map live (f.entry p.model key)) fun _ _ => rfl

theorem opensEntries_key (p : Prototype) :
    OpensEntries p (Opening.enterKey p.model) fun key => [.key, .scalar (.string key), .value] := by
  intro f key q outer live
  refine (key_bearsOut outer live f).andThen (fun _ _ => rfl) fun r q live => ?_
  refine (fill_bearsOut live (r.2.scalar p.model (.string key))).andThen (fun _ _ => rfl)
    fun piece q live => ?_
  exact (value_bearsOut outer live (r.1.place piece)).last fun _ _ => rfl

theorem finishCalls_bearOut (live : q.Live) (frame : Frame) :
    BearsOut (filled p outer) (frame.close p.model)
      (forEach call ⟨p, q, ⟨frame, false⟩ :: outer, none⟩ [.finish, .drop]) := by
  have left : BearsOut (filled p outer) (frame.close p.model)
      (finishAndLeave ⟨p, q, ⟨frame, false⟩ :: outer, none⟩) := finishAndLeave_bearsOut live frame
  have calls := left.last fun _ _ => rfl
  rw [finishAndLeave, andThen_assoc] at calls
  exact calls

mutual

/-- **The calls for a tree do what assembling it does to the opening.** -/
theorem calls_bearOut (entries : OpensEntries p enter keyCalls) : (d : Datum) →
    ∀ {q : Progress} {handles : List Handle} {o : Opening}, q.Live →
      BearsOut (filled p handles) (o.assemble p.model enter d)
        (forEach call ⟨p, q, handles, some o⟩ (d.calls keyCalls))
  | .null, q, handles, o, live => by
    rw [Opening.assemble]
    exact (fill_bearsOut live (o.null p.model.schema)).last fun _ _ => rfl
  | .scalar a, q, handles, o, live => by
    rw [Opening.assemble]
    exact (fill_bearsOut live (o.scalar p.model a)).last fun _ _ => rfl
  | .list items, q, handles, o, live => by
    rw [Opening.assemble]
    exact (enter_bearsOut .list live (o.openList p.model) _).andThen (fun _ _ => rfl)
      fun f q live => itemCalls_bearOut entries items f live
  | .map es, q, handles, o, live => by
    rw [Opening.assemble]
    exact (enter_bearsOut .map live (o.openMap p.model) _).andThen (fun _ _ => rfl)
      fun f q live => entryCalls_bearOut entries es f live

theorem itemCalls_bearOut (entries : OpensEntries p enter keyCalls) : (items : List Datum) →
    ∀ (f : ListFrame) {q : Progress} {outer : List Handle}, q.Live →
      BearsOut (filled p outer)
        (Opening.assembleItems p.model enter f items >>= fun f => f.close p.model)
        (forEach call ⟨p, q, ⟨.list f, false⟩ :: outer, none⟩ (Datum.itemCalls keyCalls items))
  | [], f, q, outer, live => finishCalls_bearOut live (.list f)
  | d :: rest, f, q, outer, live => by
    rw [Opening.assembleItems, bind_assoc]
    refine (item_bearsOut outer live f).andThen (fun _ _ => rfl) fun r q live => ?_
    rw [bind_assoc, forEach_append]
    exact (calls_bearOut entries d live).andThen (fun _ _ => rfl) fun piece q live =>
      itemCalls_bearOut entries rest (r.1.place piece) live

theorem entryCalls_bearOut (entries : OpensEntries p enter keyCalls) :
    (es : List (String × Datum)) →
    ∀ (f : MapFrame) {q : Progress} {outer : List Handle}, q.Live →
      BearsOut (filled p outer)
        (Opening.assembleEntries p.model enter f es >>= fun f => f.close p.model)
        (forEach call ⟨p, q, ⟨.map f, false⟩ :: outer, none⟩ (Datum.entryCalls keyCalls es))
  | [], f, q, outer, live => finishCalls_bearOut live (.map f)
  | (key, d) :: rest, f, q, outer, live => by
    rw [Opening.assembleEntries, bind_assoc, Datum.entryCalls, forEach_append]
    refine (entries f key outer live).andThen (fun _ _ => rfl) fun r q live => ?_
    rw [bind_assoc, forEach_append]
    exact (calls_bearOut entries d live).andThen (fun _ _ => rfl) fun piece q live =>
      entryCalls_bearOut entries rest (r.1.place piece) live

end

end Builder

end DualView
