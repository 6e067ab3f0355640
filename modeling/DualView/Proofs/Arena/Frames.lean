import DualView.Proofs.Arena.Fills

/-!
# Frames in an arena

A cell *stores* a frame if it fills what the frame holds and its phase is the one of the frame
(`Arena.StoresMap`, `Arena.StoresList`).  A pair stores no fields of its own: what it has filled is
in the cell of its owner (`Arena.FillsOwner`).  A frame that gave out an opening *waits* at a place
of its cell, or of the owner, for what fills it (`Arena.Waits`).

* `Arena.StoresMap.keep`, `Arena.StoresList.keep`: a frame stays stored when only the draft that it
  waits for changes.
* `Arena.StoresMap.place`, `Arena.StoresList.place`, `Arena.FillsOwner.place`: when the draft that
  it waits for holds something, the cell stores the frame in which that is placed.
* `Arena.StoresMap.closes`, `Arena.StoresList.closes`: a frame closes when nothing is lacking in its
  cell, with the value that the finished cell holds.
-/

namespace DualView

/-! ## Cells that differ in one draft -/

def Spot.index? : Spot → Option Nat
  | .key => none
  | .slot i => some i

namespace Cell

variable {m : Model} {c c' : Cell} {at? : Option Spot} {s : Spot} {d : Draft}

structure Like (c c' : Cell) (at? : Option Spot) : Prop where
  type : c'.type = c.type
  shape : c'.shape = c.shape
  length : c'.slots.length = c.slots.length
  keys : c'.keys = c.keys
  index : c'.index = c.index
  phase : c'.phase = c.phase
  next : c'.next = c.next
  finished : c'.finished = c.finished
  draftAt? : ∀ {s}, at? ≠ some s → c'.draftAt? s = c.draftAt? s

theorem like_self (c : Cell) (at? : Option Spot) : c.Like c at? :=
  ⟨rfl, rfl, rfl, rfl, rfl, rfl, rfl, rfl, fun _ => rfl⟩

theorem like_put (c : Cell) (d : Draft) (s : Spot) : c.Like (c.put d s) (some s) := by
  cases s with
  | key =>
    refine ⟨rfl, rfl, rfl, rfl, rfl, rfl, rfl, rfl, fun {s} ne => ?_⟩
    cases s with
    | key => exact absurd rfl ne
    | slot i => rfl
  | slot i =>
    refine ⟨rfl, rfl, List.length_set, rfl, rfl, rfl, rfl, rfl, fun {s} ne => ?_⟩
    cases s with
    | key => rfl
    | slot j => exact List.getElem?_set_ne fun he => ne (congrArg _ (congrArg _ he))

def closed (c : Cell) : Cell := { c with phase := .settled, finished := true }

theorem draftAt?_put_self {d' : Draft} (h : c.draftAt? s = some d') :
    (c.put d s).draftAt? s = some d := by
  cases s with
  | key => rfl
  | slot i => exact List.getElem?_set_self (List.getElem?_eq_some_iff.mp h).1

namespace Like

theorem toExtends (h : c.Like c' at?) : c.Extends c' (at?.bind Spot.index?) where
  type := h.type
  shape := h.shape
  slots := by
    intro i d ne hd
    refine (h.draftAt? (s := .slot i) fun he => ne ?_).trans hd
    rw [he]
    rfl

theorem slotType? (h : c.Like c' at?) (i : Nat) : c'.slotType? m i = c.slotType? m i :=
  h.toExtends.slotType? i

theorem pendingKey (h : c.Like c' at?) (ne : at? ≠ some .key) : c'.pendingKey = c.pendingKey :=
  Option.some.inj (h.draftAt? ne)

theorem shaped (h : c.Like c' at?) (shaped : c.Shaped m) : c'.Shaped m := by
  rw [Shaped] at shaped ⊢
  rw [h.shape, h.length, h.type, h.keys, h.index]
  exact shaped

end Like

end Cell

def MapPhase.opened? : MapPhase → Option Nat
  | .slot i => some i
  | .idle | .key | .keyed _ | .entry _ _ => none

namespace PairStage

def opened? : PairStage → Option Nat
  | .value i => some i
  | .empty | .key | .keyed _ | .full _ _ => none

def filled (slots : List (Slot Value)) : PairStage → List (Slot Value)
  | .full i given => fillSlot slots i given
  | .empty | .key | .keyed _ | .value _ => slots

end PairStage

namespace Frame

def member : Frame → Option Nat
  | map f => f.member
  | list f => f.member

def kind : Frame → Kind
  | map _ => .map
  | list _ => .list

/-- Nothing is at hand, or all that is. -/
def isIdle : Frame → Bool
  | map f =>
    match f.phase with
    | .idle => true
    | _ => false
  | list f =>
    match f.content with
    | .pair _ _ _ (.full _ _) => true
    | .pair _ _ _ _ => false
    | _ => !f.busy

/-- A frame goes on as another one, for the same compound in the same view. -/
structure Continues (f f' : Frame) : Prop where
  type : f'.type = f.type
  view : f'.view = f.view
  member : f'.member = f.member
  kind : f'.kind = f.kind

/-- To fill an opening of a frame changes what it has, and not what it is for. -/
theorem continues_place (f : Frame) (piece : Piece) : f.Continues (f.place piece) := by
  cases f with
  | map f =>
    rw [place, MapFrame.place.eq_def]
    split <;> exact ⟨rfl, rfl, rfl, rfl⟩
  | list f =>
    rw [place, ListFrame.place.eq_def]
    split <;> exact ⟨rfl, rfl, rfl, rfl⟩

end Frame

namespace Arena

variable {m : Model} {a a' : Arena} {κ owner : CellId} {c c' o : Cell} {p : Place}

/-! ## Stored frames -/

def FillsContent (m : Model) (a : Arena) (c : Cell) (opened : Option Nat) : MapContent → Prop
  | .entries key value nullable layout dict => FillsMap m a c key value nullable layout dict
  | .fields fields repr slots => FillsStruct m a c fields repr opened slots
  | .choice members repr present => FillsUnion m a c members repr opened present

def InPhase (m : Model) (a : Arena) (c : Cell) : MapContent → MapPhase → Prop
  | .entries _ _ _ _ dict, .idle => c.keys = dict.keys
  | .entries _ _ _ _ dict, .key => c.keys = dict.keys ∧ c.phase = .key
  | .entries key _ _ _ dict, .keyed k =>
    c.keys = dict.keys ∧ c.phase = .key ∧ Holds m a key c.pendingKey (.value k)
  | .entries _ _ _ _ dict, .entry k text =>
    c.keys = dict.keys ++ [(k, text)] ∧ c.phase = .slot dict.size
  | .entries _ _ _ _ _, .slot _ => False
  | _, .idle => True
  | _, .key => c.phase = .key
  | _, .keyed k => c.phase = .key ∧ c.pendingKey = .ready k
  | _, .slot i => c.phase = .slot i
  | _, .entry _ _ => False

/-- A cell stores a map frame. -/
structure StoresMap (m : Model) (a : Arena) (f : MapFrame) (c : Cell) : Prop where
  type : c.type = f.type
  unfinished : c.finished = false
  pending : c.phase = .key ∨ c.pendingKey = .absent
  content : FillsContent m a c f.phase.opened? f.content
  phase : InPhase m a c f.content f.phase

def AtStage (c : Cell) (owner : CellId) : PairStage → Prop
  | .empty => c.next = 0 ∧ c.phase = .settled
  | .key => c.next = 1 ∧ c.phase = .key
  | .keyed k => c.next = 1 ∧ c.phase = .key ∧ c.pendingKey = .ready (.scalar (.string k))
  | .value i | .full i _ => c.next = 2 ∧ c.phase = .pairSlot owner i

def AbsentFrom (slots : List (Slot Value)) (next : Nat) : Prop :=
  ∀ {i s}, slots[i]? = some s → next ≤ i → s.isAbsent = true

/-- A cell fills what a list frame holds.  While a pair is open, the cell of its owner may have more
filled than the frame. -/
def FillsItems (m : Model) (a : Arena) (c : Cell) (view : View) (busy : Bool) : ListContent → Prop
  | .items elem nullable layout slots =>
    FillsList m a c elem nullable layout slots ∧
      if busy then c.slots.length = slots.length + 1 ∧ c.phase = .slot slots.length
      else c.slots.length = slots.length
  | .tuple fields slots next =>
    AbsentFrom slots next ∧
      if busy then
        FillsStruct m a c fields .tuple (some next) slots ∧ c.next = next + 1 ∧ c.phase = .slot next
      else FillsStruct m a c fields .tuple none slots ∧ c.next = next
  | .pairs keys fields slots =>
    view = .representation ∧
      if busy then
        c.shape = .struct ∧ m.schema.body c.type = .struct fields (.listpairs keys) ∧
          c.phase = .pair
      else FillsStruct m a c fields (.listpairs keys) none slots
  | .pair _ _ _ stage =>
    view = .representation ∧ ∃ owner, c.shape = .pair owner ∧ AtStage c owner stage

/-- A cell stores a list frame. -/
structure StoresList (m : Model) (a : Arena) (f : ListFrame) (c : Cell) : Prop where
  type : c.type = f.type
  unfinished : c.finished = false
  content : FillsItems m a c f.view f.busy f.content

theorem FillsItems.tuple_struct {view : View} {busy : Bool} {fields : List (Field TypeId)}
    {slots : List (Slot Value)} {next : Nat}
    (h : FillsItems m a c view busy (.tuple fields slots next)) :
    c.shape = .struct ∧ m.schema.body c.type = .struct fields .tuple := by
  obtain ⟨-, fills⟩ := h
  cases busy with
  | true => exact ⟨fills.1.shape, fills.1.body⟩
  | false => exact ⟨fills.1.shape, fills.1.body⟩

theorem FillsItems.pairs_struct {view : View} {busy : Bool} {keys : Renaming}
    {fields : List (Field TypeId)} {slots : List (Slot Value)}
    (h : FillsItems m a c view busy (.pairs keys fields slots)) :
    c.shape = .struct ∧ m.schema.body c.type = .struct fields (.listpairs keys) := by
  obtain ⟨-, fills⟩ := h
  cases busy with
  | true => exact ⟨fills.1, fills.2.1⟩
  | false => exact ⟨FillsStruct.shape fills, FillsStruct.body fills⟩

def Stores (m : Model) (a : Arena) : Frame → Cell → Prop
  | .map f => StoresMap m a f
  | .list f => StoresList m a f

/-- The cell of its owner fills what a pair has filled. -/
def FillsOwner (m : Model) (a : Arena) (o : Cell) (keys : Renaming) (fields : List (Field TypeId))
    (slots : List (Slot Value)) (stage : PairStage) : Prop :=
  FillsStruct m a o fields (.listpairs keys) stage.opened? (stage.filled slots)

/-! ## Places that frames wait at -/

/-- A frame that is stored in a cell waits at a place for what fills an opening. -/
inductive Waits (m : Model) (κ : CellId) (c : Cell) : Frame → Place → Opening → Prop
  | key {type : TypeId} {view : View} {member : Option Nat} {key value : TypeId} {nullable : Bool}
      {layout : Layout} {dict : Dict Value} (view' : View) :
      Waits m κ c (.map ⟨type, view, member, .entries key value nullable layout dict, .key⟩)
        (.inside κ .key) ⟨.value key, view', false⟩
  | fieldName {type : TypeId} {view : View} {member : Option Nat} {fields : List (Field TypeId)}
      {repr : StructRepr} {slots : List (Slot Value)} (view' : View) :
      Waits m κ c (.map ⟨type, view, member, .fields fields repr slots, .key⟩)
        (.inside κ .key) ⟨.name type, view', false⟩
  | memberName {type : TypeId} {view : View} {member : Option Nat} {members : List TypeId}
      {repr : UnionRepr} {present : Option (Nat × Value)} (view' : View) :
      Waits m κ c (.map ⟨type, view, member, .choice members repr present, .key⟩)
        (.inside κ .key) ⟨.name type, view', false⟩
  | entry {type : TypeId} {view : View} {member : Option Nat} {key value : TypeId} {nullable : Bool}
      {layout : Layout} {dict : Dict Value} {k : Value} {text : String} (view' : View) :
      Waits m κ c
        (.map ⟨type, view, member, .entries key value nullable layout dict, .entry k text⟩)
        (.inside κ (.slot dict.size)) ⟨.value value, view', nullable⟩
  | field {type target : TypeId} {view : View} {member : Option Nat} {fields : List (Field TypeId)}
      {repr : StructRepr} {slots : List (Slot Value)} {i : Nat} (view' : View) (nullable : Bool)
      (typed : c.slotType? m i = some target) :
      Waits m κ c (.map ⟨type, view, member, .fields fields repr slots, .slot i⟩)
        (.inside κ (.slot i)) ⟨.value target, view', nullable⟩
  | member {type target : TypeId} {view : View} {member : Option Nat} {members : List TypeId}
      {repr : UnionRepr} {present : Option (Nat × Value)} {i : Nat} (view' : View)
      (typed : c.slotType? m i = some target) :
      Waits m κ c (.map ⟨type, view, member, .choice members repr present, .slot i⟩)
        (.inside κ (.slot i)) ⟨.value target, view', false⟩
  | item {type : TypeId} {view : View} {member : Option Nat} {elem : TypeId} {nullable : Bool}
      {layout : Layout} {slots : List (Slot Value)} (view' : View) :
      Waits m κ c (.list ⟨type, view, member, .items elem nullable layout slots, true⟩)
        (.inside κ (.slot slots.length)) ⟨.value elem, view', nullable⟩
  | tuple {type target : TypeId} {view : View} {member : Option Nat} {fields : List (Field TypeId)}
      {slots : List (Slot Value)} {next : Nat} (view' : View) (nullable : Bool)
      (typed : c.slotType? m next = some target) :
      Waits m κ c (.list ⟨type, view, member, .tuple fields slots next, true⟩)
        (.inside κ (.slot next)) ⟨.value target, view', nullable⟩
  | pair {type : TypeId} {view : View} {member : Option Nat} {keys : Renaming}
      {fields : List (Field TypeId)} {slots : List (Slot Value)} (view' : View) :
      Waits m κ c (.list ⟨type, view, member, .pairs keys fields slots, true⟩)
        (.inside κ .key) ⟨.pair type keys fields slots, view', false⟩
  | pairName {type : TypeId} {view : View} {member : Option Nat} {keys : Renaming}
      {fields : List (Field TypeId)} {slots : List (Slot Value)} {busy : Bool} (view' : View) :
      Waits m κ c (.list ⟨type, view, member, .pair keys fields slots .key, busy⟩)
        (.inside κ .key) ⟨.name type, view', false⟩
  | pairSlot {type target : TypeId} {view : View} {member : Option Nat} {keys : Renaming}
      {fields : List (Field TypeId)} {slots : List (Slot Value)} {busy : Bool} {i : Nat}
      {owner : CellId} (view' : View) (nullable : Bool) (shape : c.shape = .pair owner)
      (typed : (m.schema.references type)[i]? = some target) :
      Waits m κ c (.list ⟨type, view, member, .pair keys fields slots (.value i), busy⟩)
        (.inside owner (.slot i)) ⟨.value target, view', nullable⟩

namespace Waits

variable {f : Frame} {w w' : Opening} {p' : Place}

theorem unique (h : Waits m κ c f p w) (h' : Waits m κ c f p' w') : p = p' := by
  cases h with
  | pairSlot view' nullable shape typed =>
    cases h' with
    | pairSlot view' nullable shape' typed' =>
      rw [shape, CellShape.pair.injEq] at shape'
      rw [shape']
  | _ => cases h'; rfl

theorem not_isIdle (h : Waits m κ c f p w) : f.isIdle = false := by
  cases h <;> rfl

theorem of_like {at? : Option Spot} (h : Waits m κ c f p w) (like : c.Like c' at?) :
    Waits m κ c' f p w := by
  cases h with
  | key view' => exact .key view'
  | fieldName view' => exact .fieldName view'
  | memberName view' => exact .memberName view'
  | entry view' => exact .entry view'
  | field view' nullable typed => exact .field view' nullable ((like.slotType? _).trans typed)
  | member view' typed => exact .member view' ((like.slotType? _).trans typed)
  | item view' => exact .item view'
  | tuple view' nullable typed => exact .tuple view' nullable ((like.slotType? _).trans typed)
  | pair view' => exact .pair view'
  | pairName view' => exact .pairName view'
  | pairSlot view' nullable shape typed =>
    exact .pairSlot view' nullable (like.shape.trans shape) typed

end Waits

/-- A frame waits for something that is not complete, and what is at hand in an idle one is. -/
structure Quiet (m : Model) (a : Arena) (κ : CellId) (f : Frame) (c : Cell) : Prop where
  incomplete : ∀ {p w}, Waits m κ c f p w → ∃ d, a.draftAt? p = some d ∧ a.complete? d = some false
  settles : f.isIdle = true → a.settles? c = some true

/-! ## Frames stay stored -/

/-- A cell may change in a slot while it fills the content of a frame, which has nothing there. -/
def FreeAt (opened : Option Nat) (i : Nat) : MapContent → Prop
  | .entries _ _ _ _ dict => dict.size ≤ i
  | .fields _ _ _ | .choice _ _ _ => opened = some i

theorem Waits.freeAt {f : MapFrame} {w : Opening} {i : Nat}
    (h : Waits m κ c (.map f) (.inside κ s) w) (hi : s.index? = some i) :
    FreeAt f.phase.opened? i f.content := by
  cases h with
  | key view' | fieldName view' | memberName view' => exact nomatch hi
  | entry view' =>
    cases hi
    exact Nat.le_refl _
  | field view' nullable typed => exact hi
  | member view' typed => exact hi

theorem FillsContent.keep {opened : Option Nat} {content : MapContent} {at? : Option Nat}
    (h : FillsContent m a c opened content) (keeps : Keeps m a a') (hc' : a'.cells[κ]? = some c')
    (ext : c.Extends c' at?) (free : ∀ i, at? = some i → FreeAt opened i content) :
    FillsContent m a' c' opened content := by
  cases content with
  | entries key value nullable layout dict => exact FillsMap.keep h keeps hc' ext free
  | fields fields repr slots => exact FillsStruct.keep h keeps hc' ext free
  | choice members repr present => exact FillsUnion.keep h keeps hc' ext free

theorem InPhase.keep {content : MapContent} {phase : MapPhase} {at? : Option Spot}
    (h : InPhase m a c content phase) (keeps : Keeps m a a') (hc' : a'.cells[κ]? = some c')
    (like : c.Like c' at?) (pending : ∀ k, phase = .keyed k → at? ≠ some .key) :
    InPhase m a' c' content phase := by
  cases content with
  | entries key value nullable layout dict =>
    cases phase with
    | idle => exact like.keys.trans h
    | key => exact ⟨like.keys.trans h.1, like.phase.trans h.2⟩
    | keyed k =>
      have same := like.pendingKey (pending k rfl)
      refine ⟨like.keys.trans h.1, like.phase.trans h.2.1, ?_⟩
      rw [same]
      refine keeps _ _ _ h.2.2 fun id he => ⟨.inside κ .key, ?_⟩
      rw [refersTo_of_cell hc', Cell.RefersTo, Cell.draftAt?, same]
      exact he
    | entry k text => exact ⟨like.keys.trans h.1, like.phase.trans h.2⟩
    | slot i => exact h
  | fields _ _ _ | choice _ _ _ =>
    cases phase with
    | idle => trivial
    | key | slot i => exact like.phase.trans h
    | keyed k => exact ⟨like.phase.trans h.1, (like.pendingKey (pending k rfl)).trans h.2⟩
    | entry k text => exact h

theorem StoresMap.phase_of_waits {f : MapFrame} {w : Opening} (h : StoresMap m a f c)
    (waits : Waits m κ c (.map f) (.inside κ .key) w) : c.phase = .key := by
  have phase := h.phase
  cases waits with
  | key view' => exact phase.2
  | fieldName view' | memberName view' => exact phase

/-- **A map frame stays stored when only the draft that it waits for changes.** -/
theorem StoresMap.keep {f : MapFrame} {at? : Option Spot} (h : StoresMap m a f c)
    (keeps : Keeps m a a') (hc' : a'.cells[κ]? = some c') (like : c.Like c' at?)
    (free : ∀ s, at? = some s → ∃ w, Waits m κ c (.map f) (.inside κ s) w) :
    StoresMap m a' f c' where
  type := like.type.trans h.type
  unfinished := like.finished.trans h.unfinished
  pending := by
    by_cases opened : at? = some .key
    · obtain ⟨w, waits⟩ := free _ opened
      exact .inl (like.phase.trans (h.phase_of_waits waits))
    · rw [like.phase, like.pendingKey opened]
      exact h.pending
  content := by
    refine h.content.keep keeps hc' like.toExtends fun i he => ?_
    obtain ⟨s, hs, hi⟩ := Option.bind_eq_some_iff.mp he
    obtain ⟨w, waits⟩ := free s hs
    exact waits.freeAt hi
  phase := by
    refine h.phase.keep keeps hc' like fun k keyed he => ?_
    obtain ⟨type, view, member, content, phase⟩ := f
    obtain rfl : phase = .keyed k := keyed
    obtain ⟨w, waits⟩ := free _ he
    cases waits

/-- A pair of the struct that a list frame assembles is open. -/
def AwaitsPair (f : ListFrame) : Prop :=
  f.busy = true ∧ ∃ keys fields slots, f.content = .pairs keys fields slots

theorem AtStage.keep {stage : PairStage} {at? : Option Spot} (h : AtStage c owner stage)
    (like : c.Like c' at?) (pending : ∀ k, stage = .keyed k → at? ≠ some .key) :
    AtStage c' owner stage := by
  cases stage with
  | keyed k =>
    exact ⟨like.next.trans h.1, like.phase.trans h.2.1,
      (like.pendingKey (pending k rfl)).trans h.2.2⟩
  | empty | key | value i | full i given => exact ⟨like.next.trans h.1, like.phase.trans h.2⟩

/-- **A list frame stays stored when only the draft that it waits for changes**, and while a pair is
open, when any draft does. -/
theorem StoresList.keep {f : ListFrame} {at? : Option Spot} (h : StoresList m a f c)
    (keeps : Keeps m a a') (hc' : a'.cells[κ]? = some c') (like : c.Like c' at?)
    (free : ∀ s, at? = some s → AwaitsPair f ∨ ∃ w, Waits m κ c (.list f) (.inside κ s) w) :
    StoresList m a' f c' where
  type := like.type.trans h.type
  unfinished := like.finished.trans h.unfinished
  content := by
    have fills := h.content
    obtain ⟨type, view, member, content, busy⟩ := f
    cases content with
    | items elem nullable layout slots =>
      refine ⟨fills.1.keep keeps hc' like.toExtends fun i he => ?_, ?_⟩
      · obtain ⟨s, hs, hi⟩ := Option.bind_eq_some_iff.mp he
        rcases free s hs with ⟨-, keys, fields, slots, e⟩ | ⟨w, waits⟩
        · exact nomatch e
        · cases waits
          cases hi
          exact Nat.le_refl _
      · rw [like.length, like.phase]
        exact fills.2
    | tuple fields slots next =>
      have apart : ∀ i, at?.bind Spot.index? = some i → busy = true ∧ next = i := by
        intro i he
        obtain ⟨s, hs, hi⟩ := Option.bind_eq_some_iff.mp he
        rcases free s hs with ⟨-, keys, fields, slots, e⟩ | ⟨w, waits⟩
        · exact nomatch e
        · cases waits
          cases hi
          exact ⟨rfl, rfl⟩
      cases busy with
      | true =>
        obtain ⟨absent, fills, next, phase⟩ := fills
        refine ⟨absent, fills.keep keeps hc' like.toExtends fun i he => ?_, like.next.trans next,
          like.phase.trans phase⟩
        rw [(apart i he).2]
      | false =>
        obtain ⟨absent, fills, next⟩ := fills
        refine ⟨absent, fills.keep keeps hc' like.toExtends fun i he => ?_, like.next.trans next⟩
        exact nomatch (apart i he).1
    | pairs keys fields slots =>
      cases busy with
      | true =>
        obtain ⟨view, shape, body, phase⟩ := fills
        exact ⟨view, like.shape.trans shape, like.type ▸ body, like.phase.trans phase⟩
      | false =>
        obtain ⟨view, fills⟩ := fills
        refine ⟨view, FillsStruct.keep fills keeps hc' like.toExtends fun i he => ?_⟩
        obtain ⟨s, hs, -⟩ := Option.bind_eq_some_iff.mp he
        rcases free s hs with ⟨e, -⟩ | ⟨w, waits⟩
        · exact nomatch e
        · cases waits
    | pair keys fields slots stage =>
      obtain ⟨view, owner, shape, atStage⟩ := fills
      refine ⟨view, owner, like.shape.trans shape, atStage.keep like fun k keyed he => ?_⟩
      obtain rfl : stage = .keyed k := keyed
      rcases free _ he with ⟨-, keys, fields, slots, e⟩ | ⟨w, waits⟩
      · exact nomatch e
      · cases waits

/-! ## Placing -/

/-- A draft holds the piece that fills an opening. -/
inductive Given (m : Model) (a : Arena) : Opening → Draft → Piece → Prop
  | value {type : TypeId} {view : View} {nullable : Bool} {d : Draft} {given : Option Value}
      (held : Holds m a type d (.given given)) (null : given = none → nullable = true) :
      Given m a ⟨.value type, view, nullable⟩ d (.content given)
  | name {owner : TypeId} {view : View} {nullable : Bool} (text : String) :
      Given m a ⟨.name owner, view, nullable⟩ (.ready (.scalar (.string text)))
        (.content (some (.scalar (.string text))))

theorem draftAt?_inside (hc : a.cells[κ]? = some c) (s : Spot) :
    a.draftAt? (.inside κ s) = c.draftAt? s := by
  rw [draftAt?, hc]
  rfl

theorem Holds.complete_given {type : TypeId} {d : Draft} {given : Option Value}
    (h : Holds m a type d (.given given)) : a.complete? d = some true := by
  rw [h.complete?_eq, given_isAbsent]
  rfl

/-- A frame that waits for nothing and is not idle is quiet. -/
theorem quiet_of_not_waits {f : Frame} (waits : ∀ {p w}, ¬ Waits m κ c f p w)
    (idle : f.isIdle = true → a.settles? c = some true) : Quiet m a κ f c :=
  ⟨fun h => absurd h waits, idle⟩

theorem settles?_pairSlot {i : Nat} {d : Draft} {b : Bool} (phase : c.phase = .pairSlot owner i)
    (hd : a.draftAt? (.inside owner (.slot i)) = some d) (complete : a.complete? d = some b) :
    a.settles? c = some b := by
  rw [settles?, phase]
  dsimp only
  rw [hd]
  exact complete

theorem settles?_slot {i : Nat} {d : Draft} {b : Bool} (phase : c.phase = .slot i)
    (hd : c.slots[i]? = some d) (complete : a.complete? d = some b) : a.settles? c = some b := by
  rw [settles?, phase]
  dsimp only
  rw [hd]
  exact complete

/-- **When the draft that a map frame waits for holds something, its cell stores the frame in which
that is placed.** -/
theorem StoresMap.place {f : MapFrame} {w : Opening} {d : Draft} {piece : Piece}
    (h : StoresMap m a f c) (hc : a.cells[κ]? = some c) (shaped : c.Shaped m)
    (waits : Waits m κ c (.map f) p w) (hd : a.draftAt? p = some d) (given : Given m a w d piece) :
    StoresMap m a (f.place piece) c ∧ Quiet m a κ (.map (f.place piece)) c := by
  obtain ⟨same, unfinished, pending, fills, phase⟩ := h
  cases waits with
  | key view' =>
    have key : c.pendingKey = d := Option.some.inj ((draftAt?_inside hc _).symm.trans hd)
    cases given with
    | @value _ _ _ _ given held null =>
      cases given with
      | none => exact nomatch null rfl
      | some k =>
        exact ⟨⟨same, unfinished, pending, fills, phase.1, phase.2, key ▸ held⟩,
          quiet_of_not_waits (fun h => by cases h) nofun⟩
  | fieldName view' =>
    have key : c.pendingKey = d := Option.some.inj ((draftAt?_inside hc _).symm.trans hd)
    cases given with
    | name text =>
      exact ⟨⟨same, unfinished, pending, fills, phase, key⟩,
        quiet_of_not_waits (fun h => by cases h) nofun⟩
  | memberName view' =>
    have key : c.pendingKey = d := Option.some.inj ((draftAt?_inside hc _).symm.trans hd)
    cases given with
    | name text =>
      exact ⟨⟨same, unfinished, pending, fills, phase, key⟩,
        quiet_of_not_waits (fun h => by cases h) nofun⟩
  | @entry _ _ _ _ _ _ _ dict k text view' =>
    rw [draftAt?_inside hc] at hd
    obtain ⟨keys, phase⟩ := phase
    have new : dict.contains text = false := by
      have texts := shaped.nodup_texts fills.shape
      rw [keys, List.map_append, List.nodup_append, Dict.keys, List.map_map] at texts
      rw [MapFrame.contains_eq_false_iff]
      intro mem
      exact texts.2.2 text mem text (List.mem_singleton_self _) rfl
    cases given with
    | @value _ _ _ _ given held null =>
      refine ⟨⟨same, unfinished, pending, fills.insert new hd held, ?_⟩,
        quiet_of_not_waits (fun h => by cases h) fun _ =>
          settles?_slot phase hd held.complete_given⟩
      show c.keys = Dict.keys _
      rw [keys, Dict.keys, Dict.keys, MapFrame.dict_insert new, List.map_append]
      rfl
  | field view' nullable typed =>
    rw [draftAt?_inside hc] at hd
    cases given with
    | value held null =>
      exact ⟨⟨same, unfinished, pending, fills.fill hd typed held, trivial⟩,
        quiet_of_not_waits (fun h => by cases h) fun _ =>
          settles?_slot phase hd held.complete_given⟩
  | member view' typed =>
    rw [draftAt?_inside hc] at hd
    cases given with
    | @value _ _ _ _ given held null =>
      cases given with
      | none => exact nomatch null rfl
      | some v =>
        exact ⟨⟨same, unfinished, pending, fills.fill hd typed held, trivial⟩, quiet_of_not_waits
          (fun h => by cases h) fun _ => settles?_slot phase hd held.complete_given⟩

theorem AbsentFrom.fillSlot {slots : List (Slot Value)} {next : Nat} {given : Option Value}
    (h : AbsentFrom slots next) : AbsentFrom (DualView.fillSlot slots next given) (next + 1) := by
  intro i s hs after
  rw [DualView.fillSlot, List.getElem?_modify] at hs
  obtain ⟨s', hs', rfl⟩ := Option.map_eq_some_iff.mp hs
  rw [if_neg (Nat.ne_of_lt after)]
  exact h hs' (Nat.le_of_succ_le after)

/-- **When the draft that a list frame waits for holds something, its cell stores the frame in which
that is placed.** -/
theorem StoresList.place {f : ListFrame} {w : Opening} {d : Draft} {piece : Piece}
    (h : StoresList m a f c) (hc : a.cells[κ]? = some c)
    (waits : Waits m κ c (.list f) p w) (hd : a.draftAt? p = some d) (given : Given m a w d piece) :
    StoresList m a (f.place piece) c ∧ Quiet m a κ (.list (f.place piece)) c := by
  obtain ⟨same, unfinished, fills⟩ := h
  cases waits with
  | item view' =>
    rw [draftAt?_inside hc] at hd
    obtain ⟨fills, length, phase⟩ := fills
    cases given with
    | value held null =>
      refine ⟨⟨same, unfinished, fills.append hd held, ?_⟩,
        quiet_of_not_waits (fun h => by cases h) fun _ =>
          settles?_slot phase hd held.complete_given⟩
      show c.slots.length = _
      rw [length, List.length_append]
      rfl
  | tuple view' nullable typed =>
    rw [draftAt?_inside hc] at hd
    obtain ⟨absent, fills, next, phase⟩ := fills
    cases given with
    | value held null =>
      exact ⟨⟨same, unfinished, absent.fillSlot, fills.fill hd typed held, next⟩,
        quiet_of_not_waits (fun h => by cases h) fun _ =>
          settles?_slot phase hd held.complete_given⟩
  | pair view' => cases given
  | pairName view' =>
    have pending : c.pendingKey = d := Option.some.inj ((draftAt?_inside hc _).symm.trans hd)
    obtain ⟨view, owner, shape, next, phase⟩ := fills
    cases given with
    | name text =>
      exact ⟨⟨same, unfinished, view, owner, shape, next, phase, pending⟩,
        quiet_of_not_waits (fun h => by cases h) nofun⟩
  | @pairSlot _ _ _ _ _ _ _ _ i owner view' nullable shape typed =>
    obtain ⟨view, owner', shape', next, phase⟩ := fills
    obtain rfl : owner' = owner := CellShape.pair.inj (shape'.symm.trans shape)
    cases given with
    | value held null =>
      refine ⟨⟨same, unfinished, view, owner', shape, next, phase⟩,
        quiet_of_not_waits (fun h => by cases h) fun _ => ?_⟩
      rw [settles?, phase]
      dsimp only
      rw [hd]
      exact held.complete_given

/-- When what a pair waits for holds something, the owner fills what the pair has filled. -/
theorem FillsOwner.place {f : ListFrame} {w : Opening} {d : Draft} {piece : Piece}
    {keys : Renaming} {fields : List (Field TypeId)} {slots : List (Slot Value)} {stage : PairStage}
    (h : FillsOwner m a o keys fields slots stage)
    (content : f.content = .pair keys fields slots stage) (shape : c.shape = .pair owner)
    (same : o.type = f.type) (ho : a.cells[owner]? = some o) (waits : Waits m κ c (.list f) p w)
    (hd : a.draftAt? p = some d) (given : Given m a w d piece) :
    ∃ stage', (f.place piece).content = .pair keys fields slots stage' ∧
      FillsOwner m a o keys fields slots stage' := by
  cases waits with
  | item view' => exact nomatch content
  | tuple view' nullable typed => exact nomatch content
  | pair view' => exact nomatch content
  | pairName view' =>
    cases content
    cases given with
    | name text => exact ⟨.keyed text, rfl, h⟩
  | @pairSlot _ _ _ _ _ _ _ _ i owner' view' nullable shape' typed =>
    cases content
    obtain rfl : owner = owner' := CellShape.pair.inj (shape.symm.trans shape')
    rw [draftAt?_inside ho] at hd
    cases given with
    | @value _ _ _ _ given held null =>
      refine ⟨.full i given, rfl, FillsStruct.fill h hd ?_ held⟩
      rw [Cell.slotType?, h.shape, same]
      exact typed

/-! ## Closing -/

/-- Once it is finished, a cell holds a value. -/
def Finishes (m : Model) (a : Arena) (c : Cell) (v : Value) : Prop :=
  ∀ (a' : Arena) (κ : CellId) (type : TypeId), Keeps m a a' →
    a'.cells[κ]? = some c.closed →
      Holds m a' type (.cell κ) (.value v)

theorem extends_closed (c : Cell) : c.Extends c.closed none := ⟨rfl, rfl, fun _ => id⟩

theorem FillsStruct.finishes {fields : List (Field TypeId)} {repr : StructRepr}
    {slots : List (Slot Value)} (h : FillsStruct m a c fields repr none slots)
    (shaped : c.Shaped m) : Finishes m a c (.struct slots) := fun _ _ type keeps hc' =>
  (h.keep keeps hc' (extends_closed c) nofun).holds hc' rfl shaped type


/-- **An idle map frame closes when nothing is lacking in its cell**, which then holds the value. -/
theorem StoresMap.closes {f : MapFrame} (h : StoresMap m a f c) (idle : f.phase = .idle)
    (shaped : c.Shaped m) :
    Corresponds (fun _ piece => ∃ v, piece = .content (some (v.wrap f.member)) ∧ Finishes m a c v)
      (c.checkFilled m) (f.close m) := by
  obtain ⟨type, view, member, content, phase⟩ := f
  obtain ⟨same, unfinished, -, fills, inPhase⟩ := h
  obtain rfl : phase = .idle := idle
  cases content with
  | entries key value nullable layout dict =>
    rw [FillsMap.checkFilled_eq fills]
    refine .ok ⟨_, rfl, fun a' κ type keeps hc' => ?_⟩
    exact (FillsMap.keep fills keeps hc' (extends_closed c) nofun).holds hc' rfl inPhase shaped type
  | fields fields repr slots =>
    rw [FillsStruct.checkFilled_eq fills shaped, MapFrame.close]
    dsimp only [MapFrame.settled, MapFrame.finished]
    cases missing? fields slots with
    | some f => exact same ▸ .error _
    | none => exact .ok ⟨_, rfl, FillsStruct.finishes fills shaped⟩
  | choice members repr present =>
    rw [FillsUnion.checkFilled_eq fills shaped, MapFrame.close]
    dsimp only [MapFrame.settled, MapFrame.finished]
    cases present with
    | none => exact same ▸ .error _
    | some p =>
      refine .ok ⟨_, rfl, fun a' κ type keeps hc' => ?_⟩
      exact (FillsUnion.keep fills keeps hc' (extends_closed c) nofun).holds hc' rfl shaped type

/-- **A list frame with nothing at hand closes when nothing is lacking in its cell**, which then
holds the value. -/
theorem StoresList.closes {f : ListFrame} (h : StoresList m a f c) (idle : f.busy = false)
    (single : ∀ owner, c.shape ≠ .pair owner) (shaped : c.Shaped m) :
    Corresponds (fun _ piece => ∃ v, piece = .content (some (v.wrap f.member)) ∧ Finishes m a c v)
      (c.checkFilled m) (f.close m) := by
  obtain ⟨type, view, member, content, busy⟩ := f
  obtain ⟨same, unfinished, fills⟩ := h
  obtain rfl : busy = false := idle
  cases content with
  | items elem nullable layout slots =>
    obtain ⟨fills, length⟩ := fills
    rw [fills.checkFilled_eq]
    refine .ok ⟨_, rfl, fun a' κ type keeps hc' => ?_⟩
    exact (fills.keep keeps hc' (extends_closed c) nofun).holds hc' rfl length type
  | tuple fields slots next =>
    have fills : FillsStruct m a c fields .tuple none slots := fills.2.1
    rw [fills.checkFilled_eq shaped, ListFrame.close]
    dsimp only [ListFrame.settled, ListFrame.struct]
    cases missing? fields slots with
    | some f => exact same ▸ .error _
    | none => exact .ok ⟨_, rfl, fills.finishes shaped⟩
  | pairs keys fields slots =>
    have fills : FillsStruct m a c fields (.listpairs keys) none slots := fills.2
    rw [fills.checkFilled_eq shaped, ListFrame.close]
    dsimp only [ListFrame.settled, ListFrame.struct]
    cases missing? fields slots with
    | some f => exact same ▸ .error _
    | none => exact .ok ⟨_, rfl, fills.finishes shaped⟩
  | pair keys fields slots stage =>
    obtain ⟨-, owner, shape, -⟩ := fills
    exact absurd shape (single owner)

end Arena

end DualView
