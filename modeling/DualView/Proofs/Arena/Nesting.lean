import DualView.Assembly.FlatBuilder
import DualView.Proofs.Arena.Items

/-!
# Nested compounds

The compounds that can be called are nested (`Arena.Nest`): each was begun in the place that the
frame around it waits at, the outermost one in the root.  Where the inner one is a pair, that place
is the pending key of its owner, and the pair fills a slot of the owner before the owner knows.
Compounds are at rest if the innermost one has nothing open (`Arena.Rest`).

* `Arena.Nest.keep`: compounds stay nested while their cells stay as they are.
* `Arena.Nest.fill`: and when the draft of the place that waits is given.
* `Arena.Nest.root_incomplete`: as long as a place waits, the root is not complete.
* `Arena.Nest.leave`, `Arena.Nest.deliver`: compounds are at rest when the place is left, or when
  what it waited for is there.
-/

namespace DualView

namespace Arena

variable {m : Model} {a a' : Arena} {κ owner id : CellId} {c c' o : Cell} {q p : Place}
  {w w₀ : Opening} {f : Frame} {g : Grip} {gs : List Grip} {hs : List Handle} {s : Spot} {d : Draft}

/-! ## Levels -/

/-- A frame was begun in a place, for what fills an opening. -/
inductive Begun (m : Model) (a : Arena) (κ : CellId) (c : Cell) : Place → Opening → Frame → Prop
  | value {q : Place} {type : TypeId} {view : View} {nullable : Bool} {f : Frame}
      (draft : a.draftAt? q = some ((Draft.cell κ).wrap f.member))
      (reaches : Reaches m type f.member f.type) (single : ∀ owner, c.shape ≠ .pair owner) :
      Begun m a κ c q ⟨.value type, view, nullable⟩ f
  | pair {owner : CellId} {o : Cell} {g : ListFrame} {keys : Renaming}
      {fields : List (Field TypeId)} {slots : List (Slot Value)} {stage : PairStage} {view : View}
      {nullable : Bool} (shape : c.shape = .pair owner)
      (pair : PairFor m a κ owner o g keys fields slots stage) :
      Begun m a κ c (.inside owner .key) ⟨.pair g.type keys fields slots, view, nullable⟩ (.list g)

/-- A compound that can be called stores a frame. -/
structure Level (m : Model) (a : Arena) (q : Place) (w : Opening) (g : Grip) (f : Frame)
    (c : Cell) : Prop where
  cell : a.cells[g.cell]? = some c
  stores : Stores m a f c
  view : g.view = f.view
  kind : g.kind = f.kind
  begun : Begun m a g.cell c q w f

/-- Compounds are nested, the innermost of which waits at a place. -/
inductive Nest (m : Model) (a : Arena) (w₀ : Opening) :
    List Grip → List Handle → Place → Opening → Prop
  | root : Nest m a w₀ [] [] .root w₀
  | inner {gs : List Grip} {hs : List Handle} {q p : Place} {w v : Opening} {g : Grip} {f : Frame}
      {c : Cell} (outer : Nest m a w₀ gs hs q w) (level : Level m a q w g f c)
      (apart : ∀ g' ∈ gs, g'.cell ≠ g.cell) (waits : Waits m g.cell c f p v) :
      Nest m a w₀ (g :: gs) (⟨f, false⟩ :: hs) p v

theorem Stores.unfinished (h : Stores m a f c) : c.finished = false := by
  cases f with
  | map f => exact StoresMap.unfinished h
  | list f => exact StoresList.unfinished h

theorem Stores.keep (h : Stores m a f c) (keeps : Keeps m a a') (hc' : a'.cells[κ]? = some c')
    {at? : Option Spot} (like : c.Like c' at?)
    (free : ∀ s, at? = some s →
      (∃ g, f = .list g ∧ AwaitsPair g) ∨ ∃ w, Waits m κ c f (.inside κ s) w) :
    Stores m a' f c' := by
  cases f with
  | map f =>
    refine StoresMap.keep h keeps hc' like fun s hs => ?_
    rcases free s hs with ⟨g, he, -⟩ | waits
    · exact nomatch he
    · exact waits
  | list f =>
    refine StoresList.keep h keeps hc' like fun s hs => ?_
    rcases free s hs with ⟨g, he, awaits⟩ | waits
    · cases he
      exact .inl awaits
    · exact .inr waits

theorem Level.incomplete (h : Level m a q w g f c) :
    ∃ d, a.draftAt? q = some d ∧ a.complete? d = some false := by
  have unfinished (d : Draft) (hd : d.cell? = some g.cell) : a.complete? d = some false := by
    rw [complete?_of_cell hd, h.cell]
    exact congrArg some h.stores.unfinished
  obtain ⟨-, -, -, -, begun⟩ := h
  cases begun with
  | value draft =>
    refine ⟨_, draft, unfinished _ ?_⟩
    cases f.member <;> rfl
  | pair shape pair =>
    exact ⟨_, draftAt?_inside pair.ho .key, unfinished _ (by rw [pair.pending]; rfl)⟩

namespace Nest

theorem mem_of_inside (h : Nest m a w₀ gs hs (.inside id s) w) : ∃ g ∈ gs, g.cell = id := by
  generalize hp : Place.inside id s = p at h
  induction h generalizing id s with
  | root => exact nomatch hp
  | @inner gs hs q p w v g f c outer level apart waits ih =>
    cases waits with
    | pairSlot view nullable shape typed =>
      cases hp
      obtain ⟨-, -, -, -, begun⟩ := level
      cases begun with
      | value draft reaches single => exact absurd shape (single _)
      | pair shape' pair =>
        obtain rfl := CellShape.pair.inj (shape.symm.trans shape')
        obtain ⟨g', mem, he⟩ := ih rfl
        exact ⟨g', List.mem_cons_of_mem _ mem, he⟩
    | _ => cases hp; exact ⟨g, List.mem_cons_self .., rfl⟩

theorem underway (h : Nest m a w₀ gs hs q w) :
    ∀ id ∈ gs.map (·.cell), ∃ c : Cell, a.cells[id]? = some c ∧ c.finished = false := by
  induction h with
  | root => exact nofun
  | inner outer level apart waits ih =>
    rw [List.map_cons, List.forall_mem_cons]
    exact ⟨⟨_, level.cell, level.stores.unfinished⟩, ih⟩

/-- Nothing is complete down to the root while the innermost compound waits. -/
theorem root_incomplete (h : Nest m a w₀ gs hs q w)
    (incomplete : ∃ d, a.draftAt? q = some d ∧ a.complete? d = some false) :
    a.complete? a.root = some false := by
  induction h with
  | root =>
    obtain ⟨d, hd, incomplete⟩ := incomplete
    cases hd
    exact incomplete
  | inner outer level apart waits ih => exact ih level.incomplete

theorem nullable {type : TypeId} {view : View} (h : Nest m a ⟨.value type, view, false⟩ gs hs q w)
    (nullable : w.nullable = true) : ∃ type view, w = ⟨.value type, view, true⟩ := by
  cases h with
  | root => exact nomatch nullable
  | inner outer level apart waits =>
    cases waits with
    | key | fieldName | memberName | member | pair | pairName => exact nomatch nullable
    | entry view' => exact ⟨_, view', congrArg (Opening.mk _ _) nullable⟩
    | field view' null typed | tuple view' null typed =>
      exact ⟨_, view', congrArg (Opening.mk _ _) nullable⟩
    | item view' => exact ⟨_, view', congrArg (Opening.mk _ _) nullable⟩
    | pairSlot view' null shape typed => exact ⟨_, view', congrArg (Opening.mk _ _) nullable⟩

end Nest

/-! ### Keeping -/

theorem PairFor.of_like {κ owner : CellId} {o o' : Cell} {g : ListFrame} {keys : Renaming}
    {fields : List (Field TypeId)} {slots : List (Slot Value)} {stage : PairStage}
    (h : PairFor m a κ owner o g keys fields slots stage) (keeps : Keeps m a a')
    (ho : a'.cells[owner]? = some o') {i : Nat} (like : o.Like o' (some (.slot i)))
    (opened : stage.opened? = some i) : PairFor m a' κ owner o' g keys fields slots stage where
  content := h.content
  ho := ho
  pending := (like.pendingKey nofun).trans h.pending
  phase := like.phase.trans h.phase
  unfinished := like.finished.trans h.unfinished
  same := like.type.trans h.same
  fills := FillsStruct.keep h.fills keeps ho like.toExtends fun j he => by
    cases he
    exact opened

/-- A level stays while its cell does, but for a draft that its frame waits for. -/
theorem Level.keep (h : Level m a q w g f c) (keeps : Keeps m a a') (root : a'.root = a.root)
    (same : ∀ id s, q = .inside id s → a'.cells[id]? = a.cells[id]?)
    (hc' : a'.cells[g.cell]? = some c') {at? : Option Spot} (like : c.Like c' at?)
    (free : ∀ s, at? = some s →
      (∃ g, f = .list g ∧ AwaitsPair g) ∨ ∃ w, Waits m g.cell c f (.inside g.cell s) w) :
    Level m a' q w g f c' where
  cell := hc'
  stores := h.stores.keep keeps hc' like free
  view := h.view
  kind := h.kind
  begun := by
    obtain ⟨-, -, -, -, begun⟩ := h
    cases begun with
    | @value q type view nullable f draft reaches single =>
      refine .value ?_ reaches fun owner he => single owner (like.shape.symm.trans he)
      cases q with
      | root => exact (congrArg some root).trans draft
      | inside id s =>
        rw [draftAt?, same id s rfl]
        exact draft
    | pair shape pair =>
      exact .pair (like.shape.trans shape) (pair.keep keeps ((same _ _ rfl).trans pair.ho))

namespace Nest

/-- **Compounds stay nested while their cells stay.** -/
theorem keep (h : Nest m a w₀ gs hs q w) (keeps : Keeps m a a') (root : a'.root = a.root)
    (same : ∀ g ∈ gs, a'.cells[g.cell]? = a.cells[g.cell]?) : Nest m a' w₀ gs hs q w := by
  induction h with
  | root => exact .root
  | @inner gs hs q p w v g f c outer level apart waits ih =>
    rw [List.forall_mem_cons] at same
    refine .inner (ih same.2) (level.keep keeps root (fun id s he => ?_)
      (same.1.trans level.cell) (c.like_self none) nofun) apart waits
    subst he
    obtain ⟨g', mem, rfl⟩ := outer.mem_of_inside
    exact same.2 g' mem

theorem fill_own (outer : Nest m a w₀ gs hs q w) (level : Level m a q w g f c)
    (apart : ∀ g' ∈ gs, g'.cell ≠ g.cell) {v : Opening}
    (waits : Waits m g.cell c f (.inside g.cell s) v)
    (keeps : Keeps m a (a.store g.cell (c.put d s))) :
    Nest m (a.store g.cell (c.put d s)) w₀ (g :: gs) (⟨f, false⟩ :: hs) (.inside g.cell s) v := by
  have others : ∀ g' ∈ gs, (a.store g.cell (c.put d s)).cells[g'.cell]? = a.cells[g'.cell]? :=
    fun g' mem => getElem?_store_of_ne (apart g' mem)
  have like := c.like_put d s
  refine .inner (outer.keep keeps rfl others) (level.keep keeps rfl (fun id' s' he => ?_)
    (getElem?_store_self level.cell _) like fun s' hs' => ?_) apart (waits.of_like like)
  · subst he
    obtain ⟨g', mem, rfl⟩ := outer.mem_of_inside
    exact others g' mem
  · cases hs'
    exact .inr ⟨_, waits⟩

/-- The innermost compound is a pair, which waits in the cell of its owner. -/
theorem fill_pair {gf : ListFrame} {keys : Renaming} {fields : List (Field TypeId)}
    {slots : List (Slot Value)} {i : Nat} {view : View} {nullable : Bool}
    (outer : Nest m a w₀ gs hs (.inside owner .key)
      ⟨.pair gf.type keys fields slots, view, nullable⟩)
    (apart : ∀ g' ∈ gs, g'.cell ≠ g.cell) (level : Level m a (.inside owner .key)
      ⟨.pair gf.type keys fields slots, view, nullable⟩ g (.list gf) c)
    (shape : c.shape = .pair owner)
    (pair : PairFor m a g.cell owner o gf keys fields slots (.value i)) {v : Opening}
    (waits : Waits m g.cell c (.list gf) (.inside owner (.slot i)) v)
    (keeps : Keeps m a (a.store owner (o.put d (.slot i)))) :
    Nest m (a.store owner (o.put d (.slot i))) w₀ (g :: gs) (⟨.list gf, false⟩ :: hs)
      (.inside owner (.slot i)) v := by
  have like := o.like_put d (.slot i)
  have ho := getElem?_store_self pair.ho (o.put d (.slot i))
  generalize hq : Place.inside owner .key = q at outer
  cases outer with
  | root => exact nomatch hq
  | @inner gs hs q₁ _ w₁ _ g₁ f₁ c₁ outer₁ level₁ apart₁ waits₁ =>
    cases waits₁ with
    | pair view =>
      cases hq
      obtain rfl := Option.some.inj (pair.ho.symm.trans level₁.cell)
      have ne : g.cell ≠ g₁.cell := (apart g₁ (List.mem_cons_self ..)).symm
      have others : ∀ g' ∈ gs, (a.store g₁.cell (o.put d (.slot i))).cells[g'.cell]? =
          a.cells[g'.cell]? := fun g' mem => getElem?_store_of_ne (apart₁ g' mem)
      have stays : (a.store g₁.cell (o.put d (.slot i))).cells[g.cell]? = some c :=
        (getElem?_store_of_ne ne).trans level.cell
      refine .inner (.inner (outer₁.keep keeps rfl others)
        (level₁.keep keeps rfl (fun id s he => ?_) ho like
          fun s _ => .inl ⟨_, rfl, rfl, _, _, _, rfl⟩) apart₁ (.pair view))
        ⟨stays, ?_, level.view, level.kind, .pair shape (pair.of_like keeps ho like rfl)⟩ apart
          waits
      · subst he
        obtain ⟨g', mem, rfl⟩ := outer₁.mem_of_inside
        exact others g' mem
      · exact level.stores.keep keeps stays (c.like_self none) nofun

/-- **Compounds stay nested when the place that the innermost one waits at is filled.** -/
theorem fill (h : Nest m a w₀ gs hs (.inside id s) w) (hc : a.cells[id]? = some c)
    (keeps : Keeps m a (a.store id (c.put d s))) :
    Nest m (a.store id (c.put d s)) w₀ gs hs (.inside id s) w := by
  generalize hp : Place.inside id s = p at h ⊢
  cases h with
  | root => exact nomatch hp
  | @inner gs hs q p w v g f c' outer level apart waits =>
    by_cases own : id = g.cell
    · subst own hp
      obtain rfl := Option.some.inj (hc.symm.trans level.cell)
      exact outer.fill_own level apart waits keeps
    · -- only a pair waits in a cell that is not its own
      have waits' := waits
      cases waits with
      | pairSlot view' nullable shape typed =>
        cases hp
        have level' := level
        obtain ⟨-, -, -, -, begun⟩ := level
        cases begun with
        | value draft reaches single => exact absurd shape (single _)
        | pair shape' pair =>
          obtain rfl := CellShape.pair.inj (shape.symm.trans shape')
          obtain rfl := Option.some.inj (hc.symm.trans pair.ho)
          cases pair.content
          exact outer.fill_pair apart level' shape pair waits' keeps
      | _ =>
        cases hp
        exact absurd rfl own

end Nest

/-! ## Filling what a compound waits for -/

theorem Stores.place {piece : Piece} {v : Opening} (h : Stores m a f c)
    (hc : a.cells[κ]? = some c) (shaped : c.Shaped m) (waits : Waits m κ c f p v)
    (hd : a.draftAt? p = some d) (given : Given m a v d piece) :
    Stores m a (f.place piece) c ∧ Quiet m a κ (f.place piece) c := by
  cases f with
  | map f => exact StoresMap.place h hc shaped waits hd given
  | list f => exact StoresList.place h hc waits hd given

/-- **When what a compound waits for is there, it is filled in.** -/
theorem Level.place {piece : Piece} {v : Opening} (h : Level m a q w g f c) (shaped : c.Shaped m)
    (waits : Waits m g.cell c f p v) (hd : a.draftAt? p = some d) (given : Given m a v d piece) :
    Level m a q w g (f.place piece) c ∧ Quiet m a g.cell (f.place piece) c := by
  obtain ⟨stores, quiet⟩ := h.stores.place h.cell shaped waits hd given
  obtain ⟨type_eq, view_eq, member_eq, kind_eq⟩ := f.continues_place piece
  refine ⟨⟨h.cell, stores, h.view.trans view_eq.symm, h.kind.trans kind_eq.symm, ?_⟩, quiet⟩
  obtain ⟨hc, -, -, -, begun⟩ := h
  cases begun with
  | value draft reaches single =>
    refine .value ?_ ?_ single
    · rw [member_eq]
      exact draft
    · rw [member_eq, type_eq]
      exact reaches
  | @pair owner o gf keys fields slots stage view nullable shape pair =>
    obtain ⟨stage', content, fills⟩ :=
      pair.fills.place pair.content shape pair.same pair.ho waits hd given
    have type_eq : (gf.place piece).type = gf.type := type_eq
    have begun : Begun m a g.cell c (.inside owner .key)
        ⟨.pair (gf.place piece).type keys fields slots, view, nullable⟩ (.list (gf.place piece)) :=
      .pair shape ⟨content, pair.ho, pair.pending, pair.phase, pair.unfinished,
        pair.same.trans type_eq.symm, fills⟩
    rw [type_eq] at begun
    exact begun

/-! ## Compounds at rest -/

/-- Compounds are nested, and nothing is open: the innermost one can be called. -/
inductive Rest (m : Model) (a : Arena) (w₀ : Opening) : List Grip → List Handle → Prop
  | root (incomplete : a.complete? a.root = some false) : Rest m a w₀ [] []
  | top {gs : List Grip} {hs : List Handle} {q : Place} {w : Opening} {g : Grip} {f : Frame}
      {c : Cell} (outer : Nest m a w₀ gs hs q w) (level : Level m a q w g f c)
      (apart : ∀ g' ∈ gs, g'.cell ≠ g.cell) (quiet : Quiet m a g.cell f c) :
      Rest m a w₀ (g :: gs) (⟨f, false⟩ :: hs)

namespace Nest

/-- An opening is left, and what it waited for is not complete. -/
theorem leave (h : Nest m a w₀ gs hs q w)
    (incomplete : ∃ d, a.draftAt? q = some d ∧ a.complete? d = some false) :
    Rest m a w₀ gs hs := by
  have root := h.root_incomplete incomplete
  cases h with
  | root => exact .root root
  | inner outer level apart waits =>
    refine .top outer level apart ⟨fun waits' => ?_, fun idle => ?_⟩
    · exact waits.unique waits' ▸ incomplete
    · exact nomatch waits.not_isIdle.symm.trans idle

/-- **What an opening waited for is there.** -/
theorem deliver {piece : Piece} {h : Handle} (nest : Nest m a w₀ (g :: gs) (h :: hs) q w)
    (sound : a.Sound m) (hd : a.draftAt? q = some d) (given : Given m a w d piece) :
    Rest m a w₀ (g :: gs) ({ h with frame := h.frame.place piece } :: hs) := by
  cases nest with
  | inner outer level apart waits =>
    have shaped := sound.shaped level.cell
      (sound.not_frozen_of_unfinished level.cell level.stores.unfinished)
    obtain ⟨level', quiet⟩ := level.place shaped waits hd given
    exact .top outer level' apart quiet

/-- **A pair of a struct is filled.** -/
theorem deliver_pair {h : Handle} {type : TypeId} {keys : Renaming} {fields : List (Field TypeId)}
    {slots : List (Slot Value)} {view : View} {nullable : Bool} {i : Nat} {given : Option Value}
    (nest : Nest m a w₀ (g :: gs) (h :: hs) (.inside owner .key)
      ⟨.pair type keys fields slots, view, nullable⟩)
    (ho : a.cells[owner]? = some o) (complete : a.complete? o.pendingKey = some true)
    (fills : FillsStruct m a o fields (.listpairs keys) none (fillSlot slots i given)) :
    Rest m a w₀ (g :: gs) ({ h with frame := h.frame.place (.field i given) } :: hs) := by
  cases nest with
  | inner outer level apart waits =>
    cases waits with
    | pair view =>
      obtain ⟨hc, stores, sameView, kind, begun⟩ := level
      obtain rfl := Option.some.inj (ho.symm.trans hc)
      obtain ⟨same, unfinished, represented, shape, body, phase⟩ := stores
      refine .top outer ⟨ho, ⟨same, unfinished, represented, fills⟩, sameView, kind, ?_⟩ apart
        (quiet_of_not_waits (fun h => by cases h) fun _ => ?_)
      · cases begun with
        | value draft reaches single => exact .value draft reaches single
        | pair shape' pair => exact nomatch shape.symm.trans shape'
      · rw [settles?, phase]
        exact complete

end Nest

end Arena

end DualView
