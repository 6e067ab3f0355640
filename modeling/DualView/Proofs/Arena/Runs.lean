import DualView.Proofs.Arena.Trees

/-!
# Runs

A flat builder starts as a builder starts, and each call keeps the two side by side
(`FlatBuilder.call_answers`).  So whatever is called, nothing is read out of range, the answers are
those of the builder, and the arena is sound.  What is frozen at the end is what the builder
has assembled.

* `FlatBuilder.run_answers`: a run is answered as by the builder.
* `FlatBuilder.build_answers`: so is the whole, which is frozen cell by cell.
* `FlatBuilder.run_consistent`: the arena of every run is a forest, and nothing that is kept in it
  or outside of it leads out of range.
-/

namespace DualView

namespace FlatBuilder

open Arena

variable {p : Prototype} {a : Arena} {f : FlatBuilder} {b : Builder}

/-! ## Runs -/

theorem mirrors_ofPrototype (p : Prototype) : Mirrors (ofPrototype p) (Builder.ofPrototype p) where
  prototype := rfl
  sound := sound_empty
  alive := nofun
  stands := .initial rfl rfl

/-- **A run is answered as by the builder**, and nothing is read out of range. -/
theorem run_answers (mirrors : Mirrors f b) (calls : List Call) :
    ∃ f', f.run calls = some (f', (b.run calls).2.map Reply.answer) ∧
      Mirrors f' (b.run calls).1 := by
  induction calls generalizing f b with
  | nil => exact ⟨f, rfl, mirrors⟩
  | cons c rest ih =>
    obtain ⟨f₁, called, mirrors₁⟩ := call_answers mirrors c
    obtain ⟨f₂, ran, mirrors₂⟩ := ih mirrors₁
    refine ⟨f₂, ?_, mirrors₂⟩
    rw [run, called]
    show (f₁.run rest).bind _ = _
    rw [ran]
    rfl

/-! ## The whole -/

/-- A builder ends, and has emptied no cell twice. -/
structure Ends (f : FlatBuilder) (outcome : Except NodeError TypedValue) (a : Arena) : Prop where
  build : f.build = some (outcome, a)
  once : a.frozen.Nodup
  frozen : f.arena.frozen <:+ a.frozen

theorem Mirrors.ends (mirrors : Mirrors f b) {outcome : Except NodeError TypedValue}
    (run : Runs (freezeRoot f.prototype) f.arena outcome f.arena) : Ends f outcome f.arena :=
  ⟨run, mirrors.sound.frozen_nodup, List.suffix_rfl⟩

theorem runs_freezeRoot_of_live {progress : Progress} (live : progress.Live)
    (stage : a.stage = progress.stage) :
    Runs (freezeRoot p) a (.error (.assembly .notFinished)) a := by
  refine (runs_get a).bind ?_
  rcases live with rfl | rfl <;> (rw [stage]; exact runs_throw _ a)

theorem runs_freezeRoot_of_errored (stage : a.stage = .errored) :
    Runs (freezeRoot p) a (.error (.assembly .builderErrored)) a := by
  refine (runs_get a).bind ?_
  rw [stage]
  exact runs_throw _ a

/-- **A finished whole is frozen to what it holds.** -/
theorem runs_freezeRoot_of_finished {v : Value} (sound : a.Sound p.model)
    (stage : a.stage = .finished) (held : Holds p.model a p.type a.root (.value v)) :
    ∃ a', Runs (freezeRoot p) a (.ok ⟨p.model, p.type, v⟩) a' ∧ a'.frozen.Nodup ∧
      a.frozen <:+ a'.frozen := by
  -- the root was the one place to refer to the cell that it holds
  have refers : ∀ q id, { a with root := .absent }.RefersTo q id → a.RefersTo q id ∧ q ≠ .root := by
    intro q id hq
    cases q with
    | root => exact nomatch hq
    | inside κ s => exact ⟨hq, nofun⟩
  have taken : { a with root := .absent }.Sound p.model := sound.setRoot nofun
  have loose : ∀ id, a.root.cell? = some id → { a with root := .absent }.Loose id := fun id he =>
    sound.loose_of_taken (p := .root) he rfl rfl fun q => refers q id
  obtain ⟨emptied, a', run, froze⟩ :=
    held.freezeValue taken (.of_cells_eq [] rfl rfl) loose
  have sound' : a'.Sound p.model :=
    froze.sound taken fun id mem => loose id (Option.mem_toList.mp mem)
  refine ⟨a', ?_, sound'.frozen_nodup, froze.frozen ▸ List.suffix_append _ _⟩
  obtain ⟨cells, root, _, frozen⟩ := a
  cases stage
  exact (runs_get _).bind (Runs.bind rfl (run.bind (runs_pure _ a')))

/-- **A builder ends with what was assembled**, whatever was called. -/
theorem build_answers (mirrors : Mirrors f b) : ∃ a, Ends f b.build a := by
  obtain ⟨prototype, a, gs, o⟩ := f
  obtain ⟨p, progress, hs, o'⟩ := b
  obtain rfl : prototype = p := mirrors.prototype
  have stage : a.stage = progress.stage := mirrors.stands.stage
  cases progress with
  | initial => exact ⟨a, mirrors.ends (runs_freezeRoot_of_live (.inl rfl) stage)⟩
  | building => exact ⟨a, mirrors.ends (runs_freezeRoot_of_live (.inr rfl) stage)⟩
  | errored => exact ⟨a, mirrors.ends (runs_freezeRoot_of_errored stage)⟩
  | finished v =>
    have held := mirrors.stands.held rfl
    obtain ⟨a', run, once, frozen⟩ := runs_freezeRoot_of_finished mirrors.sound stage held
    exact ⟨a', run, once, frozen⟩

/-! ## What is kept -/

/-- Nothing that is kept in an arena or outside of it leads out of range, and the arena is a
forest. -/
structure Consistent (f : FlatBuilder) : Prop where
  forest : f.arena.Forest
  grips : ∀ {g : Grip}, g ∈ f.grips → g.cell < f.arena.cells.length
  opening : ∀ {r : Place × PlaceSpec}, f.opening = some r → f.arena.draftAt? r.1 = some .absent
  shaped : ∀ {id : CellId} {c : Cell}, f.arena.cells[id]? = some c →
    ((∃ q, f.arena.RefersTo q id) ∨ ∃ g ∈ f.grips, g.cell = id) → c.Shaped f.model
  slot : ∀ {id : CellId} {c : Cell} {i : Nat}, f.arena.cells[id]? = some c → c.phase = .slot i →
    i < c.slots.length
  pairSlot : ∀ {id owner : CellId} {c : Cell} {i : Nat}, f.arena.cells[id]? = some c →
    c.phase = .pairSlot owner i → ∃ o : Cell, f.arena.cells[owner]? = some o ∧ i < o.slots.length

theorem Mirrors.consistent (mirrors : Mirrors f b) : f.Consistent where
  forest := mirrors.sound.forest
  grips mem := (mirrors.alive _ mem).1
  opening opened := mirrors.stands.absent opened
  shaped := by
    intro id c hc reached
    refine mirrors.sound.shaped hc ?_
    rcases reached with ⟨q, referred⟩ | ⟨g, mem, rfl⟩
    · exact mirrors.sound.not_frozen referred
    · exact (mirrors.alive g mem).2
  slot := mirrors.sound.slot
  pairSlot := by
    intro id owner c i hc phase
    obtain ⟨o, ho, owns⟩ := mirrors.sound.pairSlot hc phase
    exact ⟨o, ho, owns.slot⟩

/-- **In every run nothing is read out of range, and the arena is a forest.**  The answers and the
finished value are those of the builder; to get at the value no cell is emptied twice. -/
theorem run_consistent (p : Prototype) (calls : List Call) :
    let assembled := (Builder.ofPrototype p).run calls
    ∃ f, (ofPrototype p).run calls = some (f, assembled.2.map Reply.answer) ∧ f.Consistent ∧
      ∃ a, Ends f assembled.1.build a := by
  obtain ⟨f, ran, mirrors⟩ := run_answers (mirrors_ofPrototype p) calls
  exact ⟨f, ran, mirrors.consistent, build_answers mirrors⟩

end FlatBuilder

end DualView
