import DualView.Proofs.Arena.Finishing
import DualView.Proofs.Assembly.Lifecycle

/-!
# Builders side by side

A flat builder *mirrors* a builder (`FlatBuilder.Mirrors`) if its arena is sound and holds what the
builder has assembled so far.  The forms of this are those of a builder's life: nothing is assigned
yet, a place waits for a value, the compounds are at rest, the whole is finished, or a call failed.
On top of compounds at rest, or of a finished whole, there may be a compound that is finished but
not left (`Arena.Topped`).

* `Arena.Nest.opens`: what a step opens in the innermost compound, a place of it waits for.
* `FlatBuilder.take_answers`: a step that agrees with an outcome answers as the builder does.
* `FlatBuilder.Mirrors.refuse`: and so does a step that fails and changes nothing.
-/

namespace DualView

namespace Arena

variable {m : Model} {a a' : Arena} {κ owner id : CellId} {c c' o : Cell} {q p : Place}
  {w w₀ v : Opening} {f f' : Frame} {g : Grip} {h : Handle} {gs gs' : List Grip}
  {hs hs' : List Handle} {live : List CellId} {r : Place × PlaceSpec}

/-! ## What is opened -/

structure Awaits (m : Model) (w₀ : Opening) (gs : List Grip) (hs : List Handle)
    (r : Place × PlaceSpec) (w : Opening) (a : Arena) : Prop where
  nest : Nest m a w₀ gs hs r.1 w
  absent : a.draftAt? r.1 = some .absent
  asks : Asks m a r.1 r.2 w

/-- **What a step opens in the innermost compound, a place of it waits for.** -/
theorem Nest.opens (outer : Nest m a w₀ gs hs q w)
    (view : g.view = f.view) (kind : g.kind = f.kind) (apart : ∀ g' ∈ gs, g'.cell ≠ g.cell)
    (moves : Moves m live g.cell a a') (opens : Opens m g.cell f c r f' v a')
    (begun : ∀ c', c'.shape = c.shape → a'.draftAt? q = a.draftAt? q →
      Begun m a' g.cell c' q w f') :
    Awaits m w₀ (g :: gs) (⟨f', false⟩ :: hs) r v a' := by
  obtain ⟨⟨c', hc', shape, stores, waits⟩, absent, asks, continues⟩ := opens
  have others : ∀ g' ∈ gs, a'.cells[g'.cell]? = a.cells[g'.cell]? := by
    intro g' mem
    obtain ⟨d, hd, unfinished⟩ := outer.underway _ (List.mem_map_of_mem mem)
    rw [hd]
    exact moves.spares.of_unfinished hd unfinished fun same =>
      apart g' mem (List.mem_singleton.mp same)
  have draft : a'.draftAt? q = a.draftAt? q := by
    cases q with
    | root => exact congrArg some moves.root
    | inside id s =>
      obtain ⟨g', mem, rfl⟩ := outer.mem_of_inside
      rw [draftAt?, draftAt?, others g' mem]
  exact ⟨.inner (outer.keep moves.keeps moves.root others) ⟨hc', stores,
    view.trans continues.view.symm, kind.trans continues.kind.symm, begun c' shape draft⟩ apart
    waits, absent, asks⟩

/-- What is opened in a compound that is not a pair. -/
theorem Level.opens {β : Type} {wrap : β → Frame} {s : β × Opening} (level : Level m a q w g f c)
    (outer : Nest m a w₀ gs hs q w) (apart : ∀ g' ∈ gs, g'.cell ≠ g.cell)
    (single : ∀ owner, c.shape ≠ .pair owner) (h : OpensAs m live g.cell a f c wrap r s a') :
    Awaits m w₀ (g :: gs) (⟨wrap s.1, false⟩ :: hs) r s.2 a' := by
  obtain ⟨hc, stores, view, kind, begun⟩ := level
  refine outer.opens view kind apart h.1 h.2 fun c' shape draft => ?_
  have continues := h.2.continues
  cases begun with
  | value drafted reaches =>
    refine .value ?_ ?_ fun owner he => single owner (shape.symm.trans he)
    · rw [continues.member]
      exact draft.trans drafted
    · rw [continues.member, continues.type]
      exact reaches
  | pair shape pair => exact absurd shape (single _)

theorem Level.opens_pair {gf : ListFrame} {keys : Renaming} {fields : List (Field TypeId)}
    {slots : List (Slot Value)} {view : View} {nullable : Bool} {s : ListFrame × Opening}
    (level : Level m a (.inside owner .key) ⟨.pair gf.type keys fields slots, view, nullable⟩ g
      (.list gf) c)
    (outer : Nest m a w₀ gs hs (.inside owner .key)
      ⟨.pair gf.type keys fields slots, view, nullable⟩)
    (apart : ∀ g' ∈ gs, g'.cell ≠ g.cell) (shape : c.shape = .pair owner)
    (h : OpensPair m live g.cell a gf c owner o keys fields slots r s a') :
    Awaits m w₀ (g :: gs) (⟨.list s.1, false⟩ :: hs) r s.2 a' := by
  obtain ⟨⟨moves, opens⟩, stage, pair⟩ := h
  refine outer.opens level.view level.kind apart moves opens fun c' shape' _ => ?_
  have type_eq : s.1.type = gf.type := opens.continues.type
  rw [← type_eq]
  exact .pair (shape'.trans shape) pair

/-! ## Compounds that can be called -/

def Alive (a : Arena) (gs : List Grip) : Prop :=
  ∀ g ∈ gs, g.cell < a.cells.length ∧ g.cell ∉ a.frozen

theorem Running.alive (h : Running m (gs.map (·.cell)) a) : Alive a gs := by
  intro g mem
  obtain ⟨c, hc, unfinished⟩ := h.underway _ (List.mem_map_of_mem mem)
  exact ⟨(List.getElem?_eq_some_iff.mp hc).1, h.sound.not_frozen_of_unfinished hc unfinished⟩

def Alike (gs : List Grip) (hs : List Handle) : Prop :=
  List.Forall₂ (fun g h => g.kind = h.frame.kind) gs hs

theorem Nest.alike (h : Nest m a w₀ gs hs q w) : Alike gs hs := by
  induction h with
  | root => exact .nil
  | inner outer level apart waits ih => exact .cons level.kind ih

theorem Rest.alike (h : Rest m a w₀ gs hs) : Alike gs hs := by
  cases h with
  | root => exact .nil
  | top outer level apart quiet => exact .cons level.kind outer.alike

theorem Rest.running (h : Rest m a w₀ gs hs) (sound : a.Sound m) :
    Running m (gs.map (·.cell)) a := by
  refine ⟨sound, ?_⟩
  cases h with
  | root => exact nofun
  | top outer level apart quiet =>
    exact List.forall_mem_cons.mpr ⟨⟨_, level.cell, level.stores.unfinished⟩, outer.underway⟩

theorem Nest.running (h : Nest m a w₀ gs hs q w) (sound : a.Sound m) :
    Running m (gs.map (·.cell)) a := ⟨sound, h.underway⟩

/-- A compound is finished, and can only be left. -/
structure Closed (a : Arena) (g : Grip) (h : Handle) : Prop where
  finished : h.finished = true
  kind : g.kind = h.frame.kind
  cell : ∃ c : Cell, a.cells[g.cell]? = some c ∧ c.finished = true ∧ ReadsAs c h.frame
  unfrozen : g.cell ∉ a.frozen

/-- On top of compounds there may be a finished one. -/
inductive Topped (a : Arena) (gs : List Grip) (hs : List Handle) : List Grip → List Handle → Prop
  | none : Topped a gs hs gs hs
  | closed {g : Grip} {h : Handle} (closed : Closed a g h) : Topped a gs hs (g :: gs) (h :: hs)

theorem Topped.alike (h : Topped a gs hs gs' hs') (alike : Alike gs hs) : Alike gs' hs' := by
  cases h with
  | none => exact alike
  | closed closed => exact .cons closed.kind alike

theorem Topped.alive (h : Topped a gs hs gs' hs') (alive : Alive a gs) : Alive a gs' := by
  cases h with
  | none => exact alive
  | closed closed =>
    obtain ⟨c, hc, -⟩ := closed.cell
    exact List.forall_mem_cons.mpr ⟨⟨(List.getElem?_eq_some_iff.mp hc).1, closed.unfrozen⟩, alive⟩

end Arena

/-! ## Builders that mirror builders -/

/-- How far a builder is whose innermost compound waits for something. -/
def Progress.amid : List Handle → Progress
  | [] => .initial
  | _ :: _ => .building

theorem Progress.live_amid (hs : List Handle) : (amid hs).Live := by
  cases hs with
  | nil => exact .inl rfl
  | cons h hs => exact .inr rfl

namespace FlatBuilder

open Arena

variable {p : Prototype} {a a' : Arena} {gs gs' : List Grip} {hs hs' : List Handle}
  {progress : Progress} {w : Opening} {r : Place × PlaceSpec} {o : Option (Place × PlaceSpec)}
  {o' : Option Opening}

/-- An arena holds what a builder has assembled so far. -/
inductive Stands (p : Prototype) (a : Arena) :
    List Grip → Option (Place × PlaceSpec) → Progress → List Handle → Option Opening → Prop
  | initial (stage : a.stage = .initial) (absent : a.root = .absent) :
      Stands p a [] none .initial [] none
  | opened {gs : List Grip} {hs : List Handle} {r : Place × PlaceSpec} {w : Opening}
      (stage : a.stage = (Progress.amid hs).stage) (awaits : Awaits p.model p.root gs hs r w a) :
      Stands p a gs (some r) (.amid hs) hs (some w)
  | resting {gs gs' : List Grip} {hs hs' : List Handle} (stage : a.stage = .building)
      (rest : Rest p.model a p.root gs hs) (topped : Topped a gs hs gs' hs') :
      Stands p a gs' none .building hs' none
  | finished {gs : List Grip} {hs : List Handle} {v : Value} (stage : a.stage = .finished)
      (held : Holds p.model a p.type a.root (.value v)) (topped : Topped a [] [] gs hs) :
      Stands p a gs none (.finished v) hs none
  | errored {gs : List Grip} {hs : List Handle} (stage : a.stage = .errored) (alike : Alike gs hs) :
      Stands p a gs none .errored hs none

theorem Stands.stage (h : Stands p a gs o progress hs o') : a.stage = progress.stage := by
  cases h <;> assumption

theorem Stands.alike (h : Stands p a gs o progress hs o') : Alike gs hs := by
  cases h with
  | initial => exact .nil
  | opened stage awaits => exact awaits.nest.alike
  | resting stage rest topped => exact topped.alike rest.alike
  | finished stage held topped => exact topped.alike .nil
  | errored stage alike => exact alike

theorem Stands.absent (h : Stands p a gs o progress hs o') (opened : o = some r) :
    a.draftAt? r.1 = some .absent := by
  cases h with
  | opened stage awaits =>
    cases opened
    exact awaits.absent
  | initial | resting | finished | errored => exact nomatch opened

/-- An opening is given out for a place. -/
theorem Stands.opens (h : Stands p a gs o progress hs o') (opened : o' = some w) :
    ∃ r : Place × PlaceSpec, o = some r ∧ r.2.view = w.view ∧ r.2.nullable = w.nullable := by
  cases h with
  | opened stage awaits =>
    cases opened
    exact ⟨_, rfl, awaits.asks.view_eq, awaits.asks.nullable_eq⟩
  | initial | resting | finished | errored => exact nomatch opened

theorem Stands.held {v : Value} (h : Stands p a gs o progress hs o')
    (finished : progress = .finished v) : Holds p.model a p.type a.root (.value v) := by
  cases h with
  | finished stage held topped =>
    cases finished
    exact held
  | opened stage awaits => cases hs <;> exact nomatch finished
  | initial | resting | errored => exact nomatch finished

/-- **A flat builder mirrors a builder**: its arena is sound, and holds what the builder has
assembled so far. -/
structure Mirrors (f : FlatBuilder) (b : Builder) : Prop where
  prototype : f.prototype = b.prototype
  sound : f.arena.Sound f.model
  alive : Alive f.arena f.grips
  stands : Stands b.prototype f.arena f.grips f.opening b.progress b.handles b.opening

namespace Mirrors

theorem stage_ne_errored {f : FlatBuilder} {b : Builder} (h : Mirrors f b)
    (running : b.progress ≠ .errored) : f.arena.stage ≠ .errored := by
  rw [h.stands.stage]
  cases hp : b.progress with
  | errored => exact absurd hp running
  | initial | building | finished v => nofun

theorem of_awaits (sound : a.Sound p.model) (stage : a.stage = (Progress.amid hs).stage)
    (awaits : Awaits p.model p.root gs hs r w a) :
    Mirrors ⟨p, a, gs, some r⟩ ⟨p, .amid hs, hs, some w⟩ :=
  ⟨rfl, sound, (awaits.nest.running sound).alive, .opened stage awaits⟩

theorem of_rest (sound : a.Sound p.model) (stage : a.stage = .building)
    (rest : Rest p.model a p.root gs hs) (topped : Topped a gs hs gs' hs') :
    Mirrors ⟨p, a, gs', none⟩ ⟨p, .building, hs', none⟩ :=
  ⟨rfl, sound, topped.alive (rest.running sound).alive, .resting stage rest topped⟩

theorem of_finished {v : Value} (sound : a.Sound p.model) (stage : a.stage = .finished)
    (held : Holds p.model a p.type a.root (.value v)) (topped : Topped a [] [] gs hs) :
    Mirrors ⟨p, a, gs, none⟩ ⟨p, .finished v, hs, none⟩ :=
  ⟨rfl, sound, topped.alive nofun, .finished stage held topped⟩

theorem of_errored (sound : a.Sound p.model) (stage : a.stage = .errored) (alive : Alive a gs)
    (alike : Alike gs hs) : Mirrors ⟨p, a, gs, none⟩ ⟨p, .errored, hs, none⟩ :=
  ⟨rfl, sound, alive, .errored stage alike⟩

theorem fail (sound : a.Sound p.model) (alive : Alive a gs) (alike : Alike gs hs) :
    Mirrors ⟨p, { a with stage := .errored }, gs, none⟩ ⟨p, .errored, hs, none⟩ :=
  of_errored (sound.setStage _) rfl alive alike

end Mirrors

/-! ## Steps and outcomes -/

/-- A call to a flat builder does what a call to a builder does. -/
def AnswersAs (x : Option (FlatBuilder × Answer)) (r : Builder × Reply) : Prop :=
  ∃ f, x = some (f, r.2.answer) ∧ Mirrors f r.1

section Steps

variable {α β : Type} {step : Arena.Step α} (next : FlatBuilder → α → FlatBuilder × Reply)
  {f : FlatBuilder} {e : NodeError} {v : α}

theorem take_ok (running : f.arena.stage ≠ .errored) (run : Runs step f.arena (.ok v) a') :
    f.take step next = some ((next { f with arena := a' } v).1,
      .reply (next { f with arena := a' } v).2) := by
  have ran : step f.arena = some (.ok v, a') := run
  rw [take, guarded]
  cases stage : f.arena.stage with
  | errored => exact absurd stage running
  | initial | building | finished =>
    rw [ran]
    rfl

theorem take_error (running : f.arena.stage ≠ .errored) (unfinished : f.arena.stage ≠ .finished)
    (run : Runs step f.arena (.error e) a') :
    f.take step next =
      some ({ f with arena := { a' with stage := .errored } }, .reply (.failed e)) := by
  have ran : step f.arena = some (.error e, a') := run
  rw [take, guarded]
  cases stage : f.arena.stage with
  | errored => exact absurd stage running
  | finished => exact absurd stage unfinished
  | initial | building =>
    rw [ran]
    rfl

theorem take_error_finished (finished : f.arena.stage = .finished)
    (run : Runs step f.arena (.error e) a') :
    f.take step next = some ({ f with arena := a' }, .reply (.failed e)) := by
  have ran : step f.arena = some (.error e, a') := run
  rw [take, guarded, finished]
  dsimp only
  rw [ran]
  rfl

theorem stage_of_live (live : progress.Live) (stage : a.stage = progress.stage) :
    a.stage ≠ .errored ∧ a.stage ≠ .finished := by
  rcases live with rfl | rfl <;> rw [stage] <;> exact ⟨nofun, nofun⟩

/-- **A step that agrees with an outcome answers as the builder does**, if the builder takes
values. -/
theorem take_answers {R : α → β → Arena → Prop} {x : Except NodeError β}
    {result : β → Builder × Reply}
    (agrees : Agrees (Running p.model (gs.map (·.cell))) R step a x) (live : progress.Live)
    (stage : a.stage = progress.stage) (alike : Alike gs hs)
    (ok : ∀ v y a', R v y a' → AnswersAs (some ((next ⟨p, a', gs, none⟩ v).1,
      .reply (next ⟨p, a', gs, none⟩ v).2)) (result y)) :
    AnswersAs (take ⟨p, a, gs, none⟩ step next)
      (Builder.settle ⟨p, progress, hs, none⟩ (result <$> x)) := by
  obtain ⟨running, unfinished⟩ := stage_of_live live stage
  cases agrees with
  | @error e a' run h =>
    have failed : Builder.settle ⟨p, progress, hs, none⟩ (result <$> .error e) = _ :=
      Builder.settle_failed_live live e
    have taken := take_error (f := ⟨p, a, gs, none⟩) next running unfinished run
    rw [failed, taken]
    exact ⟨_, rfl, .fail h.sound h.alive alike⟩
  | @ok v y a' run h =>
    have done : Builder.settle ⟨p, progress, hs, none⟩ (result <$> .ok y) = result y :=
      Builder.settle_ok (Builder.ne_errored_of_live live) _
    rw [done, take_ok (f := ⟨p, a, gs, none⟩) next running run]
    exact ok v y a' h

/-- **A step that fails and changes nothing answers as the builder does.** -/
theorem Mirrors.refuse (h : Mirrors ⟨p, a, gs, none⟩ ⟨p, progress, hs, none⟩)
    (ne : progress ≠ .errored) (run : Runs step a (.error e) a) :
    AnswersAs (take ⟨p, a, gs, none⟩ step next)
      (Builder.settle ⟨p, progress, hs, none⟩ (.error e)) := by
  have stage : a.stage = progress.stage := h.stands.stage
  rcases progress.live_or with live | ⟨v, rfl⟩ | errored
  · obtain ⟨running, unfinished⟩ := stage_of_live live stage
    have failed : Builder.settle ⟨p, progress, hs, none⟩ (.error e) = _ :=
      Builder.settle_failed_live live e
    have taken := take_error (f := ⟨p, a, gs, none⟩) next running unfinished run
    rw [failed, taken]
    exact ⟨_, rfl, .fail h.sound h.alive h.stands.alike⟩
  · have failed : Builder.settle ⟨p, .finished v, hs, none⟩ (.error e) = _ :=
      Builder.settle_failed_finished rfl e
    have taken := take_error_finished (f := ⟨p, a, gs, none⟩) next stage run
    rw [failed, taken]
    exact ⟨_, rfl, h⟩
  · exact absurd errored ne

end Steps

end FlatBuilder

end DualView
