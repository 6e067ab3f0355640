import DualView.Assembly.Builder
import DualView.Proofs.Outcome

/-!
# Disciplines of assembly

What is kept throughout assembly is kept step by step.  A *discipline* says which pieces suit an
opening, which frames are sound and which pieces a frame can close with.  Where every step of a frame
observes it, so does every tree that is copied or filled in, and so does every run of a builder,
whatever the discipline is about.

* `Discipline.Observed`: what it takes of single steps.
* `Discipline.Observed.copy_takes`, `Discipline.Observed.fill_takes`: a whole tree suits the opening
  that it fills.
* `Discipline.Observed.call_keeps`, `Discipline.Observed.run_keeps`: one call, and a run.
* `Discipline.Observed.produced`: whatever a prototype produces suits its root.
-/

namespace DualView

/-- A discipline of assembly. -/
structure Discipline where
  /-- A piece suits an opening. -/
  Takes : Opening → Piece → Prop
  /-- A frame holds nothing but what it may. -/
  Sound : Frame → Prop
  /-- A frame can close with a piece. -/
  Yields : Frame → Piece → Prop

namespace Discipline

variable (D : Discipline)

/-- A frame that goes on from another is sound, and yields only what the other does. -/
structure Succeeds (f f' : Frame) : Prop where
  sound : D.Sound f'
  yields : ∀ piece, D.Yields f' piece → D.Yields f piece

/-- A step of a frame opens only for pieces after which the frame is sound again. -/
structure Opens (f f' : Frame) (o : Opening) : Prop extends Succeeds D f f' where
  awaits : ∀ piece, D.Takes o piece → D.Sound (f'.place piece)

/-- A frame that begins in an opening is sound, and yields only what suits the opening. -/
structure Begins (o : Opening) (f : Frame) : Prop where
  sound : D.Sound f
  yields : ∀ piece, D.Yields f piece → D.Takes o piece

/-- Every step observes the discipline. -/
structure Observed (m : Model) : Prop where
  null : ∀ o piece, o.null m.schema = .ok piece → D.Takes o piece
  scalar : ∀ o a piece, o.scalar m a = .ok piece → D.Takes o piece
  openMap : ∀ o f, o.openMap m = .ok f → D.Begins o (.map f)
  openList : ∀ o f, o.openList m = .ok f → D.Begins o (.list f)
  key : ∀ f f' o, D.Sound (.map f) → f.key m = .ok (f', o) → D.Opens (.map f) (.map f') o
  value : ∀ f f' o, D.Sound (.map f) → f.value m = .ok (f', o) → D.Opens (.map f) (.map f') o
  entry : ∀ f f' o text, D.Sound (.map f) → f.entry m text = .ok (f', o) →
    D.Opens (.map f) (.map f') o
  item : ∀ f f' o, D.Sound (.list f) → f.item m = .ok (f', o) → D.Opens (.list f) (.list f') o
  place : ∀ f p piece, D.Yields (f.place p) piece → D.Yields f piece
  close : ∀ f piece, D.Sound f → f.close m = .ok piece → D.Yields f piece
  inView : ∀ f f' view, D.Sound f → f.inView m view = .ok f' → D.Succeeds f f'

variable {D} {m : Model}

theorem Succeeds.refl {f : Frame} (sound : D.Sound f) : D.Succeeds f f :=
  ⟨sound, fun _ hy => hy⟩

theorem Succeeds.trans {f f' f'' : Frame} (h : D.Succeeds f f') (h' : D.Succeeds f' f'') :
    D.Succeeds f f'' :=
  ⟨h'.sound, fun piece hy => h.yields piece (h'.yields piece hy)⟩

/-- What suits the opening is placed, and the frame goes on. -/
theorem Opens.place (law : D.Observed m) {f f' : Frame} {o : Opening} (opens : D.Opens f f' o)
    {piece : Piece} (takes : D.Takes o piece) : D.Succeeds f (f'.place piece) :=
  opens.toSucceeds.trans ⟨opens.awaits piece takes, law.place f' piece⟩

namespace Observed

/-! ## Whole trees -/

mutual

/-- **What is copied into an opening suits it.** -/
theorem copy_takes (law : D.Observed m) {o : Opening} {piece : Piece} :
    (t : Tree) → o.copy m t = .ok piece → D.Takes o piece
  | .null, h => law.null o piece h
  | .scalar a, h => law.scalar o a piece h
  | .list items, h => by
    obtain ⟨f, hf, h⟩ := bind_eq_ok_iff.mp h
    obtain ⟨f', hf', h⟩ := bind_eq_ok_iff.mp h
    have begun := law.openList o f hf
    have next := copyItems_succeeds law items begun.sound hf'
    exact begun.yields piece (next.yields piece (law.close (.list f') piece next.sound h))
  | .map entries, h => by
    obtain ⟨f, hf, h⟩ := bind_eq_ok_iff.mp h
    obtain ⟨f', hf', h⟩ := bind_eq_ok_iff.mp h
    have begun := law.openMap o f hf
    have next := copyEntries_succeeds law entries begun.sound hf'
    exact begun.yields piece (next.yields piece (law.close (.map f') piece next.sound h))

theorem copyItems_succeeds (law : D.Observed m) {f f' : ListFrame} :
    (items : List Tree) → D.Sound (.list f) → Opening.copyItems m f items = .ok f' →
      D.Succeeds (.list f) (.list f')
  | [], sound, h => by
    cases h
    exact .refl sound
  | t :: rest, sound, h => by
    obtain ⟨⟨f₁, o⟩, hi, h⟩ := bind_eq_ok_iff.mp h
    obtain ⟨piece, hp, h⟩ := bind_eq_ok_iff.mp h
    have placed := (law.item f f₁ o sound hi).place law (copy_takes law t hp)
    exact placed.trans (copyItems_succeeds law rest placed.sound h)

theorem copyEntries_succeeds (law : D.Observed m) {f f' : MapFrame} :
    (entries : List (Tree × Tree)) → D.Sound (.map f) →
      Opening.copyEntries m f entries = .ok f' → D.Succeeds (.map f) (.map f')
  | [], sound, h => by
    cases h
    exact .refl sound
  | (k, t) :: rest, sound, h => by
    obtain ⟨⟨f₁, ok⟩, hk, h⟩ := bind_eq_ok_iff.mp h
    obtain ⟨key, hkey, h⟩ := bind_eq_ok_iff.mp h
    obtain ⟨⟨f₂, o⟩, hv, h⟩ := bind_eq_ok_iff.mp h
    obtain ⟨piece, hp, h⟩ := bind_eq_ok_iff.mp h
    have keyed := (law.key f f₁ ok sound hk).place law (copy_takes law k hkey)
    have placed := (law.value _ f₂ o keyed.sound hv).place law (copy_takes law t hp)
    exact (keyed.trans placed).trans (copyEntries_succeeds law rest placed.sound h)

end

mutual

/-- **What is filled into an opening suits it.** -/
theorem fill_takes (law : D.Observed m) {o : Opening} {piece : Piece} :
    (d : Datum) → o.fill m d = .ok piece → D.Takes o piece
  | .null, h => law.null o piece h
  | .scalar a, h => law.scalar o a piece h
  | .list items, h => by
    obtain ⟨f, hf, h⟩ := bind_eq_ok_iff.mp h
    obtain ⟨f', hf', h⟩ := bind_eq_ok_iff.mp h
    have begun := law.openList o f hf
    have next := fillItems_succeeds law items begun.sound hf'
    exact begun.yields piece (next.yields piece (law.close (.list f') piece next.sound h))
  | .map entries, h => by
    obtain ⟨f, hf, h⟩ := bind_eq_ok_iff.mp h
    obtain ⟨f', hf', h⟩ := bind_eq_ok_iff.mp h
    have begun := law.openMap o f hf
    have next := fillEntries_succeeds law entries begun.sound hf'
    exact begun.yields piece (next.yields piece (law.close (.map f') piece next.sound h))

theorem fillItems_succeeds (law : D.Observed m) {f f' : ListFrame} :
    (items : List Datum) → D.Sound (.list f) → Opening.fillItems m f items = .ok f' →
      D.Succeeds (.list f) (.list f')
  | [], sound, h => by
    cases h
    exact .refl sound
  | d :: rest, sound, h => by
    obtain ⟨⟨f₁, o⟩, hi, h⟩ := bind_eq_ok_iff.mp h
    obtain ⟨piece, hp, h⟩ := bind_eq_ok_iff.mp h
    have placed := (law.item f f₁ o sound hi).place law (fill_takes law d hp)
    exact placed.trans (fillItems_succeeds law rest placed.sound h)

theorem fillEntries_succeeds (law : D.Observed m) {f f' : MapFrame} :
    (entries : List (String × Datum)) → D.Sound (.map f) →
      Opening.fillEntries m f entries = .ok f' → D.Succeeds (.map f) (.map f')
  | [], sound, h => by
    cases h
    exact .refl sound
  | (k, d) :: rest, sound, h => by
    obtain ⟨⟨f₁, o⟩, hv, h⟩ := bind_eq_ok_iff.mp h
    obtain ⟨piece, hp, h⟩ := bind_eq_ok_iff.mp h
    have placed := (law.entry f f₁ o k sound hv).place law (fill_takes law d hp)
    exact placed.trans (fillEntries_succeeds law rest placed.sound h)

end

end Observed

/-! ## Builders -/

/-- A piece suits what waits for it: the innermost compound, or else the root. -/
def Awaits (D : Discipline) (p : Prototype) : List Handle → Piece → Prop
  | [], piece => ∀ v, piece = .content (some v) → D.Takes p.root piece
  | h :: _, piece => D.Sound (h.frame.place piece)

/-- Each compound is sound and, until it is finished, yields only what suits the one around it. -/
def Stacked (D : Discipline) (p : Prototype) : List Handle → Prop
  | [] => True
  | h :: outer =>
    D.Sound h.frame ∧
      (h.finished = false → ∀ piece, D.Yields h.frame piece → D.Awaits p outer piece) ∧
      D.Stacked p outer

/-- A builder of a prototype, and all that it has open, observes the discipline. -/
structure Holds (D : Discipline) (p : Prototype) (b : Builder) : Prop where
  prototype_eq : b.prototype = p
  result : ∀ v, b.progress = .finished v → D.Takes p.root (.content (some v))
  stacked : D.Stacked p b.handles
  awaits : ∀ o, b.opening = some o → ∀ piece, D.Takes o piece → D.Awaits p b.handles piece

end Discipline

namespace Builder

theorem checkOpen_eq_ok_iff {b : Builder} {top : Handle} :
    b.checkOpen top = .ok () ↔ top.finished = false := by
  rw [checkOpen]
  cases top.finished <;> simp

theorem build_eq_ok_iff {b : Builder} {v : TypedValue} :
    b.build = .ok v ↔ ∃ w, b.progress = .finished w ∧ v = ⟨b.model, b.prototype.type, w⟩ := by
  rw [build]
  cases b.progress <;> simp [eq_comm]

end Builder

namespace Discipline

variable {D : Discipline} {p : Prototype} {b : Builder} {reply : Reply}

theorem holds_ofPrototype (p : Prototype) : D.Holds p (.ofPrototype p) :=
  ⟨rfl, nofun, trivial, nofun⟩

namespace Holds

theorem closed (h : D.Holds p b) : D.Holds p { b with opening := none } :=
  ⟨h.prototype_eq, h.result, h.stacked, nofun⟩

theorem settle (h : D.Holds p b) {outcome : Except NodeError (Builder × Reply)}
    (ok : ∀ b' reply, outcome = .ok (b', reply) → D.Holds p b') :
    D.Holds p (b.settle outcome).1 := by
  rw [Builder.settle.eq_def]
  split
  · exact h
  · exact ok _ _ rfl
  · exact h
  · exact ⟨h.prototype_eq, nofun, h.stacked, h.awaits⟩

theorem deliver (law : D.Observed p.model) (h : D.Holds p b) (closed : b.opening = none)
    {handles : List Handle} {piece : Piece} (stacked : D.Stacked p handles)
    (awaits : D.Awaits p handles piece) :
    D.Holds p (b.deliver piece handles) ∧ (b.deliver piece handles).opening = none := by
  have unopened : ∀ o, b.opening = some o → False := fun o ho =>
    absurd (closed.symm.trans ho) nofun
  cases handles with
  | cons top outer =>
    obtain ⟨-, hy, hrest⟩ := stacked
    refine ⟨⟨h.prototype_eq, h.result, ⟨awaits, ?_, hrest⟩, fun o ho => (unopened o ho).elim⟩,
      closed⟩
    exact fun running piece' hp => hy running piece' (law.place top.frame piece piece' hp)
  | nil =>
    rcases piece with ⟨_ | v⟩ | ⟨i, given⟩
    · exact ⟨⟨h.prototype_eq, h.result, trivial, fun o ho => (unopened o ho).elim⟩, closed⟩
    · refine ⟨⟨h.prototype_eq, ?_, trivial, fun o ho => (unopened o ho).elim⟩, closed⟩
      intro w hw
      cases hw
      exact awaits v rfl
    · exact ⟨⟨h.prototype_eq, h.result, trivial, fun o ho => (unopened o ho).elim⟩, closed⟩

/-! ### Calls -/

theorem await (h : D.Holds p b) {top : Handle} {outer : List Handle}
    (handles : b.handles = top :: outer) (running : top.finished = false) {frame : Frame}
    {o : Opening} (opens : D.Opens top.frame frame o) : D.Holds p (b.await frame outer o).1 := by
  have hst := h.stacked
  rw [handles] at hst
  refine ⟨h.prototype_eq, h.result, ⟨opens.sound, fun _ piece hy => ?_, hst.2.2⟩, ?_⟩
  · exact hst.2.1 running piece (opens.yields piece hy)
  · intro o' ho
    cases ho
    exact opens.awaits

theorem fillOpening (law : D.Observed p.model) (h : D.Holds p b) {o : Opening}
    (opened : b.opening = some o) {piece : Except NodeError Piece}
    (takes : ∀ q, piece = .ok q → D.Takes o q) :
    D.Holds p (({ b with opening := none } : Builder).settle (b.fillOpening piece)).1 := by
  refine h.closed.settle fun b' reply hs => ?_
  obtain ⟨q, hq, hs⟩ := bind_eq_ok_iff.mp hs
  cases hs
  exact (h.closed.deliver law rfl h.stacked (h.awaits o opened q (takes q hq))).1

theorem enter (h : D.Holds p b) {o : Opening} (opened : b.opening = some o)
    {frame : Except NodeError Frame} (begun : ∀ f, frame = .ok f → D.Begins o f) :
    D.Holds p (({ b with opening := none } : Builder).settle (b.enter frame reply)).1 := by
  refine h.closed.settle fun b' reply hs => ?_
  obtain ⟨f, hf, hs⟩ := bind_eq_ok_iff.mp hs
  cases hs
  have begun := begun f hf
  refine ⟨h.prototype_eq, fun v hv => ?_, ⟨begun.sound, fun _ piece hy => ?_, h.stacked⟩, nofun⟩
  · -- entering a compound finishes nothing
    refine h.result v ?_
    cases hp : b.progress with
    | initial => simp [hp] at hv
    | building => simp [hp] at hv
    | errored => simp [hp] at hv
    | finished w => simpa [hp] using hv
  · exact h.awaits o opened piece (begun.yields piece hy)

theorem callOpening (law : D.Observed p.model) (h : D.Holds p b) {o : Opening}
    (opened : b.opening = some o) (c : Call) : D.Holds p (b.callOpening o c).1 := by
  have hm : b.model = p.model := congrArg Prototype.model h.prototype_eq
  cases c with
  | drop => exact h.closed
  | null => exact h.fillOpening law opened fun q hq => law.null o q (hm ▸ hq)
  | scalar a => exact h.fillOpening law opened fun q hq => law.scalar o a q (hm ▸ hq)
  | copy d => exact h.fillOpening law opened fun q hq => law.copy_takes _ (hm ▸ hq)
  | fill d => exact h.fillOpening law opened fun q hq => law.fill_takes d (hm ▸ hq)
  | map =>
    refine h.enter opened fun f hf => ?_
    obtain ⟨g, hg, rfl⟩ := map_eq_ok_iff.mp hf
    exact law.openMap o g (hm ▸ hg)
  | list =>
    refine h.enter opened fun f hf => ?_
    obtain ⟨g, hg, rfl⟩ := map_eq_ok_iff.mp hf
    exact law.openList o g (hm ▸ hg)
  | _ => exact h

theorem callStep {α : Type} (frame : α → Frame) (h : D.Holds p b) {top : Handle}
    {outer : List Handle} (handles : b.handles = top :: outer)
    {step : Except NodeError (α × Opening)}
    (opens : ∀ f o, step = .ok (f, o) → D.Opens top.frame (frame f) o) :
    D.Holds p (b.settle do
      b.checkOpen top
      let (f, o) ← step
      return b.await (frame f) outer o).1 := by
  refine h.settle fun b' reply hs => ?_
  obtain ⟨⟨⟩, hc, hs⟩ := bind_eq_ok_iff.mp hs
  obtain ⟨⟨f, o⟩, hstep, hs⟩ := bind_eq_ok_iff.mp hs
  have := h.await handles (Builder.checkOpen_eq_ok_iff.mp hc) (opens f o hstep)
  cases hs
  exact this

theorem finishCompound (law : D.Observed p.model) (h : D.Holds p b) (closed : b.opening = none)
    {top : Handle} {outer : List Handle} (handles : b.handles = top :: outer) {b' : Builder}
    (hs : b.finishCompound top outer = .ok (b', reply)) : D.Holds p b' := by
  obtain ⟨⟨⟩, hc, hs⟩ := bind_eq_ok_iff.mp hs
  obtain ⟨piece, hp, hs⟩ := bind_eq_ok_iff.mp hs
  cases hs
  obtain ⟨sound, yields, rest⟩ : D.Stacked p (top :: outer) := handles ▸ h.stacked
  rw [show b.model = p.model from congrArg Prototype.model h.prototype_eq] at hp
  have hy := law.close top.frame piece sound hp
  obtain ⟨hd, hclosed⟩ :=
    h.deliver law closed rest (yields (Builder.checkOpen_eq_ok_iff.mp hc) piece hy)
  refine ⟨hd.prototype_eq, hd.result, ⟨sound, nofun, hd.stacked⟩, ?_⟩
  intro o ho
  exact absurd (hclosed.symm.trans ho) nofun

theorem callCompound (law : D.Observed p.model) (h : D.Holds p b) (closed : b.opening = none)
    {top : Handle} {outer : List Handle} (handles : b.handles = top :: outer) (c : Call) :
    D.Holds p (b.callCompound top outer c).1 := by
  have hm : b.model = p.model := congrArg Prototype.model h.prototype_eq
  obtain ⟨sound, yields, rest⟩ : D.Stacked p (top :: outer) := handles ▸ h.stacked
  have left : D.Holds p { b with handles := outer } :=
    ⟨h.prototype_eq, h.result, rest, fun o ho => absurd (closed.symm.trans ho) nofun⟩
  cases c with
  | drop => exact left
  | finish => exact h.settle fun b' reply hs => h.finishCompound law closed handles hs
  | view view =>
    refine left.settle fun b' reply hs => ?_
    obtain ⟨frame, hf, hs⟩ := bind_eq_ok_iff.mp hs
    cases hs
    rw [hm] at hf
    have next := law.inView top.frame frame view sound hf
    refine ⟨h.prototype_eq, h.result, ⟨next.sound, fun running piece hy => ?_, rest⟩, ?_⟩
    · exact yields running piece (next.yields piece hy)
    · intro o ho
      exact absurd (closed.symm.trans ho) nofun
  | _ => exact h

theorem callHandle (law : D.Observed p.model) (h : D.Holds p b) (closed : b.opening = none)
    {top : Handle} {outer : List Handle} (handles : b.handles = top :: outer) (c : Call) :
    D.Holds p (b.callHandle top outer c).1 := by
  have hm : b.model = p.model := congrArg Prototype.model h.prototype_eq
  obtain ⟨sound, -, -⟩ : D.Stacked p (top :: outer) := handles ▸ h.stacked
  rw [Builder.callHandle.eq_def]
  split
  · rename_i f text hf
    refine h.callStep .map handles fun f' o hs => ?_
    rw [hf] at sound ⊢
    exact law.entry f f' o text sound (hm ▸ hs)
  · rename_i f hf
    refine h.callStep .map handles fun f' o hs => ?_
    rw [hf] at sound ⊢
    exact law.key f f' o sound (hm ▸ hs)
  · rename_i f hf
    refine h.callStep .map handles fun f' o hs => ?_
    rw [hf] at sound ⊢
    exact law.value f f' o sound (hm ▸ hs)
  · rename_i f hf
    refine h.callStep .list handles fun f' o hs => ?_
    rw [hf] at sound ⊢
    exact law.item f f' o sound (hm ▸ hs)
  · exact h.callCompound law closed handles _

end Holds

namespace Observed

/-- **Every call keeps to the discipline.** -/
theorem call_keeps (law : D.Observed p.model) (h : D.Holds p b) (c : Call) :
    D.Holds p (b.call c).1 := by
  rw [Builder.call.eq_def]
  split
  · rename_i o opened
    exact h.callOpening law opened c
  · rename_i top outer closed handles
    exact h.callHandle law closed handles c
  · rename_i closed handles
    split
    · refine h.settle fun b' reply hs => ?_
      rw [Builder.openRoot] at hs
      split at hs
      · cases hs
        refine ⟨h.prototype_eq, h.result, h.stacked, fun o ho => ?_⟩
        cases ho
        rw [handles, h.prototype_eq]
        exact fun piece hp v hv => hp
      · contradiction
    · exact h
    · exact h

/-- **Every sequence of calls keeps to the discipline.** -/
theorem run_keeps (law : D.Observed p.model) (h : D.Holds p b) (calls : List Call) :
    D.Holds p (b.run calls).1 := by
  induction calls generalizing b with
  | nil => exact h
  | cons c rest ih => exact ih (law.call_keeps h c)

end Observed

end Discipline

/-! ## What is built -/

/-- A prototype produces a value: in a run of its builder, from a node, or from a data tree. -/
inductive Prototype.Produces (p : Prototype) (v : TypedValue) : Prop
  | run (calls : List Call) (built : ((Builder.ofPrototype p).run calls).1.build = .ok v)
  | copy (n : Node) (built : p.buildFrom n = .ok v)
  | fill (d : Datum) (built : p.buildEntries d = .ok v)

theorem Prototype.finish_eq_ok_iff {p : Prototype} {piece : Piece} {v : TypedValue} :
    p.finish piece = .ok v ↔ ∃ w, piece = .content (some w) ∧ v = ⟨p.model, p.type, w⟩ := by
  rcases piece with ⟨_ | w⟩ | ⟨i, given⟩
  · simp [finish]
  · simp [finish, eq_comm]
  · simp [finish]

/-- **Whatever a prototype produces suits its root.** -/
theorem Discipline.Observed.produced {D : Discipline} {p : Prototype} (law : D.Observed p.model)
    {v : TypedValue} (h : p.Produces v) :
    v.model = p.model ∧ v.type = p.type ∧ D.Takes p.root (.content (some v.value)) := by
  cases h with
  | run calls built =>
    have holds := law.run_keeps (holds_ofPrototype p) calls
    obtain ⟨w, hw, rfl⟩ := Builder.build_eq_ok_iff.mp built
    exact ⟨congrArg Prototype.model holds.prototype_eq, congrArg Prototype.type holds.prototype_eq,
      holds.result w hw⟩
  | copy n built =>
    obtain ⟨piece, copied, built⟩ := bind_eq_ok_iff.mp built
    obtain ⟨w, rfl, rfl⟩ := Prototype.finish_eq_ok_iff.mp built
    exact ⟨rfl, rfl, law.copy_takes n.tree copied⟩
  | fill d built =>
    obtain ⟨piece, filled, built⟩ := bind_eq_ok_iff.mp built
    obtain ⟨w, rfl, rfl⟩ := Prototype.finish_eq_ok_iff.mp built
    exact ⟨rfl, rfl, law.fill_takes d filled⟩

end DualView
