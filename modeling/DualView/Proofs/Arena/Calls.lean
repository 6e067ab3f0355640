import DualView.Proofs.Arena.Standing

/-!
# Single calls

A flat builder that mirrors a builder answers each single call as the builder does, and mirrors it
again.  What is called is a place, a compound at rest, a compound that is finished, or the builder
itself; there is one lemma for each of them.

* `FlatBuilder.callOnce_answers`: a single call is answered as by the builder.
-/

namespace DualView

namespace FlatBuilder

open Arena

variable {p : Prototype} {a a' : Arena} {gs gs' : List Grip} {hs hs' : List Handle} {g : Grip}
  {h : Handle} {f : Frame} {c : Cell} {q : Place} {progress : Progress} {w : Opening}
  {piece : Piece} {r : Place × PlaceSpec} {spec : PlaceSpec}

/-- The call is not one for a whole tree. -/
def Single (c : Call) : Prop := ∀ d, c ≠ .copy d ∧ c ≠ .fill d

/-! ## Calls to a place -/

theorem Mirrors.leave (sound : a.Sound p.model) (stage : a.stage = (Progress.amid hs).stage)
    (awaits : Awaits p.model p.root gs hs r w a) :
    Mirrors ⟨p, a, gs, none⟩ ⟨p, .amid hs, hs, none⟩ := by
  obtain ⟨nest, absent, asks⟩ := awaits
  have rest := nest.leave ⟨_, absent, rfl⟩
  obtain ⟨q, spec⟩ := r
  cases nest with
  | root => exact ⟨rfl, sound, nofun, .initial stage (Option.some.inj absent)⟩
  | inner outer level apart waits => exact .of_rest sound stage rest .none

/-- **A place is filled, and the piece is delivered.** -/
theorem Mirrors.filled (stage : a.stage = (Progress.amid hs).stage)
    (filled : Filled p.model p.root gs hs q w a piece a') :
    Mirrors ⟨p, a', gs, none⟩ (Builder.deliver ⟨p, .amid hs, hs, none⟩ piece hs) := by
  obtain ⟨d, placed, given⟩ := filled
  have sound := placed.running.sound
  have nest := placed.nest
  cases hs with
  | nil =>
    cases nest with
    | root =>
      have root : a'.root = d := Option.some.inj placed.draft
      cases given with
      | @value _ _ _ _ given held null =>
        cases given with
        | none => exact nomatch null rfl
        | some v => exact .of_finished sound placed.stage (root ▸ held) .none
  | cons h hs =>
    have inside : a'.stage = a.stage := by
      have nest := placed.nest
      have stage := placed.stage
      cases q with
      | inside id s => exact stage
      | root =>
        generalize hq : Place.root = q at nest
        cases nest with
        | inner outer level apart waits => cases waits <;> exact nomatch hq
    cases gs with
    | nil => exact nomatch nest
    | cons g gs =>
      exact .of_rest sound (inside.trans stage) (nest.deliver sound placed.draft given) .none

theorem Mirrors.entered {id : CellId} {kind : Kind} (stage : a.stage = (Progress.amid hs).stage)
    (nest : Nest p.model a p.root gs hs q w) (same : f.kind = kind)
    (entered : Entered p.model p.root gs hs q w a id f a') :
    Mirrors ⟨p, a', ⟨id, w.view, kind⟩ :: gs, none⟩ ⟨p, .building, ⟨f, false⟩ :: hs, none⟩ := by
  subst same
  refine .of_rest entered.running.sound ?_ entered.rest .none
  have later := entered.stage
  cases q with
  | root => exact later
  | inside id s =>
    generalize hq : Place.inside id s = q at nest
    cases nest with
    | root => exact nomatch hq
    | inner outer level apart waits => exact later.trans stage

/-- **A place answers as the opening that it stands for.** -/
theorem callOpening_answers (sound : a.Sound p.model) (stage : a.stage = (Progress.amid hs).stage)
    (awaits : Awaits p.model p.root gs hs (q, spec) w a) {call : Call} (single : Single call) :
    AnswersAs (callOpening ⟨p, a, gs, some (q, spec)⟩ q spec call)
      (Builder.callOpening ⟨p, .amid hs, hs, some w⟩ w call) := by
  obtain ⟨nest, absent, asks⟩ := awaits
  have running := nest.running sound
  have live := Progress.live_amid hs
  have fill (piece : Except NodeError Piece) :
      Builder.fillOpening ⟨p, .amid hs, hs, some w⟩ piece =
        (fun piece => (Builder.deliver ⟨p, .amid hs, hs, none⟩ piece hs, .done)) <$> piece := by
    cases piece <;> rfl
  have filled {step : Arena.Step Unit} {piece : Except NodeError Piece}
      (agrees : Agrees (· = a) (fun _ => Filled p.model p.root gs hs q w a) step a piece) :
      AnswersAs (take ⟨p, a, gs, none⟩ step fun f _ => (f, .done))
        (Builder.settle ⟨p, .amid hs, hs, none⟩
          (Builder.fillOpening ⟨p, .amid hs, hs, some w⟩ piece)) := by
    rw [fill]
    exact take_answers _ (agrees.of_unchanged running) live stage
      nest.alike fun _ _ _ filled => ⟨_, rfl, .filled stage filled⟩
  have enter {β : Type} (wrap : β → Frame) (frame : Except NodeError β) (reply : Reply) :
      Builder.enter ⟨p, .amid hs, hs, some w⟩ (wrap <$> frame) reply =
        (fun f => (⟨p, .building, ⟨wrap f, false⟩ :: hs, none⟩, reply)) <$> frame := by
    cases hs <;> cases frame <;> rfl
  have entered {β : Type} (wrap : β → Frame) {frame : Except NodeError β} {kind : Kind}
      (reply : View → Reply) (plain : ∀ view, (reply view).answer = .reply (reply view))
      (same : ∀ f, (wrap f).kind = kind) (agrees : Agrees (· = a)
        (fun id f => Entered p.model p.root gs hs q w a id (wrap f))
        (Arena.enter p.model q spec kind) a frame) :
      AnswersAs (take ⟨p, a, gs, none⟩ (Arena.enter p.model q spec kind) fun f id =>
          ({ f with grips := ⟨id, spec.view, kind⟩ :: f.grips }, reply spec.view))
        (Builder.settle ⟨p, .amid hs, hs, none⟩
          (Builder.enter ⟨p, .amid hs, hs, some w⟩ (wrap <$> frame) (reply w.view))) := by
    rw [enter, asks.view_eq]
    refine take_answers _ (agrees.of_unchanged running) live stage
      nest.alike fun _ f _ entered => ⟨_, ?_, .entered stage nest (same f) entered⟩
    dsimp only
    rw [plain]
  cases call with
  | drop => exact ⟨_, rfl, .leave sound stage ⟨nest, absent, asks⟩⟩
  | null => exact filled (assignNull_agrees nest sound absent asks)
  | scalar s => exact filled (assign_agrees nest sound absent asks s)
  | map =>
    exact entered .map .map (fun _ => rfl) (fun _ => rfl) (enterMap_agrees nest sound absent asks)
  | list =>
    exact entered .list .list (fun _ => rfl) (fun _ => rfl)
      (enterList_agrees nest sound absent asks)
  | copy d => exact absurd rfl (single d).1
  | fill d => exact absurd rfl (single d).2
  | _ => exact ⟨_, rfl, .of_awaits sound stage ⟨nest, absent, asks⟩⟩

/-! ## Views -/

/-- **A compound goes on in another view, or is left with an error**, as in the builder. -/
theorem view_answers (view : View) (left : Mirrors ⟨p, a, gs, none⟩ ⟨p, progress, hs, none⟩)
    (running : progress ≠ .errored) (hc : a.cells[g.cell]? = some c) (reads : ReadsAs c h.frame)
    (kind : g.kind = h.frame.kind)
    (again : c.kindIn? p.model view = some h.frame.kind →
      Mirrors ⟨p, a, { g with view := view } :: gs, none⟩
        ⟨p, progress, { h with frame := h.frame.withView view } :: hs, none⟩) :
    AnswersAs (callCompound ⟨p, a, g :: gs, none⟩ g gs (.view view))
      (Builder.callCompound ⟨p, progress, h :: hs, none⟩ h hs (.view view)) := by
  have agrees := checkView_agrees (m := p.model) hc reads view
  rw [← kind] at agrees
  rw [callCompound, Builder.callCompound]
  dsimp only [FlatBuilder.model, Builder.model]
  generalize h.frame.inView p.model view = x at agrees
  cases agrees with
  | error run same =>
    subst same
    exact left.refuse _ running run
  | @ok v f' a' run result =>
    obtain ⟨same, rfl, rfl⟩ := result
    have stage : a'.stage ≠ .errored := left.stage_ne_errored running
    show AnswersAs _ (Builder.settle _ (.ok (_, _)))
    rw [take_ok (f := ⟨p, a', gs, none⟩) _ stage run, Builder.settle_ok running]
    refine ⟨_, ?_, again (same.trans (congrArg some kind))⟩
    rw [kind]
    cases h.frame <;> rfl

/-! ## Calls to a compound at rest -/

theorem Mirrors.leave_compound (sound : a.Sound p.model) (stage : a.stage = .building)
    (outer : Nest p.model a p.root gs hs q w) (level : Level p.model a q w g f c) :
    Mirrors ⟨p, a, gs, none⟩ ⟨p, .building, hs, none⟩ :=
  .of_rest sound stage (outer.leave level.incomplete) .none

/-- **A compound is finished, and the piece that it makes is delivered.** -/
theorem Mirrors.finish (outer : Nest p.model a p.root gs hs q w) (level : Level p.model a q w g f c)
    (finished : Finished p.model p.type p.root g gs hs c piece a') :
    let b := Builder.deliver ⟨p, .building, ⟨f, false⟩ :: hs, none⟩ piece hs
    Mirrors ⟨p, a', g :: gs, none⟩ { b with handles := ⟨f, true⟩ :: b.handles } := by
  have sound := finished.running.sound
  have closed : Closed a' g ⟨f, true⟩ :=
    ⟨rfl, level.kind, ⟨_, finished.cell, rfl, level.stores.readsAs.closed⟩, finished.unfrozen⟩
  have alike := outer.alike
  cases hs with
  | nil =>
    obtain rfl := List.forall₂_nil_right_iff.mp alike
    obtain ⟨stage, v, rfl, held⟩ := finished.root rfl
    exact .of_finished sound stage held (.closed closed)
  | cons h hs =>
    obtain ⟨stage, rest⟩ := finished.outer h hs rfl
    exact .of_rest sound stage rest (.closed closed)

theorem open_answers {β : Type} {wrap : β → Frame} {step : Arena.Step (Place × PlaceSpec)}
    {x : Except NodeError (β × Opening)} {R : Place × PlaceSpec → β × Opening → Arena → Prop}
    (stage : a.stage = .building)
    (alike : Alike (g :: gs) (⟨f, false⟩ :: hs))
    (agrees : Agrees (Running p.model ((g :: gs).map (·.cell))) R step a x)
    (opens : ∀ r s a', R r s a' → a'.Sound p.model ∧ a'.stage = a.stage ∧
      Awaits p.model p.root (g :: gs) (⟨wrap s.1, false⟩ :: hs) r s.2 a') :
    let b : Builder := ⟨p, .building, ⟨f, false⟩ :: hs, none⟩
    AnswersAs (take ⟨p, a, g :: gs, none⟩ step await) (b.settle do
      b.checkOpen ⟨f, false⟩
      let (f, o) ← x
      return b.await (wrap f) hs o) := by
  intro b
  have result : (do
      b.checkOpen ⟨f, false⟩
      let (f, o) ← x
      return b.await (wrap f) hs o) =
        (fun s : β × Opening => b.await (wrap s.1) hs s.2) <$> x := by
    cases x <;> rfl
  rw [result]
  refine take_answers _ agrees (.inr rfl) stage alike fun r s a' opened => ?_
  obtain ⟨sound, same, awaits⟩ := opens r s a' opened
  have mirrors := Mirrors.of_awaits sound
    (show a'.stage = (Progress.amid (⟨wrap s.1, false⟩ :: hs)).stage from same.trans stage) awaits
  refine ⟨_, ?_, mirrors⟩
  show some (_, Answer.reply (.opened r.2.view r.2.nullable)) =
    some (_, .reply (.opened s.2.view s.2.nullable))
  rw [awaits.asks.view_eq, awaits.asks.nullable_eq]
  rfl

section Resting

variable (sound : a.Sound p.model) (stage : a.stage = .building)
  (outer : Nest p.model a p.root gs hs q w) (level : Level p.model a q w g f c)
  (apart : ∀ g' ∈ gs, g'.cell ≠ g.cell) (quiet : Quiet p.model a g.cell f c)

include sound stage outer level apart quiet

theorem Mirrors.of_level : Mirrors ⟨p, a, g :: gs, none⟩ ⟨p, .building, ⟨f, false⟩ :: hs, none⟩ :=
  .of_rest sound stage (.top outer level apart quiet) .none

theorem finish_answers :
    AnswersAs (callCompound ⟨p, a, g :: gs, none⟩ g gs .finish)
      (Builder.callCompound ⟨p, .building, ⟨f, false⟩ :: hs, none⟩ ⟨f, false⟩ hs .finish) := by
  have rest : Rest p.model a p.root (g :: gs) (⟨f, false⟩ :: hs) := .top outer level apart quiet
  have running := rest.running sound
  have agrees : Agrees (Running p.model ((g :: gs).map (·.cell)))
      (fun _ piece => Finished p.model p.type p.root g gs hs c piece)
      (Arena.finish p.model g.cell) a (f.close p.model) := by
    have level' := level
    obtain ⟨-, -, -, -, begun⟩ := level
    cases begun with
    | value => exact finish_agrees outer level' apart quiet running stage
    | pair shape pair => exact finishPair_agrees outer level' shape pair apart quiet running stage
  have result : Builder.finishCompound ⟨p, .building, ⟨f, false⟩ :: hs, none⟩ ⟨f, false⟩ hs =
      (fun piece =>
        let b := Builder.deliver ⟨p, .building, ⟨f, false⟩ :: hs, none⟩ piece hs
        ({ b with handles := ⟨f, true⟩ :: b.handles }, .done)) <$> f.close p.model := by
    simp only [Builder.finishCompound, Builder.checkOpen, Builder.model]
    cases f.close p.model <;> rfl
  have called : callCompound ⟨p, a, g :: gs, none⟩ g gs .finish =
      take ⟨p, a, g :: gs, none⟩ (Arena.finish p.model g.cell) fun f _ => (f, .done) := rfl
  show AnswersAs _ (Builder.settle _ (Builder.finishCompound _ _ _))
  rw [called, result]
  refine take_answers _ agrees (.inr rfl) stage rest.alike fun _ piece a' finished => ?_
  exact ⟨_, rfl, Mirrors.finish outer level finished⟩

theorem callCompound_answers (call : Call) :
    AnswersAs (callCompound ⟨p, a, g :: gs, none⟩ g gs call)
      (Builder.callCompound ⟨p, .building, ⟨f, false⟩ :: hs, none⟩ ⟨f, false⟩ hs call) := by
  cases call with
  | drop => exact ⟨_, rfl, .leave_compound sound stage outer level⟩
  | finish => exact finish_answers sound stage outer level apart quiet
  | view view =>
    refine view_answers view (.leave_compound sound stage outer level) nofun level.cell
      level.stores.readsAs level.kind fun kind => ?_
    obtain ⟨level', quiet'⟩ := level.withView quiet kind
    exact .of_level sound stage outer level' apart quiet'
  | _ => exact ⟨_, rfl, .of_level sound stage outer level apart quiet⟩

/-- **A compound at rest answers as the compound of the builder.** -/
theorem callGrip_answers (call : Call) :
    AnswersAs (callGrip ⟨p, a, g :: gs, none⟩ g gs call)
      (Builder.callHandle ⟨p, .building, ⟨f, false⟩ :: hs, none⟩ ⟨f, false⟩ hs call) := by
  have other := callCompound_answers sound stage outer level apart quiet call
  have rest : Rest p.model a p.root (g :: gs) (⟨f, false⟩ :: hs) := .top outer level apart quiet
  have running := rest.running sound
  have alike := rest.alike
  obtain ⟨cell, view, kind⟩ := g
  obtain rfl : view = f.view := level.view
  obtain rfl : kind = f.kind := level.kind
  cases f with
  | map f =>
    have single : ∀ owner, c.shape ≠ .pair owner := by
      obtain ⟨-, -, -, -, begun⟩ := level
      cases begun with
      | value draft reaches single => exact single
    have opens {live : List CellId} (r : Place × PlaceSpec) (s : MapFrame × Opening) (a' : Arena)
        (h : OpensAs p.model live cell a (.map f) c .map r s a') :=
      And.intro h.1.running.sound (And.intro h.1.stage (level.opens outer apart single h))
    cases call with
    | entry key =>
      exact open_answers stage alike (beginEntry_agrees running level.cell level.stores quiet key)
        opens
    | key =>
      exact open_answers stage alike (beginKey_agrees running level.cell level.stores quiet) opens
    | value =>
      exact open_answers stage alike (beginValue_agrees running level.cell level.stores quiet) opens
    | _ => exact other
  | list f =>
    cases call with
    | value =>
      have level' := level
      obtain ⟨-, -, -, -, begun⟩ := level'
      cases begun with
      | value draft reaches single =>
        exact open_answers stage alike
          (beginItem_agrees running level.cell level.stores single quiet)
          fun _ _ _ h => ⟨h.1.running.sound, h.1.stage, level.opens outer apart single h⟩
      | pair shape pair =>
        exact open_answers stage alike
          (beginPairItem_agrees running level.cell level.stores quiet shape pair)
          fun _ _ _ h => ⟨h.1.1.running.sound, h.1.1.stage, level.opens_pair outer apart shape h⟩
    | _ => exact other

end Resting

/-! ## Calls to a finished compound -/

/-- **A finished compound answers as the one of the builder**: it can be left, or go on in another
view. -/
theorem callGrip_closed_answers (left : Mirrors ⟨p, a, gs, none⟩ ⟨p, progress, hs, none⟩)
    (running : progress ≠ .errored) (closed : Closed a g h)
    (whole : ∀ {g h}, Closed a g h → Mirrors ⟨p, a, g :: gs, none⟩ ⟨p, progress, h :: hs, none⟩)
    (call : Call) :
    AnswersAs (callGrip ⟨p, a, g :: gs, none⟩ g gs call)
      (Builder.callHandle ⟨p, progress, h :: hs, none⟩ h hs call) := by
  have mirrors := whole closed
  obtain ⟨frame, finished⟩ := h
  obtain ⟨rfl, sameKind, ⟨c, hc, finished, reads⟩, unfrozen⟩ := closed
  have checked := runs_checkOpen_error (m := p.model) hc finished
  rw [reads.type_eq] at checked
  have viewed (view : View) := view_answers view left running hc reads sameKind fun _ =>
    whole ⟨rfl, sameKind.trans (frame.kind_withView view).symm,
      ⟨c, hc, finished, reads.withView view⟩, unfrozen⟩
  obtain ⟨cell, gripView, kind⟩ := g
  have ends : Runs (Arena.finish p.model cell) a _ a := checked.bind_error
  have closes := mirrors.refuse (fun f _ => (f, .done)) running ends
  obtain rfl : kind = frame.kind := sameKind
  cases frame with
  | map f =>
    have entry (key : String) : Runs (beginEntry p.model cell key gripView) a _ a :=
      checked.bind_error
    have key : Runs (beginKey p.model cell gripView) a _ a := checked.bind_error
    have value : Runs (beginValue p.model cell gripView) a _ a := checked.bind_error
    cases call with
    | entry text => exact mirrors.refuse await running (entry text)
    | key => exact mirrors.refuse await running key
    | value => exact mirrors.refuse await running value
    | finish => exact closes
    | view view => exact viewed view
    | drop => exact ⟨_, rfl, left⟩
    | _ => exact ⟨_, rfl, mirrors⟩
  | list f =>
    have item : Runs (beginItem p.model cell gripView) a _ a := checked.bind_error
    cases call with
    | value => exact mirrors.refuse await running item
    | finish => exact closes
    | view view => exact viewed view
    | drop => exact ⟨_, rfl, left⟩
    | _ => exact ⟨_, rfl, mirrors⟩

/-! ## Calls to an errored builder -/

/-- **An errored builder refuses every step**, and what is open can be left. -/
theorem callGrip_errored_answers (left : Mirrors ⟨p, a, gs, none⟩ ⟨p, .errored, hs, none⟩)
    (mirrors : Mirrors ⟨p, a, g :: gs, none⟩ ⟨p, .errored, h :: hs, none⟩)
    (kind : g.kind = h.frame.kind) (call : Call) :
    AnswersAs (callGrip ⟨p, a, g :: gs, none⟩ g gs call)
      (Builder.callHandle ⟨p, .errored, h :: hs, none⟩ h hs call) := by
  obtain ⟨frame, finished⟩ := h
  obtain ⟨cell, view, gripKind⟩ := g
  obtain rfl : gripKind = frame.kind := kind
  obtain ⟨cells, root, stage, frozen⟩ := a
  obtain rfl : stage = .errored := mirrors.stands.stage
  cases frame with
  | map f =>
    cases call with
    | view | drop => exact ⟨_, rfl, left⟩
    | _ => exact ⟨_, rfl, mirrors⟩
  | list f =>
    cases call with
    | view | drop => exact ⟨_, rfl, left⟩
    | _ => exact ⟨_, rfl, mirrors⟩

/-! ## Calls to the builder itself -/

/-- **With nothing open a flat builder answers as the builder.** -/
theorem callOnce_bare_answers (mirrors : Mirrors ⟨p, a, [], none⟩ ⟨p, progress, [], none⟩)
    (call : Call) :
    AnswersAs (callOnce ⟨p, a, [], none⟩ call) (Builder.call ⟨p, progress, [], none⟩ call) := by
  have stage : a.stage = progress.stage := mirrors.stands.stage
  have refused (ne : a.stage ≠ .initial) :
      Runs (openRoot p) a (.error (.assembly (.assemblerFinalized p.typeName))) a := by
    refine (runs_get a).bind ?_
    rw [if_neg ne]
    exact runs_throw _ a
  cases call with
  | root =>
    cases progress with
    | initial =>
      have run : Runs (openRoot p) a (.ok (.root, ⟨.value p.type, p.view, false⟩)) a := by
        refine (runs_get a).bind ?_
        rw [if_pos (show a.stage = .initial from stage)]
        exact runs_pure _ a
      have absent : a.root = .absent := by
        cases mirrors.stands with
        | initial stage absent => exact absent
      have taken := take_ok (f := ⟨p, a, [], none⟩) await (by rw [stage]; nofun) run
      have awaits : Awaits p.model p.root [] [] (.root, ⟨.value p.type, p.view, false⟩) p.root a :=
        ⟨.root, congrArg some absent, .value ..⟩
      have opened : a.stage = (Progress.amid []).stage := stage
      exact ⟨_, taken, .of_awaits mirrors.sound opened awaits⟩
    | building => exact mirrors.refuse await nofun (refused (by rw [stage]; nofun))
    | finished v => exact mirrors.refuse await nofun (refused (by rw [stage]; nofun))
    | errored =>
      obtain ⟨cells, root, _, frozen⟩ := a
      cases stage
      exact ⟨_, rfl, mirrors⟩
  | state =>
    refine ⟨_, ?_, mirrors⟩
    show some (_, Answer.state a.stage) = some (_, .state progress.stage)
    rw [stage]
  | _ => exact ⟨_, rfl, mirrors⟩

/-! ## All single calls -/

/-- **A flat builder that mirrors a builder answers each single call as the builder does.** -/
theorem callOnce_answers {f : FlatBuilder} {b : Builder} (mirrors : Mirrors f b) {call : Call}
    (single : Single call) : AnswersAs (f.callOnce call) (b.call call) := by
  obtain ⟨p', a, gs, o⟩ := f
  obtain ⟨p, progress, hs, o'⟩ := b
  obtain ⟨rfl, sound, alive, stands⟩ := mirrors
  have stands : Stands p' a gs o progress hs o' := stands
  cases stands with
  | initial stage absent =>
    exact callOnce_bare_answers ⟨rfl, sound, alive, .initial stage absent⟩ call
  | opened stage awaits => exact callOpening_answers sound stage awaits single
  | resting stage rest topped =>
    cases topped with
    | none =>
      cases rest with
      | root incomplete =>
        exact callOnce_bare_answers (.of_rest sound stage (.root incomplete) .none) call
      | top outer level apart quiet =>
        exact callGrip_answers sound stage outer level apart quiet call
    | closed closed =>
      exact callGrip_closed_answers (.of_rest sound stage rest .none) nofun closed
        (fun closed => .of_rest sound stage rest (.closed closed)) call
  | finished stage held topped =>
    cases topped with
    | none => exact callOnce_bare_answers (.of_finished sound stage held .none) call
    | closed closed =>
      exact callGrip_closed_answers (.of_finished sound stage held .none) nofun closed
        (fun closed => .of_finished sound stage held (.closed closed)) call
  | errored stage alike =>
    cases alike with
    | nil => exact callOnce_bare_answers ⟨rfl, sound, alive, .errored stage .nil⟩ call
    | cons kind alike =>
      exact callGrip_errored_answers
        (.of_errored sound stage (List.forall_mem_cons.mp alive).2 alike)
        (.of_errored sound stage alive (.cons kind alike)) kind call

end FlatBuilder

end DualView
