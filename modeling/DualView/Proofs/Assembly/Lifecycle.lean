import DualView.Proofs.Assembly.Runs

/-!
# The life of a builder

A builder is initial, then building, then finished; or a call fails and it is errored for good.  What
a call may do to this state is said once, by `Progress.Moves`.  An errored builder refuses every call
in the same way.  A finished one has nothing open that could still be filled (`Builder.AtRest`), so
each call finds its compound finished and is refused before it changes anything.

* `Builder.offers`: which calls the innermost of what is open has.
* `Builder.call_answers`: what one call does; `Builder.run_atRest`, `Builder.run_stays`: and a run.
* `Builder.call_of_errored`, `Builder.call_of_finished`: the calls that are refused.
* `Builder.lifecycle`: what every run does.
-/

namespace DualView

/-! ## Moves -/

namespace Progress

/-- The builder takes values. -/
def Live (p : Progress) : Prop := p = initial ∨ p = building

/-- How one call may move the state of a builder. -/
inductive Moves : Progress → Progress → Prop
  | stay (p : Progress) : Moves p p
  | start : Moves initial building
  | finish {p : Progress} (live : p.Live) (v : Value) : Moves p (finished v)
  | fail {p : Progress} (live : p.Live) : Moves p errored

theorem live_or (p : Progress) : p.Live ∨ (∃ v, p = finished v) ∨ p = errored := by
  cases p with
  | initial => exact .inl (.inl rfl)
  | building => exact .inl (.inr rfl)
  | finished v => exact .inr (.inl ⟨v, rfl⟩)
  | errored => exact .inr (.inr rfl)

theorem Moves.of_finished {v : Value} {p : Progress} (h : Moves (finished v) p) :
    p = finished v := by
  cases h with
  | stay => rfl
  | finish live => rcases live with h | h <;> contradiction
  | fail live => rcases live with h | h <;> contradiction

theorem Moves.of_errored {p : Progress} (h : Moves errored p) : p = errored := by
  cases h with
  | stay => rfl
  | finish live => rcases live with h | h <;> contradiction
  | fail live => rfl

end Progress

/-! ## What can be called -/

namespace Call

def assembles : Call → Bool
  | state | drop => false
  | _ => true

def changesView : Call → Bool
  | view _ => true
  | _ => false

end Call

def Reply.isFailure : Reply → Bool
  | .failed _ => true
  | _ => false

namespace Builder

/-- The innermost of what is open has the call: an opening those that fill it, a compound those that
open its parts or finish it, and a builder with nothing open its own. -/
def offers (b : Builder) : Call → Bool :=
  match b.opening, b.handles with
  | some _, _ => fun c => match c with
    | .null | .scalar _ | .map | .list | .copy _ | .fill _ | .drop => true
    | _ => false
  | none, ⟨.map _, _⟩ :: _ => fun c => match c with
    | .entry _ | .key | .value | .finish | .view _ | .drop => true
    | _ => false
  | none, ⟨.list _, _⟩ :: _ => fun c => match c with
    | .value | .finish | .view _ | .drop => true
    | _ => false
  | none, [] => fun c => match c with
    | .root | .state => true
    | _ => false

def calledName (b : Builder) : String :=
  match b.handles with
  | [] => b.typeName
  | h :: _ => b.model.schema.nameOf h.frame.type

variable {b b' : Builder}

theorem call_of_not_offers {c : Call} (h : b.offers c = false) :
    b.call c = (b, .notApplicable) := by
  obtain ⟨prototype, progress, handles, _ | o⟩ := b
  · cases handles with
    | nil => cases c <;> first | rfl | contradiction
    | cons top outer =>
      obtain ⟨frame, finished⟩ := top
      cases frame <;> cases c <;> first | rfl | contradiction
  · cases c <;> first | rfl | contradiction

/-! ## Settling -/

theorem settle_errored (h : b.progress = .errored) (outcome : Except NodeError (Builder × Reply)) :
    b.settle outcome = (b, .failed (.assembly .builderErrored)) := by
  rw [settle.eq_def, h]

theorem settle_failed_live (h : b.progress.Live) (e : NodeError) :
    b.settle (.error e) = ({ b with progress := .errored }, .failed e) := by
  rcases h with h | h <;> rw [settle.eq_def, h]

theorem settle_failed_finished {v : Value} (h : b.progress = .finished v) (e : NodeError) :
    b.settle (.error e) = (b, .failed e) := by
  rw [settle.eq_def, h]

theorem settle_ok (h : b.progress ≠ .errored) (r : Builder × Reply) : b.settle (.ok r) = r := by
  rw [settle.eq_def]
  cases hp : b.progress <;> first | rfl | exact absurd hp h

/-! ## What follows on a call -/

/-- When the builder is finished, it waits for nothing and has nothing unfinished open. -/
def AtRest (b : Builder) : Prop :=
  ∀ v, b.progress = .finished v → b.opening = none ∧ ∀ h ∈ b.handles, h.finished = true

/-- What a builder may be after a call. -/
structure Follows (b b' : Builder) : Prop where
  prototype_eq : b'.prototype = b.prototype
  moves : b.progress.Moves b'.progress
  atRest : b'.AtRest

theorem atRest_of_live (live : b.progress.Live) : b.AtRest := by
  intro v hv
  rcases live with live | live <;> exact nomatch live.symm.trans hv

theorem ofPrototype_atRest (p : Prototype) : (ofPrototype p).AtRest :=
  atRest_of_live (.inl rfl)

theorem ne_errored_of_live (live : b.progress.Live) : b.progress ≠ .errored := by
  intro h
  rcases live with live | live <;> exact nomatch live.symm.trans h

theorem ne_finished_of_live (live : b.progress.Live) {v : Value} : b.progress ≠ .finished v := by
  intro h
  rcases live with live | live <;> exact nomatch live.symm.trans h

theorem AtRest.live (rest : b.AtRest) (running : b.progress ≠ .errored)
    (left : b.opening ≠ none ∨ ∃ h ∈ b.handles, h.finished = false) : b.progress.Live := by
  rcases b.progress.live_or with live | ⟨v, hv⟩ | he
  · exact live
  · obtain ⟨closed, finished⟩ := rest v hv
    rcases left with opened | ⟨h, mem, unfinished⟩
    · exact absurd closed opened
    · exact absurd ((finished h mem).symm.trans unfinished) nofun
  · exact absurd he running

theorem follows_of_progress_eq (prototype_eq : b'.prototype = b.prototype)
    (progress_eq : b'.progress = b.progress) (rest : b'.AtRest) : b.Follows b' :=
  ⟨prototype_eq, progress_eq ▸ .stay _, rest⟩

theorem Follows.refl (rest : b.AtRest) : b.Follows b := follows_of_progress_eq rfl rfl rest

/-- What a builder and its reply may be after a call: while it takes values, a failure leaves it
errored. -/
structure Answers (b : Builder) (r : Builder × Reply) : Prop where
  follows : b.Follows r.1
  failed : b.progress.Live → r.2.isFailure = true → r.1.progress = .errored

theorem Answers.of_follows {r : Builder × Reply} (follows : b.Follows r.1)
    (accepted : r.2.isFailure = false) : b.Answers r :=
  ⟨follows, fun _ failure => nomatch accepted.symm.trans failure⟩

/-- A call that may fail does what it does when it succeeds, or leaves a builder as `left`. -/
theorem settle_answers {left : Builder} (same : b.Follows left)
    (progress_eq : left.progress = b.progress) {outcome : Except NodeError (Builder × Reply)}
    (ok : b.progress ≠ .errored → ∀ r, outcome = .ok r → b.Answers r) :
    b.Answers (left.settle outcome) := by
  rcases b.progress.live_or with live | ⟨v, hv⟩ | he
  · have running := ne_errored_of_live live
    cases outcome with
    | error e =>
      rw [settle_failed_live (progress_eq ▸ live)]
      exact ⟨⟨same.prototype_eq, .fail live, nofun⟩, fun _ _ => rfl⟩
    | ok r =>
      rw [settle_ok (progress_eq ▸ running)]
      exact ok running r rfl
  · have running : b.progress ≠ .errored := fun h => nomatch hv.symm.trans h
    cases outcome with
    | error e =>
      rw [settle_failed_finished (progress_eq.trans hv)]
      exact ⟨same, fun live => absurd hv (ne_finished_of_live live)⟩
    | ok r =>
      rw [settle_ok (progress_eq ▸ running)]
      exact ok running r rfl
  · rw [settle_errored (progress_eq.trans he)]
    exact ⟨same, fun live => absurd he (ne_errored_of_live live)⟩

theorem deliver_follows (live : b.progress.Live) (closed : b.opening = none) (piece : Piece)
    (handles : List Handle) : b.Follows (b.deliver piece handles) ∧
      ((b.deliver piece handles).progress.Live ∨ (b.deliver piece handles).handles = []) := by
  cases handles with
  | cons h outer => exact ⟨follows_of_progress_eq rfl rfl (atRest_of_live live), .inl live⟩
  | nil =>
    rcases piece with (_ | v) | ⟨i, value⟩
    · exact ⟨follows_of_progress_eq rfl rfl (atRest_of_live live), .inl live⟩
    · have nothing : ∀ h ∈ ([] : List Handle), h.finished = true := List.forall_mem_nil _
      exact ⟨⟨rfl, .finish live v, fun _ _ => ⟨closed, nothing⟩⟩, .inr rfl⟩
    · exact ⟨follows_of_progress_eq rfl rfl (atRest_of_live live), .inl live⟩

/-! ### Openings -/

theorem fillOpening_answers (live : b.progress.Live) {piece : Except NodeError Piece}
    {r : Builder × Reply} (hr : b.fillOpening piece = .ok r) : b.Answers r := by
  obtain ⟨p, -, hr⟩ := bind_eq_ok_iff.mp hr
  cases hr
  obtain ⟨delivered, -⟩ := deliver_follows (b := { b with opening := none }) live rfl p b.handles
  exact .of_follows ⟨delivered.prototype_eq, delivered.moves, delivered.atRest⟩ rfl

theorem enter_answers (live : b.progress.Live) {frame : Except NodeError Frame} {reply : Reply}
    (accepted : reply.isFailure = false) {r : Builder × Reply} (hr : b.enter frame reply = .ok r) :
    b.Answers r := by
  obtain ⟨f, -, hr⟩ := bind_eq_ok_iff.mp hr
  cases hr
  refine .of_follows ?_ accepted
  rcases live with live | live
  · refine ⟨rfl, ?_, atRest_of_live (.inr (by rw [live]))⟩
    rw [live]
    exact .start
  · exact follows_of_progress_eq rfl (by rw [live]) (atRest_of_live (.inr (by rw [live])))

/-- A builder with an opening takes values, unless it is errored. -/
theorem callOpening_answers (rest : b.AtRest) {o : Opening} (opened : b.opening = some o)
    (c : Call) : b.Answers (b.callOpening o c) := by
  have live (running : b.progress ≠ .errored) : b.progress.Live :=
    rest.live running (.inl (by rw [opened]; nofun))
  have left : b.Follows { b with opening := none } :=
    follows_of_progress_eq rfl rfl fun v hv => ⟨rfl, (rest v hv).2⟩
  have filled (piece : Except NodeError Piece) :
      b.Answers (settle { b with opening := none } (b.fillOpening piece)) :=
    settle_answers left rfl fun running _ hr => fillOpening_answers (live running) hr
  have entered (frame : Except NodeError Frame) (reply : Reply) (accepted : reply.isFailure = false) :
      b.Answers (settle { b with opening := none } (b.enter frame reply)) :=
    settle_answers left rfl fun running _ hr => enter_answers (live running) accepted hr
  cases c with
  | drop => exact .of_follows left rfl
  | null => exact filled _
  | scalar a => exact filled _
  | copy d => exact filled _
  | fill d => exact filled _
  | map => exact entered _ _ rfl
  | list => exact entered _ _ rfl
  | _ => exact .of_follows (.refl rest) rfl

/-! ### Compounds -/

section Compounds

variable {h : Handle} {outer : List Handle}

/-- A builder with an unfinished compound takes values, unless it is errored. -/
theorem live_of_checkOpen (rest : b.AtRest) (running : b.progress ≠ .errored)
    (handles : b.handles = h :: outer) (unfinished : b.checkOpen h = .ok ()) : b.progress.Live := by
  refine rest.live running (.inr ⟨h, handles ▸ List.mem_cons_self, ?_⟩)
  exact checkOpen_eq_ok_iff.mp unfinished

/-- A compound may be left. -/
theorem leave_follows (rest : b.AtRest) (handles : b.handles = h :: outer) :
    b.Follows { b with handles := outer } := by
  refine follows_of_progress_eq rfl rfl fun v hv => ?_
  obtain ⟨closed, finished⟩ := rest v hv
  exact ⟨closed, fun h' mem => finished h' (handles ▸ List.mem_cons_of_mem h mem)⟩

theorem replace_follows (rest : b.AtRest) (handles : b.handles = h :: outer) (frame : Frame) :
    b.Follows { b with handles := { h with frame := frame } :: outer } := by
  refine follows_of_progress_eq rfl rfl fun v hv => ?_
  obtain ⟨closed, finished⟩ := rest v hv
  rw [handles, List.forall_mem_cons] at finished
  exact ⟨closed, List.forall_mem_cons.mpr finished⟩

theorem finishCompound_answers (rest : b.AtRest) (running : b.progress ≠ .errored)
    (closed : b.opening = none) (handles : b.handles = h :: outer) {r : Builder × Reply}
    (hr : b.finishCompound h outer = .ok r) : b.Answers r := by
  obtain ⟨⟨⟩, unfinished, hr⟩ := bind_eq_ok_iff.mp hr
  obtain ⟨piece, -, hr⟩ := bind_eq_ok_iff.mp hr
  cases hr
  have live := live_of_checkOpen rest running handles unfinished
  obtain ⟨delivered, state⟩ := deliver_follows live closed piece outer
  refine .of_follows ⟨delivered.prototype_eq, delivered.moves, ?_⟩ rfl
  -- only the outermost compound finishes the builder, and then it is the only one
  rcases state with state | state
  · exact atRest_of_live state
  · intro v hv
    refine ⟨(delivered.atRest v hv).1, ?_⟩
    rw [state]
    intro h' mem
    rw [List.mem_singleton.mp mem]

theorem callCompound_answers (rest : b.AtRest) (closed : b.opening = none)
    (handles : b.handles = h :: outer) (c : Call) : b.Answers (b.callCompound h outer c) := by
  cases c with
  | drop => exact .of_follows (leave_follows rest handles) rfl
  | finish =>
    exact settle_answers (.refl rest) rfl fun running r hr =>
      finishCompound_answers rest running closed handles hr
  | view view =>
    refine settle_answers (leave_follows rest handles) rfl fun _ r hr => ?_
    obtain ⟨frame, -, hr⟩ := bind_eq_ok_iff.mp hr
    cases hr
    refine .of_follows (replace_follows rest handles frame) ?_
    cases frame <;> rfl
  | _ => exact .of_follows (.refl rest) rfl

theorem callStep_answers {β : Type} (wrap : β → Frame) (rest : b.AtRest)
    (handles : b.handles = h :: outer) (step : Except NodeError (β × Opening)) :
    b.Answers (b.settle do
      b.checkOpen h
      let (f, o) ← step
      return b.await (wrap f) outer o) := by
  refine settle_answers (.refl rest) rfl fun running r hr => ?_
  obtain ⟨⟨⟩, unfinished, hr⟩ := bind_eq_ok_iff.mp hr
  obtain ⟨⟨f, o⟩, -, hr⟩ := bind_eq_ok_iff.mp hr
  cases hr
  have live := live_of_checkOpen rest running handles unfinished
  exact .of_follows (follows_of_progress_eq rfl rfl (atRest_of_live live)) rfl

theorem callHandle_answers (rest : b.AtRest) (closed : b.opening = none)
    (handles : b.handles = h :: outer) (c : Call) : b.Answers (b.callHandle h outer c) := by
  rw [callHandle.eq_def]
  split
  · exact callStep_answers .map rest handles _
  · exact callStep_answers .map rest handles _
  · exact callStep_answers .map rest handles _
  · exact callStep_answers .list rest handles _
  · exact callCompound_answers rest closed handles _

end Compounds

/-! ### All calls -/

theorem openRoot_answers {r : Builder × Reply} (hr : b.openRoot = .ok r) : b.Answers r := by
  rw [openRoot] at hr
  split at hr
  · next initial =>
    cases hr
    exact .of_follows (follows_of_progress_eq rfl rfl (atRest_of_live (.inl initial))) rfl
  · contradiction

/-- **What one call does.** -/
theorem call_answers (rest : b.AtRest) (c : Call) : b.Answers (b.call c) := by
  rw [call.eq_def]
  split
  · next o opened => exact callOpening_answers rest opened c
  · next h outer closed handles => exact callHandle_answers rest closed handles c
  · cases c with
    | root => exact settle_answers (.refl rest) rfl fun _ r hr => openRoot_answers hr
    | _ => exact .of_follows (.refl rest) rfl

/-! ## Runs -/

/-- **Whatever is called, a finished builder has nothing unfinished open.** -/
theorem run_atRest (rest : b.AtRest) (calls : List Call) : (b.run calls).1.AtRest := by
  induction calls generalizing b with
  | nil => exact rest
  | cons c later ih => exact ih (call_answers rest c).follows.atRest

/-- A state that no call moves is kept by every run. -/
theorem run_stays {p : Progress} (fixed : ∀ p', p.Moves p' → p' = p) (rest : b.AtRest)
    (at_state : b.progress = p) (calls : List Call) :
    (b.run calls).1.progress = p ∧ (b.run calls).1.prototype = b.prototype := by
  induction calls generalizing b with
  | nil => exact ⟨at_state, rfl⟩
  | cons c later ih =>
    have follows := (call_answers rest c).follows
    have next : (b.call c).1.progress = p := fixed _ (at_state ▸ follows.moves)
    obtain ⟨state, prototype_eq⟩ := ih follows.atRest next
    exact ⟨state, prototype_eq.trans follows.prototype_eq⟩

/-! ## Calls that are refused -/

/-- **An errored builder refuses every call in the same way.** -/
theorem call_of_errored (errored : b.progress = .errored) {c : Call} (offered : b.offers c = true)
    (assembles : c.assembles = true) : (b.call c).2 = .failed (.assembly .builderErrored) := by
  have refused (left : Builder) (progress_eq : left.progress = b.progress)
      (outcome : Except NodeError (Builder × Reply)) :
      (left.settle outcome).2 = .failed (.assembly .builderErrored) := by
    rw [settle_errored (progress_eq.trans errored)]
  obtain ⟨prototype, progress, handles, _ | o⟩ := b
  · cases handles with
    | nil => cases c <;> first | exact refused ⟨prototype, progress, [], none⟩ rfl _ | contradiction
    | cons top outer =>
      obtain ⟨frame, finished⟩ := top
      -- a call that goes on in a view gives the compound up first
      cases frame <;> cases c <;>
        first
        | exact refused ⟨prototype, progress, _ :: outer, none⟩ rfl _
        | exact refused ⟨prototype, progress, outer, none⟩ rfl _
        | contradiction
  · cases c <;> first | exact refused ⟨prototype, progress, handles, none⟩ rfl _ | contradiction

/-- **A finished builder refuses every call that would assemble, and is left as it is.** -/
theorem call_of_finished (rest : b.AtRest) {v : Value} (done : b.progress = .finished v) {c : Call}
    (offered : b.offers c = true) (assembles : c.assembles = true)
    (keepsView : c.changesView = false) :
    b.call c = (b, .failed (.assembly (.assemblerFinalized b.calledName))) := by
  have refused (e : NodeError) : b.settle (.error e) = (b, .failed e) :=
    settle_failed_finished done e
  obtain ⟨closed, finished⟩ := rest v done
  obtain ⟨prototype, progress, handles, opening⟩ := b
  cases done
  cases closed
  cases handles with
  | nil => cases c <;> first | exact refused _ | contradiction
  | cons top outer =>
    obtain ⟨frame, _⟩ := top
    cases finished _ List.mem_cons_self
    cases frame <;> cases c <;> first | exact refused _ | contradiction

theorem view_of_finished (rest : b.AtRest) {v : Value} (done : b.progress = .finished v)
    (view : View) : ∃ handles, (b.call (.view view)).1 = { b with handles := handles } := by
  obtain ⟨closed, -⟩ := rest v done
  obtain ⟨prototype, progress, handles, opening⟩ := b
  cases done
  cases closed
  cases handles with
  | nil => exact ⟨[], rfl⟩
  | cons top outer =>
    have left : ∃ handles, (callCompound ⟨prototype, .finished v, top :: outer, none⟩ top outer
        (.view view)).1 = ⟨prototype, .finished v, handles, none⟩ := by
      cases h : top.frame.inView prototype.model view with
      | error e =>
        refine ⟨outer, ?_⟩
        simp only [callCompound, model, h]
        rfl
      | ok frame =>
        refine ⟨{ top with frame := frame } :: outer, ?_⟩
        simp only [callCompound, model, h]
        rfl
    obtain ⟨frame, finished⟩ := top
    cases frame <;> exact left

/-- **The life of a builder.**  Whatever has been called, a call moves its state as `Progress.Moves`
says, and one that fails while the builder takes values leaves it errored.  An errored builder stays
so, refuses every call and builds nothing.  A finished one keeps its value: every call that would
assemble is refused and changes nothing, to go on in a view changes only what is open, and what is
built is what would have been built before. -/
theorem lifecycle (p : Prototype) (calls : List Call) :
    let b := ((ofPrototype p).run calls).1
    (∀ c, b.offers c = false → b.call c = (b, .notApplicable)) ∧
    (∀ c, b.progress.Moves (b.call c).1.progress) ∧
    (∀ c e, b.progress.Live → (b.call c).2 = .failed e → (b.call c).1.progress = .errored) ∧
    (b.progress = .errored → ∀ later, let b' := (b.run later).1
      b'.progress = .errored ∧ b'.build = .error (.assembly .builderErrored) ∧
      ∀ c, b'.offers c = true → c.assembles = true →
        (b'.call c).2 = .failed (.assembly .builderErrored)) ∧
    ∀ v, b.progress = .finished v → ∀ later, let b' := (b.run later).1
      b'.progress = .finished v ∧ b'.build = b.build ∧
      (∀ c, b'.offers c = true → c.assembles = true → c.changesView = false →
        b'.call c = (b', .failed (.assembly (.assemblerFinalized b'.calledName)))) ∧
      ∀ view, ∃ handles, (b'.call (.view view)).1 = { b' with handles := handles } := by
  intro b
  have rest : b.AtRest := run_atRest (ofPrototype_atRest p) calls
  refine ⟨fun c => call_of_not_offers, fun c => (call_answers rest c).follows.moves, ?_, ?_, ?_⟩
  · intro c e live failed
    exact (call_answers rest c).failed live (by rw [failed]; rfl)
  · intro errored later b'
    obtain ⟨state, -⟩ := run_stays (fun _ => Progress.Moves.of_errored) rest errored later
    refine ⟨state, ?_, fun c => call_of_errored state⟩
    rw [build.eq_def, state]
  · intro v done later b'
    obtain ⟨state, prototype_eq⟩ := run_stays (fun _ => Progress.Moves.of_finished) rest done later
    have rest' : b'.AtRest := run_atRest rest later
    refine ⟨state, ?_, fun c => call_of_finished rest' state, view_of_finished rest' state⟩
    rw [build.eq_def, build.eq_def, state, done, model, prototype_eq]
    rfl

theorem lifecycle_sample :
    let b := ((ofPrototype Sample.prototype).run Sample.calls.dropLast).1
    let e := ((ofPrototype Sample.prototype).run [.root, .map]).1
    b.progress = .finished Sample.value ∧
      (b.run [.value, .view .representation, .finish, .drop, .root]).1.build = b.build ∧
      b.call .finish = (b, .failed (.assembly (.assemblerFinalized "Items"))) ∧
      e.progress = .errored ∧ (e.run [.drop, .root]).1.build = .error (.assembly .builderErrored) ∧
      (e.call .root).2 = .failed (.assembly .builderErrored) := by
  intro b e
  obtain ⟨-, -, -, -, finished⟩ := lifecycle Sample.prototype Sample.calls.dropLast
  obtain ⟨-, -, -, errored, -⟩ := lifecycle Sample.prototype [.root, .map]
  have done : b.progress = .finished Sample.value := rfl
  have broken : e.progress = .errored := rfl
  refine ⟨done, (finished _ done _).2.1, ?_, broken, (errored broken _).2.1, ?_⟩
  · exact (finished _ done []).2.2.1 .finish rfl rfl rfl
  · exact (errored broken []).2.2 .root rfl rfl

end Builder

end DualView
