import DualView.Proofs.Arena.Runs
import DualView.Proofs.Assembly.EntrySteps

/-!
# Entries of an arena in one step and in two

To open the value of an entry by a text leaves the same arena as to open its key, fill that with the
text and open the value.  The key that was filled in is taken out of its cell before the value is
opened, so that the cell is as if the key had never been pending (`Arena.TakesKey`).  That a cell
without an entry at hand has no key pending is what its frame says of it.

* `Arena.beginEntry_cases`: an entry fails, or its key can be opened and filled, and the value is
  opened alike in both ways.
* `FlatBuilder.entryInSteps_eq`: the two ways for a builder with an entry that does not fail.
* `FlatBuilder.entry_leaves_one_arena`: the two ways in every run.
-/

namespace DualView

namespace Arena

variable {m : Model} {a a' : Arena} {κ : CellId} {c : Cell} {text : String} {view : View}
  {demand : PlaceDemand} {d : Draft}

/-! ## Keys that are taken out -/

/-- The key of an entry is opened and filled with a text, and the value is then opened as it is by
the text. -/
structure TakesKey (m : Model) (κ : CellId) (view : View) (text : String) (a : Arena)
    (spec : PlaceSpec) (opened filled : Arena) : Prop where
  key : Runs (beginKey m κ view) a (.ok (.inside κ .key, spec)) opened
  fill : Runs (assign m (.inside κ .key) spec (.string text)) opened (.ok ()) filled
  value : beginValue m κ view filled = beginEntry m κ text view a
  opened_stage : opened.stage = a.stage
  filled_stage : filled.stage = a.stage

def openUnder (m : Model) (κ : CellId) (c : Cell) (view : View) (d : Draft) :
    Step (Place × PlaceSpec) :=
  match c.shape with
  | .map keyType _ _ => do openEntry m κ (← freezeValue m keyType d) view
  | _ =>
    match d.text? with
    | some name => openNamed m κ name view
    | none => throw (.assembly (.incompleteValue (m.schema.nameOf c.type)))

/-- What the key of an entry is. -/
inductive KeyDemand (c : Cell) : PlaceDemand → Prop
  | map {key value : TypeId} {nullable : Bool} (shape : c.shape = .map key value nullable) :
      KeyDemand c (.value key)
  | name (shape : c.shape = .struct ∨ c.shape = .union) : KeyDemand c (.name c.type)

theorem runs_beginKey (hc : a.cells[κ]? = some c) (unfinished : c.finished = false)
    (settled : a.settles? c = some true) (asks : KeyDemand c demand) :
    Runs (beginKey m κ view) a (.ok (.inside κ .key, ⟨demand, view, false⟩))
      (a.store κ { c with pendingKey := .absent, phase := .key }) := by
  have hc₁ := getElem?_store_self hc { c with phase := .settled }
  have opened : Runs (do
      update κ ({ · with pendingKey := .absent, phase := .key })
      return (Place.inside κ .key, (⟨demand, view, false⟩ : PlaceSpec)))
      (a.store κ { c with phase := .settled }) (.ok (.inside κ .key, ⟨demand, view, false⟩))
      (a.store κ { c with pendingKey := .absent, phase := .key }) := by
    rw [← store_store a κ { c with phase := .settled }
      { c with pendingKey := .absent, phase := .key }]
    exact (runs_update hc₁ _).bind (runs_pure _ _)
  refine (runs_checkOpen hc unfinished).bind ((runs_settle hc settled).bind
    ((runs_cell hc₁).bind ?_))
  dsimp only
  rcases asks with ⟨shape⟩ | ⟨shape | shape⟩ <;>
    (simp only [shape]
     simpa only [shape] using opened)

theorem runs_assignKey (hc : a.cells[κ]? = some c) {spec : PlaceSpec} {s : Scalar}
    (made : Runs (scalarDraft m spec s) a (.ok d) a) :
    Runs (assign m (.inside κ .key) spec s) a (.ok ()) (a.store κ { c with pendingKey := d }) :=
  made.bind ((runs_cell hc).bind ((runs_need rfl a).bind (runs_update hc _)))

theorem beginValue_eq_openUnder (hc : a.cells[κ]? = some c) (unfinished : c.finished = false)
    (phase : c.phase = .key) (complete : a.complete? c.pendingKey = some true) :
    beginValue m κ view a =
      openUnder m κ c view c.pendingKey
        (a.store κ { c with pendingKey := .absent, phase := .settled }) := by
  refine (runs_checkOpen hc unfinished).bind_eq.trans ((runs_cell hc).bind_eq.trans ?_)
  dsimp only
  rw [phase]
  refine (runs_get a).bind_eq.trans ((runs_need complete a).bind_eq.trans ?_)
  exact (runs_update hc _).bind_eq

/-- **A key that is taken out leaves no trace**: the value is opened in a cell that is as it was
when it was settled. -/
theorem takesKey (m : Model) (text : String) (view : View) (hc : a.cells[κ]? = some c)
    (unfinished : c.finished = false) (keyless : c.pendingKey = .absent)
    (settled : a.settles? c = some true) (asks : KeyDemand c demand)
    (made : ∀ a, Runs (scalarDraft m ⟨demand, view, false⟩ (.string text)) a (.ok d) a)
    (complete : ∀ a : Arena, a.complete? d = some true)
    (entry : beginEntry m κ text view a =
      openUnder m κ c view d (a.store κ { c with phase := .settled })) :
    TakesKey m κ view text a ⟨demand, view, false⟩
      (a.store κ { c with pendingKey := .absent, phase := .key })
      (a.store κ { c with pendingKey := d, phase := .key }) where
  key := runs_beginKey hc unfinished settled asks
  fill := by
    have filled := runs_assignKey
      (getElem?_store_self hc { c with pendingKey := .absent, phase := .key }) (made _)
    rwa [store_store] at filled
  value := by
    rw [beginValue_eq_openUnder (getElem?_store_self hc { c with pendingKey := d, phase := .key })
      unfinished rfl (complete _), store_store, entry, ← keyless]
    rfl
  opened_stage := rfl
  filled_stage := rfl

/-! ## Entries that do not fail -/

/-- A scalar makes one draft for a value, in whichever arena, and the draft is complete. -/
theorem exists_scalarDraft (m : Model) (type : TypeId) (view : View) (nullable : Bool)
    (s : Scalar) :
    ∃ made : Except NodeError Draft,
      (∀ a, Runs (scalarDraft m ⟨.value type, view, nullable⟩ s) a made a) ∧
        ∀ d, made = .ok d → ∀ a : Arena, a.complete? d = some true := by
  rw [scalarDraft.eq_def]
  dsimp only
  cases m.schema.target? view type (.scalar s.kind) with
  | none => exact ⟨.error _, fun a => runs_throw _ a, by rintro _ ⟨⟩⟩
  | some r =>
    obtain ⟨member, target⟩ := r
    dsimp only
    cases m.ofScalar view target s with
    | error e => exact ⟨.error e, fun a => (runs_give _ a).bind_error, by rintro _ ⟨⟩⟩
    | ok v =>
      refine ⟨.ok ((Draft.ready v).wrap member), fun a => (runs_give _ a).bind (runs_pure _ a), ?_⟩
      rintro _ ⟨⟩ a
      cases member <;> rfl

theorem beginEntry_eq (m : Model) (text : String) (view : View) (hc : a.cells[κ]? = some c)
    (unfinished : c.finished = false) (settled : a.settles? c = some true) :
    beginEntry m κ text view a =
      (match c.shape with
        | .map keyType _ _ => do
          let view' :=
            if (m.schema.body keyType).kind = Kind.scalar .string then view else .representation
          let d ← scalarDraft m ⟨.value keyType, view', false⟩ (.string text)
          openEntry m κ (← freezeValue m keyType d) view
        | .struct | .union => openNamed m κ text view
        | .list _ _ | .pair _ => misused m κ .list .map)
      (a.store κ { c with phase := .settled }) :=
  (runs_checkOpen hc unfinished).bind_eq.trans ((runs_settle hc settled).bind_eq.trans
    (runs_cell (getElem?_store_self hc _)).bind_eq)

/-- **An entry fails, or its key can be opened and filled**, and the value is opened alike. -/
theorem beginEntry_cases {settles : Bool} (hc : a.cells[κ]? = some c)
    (unfinished : c.finished = false) (pending : c.phase = .key ∨ c.pendingKey = .absent)
    (settled : a.settles? c = some settles)
    (seen : ∀ key value nullable, c.shape = .map key value nullable →
      (if (m.schema.body key).kind = .scalar .string then view else .representation) = view)
    (text : String) :
    (∃ e a', Runs (beginEntry m κ text view) a (.error e) a') ∨
      ∃ spec opened filled, TakesKey m κ view text a spec opened filled := by
  cases settles with
  | false =>
    exact .inl ⟨_, a, (runs_checkOpen hc unfinished).bind (runs_settle_error hc settled).bind_error⟩
  | true =>
    have keyless := keyless_of_settles pending settled
    have entry := beginEntry_eq m text view hc unfinished settled
    have taken {demand : PlaceDemand} {d : Draft} (asks : KeyDemand c demand) :=
      takesKey (d := d) m text view hc unfinished keyless settled asks
    -- named, so that to split on the shape does not rewrite the cell that is stored
    generalize at_ : a.store κ { c with phase := .settled } = a₁ at entry taken
    cases shape : c.shape with
    | map key value nullable =>
      rw [shape] at entry
      dsimp only at entry
      rw [seen key value nullable shape] at entry
      obtain ⟨made, runs, complete⟩ := exists_scalarDraft m key view false (.string text)
      cases made with
      | error e =>
        have failed : Runs (beginEntry m κ text view) a (.error e) a₁ :=
          entry.trans (runs a₁).bind_error
        exact .inl ⟨e, a₁, failed⟩
      | ok d =>
        refine .inr ⟨_, _, _, taken (.map shape) runs (complete d rfl) (entry.trans ?_)⟩
        rw [openUnder, shape]
        exact (runs a₁).bind_eq
    | struct | union =>
      rw [shape] at entry
      refine .inr ⟨_, _, _, taken (d := .ready (.scalar (.string text))) (.name (by simp [shape]))
        (fun _ => rfl) (fun _ => rfl) (entry.trans ?_)⟩
      rw [openUnder, shape]
      rfl
    | list _ _ | pair _ =>
      rw [shape] at entry
      have hc₁ := getElem?_store_self hc { c with phase := .settled }
      rw [at_] at hc₁
      exact .inl ⟨_, a₁, entry.trans ((runs_cell hc₁).bind (runs_throw _ a₁))⟩

theorem StoresMap.keyView_eq {f : MapFrame} {key value : TypeId} {nullable : Bool}
    (valid : m.schema.Valid) (h : StoresMap m a f c) (shape : c.shape = .map key value nullable)
    (direct : f.view = .typed → ¬ m.schema.JoinsKeys f.type) :
    (if (m.schema.body key).kind = .scalar .string then f.view else .representation) = f.view := by
  obtain ⟨type, view, member, content, phase⟩ := f
  obtain ⟨same, -, -, fills, -⟩ := h
  cases content with
  | entries key' value' nullable' layout dict =>
    obtain ⟨nulls, body⟩ := FillsMap.body fills
    obtain ⟨rfl, -, -⟩ := CellShape.map.inj (shape.symm.trans (FillsMap.shape fills))
    exact MapFrame.keyView_eq valid (same ▸ body) direct
  | fields => exact nomatch shape.symm.trans (FillsStruct.shape fills)
  | choice => exact nomatch shape.symm.trans (FillsUnion.shape fills)

end Arena

namespace FlatBuilder

open Arena

variable {p : Prototype} {a opened filled : Arena} {f : FlatBuilder} {b : Builder} {g : Grip}
  {outer : List Grip} {text : String} {x x' : Option (FlatBuilder × Answer)}
  {r r' : Builder × Reply} {spec : PlaceSpec}

/-! ## Ways to go on -/

/-- Open the key of an entry, fill it with a text, and open the value. -/
def entryInSteps (f : FlatBuilder) (text : String) : Option (FlatBuilder × Answer) :=
  andThen (andThen (f.call .key) (·.call (.scalar (.string text)))) (·.call .value)

theorem entryInSteps_answers (mirrors : Mirrors f b) (text : String) :
    AnswersAs (f.entryInSteps text) (b.entryInSteps text) :=
  ((call_answers mirrors .key).andThen fun h => call_answers h _).andThen fun h => call_answers h _

/-- Two ways to go on come to the same: both open one place and leave one arena, or both fail with
one error and go on alike for good. -/
def ComeToTheSame (x x' : Option (FlatBuilder × Answer)) : Prop :=
  (∃ f o, x = some (f, .reply (.opened o.2.view o.2.nullable)) ∧ x' = x ∧ f.opening = some o) ∨
    ∃ f f' e, x = some (f, .reply (.failed e)) ∧ x' = some (f', .reply (.failed e)) ∧
      f.arena.stage = f'.arena.stage ∧
      ∀ later, ∃ g g' answers outcome a a', f.run later = some (g, answers) ∧
        f'.run later = some (g', answers) ∧ Ends g outcome a ∧ Ends g' outcome a'

/-- What comes to the same for a builder comes to the same for a flat one that answers alike, if
that does one thing where the builder does not fail. -/
theorem comeToTheSame_of_answers (answers : AnswersAs x r) (answers' : AnswersAs x' r')
    (builders : Builder.ComeToTheSame r r') (same : x' = x ∨ ∃ e, r.2 = .failed e) :
    ComeToTheSame x x' := by
  obtain ⟨f, rfl, mirrors⟩ := answers
  rcases builders with ⟨w, -, opening, reply⟩ | ⟨e, failed, failed', -, progress, alike⟩
  · obtain same | ⟨e, failed⟩ := same
    · obtain ⟨o, opened, view, nullable⟩ := mirrors.stands.opens opening
      refine .inl ⟨f, o, ?_, same, opened⟩
      rw [reply, view, nullable]
      rfl
    · exact nomatch reply.symm.trans failed
  · obtain ⟨f', rfl, mirrors'⟩ := answers'
    refine .inr ⟨f, f', e, by rw [failed]; rfl, by rw [failed']; rfl, ?_, fun later => ?_⟩
    · rw [mirrors.stands.stage, mirrors'.stands.stage, progress]
    · obtain ⟨g, ran, last⟩ := run_answers mirrors later
      obtain ⟨g', ran', last'⟩ := run_answers mirrors' later
      obtain ⟨replies, built⟩ := alike later
      obtain ⟨a, ends⟩ := build_answers last
      obtain ⟨a', ends'⟩ := build_answers last'
      exact ⟨g, g', _, _, a, a', ran, replies ▸ ran', ends, built ▸ ends'⟩

/-! ## Entries in one step and in two -/

theorem take_congr {α : Type} {step step' : Arena.Step α} {a a' : Arena} {gs : List Grip}
    {next : FlatBuilder → α → FlatBuilder × Reply} (building : a.stage = .building)
    (building' : a'.stage = .building) (same : step a = step' a') :
    take ⟨p, a, gs, none⟩ step next = take ⟨p, a', gs, none⟩ step' next := by
  rw [take, take, guarded, guarded]
  dsimp only
  rw [building, building', same]

/-- **Where the key of an entry is opened, filled and taken out, the two ways are one.** -/
theorem entryInSteps_eq {κ : CellId} {view : View} (building : a.stage = .building)
    (takes : TakesKey p.model κ view text a spec opened filled) :
    let f : FlatBuilder := ⟨p, a, ⟨κ, view, .map⟩ :: outer, none⟩
    f.entryInSteps text = f.call (.entry text) := by
  intro f
  have opened_building := takes.opened_stage.trans building
  have filled_building := takes.filled_stage.trans building
  have key : f.call .key =
      some (⟨p, opened, ⟨κ, view, .map⟩ :: outer, some (.inside κ .key, spec)⟩, _) :=
    take_ok await (by rw [building]; nofun) takes.key
  have fill : call ⟨p, opened, ⟨κ, view, .map⟩ :: outer, some (.inside κ .key, spec)⟩
      (.scalar (.string text)) = some (⟨p, filled, ⟨κ, view, .map⟩ :: outer, none⟩, .reply .done) :=
    take_ok (f := ⟨p, opened, ⟨κ, view, .map⟩ :: outer, none⟩) (fun f _ => (f, .done))
      (by rw [opened_building]; nofun) takes.fill
  have value : call ⟨p, filled, ⟨κ, view, .map⟩ :: outer, none⟩ .value = f.call (.entry text) := by
    show take _ (beginValue p.model κ view) await = take _ (beginEntry p.model κ text view) await
    exact take_congr filled_building building takes.value
  have named : andThen (f.call .key) (·.call (.scalar (.string text))) =
      some (⟨p, filled, ⟨κ, view, .map⟩ :: outer, none⟩, .reply .done) := by
    rw [key]
    exact fill
  rw [entryInSteps, named]
  exact value

theorem comeToTheSame_of_refused {progress : Progress} {h : Handle} {hs : List Handle}
    (mirrors : Mirrors f ⟨p, progress, h :: hs, none⟩) (kind : h.frame.kind = .map)
    (refused : progress = .errored ∨ h.finished = true) (text : String) :
    ComeToTheSame (f.call (.entry text)) (f.entryInSteps text) := by
  obtain ⟨frame, finished⟩ := h
  cases frame with
  | list f => exact nomatch kind
  | map f =>
    obtain ⟨b, e, entry, -⟩ := Builder.entry_refused (p := p) f hs refused text
    exact comeToTheSame_of_answers (call_answers mirrors _) (entryInSteps_answers mirrors text)
      (Builder.entry_in_two_steps_of_refused hs refused text) (.inr ⟨e, congrArg _ entry⟩)

theorem comeToTheSame_of_level {κ : CellId} {view : View} {f : MapFrame} {c : Cell} {q : Place}
    {w : Opening} {hs : List Handle} (valid : p.model.schema.Valid) (sound : f.Sound p.model.schema)
    (mirrors : Mirrors ⟨p, a, ⟨κ, view, .map⟩ :: outer, none⟩
      ⟨p, .building, ⟨.map f, false⟩ :: hs, none⟩)
    (level : Level p.model a q w ⟨κ, view, .map⟩ (.map f) c)
    (quiet : Quiet p.model a κ (.map f) c)
    (direct : view = .typed → ¬ p.model.schema.JoinsKeys c.type) (text : String) :
    let f : FlatBuilder := ⟨p, a, ⟨κ, view, .map⟩ :: outer, none⟩
    ComeToTheSame (f.call (.entry text)) (f.entryInSteps text) := by
  intro g
  obtain ⟨hc, stores, seen, -, -⟩ := level
  obtain rfl : view = f.view := seen
  have stores : StoresMap p.model a f c := stores
  rw [stores.type] at direct
  have answers := call_answers mirrors (.entry text)
  refine comeToTheSame_of_answers answers (entryInSteps_answers mirrors text)
    (Builder.entry_in_two_steps_of_live (.inr rfl) hs
      (MapFrame.entry_eq_entryByKey valid sound direct text)) ?_
  have building : a.stage = .building := mirrors.stands.stage
  rcases beginEntry_cases hc stores.unfinished stores.pending (stores.settles? hc quiet)
    (fun _ _ _ shape => stores.keyView_eq valid shape direct) text
    with ⟨e, a', failed⟩ | ⟨spec, opened, filled, takes⟩
  · have call : g.call (.entry text) = some (_, .reply (.failed e)) :=
      take_error await (by rw [building]; nofun) (by rw [building]; nofun) failed
    obtain ⟨_, answered, -⟩ := answers
    have same := (Prod.mk.inj (Option.some.inj (answered.symm.trans call))).2
    exact .inr ⟨e, Reply.eq_failed_of_answer same⟩
  · exact .inl (entryInSteps_eq building takes)

/-- **An entry leaves one arena, opened in one step and in two.**  In every run, and however far the
innermost map has come, to open the value of an entry by a text and to open its key, fill it with
the text and open its value come to the same; only the typed view of a map whose keys are structs is
left out. -/
theorem entry_leaves_one_arena {ts : TypeSystem} {s : Schema} {c : Config}
    (frozen : ts.finalize = .ok s) (compiled : s.compile c = .ok p.model) {calls : List Call}
    {answers : List Answer} (ran : (ofPrototype p).run calls = some (f, answers))
    (closed : f.opening = none) (grips : f.grips = g :: outer) (kind : g.kind = .map)
    (direct : g.view = .typed → ∀ c, f.arena.cells[g.cell]? = some c → ¬ s.JoinsKeys c.type)
    (text : String) : ComeToTheSame (f.call (.entry text)) (f.entryInSteps text) := by
  obtain rfl := Schema.schema_of_compile compiled
  have valid := Schema.valid_of_finalize frozen
  obtain ⟨f', ran', mirrors⟩ := run_answers (mirrors_ofPrototype p) calls
  obtain ⟨rfl, -⟩ := Prod.mk.inj (Option.some.inj (ran.symm.trans ran'))
  have sound := Builder.run_sound valid (Builder.ofPrototype_sound p) calls
  generalize ((Builder.ofPrototype p).run calls).1 = b at mirrors sound
  obtain ⟨p', a, gs, o⟩ := f
  obtain ⟨p'', progress, hs, o'⟩ := b
  obtain rfl : p'' = p := sound.prototype_eq
  obtain rfl : p' = p'' := mirrors.prototype
  obtain rfl : o = none := closed
  obtain rfl : gs = g :: outer := grips
  obtain ⟨κ, view, _⟩ := g
  cases kind
  have stands : Stands p' a (⟨κ, view, .map⟩ :: outer) none progress hs o' := mirrors.stands
  cases stands with
  | resting stage rest topped =>
    cases topped with
    | none =>
      cases rest with
      | @top _ _ _ _ _ f c nest level apart quiet =>
        cases f with
        | list f => exact nomatch level.kind
        | map f =>
          exact comeToTheSame_of_level valid sound.stacked.1 mirrors level quiet
            (fun typed => direct typed c level.cell) text
    | closed closed =>
      exact comeToTheSame_of_refused mirrors closed.kind.symm (.inr closed.finished) text
  | finished stage held topped =>
    cases topped with
    | closed closed =>
      exact comeToTheSame_of_refused mirrors closed.kind.symm (.inr closed.finished) text
  | errored stage alike =>
    cases alike with
    | cons kind alike => exact comeToTheSame_of_refused mirrors kind.symm (.inl rfl) text

/-- Counts by level in the representation view are opened so by every text. -/
theorem entry_leaves_one_arena_counts (text : String) :
    ∃ f answers,
      (ofPrototype Sample.prototype).run [.root, .list, .value, .map, .entry "c", .map] =
        some (f, answers) ∧
      ComeToTheSame (f.call (.entry text)) (f.entryInSteps text) := by
  obtain ⟨f, g, outer, answers, ran, closed, grips, kind, view⟩ : ∃ f g outer answers,
      (ofPrototype Sample.prototype).run [.root, .list, .value, .map, .entry "c", .map] =
        some (f, answers) ∧
      f.opening = none ∧ f.grips = g :: outer ∧ g.kind = .map ∧ g.view = .representation :=
    ⟨_, _, _, _, rfl, rfl, rfl, rfl, rfl⟩
  have seen (typed : g.view = .typed) : False := nomatch view.symm.trans typed
  exact ⟨f, answers, ran, entry_leaves_one_arena Sample.finalize_types Sample.compile_schema ran
    closed grips kind (fun typed => (seen typed).elim) text⟩

end FlatBuilder

end DualView
