import DualView.Assembly.CopyNode
import DualView.Proofs.Assembly.Lifecycle
import DualView.Proofs.Schema.Resemblance

/-!
# Entries in one step and in two

The value of an entry is opened by its key as text, or after its key has been assembled in an opening
of its own.  Both convert and check the key alike, unless keys are structs: the typed view assembles
these as maps, while an entry takes their joined text in either view.  Where the one way fails so
does the other, with the same error, and an errored builder does not show how it came to be so.

* `MapFrame.entry_eq_entryByKey`: the two ways for a frame.
* `Builder.Spent`: errored builders that cannot be told apart.
* `Builder.entry_in_two_steps`: the two ways for a builder, in every state it can come to.
-/

namespace DualView

/-- The keys of a map are structs that are joined to text. -/
def Schema.JoinsKeys (s : Schema) (type : TypeId) : Prop :=
  ∃ key value nullable nulls fields separator,
    s.body type = .map key value nullable nulls ∧
      s.body key = .struct fields (.stringjoin separator)

/-! ## Frames -/

namespace MapFrame

variable {m : Model} {f : MapFrame}

/-- Open the value of an entry after its key has been filled with a text. -/
def entryByKey (m : Model) (f : MapFrame) (text : String) :
    Except NodeError (MapFrame × Opening) := do
  let (f, o) ← f.key m
  let piece ← o.scalar m (.string text)
  (f.place piece).value m

/-- Keys that are text in the typed view are taken in the view of the map. -/
theorem keyView_eq (valid : m.schema.Valid) {key value : TypeId} {nullable : Bool}
    {nulls : NullPolicy} (body : m.schema.body f.type = .map key value nullable nulls)
    (direct : f.view = .typed → ¬ m.schema.JoinsKeys f.type) :
    (if (m.schema.body key).kind = .scalar .string then f.view else .representation) = f.view := by
  rcases valid.mapKey_cases body with text | ⟨fields, separator, joined⟩
  · rw [if_pos text.kind_eq]
  · cases seen : f.view with
    | typed => exact absurd ⟨_, _, _, _, _, _, body, joined⟩ (direct seen)
    | representation => exact ite_self _

theorem key_phase {g : MapFrame} {o : Opening} (h : f.key m = .ok (g, o)) :
    g = { f with phase := .key } := by
  obtain ⟨-, -, h⟩ := bind_eq_ok_iff.mp h
  cases h
  rfl

/-- To fill the opening of a key changes nothing but how far a frame has come. -/
theorem place_key (f : MapFrame) (piece : Piece) :
    ∃ phase, ({ f with phase := .key } : MapFrame).place piece = { f with phase := phase } := by
  rcases piece with ⟨_ | k⟩ | ⟨i, given⟩
  · exact ⟨.key, by rw [place.eq_def]⟩
  · exact ⟨.keyed k, rfl⟩
  · exact ⟨.key, by rw [place.eq_def]⟩

/-- **An entry is opened by its key alike, given at once or in an opening of its own.** -/
theorem entry_eq_entryByKey (valid : m.schema.Valid) (sound : f.Sound m.schema)
    (direct : f.view = .typed → ¬ m.schema.JoinsKeys f.type) (text : String) :
    f.entry m text = f.entryByKey m text := by
  obtain ⟨type, view, member, content, phase⟩ := f
  cases phase with
  | idle =>
    cases content with
    | entries key value nullable layout dict =>
      obtain ⟨⟨⟨nulls, body⟩, -⟩, -⟩ := sound
      have seen := keyView_eq valid body direct
      dsimp only at seen
      simp only [entry, seen]
      change (m.assign view key (.string text) >>= _) = ((_ <$> m.assign view key (.string text)) >>= _)
      cases m.assign view key (.string text) <;> rfl
    | fields fields repr slots => rfl
    | choice members repr present => rfl
  | _ => rfl

end MapFrame

namespace Builder

variable {p : Prototype} {b b' : Builder}

/-! ## Errored builders -/

/-- Errored builders that differ in nothing but how far the innermost map has come. -/
inductive Spent : Builder → Builder → Prop
  | same (b : Builder) : Spent b b
  | map (p : Prototype) (f : MapFrame) (phase : MapPhase) (outer : List Handle) :
      Spent ⟨p, .errored, ⟨.map f, false⟩ :: outer, none⟩
        ⟨p, .errored, ⟨.map { f with phase := phase }, false⟩ :: outer, none⟩

namespace Spent

theorem call (h : Spent b b') (c : Call) :
    (b.call c).2 = (b'.call c).2 ∧ Spent (b.call c).1 (b'.call c).1 := by
  cases h with
  | same => exact ⟨rfl, .same _⟩
  | map p f phase outer =>
    cases c with
    | drop => exact ⟨rfl, .same _⟩
    | view view => exact ⟨rfl, .same _⟩
    | _ => exact ⟨rfl, .map p f phase outer⟩

theorem run (h : Spent b b') (calls : List Call) :
    (b.run calls).2 = (b'.run calls).2 ∧ Spent (b.run calls).1 (b'.run calls).1 := by
  induction calls generalizing b b' with
  | nil => exact ⟨rfl, h⟩
  | cons c rest ih =>
    obtain ⟨reply, next⟩ := h.call c
    obtain ⟨replies, last⟩ := ih next
    exact ⟨congrArg₂ List.cons reply replies, last⟩

theorem build_eq (h : Spent b b') : b.build = b'.build := by
  cases h with
  | same => rfl
  | map p f phase outer => rfl

theorem progress_eq (h : Spent b b') : b.progress = b'.progress := by
  cases h with
  | same => rfl
  | map p f phase outer => rfl

end Spent

/-! ## Ways to go on -/

/-- Two ways to go on come to the same: both open one opening and leave one builder, or both fail
with one error and leave builders that go on alike for good. -/
def ComeToTheSame (r r' : Builder × Reply) : Prop :=
  (∃ o, r = r' ∧ r.1.opening = some o ∧ r.2 = .opened o.view o.nullable) ∨
    ∃ e, r.2 = .failed e ∧ r'.2 = .failed e ∧ Spent r.1 r'.1 ∧ r.1.progress = r'.1.progress ∧
      ∀ later, (r.1.run later).2 = (r'.1.run later).2 ∧
        (r.1.run later).1.build = (r'.1.run later).1.build

theorem comeToTheSame_of_spent (h : Spent b b') (e : NodeError) :
    ComeToTheSame (b, .failed e) (b', .failed e) := by
  refine .inr ⟨e, rfl, rfl, h, h.progress_eq, fun later => ?_⟩
  obtain ⟨replies, last⟩ := h.run later
  exact ⟨replies, last.build_eq⟩

/-- Open the key of an entry, fill it with a text, and open the value. -/
def entryInSteps (b : Builder) (text : String) : Builder × Reply :=
  andThen (andThen (b.call .key) (·.call (.scalar (.string text)))) (·.call .value)

theorem entryInSteps_of_failed {text : String} {e : NodeError}
    (failed : b.call .key = (b', .failed e)) : b.entryInSteps text = (b', .failed e) := by
  rw [entryInSteps, failed]
  rfl

def stepped (b : Builder) (outer : List Handle) :
    Except NodeError (MapFrame × Opening) → Builder × Reply
  | .ok (f, o) => b.await (.map f) outer o
  | .error e => ({ b with progress := .errored }, .failed e)

theorem callMap_eq_stepped (live : b.progress.Live) (f : MapFrame) (outer : List Handle)
    (step : Except NodeError (MapFrame × Opening)) :
    b.callMap ⟨.map f, false⟩ outer step = b.stepped outer step := by
  cases step with
  | error e => exact settle_failed_live live e
  | ok r => exact settle_ok (ne_errored_of_live live) _

theorem call_scalar_of_live {q : Progress} (live : q.Live) (f : MapFrame) (outer : List Handle)
    (o : Opening) (a : Scalar) :
    call ⟨p, q, ⟨.map f, false⟩ :: outer, some o⟩ (.scalar a) =
      match o.scalar p.model a with
      | .ok piece => (⟨p, q, ⟨.map (f.place piece), false⟩ :: outer, none⟩, .done)
      | .error e => (⟨p, .errored, ⟨.map f, false⟩ :: outer, none⟩, .failed e) := by
  change settle ⟨p, q, ⟨.map f, false⟩ :: outer, none⟩ (fillOpening _ (o.scalar p.model a)) = _
  cases o.scalar p.model a with
  | error e => exact settle_failed_live live e
  | ok piece => exact settle_ok (ne_errored_of_live live) _

theorem entry_in_two_steps_of_live {q : Progress} (live : q.Live) {f : MapFrame}
    (outer : List Handle) {text : String} (same : f.entry p.model text = f.entryByKey p.model text) :
    let b : Builder := ⟨p, q, ⟨.map f, false⟩ :: outer, none⟩
    ComeToTheSame (b.call (.entry text)) (b.entryInSteps text) := by
  intro b
  have entry : b.call (.entry text) = b.stepped outer (f.entryByKey p.model text) :=
    same ▸ callMap_eq_stepped live f outer (f.entry p.model text)
  have key : b.call .key = b.stepped outer (f.key p.model) := callMap_eq_stepped live f outer _
  rw [entry, MapFrame.entryByKey]
  cases hk : f.key p.model with
  | error e =>
    rw [hk] at key
    rw [entryInSteps_of_failed key]
    exact comeToTheSame_of_spent (.same _) e
  | ok r =>
    obtain ⟨g, o⟩ := r
    obtain rfl := MapFrame.key_phase hk
    let g : MapFrame := { f with phase := .key }
    have filled := call_scalar_of_live (p := p) live g outer o (.string text)
    rw [hk] at key
    rw [entryInSteps, key]
    change ComeToTheSame
      (b.stepped outer (o.scalar p.model (.string text) >>= fun piece =>
        (g.place piece).value p.model))
      (andThen (call ⟨p, q, ⟨.map g, false⟩ :: outer, some o⟩ (.scalar (.string text)))
        (·.call .value))
    rw [filled]
    cases hs : o.scalar p.model (.string text) with
    | error e => exact comeToTheSame_of_spent (.map p f .key outer) e
    | ok piece =>
      obtain ⟨phase, keyed⟩ := f.place_key piece
      have value : call ⟨p, q, ⟨.map (g.place piece), false⟩ :: outer, none⟩ .value =
          stepped _ outer ((g.place piece).value p.model) := callMap_eq_stepped live _ outer _
      change ComeToTheSame (b.stepped outer ((g.place piece).value p.model))
        (call ⟨p, q, ⟨.map (g.place piece), false⟩ :: outer, none⟩ .value)
      rw [value]
      cases (g.place piece).value p.model with
      | error e =>
        have spent := Spent.map p f phase outer
        rw [← keyed] at spent
        exact comeToTheSame_of_spent spent e
      | ok r => exact .inl ⟨r.2, rfl, rfl, rfl⟩

theorem entry_refused {q : Progress} (f : MapFrame) {finished : Bool} (outer : List Handle)
    (refused : q = .errored ∨ finished = true) (text : String) :
    let b : Builder := ⟨p, q, ⟨.map f, finished⟩ :: outer, none⟩
    ∃ b' e, b.call (.entry text) = (b', .failed e) ∧ b.call .key = (b', .failed e) := by
  intro b
  rcases refused with rfl | rfl
  · exact ⟨b, _, rfl, rfl⟩
  · cases q <;> exact ⟨_, _, rfl, rfl⟩

theorem entry_in_two_steps_of_refused {q : Progress} {f : MapFrame} {finished : Bool}
    (outer : List Handle) (refused : q = .errored ∨ finished = true) (text : String) :
    let b : Builder := ⟨p, q, ⟨.map f, finished⟩ :: outer, none⟩
    ComeToTheSame (b.call (.entry text)) (b.entryInSteps text) := by
  intro b
  obtain ⟨b', e, entry, key⟩ := entry_refused (p := p) f outer refused text
  rw [entry, entryInSteps_of_failed key]
  exact comeToTheSame_of_spent (.same b') e

/-- **An entry is opened alike in one step and in two.**  Whatever has been called before, and however
far the innermost map has come, to open the value of an entry by a text and to open its key, fill it
with the text and open its value come to the same; only the typed view of a map whose keys are
structs is left out. -/
theorem entry_in_two_steps {ts : TypeSystem} {s : Schema} {c : Config}
    (frozen : ts.finalize = .ok s) (compiled : s.compile c = .ok p.model) (calls : List Call)
    {f : MapFrame} {finished : Bool} {outer : List Handle} :
    let b := ((ofPrototype p).run calls).1
    b.opening = none → b.handles = ⟨.map f, finished⟩ :: outer →
      (f.view = .typed → ¬ s.JoinsKeys f.type) →
      ∀ text, ComeToTheSame (b.call (.entry text)) (b.entryInSteps text) := by
  intro b closed handles direct text
  obtain rfl := Schema.schema_of_compile compiled
  have valid := Schema.valid_of_finalize frozen
  have sound : Sound p b := run_sound valid (ofPrototype_sound p) calls
  have rest : b.AtRest := run_atRest (ofPrototype_atRest p) calls
  have stacked := sound.stacked
  rw [handles] at stacked
  have same := MapFrame.entry_eq_entryByKey valid stacked.1 direct text
  have state : b = ⟨p, b.progress, ⟨.map f, finished⟩ :: outer, none⟩ := by
    rw [← sound.prototype_eq, ← handles, ← closed]
  rw [state]
  rcases b.progress.live_or with live | ⟨v, done⟩ | errored
  · cases finished with
    | true => exact entry_in_two_steps_of_refused outer (.inr rfl) text
    | false => exact entry_in_two_steps_of_live live outer same
  · have ended : finished = true := (rest v done).2 _ (handles ▸ List.mem_cons_self)
    exact entry_in_two_steps_of_refused outer (.inr ended) text
  · exact entry_in_two_steps_of_refused outer (.inl errored) text

/-- Counts by level in the representation view: one level is known there, and one is not. -/
theorem entry_in_two_steps_counts :
    let b := ((ofPrototype Sample.prototype).run [.root, .list, .value, .map, .entry "c", .map]).1
    (b.entryInSteps "l").2 = .opened .representation true ∧
      ComeToTheSame (b.call (.entry "l")) (b.entryInSteps "l") ∧
      (b.entryInSteps "low").2 =
        .failed (.representation (.unrecognizedField "Level" "low")) ∧
      ComeToTheSame (b.call (.entry "low")) (b.entryInSteps "low") := by
  intro b
  have same := entry_in_two_steps (p := Sample.prototype) Sample.finalize_types
    Sample.compile_schema [.root, .list, .value, .map, .entry "c", .map] rfl rfl nofun
  exact ⟨rfl, same "l", rfl, same "low"⟩

end Builder

end DualView
