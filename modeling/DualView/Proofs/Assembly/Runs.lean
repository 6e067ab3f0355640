import DualView.Proofs.Assembly.Soundness
import DualView.Schema.Collection

/-!
# Runs of a builder

The compounds that a builder has open are *stacked* when each of them is sound and, until it is
finished, closes only with pieces that the one around it can take (`Builder.Stacked`).  Every call
keeps a builder sound in this sense, whatever its outcome, and so does every sequence of calls.

* `Builder.call_sound`, `Builder.run_sound`: one call, and a run.
* `Builder.run_built_fits`: a value is built exactly if the builder is finished, and it fits.
-/

namespace DualView

/-! ## A schema to build in -/

namespace Sample

/-- A kinded union of counts and sheets, which hold counts by level and a joined tag. -/
def types : TypeSystem := ⟨
  [ ⟨"Text", .scalar .string⟩,
    ⟨"Count", .scalar .int⟩,
    ⟨"Level", .enum ["low", "high"] (.string ⟨[("low", "l")]⟩)⟩,
    ⟨"Counts", .map "Level" "Count" true .explicit⟩,
    ⟨"Tag", .struct [⟨"site", "Text", false, false⟩, ⟨"unit", "Text", false, false⟩]
      (.stringjoin ":")⟩,
    ⟨"Sheet", .struct [⟨"counts", "Counts", false, false⟩, ⟨"tag", "Tag", true, true⟩]
      (.map ⟨[("counts", "c")]⟩)⟩,
    ⟨"Item", .union ["Count", "Sheet"] .kinded⟩,
    ⟨"Items", .list "Item" true⟩ ]⟩

def schema : Schema := ⟨
  [ ⟨"Text", .scalar .string⟩,
    ⟨"Count", .scalar .int⟩,
    ⟨"Level", .enum ["low", "high"] (.string ⟨[("low", "l")]⟩)⟩,
    ⟨"Counts", .map 2 1 true .explicit⟩,
    ⟨"Tag", .struct [⟨"site", 0, false, false⟩, ⟨"unit", 0, false, false⟩] (.stringjoin ":")⟩,
    ⟨"Sheet", .struct [⟨"counts", 3, false, false⟩, ⟨"tag", 4, true, true⟩]
      (.map ⟨[("counts", "c")]⟩)⟩,
    ⟨"Item", .union [1, 5] .kinded⟩,
    ⟨"Items", .list 6 true⟩ ]⟩

def model : Model := ⟨schema, .empty,
  [ ⟨.embedded, [], false⟩, ⟨.embedded, [], false⟩, ⟨.embedded, [], false⟩,
    ⟨.indirect, [], false⟩, ⟨.indirect, [.embedded, .embedded], false⟩,
    ⟨.indirect, [.embedded, .indirect], false⟩, ⟨.indirect, [], false⟩, ⟨.indirect, [], false⟩ ]⟩

theorem finalize_types : types.finalize = .ok schema := rfl

theorem renamesOnce_schema : schema.RenamesOnce := by
  simp [Schema.RenamesOnce, schema, StructRepr.keys?, Renaming.NamesOnce]

theorem compile_schema : schema.compile .empty = .ok model := by
  have layouts : (List.range schema.size).mapM (schema.typeLayout .empty) = .ok model.layouts := by
    decide +kernel
  rw [Schema.compile, layouts]
  rfl

def inPlace : Config := Config.empty.setMaybeLayout "Item" .embedded

def modelInPlace : Model := ⟨schema, inPlace,
  [ ⟨.embedded, [], false⟩, ⟨.embedded, [], false⟩, ⟨.embedded, [], false⟩,
    ⟨.indirect, [], false⟩, ⟨.indirect, [.embedded, .embedded], false⟩,
    ⟨.indirect, [.embedded, .indirect], false⟩, ⟨.embedded, [], false⟩, ⟨.indirect, [], false⟩ ]⟩

theorem compile_inPlace : schema.compile inPlace = .ok modelInPlace := by
  have layouts : (List.range schema.size).mapM (schema.typeLayout inPlace) =
      .ok modelInPlace.layouts := by
    decide +kernel
  rw [Schema.compile, layouts]
  rfl

/-- A null, a count and a sheet; the fields of the sheet arrive out of order. -/
def datum : Datum := .list
  [ .null,
    .scalar (.int 5),
    .map [ ("tag", .scalar (.string "a:b")),
      ("c", .map [("l", .scalar (.int 3)), ("high", .null)]) ] ]

def calls : List Call :=
  [ .root, .list, .value, .null, .value, .scalar (.int 5), .value, .map,
    .entry "tag", .scalar (.string "a:b"),
    .key, .scalar (.string "c"), .value, .map,
    .key, .scalar (.string "l"), .value, .scalar (.int 3), .entry "high", .null,
    .finish, .drop, .finish, .drop, .finish, .drop ]

def value : Value := .list
  [ ⟨.indirect, .null⟩,
    ⟨.indirect, .value (.union 0 (.scalar (.int 5)))⟩,
    ⟨.indirect, .value (.union 1 (.struct
      [ ⟨.embedded, .value (.map ⟨
          [ ⟨.enum 0, "l", ⟨.embedded, .value (.scalar (.int 3))⟩⟩,
            ⟨.enum 1, "high", ⟨.embedded, .null⟩⟩ ]⟩)⟩,
        ⟨.indirect, .value (.struct
          [ ⟨.embedded, .value (.scalar (.string "a"))⟩,
            ⟨.embedded, .value (.scalar (.string "b"))⟩ ])⟩ ]))⟩ ]

def prototype : Prototype := ⟨model, 7, .representation⟩

end Sample

namespace Builder

/-! ## Stacks -/

def Awaits (s : Schema) (root : TypeId) : List Handle → Piece → Prop
  | [], piece => ∀ v, piece = .content (some v) → s.Fits root v
  | h :: _, piece => (h.frame.place piece).Sound s

/-- Each compound is sound and, until it is finished, yields only what suits the one around it. -/
def Stacked (s : Schema) (root : TypeId) : List Handle → Prop
  | [] => True
  | h :: outer =>
    h.frame.Sound s ∧
      (h.finished = false → ∀ piece, h.frame.Yields s piece → Awaits s root outer piece) ∧
      Stacked s root outer

/-- A builder of a prototype on the way to a value that fits. -/
structure Sound (p : Prototype) (b : Builder) : Prop where
  prototype_eq : b.prototype = p
  result : ∀ v, b.progress = .finished v → p.model.schema.Fits p.type v
  stacked : Stacked p.model.schema p.type b.handles
  awaits : ∀ o, b.opening = some o →
    ∀ piece, o.Takes p.model.schema piece → Awaits p.model.schema p.type b.handles piece

variable {p : Prototype} {b : Builder}

theorem awaits_fitting_iff {handles : List Handle} {piece : Piece} :
    p.model.schema.fitting.Awaits p handles piece ↔
      Awaits p.model.schema p.type handles piece := by
  cases handles with
  | cons h outer => exact Iff.rfl
  | nil =>
    refine forall₂_congr fun v same => ?_
    subst same
    exact Iff.rfl

theorem stacked_fitting_iff {handles : List Handle} :
    p.model.schema.fitting.Stacked p handles ↔ Stacked p.model.schema p.type handles := by
  induction handles with
  | nil => exact Iff.rfl
  | cons h outer ih =>
    refine and_congr Iff.rfl (and_congr ?_ ih)
    exact imp_congr Iff.rfl (forall₂_congr fun _ _ => awaits_fitting_iff)

theorem fitting_holds_iff : p.model.schema.fitting.Holds p b ↔ Sound p b := by
  constructor
  · intro h
    exact ⟨h.prototype_eq, h.result, stacked_fitting_iff.mp h.stacked,
      fun o ho piece hp => awaits_fitting_iff.mp (h.awaits o ho piece hp)⟩
  · intro h
    exact ⟨h.prototype_eq, h.result, stacked_fitting_iff.mpr h.stacked,
      fun o ho piece hp => awaits_fitting_iff.mpr (h.awaits o ho piece hp)⟩

theorem ofPrototype_sound (p : Prototype) : Sound p (ofPrototype p) :=
  fitting_holds_iff.mp (Discipline.holds_ofPrototype p)

/-- **Every call keeps a builder sound.** -/
theorem call_sound (valid : p.model.schema.Valid) (h : Sound p b) (c : Call) :
    Sound p (b.call c).1 :=
  fitting_holds_iff.mp (valid.fitting_observed.call_keeps (fitting_holds_iff.mpr h) c)

/-- **Every sequence of calls keeps a builder sound.** -/
theorem run_sound (valid : p.model.schema.Valid) (h : Sound p b) (calls : List Call) :
    Sound p (b.run calls).1 :=
  fitting_holds_iff.mp (valid.fitting_observed.run_keeps (fitting_holds_iff.mpr h) calls)

/-! ## What is built -/

theorem built_fits {ts : TypeSystem} {s : Schema} {c : Config} (frozen : ts.finalize = .ok s)
    (compiled : s.compile c = .ok p.model) (calls : List Call) {v : TypedValue}
    (built : ((ofPrototype p).run calls).1.build = .ok v) :
    v.model.schema = s ∧ s.Fits v.type v.value := by
  obtain rfl := Schema.schema_of_compile compiled
  have sound := run_sound (Schema.valid_of_finalize frozen) (ofPrototype_sound p) calls
  obtain ⟨w, hw, rfl⟩ := build_eq_ok_iff.mp built
  have hmodel := congrArg Prototype.model sound.prototype_eq
  have htype := congrArg Prototype.type sound.prototype_eq
  exact ⟨congrArg Model.schema hmodel, htype ▸ sound.result w hw⟩

/-- **Every run that finishes builds a value, no other does, and the value fits its type.**
Entries of maps in it, at any depth, are found under the texts of their keys. -/
theorem run_built_fits {ts : TypeSystem} {s : Schema} {c : Config} (frozen : ts.finalize = .ok s)
    (compiled : s.compile c = .ok p.model) (calls : List Call) :
    let b := ((ofPrototype p).run calls).1
    ((∃ v, b.build = .ok v) ↔ ∃ w, b.progress = .finished w) ∧
      ∀ v, b.build = .ok v →
        v.model = p.model ∧ v.type = p.type ∧ b.progress = .finished v.value ∧
          s.Fits p.type v.value ∧
          ∀ type dict, (type, .map dict) ∈ s.parts p.type v.value →
            ∀ e ∈ dict.entries, dict.get? e.text = some e := by
  intro b
  obtain rfl := Schema.schema_of_compile compiled
  have sound := run_sound (Schema.valid_of_finalize frozen) (ofPrototype_sound p) calls
  refine ⟨?_, fun v hv => ?_⟩
  · constructor
    · rintro ⟨v, hv⟩
      obtain ⟨w, hw, -⟩ := build_eq_ok_iff.mp hv
      exact ⟨w, hw⟩
    · rintro ⟨w, hw⟩
      exact ⟨_, build_eq_ok_iff.mpr ⟨w, hw, rfl⟩⟩
  · obtain ⟨w, hw, rfl⟩ := build_eq_ok_iff.mp hv
    have fits := sound.result w hw
    refine ⟨congrArg Prototype.model sound.prototype_eq,
      congrArg Prototype.type sound.prototype_eq, hw, fits, fun type dict hp e he => ?_⟩
    cases fits.of_mem_parts hp with
    | map body keys texts apart states values => exact Dict.get?_text apart he

theorem run_built_fits_sample :
    Sample.types.finalize = .ok Sample.schema ∧
      Sample.schema.compile .empty = .ok Sample.prototype.model ∧
      ((ofPrototype Sample.prototype).run Sample.calls).1.build =
        .ok ⟨Sample.model, 7, Sample.value⟩ ∧
      Sample.schema.Fits 7 Sample.value :=
  ⟨Sample.finalize_types, Sample.compile_schema, rfl,
    ((run_built_fits (p := Sample.prototype) Sample.finalize_types Sample.compile_schema
      Sample.calls).2 _ rfl).2.2.2.1⟩

end Builder

end DualView
