import DualView.Proofs.Codec.Recopy

/-!
# Encoding and decoding

A value that fits its type has a representation, and if nothing is lost in it, it is decoded to a
value with the same content: its representation shows all of it, so it is copied from there.

* `Schema.Survives`: the representation of a value is decoded to the same content.
* `Schema.Fits.survives`: what fits and is lossless survives.
* `Builder.encode_decode`: so does every such value that a builder builds.
-/

namespace DualView

namespace Schema

variable {m : Model} {type : TypeId}

/-- The representation of a value is decoded to the same content. -/
def Survives (m : Model) (type : TypeId) (v : Value) : Prop :=
  ∀ nullable, ∃ w, m.Copies .representation nullable type (m.schema.tree .representation type v)
    (some w) ∧ w.same v = true

/-- **What fits its type and loses nothing in its representation is decoded to the same content.** -/
theorem Fits.survives (valid : m.schema.Valid) (once : m.schema.RenamesOnce) {v : Value}
    (h : m.schema.Fits type v) (lossless : m.schema.Lossless type v) : Survives m type v := by
  intro nullable
  obtain ⟨w, hw, eq⟩ := h.recopies valid (fun _ => once) (fun _ => lossless) nullable
  exact ⟨w, hw, (Value.same_congr eq v).1.trans (v.same_self (lossless.naNFree h))⟩

end Schema

/-! ## What is built -/

namespace Builder

/-- **Decoding undoes encoding.**  What a builder builds, if it loses nothing in its representation,
has a representation, and this is decoded to the same content: as a data tree, and as it is seen. -/
theorem encode_decode {ts : TypeSystem} {s : Schema} {c : Config} {p : Prototype}
    (frozen : ts.finalize = .ok s) (once : s.RenamesOnce) (compiled : s.compile c = .ok p.model)
    (calls : List Call) {v : TypedValue} (built : ((ofPrototype p).run calls).1.build = .ok v)
    (lossless : s.Lossless v.type v.value) (view : View) :
    ∃ d, v.toRepresentation = .ok d ∧
      (∃ w, (v.prototype view).fromRepresentation (.basic d) = .ok w ∧ w.same v = true) ∧
      ∃ w, (v.prototype view).fromRepresentation v.representation = .ok w ∧ w.same v = true := by
  obtain rfl := Schema.schema_of_compile compiled
  have valid := Schema.valid_of_finalize frozen
  have sound := run_sound valid (ofPrototype_sound p) calls
  obtain ⟨a, ha, hv⟩ := build_eq_ok_iff.mp built
  have hmodel : ((ofPrototype p).run calls).1.model = p.model :=
    congrArg Prototype.model sound.prototype_eq
  rw [hmodel, sound.prototype_eq] at hv
  subst hv
  obtain ⟨w, hw, hsame⟩ := (sound.result a ha).survives valid once lossless false
  obtain ⟨d, hd, htree⟩ :=
    (Node.typed ⟨p.model.schema, p.type, .representation, a⟩).toDatum_of_represented rfl
  have decoded (n : Node) (hn : n.tree = p.model.schema.tree .representation p.type a) :
      ∃ w, (⟨p.model, p.type, view⟩ : Prototype).fromRepresentation n = .ok w ∧
        w.same ⟨p.model, p.type, a⟩ = true := by
    refine ⟨⟨p.model, p.type, w⟩, (Prototype.buildFrom_eq_ok_iff
      (p := ⟨p.model, p.type, .representation⟩) valid).mpr ⟨w, hn ▸ hw, rfl⟩, ?_⟩
    simp [TypedValue.same, TypedValue.typeName, hsame]
  exact ⟨d, mapError_eq_ok_iff.mpr hd, decoded _ htree, decoded _ rfl⟩

theorem encode_decode_sample :
    Sample.types.finalize = .ok Sample.schema ∧ Sample.schema.RenamesOnce ∧
      Sample.schema.compile .empty = .ok Sample.prototype.model ∧
      ((ofPrototype Sample.prototype).run Sample.calls).1.build =
        .ok ⟨Sample.model, 7, Sample.value⟩ ∧
      Sample.schema.Lossless 7 Sample.value ∧
      ∃ d, (⟨Sample.model, 7, Sample.value⟩ : TypedValue).toRepresentation = .ok d ∧
        ∃ w, Sample.prototype.fromRepresentation (.basic d) = .ok w ∧
          w.same ⟨Sample.model, 7, Sample.value⟩ = true := by
  have lossless : Sample.schema.Lossless 7 Sample.value := by decide +kernel
  obtain ⟨d, hd, hw, -⟩ := encode_decode (p := Sample.prototype) Sample.finalize_types
    Sample.renamesOnce_schema Sample.compile_schema Sample.calls rfl lossless .representation
  exact ⟨Sample.finalize_types, Sample.renamesOnce_schema, Sample.compile_schema, rfl, lossless,
    d, hd, hw⟩

end Builder

end DualView
