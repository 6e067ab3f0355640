import DualView.Proofs.Layout.Rearrangement

/-!
# A registry that is written once

Declarations are added in any number, and whoever adds them may go on after a refusal.  A name keeps
the first declaration that was added under it, and a declaration keeps the position it was given.
Freezing replaces names by these positions and loses nothing: names and positions lead back to each
other.

* `TypeSystem.decls_addEach`, `TypeSystem.resolve_addEach`: the declarations that are kept, and the
  one that a name resolves to.
* `TypeSystem.FrozenAs`: positions and names agree in a frozen schema.
* `TypeSystem.frozenAs_of_finalize`: they do where no name is declared twice.
-/

namespace DualView

theorem Body.references_mapRefs {ρ σ : Type} (g : ρ → σ) (body : Body ρ) :
    (body.mapRefs g).references = body.references.map g := by
  cases body with
  | struct fields repr =>
    rw [mapRefs, references, references, List.map_map, List.map_map]
    rfl
  | _ => rfl

namespace TypeSystem

variable {ts : TypeSystem} {d : Decl String} {ds : List (Decl String)} {name : String}

/-! ## One addition -/

theorem contains_iff_mem_names : ts.contains name = true ↔ name ∈ ts.names := by
  rw [contains, List.any_eq_true, names, List.mem_map]
  exact exists_congr fun d => and_congr_right fun _ => beq_iff_eq

theorem add_of_mem (held : d.name ∈ ts.names) : ts.add d = .error (.duplicateName d.name) := by
  rw [add, if_pos (contains_iff_mem_names.mpr held)]

theorem add_of_not_mem (new : d.name ∉ ts.names) : ts.add d = .ok (ts.size, ⟨ts.decls ++ [d]⟩) := by
  rw [add, if_neg (mt contains_iff_mem_names.mp new)]

theorem nodup_names_push (apart : ts.names.Nodup) (new : d.name ∉ ts.names) :
    (⟨ts.decls ++ [d]⟩ : TypeSystem).names.Nodup := by
  rw [names, List.map_append, List.map_singleton, List.nodup_append]
  refine ⟨apart, List.nodup_singleton _, fun a ha b hb => ?_⟩
  rw [List.mem_singleton.mp hb]
  rintro rfl
  exact new ha

/-! ## Many additions -/

theorem addEach_cons_of_mem (held : d.name ∈ ts.names) :
    ts.addEach (d :: ds) =
      (.error (.duplicateName d.name) :: (ts.addEach ds).1, (ts.addEach ds).2) := by
  rw [addEach, add_of_mem held]

theorem addEach_cons_of_not_mem (new : d.name ∉ ts.names) :
    ts.addEach (d :: ds) = (.ok ts.size :: (addEach ⟨ts.decls ++ [d]⟩ ds).1,
      (addEach ⟨ts.decls ++ [d]⟩ ds).2) := by
  rw [addEach, add_of_not_mem new]

theorem nodup_names_addEach (apart : ts.names.Nodup) (ds : List (Decl String)) :
    (ts.addEach ds).2.names.Nodup := by
  induction ds generalizing ts with
  | nil => exact apart
  | cons d ds ih =>
    by_cases held : d.name ∈ ts.names
    · rw [addEach_cons_of_mem held]
      exact ih apart
    · rw [addEach_cons_of_not_mem held]
      exact ih (nodup_names_push apart held)

/-- The declarations that were not refused, each with the position it was given. -/
def accepted (ds : List (Decl String)) (outcomes : List (Except SchemaError TypeId)) :
    List (Decl String × TypeId) :=
  (ds.zip outcomes).filterMap fun (d, outcome) =>
    match outcome with
    | .ok id => some (d, id)
    | .error _ => none

/-- **The declarations that were not refused come last, in order, and stand where they were told.** -/
theorem decls_addEach (ts : TypeSystem) (ds : List (Decl String)) :
    ∃ added, (ts.addEach ds).2.decls = ts.decls ++ added ∧
      accepted ds (ts.addEach ds).1 = added.zipIdx ts.size := by
  induction ds generalizing ts with
  | nil => exact ⟨[], (List.append_nil _).symm, rfl⟩
  | cons d ds ih =>
    by_cases held : d.name ∈ ts.names
    · obtain ⟨added, decls, positions⟩ := ih ts
      rw [addEach_cons_of_mem held]
      exact ⟨added, decls, positions⟩
    · obtain ⟨added, decls, positions⟩ := ih ⟨ts.decls ++ [d]⟩
      rw [addEach_cons_of_not_mem held]
      refine ⟨d :: added, ?_, ?_⟩
      · rw [decls, List.append_assoc, List.singleton_append]
      · have next : (⟨ts.decls ++ [d]⟩ : TypeSystem).size = ts.size + 1 := List.length_append
        rw [List.zipIdx_cons, ← next, ← positions]
        rfl

/-! ## What names resolve to -/

theorem resolve_eq_ok_iff : ts.resolve name = .ok d ↔ ts.decls.find? (·.name == name) = some d := by
  rw [resolve]
  cases ts.decls.find? (·.name == name) <;> simp

theorem find?_name_eq_some_iff :
    ds.find? (·.name == name) = some d ↔ IsFirst (·.name = name) ds d := by
  rw [List.find?_eq_some_iff_getElem]
  constructor
  · rintro ⟨same, i, bound, rfl, before⟩
    refine ⟨i, List.getElem?_eq_getElem bound, eq_of_beq same, fun j hj b hb => ?_⟩
    obtain ⟨-, rfl⟩ := List.getElem?_eq_some_iff.mp hb
    simpa using before j hj
  · rintro ⟨i, hi, rfl, before⟩
    obtain ⟨bound, rfl⟩ := List.getElem?_eq_some_iff.mp hi
    refine ⟨beq_self_eq_true _, i, bound, rfl, fun j hj => ?_⟩
    simpa using before j hj _ (List.getElem?_eq_getElem (Nat.lt_trans hj bound))

/-- A declaration under a name that is held is not the first of any name. -/
theorem find?_append_cons_of_mem {before : List (Decl String)}
    (held : d.name ∈ before.map (·.name)) :
    (before ++ d :: ds).find? (·.name == name) = (before ++ ds).find? (·.name == name) := by
  rw [List.find?_append, List.find?_append, List.find?_cons]
  split
  · rename_i same
    obtain ⟨d', mem, eq⟩ := List.mem_map.mp held
    have found : (before.find? (·.name == name)).isSome = true :=
      List.find?_isSome.mpr ⟨d', mem, by rw [eq]; exact same⟩
    rw [Option.or_of_isSome found, Option.or_of_isSome found]
  · rfl

/-- **A name resolves to the first declaration that was added under it.** -/
theorem resolve_addEach (ts : TypeSystem) (ds : List (Decl String)) (name : String)
    (d : Decl String) :
    (ts.addEach ds).2.resolve name = .ok d ↔ IsFirst (·.name = name) (ts.decls ++ ds) d := by
  rw [resolve_eq_ok_iff, ← find?_name_eq_some_iff]
  induction ds generalizing ts with
  | nil => rw [List.append_nil]; rfl
  | cons d' ds ih =>
    by_cases held : d'.name ∈ ts.names
    · rw [addEach_cons_of_mem held, find?_append_cons_of_mem held]
      exact ih ts
    · rw [addEach_cons_of_not_mem held, List.append_cons ts.decls d' ds]
      exact ih ⟨ts.decls ++ [d']⟩

/-! ## Freezing -/

/-- A schema is that of the declarations: it has them in order, and names and positions lead back to
each other. -/
structure FrozenAs (ts : TypeSystem) (s : Schema) : Prop where
  size_eq : s.size = ts.size
  named_eq : ∀ id d, ts.decls[id]? = some d → s.named id = d
  idOf_nameOf : ∀ id < s.size, s.idOf (s.nameOf id) = .ok id
  references_eq : ∀ id d, ts.decls[id]? = some d → (s.references id).map s.nameOf = d.references
  references_lt : ∀ id, ∀ t ∈ s.references id, t < s.size

/-- Where no name is declared twice, a declaration stands at the position of its name. -/
theorem position_eq (apart : ts.names.Nodup) {id : TypeId} (at_id : ts.decls[id]? = some d) :
    ts.resolve d.name = .ok d ∧ ts.position d.name = id := by
  have found : ts.decls.findIdx? (·.name == d.name) = some id :=
    (findIdx?_eq_some_iff_of_nodup Decl.name apart).mpr ⟨d, at_id, rfl⟩
  refine ⟨?_, by rw [position, found, Option.getD_some]⟩
  exact resolve_eq_ok_iff.mpr
    (find?_eq_some_of_nodup Decl.name apart (List.mem_of_getElem? at_id))

/-- **Names and positions of a frozen schema lead back to each other.** -/
theorem frozenAs_of_finalize (apart : ts.names.Nodup) {s : Schema} (frozen : ts.finalize = .ok s) :
    ts.FrozenAs s := by
  have closed := closed_of_finalize frozen
  have lt {id t : TypeId} (mem : t ∈ s.references id) : t < s.size :=
    s.references_lt_of_finalize frozen mem
  obtain rfl := eq_positioned_of_finalize frozen
  have named {id : TypeId} {d : Decl String} (at_id : ts.decls[id]? = some d) :
      ts.positioned.named id = d := by
    obtain ⟨found, rfl⟩ := position_eq apart at_id
    exact named_position closed found
  refine ⟨by rw [Schema.size, positioned, List.length_map]; rfl, fun id d => named, ?_, ?_,
    fun id t => lt⟩
  · intro id bound
    obtain ⟨name, declared, rfl⟩ := exists_position_eq apart bound
    rw [nameOf_position declared, idOf_positioned, if_pos declared]
  · intro id d at_id
    have same : (ts.positioned.named id).references = d.references := by rw [named at_id]
    rw [← same]
    exact (Body.references_mapRefs _ _).symm

/-! ## From the beginning -/

theorem nodup_names_of_fresh {start : TypeSystem} (fresh : start = empty ∨ start = prelude) :
    start.names.Nodup := by
  rcases fresh with rfl | rfl
  · exact List.nodup_nil
  · decide

end TypeSystem

end DualView
