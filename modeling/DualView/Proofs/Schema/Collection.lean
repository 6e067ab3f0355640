import DualView.Proofs.Outcome
import DualView.Schema.Collection

/-!
# What freezing makes of references

Freezing replaces each name that a declaration refers to by the position at which it is declared.
The references keep their order, and none of them leads out of the schema.

* `Body.resolve_references`: each reference is what is found for the one in its place.
* `Schema.references_lt_of_finalize`: every reference of a frozen schema is a position in it.
-/

namespace DualView

/-! ## Resolving -/

theorem resolve_fields {ρ σ ε : Type} {g : ρ → Except ε σ} {fields : List (Field ρ)}
    {resolved : List (Field σ)}
    (h : fields.mapM (fun f => do
      return (⟨f.name, ← g f.type, f.optional, f.nullable⟩ : Field σ)) = .ok resolved) :
    List.Forall₂ (fun r t => g r = .ok t) (fields.map (·.type)) (resolved.map (·.type)) := by
  rw [List.forall₂_map_left_iff, List.forall₂_map_right_iff]
  refine (mapM_eq_ok_iff.mp h).imp fun f f' hf => ?_
  obtain ⟨t, ht, hf⟩ := bind_eq_ok_iff.mp hf
  cases hf
  exact ht

/-- **Resolving puts in place of each reference what is found for it.** -/
theorem Body.resolve_references {ρ σ ε : Type} {g : ρ → Except ε σ} {body : Body ρ}
    {resolved : Body σ} (h : body.resolve g = .ok resolved) :
    List.Forall₂ (fun r t => g r = .ok t) body.references resolved.references := by
  cases body with
  | scalar kind =>
    cases h
    exact .nil
  | enum members repr =>
    cases h
    exact .nil
  | list elem nullable =>
    obtain ⟨t, ht, h⟩ := bind_eq_ok_iff.mp h
    cases h
    exact .cons ht .nil
  | map key value nullable nulls =>
    obtain ⟨k, hk, h⟩ := bind_eq_ok_iff.mp h
    obtain ⟨v, hv, h⟩ := bind_eq_ok_iff.mp h
    cases h
    exact .cons hk (.cons hv .nil)
  | struct fields repr =>
    obtain ⟨resolved, hr, h⟩ := bind_eq_ok_iff.mp h
    cases h
    exact resolve_fields hr
  | union members repr =>
    obtain ⟨resolved, hr, h⟩ := bind_eq_ok_iff.mp h
    cases h
    exact mapM_eq_ok_iff.mp hr

theorem Body.type_mem_references {ρ : Type} {body : Body ρ} {f : Field ρ}
    (h : f ∈ body.fields?.getD []) : f.type ∈ body.references := by
  cases body with
  | struct fields repr => exact List.mem_map_of_mem h
  | _ => exact absurd h List.not_mem_nil

/-! ## Freezing -/

namespace TypeSystem

variable {ts : TypeSystem}

theorem reference_lt {source name : String} {id : TypeId}
    (h : ts.reference source name = .ok id) : id < ts.size := by
  rw [reference] at h
  split at h
  · rename_i found
    cases h
    exact (List.findIdx?_eq_some_iff_getElem.mp found).1
  · contradiction

theorem decls_of_finalize {s : Schema} (h : ts.finalize = .ok s) :
    List.Forall₂ (fun d d' => ts.close d = .ok d') ts.decls s.decls := by
  rw [finalize] at h
  obtain ⟨ds, hds, h⟩ := bind_eq_ok_iff.mp h
  dsimp only at h
  split at h
  · contradiction
  · cases h
    exact mapM_eq_ok_iff.mp hds

end TypeSystem

/-- **Every reference of a frozen schema is a position in it.** -/
theorem Schema.references_lt_of_finalize {ts : TypeSystem} {s : Schema}
    (h : ts.finalize = .ok s) {id t : TypeId} (ht : t ∈ s.references id) : t < s.size := by
  have hds := TypeSystem.decls_of_finalize h
  have size_eq : s.size = ts.size := hds.length_eq.symm
  rw [references, decl] at ht
  obtain ⟨d, d', -, hd', hclose⟩ | ⟨-, hd'⟩ := rel_iff.mp (getElem?_of_forall₂ hds id)
  · rw [hd', Option.getD_some] at ht
    obtain ⟨body, hbody, hclose⟩ := bind_eq_ok_iff.mp hclose
    cases hclose
    obtain ⟨i, hi⟩ := List.mem_iff_getElem?.mp ht
    have found := getElem?_of_forall₂ (Body.resolve_references hbody) i
    obtain ⟨name, t', -, ht', hname⟩ | ⟨-, hnone⟩ := rel_iff.mp found
    · cases hi.symm.trans ht'
      rw [size_eq]
      exact TypeSystem.reference_lt hname
    · exact absurd (hi.symm.trans hnone) nofun
  · rw [hd', Option.getD_none] at ht
    exact absurd ht List.not_mem_nil

end DualView
