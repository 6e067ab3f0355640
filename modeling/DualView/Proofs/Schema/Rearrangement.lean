import DualView.Proofs.Schema.Acceptance

/-!
# Declarations in another order

Declarations refer to each other by name, so what they mean does not depend on the order in which
they were added.  The order shows in the positions of a frozen schema, and in which of several
offences is reported; whether there is an offence does not depend on it.

* `TypeSystem.addAll_of_nodup`: declarations under new names are added at the end.
* `TypeSystem.Rearranges`: the same declarations in another order.
* `TypeSystem.Rearranges.resolve_eq`: a name resolves to the same declaration.
* `TypeSystem.Rearranges.exists_finalize_iff`: both are frozen, or neither is.
-/

namespace DualView

namespace TypeSystem

variable {ts ts' : TypeSystem} {name : String} {d : Decl String}

/-! ## Adding -/

/-- Declarations under names that are all new are added at the end, in order. -/
theorem addAll_of_nodup {ds : List (Decl String)}
    (apart : (ts.names ++ ds.map (·.name)).Nodup) : ts.addAll ds = .ok ⟨ts.decls ++ ds⟩ := by
  induction ds generalizing ts with
  | nil => rw [List.append_nil]; rfl
  | cons d ds ih =>
    have apart_next : ((⟨ts.decls ++ [d]⟩ : TypeSystem).names ++ ds.map (·.name)).Nodup := by
      rw [names, List.map_append, List.append_assoc]
      exact apart
    have new : ts.contains d.name = false := by
      rw [contains, List.any_eq_false]
      intro d' hd' same
      have before : d.name ∈ ts.names := eq_of_beq same ▸ List.mem_map_of_mem hd'
      exact (List.nodup_append.mp apart).2.2 _ before _ List.mem_cons_self rfl
    have added : ts.add d = .ok (ts.size, ⟨ts.decls ++ [d]⟩) := by
      rw [add, if_neg (by rw [new]; exact Bool.false_ne_true)]
    rw [addAll, List.foldlM_cons, added]
    exact (ih apart_next).trans (by rw [List.append_assoc, List.singleton_append])

/-! ## Another order -/

/-- The same declarations in another order, under names that are all different. -/
structure Rearranges (ts ts' : TypeSystem) : Prop where
  perm : ts.decls.Perm ts'.decls
  apart : ts.names.Nodup

namespace Rearranges

theorem symm (h : ts.Rearranges ts') : ts'.Rearranges ts where
  perm := h.perm.symm
  apart := (h.perm.map _).nodup_iff.mp h.apart

theorem resolve_eq (h : ts.Rearranges ts') (name : String) : ts'.resolve name = ts.resolve name := by
  rw [resolve, resolve, find?_perm Decl.name h.perm h.apart]

theorem contains_iff (h : ts.Rearranges ts') :
    ts'.contains name = true ↔ ts.contains name = true := by
  rw [TypeSystem.contains_iff, TypeSystem.contains_iff, h.resolve_eq]

theorem representsAs_iff (h : ts.Rearranges ts') {kind : Kind} :
    ts'.RepresentsAs name kind ↔ ts.RepresentsAs name kind := by
  rw [RepresentsAs, RepresentsAs, h.resolve_eq]

theorem isText_iff (h : ts.Rearranges ts') : ts'.IsText name ↔ ts.IsText name := by
  rw [IsText, IsText, h.resolve_eq]

theorem sound_iff (h : ts.Rearranges ts') {body : Body String} :
    ts'.Sound body ↔ ts.Sound body := by
  cases body with
  | scalar kind => exact Iff.rfl
  | list elem nullable => exact Iff.rfl
  | map key value nullable nulls => exact h.representsAs_iff
  | struct fields repr =>
    cases repr with
    | stringjoin separator => simp only [Sound, SuitsFields, h.isText_iff]
    | _ => exact Iff.rfl
  | union members repr =>
    cases repr with
    | keyed discriminants => exact Iff.rfl
    | kinded => simp only [Sound, SuitsMembers, h.representsAs_iff]
  | enum members repr => exact Iff.rfl

theorem wellFormed (h : ts.Rearranges ts') (well : ts.WellFormed) : ts'.WellFormed where
  closed d hd name hn := h.contains_iff.mpr (well.closed d (h.perm.mem_iff.mpr hd) name hn)
  sound d hd := h.sound_iff.mpr (well.sound d (h.perm.mem_iff.mpr hd))

end Rearranges

/-! ## Freezing -/

theorem exists_finalize_iff_wellFormed (ts : TypeSystem) :
    (∃ s, ts.finalize = .ok s) ↔ ts.WellFormed := by
  rcases ts.finalize_cases with ⟨ok, well⟩ | ⟨source, missing, failed, first⟩ |
    ⟨name, fault, failed, -, first⟩
  · exact iff_of_true ok well
  · refine iff_of_false ?_ fun well => first.not_closed well.closed
    rintro ⟨s, ok⟩
    exact absurd (failed.symm.trans ok) nofun
  · refine iff_of_false ?_ first.not_wellFormed
    rintro ⟨s, ok⟩
    exact absurd (failed.symm.trans ok) nofun

theorem closed_of_finalize {s : Schema} (frozen : ts.finalize = .ok s) : ts.Closed :=
  (ts.exists_finalize_iff_wellFormed.mp ⟨s, frozen⟩).closed

/-- A frozen schema has the declarations with positions for names. -/
theorem eq_positioned_of_finalize {s : Schema} (frozen : ts.finalize = .ok s) :
    s = ts.positioned := by
  have decls : ts.decls.mapM ts.close = .ok s.decls := mapM_eq_ok_iff.mpr (decls_of_finalize frozen)
  have same : s.decls = ts.positioned.decls :=
    Except.ok.inj (decls.symm.trans (closed_of_finalize frozen).mapM_close)
  cases s
  exact congrArg Schema.mk same

/-- **Whether declarations are frozen does not depend on their order.** -/
theorem Rearranges.exists_finalize_iff (h : ts.Rearranges ts') :
    (∃ s, ts.finalize = .ok s) ↔ ∃ s', ts'.finalize = .ok s' := by
  rw [exists_finalize_iff_wellFormed, exists_finalize_iff_wellFormed]
  exact ⟨h.wellFormed, h.symm.wellFormed⟩

end TypeSystem

end DualView
