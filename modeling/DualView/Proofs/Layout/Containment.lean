import DualView.Layout.Containment
import DualView.Proofs.Schema.Collection
import Mathlib.Logic.Relation

/-!
# What contains what

A struct holds the types of its fields in place and a union its members; a list or a map holds
nothing in place.  A type contains what a path of such steps leads to.  The search for a type goes
through every position of the schema at most once, and it finds all that a path leads to.

* `spread_sound`: what is found lies at the end of a path.
* `mem_spread_of_pending`, `mem_spread_of_next`: all that is pending is found, and all that what is
  found leads to.
* `Schema.reaches_iff`: the search says yes exactly where a path leads.
-/

namespace DualView

/-! ## Search -/

section Search

variable {next : Nat → List Nat} {fresh pending : List Nat} {t u : Nat}

/-- What is found lies at the end of a path from something that was pending. -/
theorem spread_sound (h : t ∈ spread next fresh pending) :
    ∃ p ∈ pending, Relation.ReflTransGen (fun a b => b ∈ next a) p t := by
  fun_induction spread next fresh pending with
  | case1 => contradiction
  | case2 fresh pending x found ih =>
    have hx : x ∈ pending := List.mem_of_find?_eq_some found
    rcases List.mem_cons.mp h with rfl | h
    · exact ⟨t, hx, .refl⟩
    · obtain ⟨p, hp, path⟩ := ih h
      rcases List.mem_append.mp hp with hp | hp
      · exact ⟨x, hx, path.head hp⟩
      · exact ⟨p, hp, path⟩

/-- What is pending is found. -/
theorem mem_spread_of_pending (hf : t ∈ fresh) (hp : t ∈ pending) :
    t ∈ spread next fresh pending := by
  fun_induction spread next fresh pending with
  | case1 fresh pending none =>
    have := List.find?_eq_none.mp none t hp
    exact absurd (List.contains_iff_mem.mpr hf) this
  | case2 fresh pending x found ih =>
    by_cases hx : t = x
    · exact hx ▸ List.mem_cons_self
    · have later := ih ((List.mem_erase_of_ne hx).mpr hf) (List.mem_append_right _ hp)
      exact List.mem_cons_of_mem x later

/-- What is found leads to nothing that is not found. -/
theorem mem_spread_of_next (h : t ∈ spread next fresh pending) (hu : u ∈ next t)
    (hf : u ∈ fresh) : u ∈ spread next fresh pending := by
  fun_induction spread next fresh pending with
  | case1 => contradiction
  | case2 fresh pending x found ih =>
    by_cases hx : u = x
    · exact hx ▸ List.mem_cons_self
    · have hf : u ∈ fresh.erase x := (List.mem_erase_of_ne hx).mpr hf
      rcases List.mem_cons.mp h with rfl | h
      · exact List.mem_cons_of_mem t
          (mem_spread_of_pending hf (List.mem_append_left pending hu))
      · exact List.mem_cons_of_mem x (ih h hf)

end Search

/-! ## Containment -/

namespace Schema

variable {s : Schema} {owner t : TypeId}

/-- A type holds another in place: a struct the types of its fields, a union its members. -/
inductive Holds (s : Schema) (owner : TypeId) : TypeId → Prop
  | field {fields : List (Field TypeId)} {repr : StructRepr} {f : Field TypeId}
      (body : s.body owner = .struct fields repr) (mem : f ∈ fields) : Holds s owner f.type
  | member {members : List TypeId} {repr : UnionRepr} {member : TypeId}
      (body : s.body owner = .union members repr) (mem : member ∈ members) :
      Holds s owner member

/-- A type contains another: a path of one step or more leads to it. -/
def Contains (s : Schema) : TypeId → TypeId → Prop := Relation.TransGen s.Holds

theorem references_eq (s : Schema) (id : TypeId) : s.references id = (s.body id).references := rfl

theorem mem_contained_iff : t ∈ s.contained owner ↔ s.Holds owner t := by
  rw [contained.eq_def]
  constructor
  · intro h
    split at h
    · rename_i fields repr body
      rw [references_eq, body] at h
      obtain ⟨f, hf, rfl⟩ := List.mem_map.mp h
      exact .field body hf
    · rename_i members repr body
      rw [references_eq, body] at h
      exact .member body h
    · exact absurd h List.not_mem_nil
  · intro h
    cases h with
    | field body mem =>
      simp only [body, references_eq]
      exact List.mem_map_of_mem mem
    | member body mem =>
      simp only [body, references_eq]
      exact mem

theorem Holds.lt {ts : TypeSystem} (frozen : ts.finalize = .ok s) (h : s.Holds owner t) :
    t < s.size := by
  have mem : t ∈ s.references owner := by
    rw [references_eq]
    cases h with
    | field body mem => exact body ▸ List.mem_map_of_mem mem
    | member body mem => exact body ▸ mem
  exact references_lt_of_finalize frozen mem

/-- **The search says yes exactly where a path leads.** -/
theorem reaches_iff {ts : TypeSystem} (frozen : ts.finalize = .ok s) :
    s.reaches owner t = true ↔ s.Contains owner t := by
  rw [reaches, List.contains_iff_mem]
  constructor
  · intro h
    obtain ⟨p, hp, path⟩ := spread_sound h
    have path : Relation.ReflTransGen s.Holds p t :=
      path.lift id fun _ _ step => mem_contained_iff.mp step
    exact .head' (mem_contained_iff.mp hp) path
  · intro h
    induction h with
    | single step =>
      have hf := List.mem_range.mpr (step.lt frozen)
      exact mem_spread_of_pending hf (mem_contained_iff.mpr step)
    | tail _ step ih =>
      have hf := List.mem_range.mpr (step.lt frozen)
      exact mem_spread_of_next ih (mem_contained_iff.mpr step) hf

theorem isRecursive_iff {ts : TypeSystem} (frozen : ts.finalize = .ok s) :
    s.isRecursive owner = true ↔ s.Contains owner owner :=
  reaches_iff frozen

theorem closesCycle_iff {ts : TypeSystem} (frozen : ts.finalize = .ok s) :
    s.closesCycle owner t = true ↔ t = owner ∨ s.Contains t owner := by
  rw [closesCycle, Bool.or_eq_true, beq_iff_eq, reaches_iff frozen]

end Schema

end DualView
