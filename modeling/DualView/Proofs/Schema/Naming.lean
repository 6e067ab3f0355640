import DualView.Schema.Validity
import Mathlib.Data.List.Nodup
import Mathlib.Data.List.Perm.Subperm
import Mathlib.Data.Option.Basic

/-!
# Names and keys lead back to each other

A `Renaming` and `Labels` are searched from both sides, and the first pair that matches decides.
The two searches are inverse to each other as soon as no name stands in two pairs and no two names
share a key.  For a `Renaming` that may name things twice, `Renaming.Reciprocal` says exactly when.

* `Renaming.nameOf?_keyOf`, `Renaming.keyOf_of_nameOf?`: the key of a name leads back to the name,
  and the name behind a key has that key.
* `Renaming.Separates.inverse_iff_reciprocal`: that is so exactly for the reciprocal renamings.
* `Labels.fault?_eq_none_iff`: what the check of labels accepts, as a `Labels.Covers`.
* `Labels.Covers.labelOf?_iff`, `Labels.Covers.nameOf?_iff`: both searches find exactly the pairs.
* `Labels.Covers.exists_label`: every member has a label.
-/

namespace DualView

/-! ## Searches -/

/-- With no first component twice, `lookup` finds exactly the pairs. -/
theorem lookup_eq_some_iff_mem {α β : Type} [DecidableEq α] {l : List (α × β)} {a : α} {b : β}
    (once : (l.map (·.1)).Nodup) : l.lookup a = some b ↔ (a, b) ∈ l := by
  induction l with
  | nil => simp
  | cons p rest ih =>
    obtain ⟨a', b'⟩ := p
    rw [List.map_cons, List.nodup_cons] at once
    rw [List.lookup_cons]
    by_cases h : a = a'
    · subst h
      simp only [BEq.rfl, Option.some.injEq, List.mem_cons, Prod.mk.injEq, true_and]
      refine ⟨fun e => Or.inl e.symm, fun e => e.elim Eq.symm fun hm => ?_⟩
      exact absurd (List.mem_map.mpr ⟨_, hm, rfl⟩) once.1
    · rw [beq_false_of_ne h, ih once.2]
      simp [h]

theorem mem_of_lookup_eq_some {α β : Type} [DecidableEq α] {l : List (α × β)} {a : α} {b : β}
    (h : l.lookup a = some b) : (a, b) ∈ l := by
  obtain ⟨before, rest, rfl, -⟩ := List.lookup_eq_some_iff.mp h
  exact List.mem_append_right before List.mem_cons_self

theorem find?_eq_some_of_nodup {α κ : Type} [DecidableEq κ] (key : α → κ) {l : List α} {a : α}
    (apart : (l.map key).Nodup) (h : a ∈ l) : (l.find? fun x => key x == key a) = some a := by
  induction l with
  | nil => simp at h
  | cons x rest ih =>
    rw [List.map_cons, List.nodup_cons] at apart
    rw [List.find?_cons]
    rcases List.mem_cons.mp h with rfl | hm
    · simp
    · have hne : key x ≠ key a := fun e => apart.1 (e ▸ List.mem_map.mpr ⟨a, hm, rfl⟩)
      rw [beq_false_of_ne hne]
      exact ih apart.2 hm

theorem find?_perm {α κ : Type} [DecidableEq κ] (key : α → κ) {l l' : List α} (perm : l.Perm l')
    (apart : (l.map key).Nodup) (k : κ) :
    (l.find? fun x => key x == k) = l'.find? fun x => key x == k := by
  have apart' : (l'.map key).Nodup := (perm.map key).nodup_iff.mp apart
  cases found : l.find? fun x => key x == k with
  | some a =>
    have hk := List.find?_some found
    obtain rfl : key a = k := eq_of_beq hk
    have mem : a ∈ l' := perm.mem_iff.mp (List.mem_of_find?_eq_some found)
    exact (find?_eq_some_of_nodup key apart' mem).symm
  | none =>
    have none' : ∀ a ∈ l', ¬ (key a == k) = true := fun a mem =>
      List.find?_eq_none.mp found a (perm.mem_iff.mpr mem)
    exact (List.find?_eq_none.mpr none').symm

/-- What a search by a key leads to is what one of the elements that have it leads to. -/
theorem find?_bind_eq_some_iff {α β κ : Type} [DecidableEq κ] (key : α → κ) {l : List α}
    (apart : (l.map key).Nodup) {g : α → Option β} {k : κ} {b : β} :
    (l.find? fun x => key x == k).bind g = some b ↔ ∃ a ∈ l, key a = k ∧ g a = some b := by
  constructor
  · intro found
    obtain ⟨a, ha, hb⟩ := Option.bind_eq_some_iff.mp found
    have hk := List.find?_some ha
    exact ⟨a, List.mem_of_find?_eq_some ha, eq_of_beq hk, hb⟩
  · rintro ⟨a, ha, rfl, hb⟩
    rw [find?_eq_some_of_nodup key apart ha]
    exact hb

theorem findIdx?_eq_some_iff_of_nodup {α κ : Type} [DecidableEq κ] (key : α → κ) {l : List α}
    (apart : (l.map key).Nodup) {k : κ} {i : Nat} :
    (l.findIdx? fun x => key x == k) = some i ↔ ∃ a, l[i]? = some a ∧ key a = k := by
  rw [List.findIdx?_eq_some_iff_getElem]
  constructor
  · rintro ⟨hi, hk, -⟩
    exact ⟨l[i], List.getElem?_eq_getElem hi, eq_of_beq hk⟩
  · rintro ⟨a, ha, rfl⟩
    obtain ⟨hi, rfl⟩ := List.getElem?_eq_some_iff.mp ha
    refine ⟨hi, beq_self_eq_true _, fun j hj he => ?_⟩
    have hne := List.pairwise_iff_getElem.mp (List.pairwise_map.mp apart) j i (by omega) hi hj
    exact hne (eq_of_beq he)

theorem idxOf?_eq_some_iff_of_nodup {α : Type} [DecidableEq α] {l : List α} (apart : l.Nodup)
    {a : α} {i : Nat} : l.idxOf? a = some i ↔ l[i]? = some a := by
  have := findIdx?_eq_some_iff_of_nodup id (l := l) (by simpa using apart)
    (k := a) (i := i)
  simpa [List.idxOf?] using this

/-! ## Renamings -/

namespace Renaming

/-- No name is renamed twice. -/
def NamesOnce (r : Renaming) : Prop := (r.pairs.map (·.1)).Nodup

instance (r : Renaming) : Decidable r.NamesOnce := inferInstanceAs (Decidable (List.Nodup _))

/-- Only `names` are renamed, and no two of them have one key. -/
structure Separates (r : Renaming) (names : List String) : Prop where
  declared : ∀ p ∈ r.pairs, p.1 ∈ names
  apart : (names.map r.keyOf).Nodup

theorem keyOf_of_mem {r : Renaming} (once : r.NamesOnce) {name key : String}
    (h : (name, key) ∈ r.pairs) : r.keyOf name = key := by
  rw [keyOf, (lookup_eq_some_iff_mem once).mpr h, Option.getD_some]

theorem keyOf_of_not_mem {r : Renaming} {name : String} (h : name ∉ r.pairs.map (·.1)) :
    r.keyOf name = name := by
  have hn : r.pairs.lookup name = Option.none := by
    rw [List.lookup_eq_none_iff]
    intro p hp
    exact bne_iff_ne.mpr fun e => h (List.mem_map.mpr ⟨p, hp, e.symm⟩)
  rw [keyOf, hn, Option.getD_none]

/-- Every key that is listed leads to a name that has it, and not another key. -/
def Reciprocal (r : Renaming) : Prop :=
  ∀ p ∈ r.pairs, (r.pairs.find? fun q => q.2 == p.2) = some p → r.keyOf p.1 = p.2

instance (r : Renaming) : Decidable r.Reciprocal := inferInstanceAs (Decidable (∀ _ ∈ _, _ → _))

theorem NamesOnce.reciprocal {r : Renaming} (once : r.NamesOnce) : r.Reciprocal :=
  fun _ hp _ => keyOf_of_mem once hp

/-- A listed key leads to the first name that it is listed with. -/
theorem nameOf?_of_find? {r : Renaming} {p : String × String}
    (h : (r.pairs.find? fun q => q.2 == p.2) = some p) : r.nameOf? p.2 = some p.1 := by
  rw [nameOf?, h]

namespace Reciprocal

variable {r : Renaming} {name : String}

/-- The name behind a key has that key. -/
theorem keyOf_of_nameOf? (h : r.Reciprocal) {key : String} (hn : r.nameOf? key = some name) :
    r.keyOf name = key := by
  rw [nameOf?] at hn
  split at hn
  · rename_i name' key' hf
    obtain rfl := Option.some.inj hn
    obtain rfl : key' = key := by simpa using List.find?_some hf
    exact h _ (List.mem_of_find?_eq_some hf) hf
  · split at hn
    · contradiction
    · rename_i hany
      obtain rfl := Option.some.inj hn
      refine keyOf_of_not_mem fun hm => hany ?_
      obtain ⟨p, hp, he⟩ := List.mem_map.mp hm
      exact List.any_eq_true.mpr ⟨p, hp, by simp [he]⟩

/-- The key of a name leads back to the name. -/
theorem nameOf?_keyOf (h : r.Reciprocal) {names : List String} (sep : r.Separates names)
    (hn : name ∈ names) : r.nameOf? (r.keyOf name) = some name := by
  have inj : ∀ {a}, a ∈ names → r.keyOf a = r.keyOf name → a = name := fun ha he =>
    List.inj_on_of_nodup_map sep.apart ha hn he
  rw [nameOf?]
  split
  · rename_i name' key' hf
    have hm := List.mem_of_find?_eq_some hf
    obtain rfl : key' = r.keyOf name := by simpa using List.find?_some hf
    exact congrArg some (inj (sep.declared _ hm) (h _ hm hf))
  · rename_i hf
    cases hl : r.pairs.lookup name with
    | some key =>
      -- a renamed name finds the pair that gives it its key
      have hm := List.find?_eq_none.mp hf _ (mem_of_lookup_eq_some hl)
      simp [keyOf, hl] at hm
    | none =>
      -- a name that keeps its own key must not be renamed under that key
      have hk : r.keyOf name = name := by rw [keyOf, hl, Option.getD_none]
      have hany : ¬ r.pairs.any (·.1 == name) = true := by
        rw [List.any_eq_true]
        rintro ⟨p, hp, he⟩
        have := List.lookup_eq_none_iff.mp hl p hp
        simp_all
      rw [hk, if_neg hany]

end Reciprocal

/-- The name behind a key has that key. -/
theorem keyOf_of_nameOf? {r : Renaming} (once : r.NamesOnce) {name key : String}
    (h : r.nameOf? key = some name) : r.keyOf name = key :=
  once.reciprocal.keyOf_of_nameOf? h

/-- **The key of a name leads back to the name.** -/
theorem nameOf?_keyOf {r : Renaming} (once : r.NamesOnce) {names : List String}
    (sep : r.Separates names) {name : String} (h : name ∈ names) :
    r.nameOf? (r.keyOf name) = some name :=
  once.reciprocal.nameOf?_keyOf sep h

/-- **Keys and names lead back to each other exactly if every listed key leads to a name that has
it.** -/
theorem Separates.inverse_iff_reciprocal {r : Renaming} {names : List String}
    (sep : r.Separates names) :
    ((∀ name ∈ names, r.nameOf? (r.keyOf name) = some name) ∧
      ∀ name ∈ names, ∀ key, r.nameOf? key = some name → r.keyOf name = key) ↔
        r.Reciprocal := by
  constructor
  · rintro ⟨-, hkey⟩ p hp hf
    exact hkey p.1 (sep.declared p hp) p.2 (nameOf?_of_find? hf)
  · intro h
    exact ⟨fun name hn => h.nameOf?_keyOf sep hn, fun name _ key hk => h.keyOf_of_nameOf? hk⟩

theorem separates_none {names : List String} (h : names.Nodup) : none.Separates names where
  declared := by simp [none]
  apart := by simpa [funext keyOf_none] using h

theorem namesOnce_none : none.NamesOnce := by simp [NamesOnce, none]

end Renaming

/-! ## Labels -/

namespace Labels

variable {β : Type}

/-- Each member has one label, nothing else has one, and no two members share one. -/
structure Covers (l : Labels β) (members : List String) : Prop where
  declared : ∀ p ∈ l.pairs, p.1 ∈ members
  once : (l.pairs.map (·.1)).Nodup
  apart : (l.pairs.map (·.2)).Nodup
  length : l.pairs.length = members.length

theorem firstFault_eq_none_iff [DecidableEq β] {members : List String}
    {pairs seen : List (String × β)} :
    firstFault members seen pairs = none ↔
      (∀ p ∈ pairs, p.1 ∈ members) ∧
      ((pairs.map (·.1)).Nodup ∧ ∀ p ∈ pairs, p.1 ∉ seen.map (·.1)) ∧
      ((pairs.map (·.2)).Nodup ∧ ∀ p ∈ pairs, p.2 ∉ seen.map (·.2)) := by
  induction pairs generalizing seen with
  | nil => simp [firstFault]
  | cons p rest ih =>
    obtain ⟨member, label⟩ := p
    rw [firstFault]
    split
    · rename_i hd
      simp [hd]
    split
    · rename_i hm
      simp only [reduceCtorEq, false_iff]
      intro h
      exact h.2.1.2 _ List.mem_cons_self hm
    split
    · rename_i hl
      simp only [reduceCtorEq, false_iff]
      intro h
      exact h.2.2.2 _ List.mem_cons_self hl
    · rename_i hd hm hl
      rw [ih]
      rw [not_not] at hd
      simp only [List.map_cons, List.nodup_cons, List.forall_mem_cons, hd, hm, hl, true_and,
        not_false_eq_true]
      simp only [List.mem_cons, not_or]
      constructor
      · rintro ⟨h1, ⟨h2, h3⟩, h4, h5⟩
        refine ⟨h1, ⟨⟨fun h => ?_, h2⟩, fun q hq => (h3 q hq).2⟩, ⟨fun h => ?_, h4⟩,
          fun q hq => (h5 q hq).2⟩
        · obtain ⟨q, hq, he⟩ := List.mem_map.mp h
          exact (h3 q hq).1 he
        · obtain ⟨q, hq, he⟩ := List.mem_map.mp h
          exact (h5 q hq).1 he
      · rintro ⟨h1, ⟨⟨h2, h3⟩, h4⟩, ⟨h5, h6⟩, h7⟩
        refine ⟨h1, ⟨h3, fun q hq => ⟨fun e => h2 ?_, h4 q hq⟩⟩, h6,
          fun q hq => ⟨fun e => h5 ?_, h7 q hq⟩⟩
        · exact List.mem_map.mpr ⟨q, hq, e⟩
        · exact List.mem_map.mpr ⟨q, hq, e⟩

/-- **The check of labels accepts exactly those that cover the members.** -/
theorem fault?_eq_none_iff [DecidableEq β] {members : List String} {l : Labels β} :
    l.fault? members = none ↔ l.Covers members := by
  rw [fault?, Option.orElse_eq_none, firstFault_eq_none_iff]
  constructor
  · rintro ⟨⟨h1, ⟨h2, _⟩, h3, _⟩, h4⟩
    exact ⟨h1, h2, h3, by simpa using h4⟩
  · rintro ⟨h1, h2, h3, h4⟩
    exact ⟨⟨h1, ⟨h2, by simp⟩, h3, by simp⟩, by simp [h4]⟩

namespace Covers

variable {l : Labels β} {members : List String}

theorem labelOf?_iff (h : l.Covers members) {member : String} {label : β} :
    l.labelOf? member = some label ↔ (member, label) ∈ l.pairs :=
  lookup_eq_some_iff_mem h.once

theorem nameOf?_iff [DecidableEq β] (h : l.Covers members) {member : String} {label : β} :
    l.nameOf? label = some member ↔ (member, label) ∈ l.pairs := by
  rw [nameOf?, Option.map_eq_some_iff]
  constructor
  · rintro ⟨⟨_, label'⟩, hf, rfl⟩
    have he : label' = label := by simpa using List.find?_some hf
    exact he ▸ List.mem_of_find?_eq_some hf
  · intro hm
    exact ⟨_, find?_eq_some_of_nodup (·.2) h.apart hm, rfl⟩

/-- The two searches are inverse to each other. -/
theorem labelOf?_iff_nameOf? [DecidableEq β] (h : l.Covers members) {member : String}
    {label : β} :
    l.labelOf? member = some label ↔ l.nameOf? label = some member :=
  h.labelOf?_iff.trans h.nameOf?_iff.symm

/-- **Every member has a label**: as many pairs as members, and no member twice. -/
theorem exists_label (h : l.Covers members) {member : String}
    (hm : member ∈ members) : ∃ label, l.labelOf? member = some label := by
  have hs : (l.pairs.map (·.1)).Subperm members := List.subperm_of_subset h.once fun x hx => by
    obtain ⟨p, hp, rfl⟩ := List.mem_map.mp hx
    exact h.declared p hp
  have hp := hs.perm_of_length_le (by simp [h.length])
  obtain ⟨⟨_, label⟩, hq, rfl⟩ := List.mem_map.mp (hp.symm.subset hm)
  exact ⟨label, h.labelOf?_iff.mpr hq⟩

end Covers

end Labels

end DualView
