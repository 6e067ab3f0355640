import DualView.Proofs.Schema.Naming
import DualView.Table

/-!
# Tables of positions

A table *indexes* a list if it has a text at a position exactly if the element there has that text
(`Table.Indexes`).  The texts then differ, and what is found through the table is what a search of
the list finds.

* `Table.Indexes.push`: an element with a new text is appended, and the table is told its position.
* `Table.Indexes.bind_eq_some_iff`: what the table leads to.
* `Table.Indexes.get?_eq`: the table answers as a search does.
-/

namespace DualView

namespace Table

variable {α : Type} {t : Table Nat} {key : α → String} {l : List α} {a : α} {text : String}
  {i : Nat}

/-- The table has a text at a position exactly if the element there has that text. -/
def Indexes (t : Table Nat) (key : α → String) (l : List α) : Prop :=
  ∀ text i, t.get? text = some i ↔ ∃ a, l[i]? = some a ∧ key a = text

theorem indexes_empty : (empty : Table Nat).Indexes key [] := by
  intro text i
  simp [get?, empty]

namespace Indexes

theorem isSome_iff (h : t.Indexes key l) :
    (t.get? text).isSome = true ↔ ∃ a ∈ l, key a = text := by
  rw [Option.isSome_iff_exists]
  constructor
  · rintro ⟨i, hi⟩
    obtain ⟨a, ha, same⟩ := (h text i).mp hi
    exact ⟨a, List.mem_of_getElem? ha, same⟩
  · rintro ⟨a, mem, same⟩
    obtain ⟨i, hi⟩ := List.mem_iff_getElem?.mp mem
    exact ⟨i, (h text i).mpr ⟨a, hi, same⟩⟩

theorem eq_none_iff (h : t.Indexes key l) : t.get? text = none ↔ ∀ a ∈ l, key a ≠ text := by
  rw [← Option.not_isSome_iff_eq_none, h.isSome_iff]
  simp

/-- **The table stays in step when an element with a new text is appended.** -/
theorem push (h : t.Indexes key l) (new : t.get? (key a) = none) :
    (t.set (key a) l.length).Indexes key (l ++ [a]) := by
  intro text i
  by_cases same : text = key a
  · -- the text stands at the end, and nowhere else
    subst same
    rw [get?_set_self]
    constructor
    · intro hi
      cases hi
      exact ⟨a, List.getElem?_concat_length, rfl⟩
    · rintro ⟨b, hb, texts⟩
      by_cases last : i = l.length
      · rw [last]
      · rcases Nat.lt_or_gt_of_ne last with before | after
        · rw [List.getElem?_append_left before] at hb
          exact absurd texts (h.eq_none_iff.mp new b (List.mem_of_getElem? hb))
        · have outside : (l ++ [a]).length ≤ i := by
            rw [List.length_append, List.length_singleton]
            omega
          exact nomatch hb.symm.trans (List.getElem?_eq_none outside)
  · rw [get?_set_of_ne _ _ same, h text i]
    refine exists_congr fun b => ?_
    constructor
    · rintro ⟨hb, texts⟩
      exact ⟨List.getElem?_append_left (List.getElem?_eq_some_iff.mp hb).1 ▸ hb, texts⟩
    · rintro ⟨hb, texts⟩
      by_cases before : i < l.length
      · exact ⟨List.getElem?_append_left before ▸ hb, texts⟩
      · have last : b = a := by
          have mem :=
            List.mem_of_getElem? (List.getElem?_append_right (Nat.le_of_not_lt before) ▸ hb)
          exact List.mem_singleton.mp mem
        exact absurd (last ▸ texts).symm same

/-- No two elements have the same text, since the table has one position for it. -/
theorem nodup (h : t.Indexes key l) : (l.map key).Nodup := by
  rw [List.nodup_iff_getElem?_ne_getElem?]
  intro i j hij hj same
  rw [List.length_map] at hj
  have hi : i < l.length := Nat.lt_trans hij hj
  rw [List.getElem?_map, List.getElem?_map, List.getElem?_eq_getElem hi,
    List.getElem?_eq_getElem hj, Option.map_some, Option.map_some, Option.some.injEq] at same
  have at_i := (h _ i).mpr ⟨_, List.getElem?_eq_getElem hi, rfl⟩
  have at_j := (h _ j).mpr ⟨_, List.getElem?_eq_getElem hj, rfl⟩
  rw [same, at_j, Option.some.injEq] at at_i
  omega

/-- **The table leads to the element of a text.** -/
theorem bind_eq_some_iff (h : t.Indexes key l) :
    ((t.get? text).bind fun i => l[i]?) = some a ↔ a ∈ l ∧ key a = text := by
  rw [Option.bind_eq_some_iff]
  constructor
  · rintro ⟨i, hi, ha⟩
    obtain ⟨b, hb, same⟩ := (h text i).mp hi
    rw [ha, Option.some.injEq] at hb
    subst hb
    exact ⟨List.mem_of_getElem? ha, same⟩
  · rintro ⟨mem, same⟩
    obtain ⟨i, hi⟩ := List.mem_iff_getElem?.mp mem
    exact ⟨i, (h text i).mpr ⟨a, hi, same⟩, hi⟩

/-- The table answers as a search for the text does. -/
theorem get?_eq (h : t.Indexes key l) (text : String) :
    t.get? text = l.findIdx? (key · == text) := by
  refine Option.ext fun i => ?_
  rw [h text i, findIdx?_eq_some_iff_of_nodup key h.nodup]

/-- What the table leads to is what a search finds. -/
theorem bind_eq_find? (h : t.Indexes key l) (text : String) :
    ((t.get? text).bind fun i => l[i]?) = l.find? (key · == text) := by
  refine Option.ext fun a => ?_
  rw [h.bind_eq_some_iff]
  constructor
  · rintro ⟨mem, rfl⟩
    exact find?_eq_some_of_nodup key h.nodup mem
  · intro found
    exact ⟨List.mem_of_find?_eq_some found, by simpa using List.find?_some found⟩

end Indexes

end Table

end DualView
