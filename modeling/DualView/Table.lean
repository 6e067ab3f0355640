/-!
# Tables

Values that are known by a name.
-/

namespace DualView

/-- Values under names.  Setting a name again replaces its value. -/
structure Table (α : Type) where
  entries : List (String × α)
  deriving DecidableEq

namespace Table

variable {α : Type}

def empty : Table α := ⟨[]⟩

def get? (t : Table α) (name : String) : Option α := t.entries.lookup name

def keys (t : Table α) : List String := t.entries.map (·.1)

def set (t : Table α) (name : String) (value : α) : Table α :=
  ⟨(name, value) :: t.entries.filter (·.1 != name)⟩

theorem get?_set_self (t : Table α) (name : String) (value : α) :
    (t.set name value).get? name = some value := by
  simp [get?, set]

theorem get?_set_of_ne (t : Table α) {name other : String} (value : α) (h : other ≠ name) :
    (t.set name value).get? other = t.get? other := by
  have kept : (t.entries.filter (·.1 != name)).lookup other = t.entries.lookup other := by
    induction t.entries with
    | nil => rfl
    | cons entry rest ih =>
      by_cases he : entry.1 = name
      · rw [List.filter_cons_of_neg (by simp [he]), ih, List.lookup_cons,
          beq_false_of_ne (he ▸ h)]
      · rw [List.filter_cons_of_pos (by simp [he]), List.lookup_cons, List.lookup_cons, ih]
  rw [get?, set, List.lookup_cons, beq_false_of_ne h, kept]
  rfl

end Table

end DualView
