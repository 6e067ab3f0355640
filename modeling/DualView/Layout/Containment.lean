import DualView.Schema.Basic

/-!
# Containment by value

A struct contains its fields and a union its members in place, while lists and maps keep theirs
apart.  A type that contains itself by value would have no finite size, so the layouts of a schema
have to cut every such cycle.  `Schema.reaches` decides whether one type contains another at any
depth.  A `Classifier` finds that out one type at a time, and remembers the answers it has given.
-/

namespace DualView

/-! ## Search -/

/-- The positions of `fresh` that `next` leads to from `pending`, in steps that stay in `fresh`.
Each step takes one position out of `fresh`. -/
def spread (next : Nat → List Nat) (fresh pending : List Nat) : List Nat :=
  match _found : pending.find? (fresh.contains ·) with
  | none => []
  | some t => t :: spread next (fresh.erase t) (next t ++ pending)
termination_by fresh.length
decreasing_by
  have mem : t ∈ fresh := by simpa using List.find?_some _found
  have := List.length_erase_of_mem mem
  have := List.length_pos_of_mem mem
  omega

namespace Schema

variable (s : Schema)

/-- The types that a type holds in place. -/
def contained (id : TypeId) : List TypeId :=
  match s.body id with
  | .struct _ _ | .union _ _ => s.references id
  | _ => []

/-- A path of one step or more leads from a type to another that it contains. -/
def reaches (source target : TypeId) : Bool :=
  (spread s.contained (List.range s.size) (s.contained source)).contains target

/-- The type contains itself. -/
def isRecursive (id : TypeId) : Bool := s.reaches id id

/-- A field of a type inside `owner` would close a cycle. -/
def closesCycle (owner field : TypeId) : Bool := field == owner || s.reaches field owner

end Schema

/-! ## Rounds of a search -/

/-- Where a search among types stands: what it has gone through, and what it is still to look at, the
next first. -/
structure Search where
  visited : List TypeId
  pending : List TypeId

namespace Search

/-- The search from a type, before its first round. -/
def start (s : Schema) (source : TypeId) : Search := ⟨[], (s.contained source).reverse⟩

/-- One round of the search for `target`: an answer, or where it stands next. -/
def step (s : Schema) (target : TypeId) : Search → Bool ⊕ Search
  | ⟨_, []⟩ => .inl false
  | ⟨visited, t :: pending⟩ =>
    if t = target then .inl true
    else if t ∈ visited then .inr ⟨visited, pending⟩
    else .inr ⟨t :: visited, (s.contained t).reverse ++ pending⟩

/-- How much may still be looked at: what is pending, and what is held by the types that the search
has not gone through. -/
def remaining (s : Schema) (search : Search) : Nat :=
  search.pending.length +
    (((List.range s.size).filter (· ∉ search.visited)).flatMap s.contained).length

/-- What is held by all that is not visited is held by the one visited next, or by the rest. -/
theorem length_unvisited {f : TypeId → List TypeId} {visited : List TypeId} {t : TypeId}
    (h : t ∉ visited) {types : List TypeId} (apart : types.Nodup) :
    ((types.filter (· ∉ visited)).flatMap f).length =
      (if t ∈ types then (f t).length else 0) +
        ((types.filter (· ∉ t :: visited)).flatMap f).length := by
  induction types with
  | nil => simp
  | cons u rest ih =>
    obtain ⟨hu, apart⟩ := List.nodup_cons.mp apart
    have ih := ih apart
    rw [List.filter_cons, List.filter_cons]
    grind

/-- What is not a type of the schema holds nothing. -/
theorem contained_of_size_le {s : Schema} {t : TypeId} (h : s.size ≤ t) : s.contained t = [] := by
  have vacant : s.decl t = Schema.vacant := by
    rw [Schema.decl, List.getElem?_eq_none h, Option.getD_none]
  rw [Schema.contained, Schema.body, vacant]
  rfl

/-- Each round takes one from what may still be looked at. -/
theorem remaining_step {s : Schema} {target : TypeId} {search next : Search}
    (h : search.step s target = .inr next) : search.remaining s = next.remaining s + 1 := by
  obtain ⟨visited, _ | ⟨t, pending⟩⟩ := search
  · contradiction
  rw [step] at h
  split at h
  · contradiction
  split at h
  · obtain rfl := Sum.inr.inj h
    simp only [remaining, List.length_cons]
    omega
  · rename_i unvisited
    obtain rfl := Sum.inr.inj h
    have share := length_unvisited (f := s.contained) unvisited (List.nodup_range (n := s.size))
    have held : (if t ∈ List.range s.size then (s.contained t).length else 0) =
        (s.contained t).length := by
      split
      · rfl
      · rename_i outside
        rw [contained_of_size_le (by simpa using outside), List.length_nil]
    rw [held] at share
    simp only [remaining, share, List.length_cons, List.length_append, List.length_reverse]
    omega

/-- The answer of the search for `target`, after as many rounds as it takes. -/
def run (s : Schema) (target : TypeId) (search : Search) : Bool :=
  match _round : search.step s target with
  | .inl answer => answer
  | .inr next => next.run s target
termination_by search.remaining s
decreasing_by
  have := remaining_step _round
  omega

end Search

/-! ## Remembered answers -/

/-- A schema with the answers already given about it. -/
structure Classifier where
  schema : Schema
  known : List ((TypeId × TypeId) × Bool)

namespace Classifier

def ofSchema (s : Schema) : Classifier := ⟨s, []⟩

/-- Whether `source` reaches `target`; a new answer is searched for and remembered. -/
def reaches (c : Classifier) (source target : TypeId) : Bool × Classifier :=
  match c.known.lookup (source, target) with
  | some answer => (answer, c)
  | none =>
    let answer := (Search.start c.schema source).run c.schema target
    (answer, { c with known := ((source, target), answer) :: c.known })

def isRecursive (c : Classifier) (id : TypeId) : Bool × Classifier := c.reaches id id

def closesCycle (c : Classifier) (owner field : TypeId) : Bool × Classifier :=
  if field = owner then (true, c) else c.reaches field owner

end Classifier

end DualView
