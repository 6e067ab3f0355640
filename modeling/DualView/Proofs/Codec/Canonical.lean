import DualView.Proofs.Codec.Order

/-!
# Canonical forms

The canonical form of a data tree, as a value of a type, differs from it in two ways: the fields of
a struct come in declaration order, whether as entries or as pairs, and the representation leaves
out the null entries of maps that omit nulls.

* `Schema.canonical`: the canonical form, type by type.
* `Schema.canonical_rearranges`: it has the content of the data tree, at any depth.
-/

namespace DualView

/-! ## The canonical form of a data tree -/

namespace Field

/-- The position of the field that a key stands for, past all fields if there is none. -/
def position (keys : Renaming) (fields : List (Field TypeId)) (key : String) : Nat :=
  ((keys.nameOf? key).bind (index? fields)).getD fields.length

def typeUnder? (keys : Renaming) (fields : List (Field TypeId)) (key : String) : Option TypeId :=
  fields[position keys fields key]?.map (·.type)

end Field

namespace Datum

def pairKey : Datum → String
  | list (scalar (.string key) :: _) => key
  | _ => ""

/-- The same content: items and entries may come in another order, and entries that are null may be
left out if this is allowed. -/
inductive Rearranges (omits : Bool) : Datum → Datum → Prop
  | null : Rearranges omits .null .null
  | scalar (a : Scalar) : Rearranges omits (.scalar a) (.scalar a)
  | list {ds es es' : List Datum} (items : List.Forall₂ (Rearranges omits) ds es)
      (perm : es.Perm es') : Rearranges omits (.list ds) (.list es')
  | map {ps qs qs' gone : List (String × Datum)} (keys : ps.map (·.1) = qs.map (·.1))
      (values : List.Forall₂ (Rearranges omits) (ps.map (·.2)) (qs.map (·.2)))
      (perm : qs.Perm (qs' ++ gone)) (nulls : ∀ p ∈ gone, omits = true ∧ p.2 = .null) :
      Rearranges omits (.map ps) (.map qs')

end Datum

namespace Schema

def memberUnder? (s : Schema) (view : View) (members : List TypeId) (repr : UnionRepr)
    (key : String) : Option TypeId :=
  (s.memberIndex? view members repr key).bind (members[·]?)

/-- The type as which a view takes something of a kind: a kinded union takes it as a member. -/
def takes (s : Schema) (view : View) (type : TypeId) (kind : Kind) : TypeId :=
  ((s.target? view type kind).map (·.2)).getD type

/-- Whether a map shows an entry with this value. -/
def keepsEntry (view : View) (nulls : NullPolicy) (d : Datum) : Bool :=
  !(decide (view = .representation ∧ nulls = .omitNulls) && d.kind == .null)

mutual

/-- The canonical form of a data tree that a view takes as a value of a type. -/
def canonical (s : Schema) (view : View) (type : TypeId) : Datum → Datum
  | .null => .null
  | .scalar a => .scalar a
  | .list items =>
    match s.body (s.takes view type .list) with
    | .list elem _ => .list (canonicalItems s view (fun _ => some elem) items)
    | .struct fields .tuple => .list (canonicalItems s view (fields[·]?.map (·.type)) items)
    | .struct fields (.listpairs keys) =>
      .list (inOrder (fun d => Field.position keys fields d.pairKey)
        (canonicalPairs s view (Field.typeUnder? keys fields) items))
    | _ => .list items
  | .map entries =>
    match s.body (s.takes view type .map) with
    | .map _ value _ nulls =>
      .map ((canonicalEntries s view (fun _ => some value) entries).filter
        fun p => keepsEntry view nulls p.2)
    | .struct fields repr =>
      let keys := (repr.entryKeys? view).getD .none
      .map (inOrder (fun p => Field.position keys fields p.1)
        (canonicalEntries s view (Field.typeUnder? keys fields) entries))
    | .union members repr =>
      .map (canonicalEntries s view (s.memberUnder? view members repr) entries)
    | _ => .map entries

def canonicalItems (s : Schema) (view : View) (typeAt? : Nat → Option TypeId) :
    List Datum → List Datum
  | [] => []
  | d :: rest =>
    (match typeAt? 0 with
      | some type => canonical s view type d
      | none => d) :: canonicalItems s view (fun i => typeAt? (i + 1)) rest

def canonicalPairs (s : Schema) (view : View) (typeUnder? : String → Option TypeId) :
    List Datum → List Datum
  | [] => []
  | .list [.scalar (.string key), d] :: rest =>
    Datum.pair (key, match typeUnder? key with
      | some type => canonical s view type d
      | none => d) :: canonicalPairs s view typeUnder? rest
  | d :: rest => d :: canonicalPairs s view typeUnder? rest

def canonicalEntries (s : Schema) (view : View) (typeUnder? : String → Option TypeId) :
    List (String × Datum) → List (String × Datum)
  | [] => []
  | (key, d) :: rest =>
    (key, match typeUnder? key with
      | some type => canonical s view type d
      | none => d) :: canonicalEntries s view typeUnder? rest

end

/-- The canonical form of a data tree, if there is a type to take it as. -/
def canonical? (s : Schema) (view : View) (type? : Option TypeId) (d : Datum) : Datum :=
  match type? with
  | some type => s.canonical view type d
  | none => d

/-! ## One level of a canonical form -/

section Levels

variable {s : Schema} {view : View}

theorem getElem?_canonicalItems (typeAt? : Nat → Option TypeId) (ds : List Datum) (i : Nat) :
    (s.canonicalItems view typeAt? ds)[i]? = ds[i]?.map (s.canonical? view (typeAt? i)) := by
  induction ds generalizing typeAt? i with
  | nil => rfl
  | cons d ds ih =>
    rw [canonicalItems]
    cases i with
    | zero => rfl
    | succ i => exact ih (fun i => typeAt? (i + 1)) i

theorem canonicalItems_elem (elem : TypeId) (ds : List Datum) :
    s.canonicalItems view (fun _ => some elem) ds = ds.map (s.canonical view elem) :=
  List.ext_getElem? fun i => by rw [getElem?_canonicalItems, List.getElem?_map]; rfl

theorem canonicalEntries_eq (typeUnder? : String → Option TypeId)
    (entries : List (String × Datum)) :
    s.canonicalEntries view typeUnder? entries =
      entries.map fun p => (p.1, s.canonical? view (typeUnder? p.1) p.2) := by
  induction entries with
  | nil => rfl
  | cons p entries ih =>
    rw [canonicalEntries, ih]
    rfl

theorem canonicalPairs_eq (typeUnder? : String → Option TypeId)
    (entries : List (String × Datum)) :
    s.canonicalPairs view typeUnder? (entries.map Datum.pair) =
      (s.canonicalEntries view typeUnder? entries).map Datum.pair := by
  induction entries with
  | nil => rfl
  | cons p entries ih =>
    rw [canonicalEntries, List.map_cons, List.map_cons, ← ih]
    rfl

theorem kind_canonical (type : TypeId) (d : Datum) : (s.canonical view type d).kind = d.kind := by
  cases d with
  | null => rfl
  | scalar a => rfl
  | list items =>
    rw [canonical]
    split <;> rfl
  | map entries =>
    rw [canonical]
    split <;> rfl

theorem canonical_eq_of_takes {type type' : TypeId} {d : Datum}
    (h : s.takes view type d.kind = s.takes view type' d.kind) :
    s.canonical view type d = s.canonical view type' d := by
  cases d with
  | null => rfl
  | scalar a => rfl
  | list items =>
    change s.takes view type .list = s.takes view type' .list at h
    rw [canonical, canonical, h]
  | map entries =>
    change s.takes view type .map = s.takes view type' .map at h
    rw [canonical, canonical, h]

end Levels

/-! ## The content of a canonical form -/

section Content

variable {s : Schema} {view : View} {omits : Bool}

theorem rearranges_self (d : Datum) : d.Rearranges omits d := by
  cases d with
  | null => exact .null
  | scalar a => exact .scalar a
  | list items =>
    refine .list (List.forall₂_same.mpr fun d hd => ?_) (.refl items)
    have := Datum.sizeOf_lt_of_mem_items hd
    exact rearranges_self d
  | map entries =>
    have whole : entries.Perm (entries ++ []) := by rw [List.append_nil]
    refine .map rfl ?_ whole nofun
    rw [List.forall₂_map_left_iff, List.forall₂_map_right_iff, List.forall₂_same]
    intro p hp
    have := Datum.sizeOf_lt_of_mem_entries hp
    exact rearranges_self p.2
termination_by sizeOf d
decreasing_by all_goals exact this

theorem canonical?_rearranges {d : Datum} (h : ∀ type, d.Rearranges omits (s.canonical view type d))
    (type? : Option TypeId) : d.Rearranges omits (s.canonical? view type? d) := by
  cases type? with
  | none => exact rearranges_self d
  | some type => exact h type

theorem canonicalItems_rearranges {ds : List Datum} (typeAt? : Nat → Option TypeId)
    (h : ∀ d ∈ ds, ∀ type, d.Rearranges omits (s.canonical view type d)) :
    List.Forall₂ (Datum.Rearranges omits) ds (s.canonicalItems view typeAt? ds) := by
  induction ds generalizing typeAt? with
  | nil => exact .nil
  | cons d ds ih =>
    obtain ⟨hd, hds⟩ := List.forall_mem_cons.mp h
    exact .cons (canonical?_rearranges hd (typeAt? 0)) (ih _ hds)

theorem canonicalPairs_rearranges {ds : List Datum} (typeUnder? : String → Option TypeId)
    (h : ∀ d ∈ ds, ∀ key e, d = Datum.pair (key, e) →
      ∀ type, e.Rearranges omits (s.canonical view type e)) :
    List.Forall₂ (Datum.Rearranges omits) ds (s.canonicalPairs view typeUnder? ds) := by
  induction ds with
  | nil => exact .nil
  | cons d ds ih =>
    obtain ⟨hd, hds⟩ := List.forall_mem_cons.mp h
    rw [canonicalPairs.eq_def]
    split
    · contradiction
    · rename_i key e rest heq
      cases heq
      have hpair := canonical?_rearranges (hd key e rfl) (typeUnder? key)
      exact .cons (.list (.cons (rearranges_self _) (.cons hpair .nil)) (.refl _)) (ih hds)
    · rename_i heq
      cases heq
      exact .cons (rearranges_self d) (ih hds)

theorem canonicalEntries_rearranges {entries kept gone : List (String × Datum)}
    (typeUnder? : String → Option TypeId)
    (h : ∀ p ∈ entries, ∀ type, p.2.Rearranges omits (s.canonical view type p.2))
    (perm : (s.canonicalEntries view typeUnder? entries).Perm (kept ++ gone))
    (nulls : ∀ p ∈ gone, omits = true ∧ p.2 = .null) :
    (Datum.map entries).Rearranges omits (.map kept) := by
  refine .map ?_ ?_ perm nulls
  · rw [canonicalEntries_eq, List.map_map]
    rfl
  · rw [canonicalEntries_eq, List.map_map, List.forall₂_map_right_iff, List.forall₂_map_left_iff,
      List.forall₂_same]
    intro p hp
    exact canonical?_rearranges (h p hp) (typeUnder? p.1)

/-- What a map leaves out is null, and left out of the representation only. -/
theorem null_of_keepsEntry {nulls : NullPolicy} {d : Datum} (h : keepsEntry view nulls d = false) :
    decide (view = .representation) = true ∧ d = .null := by
  rw [keepsEntry, Bool.not_eq_false', Bool.and_eq_true] at h
  refine ⟨decide_eq_true (of_decide_eq_true h.1).1, ?_⟩
  cases d with
  | null => rfl
  | _ => exact absurd h.2 (by simp [Datum.kind])

/-- **A canonical form has the content of the data tree**; only the representation leaves out
nulls. -/
theorem canonical_rearranges (type : TypeId) (d : Datum) :
    d.Rearranges (decide (view = .representation)) (s.canonical view type d) := by
  cases d with
  | null => exact .null
  | scalar a => exact .scalar a
  | list items =>
    have below (d : Datum) (hd : d ∈ items) (type : TypeId) :
        d.Rearranges (decide (view = .representation)) (s.canonical view type d) :=
      have := Datum.sizeOf_lt_of_mem_items hd
      canonical_rearranges type d
    rw [canonical]
    split
    · exact .list (canonicalItems_rearranges _ below) (.refl _)
    · exact .list (canonicalItems_rearranges _ below) (.refl _)
    · refine .list (canonicalPairs_rearranges _ fun d hd key e he type => ?_) (inOrder_perm ..).symm
      have inner := Datum.sizeOf_lt_pair (key, e)
      have := Nat.lt_trans inner (Datum.sizeOf_lt_of_mem_items (he ▸ hd))
      exact canonical_rearranges type e
    · exact rearranges_self _
  | map entries =>
    have below (p : String × Datum) (hp : p ∈ entries) (type : TypeId) :
        p.2.Rearranges (decide (view = .representation)) (s.canonical view type p.2) :=
      have := Datum.sizeOf_lt_of_mem_entries hp
      canonical_rearranges type p.2
    have whole {l : List (String × Datum)} : l.Perm (l ++ []) := by rw [List.append_nil]
    rw [canonical]
    split
    · apply canonicalEntries_rearranges _ below (List.filter_append_perm _ _).symm
      intro p hp
      exact null_of_keepsEntry (by simpa using (List.mem_filter.mp hp).2)
    · exact canonicalEntries_rearranges _ below ((inOrder_perm ..).symm.trans whole) nofun
    · exact canonicalEntries_rearranges _ below whole nofun
    · exact rearranges_self _
termination_by sizeOf d
decreasing_by all_goals exact this

end Content

end Schema

end DualView
