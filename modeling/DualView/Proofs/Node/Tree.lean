import DualView.Value.Typed
import DualView.Proofs.Outcome

/-!
# Trees, level by level

The tree of a stored value depends on nothing but its reading, and each reading gives its tree from
the trees of the parts (`Reading.tree`).  Data trees read back as what they are.

* `Node.tree_typed`: the tree of a stored value, from one level of it.
* `Datum.tree_injective`: no two data trees read alike.
* `Node.toDatum_of_represented`: what is seen through the representation view is a data tree.
-/

namespace DualView

/-! ## Filtering on the way -/

theorem map_filterMap_eq_map_filter {α β γ : Type} {f : α → Option β} {g : β → γ} {p : α → Bool}
    {h : α → γ} (l : List α) (eq : ∀ a, (f a).map g = if p a then some (h a) else none) :
    (l.filterMap f).map g = (l.filter p).map h := by
  induction l with
  | nil => rfl
  | cons a l ih =>
    have := eq a
    rw [List.filterMap_cons, List.filter_cons]
    cases hf : f a with
    | none =>
      cases hp : p a with
      | false => simpa [hp] using ih
      | true => simp [hf, hp] at this
    | some b =>
      cases hp : p a with
      | false => simp [hf, hp] at this
      | true =>
        simp only [hf, hp, Option.map_some, if_true, Option.some.injEq] at this
        simp [this, ih]

/-! ## Stored values -/

namespace Schema

variable (s : Schema)

/-- The tree of a stored value of a type. -/
def tree (view : View) (type : TypeId) (v : Value) : Tree := (Node.typed ⟨s, type, view, v⟩).tree

/-- The tree of the content of a slot.  What is absent reads as null. -/
def contentTree (view : View) (type : TypeId) : Maybe Value → Tree
  | .value v => s.tree view type v
  | .absent | .null => .null

def keyTree (view : View) (key : TypeId) (e : Entry Value) : Tree :=
  match view with
  | .typed => s.tree .typed key e.key
  | .representation => .scalar (.string e.text)

end Schema

def Entry.shows (omitNulls : Bool) (e : Entry Value) : Bool :=
  !e.slot.isAbsent && !(omitNulls && e.slot.isNull)

def present (fields : List (Field TypeId)) (slots : List (Slot Value)) :
    List (Field TypeId × Slot Value) :=
  (fields.zip slots).filter fun p => !p.2.isAbsent

/-- The tree of one level, from the trees of its parts. -/
def Reading.tree (s : Schema) (view : View) : Reading → Tree
  | .scalar a => .scalar a
  | .items elem slots => .list (slots.map fun slot => s.contentTree view elem slot.content)
  | .tuple fs slots => .list ((fs.zip slots).map fun p => s.contentTree view p.1.type p.2.content)
  | .pairs keys fs slots =>
    .list ((present fs slots).map fun p =>
      .list [.scalar (.string (keys.keyOf p.1.name)), s.contentTree view p.1.type p.2.content])
  | .entries key value dict omitNulls =>
    .map ((dict.entries.filter (·.shows omitNulls)).map fun e =>
      (s.keyTree view key e, s.contentTree view value e.slot.content))
  | .fields keys fs slots =>
    .map ((present fs slots).map fun p =>
      (.scalar (.string (keys.keyOf p.1.name)), s.contentTree view p.1.type p.2.content))
  | .choice key member value => .map [(.scalar (.string key), s.tree view member value)]
  | .misfit => .null

namespace Node

@[simp] theorem tree_null : null.tree = .null := by rw [tree_eq]; rfl

@[simp] theorem tree_key (text : String) : (key text).tree = .scalar (.string text) := by
  rw [tree_eq]
  rfl

theorem tree_pair (text : String) (value : Option TypedNode) :
    (pair text value).tree = .list [.scalar (.string text), (ofOption value).tree] := by
  rw [tree_eq]
  simp [items?]

theorem tree_slot (n : TypedNode) (type : TypeId) (slot : Slot Value) :
    (n.slot type slot).tree = n.schema.contentTree n.view type slot.content := by
  obtain ⟨layout, content⟩ := slot
  cases content with
  | value v => rfl
  | _ => exact tree_null

/-- The tree of what a slot holds, if it holds anything. -/
theorem tree_slot? (n : TypedNode) (type : TypeId) (slot : Slot Value) :
    (n.slot? type slot).map tree =
      if !slot.isAbsent then some (n.schema.contentTree n.view type slot.content) else none := by
  obtain ⟨layout, content⟩ := slot
  cases content with
  | absent => rfl
  | null => exact congrArg some tree_null
  | value v => rfl

theorem tree_pair? (n : TypedNode) (keys : Renaming) (f : Field TypeId) (slot : Slot Value) :
    (n.pair? keys f slot).map tree =
      if !slot.isAbsent then
        some (.list [.scalar (.string (keys.keyOf f.name)),
          n.schema.contentTree n.view f.type slot.content])
      else none := by
  obtain ⟨layout, content⟩ := slot
  cases content with
  | absent => rfl
  | null => exact congrArg some ((tree_pair _ _).trans (by rw [ofOption]; simp; rfl))
  | value v => exact congrArg some (tree_pair _ _)

def trees (c : Node × Node) : Tree × Tree := (c.1.tree, c.2.tree)

theorem trees_field? (n : TypedNode) (keys : Renaming) (f : Field TypeId) (slot : Slot Value) :
    (n.field? keys f slot).map trees =
      if !slot.isAbsent then
        some (.scalar (.string (keys.keyOf f.name)), n.schema.contentTree n.view f.type slot.content)
      else none := by
  have := tree_slot? n f.type slot
  rw [TypedNode.field?, Option.map_map]
  cases hs : n.slot? f.type slot <;> cases ha : slot.isAbsent <;>
    simp_all [trees]

theorem trees_entry? (n : TypedNode) (key value : TypeId) (omitNulls : Bool) (e : Entry Value) :
    (n.entry? key value omitNulls e).map trees =
      if e.shows omitNulls then
        some (n.schema.keyTree n.view key e, n.schema.contentTree n.view value e.slot.content)
      else none := by
  have := tree_slot? n value e.slot
  obtain ⟨s, type, view, v⟩ := n
  rw [TypedNode.entry?, Entry.shows]
  cases ho : omitNulls && e.slot.isNull with
  | true => simp
  | false =>
    cases hs : TypedNode.slot? ⟨s, type, view, v⟩ value e.slot with
    | none =>
      cases ha : e.slot.isAbsent
      · simp [hs, ha] at this
      · simp
    | some child =>
      cases ha : e.slot.isAbsent
      · simp only [hs, ha, Option.map_some, Bool.not_false, if_true, Option.some.injEq] at this
        cases view with
        | typed => exact congrArg some (Prod.ext rfl this)
        | representation => exact congrArg some (Prod.ext (tree_key e.text) this)
      · simp [hs, ha] at this

/-- **The tree of a stored value is that of its reading.** -/
theorem tree_typed (n : TypedNode) : (typed n).tree = n.reading.tree n.schema n.view := by
  rw [tree_eq]
  simp only [items?, entries?, scalar?, TypedNode.items?, TypedNode.entries?]
  cases n.reading with
  | scalar a => rfl
  | misfit => rfl
  | items elem slots => simp [Reading.tree, tree_slot]
  | tuple fields slots => simp [Reading.tree, tree_slot]
  | pairs keys fields slots =>
    exact congrArg Tree.list (map_filterMap_eq_map_filter _ fun p => tree_pair? n keys p.1 p.2)
  | entries key value dict omitNulls =>
    exact congrArg Tree.map
      (map_filterMap_eq_map_filter _ fun e => trees_entry? n key value omitNulls e)
  | fields keys fields slots =>
    exact congrArg Tree.map (map_filterMap_eq_map_filter _ fun p => trees_field? n keys p.1 p.2)
  | choice key member value => simp [Reading.tree, Schema.tree, TypedNode.sub]

end Node

/-- The tree of a stored value is that of its reading. -/
theorem Schema.tree_eq (s : Schema) (view : View) (type : TypeId) (v : Value) :
    s.tree view type v = (s.read view type v).tree s view :=
  Node.tree_typed _

theorem Schema.tree_of_text {s : Schema} {type : TypeId} {v : Value} {text : String}
    (h : s.read .representation type v = .scalar (.string text)) :
    s.tree .representation type v = .scalar (.string text) := by
  rw [Schema.tree_eq, h]
  rfl

/-! ## Data trees -/

def Tree.kind : Tree → Kind
  | null => .null
  | scalar a => .scalar a.kind
  | list _ => .list
  | map _ => .map

namespace Datum

/-- A data tree as the tree of a node. -/
def tree (d : Datum) : Tree := (Node.basic d).tree

def entryTree (p : String × Datum) : Tree × Tree := (.scalar (.string p.1), p.2.tree)

@[simp] theorem tree_null : null.tree = .null := by
  rw [tree, Node.tree_eq]
  rfl

@[simp] theorem tree_scalar (a : Scalar) : (scalar a).tree = .scalar a := by
  rw [tree, Node.tree_eq]
  rfl

@[simp] theorem tree_list (items : List Datum) : (list items).tree = .list (items.map tree) := by
  rw [tree, Node.tree_eq]
  simp [Node.items?, Function.comp_def, tree]

@[simp] theorem tree_map (entries : List (String × Datum)) :
    (map entries).tree = .map (entries.map entryTree) := by
  rw [tree, Node.tree_eq]
  simp [Node.items?, Node.entries?, Function.comp_def, entryTree, tree]

theorem sizeOf_lt_of_mem_entries {entries : List (String × Datum)} {p : String × Datum}
    (h : p ∈ entries) : sizeOf p.2 < sizeOf (Datum.map entries) := by
  have := List.sizeOf_lt_of_mem h
  obtain ⟨key, d⟩ := p
  simp only [Datum.map.sizeOf_spec, Prod.mk.sizeOf_spec] at this ⊢
  omega

theorem sizeOf_lt_of_mem_items {items : List Datum} {d : Datum} (h : d ∈ items) :
    sizeOf d < sizeOf (Datum.list items) := by
  have := List.sizeOf_lt_of_mem h
  rw [Datum.list.sizeOf_spec]
  omega

def pair (p : String × Datum) : Datum := list [scalar (.string p.1), p.2]

theorem sizeOf_lt_pair (p : String × Datum) : sizeOf p.2 < sizeOf (pair p) :=
  sizeOf_lt_of_mem_items (List.mem_cons_of_mem _ List.mem_cons_self)

theorem sizeOf_lt_of_mem_pairs {entries : List (String × Datum)} {p : String × Datum}
    (h : p ∈ entries) : sizeOf p.2 < sizeOf (list (entries.map pair)) :=
  Nat.lt_trans (sizeOf_lt_pair p) (sizeOf_lt_of_mem_items (List.mem_map_of_mem h))

@[simp] theorem kind_tree (d : Datum) : d.tree.kind = d.kind := by
  cases d <;> simp [Tree.kind, kind]

theorem tree_eq_null_iff {d : Datum} : d.tree = .null ↔ d = .null := by
  cases d <;> simp

theorem tree_eq_scalar_iff {d : Datum} {a : Scalar} : d.tree = .scalar a ↔ d = .scalar a := by
  cases d <;> simp

theorem tree_eq_list_iff {d : Datum} {items : List Tree} :
    d.tree = .list items ↔ ∃ ds, d = .list ds ∧ ds.map tree = items := by
  cases d <;> simp

theorem tree_eq_map_iff {d : Datum} {entries : List (Tree × Tree)} :
    d.tree = .map entries ↔ ∃ ps, d = .map ps ∧ ps.map entryTree = entries := by
  cases d <;> simp

mutual

/-- **No two data trees read alike.** -/
theorem tree_injective : (d e : Datum) → d.tree = e.tree → d = e
  | .null, e, h => by cases e <;> simp_all
  | .scalar a, e, h => by cases e <;> simp_all
  | .list items, .list others, h => by
    rw [tree_list, tree_list] at h
    exact congrArg list (items_injective items others (Tree.list.inj h))
  | .list items, .null, h | .list items, .scalar _, h | .list items, .map _, h => by simp at h
  | .map entries, .map others, h => by
    rw [tree_map, tree_map] at h
    exact congrArg map (entries_injective entries others (Tree.map.inj h))
  | .map entries, .null, h | .map entries, .scalar _, h | .map entries, .list _, h => by simp at h

theorem items_injective : (ds es : List Datum) → ds.map tree = es.map tree → ds = es
  | [], es, h => by cases es <;> simp_all
  | d :: ds, [], h => by simp at h
  | d :: ds, e :: es, h => by
    rw [List.map_cons, List.map_cons, List.cons.injEq] at h
    rw [tree_injective d e h.1, items_injective ds es h.2]

theorem entries_injective : (ds es : List (String × Datum)) →
    ds.map entryTree = es.map entryTree → ds = es
  | [], es, h => by cases es <;> simp_all
  | d :: ds, [], h => by simp at h
  | (k, d) :: ds, (k', e) :: es, h => by
    rw [List.map_cons, List.map_cons, List.cons.injEq, entryTree, entryTree, Prod.mk.injEq,
      Tree.scalar.injEq, Scalar.string.injEq] at h
    obtain ⟨⟨hk, hd⟩, hr⟩ := h
    obtain rfl : k = k' := hk
    rw [tree_injective d e hd, entries_injective ds es hr]

end

end Datum

/-! ## The representation view as a data tree -/

namespace Node

/-- Nothing of the node is seen through the typed view. -/
def Represented : Node → Prop
  | typed n | pair _ (some n) => n.view = .representation
  | null | key _ | pair _ none | basic _ => True

theorem represented_slot? {n : TypedNode} (h : n.view = .representation) {type : TypeId}
    {slot : Slot Value} {c : Node} (hc : n.slot? type slot = some c) : c.Represented := by
  obtain ⟨layout, content⟩ := slot
  cases content with
  | absent => contradiction
  | null =>
    cases hc
    trivial
  | value v =>
    cases hc
    exact h

theorem Represented.items {n : Node} (h : n.Represented) {items : List Node}
    (hi : n.items? = some items) {c : Node} (hc : c ∈ items) : c.Represented := by
  cases n with
  | typed n =>
    rw [items?, TypedNode.items?] at hi
    split at hi
    · cases hi
      obtain ⟨slot, -, rfl⟩ := List.mem_map.mp hc
      rw [TypedNode.slot]
      cases hs : n.slot? _ slot with
      | none => trivial
      | some c => exact represented_slot? h hs
    · cases hi
      obtain ⟨⟨f, slot⟩, -, rfl⟩ := List.mem_map.mp hc
      dsimp only
      rw [TypedNode.slot]
      cases hs : n.slot? f.type slot with
      | none => trivial
      | some c => exact represented_slot? h hs
    · cases hi
      obtain ⟨⟨f, layout, content⟩, -, hp⟩ := List.mem_filterMap.mp hc
      cases content with
      | absent => contradiction
      | null =>
        cases hp
        trivial
      | value v =>
        cases hp
        exact h
    · contradiction
  | null => contradiction
  | key text => contradiction
  | pair text value =>
    cases hi
    rcases List.mem_pair.mp hc with rfl | rfl
    · trivial
    · cases value with
      | none => trivial
      | some n => exact h
  | basic d =>
    cases d with
    | list items =>
      cases hi
      obtain ⟨d, -, rfl⟩ := List.mem_map.mp hc
      trivial
    | _ => contradiction

theorem Represented.entries {n : Node} (h : n.Represented) {entries : List (Node × Node)}
    (he : n.entries? = some entries) {c : Node × Node} (hc : c ∈ entries) :
    (∃ text, c.1 = key text) ∧ c.2.Represented := by
  cases n with
  | typed n =>
    rw [entries?, TypedNode.entries?] at he
    split at he
    · cases he
      obtain ⟨e, -, hp⟩ := List.mem_filterMap.mp hc
      rw [TypedNode.entry?] at hp
      split at hp
      · contradiction
      · obtain ⟨child, hs, rfl⟩ := Option.map_eq_some_iff.mp hp
        refine ⟨⟨e.text, ?_⟩, represented_slot? h hs⟩
        simp only [show n.view = .representation from h]
    · cases he
      obtain ⟨⟨f, slot⟩, -, hp⟩ := List.mem_filterMap.mp hc
      obtain ⟨child, hs, rfl⟩ := Option.map_eq_some_iff.mp hp
      exact ⟨⟨_, rfl⟩, represented_slot? h hs⟩
    · cases he
      obtain rfl := List.mem_singleton.mp hc
      exact ⟨⟨_, rfl⟩, h⟩
    · contradiction
  | basic d =>
    cases d with
    | map entries =>
      cases he
      obtain ⟨p, -, rfl⟩ := List.mem_map.mp hc
      exact ⟨⟨_, rfl⟩, trivial⟩
    | _ => contradiction
  | null => contradiction
  | key text => contradiction
  | pair text value => contradiction

/-- **What is seen through the representation view is a data tree.** -/
theorem toDatum_of_represented (n : Node) (h : n.Represented) :
    ∃ d, n.toDatum = .ok d ∧ d.tree = n.tree := by
  rw [toDatum_eq, tree_eq]
  cases hi : n.items? with
  | some items =>
    have : ∀ c ∈ items, ∃ d, c.toDatum = .ok d ∧ d.tree = c.tree := fun c hc =>
      have := weight_lt_of_mem_items hi hc
      toDatum_of_represented c (h.items hi hc)
    obtain ⟨ds, hds⟩ := exists_forall₂_iff.mpr this
    refine ⟨.list ds, map_eq_ok_iff.mpr ⟨ds, mapM_eq_ok_iff.mpr ?_, rfl⟩, ?_⟩
    · exact hds.imp fun _ _ h => h.1
    · rw [Datum.tree_list]
      exact congrArg Tree.list (map_eq_map_of_forall₂ hds fun c d h => h.2.symm).symm
  | none =>
    cases he : n.entries? with
    | some entries =>
      have : ∀ c ∈ entries, ∃ p : String × Datum, c.1 = key p.1 ∧ c.2.toDatum = .ok p.2 ∧
          p.2.tree = c.2.tree := fun c hc => by
        have := (weight_lt_of_mem_entries he hc).2
        obtain ⟨⟨text, ht⟩, hr⟩ := h.entries he hc
        obtain ⟨d, hd, htree⟩ := toDatum_of_represented c.2 hr
        exact ⟨(text, d), ht, hd, htree⟩
      obtain ⟨ps, hps⟩ := exists_forall₂_iff.mpr this
      refine ⟨.map ps, map_eq_ok_iff.mpr ⟨ps, mapM_eq_ok_iff.mpr ?_, rfl⟩, ?_⟩
      · apply hps.imp
        intro c p h
        rw [h.1, h.2.1]
        rfl
      · rw [Datum.tree_map]
        refine congrArg Tree.map (map_eq_map_of_forall₂ hps fun c p h => ?_).symm
        rw [h.1, tree_key, Datum.entryTree, h.2.2]
    | none =>
      cases n.scalar? with
      | some a => exact ⟨.scalar a, rfl, Datum.tree_scalar a⟩
      | none => exact ⟨.null, rfl, Datum.tree_null⟩
termination_by n.weight

end Node

/-- Every value has a representation, which reads as the representation view of the value. -/
theorem TypedValue.exists_toRepresentation (v : TypedValue) :
    ∃ d, v.toRepresentation = .ok d ∧ d.tree = v.representation.tree := by
  obtain ⟨d, hd, htree⟩ := v.representation.toDatum_of_represented rfl
  exact ⟨d, mapError_eq_ok_iff.mpr hd, htree⟩

end DualView
