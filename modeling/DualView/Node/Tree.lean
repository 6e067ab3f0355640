import DualView.Node.Read

/-!
# Trees of nodes

`Node.tree` reads a node to its leaves; the keys of its maps are trees too, since a key in the typed
view may be a struct.  `Node.toDatum` does the same with the texts of the keys, and fails where a
key has none.  `Node.readDatum` comes to the same by the kinds of nodes, with the questions that
anyone can ask.  All go down into smaller and smaller values, which `Node.weight` measures.
-/

namespace DualView

/-! ## Weights -/

/-- The size of what a reading has below it. -/
noncomputable def Reading.weight : Reading → Nat
  | .scalar _ | .misfit => 0
  | .items _ slots | .tuple _ slots | .pairs _ _ slots | .fields _ _ slots => sizeOf slots
  | .entries _ _ dict _ => sizeOf dict
  | .choice _ _ value => sizeOf value

theorem Schema.weight_readStruct_le (view : View) (fields : List (Field TypeId))
    (repr : StructRepr) (slots : List (Slot Value)) :
    (readStruct view fields repr slots).weight ≤ sizeOf slots := by
  cases view <;> cases repr <;> simp [readStruct, Reading.weight]

theorem Schema.weight_readEnum (view : View) (members : List String) (repr : EnumRepr)
    (index : Nat) : (readEnum view members repr index).weight = 0 := by
  cases view
  · cases h : members[index]? <;> simp [readEnum, h, Reading.weight]
  · cases h : repr.scalar? members index <;> simp [readEnum, h, Reading.weight]

theorem Schema.weight_read_lt (s : Schema) (view : View) (type : TypeId) (v : Value) :
    (s.read view type v).weight < sizeOf v := by
  fun_induction Schema.read s view type v with
  | case8 => exact Nat.lt_of_le_of_lt (weight_readStruct_le ..) (by simp)
  | case12 _ _ _ _ _ _ _ ih => rw [Value.union.sizeOf_spec]; omega
  | case16 => rw [weight_readEnum, Value.enum.sizeOf_spec]; omega
  | _ => simp +arith [Reading.weight]

/-- The size of what there is to read below a node. -/
noncomputable def Node.weight : Node → Nat
  | .null | .key _ => 0
  | .typed n => 2 * sizeOf n.value
  | .pair _ none => 1
  | .pair _ (some n) => 2 * sizeOf n.value + 1
  | .basic d => sizeOf d

theorem Node.weight_typed (n : TypedNode) : (Node.typed n).weight = 2 * sizeOf n.value := rfl

theorem Node.weight_slot?_lt {n : TypedNode} {type : TypeId} {slot : Slot Value} {child : Node}
    (h : n.slot? type slot = some child) : child.weight < 2 * sizeOf slot := by
  obtain ⟨layout, content⟩ := slot
  cases content <;> simp [TypedNode.slot?] at h <;> subst h <;>
    simp +arith [Node.weight, TypedNode.sub]

theorem Node.weight_slot_lt (n : TypedNode) (type : TypeId) (slot : Slot Value) :
    (n.slot type slot).weight < 2 * sizeOf slot := by
  cases h : n.slot? type slot with
  | none => obtain ⟨layout, content⟩ := slot; simp +arith [TypedNode.slot, h, Node.weight]
  | some child => simpa [TypedNode.slot, h] using Node.weight_slot?_lt h

theorem Node.weight_pair?_lt {n : TypedNode} {keys : Renaming} {f : Field TypeId}
    {slot : Slot Value} {child : Node} (h : n.pair? keys f slot = some child) :
    child.weight < 2 * sizeOf slot := by
  obtain ⟨layout, content⟩ := slot
  cases content <;> simp [TypedNode.pair?] at h <;> subst h <;>
    simp +arith [Node.weight, TypedNode.sub]

theorem Node.weight_entry?_lt {n : TypedNode} {key value : TypeId} {omitNulls : Bool}
    {e : Entry Value} {child : Node × Node} (h : n.entry? key value omitNulls e = some child) :
    child.1.weight < 2 * sizeOf e ∧ child.2.weight < 2 * sizeOf e := by
  obtain ⟨k, text, slot⟩ := e
  simp only [TypedNode.entry?, Option.ite_none_left_eq_some, Option.map_eq_some_iff] at h
  obtain ⟨_, node, hn, rfl⟩ := h
  have := weight_slot?_lt hn
  constructor
  · cases n.view <;> simp +arith [Node.weight, TypedNode.sub]
  · simp +arith only [Entry.mk.sizeOf_spec]
    omega

theorem Node.weight_field?_lt {n : TypedNode} {keys : Renaming} {f : Field TypeId}
    {slot : Slot Value} {child : Node × Node} (h : n.field? keys f slot = some child) :
    child.1.weight < 2 * sizeOf slot ∧ child.2.weight < 2 * sizeOf slot := by
  simp only [TypedNode.field?, Option.map_eq_some_iff] at h
  obtain ⟨node, hn, rfl⟩ := h
  have := weight_slot?_lt hn
  exact ⟨Nat.lt_of_le_of_lt (Nat.zero_le _) this, this⟩

/-- An item is smaller than its list. -/
theorem Node.weight_lt_of_mem_items {n c : Node} {items : List Node} (h : n.items? = some items)
    (hc : c ∈ items) : c.weight < n.weight := by
  rcases n with n | _ | text | ⟨text, value⟩ | d
  · have hw := n.schema.weight_read_lt n.view n.type n.value
    simp only [Node.items?, TypedNode.items?, TypedNode.reading] at h
    split at h
    · rename_i elem slots hr
      simp only [hr, Reading.weight] at hw
      obtain rfl := Option.some.inj h
      obtain ⟨slot, hs, rfl⟩ := List.mem_map.1 hc
      have := weight_slot_lt n elem slot
      have := List.sizeOf_lt_of_mem hs
      rw [weight_typed]
      omega
    · rename_i fields slots hr
      simp only [hr, Reading.weight] at hw
      obtain rfl := Option.some.inj h
      obtain ⟨⟨f, slot⟩, hs, rfl⟩ := List.mem_map.1 hc
      dsimp only
      have : (n.slot f.type slot).weight < 2 * sizeOf slot := weight_slot_lt n f.type slot
      have : sizeOf slot < sizeOf slots := List.sizeOf_lt_of_mem (List.of_mem_zip hs).2
      rw [weight_typed]
      omega
    · rename_i keys fields slots hr
      simp only [hr, Reading.weight] at hw
      obtain rfl := Option.some.inj h
      obtain ⟨⟨f, slot⟩, hs, hp⟩ := List.mem_filterMap.1 hc
      have : c.weight < 2 * sizeOf slot := weight_pair?_lt hp
      have : sizeOf slot < sizeOf slots := List.sizeOf_lt_of_mem (List.of_mem_zip hs).2
      rw [weight_typed]
      omega
    · contradiction
  · simp [Node.items?] at h
  · simp [Node.items?] at h
  · simp only [Node.items?, Option.some.injEq] at h
    subst h
    rcases value with _ | n
    · simp only [ofOption, List.mem_cons, List.not_mem_nil, or_false] at hc
      rcases hc with rfl | rfl <;> simp [Node.weight]
    · simp only [ofOption, List.mem_cons, List.not_mem_nil, or_false] at hc
      rcases hc with rfl | rfl <;> simp [Node.weight]
  · rcases d with _ | _ | items' | _ <;> simp only [Node.items?, reduceCtorEq, Option.some.injEq] at h
    subst h
    obtain ⟨d, hd, rfl⟩ := List.mem_map.1 hc
    have := List.sizeOf_lt_of_mem hd
    simp only [Node.weight, Datum.list.sizeOf_spec]
    omega

/-- Keys and values are smaller than their map. -/
theorem Node.weight_lt_of_mem_entries {n : Node} {c : Node × Node} {entries : List (Node × Node)}
    (h : n.entries? = some entries) (hc : c ∈ entries) :
    c.1.weight < n.weight ∧ c.2.weight < n.weight := by
  rcases n with n | _ | text | ⟨text, value⟩ | d
  · have hw := n.schema.weight_read_lt n.view n.type n.value
    simp only [Node.entries?, TypedNode.entries?, TypedNode.reading] at h
    split at h
    · rename_i key value dict omitNulls hr
      simp only [hr, Reading.weight] at hw
      obtain rfl := Option.some.inj h
      obtain ⟨e, he, hp⟩ := List.mem_filterMap.1 hc
      have := weight_entry?_lt hp
      have := List.sizeOf_lt_of_mem he
      have : sizeOf dict = 1 + sizeOf dict.entries := by cases dict; simp
      rw [weight_typed]
      omega
    · rename_i keys fields slots hr
      simp only [hr, Reading.weight] at hw
      obtain rfl := Option.some.inj h
      obtain ⟨⟨f, slot⟩, hs, hp⟩ := List.mem_filterMap.1 hc
      have : c.1.weight < 2 * sizeOf slot ∧ c.2.weight < 2 * sizeOf slot := weight_field?_lt hp
      have : sizeOf slot < sizeOf slots := List.sizeOf_lt_of_mem (List.of_mem_zip hs).2
      rw [weight_typed]
      omega
    · rename_i key member value hr
      simp only [hr, Reading.weight] at hw
      obtain rfl := Option.some.inj h
      obtain rfl := List.mem_singleton.1 hc
      simp only [Node.weight, TypedNode.sub]
      omega
    · contradiction
  · simp [Node.entries?] at h
  · simp [Node.entries?] at h
  · simp [Node.entries?] at h
  · rcases d with _ | _ | _ | es <;> simp only [Node.entries?, reduceCtorEq, Option.some.injEq] at h
    subst h
    obtain ⟨⟨text, d⟩, hd, rfl⟩ := List.mem_map.1 hc
    have := List.sizeOf_lt_of_mem hd
    simp only [Node.weight, Datum.map.sizeOf_spec, Prod.mk.sizeOf_spec] at *
    omega

theorem Node.weight_lt_of_mem_values {n c : Node} {items : List Node} (h : n.values = .ok items)
    (hc : c ∈ items) : c.weight < n.weight := by
  rw [values] at h
  split at h
  · rename_i hi
    cases h
    exact weight_lt_of_mem_items hi hc
  · contradiction

theorem Node.weight_lt_of_mem_pairs {n : Node} {c : Node × Node} {pairs : List (Node × Node)}
    (h : n.entries = .ok pairs) (hc : c ∈ pairs) :
    c.1.weight < n.weight ∧ c.2.weight < n.weight := by
  rw [entries] at h
  split at h
  · rename_i he
    cases h
    exact weight_lt_of_mem_entries he hc
  · contradiction

/-! ## Trees -/

/-- All that can be read of a node. -/
inductive Tree
  | null
  | scalar (content : Scalar)
  | list (items : List Tree)
  | map (entries : List (Tree × Tree))

instance : Inhabited Tree := ⟨.null⟩

namespace Node

/-- A node read to its leaves. -/
def tree (n : Node) : Tree :=
  match _hi : n.items? with
  | some items => .list (items.attach.map fun ⟨c, _⟩ => c.tree)
  | none =>
    match _he : n.entries? with
    | some entries => .map (entries.attach.map fun ⟨c, _⟩ => (c.1.tree, c.2.tree))
    | none =>
      match n.scalar? with
      | some a => .scalar a
      | none => .null
termination_by n.weight
decreasing_by
  · exact weight_lt_of_mem_items _hi ‹_›
  · exact (weight_lt_of_mem_entries _he ‹_›).1
  · exact (weight_lt_of_mem_entries _he ‹_›).2

/-- A node as a data tree: each key is the text that represents it.  A key without one fails. -/
def toDatum (n : Node) : Except AccessError Datum :=
  match _hi : n.items? with
  | some items => .list <$> items.attach.mapM fun ⟨c, _⟩ => c.toDatum
  | none =>
    match _he : n.entries? with
    | some entries =>
      .map <$> entries.attach.mapM fun ⟨c, _⟩ => do return (← c.1.keyText, ← c.2.toDatum)
    | none =>
      match n.scalar? with
      | some a => .ok (.scalar a)
      | none => .ok .null
termination_by n.weight
decreasing_by
  · exact weight_lt_of_mem_items _hi ‹_›
  · exact (weight_lt_of_mem_entries _he ‹_›).2

/-- A node as a data tree, read as its kind says.  The first read that is refused is the outcome. -/
def readDatum (n : Node) : Except AccessError Datum :=
  match n.kind with
  | .null => .ok .null
  | .scalar kind => .scalar <$> n.asScalar kind
  | .list =>
    match _h : n.values with
    | .ok items => .list <$> items.attach.mapM fun ⟨c, _⟩ => c.readDatum
    | .error e => .error e
  | .map =>
    match _h : n.entries with
    | .ok pairs =>
      .map <$> pairs.attach.mapM fun ⟨c, _⟩ => do return (← c.1.keyText, ← c.2.readDatum)
    | .error e => .error e
termination_by n.weight
decreasing_by
  · exact weight_lt_of_mem_values _h ‹_›
  · exact (weight_lt_of_mem_pairs _h ‹_›).2

theorem tree_eq (n : Node) : n.tree =
    match n.items? with
    | some items => .list (items.map tree)
    | none =>
      match n.entries? with
      | some entries => .map (entries.map fun c => (c.1.tree, c.2.tree))
      | none =>
        match n.scalar? with
        | some a => .scalar a
        | none => .null := by
  rw [tree]
  split
  · next items hi => simp [hi]
  · next hi =>
    simp only [hi]
    split
    · next entries he =>
      simp only [he]
      exact congrArg Tree.map
        (List.attach_map_val (f := fun c : Node × Node => (c.1.tree, c.2.tree)))
    · next he => simp [he]

theorem toDatum_eq (n : Node) : n.toDatum =
    match n.items? with
    | some items => .list <$> items.mapM toDatum
    | none =>
      match n.entries? with
      | some entries => .map <$> entries.mapM fun c => do return (← c.1.keyText, ← c.2.toDatum)
      | none =>
        match n.scalar? with
        | some a => .ok (.scalar a)
        | none => .ok .null := by
  rw [toDatum]
  split
  · next items hi => simp [hi]
  · next hi =>
    simp only [hi]
    split
    · next entries he =>
      simp only [he]
      rw [List.mapM_subtype (g := fun c : Node × Node => do return (← c.1.keyText, ← c.2.toDatum))
        (fun _ _ => rfl), List.unattach_attach]
    · next he => simp [he]

theorem readDatum_eq (n : Node) : n.readDatum =
    match n.kind with
    | .null => .ok .null
    | .scalar kind => .scalar <$> n.asScalar kind
    | .list => n.values >>= fun items => .list <$> items.mapM readDatum
    | .map => n.entries >>= fun pairs =>
        .map <$> pairs.mapM fun c => do return (← c.1.keyText, ← c.2.readDatum) := by
  rw [readDatum]
  cases n.kind with
  | null => rfl
  | scalar kind => rfl
  | list =>
    dsimp only
    split
    · next items read =>
      rw [read, List.mapM_subtype (g := readDatum) (fun _ _ => rfl), List.unattach_attach]
      rfl
    · next e read => rw [read]; rfl
  | map =>
    dsimp only
    split
    · next pairs read =>
      rw [read, List.mapM_subtype
        (g := fun c : Node × Node => do return (← c.1.keyText, ← c.2.readDatum)) (fun _ _ => rfl),
        List.unattach_attach]
      rfl
    · next e read => rw [read]; rfl

end Node

end DualView
