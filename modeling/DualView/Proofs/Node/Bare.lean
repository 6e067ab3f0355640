import DualView.Proofs.Node.Walks
import DualView.Proofs.Value.Bare

/-!
# Reading does not see layouts

To read a value without its layouts is to read the value and to forget the layouts of what is found.
This holds of every question about a node, whether the value fits its type or not, and so of every
path.

* `Schema.read_bare`: one level of a bare value is the bare level.
* `Node.tree_bare`, `Node.toDatum_bare`: a bare node has the same leaves.
* `Node.take_bare`, `Node.follow_bare`: a bare node leads to bare nodes, or fails alike.
* `Node.walk_of_bare_eq`: nodes that differ in layouts alone cannot be told apart.
-/

namespace DualView

/-! ## One level -/

@[simp] theorem Slot.text?_bare (slot : Slot Value) : slot.bare.text? = slot.text? := by
  obtain ⟨layout, content⟩ := slot
  cases content with
  | value v =>
    cases v with
    | map d => rw [text?, bare_content, Maybe.map, Value.bare_map]; rfl
    | _ => simp [text?, Maybe.map]
  | _ => rfl

namespace Reading

def bare : Reading → Reading
  | scalar a => scalar a
  | items elem slots => items elem (slots.map Slot.bare)
  | tuple fs slots => tuple fs (slots.map Slot.bare)
  | pairs keys fs slots => pairs keys fs (slots.map Slot.bare)
  | entries key value dict omitNulls => entries key value dict.bare omitNulls
  | fields keys fs slots => fields keys fs (slots.map Slot.bare)
  | choice key member value => choice key member value.bare
  | misfit => misfit

@[simp] theorem kind_bare (r : Reading) : r.bare.kind = r.kind := by cases r <;> rfl

end Reading

namespace Schema

theorem readStruct_bare (view : View) (fields : List (Field TypeId)) (repr : StructRepr)
    (slots : List (Slot Value)) :
    readStruct view fields repr (slots.map Slot.bare) = (readStruct view fields repr slots).bare := by
  cases view with
  | typed => rfl
  | representation =>
    cases repr with
    | stringjoin separator =>
      simp only [readStruct, Reading.bare, List.filterMap_map, Function.comp_def, Slot.text?_bare]
    | _ => rfl

theorem readEnum_bare (view : View) (members : List String) (repr : EnumRepr) (index : Nat) :
    (readEnum view members repr index).bare = readEnum view members repr index := by
  cases view with
  | typed => cases h : members[index]? <;> simp [readEnum, h, Reading.bare]
  | representation => cases h : repr.scalar? members index <;> simp [readEnum, h, Reading.bare]

/-- **One level of a bare value is the bare level.**  The representation of a kinded union is that of
its member, so this goes by the value. -/
theorem read_bare (s : Schema) (view : View) (type : TypeId) : (v : Value) →
    s.read view type v.bare = (s.read view type v).bare
  | .scalar a => by
    rw [Value.bare_scalar, read]
    cases s.body type with
    | scalar kind => by_cases h : a.kind = kind <;> simp [h, Reading.bare]
    | _ => rfl
  | .list slots => by
    rw [Value.bare_list, read, read]
    cases s.body type <;> rfl
  | .map d => by
    rw [Value.bare_map, read, read]
    cases s.body type <;> rfl
  | .struct slots => by
    rw [Value.bare_struct, read, read]
    cases s.body type with
    | struct fields repr => exact readStruct_bare view fields repr slots
    | _ => rfl
  | .union index v => by
    rw [Value.bare_union, read, read]
    cases s.body type with
    | union members repr =>
      cases at_member : members[index]? with
      | none => simp [at_member, Reading.bare]
      | some member =>
        simp only [at_member]
        cases view with
        | typed => rfl
        | representation =>
          cases repr with
          | kinded => exact s.read_bare .representation member v
          | keyed discriminants =>
            cases h : discriminants.labelOf? (s.nameOf member) <;> simp [h, Reading.bare]
    | _ => rfl
  | .enum index => by
    rw [Value.bare_enum, read]
    cases s.body type with
    | enum members repr => exact (readEnum_bare view members repr index).symm
    | _ => rfl

end Schema

/-! ## Nodes -/

def TypedNode.bare (n : TypedNode) : TypedNode := { n with value := n.value.bare }

namespace Node

def bare : Node → Node
  | typed n => typed n.bare
  | null => null
  | key text => key text
  | pair text value => pair text (value.map TypedNode.bare)
  | basic d => basic d

def barePair (c : Node × Node) : Node × Node := (c.1.bare, c.2.bare)

end Node

namespace TypedNode

variable (n : TypedNode)

@[simp] theorem reading_bare : n.bare.reading = n.reading.bare :=
  n.schema.read_bare n.view n.type n.value

theorem sub_bare (type : TypeId) (v : Value) : n.bare.sub type v.bare = (n.sub type v).bare := rfl

@[simp] theorem slot?_bare (type : TypeId) (slot : Slot Value) :
    n.bare.slot? type slot.bare = (n.slot? type slot).map Node.bare := by
  obtain ⟨layout, content⟩ := slot
  cases content <;> rfl

@[simp] theorem slot_bare (type : TypeId) (slot : Slot Value) :
    n.bare.slot type slot.bare = (n.slot type slot).bare := by
  obtain ⟨layout, content⟩ := slot
  cases content <;> rfl

@[simp] theorem pair?_bare (keys : Renaming) (f : Field TypeId) (slot : Slot Value) :
    n.bare.pair? keys f slot.bare = (n.pair? keys f slot).map Node.bare := by
  obtain ⟨layout, content⟩ := slot
  cases content <;> rfl

@[simp] theorem entry?_bare (key value : TypeId) (omitNulls : Bool) (e : Entry Value) :
    n.bare.entry? key value omitNulls e.bare =
      (n.entry? key value omitNulls e).map Node.barePair := by
  obtain ⟨schema, type, view, v⟩ := n
  obtain ⟨k, text, layout, content⟩ := e
  cases content with
  | null => cases omitNulls <;> cases view <;> rfl
  | _ => cases view <;> cases omitNulls <;> rfl

@[simp] theorem field?_bare (keys : Renaming) (f : Field TypeId) (slot : Slot Value) :
    n.bare.field? keys f slot.bare = (n.field? keys f slot).map Node.barePair := by
  obtain ⟨layout, content⟩ := slot
  cases content <;> rfl

theorem filterMap_zip_bare {α : Type} {g g' : Field TypeId → Slot Value → Option α} {h : α → α}
    (eq : ∀ f slot, g f slot.bare = (g' f slot).map h) (fields : List (Field TypeId))
    (slots : List (Slot Value)) :
    (fields.zip (slots.map Slot.bare)).filterMap (fun p => g p.1 p.2) =
      ((fields.zip slots).filterMap fun p => g' p.1 p.2).map h := by
  rw [List.zip_map_right, List.filterMap_map, List.map_filterMap]
  exact List.filterMap_congr fun p _ => eq p.1 p.2

theorem items?_bare : n.bare.items? = n.items?.map (List.map Node.bare) := by
  rw [items?, items?, reading_bare]
  cases n.reading with
  | items elem slots => simp [Reading.bare, Function.comp_def]
  | tuple fields slots =>
    simp [Reading.bare, List.zip_map_right, Function.comp_def]
  | pairs keys fields slots =>
    simp only [Reading.bare, Option.map_some]
    rw [filterMap_zip_bare (n.pair?_bare keys)]
  | _ => rfl

theorem entries?_bare : n.bare.entries? = n.entries?.map (List.map Node.barePair) := by
  rw [entries?, entries?, reading_bare]
  cases n.reading with
  | entries key value d omitNulls =>
    simp [Reading.bare, List.filterMap_map, List.map_filterMap]
  | fields keys fields slots =>
    simp only [Reading.bare, Option.map_some]
    rw [filterMap_zip_bare (n.field?_bare keys)]
  | _ => rfl

end TypedNode

namespace Node

variable (n : Node)

@[simp] theorem kind_bare : n.bare.kind = n.kind := by
  cases n with
  | typed n => rw [bare, kind, kind, TypedNode.reading_bare, Reading.kind_bare]
  | _ => rfl

theorem ofOption_bare (value : Option TypedNode) :
    ofOption (value.map TypedNode.bare) = (ofOption value).bare := by
  cases value <;> rfl

theorem inView_bare (view : View) : n.bare.inView view = (n.inView view).bare := by
  cases n <;> rfl

@[simp] theorem scalar?_bare : n.bare.scalar? = n.scalar? := by
  cases n with
  | typed n =>
    rw [bare, scalar?, scalar?, TypedNode.reading_bare]
    cases n.reading <;> rfl
  | basic d => cases d <;> rfl
  | _ => rfl

theorem items?_bare : n.bare.items? = n.items?.map (List.map bare) := by
  cases n with
  | typed n => exact n.items?_bare
  | pair text value => simp [bare, items?, ofOption_bare]
  | basic d =>
    cases d with
    | list items => simp [bare, items?, Function.comp_def]
    | _ => rfl
  | _ => rfl

theorem entries?_bare : n.bare.entries? = n.entries?.map (List.map barePair) := by
  cases n with
  | typed n => exact n.entries?_bare
  | basic d =>
    cases d with
    | map entries => simp [bare, barePair, entries?, Function.comp_def]
    | _ => rfl
  | _ => rfl

end Node

/-! ## Answers -/

namespace TypedNode

variable (n : TypedNode)

@[simp] theorem length_bare : n.bare.length = n.length := by
  rw [length, length, reading_bare]
  cases n.reading with
  | entries key value d omitNulls =>
    cases omitNulls <;> simp [Reading.bare, Dict.size, List.countP_map, Function.comp_def]
  | _ => simp [Reading.bare, List.countP_map, Function.comp_def, Reading.kind]

theorem entryAt?_bare (value : TypeId) (d : Dict Value) (omitNulls : Bool) (text : String) :
    n.bare.entryAt? value d.bare omitNulls text =
      (n.entryAt? value d omitNulls text).map Node.bare := by
  rw [entryAt?, entryAt?, Dict.get?_bare]
  cases d.get? text with
  | none => rfl
  | some e =>
    simp only [Option.map_some, Option.bind_some, Entry.slot_bare, Slot.isNull_bare, slot?_bare]
    cases omitNulls && e.slot.isNull <;> rfl

theorem fieldAt?_bare (fields : List (Field TypeId)) (slots : List (Slot Value)) (name : String) :
    n.bare.fieldAt? fields (slots.map Slot.bare) name =
      (n.fieldAt? fields slots name).map Node.bare := by
  rw [fieldAt?, fieldAt?]
  cases Field.index? fields name with
  | none => rfl
  | some i =>
    cases hf : fields[i]? with
    | none => simp [hf]
    | some f => cases hs : slots[i]? <;> simp [hf, hs]

theorem lookup_bare (key : String) : n.bare.lookup key = Node.bare <$> n.lookup key := by
  rw [lookup, lookup, reading_bare]
  cases n.reading with
  | entries keyType value d omitNulls =>
    have found (text : String) := n.entryAt?_bare value d omitNulls text
    have stored : n.bare.storedText? keyType key = n.storedText? keyType key := rfl
    simp only [Reading.bare, stored]
    cases n.storedText? keyType key with
    | none => rfl
    | some text =>
      simp only [Option.bind_some, found]
      cases n.entryAt? value d omitNulls text <;> rfl
  | fields keys fields slots =>
    have found (name : String) := n.fieldAt?_bare fields slots name
    simp only [Reading.bare]
    cases keys.nameOf? key with
    | none => rfl
    | some name =>
      simp only [Option.bind_some, found]
      cases n.fieldAt? fields slots name <;> rfl
  | choice present member value =>
    simp only [Reading.bare, sub_bare]
    by_cases h : present = key <;> simp [h, Node.bare]
  | _ => rfl

theorem lookupText_bare (text : String) :
    n.bare.lookupText text = Node.bare <$> n.lookupText text := by
  have other := n.lookup_bare text
  rw [lookupText, lookupText, reading_bare]
  cases n.reading with
  | entries keyType value d omitNulls =>
    have found := n.entryAt?_bare value d omitNulls text
    simp only [Reading.bare, found]
    cases n.entryAt? value d omitNulls text <;> rfl
  | _ => exact other

theorem lookupIndex_bare (index : Nat) :
    n.bare.lookupIndex index = Node.bare <$> n.lookupIndex index := by
  rw [lookupIndex, lookupIndex, reading_bare]
  cases n.reading with
  | items elem slots => cases h : slots[index]? <;> simp [Reading.bare, h]
  | tuple fields slots =>
    cases hf : fields[index]? <;> cases hs : slots[index]? <;> simp [Reading.bare, hf, hs]
  | pairs keys fields slots =>
    have listed := filterMap_zip_bare (n.pair?_bare keys) fields slots
    simp only [Reading.bare, listed, List.getElem?_map, List.countP_map, Function.comp_def,
      Slot.isAbsent_bare]
    cases ((fields.zip slots).filterMap fun p => n.pair? keys p.1 p.2)[index]? <;> rfl
  | _ => rfl

end TypedNode

namespace Node

variable (n : Node)

@[simp] theorem length_bare : n.bare.length = n.length := by
  cases n with
  | typed n => exact n.length_bare
  | _ => rfl

theorem lookup_bare (key : String) : n.bare.lookup key = bare <$> n.lookup key := by
  cases n with
  | typed n => exact n.lookup_bare key
  | basic d =>
    cases d with
    | map entries =>
      simp only [bare, lookup]
      cases entries.lookup key <;> rfl
    | _ => rfl
  | _ => rfl

theorem lookupIndex_bare (index : Nat) :
    n.bare.lookupIndex index = bare <$> n.lookupIndex index := by
  cases n with
  | typed n => exact n.lookupIndex_bare index
  | pair text value =>
    match index with
    | 0 => rfl
    | 1 => exact congrArg Except.ok (ofOption_bare value)
    | _ + 2 => rfl
  | basic d =>
    cases d with
    | list items =>
      simp only [bare, lookupIndex]
      cases items[index]? <;> rfl
    | _ => rfl
  | _ => rfl

theorem values_bare : n.bare.values = List.map bare <$> n.values := by
  rw [values, values, items?_bare, kind_bare]
  cases n.items? <;> rfl

theorem entries_bare : n.bare.entries = List.map barePair <$> n.entries := by
  rw [entries, entries, entries?_bare, kind_bare]
  cases n.entries? <;> rfl

@[simp] theorem asString_bare : n.bare.asString = n.asString := by
  rw [asString, asString, scalar?_bare, kind_bare]

@[simp] theorem keyText_bare : n.bare.keyText = n.keyText := by
  rw [keyText, keyText, representation, representation, inView_bare, asString_bare]

theorem lookupNode_bare (key : Node) :
    n.bare.lookupNode key.bare = bare <$> n.lookupNode key := by
  rw [lookupNode, lookupNode, keyText_bare]
  cases key.keyText with
  | error e => rfl
  | ok text =>
    cases n with
    | typed n => exact n.lookupText_bare text
    | basic d => exact (basic d).lookup_bare text
    | _ => rfl

/-! ## Whole trees -/

/-- **A bare node has the same leaves.** -/
@[simp] theorem tree_bare (n : Node) : n.bare.tree = n.tree := by
  rw [tree_eq, tree_eq n, items?_bare, entries?_bare, scalar?_bare]
  cases hi : n.items? with
  | some items =>
    have below : ∀ c ∈ items, c.bare.tree = c.tree := fun c hc =>
      have := weight_lt_of_mem_items hi hc
      tree_bare c
    simp only [Option.map_some, List.map_map]
    exact congrArg Tree.list (List.map_congr_left below)
  | none =>
    cases he : n.entries? with
    | some entries =>
      have below : ∀ c ∈ entries, ((barePair c).1.tree, (barePair c).2.tree) =
          (c.1.tree, c.2.tree) := fun c hc => by
        have := weight_lt_of_mem_entries he hc
        rw [barePair, tree_bare c.1, tree_bare c.2]
      simp only [Option.map_some, Option.map_none, List.map_map]
      exact congrArg Tree.map (List.map_congr_left below)
    | none => rfl
termination_by n.weight

/-- **A bare node is the same data tree**, or fails alike to be one. -/
@[simp] theorem toDatum_bare (n : Node) : n.bare.toDatum = n.toDatum := by
  rw [toDatum_eq, toDatum_eq n, items?_bare, entries?_bare, scalar?_bare]
  cases hi : n.items? with
  | some items =>
    have below : ∀ c ∈ items, c.bare.toDatum = c.toDatum := fun c hc =>
      have := weight_lt_of_mem_items hi hc
      toDatum_bare c
    simp only [Option.map_some, List.mapM_map]
    exact congrArg (Functor.map Datum.list) (mapM_congr below)
  | none =>
    cases he : n.entries? with
    | some entries =>
      simp only [Option.map_some, Option.map_none, List.mapM_map]
      refine congrArg (Functor.map Datum.map) (mapM_congr fun c hc => ?_)
      have := (weight_lt_of_mem_entries he hc).2
      simp only [Function.comp_apply, barePair, keyText_bare, toDatum_bare c.2]
    | none => rfl
termination_by n.weight

/-! ## Paths -/

theorem pick_map {α β : Type} (elements : Except AccessError (List α)) (g : α → β)
    (position : Nat) : pick (List.map g <$> elements) position = g <$> pick elements position := by
  cases elements with
  | error e => rfl
  | ok l =>
    have found : (l.map g)[position]? = l[position]?.map g := List.getElem?_map
    simp only [pick, Functor.map, Except.map, Except.mapError, bind, Except.bind, found]
    cases l[position]? <;> rfl

-- the path to a key that is a node starts at the root again, so steps and paths go together
mutual

/-- **A step from a bare node leads to the bare node, or fails alike.** -/
theorem take_bare (root : Node) : (step : Step) → (n : Node) →
    root.bare.take step n.bare = bare <$> root.take step n
  | .key text, n => by simp only [take, lookup_bare, map_mapError]
  | .index position, n => by simp only [take, lookupIndex_bare, map_mapError]
  | .datumKey d, n => by
    simp only [take, ← map_mapError]
    exact congrArg (Except.mapError PathError.access) (n.lookupNode_bare (basic d))
  | .textKey text, n => by
    simp only [take, ← map_mapError]
    exact congrArg (Except.mapError PathError.access) (n.lookupNode_bare (key text))
  | .nullKey, n => by
    simp only [take, ← map_mapError]
    exact congrArg (Except.mapError PathError.access) (n.lookupNode_bare null)
  | .nodeKey path, n => by
    simp only [take, follow_bare root path root, bind_map_left, map_bind, lookupNode_bare,
      map_mapError]
  | .entryKey position, n => by
    simp only [take, entries_bare, pick_map, Functor.map_map, barePair]
  | .entryValue position, n => by
    simp only [take, entries_bare, pick_map, Functor.map_map, barePair]
  | .item position, n => by simp only [take, values_bare, pick_map]
  | .representation, n => congrArg Except.ok (n.inView_bare .representation)
  | .typed, n => congrArg Except.ok (n.inView_bare .typed)

/-- **A path from a bare node leads to the bare node, or fails alike.** -/
theorem follow_bare (root : Node) : (path : List Step) → (n : Node) →
    root.bare.follow path n.bare = bare <$> root.follow path n
  | [], n => rfl
  | step :: rest, n => by
    simp only [follow, take_bare root step n, bind_map_left, map_bind]
    exact congrArg (_ >>= ·) (funext fun next => follow_bare root rest next)

end

/-! ## Nodes that differ in layouts alone -/

variable {n n' root root' : Node}

theorem readsLike_of_bare_eq (eq : n.bare = n'.bare) : n.ReadsLike n' := by
  have kind : n.kind = n'.kind := by rw [← kind_bare, eq, kind_bare]
  have scalar : n.scalar? = n'.scalar? := by rw [← scalar?_bare, eq, scalar?_bare]
  have tree : n.tree = n'.tree := by rw [← tree_bare, eq, tree_bare]
  exact {
    kind
    isNull := by rw [isNull, isNull, kind]
    length := by rw [← length_bare, eq, length_bare]
    asBool := by rw [asBool, asBool, scalar, kind]
    asInt := by rw [asInt, asInt, scalar, kind]
    asFloat := by rw [asFloat, asFloat, scalar, kind]
    asString := by rw [asString, asString, scalar, kind]
    asBytes := by rw [asBytes, asBytes, scalar, kind]
    asLink := by rw [asLink, asLink, scalar, kind]
    tree
    toDatum := by rw [← toDatum_bare, eq, toDatum_bare]
    buildFrom := fun p => by rw [Prototype.buildFrom, Prototype.buildFrom, tree] }

/-- **From nodes that differ in layouts alone, every path goes the same way.** -/
theorem walk_of_bare_eq (eq : root.bare = root'.bare) (path : List Step) :
    SameWalk root root' path := by
  refine walk_of_steps (fun _ _ => readsLike_of_bare_eq) ?_ eq
    (rfl : root.at? [] = .ok root) (rfl : root'.at? [] = .ok root')
  intro step _ n n' hn
  refine corresponds_of_map_eq ?_
  rw [← take_bare, ← take_bare, eq, hn]

end Node

end DualView
