import DualView.Proofs.Node.Reading

/-!
# Answers and listings

A node lists its items or its entries, and it also answers out of order: how many there are, what
stands at a position, what stands under a key.  For a node that fits these answers are those of the
list, although they are found otherwise: a key leads to a field by its name and position, a text to
the entry that is stored under it, and absent fields and omitted nulls are passed over.

* `Node.length_of_items`, `Node.length_of_entries`: the length is that of the list.
* `Node.lookupIndex_of_items`: a position leads to the item that stands there.
* `Node.lookup_of_entries`: in the representation, a key leads to the value of its entry.
-/

namespace DualView

/-! ## What is listed -/

namespace TypedNode

variable (n : TypedNode)

@[simp] theorem isSome_slot? (type : TypeId) (slot : Slot Value) :
    (n.slot? type slot).isSome = !slot.isAbsent := by
  obtain ⟨layout, content⟩ := slot
  cases content <;> rfl

@[simp] theorem isSome_pair? (keys : Renaming) (f : Field TypeId) (slot : Slot Value) :
    (n.pair? keys f slot).isSome = !slot.isAbsent := by
  obtain ⟨layout, content⟩ := slot
  cases content <;> rfl

@[simp] theorem isSome_field? (keys : Renaming) (f : Field TypeId) (slot : Slot Value) :
    (n.field? keys f slot).isSome = !slot.isAbsent := by
  rw [field?, Option.isSome_map, isSome_slot?]

@[simp] theorem isSome_entry? (key value : TypeId) (omitNulls : Bool) (e : Entry Value) :
    (n.entry? key value omitNulls e).isSome = e.shows omitNulls := by
  rw [TypedNode.entry?, Entry.shows]
  cases omitNulls && e.slot.isNull <;> simp

end TypedNode

theorem TypedNode.entry?_represented {n : TypedNode} (seen : n.view = .representation)
    (key value : TypeId) (omitNulls : Bool) (e : Entry Value) :
    n.entry? key value omitNulls e =
      (if omitNulls && e.slot.isNull then none else n.slot? value e.slot).map
        (Node.key e.text, ·) := by
  rw [TypedNode.entry?, seen]
  cases omitNulls && e.slot.isNull <;> rfl

theorem Renaming.Tells.zip_apart {keys : Renaming} {fields : List (Field TypeId)}
    {slots : List (Slot Value)} (h : keys.Tells fields) (length : slots.length = fields.length) :
    ((fields.zip slots).map fun p => keys.keyOf p.1.name).Nodup := by
  have apart := h.separates.apart
  rw [List.map_map] at apart
  exact nodup_map_zip length apart

theorem length_filterMap_fields {α : Type} {fields : List (Field TypeId)} {slots : List (Slot Value)}
    (length : slots.length = fields.length) {g : Field TypeId × Slot Value → Option α}
    (shown : ∀ p, (g p).isSome = !p.2.isAbsent) :
    ((fields.zip slots).filterMap g).length = slots.countP (!·.isAbsent) := by
  have snd : (fields.zip slots).map Prod.snd = slots :=
    List.map_snd_zip (Nat.le_of_eq length)
  calc ((fields.zip slots).filterMap g).length
    _ = (fields.zip slots).countP fun p => !p.2.isAbsent := by
      rw [List.length_filterMap_eq_countP]
      exact List.countP_congr fun p _ => by rw [shown]
    _ = ((fields.zip slots).map Prod.snd).countP (!·.isAbsent) := by
      rw [List.countP_map]
      rfl
    _ = slots.countP (!·.isAbsent) := by rw [snd]

/-- What is listed of the entries of a map are all, or those that are no nulls. -/
theorem countP_shows {entries : List (Entry Value)}
    (present : ∀ e ∈ entries, e.slot.isAbsent = false) (omitNulls : Bool) :
    entries.countP (·.shows omitNulls) =
      if omitNulls then entries.countP (!·.slot.isNull) else entries.length := by
  cases omitNulls with
  | true => exact List.countP_congr fun e he => by simp [Entry.shows, present e he]
  | false => exact List.countP_eq_length.mpr fun e he => by simp [Entry.shows, present e he]

/-! ## Length -/

namespace Node

variable {n : Node}

/-- **The length of a list is the number of its items.** -/
theorem length_of_items (h : n.Fits) {items : List Node} (hi : n.items? = some items) :
    n.length = .ok items.length := by
  cases n with
  | typed n =>
    have hr := TypedNode.Fits.reading h
    rw [items?, TypedNode.items?] at hi
    rw [length, TypedNode.length]
    cases hr' : n.reading with
    | items elem slots =>
      simp only [hr', Option.some.injEq] at hi
      rw [← hi, List.length_map]
    | tuple fields slots =>
      rw [hr'] at hr
      cases hr with
      | tuple fits required =>
        simp only [hr', Option.some.injEq] at hi
        rw [← hi, List.length_map, List.length_zip, ← fits.length, Nat.min_self]
    | pairs keys fields slots =>
      rw [hr'] at hr
      cases hr with
      | pairs tells fits =>
        simp only [hr', Option.some.injEq] at hi
        rw [← hi, length_filterMap_fields fits.length fun p => n.isSome_pair? keys p.1 p.2]
    | _ => simp [hr'] at hi
  | null => contradiction
  | key text => contradiction
  | pair text value =>
    cases hi
    rfl
  | basic d =>
    cases d with
    | list items =>
      cases hi
      rw [length, List.length_map]
    | _ => contradiction

/-- **The length of a map is the number of its entries.** -/
theorem length_of_entries (h : n.Fits) {entries : List (Node × Node)}
    (he : n.entries? = some entries) : n.length = .ok entries.length := by
  cases n with
  | typed n =>
    have hr := TypedNode.Fits.reading h
    rw [entries?, TypedNode.entries?] at he
    rw [length, TypedNode.length]
    cases hr' : n.reading with
    | entries key value dict omitNulls =>
      rw [hr'] at hr
      cases hr with
      | entries fits apart =>
        simp only [hr', Option.some.injEq] at he
        rw [← he, List.length_filterMap_eq_countP]
        simp only [TypedNode.isSome_entry?]
        rw [countP_shows fun e hm => (fits e hm).present]
        rfl
    | fields keys fields slots =>
      rw [hr'] at hr
      cases hr with
      | fields tells fits =>
        simp only [hr', Option.some.injEq] at he
        rw [← he, length_filterMap_fields fits.length fun p => n.isSome_field? keys p.1 p.2]
    | choice key member value =>
      simp only [hr', Option.some.injEq] at he
      rw [← he]
      rfl
    | _ => simp [hr'] at he
  | basic d =>
    cases d with
    | map entries =>
      cases he
      rw [length, List.length_map]
    | _ => contradiction
  | null => contradiction
  | key text => contradiction
  | pair text value => contradiction

theorem length_of_leaf (hi : n.items? = none) (he : n.entries? = none) :
    n.length = .error (.wrongKind .map n.kind) := by
  cases n with
  | typed n =>
    rw [items?, TypedNode.items?] at hi
    rw [entries?, TypedNode.entries?] at he
    rw [length, TypedNode.length, kind]
    cases hr : n.reading <;> simp [hr] at hi he ⊢
  | basic d =>
    cases d with
    | list items => contradiction
    | map entries => contradiction
    | _ => rfl
  | pair text value => contradiction
  | null => rfl
  | key text => rfl

/-! ## Positions -/

def itemAt (items : List Node) (position : Nat) : Except AccessError Node :=
  match items[position]? with
  | some item => .ok item
  | none => .error (.outOfRange position items.length)

theorem lookupIndex_typed {n : TypedNode} (h : n.Fits) {items : List Node}
    (hi : n.items? = some items) (position : Nat) :
    n.lookupIndex position = itemAt items position := by
  have hr := h.reading
  rw [TypedNode.items?] at hi
  rw [TypedNode.lookupIndex]
  cases hr' : n.reading with
  | items elem slots =>
    simp only [hr', Option.some.injEq] at hi ⊢
    rw [itemAt, ← hi, List.getElem?_map, List.length_map]
    cases slots[position]? <;> simp
  | tuple fields slots =>
    rw [hr'] at hr
    cases hr with
    | tuple fits required =>
      have length : (fields.zip slots).length = slots.length := by
        rw [List.length_zip, fits.length, Nat.min_self]
      simp only [hr', Option.some.injEq] at hi ⊢
      rw [itemAt, ← hi, List.getElem?_map, List.length_map, length, List.zip_eq_zipWith,
        List.getElem?_zipWith]
      cases fields[position]? <;> cases slots[position]? <;> simp
  | pairs keys fields slots =>
    rw [hr'] at hr
    cases hr with
    | pairs tells fits =>
      have shown := length_filterMap_fields fits.length fun p => n.isSome_pair? keys p.1 p.2
      simp only [hr', Option.some.injEq] at hi ⊢
      rw [hi] at shown ⊢
      rw [← shown]
      rfl
  | _ => simp [hr'] at hi

/-- **A position leads to the item that stands there.** -/
theorem lookupIndex_of_items (h : n.Fits) {items : List Node} (hi : n.items? = some items)
    (position : Nat) : n.lookupIndex position = itemAt items position := by
  cases n with
  | typed n => exact lookupIndex_typed h hi position
  | null => contradiction
  | key text => contradiction
  | pair text value =>
    cases hi
    match position with
    | 0 => rfl
    | 1 => rfl
    | i + 2 => rfl
  | basic d =>
    cases d with
    | list items =>
      cases hi
      rw [lookupIndex, itemAt, List.getElem?_map, List.length_map]
      cases items[position]? <;> rfl
    | _ => contradiction

theorem lookupIndex_of_no_items (hi : n.items? = none) (position : Nat) :
    n.lookupIndex position = .error (.wrongKind .list n.kind) := by
  cases n with
  | typed n =>
    rw [items?, TypedNode.items?] at hi
    rw [lookupIndex, TypedNode.lookupIndex, kind]
    cases hr : n.reading <;> simp [hr] at hi ⊢
  | basic d =>
    cases d with
    | list items => contradiction
    | _ => rfl
  | pair text value => contradiction
  | null => rfl
  | key text => rfl

/-! ## Keys -/

def under? (entries : List (Node × Node)) (text : String) : Option Node :=
  (entries.find? fun c => decide (c.1.scalar? = some (.string text))).map (·.2)

def valueUnder (entries : List (Node × Node)) (text : String) : Except AccessError Node :=
  match under? entries text with
  | some value => .ok value
  | none => .error (.notExists text)

theorem under?_cons (text key : String) (value : Node) (rest : List (Node × Node)) :
    under? ((.key text, value) :: rest) key = if text = key then some value else under? rest key := by
  rw [under?, List.find?_cons]
  by_cases he : text = key <;> simp [scalar?, he, under?]

/-- Where no text stands twice, what is listed under a text is what the search for it finds. -/
theorem under?_filterMap {α : Type} (text : α → String) (shown? : α → Option Node) {l : List α}
    (apart : (l.map text).Nodup) (key : String) :
    under? (l.filterMap fun a => (shown? a).map (Node.key (text a), ·)) key =
      (l.find? fun a => text a == key).bind shown? := by
  induction l with
  | nil => rfl
  | cons a l ih =>
    rw [List.map_cons, List.nodup_cons] at apart
    rw [List.filterMap_cons, List.find?_cons]
    by_cases he : text a = key
    · have none_below : l.find? (fun a => text a == key) = none :=
        List.find?_eq_none.mpr fun b hb hk =>
          apart.1 (List.mem_map.mpr ⟨b, hb, (eq_of_beq hk).trans he.symm⟩)
      cases hs : shown? a with
      | none => simp [he, hs, ih apart.2, none_below]
      | some value => simp [he, hs, under?_cons]
    · rw [beq_false_of_ne he]
      cases hs : shown? a with
      | none => exact ih apart.2
      | some value => simpa [he, under?_cons] using ih apart.2

theorem under?_basic (entries : List (String × Datum)) (text : String) :
    under? (entries.map fun p => (key p.1, basic p.2)) text = (entries.lookup text).map basic := by
  induction entries with
  | nil => rfl
  | cons p rest ih =>
    obtain ⟨k, d⟩ := p
    rw [List.map_cons, under?_cons, List.lookup_cons, ih]
    by_cases he : k = text
    · simp [he]
    · rw [if_neg he, beq_false_of_ne (Ne.symm he)]

theorem fieldAt?_eq (n : TypedNode) {keys : Renaming} {fields : List (Field TypeId)}
    {slots : List (Slot Value)} (tells : keys.Tells fields) (length : slots.length = fields.length)
    (key : String) : (keys.nameOf? key).bind (n.fieldAt? fields slots) =
      ((fields.zip slots).find? fun p => keys.keyOf p.1.name == key).bind fun p =>
        n.slot? p.1.type p.2 := by
  -- a name leads to a field by its position, and positions are told apart by the keys
  have found : (keys.nameOf? key).bind (n.fieldAt? fields slots) =
      ((keys.nameOf? key).bind (Field.index? fields)).bind fun i =>
        fields[i]?.bind fun f => slots[i]?.bind fun slot => n.slot? f.type slot :=
    (Option.bind_assoc ..).symm
  rw [found]
  cases hi : (keys.nameOf? key).bind (Field.index? fields) with
  | none =>
    have absent : ∀ p ∈ fields.zip slots, ¬ (keys.keyOf p.1.name == key) = true := fun p hp he => by
      obtain ⟨i, hf⟩ := List.mem_iff_getElem?.mp (List.of_mem_zip hp).1
      have := tells.found_iff.mpr ⟨p.1, hf, eq_of_beq he⟩
      rw [Field.Found, hi] at this
      contradiction
    rw [List.find?_eq_none.mpr absent]
    rfl
  | some i =>
    obtain ⟨f, hf, rfl⟩ := tells.found_iff.mp hi
    have hlt : i < slots.length := length ▸ (List.getElem?_eq_some_iff.mp hf).1
    have hs := List.getElem?_eq_getElem hlt
    have hp : (f, slots[i]) ∈ fields.zip slots :=
      List.mem_of_getElem? (List.getElem?_zip_eq_some.mpr ⟨hf, hs⟩)
    rw [find?_eq_some_of_nodup (fun p => keys.keyOf p.1.name) (tells.zip_apart length) hp]
    simp [hf, hs]

theorem lookup_typed {n : TypedNode} (h : n.Fits) (seen : n.view = .representation)
    {entries : List (Node × Node)} (he : n.entries? = some entries) (key : String) :
    n.lookup key = valueUnder entries key := by
  have hr := h.reading
  rw [TypedNode.entries?] at he
  rw [TypedNode.lookup]
  cases hr' : n.reading with
  | entries keyType value dict omitNulls =>
    rw [hr'] at hr
    cases hr with
    | entries fits apart =>
      simp only [hr', Option.some.injEq] at he ⊢
      have listed : under? entries key = n.entryAt? value dict omitNulls key := by
        rw [← he, funext (TypedNode.entry?_represented seen keyType value omitNulls)]
        exact under?_filterMap Entry.text _ apart key
      have stored : n.storedText? keyType key = some key := by rw [TypedNode.storedText?, seen]
      rw [stored, Option.bind_some, ← listed]
      rfl
  | fields keys fields slots =>
    rw [hr'] at hr
    cases hr with
    | fields tells fits =>
      simp only [hr', Option.some.injEq] at he ⊢
      have listed : under? entries key = (keys.nameOf? key).bind (n.fieldAt? fields slots) := by
        rw [← he, fieldAt?_eq n tells fits.length]
        exact under?_filterMap (fun p : Field TypeId × Slot Value => keys.keyOf p.1.name)
          (fun p => n.slot? p.1.type p.2) (tells.zip_apart fits.length) key
      rw [← listed]
      rfl
  | choice present member value =>
    simp only [hr', Option.some.injEq] at he ⊢
    have listed : under? entries key =
        if present = key then some (.typed (n.sub member value)) else none := by
      rw [← he, under?_cons]
      rfl
    rw [← listed]
    rfl
  | _ => simp [hr'] at he

/-- **In the representation, a key leads to the value that is listed under it.** -/
theorem lookup_of_entries (h : n.Fits) (seen : n.Represented) {entries : List (Node × Node)}
    (he : n.entries? = some entries) (key : String) : n.lookup key = valueUnder entries key := by
  cases n with
  | typed n => exact lookup_typed h seen he key
  | basic d =>
    cases d with
    | map entries =>
      cases he
      rw [lookup, valueUnder, under?_basic]
      cases entries.lookup key <;> rfl
    | _ => contradiction
  | null => contradiction
  | key text => contradiction
  | pair text value => contradiction

theorem lookup_of_no_entries (he : n.entries? = none) (key : String) :
    n.lookup key = .error (.wrongKind .map n.kind) := by
  cases n with
  | typed n =>
    rw [entries?, TypedNode.entries?] at he
    rw [lookup, TypedNode.lookup, kind]
    cases hr : n.reading <;> simp [hr] at he ⊢
  | basic d =>
    cases d with
    | map entries => contradiction
    | _ => rfl
  | null => rfl
  | key text => rfl
  | pair text value => rfl

/-- In the representation, texts are the keys. -/
theorem lookupText_represented {n : TypedNode} (seen : n.view = .representation) (text : String) :
    n.lookupText text = n.lookup text := by
  rw [TypedNode.lookupText, TypedNode.lookup]
  cases n.reading with
  | entries key value dict omitNulls =>
    have stored : n.storedText? key text = some text := by rw [TypedNode.storedText?, seen]
    simp only [stored, Option.bind_some]
  | _ => rfl

theorem lookupNode_represented (seen : n.Represented) (key : Node) :
    n.lookupNode key = key.keyText >>= n.lookup := by
  cases n with
  | typed n =>
    simp only [lookupNode, lookupText_represented seen]
    rfl
  | _ => rfl

/-- What is seen through the representation view is its own representation. -/
theorem representation_of_represented (seen : n.Represented) : n.representation = n := by
  cases n with
  | typed n =>
    obtain ⟨s, type, view, v⟩ := n
    obtain rfl : view = .representation := seen
    rfl
  | _ => rfl

end Node

end DualView
