import DualView.Proofs.Arena.Freezing
import DualView.Proofs.Assembly.Soundness

/-!
# What cells hold

A frame keeps contents where an arena keeps drafts.  A cell *fills* the slots of a frame if its
drafts hold their contents, but for the slot that is open (`Arena.Fills`).  There is one such
relation for each form of compound: items of a list, entries of a map, fields of a struct, and the
member of a union.

* `Arena.Fills.keep`: a cell fills what it filled while its other slots stay as they are.
* `Arena.FillsStruct.fill`, `Arena.FillsUnion.fill`, `Arena.Fills.append`: the open slot is filled.
* `Arena.FillsList.holds`, `Arena.FillsMap.holds`, `Arena.FillsStruct.holds`,
  `Arena.FillsUnion.holds`: a finished cell holds the value that the frame closes with.
-/

namespace DualView

/-! ## Cells that differ in one slot -/

/-- A cell has the slots of another, but for one at most. -/
structure Cell.Extends (c c' : Cell) (at? : Option Nat) : Prop where
  type : c'.type = c.type
  shape : c'.shape = c.shape
  slots : ∀ {i d}, at? ≠ some i → c.slots[i]? = some d → c'.slots[i]? = some d

theorem Cell.Extends.refl (c : Cell) : c.Extends c none := ⟨rfl, rfl, fun _ => id⟩

theorem Cell.Extends.slotType? {m : Model} {c c' : Cell} {at? : Option Nat}
    (h : c.Extends c' at?) (i : Nat) : c'.slotType? m i = c.slotType? m i := by
  rw [Cell.slotType?, Cell.slotType?, h.shape, h.type]

/-! ## Keys and their texts -/

def Dict.keys {α : Type} (d : Dict α) : List (α × String) := d.entries.map fun e => (e.key, e.text)

theorem Dict.foldl_insert {d : Dict Value} {es : List (Entry Value)}
    (apart : ((d.entries ++ es).map (·.text)).Nodup) :
    es.foldl Dict.insert d = ⟨d.entries ++ es⟩ := by
  induction es generalizing d with
  | nil => rw [List.append_nil, List.foldl_nil]
  | cons e es ih =>
    have new : d.contains e.text = false := by
      rw [MapFrame.contains_eq_false_iff]
      intro mem
      rw [List.map_append, List.nodup_append] at apart
      exact apart.2.2 _ mem _ (List.mem_cons_self ..) rfl
    have entries := MapFrame.dict_insert new
    have rest : d.entries ++ e :: es = (d.insert e).entries ++ es := by
      rw [entries, List.append_assoc, List.singleton_append]
    rw [List.foldl_cons, ih (rest ▸ apart), rest]

theorem Dict.ofList_entries {d : Dict Value} (apart : (d.entries.map (·.text)).Nodup) :
    Dict.ofList d.entries = d := by
  rw [ofList, foldl_insert (d := .empty) apart]
  rfl

namespace Cell.Shaped

variable {m : Model} {c : Cell} {key value : TypeId} {nullable : Bool}

theorem keys_length (h : c.Shaped m) (shape : c.shape = .map key value nullable) :
    c.keys.length = c.slots.length := by
  rw [Shaped, shape] at h
  exact h.1

theorem get?_iff (h : c.Shaped m) (shape : c.shape = .map key value nullable) {text : String}
    {i : Nat} : c.index.get? text = some i ↔ (c.keys[i]?).map (·.2) = some text := by
  rw [Shaped, shape] at h
  exact h.2 text i

/-- The texts of the keys of a map differ, since each is found at one position. -/
theorem nodup_texts (h : c.Shaped m) (shape : c.shape = .map key value nullable) :
    (c.keys.map (·.2)).Nodup := by
  rw [List.Nodup, List.pairwise_iff_getElem]
  intro i j hi hj before same
  have first : c.index.get? (c.keys.map (·.2))[i] = some i := by
    rw [h.get?_iff shape, ← List.getElem?_map, List.getElem?_eq_getElem hi]
  have second : c.index.get? (c.keys.map (·.2))[i] = some j := by
    rw [h.get?_iff shape, ← List.getElem?_map, List.getElem?_eq_getElem hj, same]
  obtain rfl := Option.some.inj (first.symm.trans second)
  exact Nat.lt_irrefl i before

theorem isSome_get?_iff (h : c.Shaped m) (shape : c.shape = .map key value nullable)
    {text : String} : (c.index.get? text).isSome = true ↔ text ∈ c.keys.map (·.2) := by
  rw [Option.isSome_iff_exists, List.mem_iff_getElem?]
  refine exists_congr fun i => ?_
  rw [h.get?_iff shape, List.getElem?_map]

end Cell.Shaped

namespace Arena

variable {m : Model} {a a' : Arena} {κ : CellId} {c c' : Cell} {opened at? : Option Nat}
  {contents : List (Maybe Value)}

/-! ## Contents of slots -/

/-- Drafts that something refers to hold in one arena what they hold in another. -/
def Keeps (m : Model) (a a' : Arena) : Prop :=
  ∀ (type : TypeId) (d : Draft) (content : Maybe Value), Holds m a type d content →
    (∀ id, d.cell? = some id → ∃ p, a'.RefersTo p id) → Holds m a' type d content

theorem Spares.keeps {touched : List CellId} (h : Spares touched a a') (sound : a'.Sound m) :
    Keeps m a a' := fun _ _ _ held => held.keep h sound

/-- The drafts of a cell hold contents, but for the slot that is open. -/
def Fills (m : Model) (a : Arena) (c : Cell) (opened : Option Nat)
    (contents : List (Maybe Value)) : Prop :=
  ∀ i content, contents[i]? = some content → opened ≠ some i →
    ∃ d type, c.slots[i]? = some d ∧ c.slotType? m i = some type ∧ Holds m a type d content

namespace Fills

/-- **A cell fills what it filled while its other slots stay as they are.** -/
theorem keep (h : Fills m a c opened contents) (keeps : Keeps m a a')
    (hc' : a'.cells[κ]? = some c') (ext : c.Extends c' at?)
    (free : ∀ i, at? = some i → opened = some i ∨ contents.length ≤ i) :
    Fills m a' c' opened contents := by
  intro i content hi apart
  obtain ⟨d, type, hd, ht, held⟩ := h i content hi apart
  have ne : at? ≠ some i := by
    intro he
    rcases free i he with same | outside
    · exact apart same
    · exact Nat.not_lt.mpr outside (List.getElem?_eq_some_iff.mp hi).1
  have hd' := ext.slots ne hd
  refine ⟨d, type, hd', (ext.slotType? i).trans ht, keeps type d content held fun id he => ?_⟩
  refine ⟨.inside κ (.slot i), (refersTo_of_cell hc').mpr ?_⟩
  rw [Cell.RefersTo, Cell.draftAt?, hd']
  exact he

theorem set {i : Nat} {d : Draft} {type : TypeId} {content : Maybe Value}
    (h : Fills m a c (some i) contents) (hd : c.slots[i]? = some d)
    (ht : c.slotType? m i = some type) (held : Holds m a type d content) :
    Fills m a c none (contents.set i content) := by
  intro j content' hj _
  rw [List.getElem?_set] at hj
  split at hj
  · rename_i same
    subst same
    split at hj
    · cases hj
      exact ⟨d, type, hd, ht, held⟩
    · contradiction
  · rename_i differ
    exact h j content' hj fun he => differ (Option.some.inj he)

/-- One slot more is filled. -/
theorem append {d : Draft} {type : TypeId} {content : Maybe Value} (h : Fills m a c none contents)
    (hd : c.slots[contents.length]? = some d) (ht : c.slotType? m contents.length = some type)
    (held : Holds m a type d content) : Fills m a c none (contents ++ [content]) := by
  intro j content' hj _
  by_cases before : j < contents.length
  · rw [List.getElem?_append_left before] at hj
    exact h j content' hj nofun
  · have last := (List.getElem?_eq_some_iff.mp hj).1
    rw [List.length_append, List.length_singleton] at last
    obtain rfl : j = contents.length := by omega
    rw [List.getElem?_concat_length] at hj
    cases hj
    exact ⟨d, type, hd, ht, held⟩

theorem isAbsent_eq {i : Nat} {d : Draft} {content : Maybe Value} (h : Fills m a c none contents)
    (hi : contents[i]? = some content) (hd : c.slots[i]? = some d) :
    d.isAbsent = content.isAbsent := by
  obtain ⟨d', type, hd', -, held⟩ := h i content hi nofun
  obtain rfl := Option.some.inj (hd.symm.trans hd')
  exact held.isAbsent_eq

theorem map_isAbsent_eq (h : Fills m a c none contents)
    (length : c.slots.length = contents.length) :
    c.slots.map Draft.isAbsent = contents.map Maybe.isAbsent := by
  apply List.ext_getElem?
  intro i
  rw [List.getElem?_map, List.getElem?_map]
  by_cases inside : i < contents.length
  · have hi := List.getElem?_eq_getElem inside
    have hd := List.getElem?_eq_getElem (length ▸ inside : i < c.slots.length)
    rw [hi, hd]
    exact congrArg some (h.isAbsent_eq hi hd)
  · rw [List.getElem?_eq_none (Nat.le_of_not_lt inside),
      List.getElem?_eq_none (length ▸ Nat.le_of_not_lt inside)]
    rfl

theorem holds_cell {v : Value} (h : Fills m a c none contents) (hc : a.cells[κ]? = some c)
    (finished : c.finished = true) (length : c.slots.length = contents.length)
    (value : c.value? m (c.parts.map fun p => (p.2, (contents[p.2]?).getD .absent)) = some v)
    (type : TypeId) : Holds m a type (.cell κ) (.value v) := by
  have part : ∀ p ∈ c.parts, ∃ type, c.slotType? m p.2 = some type ∧
      Holds m a type p.1 ((contents[p.2]?).getD .absent) := by
    intro p mem
    have hd := Cell.getElem?_of_mem_parts mem
    have inside := (List.getElem?_eq_some_iff.mp hd).1
    have hi := List.getElem?_eq_getElem (length ▸ inside : p.2 < contents.length)
    obtain ⟨d, type, hd', ht, held⟩ := h p.2 _ hi nofun
    obtain rfl := Option.some.inj (hd.symm.trans hd')
    refine ⟨type, ht, ?_⟩
    rw [hi]
    exact held
  refine .cell type (fun i => (c.slotType? m i).getD 0) (fun i => (contents[i]?).getD .absent) hc
    finished (fun p mem => ?_) (fun p mem => ?_) value
  · obtain ⟨type, ht, -⟩ := part p mem
    rw [ht]
    rfl
  · obtain ⟨type, ht, held⟩ := part p mem
    rw [ht]
    exact held

end Fills

theorem map_zipIdx_eq {ds : List Draft} (length : ds.length = contents.length) :
    ds.zipIdx.map (fun p => (p.2, (contents[p.2]?).getD .absent)) =
      contents.zipIdx.map fun p => (p.2, p.1) := by
  apply List.ext_getElem?
  intro i
  rw [List.getElem?_map, List.getElem?_map, List.getElem?_zipIdx, List.getElem?_zipIdx]
  by_cases inside : i < contents.length
  · rw [List.getElem?_eq_getElem inside,
      List.getElem?_eq_getElem (length ▸ inside : i < ds.length)]
    simp [inside]
  · rw [List.getElem?_eq_none (Nat.le_of_not_lt inside),
      List.getElem?_eq_none (length ▸ Nat.le_of_not_lt inside)]
    rfl

/-! ## Lists -/

structure FillsList (m : Model) (a : Arena) (c : Cell) (elem : TypeId) (nullable : Bool)
    (layout : Layout) (slots : List (Slot Value)) : Prop where
  shape : c.shape = .list elem nullable
  body : m.schema.body c.type = .list elem nullable
  layout_eq : layout = m.elementLayout elem nullable
  layouts : ∀ s ∈ slots, s.layout = layout
  fills : Fills m a c none (slots.map (·.content))

namespace FillsList

variable {elem : TypeId} {nullable : Bool} {layout : Layout} {slots : List (Slot Value)}

theorem keep (h : FillsList m a c elem nullable layout slots) (keeps : Keeps m a a')
    (hc' : a'.cells[κ]? = some c') (ext : c.Extends c' at?)
    (free : ∀ i, at? = some i → slots.length ≤ i) :
    FillsList m a' c' elem nullable layout slots where
  shape := ext.shape.trans h.shape
  body := ext.type ▸ h.body
  layout_eq := h.layout_eq
  layouts := h.layouts
  fills := h.fills.keep keeps hc' ext fun i he => .inr ((List.length_map ..).symm ▸ free i he)

/-- One item more is filled. -/
theorem append {d : Draft} {content : Maybe Value} (h : FillsList m a c elem nullable layout slots)
    (hd : c.slots[slots.length]? = some d) (held : Holds m a elem d content) :
    FillsList m a c elem nullable layout (slots ++ [⟨layout, content⟩]) where
  shape := h.shape
  body := h.body
  layout_eq := h.layout_eq
  layouts := by
    intro s mem
    rcases List.mem_append.mp mem with mem | mem
    · exact h.layouts s mem
    · rw [List.mem_singleton.mp mem]
  fills := by
    rw [List.map_append]
    refine h.fills.append ?_ ?_ held
    · rw [List.length_map]
      exact hd
    · rw [Cell.slotType?, h.shape]

theorem checkFilled_eq (h : FillsList m a c elem nullable layout slots) :
    c.checkFilled m = .ok () := by
  rw [Cell.checkFilled, h.body]

/-- **A finished list holds its items.** -/
theorem holds (h : FillsList m a c elem nullable layout slots) (hc : a.cells[κ]? = some c)
    (finished : c.finished = true) (length : c.slots.length = slots.length) (type : TypeId) :
    Holds m a type (.cell κ) (.value (.list slots)) := by
  have length' : c.slots.length = (slots.map (·.content)).length := by
    rw [List.length_map]
    exact length
  refine h.fills.holds_cell hc finished length' ?_ type
  rw [Cell.value?.eq_def, Cell.parts, h.shape]
  dsimp only
  rw [map_zipIdx_eq length', List.map_map, Option.some_inj, Value.list.injEq]
  apply List.ext_getElem?
  intro i
  rw [List.getElem?_map, List.getElem?_zipIdx, List.getElem?_map]
  cases hs : slots[i]? with
  | none => rfl
  | some s =>
    have layout := (h.layouts s (List.mem_of_getElem? hs)).trans h.layout_eq
    simp [← layout]

end FillsList

/-! ## Maps -/

structure FillsMap (m : Model) (a : Arena) (c : Cell) (key value : TypeId) (nullable : Bool)
    (layout : Layout) (dict : Dict Value) : Prop where
  shape : c.shape = .map key value nullable
  body : ∃ nulls, m.schema.body c.type = .map key value nullable nulls
  layout_eq : layout = m.elementLayout value nullable
  layouts : ∀ e ∈ dict.entries, e.slot.layout = layout
  fills : Fills m a c none (dict.entries.map (·.slot.content))

namespace FillsMap

variable {key value : TypeId} {nullable : Bool} {layout : Layout} {dict : Dict Value}

theorem keep (h : FillsMap m a c key value nullable layout dict) (keeps : Keeps m a a')
    (hc' : a'.cells[κ]? = some c') (ext : c.Extends c' at?)
    (free : ∀ i, at? = some i → dict.size ≤ i) :
    FillsMap m a' c' key value nullable layout dict where
  shape := ext.shape.trans h.shape
  body := ext.type ▸ h.body
  layout_eq := h.layout_eq
  layouts := h.layouts
  fills := h.fills.keep keeps hc' ext fun i he => .inr ((List.length_map ..).symm ▸ free i he)

theorem insert {d : Draft} {content : Maybe Value} {k : Value} {text : String}
    (h : FillsMap m a c key value nullable layout dict) (new : dict.contains text = false)
    (hd : c.slots[dict.size]? = some d) (held : Holds m a value d content) :
    FillsMap m a c key value nullable layout (dict.insert ⟨k, text, ⟨layout, content⟩⟩) := by
  have entries := MapFrame.dict_insert (e := ⟨k, text, ⟨layout, content⟩⟩) new
  refine ⟨h.shape, h.body, h.layout_eq, fun e mem => ?_, ?_⟩
  · rw [entries] at mem
    rcases List.mem_append.mp mem with mem | mem
    · exact h.layouts e mem
    · rw [List.mem_singleton.mp mem]
  · rw [entries, List.map_append]
    refine h.fills.append ?_ ?_ held
    · rw [List.length_map]
      exact hd
    · rw [Cell.slotType?, h.shape]

theorem checkFilled_eq (h : FillsMap m a c key value nullable layout dict) :
    c.checkFilled m = .ok () := by
  obtain ⟨nulls, body⟩ := h.body
  rw [Cell.checkFilled, body]

/-- **A finished map holds its entries.** -/
theorem holds (h : FillsMap m a c key value nullable layout dict) (hc : a.cells[κ]? = some c)
    (finished : c.finished = true) (keys : c.keys = dict.keys) (shaped : c.Shaped m)
    (type : TypeId) : Holds m a type (.cell κ) (.value (.map dict)) := by
  have length : c.slots.length = (dict.entries.map (·.slot.content)).length := by
    rw [← shaped.keys_length h.shape, keys, Dict.keys, List.length_map, List.length_map]
  refine h.fills.holds_cell hc finished length ?_ type
  have entries : List.zipWith (fun (k : Value × String) (x : Nat × Maybe Value) =>
      (⟨k.1, k.2, ⟨m.elementLayout value nullable, x.2⟩⟩ : Entry Value)) c.keys
        ((dict.entries.map (·.slot.content)).zipIdx.map fun p => (p.2, p.1)) = dict.entries := by
    apply List.ext_getElem?
    intro i
    rw [keys, Dict.keys, List.getElem?_zipWith, List.getElem?_map, List.getElem?_map,
      List.getElem?_zipIdx, List.getElem?_map]
    cases he : dict.entries[i]? with
    | none => rfl
    | some e =>
      have layout := (h.layouts e (List.mem_of_getElem? he)).trans h.layout_eq
      simp [← layout]
  rw [Cell.value?.eq_def, Cell.parts, h.shape]
  dsimp only
  rw [map_zipIdx_eq length, entries, Dict.ofList_entries]
  have texts := shaped.nodup_texts h.shape
  rw [keys, Dict.keys, List.map_map] at texts
  exact texts

end FillsMap

/-! ## Structs -/

/-- A cell fills the fields of a struct, none of which is in the slot that is open. -/
structure FillsStruct (m : Model) (a : Arena) (c : Cell) (fields : List (Field TypeId))
    (repr : StructRepr) (opened : Option Nat) (slots : List (Slot Value)) : Prop where
  shape : c.shape = .struct
  body : m.schema.body c.type = .struct fields repr
  length : slots.length = fields.length
  layouts : ∀ {i s}, slots[i]? = some s → s.layout = m.fieldLayout c.type i
  fills : Fills m a c opened (slots.map (·.content))
  unfilled : ∀ {i}, opened = some i → ∃ s, slots[i]? = some s ∧ s.isAbsent = true

namespace FillsStruct

variable {fields : List (Field TypeId)} {repr : StructRepr} {slots : List (Slot Value)}

theorem keep (h : FillsStruct m a c fields repr opened slots) (keeps : Keeps m a a')
    (hc' : a'.cells[κ]? = some c') (ext : c.Extends c' at?)
    (free : ∀ i, at? = some i → opened = some i) :
    FillsStruct m a' c' fields repr opened slots where
  shape := ext.shape.trans h.shape
  body := ext.type ▸ h.body
  length := h.length
  layouts := ext.type ▸ h.layouts
  fills := h.fills.keep keeps hc' ext fun i he => .inl (free i he)
  unfilled := h.unfilled

theorem references_eq (h : FillsStruct m a c fields repr opened slots) :
    m.schema.references c.type = fields.map (·.type) :=
  congrArg Body.references h.body

theorem slots_length (h : FillsStruct m a c fields repr opened slots) (shaped : c.Shaped m) :
    c.slots.length = slots.length := by
  rw [Cell.Shaped, h.shape] at shaped
  rw [shaped, h.references_eq, List.length_map, h.length]

theorem slotType?_eq {i : Nat} {f : Field TypeId}
    (h : FillsStruct m a c fields repr opened slots) (hf : fields[i]? = some f) :
    (m.schema.references c.type)[i]? = some f.type ∧ c.slotType? m i = some f.type := by
  have reference : (m.schema.references c.type)[i]? = some f.type := by
    rw [h.references_eq, List.getElem?_map, hf]
    rfl
  refine ⟨reference, ?_⟩
  rw [Cell.slotType?, h.shape]
  exact reference

theorem exists_draft {i : Nat} {f : Field TypeId} (h : FillsStruct m a c fields repr none slots)
    (shaped : c.Shaped m) (hf : fields[i]? = some f) :
    ∃ s d, slots[i]? = some s ∧ c.slots[i]? = some d ∧ d.isAbsent = s.isAbsent := by
  have inside : i < slots.length := h.length.symm ▸ (List.getElem?_eq_some_iff.mp hf).1
  have hs := List.getElem?_eq_getElem inside
  have hd := List.getElem?_eq_getElem (h.slots_length shaped ▸ inside : i < c.slots.length)
  exact ⟨_, _, hs, hd, h.fills.isAbsent_eq (by rw [List.getElem?_map, hs]; rfl) hd⟩

theorem opening {i : Nat} {s : Slot Value} (h : FillsStruct m a c fields repr none slots)
    (hs : slots[i]? = some s) (absent : s.isAbsent = true) :
    FillsStruct m a c fields repr (some i) slots where
  shape := h.shape
  body := h.body
  length := h.length
  layouts := h.layouts
  fills i content hi _ := h.fills i content hi nofun
  unfilled he := by
    obtain rfl := Option.some.inj he
    exact ⟨s, hs, absent⟩

/-- **The slot that is open is filled.** -/
theorem fill {i : Nat} {d : Draft} {type : TypeId} {given : Option Value}
    (h : FillsStruct m a c fields repr (some i) slots) (hd : c.slots[i]? = some d)
    (ht : c.slotType? m i = some type) (held : Holds m a type d (.given given)) :
    FillsStruct m a c fields repr none (fillSlot slots i given) where
  shape := h.shape
  body := h.body
  length := by rw [fillSlot, List.length_modify, h.length]
  layouts := by
    intro j s hs
    rw [fillSlot, List.getElem?_modify] at hs
    obtain ⟨s', hs', rfl⟩ := Option.map_eq_some_iff.mp hs
    have layout := h.layouts hs'
    split <;> exact layout
  fills := by
    have contents : (fillSlot slots i given).map (·.content) =
        (slots.map (·.content)).set i (.given given) := by
      apply List.ext_getElem?
      intro j
      rw [fillSlot, List.getElem?_map, List.getElem?_modify, List.getElem?_set, List.length_map,
        List.getElem?_map]
      by_cases same : i = j
      · subst same
        by_cases inside : i < slots.length
        · simp [inside]
        · simp [inside]
      · simp [same]
    rw [contents]
    exact h.fills.set hd ht held
  unfilled := nofun

theorem missing_eq {ds : List Draft} (same : ds.map Draft.isAbsent = slots.map Slot.isAbsent) :
    ((fields.zip ds).find? fun (f, d) => !f.optional && d.isAbsent).map (·.1) =
      missing? fields slots := by
  rw [missing?]
  induction fields generalizing ds slots with
  | nil => rfl
  | cons f fields ih =>
    cases ds with
    | nil =>
      obtain rfl : slots = [] := List.map_eq_nil_iff.mp same.symm
      rfl
    | cons d ds =>
      cases slots with
      | nil => cases same
      | cons s slots =>
        rw [List.map_cons, List.map_cons, List.cons.injEq] at same
        rw [List.zip_cons_cons, List.zip_cons_cons, List.find?_cons, List.find?_cons]
        dsimp only
        rw [same.1]
        cases !f.optional && s.isAbsent with
        | true => rfl
        | false => exact ih same.2

theorem checkFilled_eq (h : FillsStruct m a c fields repr none slots) (shaped : c.Shaped m) :
    c.checkFilled m =
      match missing? fields slots with
      | some f => .error (.optionality (.requiredFieldMissing (m.schema.nameOf c.type) f.name))
      | none => .ok () := by
  have same : c.slots.map Draft.isAbsent = slots.map Slot.isAbsent := by
    rw [h.fills.map_isAbsent_eq (by rw [h.slots_length shaped, List.length_map]), List.map_map]
    rfl
  rw [Cell.checkFilled, h.body, ← missing_eq same]
  dsimp only
  cases (fields.zip c.slots).find? fun (f, d) => !f.optional && d.isAbsent <;> rfl

/-- **A finished struct holds its fields.** -/
theorem holds (h : FillsStruct m a c fields repr none slots) (hc : a.cells[κ]? = some c)
    (finished : c.finished = true) (shaped : c.Shaped m) (type : TypeId) :
    Holds m a type (.cell κ) (.value (.struct slots)) := by
  have length : c.slots.length = (slots.map (·.content)).length := by
    rw [h.slots_length shaped, List.length_map]
  refine h.fills.holds_cell hc finished length ?_ type
  rw [Cell.value?.eq_def, Cell.parts, h.shape]
  dsimp only
  rw [map_zipIdx_eq length, List.map_map, Option.some_inj, Value.struct.injEq]
  apply List.ext_getElem?
  intro i
  rw [List.getElem?_map, List.getElem?_zipIdx, List.getElem?_map]
  cases hs : slots[i]? with
  | none => rfl
  | some s => simp [← h.layouts hs]

end FillsStruct

/-! ## Unions -/

def memberContent (present : Option (Nat × Value)) (i : Nat) : Maybe Value :=
  match present with
  | some (j, v) => if i = j then .value v else .absent
  | none => .absent

def memberContents (count : Nat) (present : Option (Nat × Value)) : List (Maybe Value) :=
  (List.range count).map (memberContent present)

theorem getElem?_memberContents {count i : Nat} (inside : i < count)
    (present : Option (Nat × Value)) :
    (memberContents count present)[i]? = some (memberContent present i) := by
  rw [memberContents, List.getElem?_map, List.getElem?_range inside]
  rfl

theorem memberContent_isAbsent_iff {present : Option (Nat × Value)} {i : Nat} :
    (memberContent present i).isAbsent = true ↔ ∀ v, present ≠ some (i, v) := by
  cases present with
  | none => simp [memberContent, Maybe.isAbsent]
  | some p =>
    obtain ⟨j, v⟩ := p
    by_cases same : i = j
    · simp [memberContent, same, Maybe.isAbsent]
    · simp [memberContent, same, Maybe.isAbsent, Ne.symm same]

/-- A cell fills the member of a union; while a slot is open, no member is present. -/
structure FillsUnion (m : Model) (a : Arena) (c : Cell) (members : List TypeId)
    (repr : UnionRepr) (opened : Option Nat) (present : Option (Nat × Value)) : Prop where
  shape : c.shape = .union
  body : m.schema.body c.type = .union members repr
  fills : Fills m a c opened (memberContents members.length present)
  inside : ∀ {i v}, present = some (i, v) → i < members.length
  unfilled : ∀ {i}, opened = some i → present = none ∧ i < members.length

namespace FillsUnion

variable {members : List TypeId} {repr : UnionRepr} {present : Option (Nat × Value)}

theorem keep (h : FillsUnion m a c members repr opened present) (keeps : Keeps m a a')
    (hc' : a'.cells[κ]? = some c') (ext : c.Extends c' at?)
    (free : ∀ i, at? = some i → opened = some i) :
    FillsUnion m a' c' members repr opened present where
  shape := ext.shape.trans h.shape
  body := ext.type ▸ h.body
  fills := h.fills.keep keeps hc' ext fun i he => .inl (free i he)
  inside := h.inside
  unfilled := h.unfilled

theorem references_eq (h : FillsUnion m a c members repr opened present) :
    m.schema.references c.type = members :=
  congrArg Body.references h.body

theorem slots_length (h : FillsUnion m a c members repr opened present) (shaped : c.Shaped m) :
    c.slots.length = (memberContents members.length present).length := by
  rw [Cell.Shaped, h.shape] at shaped
  rw [shaped, h.references_eq, memberContents, List.length_map, List.length_range]

theorem slotType?_eq {i : Nat} {member : TypeId}
    (h : FillsUnion m a c members repr opened present) (hm : members[i]? = some member) :
    (m.schema.references c.type)[i]? = some member ∧ c.slotType? m i = some member := by
  have reference : (m.schema.references c.type)[i]? = some member := by
    rw [h.references_eq, hm]
  refine ⟨reference, ?_⟩
  rw [Cell.slotType?, h.shape]
  exact reference

theorem opening {i : Nat} {member : TypeId} (h : FillsUnion m a c members repr none none)
    (hm : members[i]? = some member) : FillsUnion m a c members repr (some i) none where
  shape := h.shape
  body := h.body
  fills i content hi _ := h.fills i content hi nofun
  inside := nofun
  unfilled he := by
    obtain rfl := Option.some.inj he
    exact ⟨rfl, (List.getElem?_eq_some_iff.mp hm).1⟩

/-- **The slot that is open is filled.** -/
theorem fill {i : Nat} {d : Draft} {type : TypeId} {v : Value}
    (h : FillsUnion m a c members repr (some i) present) (hd : c.slots[i]? = some d)
    (ht : c.slotType? m i = some type) (held : Holds m a type d (.value v)) :
    FillsUnion m a c members repr none (some (i, v)) where
  shape := h.shape
  body := h.body
  fills := by
    obtain ⟨rfl, inside⟩ := h.unfilled rfl
    have contents : memberContents members.length (some (i, v)) =
        (memberContents members.length none).set i (.value v) := by
      apply List.ext_getElem?
      intro j
      rw [List.getElem?_set]
      by_cases same : i = j
      · subst same
        simp [memberContents, memberContent, inside]
      · by_cases hj : j < members.length
        · simp [memberContents, memberContent, hj, same, Ne.symm same]
        · simp [memberContents, hj, same]
    rw [contents]
    exact h.fills.set hd ht held
  inside he := by
    cases he
    exact (h.unfilled rfl).2
  unfilled := nofun

theorem isAbsent_iff {i : Nat} {d : Draft} (h : FillsUnion m a c members repr none present)
    (shaped : c.Shaped m) (hd : c.slots[i]? = some d) :
    d.isAbsent = true ↔ ∀ v, present ≠ some (i, v) := by
  have inside := (List.getElem?_eq_some_iff.mp hd).1
  rw [h.slots_length shaped, memberContents, List.length_map, List.length_range] at inside
  rw [h.fills.isAbsent_eq (getElem?_memberContents inside present) hd]
  exact memberContent_isAbsent_iff

theorem all_isAbsent_iff (h : FillsUnion m a c members repr none present) (shaped : c.Shaped m) :
    c.slots.all Draft.isAbsent = true ↔ present = none := by
  rw [List.all_eq_true]
  constructor
  · intro all
    cases hp : present with
    | none => rfl
    | some p =>
      obtain ⟨i, v⟩ := p
      have inside := h.inside hp
      have bound := h.slots_length shaped
      rw [memberContents, List.length_map, List.length_range] at bound
      have hd := List.getElem?_eq_getElem (bound ▸ inside : i < c.slots.length)
      have absent := all _ (List.mem_of_getElem? hd)
      exact absurd hp ((h.isAbsent_iff shaped hd).mp absent v)
  · rintro rfl d mem
    obtain ⟨i, hd⟩ := List.mem_iff_getElem?.mp mem
    exact (h.isAbsent_iff shaped hd).mpr nofun

theorem checkFilled_eq (h : FillsUnion m a c members repr none present) (shaped : c.Shaped m) :
    c.checkFilled m =
      match present with
      | some _ => .ok ()
      | none => .error (.assembly (.emptyUnion (m.schema.nameOf c.type))) := by
  have all := h.all_isAbsent_iff shaped
  rw [Cell.checkFilled, h.body]
  dsimp only
  cases present with
  | none => rw [if_pos (all.mpr rfl)]
  | some p => rw [if_neg fun ha => nomatch all.mp ha]

/-- **A finished union holds the member that is present.** -/
theorem holds {i : Nat} {v : Value} (h : FillsUnion m a c members repr none (some (i, v)))
    (hc : a.cells[κ]? = some c) (finished : c.finished = true) (shaped : c.Shaped m)
    (type : TypeId) : Holds m a type (.cell κ) (.value (.union i v)) := by
  have length := h.slots_length shaped
  have inside := h.inside rfl
  have bound : i < c.slots.length := by
    rw [length, memberContents, List.length_map, List.length_range]
    exact inside
  have parts : c.parts = [(c.slots[i], i)] := by
    rw [Cell.parts, h.shape]
    dsimp only
    generalize found : c.slots.zipIdx.find? _ = given
    cases given with
    | none =>
      have absent := List.find?_eq_none.mp found (c.slots[i], i)
        (List.mem_zipIdx_iff_getElem?.mpr (List.getElem?_eq_getElem bound))
      rw [Bool.not_eq_true, Bool.not_eq_false'] at absent
      exact absurd rfl ((h.isAbsent_iff shaped (List.getElem?_eq_getElem bound)).mp absent v)
    | some p =>
      obtain ⟨d, j⟩ := p
      have hd := List.mem_zipIdx_iff_getElem?.mp (List.mem_of_find?_eq_some found)
      have present : d.isAbsent = false := by simpa using List.find?_some found
      have same : i = j := by
        by_contra ne
        have absent := (h.isAbsent_iff shaped hd).mpr fun w he => ne (by cases he; rfl)
        exact Bool.false_ne_true (present.symm.trans absent)
      subst same
      rw [List.getElem?_eq_getElem bound] at hd
      cases hd
      rfl
  refine h.fills.holds_cell hc finished length ?_ type
  rw [parts, Cell.value?.eq_def, h.shape, List.map_singleton, getElem?_memberContents inside]
  simp [memberContent]

end FillsUnion

end Arena

end DualView
