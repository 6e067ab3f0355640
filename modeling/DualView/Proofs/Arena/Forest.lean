import DualView.Assembly.Arena

/-!
# Arenas are forests

A place *refers* to the cell of the draft that it holds.  In an arena that is *sound* these
references make a forest: they lead to cells that exist, from a cell only to later ones, and to no
cell twice.  Cells have the slots that their types ask for, phases name slots that exist, and what
was emptied is finished and referred to no more.

That references lead to later cells is what makes freezing end; that they lead to no cell twice is
what keeps freezing from emptying a cell that something else still needs.

* `Arena.Forest.of_refersTo`: one reference more, to a loose cell, keeps the forest.
* `Arena.Sound.store`, `Arena.Sound.append`, `Arena.Sound.setRoot`: the ways to change an arena keep
  it sound.
* `Arena.Spares`: what a step leaves of the cells that it is not about.
-/

namespace DualView

/-! ## Cells -/

namespace Cell

variable {m : Model} {c : Cell} {s : Spot} {id : CellId}

def RefersTo (c : Cell) (s : Spot) (id : CellId) : Prop :=
  (c.draftAt? s).bind Draft.cell? = some id

/-- There are slots for all parts of the type, and in a map a key for each slot, which is found by
its text. -/
def Shaped (m : Model) (c : Cell) : Prop :=
  match c.shape with
  | .struct | .union => c.slots.length = (m.schema.references c.type).length
  | .map _ _ _ => c.keys.length = c.slots.length ∧
      ∀ text i, c.index.get? text = some i ↔ (c.keys[i]?).map (·.2) = some text
  | .list _ _ | .pair _ => True

/-- The struct is being filled by the pair in a cell, which has opened a slot of it. -/
structure Owns (c : Cell) (pair : CellId) (i : Nat) : Prop where
  unfinished : c.finished = false
  phase : c.phase = .pair
  pending : c.pendingKey.cell? = some pair
  slot : i < c.slots.length

theorem not_refersTo_begin {type : TypeId} {shape : CellShape} :
    ¬ (begin m type shape).RefersTo s id := by
  intro h
  cases s with
  | key => exact nomatch h
  | slot i =>
    cases shape with
    | struct | union =>
      obtain ⟨d, hd, hi⟩ := Option.bind_eq_some_iff.mp h
      have absent := List.eq_of_mem_replicate (List.mem_of_getElem? hd)
      rw [absent] at hi
      exact nomatch hi
    | list elem nullable | map key value nullable | pair owner => exact nomatch h

theorem shaped_begin {type : TypeId} {shape : CellShape} : (begin m type shape).Shaped m := by
  cases shape with
  | struct | union => exact List.length_replicate
  | map key value nullable =>
    refine ⟨rfl, fun text i => ?_⟩
    simp [begin, Table.get?, Table.empty]
  | list elem nullable | pair owner => trivial

end Cell

namespace Arena

variable {m : Model} {a a' : Arena} {p q : Place} {s : Spot} {id κ : CellId} {c c' : Cell}

/-! ## References -/

def RefersTo (a : Arena) (p : Place) (id : CellId) : Prop :=
  (a.draftAt? p).bind Draft.cell? = some id

theorem refersTo_inside_iff :
    a.RefersTo (.inside κ s) id ↔ ∃ c, a.cells[κ]? = some c ∧ c.RefersTo s id := by
  rw [RefersTo, draftAt?]
  cases a.cells[κ]? with
  | none => simp
  | some c => simp [Cell.RefersTo]

theorem refersTo_of_cell (hc : a.cells[κ]? = some c) :
    a.RefersTo (.inside κ s) id ↔ c.RefersTo s id := by
  rw [RefersTo, draftAt?, hc]
  rfl

/-- References lead to cells that exist, from a cell only to later ones, and to no cell twice. -/
structure Forest (a : Arena) : Prop where
  inside : ∀ {p id}, a.RefersTo p id → id < a.cells.length
  later : ∀ {κ s id}, a.RefersTo (.inside κ s) id → κ < id
  once : ∀ {p q id}, a.RefersTo p id → a.RefersTo q id → p = q

/-- A cell that is not emptied and that nothing refers to. -/
structure Loose (a : Arena) (id : CellId) : Prop where
  exists_cell : id < a.cells.length
  not_frozen : id ∉ a.frozen
  unreferred : ∀ p, ¬ a.RefersTo p id

def Precedes : Place → CellId → Prop
  | .root, _ => True
  | .inside κ _, id => κ < id

/-- **One reference more, to a loose cell, keeps the forest.** -/
theorem Forest.of_refersTo (h : a.Forest) {n : Option CellId}
    (length : a.cells.length ≤ a'.cells.length)
    (fresh : ∀ id, n = some id → a.Loose id ∧ Precedes q id)
    (refers : ∀ p id, a'.RefersTo p id → a.RefersTo p id ∨ p = q ∧ n = some id) :
    a'.Forest where
  inside := by
    intro p id hp
    rcases refers p id hp with old | ⟨-, he⟩
    · exact Nat.lt_of_lt_of_le (h.inside old) length
    · exact Nat.lt_of_lt_of_le (fresh id he).1.exists_cell length
  later := by
    intro κ s id hp
    rcases refers _ id hp with old | ⟨hq, he⟩
    · exact h.later old
    · have precedes := (fresh id he).2
      rw [← hq] at precedes
      exact precedes
  once := by
    intro p p' id hp hp'
    rcases refers p id hp with old | ⟨hq, he⟩
    · rcases refers p' id hp' with old' | ⟨-, he'⟩
      · exact h.once old old'
      · exact absurd old ((fresh id he').1.unreferred p)
    · rcases refers p' id hp' with old' | ⟨hq', -⟩
      · exact absurd old' ((fresh id he).1.unreferred p')
      · exact hq.trans hq'.symm

/-- With no reference more the forest is kept too. -/
theorem Forest.of_subset (h : a.Forest) (length : a.cells.length ≤ a'.cells.length)
    (refers : ∀ p id, a'.RefersTo p id → a.RefersTo p id) : a'.Forest :=
  h.of_refersTo (q := .root) (n := none) length nofun fun p id hp => .inl (refers p id hp)

/-! ## Soundness -/

/-- The references make a forest, cells have their slots, phases name slots that exist, and what was
emptied is finished and referred to no more. -/
structure Sound (m : Model) (a : Arena) : Prop where
  forest : a.Forest
  shaped : ∀ {id : CellId} {c : Cell}, a.cells[id]? = some c → id ∉ a.frozen → c.Shaped m
  settled : ∀ {id : CellId} {c : Cell},
    a.cells[id]? = some c → c.finished = true → c.phase = .settled
  slot : ∀ {id : CellId} {c : Cell} {i : Nat},
    a.cells[id]? = some c → c.phase = .slot i → i < c.slots.length
  pairSlot : ∀ {id owner : CellId} {c : Cell} {i : Nat},
    a.cells[id]? = some c → c.phase = .pairSlot owner i →
    ∃ o : Cell, a.cells[owner]? = some o ∧ o.Owns id i
  frozen_nodup : a.frozen.Nodup
  frozen_finished : ∀ {id : CellId}, id ∈ a.frozen →
    ∃ c : Cell, a.cells[id]? = some c ∧ c.finished = true
  not_frozen : ∀ {p id}, a.RefersTo p id → id ∉ a.frozen

theorem not_refersTo_empty : ¬ empty.RefersTo p id := by
  intro h
  cases p with
  | root => exact nomatch h
  | inside κ s => exact nomatch h

theorem sound_empty : empty.Sound m where
  forest := ⟨fun h => absurd h not_refersTo_empty, fun h => absurd h not_refersTo_empty,
    fun h => absurd h not_refersTo_empty⟩
  shaped := nofun
  settled := nofun
  slot := nofun
  pairSlot := nofun
  frozen_nodup := List.nodup_nil
  frozen_finished := nofun
  not_frozen := nofun

theorem Sound.not_frozen_of_unfinished (h : a.Sound m) (hc : a.cells[κ]? = some c)
    (unfinished : c.finished = false) : κ ∉ a.frozen := by
  intro mem
  obtain ⟨c', hc', finished⟩ := h.frozen_finished mem
  obtain rfl := Option.some.inj (hc.symm.trans hc')
  exact nomatch unfinished.symm.trans finished

/-- No pair fills a struct whose pending key it is not. -/
theorem Sound.not_pairSlot (h : a.Sound m) (hc : a.cells[κ]? = some c)
    (apart : c.phase = .pair → c.pendingKey.cell? ≠ some id) {i : Nat}
    (hc' : a.cells[id]? = some c') : c'.phase ≠ .pairSlot κ i := by
  intro hp
  obtain ⟨o, ho, owns⟩ := h.pairSlot hc' hp
  obtain rfl := Option.some.inj (hc.symm.trans ho)
  exact apart owns.phase owns.pending

/-! ### Storing a cell -/

section Store

theorem getElem?_store (hc : a.cells[κ]? = some c) (c' : Cell) (id : CellId) :
    (a.store κ c').cells[id]? = if id = κ then some c' else a.cells[id]? := by
  have inside := (List.getElem?_eq_some_iff.mp hc).1
  by_cases he : id = κ
  · subst he
    rw [if_pos rfl]
    exact List.getElem?_set_self inside
  · rw [if_neg he]
    exact List.getElem?_set_ne (Ne.symm he)

theorem getElem?_store_self (hc : a.cells[κ]? = some c) (c' : Cell) :
    (a.store κ c').cells[κ]? = some c' := by
  rw [getElem?_store hc, if_pos rfl]

theorem getElem?_store_of_ne {c' : Cell} (ne : id ≠ κ) :
    (a.store κ c').cells[id]? = a.cells[id]? := List.getElem?_set_ne ne.symm

@[simp] theorem length_store {c' : Cell} : (a.store κ c').cells.length = a.cells.length :=
  List.length_set

theorem refersTo_store_iff (hc : a.cells[κ]? = some c) :
    (a.store κ c').RefersTo p id ↔
      (∃ s, p = .inside κ s ∧ c'.RefersTo s id) ∨
        (∀ s, p ≠ .inside κ s) ∧ a.RefersTo p id := by
  cases p with
  | root => exact ⟨fun h => .inr ⟨nofun, h⟩, fun h => h.elim (fun ⟨_, e, _⟩ => nomatch e) And.right⟩
  | inside κ' s =>
    by_cases he : κ' = κ
    · subst he
      rw [refersTo_of_cell (getElem?_store_self hc c')]
      constructor
      · intro h
        exact .inl ⟨s, rfl, h⟩
      · rintro (⟨s', e, h⟩ | ⟨ne, -⟩)
        · cases e
          exact h
        · exact absurd rfl (ne s)
    · rw [refersTo_inside_iff, refersTo_inside_iff, getElem?_store_of_ne he]
      constructor
      · intro h
        refine .inr ⟨fun s' e => ?_, h⟩
        cases e
        exact he rfl
      · rintro (⟨s', e, -⟩ | ⟨-, h⟩)
        · cases e
          exact absurd rfl he
        · exact h

/-- A cell may become another one: it refers to one loose cell more at most, keeps its shape, and
is not taken from a pair that fills it. -/
structure Becomes (m : Model) (a : Arena) (κ : CellId) (c c' : Cell)
    (new : Option (Spot × CellId)) : Prop where
  refers : ∀ {s id}, c'.RefersTo s id → c.RefersTo s id ∨ new = some (s, id)
  fresh : ∀ {s id}, new = some (s, id) → a.Loose id ∧ κ < id
  shaped : c.Shaped m → c'.Shaped m
  finished : c.finished = true → c'.finished = true
  settled : c'.finished = true → c'.phase = .settled
  slot : ∀ {i}, c'.phase = .slot i → i < c'.slots.length
  pairSlot : ∀ {owner i}, c'.phase = .pairSlot owner i →
    owner ≠ κ ∧ ∃ o : Cell, a.cells[owner]? = some o ∧ o.Owns κ i
  owned : ∀ {id : CellId} {d : Cell} {i : Nat},
    a.cells[id]? = some d → d.phase = .pairSlot κ i → c'.Owns id i

/-- **A cell that becomes another one keeps the arena sound.** -/
theorem Sound.store {n : Option (Spot × CellId)} (h : a.Sound m) (hc : a.cells[κ]? = some c)
    (becomes : Becomes m a κ c c' n) : (a.store κ c').Sound m where
  forest := by
    refine h.forest.of_refersTo (n := n.map (·.2))
      (q := (n.map fun new => Place.inside κ new.1).getD .root) (Nat.le_of_eq length_store.symm)
      ?_ ?_
    · intro id he
      obtain ⟨⟨s, id'⟩, rfl, rfl⟩ := Option.map_eq_some_iff.mp he
      exact becomes.fresh rfl
    · intro p id hp
      rcases (refersTo_store_iff hc).mp hp with ⟨s, rfl, hs⟩ | ⟨-, old⟩
      · rcases becomes.refers hs with old | rfl
        · exact .inl ((refersTo_of_cell hc).mpr old)
        · exact .inr ⟨rfl, rfl⟩
      · exact .inl old
  shaped := by
    intro id d hd unfrozen
    rw [getElem?_store hc] at hd
    split at hd
    · rename_i he
      subst he
      cases hd
      exact becomes.shaped (h.shaped hc unfrozen)
    · exact h.shaped hd unfrozen
  settled := by
    intro id d hd
    rw [getElem?_store hc] at hd
    split at hd
    · cases hd
      exact becomes.settled
    · exact h.settled hd
  slot := by
    intro id d i hd
    rw [getElem?_store hc] at hd
    split at hd
    · cases hd
      exact becomes.slot
    · exact h.slot hd
  pairSlot := by
    intro id owner d i hd hp
    rw [getElem?_store hc] at hd ⊢
    split at hd
    · rename_i he
      cases hd
      subst he
      obtain ⟨ne, ho⟩ := becomes.pairSlot hp
      rw [if_neg ne]
      exact ho
    · by_cases he : owner = κ
      · subst he
        exact ⟨c', if_pos rfl, becomes.owned hd hp⟩
      · rw [if_neg he]
        exact h.pairSlot hd hp
  frozen_nodup := h.frozen_nodup
  frozen_finished := by
    intro id mem
    obtain ⟨d, hd, finished⟩ := h.frozen_finished mem
    rw [getElem?_store hc]
    split
    · rename_i he
      subst he
      obtain rfl := Option.some.inj (hc.symm.trans hd)
      exact ⟨c', rfl, becomes.finished finished⟩
    · exact ⟨d, hd, finished⟩
  not_frozen := by
    intro p id hp
    rcases (refersTo_store_iff hc).mp hp with ⟨s, -, hs⟩ | ⟨-, old⟩
    · rcases becomes.refers hs with old | new
      · exact h.not_frozen ((refersTo_of_cell hc).mpr old)
      · exact (becomes.fresh new).1.not_frozen
    · exact h.not_frozen old

end Store

/-! ### A new cell -/

/-- An arena with one cell more. -/
def append (a : Arena) (c : Cell) : Arena := { a with cells := a.cells ++ [c] }

theorem getElem?_append (hc : a.cells[id]? = some c) (c' : Cell) :
    (a.append c').cells[id]? = some c := by
  rw [← hc]
  exact List.getElem?_append_left (List.getElem?_eq_some_iff.mp hc).1

theorem getElem?_append_length (a : Arena) (c : Cell) :
    (a.append c).cells[a.cells.length]? = some c := List.getElem?_concat_length

theorem getElem?_append_cases (hc : (a.append c').cells[id]? = some c) :
    a.cells[id]? = some c ∨ id = a.cells.length ∧ c = c' := by
  by_cases inside : id < a.cells.length
  · exact .inl ((List.getElem?_append_left inside).symm.trans hc)
  · have last := List.mem_singleton.mp
      (List.mem_of_getElem? ((List.getElem?_append_right (Nat.le_of_not_lt inside)).symm.trans hc))
    have bound := (List.getElem?_eq_some_iff.mp hc).1
    rw [append, List.length_append, List.length_singleton] at bound
    exact .inr ⟨Nat.le_antisymm (Nat.le_of_lt_succ bound) (Nat.le_of_not_lt inside), last⟩

theorem refersTo_append_begin {type : TypeId} {shape : CellShape}
    (h : (a.append (.begin m type shape)).RefersTo p id) : a.RefersTo p id := by
  cases p with
  | root => exact h
  | inside κ s =>
    obtain ⟨c, hc, hs⟩ := refersTo_inside_iff.mp h
    rcases getElem?_append_cases hc with old | ⟨-, rfl⟩
    · exact refersTo_inside_iff.mpr ⟨c, old, hs⟩
    · exact absurd hs Cell.not_refersTo_begin

/-- **A new cell keeps the arena sound.** -/
theorem Sound.append (h : a.Sound m) (type : TypeId) (shape : CellShape) :
    (a.append (.begin m type shape)).Sound m where
  forest := h.forest.of_subset (by simp [Arena.append]) fun _ _ => refersTo_append_begin
  shaped := by
    intro id c hc unfrozen
    rcases getElem?_append_cases hc with old | ⟨-, rfl⟩
    · exact h.shaped old unfrozen
    · exact Cell.shaped_begin
  settled := by
    intro id c hc finished
    rcases getElem?_append_cases hc with old | ⟨-, rfl⟩
    · exact h.settled old finished
    · rfl
  slot := by
    intro id c i hc hp
    rcases getElem?_append_cases hc with old | ⟨-, rfl⟩
    · exact h.slot old hp
    · exact nomatch hp
  pairSlot := by
    intro id owner c i hc hp
    rcases getElem?_append_cases hc with old | ⟨-, rfl⟩
    · obtain ⟨o, ho, owns⟩ := h.pairSlot old hp
      exact ⟨o, getElem?_append ho _, owns⟩
    · exact nomatch hp
  frozen_nodup := h.frozen_nodup
  frozen_finished := by
    intro id mem
    obtain ⟨c, hc, finished⟩ := h.frozen_finished mem
    exact ⟨c, getElem?_append hc _, finished⟩
  not_frozen hp := h.not_frozen (refersTo_append_begin hp)

theorem Sound.loose_append (h : a.Sound m) (type : TypeId) (shape : CellShape) :
    (a.append (.begin m type shape)).Loose a.cells.length where
  exists_cell := by simp [Arena.append]
  not_frozen mem := by
    obtain ⟨c, hc, -⟩ := h.frozen_finished mem
    exact Nat.lt_irrefl _ (List.getElem?_eq_some_iff.mp hc).1
  unreferred _ hp := Nat.lt_irrefl _ (h.forest.inside (refersTo_append_begin hp))

/-- When the one reference to a cell is taken away, the cell is loose. -/
theorem Sound.loose_of_taken (h : a.Sound m) (hp : a.RefersTo p id)
    (length : a'.cells.length = a.cells.length) (frozen : a'.frozen = a.frozen)
    (taken : ∀ q, a'.RefersTo q id → a.RefersTo q id ∧ q ≠ p) : a'.Loose id where
  exists_cell := length ▸ h.forest.inside hp
  not_frozen := frozen ▸ h.not_frozen hp
  unreferred q hq := (taken q hq).2 (h.forest.once (taken q hq).1 hp)

/-! ### The root -/

theorem Sound.setStage (h : a.Sound m) (stage : Stage) : { a with stage := stage }.Sound m where
  forest := ⟨h.forest.inside, h.forest.later, h.forest.once⟩
  shaped := h.shaped
  settled := h.settled
  slot := h.slot
  pairSlot := h.pairSlot
  frozen_nodup := h.frozen_nodup
  frozen_finished := h.frozen_finished
  not_frozen := h.not_frozen

/-- **A root that refers to nothing, or to a loose cell, keeps the arena sound.** -/
theorem Sound.setRoot (h : a.Sound m) {d : Draft} (fresh : ∀ id, d.cell? = some id → a.Loose id) :
    { a with root := d }.Sound m := by
  have refers : ∀ p id, { a with root := d }.RefersTo p id →
      a.RefersTo p id ∨ p = .root ∧ d.cell? = some id := by
    intro p id hp
    cases p with
    | root => exact .inr ⟨rfl, hp⟩
    | inside κ s => exact .inl hp
  exact {
    forest := h.forest.of_refersTo (q := .root) (Nat.le_refl _)
      (fun id he => ⟨fresh id he, trivial⟩) refers
    shaped := h.shaped
    settled := h.settled
    slot := h.slot
    pairSlot := h.pairSlot
    frozen_nodup := h.frozen_nodup
    frozen_finished := h.frozen_finished
    not_frozen := by
      intro p id hp
      rcases refers p id hp with old | ⟨-, he⟩
      · exact h.not_frozen old
      · exact (fresh id he).not_frozen }

/-! ## What a step spares -/

/-- A step changes cells of a list only, and only unfinished ones of them; apart from that it may
empty finished cells. -/
structure Spares (touched : List CellId) (a a' : Arena) : Prop where
  frozen : ∀ {id}, id ∈ a.frozen → id ∈ a'.frozen
  kept : ∀ {id : CellId} {c : Cell}, a.cells[id]? = some c → c.finished = true ∨ id ∉ touched →
    a'.cells[id]? = some c ∨ c.finished = true ∧ id ∈ a'.frozen
  length : a.cells.length ≤ a'.cells.length

namespace Spares

variable {touched : List CellId} {a'' : Arena}

theorem refl (touched : List CellId) (a : Arena) : Spares touched a a where
  frozen := id
  kept hc _ := .inl hc
  length := Nat.le_refl _

theorem trans (first : Spares touched a a') (second : Spares touched a' a'') :
    Spares touched a a'' where
  frozen mem := second.frozen (first.frozen mem)
  kept hc apart := by
    rcases first.kept hc apart with hc' | ⟨finished, mem⟩
    · exact second.kept hc' apart
    · exact .inr ⟨finished, second.frozen mem⟩
  length := Nat.le_trans first.length second.length

theorem mono {more : List CellId} (h : Spares touched a a') (le : touched ⊆ more) :
    Spares more a a' where
  frozen := h.frozen
  kept hc apart := h.kept hc (apart.imp_right fun h mem => h (le mem))
  length := h.length

theorem of_unfinished (h : Spares touched a a') (hc : a.cells[id]? = some c)
    (unfinished : c.finished = false) (apart : id ∉ touched) : a'.cells[id]? = some c := by
  rcases h.kept hc (.inr apart) with hc' | ⟨finished, -⟩
  · exact hc'
  · exact nomatch unfinished.symm.trans finished

theorem store (hc : a.cells[κ]? = some c) (unfinished : c.finished = false) :
    Spares [κ] a (a.store κ c') where
  frozen := id
  kept := by
    intro id d hd apart
    refine .inl ?_
    rw [getElem?_store hc]
    split
    · rename_i he
      subst he
      obtain rfl := Option.some.inj (hc.symm.trans hd)
      rcases apart with finished | apart
      · exact nomatch unfinished.symm.trans finished
      · exact absurd (List.mem_singleton_self _) apart
    · exact hd
  length := Nat.le_of_eq length_store.symm

theorem append (touched : List CellId) (a : Arena) (c : Cell) : Spares touched a (a.append c) where
  frozen := id
  kept hc _ := .inl (getElem?_append hc c)
  length := by simp [Arena.append]

theorem of_cells_eq (touched : List CellId) (cells : a'.cells = a.cells)
    (frozen : a'.frozen = a.frozen) : Spares touched a a' where
  frozen mem := frozen ▸ mem
  kept hc _ := .inl (cells ▸ hc)
  length := Nat.le_of_eq (congrArg List.length cells.symm)

end Spares

end Arena

end DualView
