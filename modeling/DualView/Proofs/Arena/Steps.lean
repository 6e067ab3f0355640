import DualView.Proofs.Arena.Frames

/-!
# Steps over an arena

A step over an arena *agrees* with an outcome (`Arena.Agrees`) if it fails with the same error, or
succeeds and what it gives goes with what the outcome gives.  While an arena is under construction
it is sound and the cells that can be called are unfinished (`Arena.Running`); a step leaves it so,
also when it fails.

* `Arena.Agrees.bind`, `Arena.Agrees.after`: steps that agree one after the other.
* `Arena.StoresMap.settles?`, `Arena.StoresList.settles?`: a cell settles if the frame that it
  stores has nothing at hand.
* `Arena.openField_agrees`, `Arena.openMember_agrees`, `Arena.openEntry_agrees`: what a key opens.
-/

namespace DualView

namespace Arena

variable {m : Model} {a a' a'' : Arena} {κ owner : CellId} {c c' o : Cell} {p : Place}

/-! ## Agreement -/

section Agrees

variable {α β γ δ : Type} {E : Arena → Prop} {R : α → β → Arena → Prop}
  {S : γ → δ → Arena → Prop} {x : Step α} {y : Except NodeError β}

/-- A step fails where an outcome is an error, and succeeds with something that goes with the
outcome where it is not. -/
inductive Agrees (E : Arena → Prop) (R : α → β → Arena → Prop) (x : Step α) (a : Arena) :
    Except NodeError β → Prop
  | ok {v : α} {w : β} {a' : Arena} (run : Runs x a (.ok v) a') (h : R v w a') :
    Agrees E R x a (.ok w)
  | error {e : NodeError} {a' : Arena} (run : Runs x a (.error e) a') (h : E a') :
    Agrees E R x a (.error e)

theorem Agrees.bind (h : Agrees E R x a y) {f : α → Step γ} {g : β → Except NodeError δ}
    (next : ∀ v w a', R v w a' → Agrees E S (f v) a' (g w)) : Agrees E S (x >>= f) a (y >>= g) := by
  cases h with
  | error run h => exact .error run.bind_error h
  | @ok v w a' run h =>
    have later := next v w a' h
    show Agrees E S _ a (g w)
    generalize g w = z at later ⊢
    cases later with
    | error run' h' => exact .error (run.bind run') h'
    | ok run' h' => exact .ok (run.bind run') h'

/-- A step that succeeds goes before what agrees. -/
theorem Agrees.after {v : α} {f : α → Step γ} {z : Except NodeError δ} (run : Runs x a (.ok v) a')
    (h : Agrees E S (f v) a' z) : Agrees E S (x >>= f) a z := by
  cases h with
  | error run' h => exact .error (run.bind run') h
  | ok run' h => exact .ok (run.bind run') h

theorem Agrees.mono {S : α → β → Arena → Prop} (h : Agrees E R x a y)
    (right : ∀ v w a', R v w a' → S v w a') : Agrees E S x a y := by
  cases h with
  | error run h => exact .error run h
  | ok run h => exact .ok run (right _ _ _ h)

theorem Agrees.map_right {T : α → δ → Arena → Prop} (h : Agrees E R x a y) (g : β → δ)
    (next : ∀ v w a', R v w a' → T v (g w) a') :
    Agrees E T x a (y >>= fun w => pure (g w)) := by
  cases h with
  | error run h => exact .error run h
  | ok run h => exact .ok run (next _ _ _ h)

theorem Agrees.of_unchanged (h : Agrees (· = a) R x a y) (left : E a) : Agrees E R x a y := by
  cases h with
  | error run same => exact .error run (same ▸ left)
  | ok run h => exact .ok run h

end Agrees

/-! ## Construction under way -/

/-- An arena is sound, and the compounds that can be called are unfinished. -/
structure Running (m : Model) (live : List CellId) (a : Arena) : Prop where
  sound : a.Sound m
  underway : ∀ id ∈ live, ∃ c : Cell, a.cells[id]? = some c ∧ c.finished = false

theorem store_store (a : Arena) (κ : CellId) (c c' : Cell) :
    (a.store κ c).store κ c' = a.store κ c' := by
  rw [store, store, store, List.set_set]

theorem store_self (hc : a.cells[κ]? = some c) : a.store κ c = a := by
  obtain ⟨inside, rfl⟩ := List.getElem?_eq_some_iff.mp hc
  rw [store, List.set_getElem_self]

theorem complete?_of_cell {d : Draft} {id : CellId} (h : d.cell? = some id) :
    a.complete? d = a.cells[id]?.map (·.finished) := by
  induction d with
  | absent | null | ready v => exact nomatch h
  | cell id' =>
    cases h
    rfl
  | member i inner ih => exact ih h

/-- No pair fills the struct in a cell. -/
def Free (a : Arena) (κ : CellId) : Prop :=
  ∀ (id : CellId) (d : Cell) (i : Nat), a.cells[id]? = some d → d.phase ≠ .pairSlot κ i

theorem Sound.free_of_phase (h : a.Sound m) (hc : a.cells[κ]? = some c) (phase : c.phase ≠ .pair) :
    Free a κ := fun _ _ _ hd => h.not_pairSlot hc (fun he => absurd he phase) hd

/-- No pair fills a struct that is settled, since the pair would have to be finished. -/
theorem Sound.free_of_settles (h : a.Sound m) (hc : a.cells[κ]? = some c)
    (settled : a.settles? c = some true) : Free a κ := by
  intro id d i hd phase
  obtain ⟨o, ho, owns⟩ := h.pairSlot hd phase
  obtain rfl := Option.some.inj (hc.symm.trans ho)
  rw [settles?, owns.phase] at settled
  dsimp only at settled
  rw [complete?_of_cell owns.pending, hd] at settled
  cases (h.settled hd (Option.some.inj settled)).symm.trans phase

/-- An unfinished cell that no pair fills may change if it refers to nothing new, and its phase
names a slot of its own. -/
theorem Running.change {live : List CellId} (h : Running m live a) (hc : a.cells[κ]? = some c)
    (free : Free a κ) (unfinished : c.finished = false) (unfinished' : c'.finished = false)
    (refers : ∀ s id, c'.RefersTo s id → c.RefersTo s id) (shaped : c.Shaped m → c'.Shaped m)
    (slot : ∀ i, c'.phase = .slot i → i < c'.slots.length)
    (pairSlot : ∀ owner i, c'.phase ≠ .pairSlot owner i) : Running m live (a.store κ c') where
  sound := h.sound.store (n := none) hc {
    refers := fun hs => .inl (refers _ _ hs)
    fresh := nofun
    shaped := shaped
    finished := fun finished => nomatch unfinished.symm.trans finished
    settled := fun finished => nomatch unfinished'.symm.trans finished
    slot := slot _
    pairSlot := fun phase => absurd phase (pairSlot _ _)
    owned := fun hd phase => absurd phase (free _ _ _ hd) }
  underway := by
    intro id mem
    rw [getElem?_store hc]
    split
    · exact ⟨c', rfl, unfinished'⟩
    · exact h.underway id mem

/-! ## Settling -/

section Settling

variable {f : MapFrame} {g : ListFrame}

/-- **A map frame is idle exactly if its cell is settled.** -/
theorem StoresMap.settles? (h : StoresMap m a f c) (hc : a.cells[κ]? = some c)
    (quiet : Quiet m a κ (.map f) c) : a.settles? c = some (Frame.map f).isIdle := by
  obtain ⟨type, view, member, content, phase⟩ := f
  obtain ⟨same, unfinished, -, fills, inPhase⟩ := h
  have waiting {i : Nat} {w : Opening} (hp : c.phase = .slot i)
      (waits : Waits m κ c (.map ⟨type, view, member, content, phase⟩) (.inside κ (.slot i)) w) :
      a.settles? c = some false := by
    obtain ⟨d, hd, incomplete⟩ := quiet.incomplete waits
    rw [draftAt?_inside hc] at hd
    exact settles?_slot hp hd incomplete
  have keying (hp : c.phase = .key) : a.settles? c = some false := by
    rw [Arena.settles?, hp]
  cases phase with
  | idle => exact quiet.settles rfl
  | key =>
    cases content with
    | entries key value nullable layout dict => exact keying inPhase.2
    | fields fields repr slots => exact keying inPhase
    | choice members repr present => exact keying inPhase
  | keyed k =>
    cases content with
    | entries key value nullable layout dict => exact keying inPhase.2.1
    | fields fields repr slots => exact keying inPhase.1
    | choice members repr present => exact keying inPhase.1
  | entry k text =>
    cases content with
    | entries key value nullable layout dict => exact waiting inPhase.2 (.entry .typed)
    | fields fields repr slots => exact absurd inPhase id
    | choice members repr present => exact absurd inPhase id
  | slot i =>
    cases content with
    | entries key value nullable layout dict => exact absurd inPhase id
    | fields fields repr slots =>
      obtain ⟨s, hs, -⟩ := fills.unfilled rfl
      have inside : i < fields.length := fills.length ▸ (List.getElem?_eq_some_iff.mp hs).1
      have typed := (fills.slotType?_eq (List.getElem?_eq_getElem inside)).2
      exact waiting inPhase (.field .typed true typed)
    | choice members repr present =>
      have inside := (fills.unfilled rfl).2
      have typed := (fills.slotType?_eq (List.getElem?_eq_getElem inside)).2
      exact waiting inPhase (.member .typed typed)

/-- **A list frame has nothing at hand exactly if its cell is settled**, if it is not a pair. -/
theorem StoresList.settles? (h : StoresList m a g c) (hc : a.cells[κ]? = some c)
    (single : ∀ owner, c.shape ≠ .pair owner) (quiet : Quiet m a κ (.list g) c) :
    a.settles? c = some (!g.busy) := by
  obtain ⟨type, view, member, content, busy⟩ := g
  obtain ⟨same, unfinished, fills⟩ := h
  have waiting {i : Nat} {w : Opening} (hp : c.phase = .slot i)
      (waits : Waits m κ c (.list ⟨type, view, member, content, busy⟩) (.inside κ (.slot i)) w) :
      a.settles? c = some false := by
    obtain ⟨d, hd, incomplete⟩ := quiet.incomplete waits
    rw [draftAt?_inside hc] at hd
    exact settles?_slot hp hd incomplete
  cases content with
  | items elem nullable layout slots =>
    cases busy with
    | false => exact quiet.settles rfl
    | true => exact waiting fills.2.2 (.item .typed)
  | tuple fields slots next =>
    cases busy with
    | false => exact quiet.settles rfl
    | true =>
      obtain ⟨-, fills, -, phase⟩ := fills
      obtain ⟨s, hs, -⟩ := fills.unfilled rfl
      have inside : next < fields.length := fills.length ▸ (List.getElem?_eq_some_iff.mp hs).1
      have typed := (fills.slotType?_eq (List.getElem?_eq_getElem inside)).2
      exact waiting phase (.tuple .typed true typed)
  | pairs keys fields slots =>
    cases busy with
    | false => exact quiet.settles rfl
    | true =>
      obtain ⟨d, hd, incomplete⟩ := quiet.incomplete (.pair .typed)
      rw [draftAt?_inside hc] at hd
      cases hd
      rw [Arena.settles?, fills.2.2.2]
      exact incomplete
  | pair keys fields slots stage =>
    obtain ⟨-, owner, shape, -⟩ := fills
    exact absurd shape (single owner)

theorem runs_settle (hc : a.cells[κ]? = some c) (settled : a.settles? c = some true) :
    Runs (settle m κ) a (.ok ()) (a.store κ { c with phase := .settled }) := by
  refine (runs_cell hc).bind ((runs_get a).bind ((runs_need settled a).bind ?_))
  rw [if_pos rfl]
  exact runs_update hc _

theorem runs_settle_error (hc : a.cells[κ]? = some c) (settled : a.settles? c = some false) :
    Runs (settle m κ) a (.error (.assembly (.incompleteValue (m.schema.nameOf c.type)))) a := by
  refine (runs_cell hc).bind ((runs_get a).bind ((runs_need settled a).bind ?_))
  rw [if_neg Bool.false_ne_true]
  exact runs_throw _ a

theorem runs_checkOpen (hc : a.cells[κ]? = some c) (unfinished : c.finished = false) :
    Runs (checkOpen m κ) a (.ok ()) a := by
  refine (runs_cell hc).bind ?_
  rw [unfinished]
  exact runs_pure _ a

theorem runs_checkOpen_error (hc : a.cells[κ]? = some c) (finished : c.finished = true) :
    Runs (checkOpen m κ) a
      (.error (.assembly (.assemblerFinalized (m.schema.nameOf c.type)))) a := by
  refine (runs_cell hc).bind ?_
  rw [finished]
  exact runs_throw _ a

end Settling

/-! ## What keys open -/

section Keys

structure OpensSlot (m : Model) (a : Arena) (κ : CellId) (c : Cell) (r : Place × PlaceSpec)
    (w : Nat × Opening) (a' : Arena) : Prop where
  place : r.1 = .inside κ (.slot w.1)
  absent : c.draftAt? (.slot w.1) = some .absent
  typed : ∃ target view nullable, c.slotType? m w.1 = some target ∧
    r.2 = ⟨.value target, view, nullable⟩ ∧ w.2 = ⟨.value target, view, nullable⟩
  arena_eq : a' = a.store κ { c with phase := .slot w.1 }

theorem eq_absent_of_isAbsent {d : Draft} (h : d.isAbsent = true) : d = .absent := by
  cases d <;> first | rfl | contradiction

/-- **A key opens the same field in an arena as in a frame.** -/
theorem openField_agrees {fields : List (Field TypeId)} {repr : StructRepr}
    {slots : List (Slot Value)} (hc : a.cells[κ]? = some c) (shaped : c.Shaped m)
    (fills : FillsStruct m a c fields repr none slots) (view : View) (key : String) :
    Agrees (· = a)
      (fun r w a' => OpensSlot m a κ c r w a' ∧ ∃ s, slots[w.1]? = some s ∧ s.isAbsent = true)
      (openNamed m κ key view) a
      (m.schema.openField c.type view (repr.keysIn view) fields slots key) := by
  refine Agrees.after (runs_cell hc) ?_
  rw [fills.body, Schema.openField]
  dsimp only
  cases found : ((repr.keysIn view).nameOf? key).bind (Field.index? fields) with
  | none => exact .error (runs_throw _ a) rfl
  | some i =>
    obtain ⟨f, hf⟩ := Field.Found.exists found
    obtain ⟨s, d, hs, hd, absent⟩ := fills.exists_draft shaped hf
    obtain ⟨reference, typed⟩ := fills.slotType?_eq hf
    refine Agrees.after (runs_need hf a) (Agrees.after (runs_need hd a) ?_)
    dsimp only
    rw [hf, hs]
    dsimp only
    rw [absent]
    by_cases unfilled : s.isAbsent = true
    · rw [if_pos unfilled, if_pos unfilled]
      refine .ok ((runs_need reference a).bind ((runs_update hc _).bind (runs_pure _ _)))
        ⟨?_, s, hs, unfilled⟩
      exact ⟨rfl, hd.trans (congrArg some (eq_absent_of_isAbsent (absent.trans unfilled))),
        ⟨f.type, view, f.nullable, typed, rfl, rfl⟩, rfl⟩
    · rw [if_neg unfilled, if_neg unfilled]
      exact .error (runs_throw _ a) rfl

theorem openMember_eq (s : Schema) (type : TypeId) (view : View) (members : List TypeId)
    (repr : UnionRepr) (present : Option (Nat × Value)) (key : String) :
    s.openMember type view members repr present key =
      match (repr.memberIn? view key).bind fun name =>
        members.findIdx? (s.nameOf · == name) with
      | none => .error (s.unrecognized type key)
      | some i =>
        match members[i]?, present with
        | some member, none => .ok (i, ⟨.value member, view, false⟩)
        | some _, some _ => .error (.assembly (.unionMemberAlreadySet (s.nameOf type)))
        | none, _ => .error (s.unrecognized type key) := rfl

/-- **A key opens the same member in an arena as in a frame.** -/
theorem openMember_agrees {members : List TypeId} {repr : UnionRepr}
    {present : Option (Nat × Value)} (hc : a.cells[κ]? = some c) (shaped : c.Shaped m)
    (fills : FillsUnion m a c members repr none present) (view : View) (key : String) :
    Agrees (· = a)
      (fun r w a' => OpensSlot m a κ c r w a' ∧ w.2.nullable = false ∧ present = none ∧
        w.1 < members.length)
      (openNamed m κ key view) a
      (m.schema.openMember c.type view members repr present key) := by
  refine Agrees.after (runs_cell hc) ?_
  rw [fills.body, openMember_eq]
  dsimp only
  cases found : (repr.memberIn? view key).bind fun name =>
      members.findIdx? (m.schema.nameOf · == name) with
  | none => exact .error (runs_throw _ a) rfl
  | some i =>
    obtain ⟨name, -, hi⟩ := Option.bind_eq_some_iff.mp found
    have inside := (List.findIdx?_eq_some_iff_getElem.mp hi).1
    have hm := List.getElem?_eq_getElem inside
    obtain ⟨reference, typed⟩ := fills.slotType?_eq hm
    have all := fills.all_isAbsent_iff shaped
    dsimp only
    rw [hm]
    cases present with
    | some p =>
      rw [if_neg fun ha => nomatch all.mp ha]
      exact .error (runs_throw _ a) rfl
    | none =>
      rw [if_pos (all.mpr rfl)]
      obtain ⟨d, hd⟩ : ∃ d, c.slots[i]? = some d := by
        refine ⟨_, List.getElem?_eq_getElem (?_ : i < c.slots.length)⟩
        rw [fills.slots_length shaped, memberContents, List.length_map, List.length_range]
        exact inside
      have absent := eq_absent_of_isAbsent
        (List.all_eq_true.mp (all.mpr rfl) d (List.mem_of_getElem? hd))
      refine .ok ((runs_need reference a).bind ((runs_update hc _).bind (runs_pure _ _)))
        ⟨⟨rfl, hd.trans (congrArg some absent), ?_, rfl⟩, rfl, rfl, inside⟩
      exact ⟨_, view, false, typed, rfl, rfl⟩

end Keys

/-! ## Entries of maps -/

section Entries

variable {live : List CellId} {f : MapFrame} {view : View}

theorem shaped_withEntry {key value : TypeId} {nullable : Bool} (shaped : c.Shaped m)
    (shape : c.shape = .map key value nullable) {text : String} (k : Value)
    (new : (c.index.get? text).isSome = false) : (c.withEntry k text).Shaped m := by
  have length := shaped.keys_length shape
  rw [Cell.Shaped, Cell.withEntry, Cell.withItem, shape]
  refine ⟨by rw [List.length_append, List.length_append, length]; rfl, fun text' i => ?_⟩
  by_cases same : text' = text
  · subst same
    rw [Table.get?_set_self, ← length]
    constructor
    · intro hi
      cases hi
      rw [List.getElem?_concat_length]
      rfl
    · intro hi
      obtain ⟨k', hk, rfl⟩ := Option.map_eq_some_iff.mp hi
      by_cases before : i < c.keys.length
      · rw [List.getElem?_append_left before] at hk
        have found : c.index.get? k'.2 = some i :=
          (shaped.get?_iff shape).mpr (congrArg (Option.map (·.2)) hk)
        rw [found] at new
        cases new
      · have bound := (List.getElem?_eq_some_iff.mp hk).1
        rw [List.length_append, List.length_singleton] at bound
        exact congrArg some (by omega)
  · rw [Table.get?_set_of_ne _ _ same, shaped.get?_iff shape]
    by_cases before : i < c.keys.length
    · rw [List.getElem?_append_left before]
    · rw [List.getElem?_eq_none (Nat.le_of_not_lt before)]
      constructor
      · intro hi
        cases hi
      · intro hi
        obtain ⟨k', hk, he⟩ := Option.map_eq_some_iff.mp hi
        have mem := List.mem_of_getElem?
          ((List.getElem?_append_right (Nat.le_of_not_lt before)) ▸ hk)
        rw [List.mem_singleton.mp mem] at he
        exact absurd he.symm same

/-- **A key opens the same entry in an arena as in a frame.** -/
theorem openEntry_agrees {keyType valueType : TypeId} {nullable : Bool} {layout : Layout}
    {dict : Dict Value} {k : Value} (hc : a.cells[κ]? = some c) (shaped : c.Shaped m)
    (same : c.type = f.type) (fills : FillsMap m a c keyType valueType nullable layout dict)
    (keys : c.keys = dict.keys) :
    Agrees (· = a)
      (fun r w a' => ∃ text, (c.index.get? text).isSome = false ∧
        w = ({ f with phase := .entry k text }, ⟨.value valueType, f.view, nullable⟩) ∧
        r = (.inside κ (.slot dict.size), ⟨.value valueType, f.view, nullable⟩) ∧
        c.slots.length = dict.size ∧ a' = a.store κ (c.withEntry k text))
      (openEntry m κ k f.view) a (f.openEntry m keyType valueType nullable dict k) := by
  have size : c.slots.length = dict.size := by
    rw [← shaped.keys_length fills.shape, keys, Dict.keys, List.length_map]
    rfl
  have contains (text : String) : dict.contains text = (c.index.get? text).isSome := by
    rw [Bool.eq_iff_iff, shaped.isSome_get?_iff fills.shape, keys, Dict.keys, List.map_map,
      ← Bool.not_eq_false, MapFrame.contains_eq_false_iff, not_not]
    rfl
  refine Agrees.after (runs_cell hc) ?_
  rw [fills.shape, MapFrame.openEntry]
  dsimp only
  refine Agrees.bind (R := fun v w a' => v = w ∧ a' = a) ?_ ?_
  · cases m.keyText keyType k with
    | error e => exact .error (runs_give _ a) rfl
    | ok text => exact .ok (runs_give _ a) ⟨rfl, rfl⟩
  · rintro text _ _ ⟨rfl, rfl⟩
    rw [contains, same]
    by_cases taken : (c.index.get? text).isSome = true
    · rw [if_pos taken, if_pos taken]
      exact .error (runs_throw _ _) rfl
    · rw [if_neg taken, if_neg taken]
      refine .ok ((runs_update hc _).bind (runs_pure _ _))
        ⟨text, Bool.eq_false_iff.mpr taken, rfl, ?_, size, rfl⟩
      rw [size]

end Entries

end Arena

end DualView
