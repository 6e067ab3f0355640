import DualView.Proofs.Arena.Forest
import Mathlib.Data.List.Nodup

/-!
# Freezing

`Arena.Runs` says what a step does, and has a lemma for each way of making a step.  A draft *holds*
a content (`Arena.Holds`) if it can be frozen to it: the cells below it are finished, and their
parts hold the contents that make up their values.

Freezing a draft that holds a content gives that content and empties the cells below the draft
(`Arena.Froze`), each once.  The induction is on what the draft holds, with the arena left open:
the drafts of a cell are frozen one after the other, and since no cell is referred to twice, what
the first ones empty is not below the others.

* `Arena.Holds.keep`: a draft holds what it held, as long as something refers to its cell.
* `Arena.Froze.sound`: an arena stays sound when the cells below a loose draft are emptied.
* `Arena.Holds.freeze`: freezing ends, with the content that is held.
-/

namespace DualView

/-! ## Parts -/

namespace Cell

variable {c : Cell} {p : Draft × Nat}

theorem mem_zipIdx_of_mem_parts (h : p ∈ c.parts) : p ∈ c.slots.zipIdx := by
  rw [parts] at h
  split at h
  · exact h
  · exact h
  · exact h
  · exact List.mem_of_find?_eq_some (Option.mem_toList.mp h)
  · exact absurd h List.not_mem_nil

theorem getElem?_of_mem_parts (h : p ∈ c.parts) : c.slots[p.2]? = some p.1 :=
  List.mem_zipIdx_iff_getElem?.mp (mem_zipIdx_of_mem_parts h)

theorem pairwise_parts (c : Cell) : c.parts.Pairwise fun p q => p.2 ≠ q.2 := by
  have positions : c.slots.zipIdx.Pairwise fun p q => p.2 ≠ q.2 := by
    have nodup : (c.slots.zipIdx.map (·.2)).Nodup := by
      rw [List.zipIdx_map_snd]
      exact List.nodup_range'
    exact List.pairwise_map.mp nodup
  rw [parts]
  split
  · exact positions
  · exact positions
  · exact positions
  · generalize c.slots.zipIdx.find? _ = given
    cases given with
    | none => exact .nil
    | some p => exact List.pairwise_singleton _ _
  · exact .nil

end Cell

namespace Arena

variable {m : Model} {a a' a'' : Arena} {p : Place} {id κ : CellId} {c : Cell}

/-! ## What a step does -/

section Runs

variable {α β : Type} {x : Step α} {f : α → Step β} {v : α} {r : Except NodeError β} {e : NodeError}

/-- A step ends, with an outcome and an arena. -/
def Runs (x : Step α) (a : Arena) (r : Except NodeError α) (a' : Arena) : Prop :=
  x a = some (r, a')

theorem Runs.bind (h : Runs x a (.ok v) a') (next : Runs (f v) a' r a'') :
    Runs (x >>= f) a r a'' := by
  show (x a).bind _ = _
  rw [h]
  exact next

theorem Runs.bind_eq (h : Runs x a (.ok v) a') : (x >>= f) a = f v a' := by
  show (x a).bind _ = _
  rw [h]
  rfl

theorem Runs.bind_error (h : Runs x a (.error e) a') : Runs (x >>= f) a (.error e) a' := by
  show (x a).bind _ = _
  rw [h]
  rfl

theorem runs_pure (v : α) (a : Arena) : Runs (pure v) a (.ok v) a := rfl

theorem runs_throw (e : NodeError) (a : Arena) : Runs (throw e : Step α) a (.error e) a := rfl

theorem runs_get (a : Arena) : Runs get a (.ok a) a := rfl

theorem runs_modify (g : Arena → Arena) (a : Arena) : Runs (modify g) a (.ok ()) (g a) := rfl

theorem runs_give (r : Except NodeError α) (a : Arena) : Runs (give r) a r a := rfl

theorem runs_need {found : Option α} (h : found = some v) (a : Arena) :
    Runs (need found) a (.ok v) a := by
  subst h
  rfl

theorem runs_cell (hc : a.cells[id]? = some c) : Runs (cell id) a (.ok c) a :=
  (runs_get a).bind (runs_need hc a)

theorem runs_update (hc : a.cells[id]? = some c) (change : Cell → Cell) :
    Runs (update id change) a (.ok ()) (a.store id (change c)) :=
  (runs_cell hc).bind (runs_modify _ a)

theorem runs_takeCell (hc : a.cells[id]? = some c) : Runs (takeCell id) a (.ok c)
    { a.store id c.emptied with frozen := id :: a.frozen } :=
  (runs_cell hc).bind ((runs_update hc _).bind ((runs_modify _ _).bind (runs_pure c _)))

theorem runs_mapM_nil (f : α → Step β) (a : Arena) : Runs ([].mapM f) a (.ok []) a := by
  rw [List.mapM_nil]
  exact runs_pure _ a

theorem Runs.mapM_cons {l : List α} {w : β} {ws : List β} (head : Runs (f v) a (.ok w) a')
    (tail : Runs (l.mapM f) a' (.ok ws) a'') : Runs ((v :: l).mapM f) a (.ok (w :: ws)) a'' := by
  rw [List.mapM_cons]
  exact head.bind (tail.bind (runs_pure _ _))

end Runs

/-! ## What a draft holds -/

/-- A draft can be frozen to a content. -/
inductive Holds (m : Model) (a : Arena) : TypeId → Draft → Maybe Value → Prop
  | absent (type : TypeId) : Holds m a type .absent .absent
  | null (type : TypeId) : Holds m a type .null .null
  | ready (type : TypeId) (v : Value) : Holds m a type (.ready v) (.value v)
  | member {type target : TypeId} {i : Nat} {inner : Draft} {v : Value}
      (reference : (m.schema.references type)[i]? = some target)
      (held : Holds m a target inner (.value v)) :
      Holds m a type (.member i inner) (.value (.union i v))
  | cell {id : CellId} {c : Cell} {v : Value} (type : TypeId) (types : Nat → TypeId)
      (contents : Nat → Maybe Value) (hc : a.cells[id]? = some c) (finished : c.finished = true)
      (typed : ∀ p ∈ c.parts, c.slotType? m p.2 = some (types p.2))
      (held : ∀ p ∈ c.parts, Holds m a (types p.2) p.1 (contents p.2))
      (value : c.value? m (c.parts.map fun p => (p.2, contents p.2)) = some v) :
      Holds m a type (.cell id) (.value v)

namespace Holds

variable {type : TypeId} {d : Draft} {content : Maybe Value}

theorem complete?_eq (h : Holds m a type d content) :
    a.complete? d = some (!content.isAbsent) := by
  induction h with
  | absent | null | ready => rfl
  | member _ _ ih => exact ih
  | cell _ _ _ hc finished => simp [complete?, hc, finished, Maybe.isAbsent]

theorem isAbsent_eq (h : Holds m a type d content) : d.isAbsent = content.isAbsent := by
  cases h <;> rfl

/-- **A draft holds what it held, as long as something refers to its cell.** -/
theorem keep {touched : List CellId} (h : Holds m a type d content) (spares : Spares touched a a')
    (sound : a'.Sound m) (referred : ∀ id, d.cell? = some id → ∃ p, a'.RefersTo p id) :
    Holds m a' type d content := by
  induction h with
  | absent type => exact .absent type
  | null type => exact .null type
  | ready type v => exact .ready type v
  | member reference _ ih => exact .member reference (ih referred)
  | @cell id c v type types contents hc finished typed held value ih =>
    obtain ⟨p, hp⟩ := referred id rfl
    have hc' : a'.cells[id]? = some c := by
      rcases spares.kept hc (.inl finished) with hc' | ⟨-, frozen⟩
      · exact hc'
      · exact absurd frozen (sound.not_frozen hp)
    refine .cell type types contents hc' finished typed (fun part mem => ?_) value
    refine ih part mem fun id' he => ⟨.inside id (.slot part.2), ?_⟩
    refine (refersTo_of_cell hc').mpr ?_
    rw [Cell.RefersTo, Cell.draftAt?, Cell.getElem?_of_mem_parts mem]
    exact he

end Holds

/-! ## What freezing empties -/

/-- The cells `emptied` are emptied: finished ones, each of them one of `roots` or referred to from
another of them. -/
structure Froze (roots emptied : List CellId) (a a' : Arena) : Prop where
  root : a'.root = a.root
  stage : a'.stage = a.stage
  frozen : a'.frozen = emptied ++ a.frozen
  length : a'.cells.length = a.cells.length
  kept : ∀ {id : CellId}, id ∉ emptied → a'.cells[id]? = a.cells[id]?
  taken : ∀ {id : CellId}, id ∈ emptied → ∃ c : Cell, a.cells[id]? = some c ∧
    c.finished = true ∧ a'.cells[id]? = some c.emptied
  reached : ∀ {id : CellId}, id ∈ emptied → id ∈ roots ∨
    ∃ κ ∈ emptied, ∃ i, a.RefersTo (.inside κ (.slot i)) id
  nodup : emptied.Nodup
  apart : ∀ {id : CellId}, id ∈ emptied → id ∉ a.frozen

namespace Froze

variable {roots roots' emptied emptied' : List CellId}

theorem refl (a : Arena) : Froze [] [] a a where
  root := rfl
  stage := rfl
  frozen := rfl
  length := rfl
  kept _ := rfl
  taken := nofun
  reached := nofun
  nodup := List.nodup_nil
  apart := nofun

/-- Emptying adds no reference, and takes away those from the slots of what is emptied. -/
theorem refersTo (h : Froze roots emptied a a') (hp : a'.RefersTo p id) :
    a.RefersTo p id ∧ ∀ κ ∈ emptied, ∀ i, p ≠ .inside κ (.slot i) := by
  cases p with
  | root =>
    refine ⟨?_, nofun⟩
    rw [RefersTo, draftAt?, h.root] at hp
    exact hp
  | inside κ s =>
    obtain ⟨c', hc', hs⟩ := refersTo_inside_iff.mp hp
    by_cases mem : κ ∈ emptied
    · obtain ⟨c, hc, -, he⟩ := h.taken mem
      obtain rfl := Option.some.inj (hc'.symm.trans he)
      cases s with
      | key => exact ⟨(refersTo_of_cell hc).mpr hs, by simp⟩
      | slot i => cases hs
    · rw [h.kept mem] at hc'
      refine ⟨(refersTo_of_cell hc').mpr hs, fun κ' mem' i e => ?_⟩
      cases e
      exact mem mem'

theorem trans (first : Froze roots emptied a a') (second : Froze roots' emptied' a' a'') :
    Froze (roots ++ roots') (emptied' ++ emptied) a a'' where
  root := second.root.trans first.root
  stage := second.stage.trans first.stage
  frozen := by rw [second.frozen, first.frozen, List.append_assoc]
  length := second.length.trans first.length
  kept := by
    intro id mem
    rw [List.mem_append, not_or] at mem
    exact (second.kept mem.1).trans (first.kept mem.2)
  taken := by
    intro id mem
    rcases List.mem_append.mp mem with mem | mem
    · obtain ⟨c, hc, finished, he⟩ := second.taken mem
      have old : id ∉ emptied := fun old =>
        second.apart mem (first.frozen ▸ List.mem_append_left _ old)
      exact ⟨c, (first.kept old) ▸ hc, finished, he⟩
    · obtain ⟨c, hc, finished, he⟩ := first.taken mem
      have new : id ∉ emptied' := fun new =>
        second.apart new (first.frozen ▸ List.mem_append_left _ mem)
      exact ⟨c, hc, finished, (second.kept new).trans he⟩
  reached := by
    intro id mem
    rcases List.mem_append.mp mem with mem | mem
    · rcases second.reached mem with root | ⟨κ, hκ, i, hp⟩
      · exact .inl (List.mem_append_right _ root)
      · exact .inr ⟨κ, List.mem_append_left _ hκ, i, (first.refersTo hp).1⟩
    · rcases first.reached mem with root | ⟨κ, hκ, i, hp⟩
      · exact .inl (List.mem_append_left _ root)
      · exact .inr ⟨κ, List.mem_append_right _ hκ, i, hp⟩
  nodup := by
    refine List.nodup_append.mpr ⟨second.nodup, first.nodup, fun id new id' old he => ?_⟩
    subst he
    exact second.apart new (first.frozen ▸ List.mem_append_left _ old)
  apart := by
    intro id mem frozen
    rcases List.mem_append.mp mem with mem | mem
    · exact second.apart mem (first.frozen ▸ List.mem_append_right _ frozen)
    · exact first.apart mem frozen

/-- Roots that the emptied cells refer to need not be mentioned. -/
theorem of_reached (h : Froze roots emptied a a')
    (le : ∀ id ∈ roots, id ∈ roots' ∨ ∃ κ ∈ emptied, ∃ i, a.RefersTo (.inside κ (.slot i)) id) :
    Froze roots' emptied a a' where
  root := h.root
  stage := h.stage
  frozen := h.frozen
  length := h.length
  kept := h.kept
  taken := h.taken
  reached mem := (h.reached mem).elim (le _) .inr
  nodup := h.nodup
  apart := h.apart

theorem spares (h : Froze roots emptied a a') (touched : List CellId) : Spares touched a a' where
  frozen mem := h.frozen ▸ List.mem_append_right _ mem
  kept := by
    intro id c hc _
    by_cases mem : id ∈ emptied
    · obtain ⟨c', hc', finished, -⟩ := h.taken mem
      obtain rfl := Option.some.inj (hc.symm.trans hc')
      exact .inr ⟨finished, h.frozen ▸ List.mem_append_left _ mem⟩
    · exact .inl ((h.kept mem).trans hc)
  length := Nat.le_of_eq h.length.symm

theorem of_unfinished (h : Froze roots emptied a a') (hc : a.cells[id]? = some c)
    (unfinished : c.finished = false) : a'.cells[id]? = some c :=
  (h.spares []).of_unfinished hc unfinished List.not_mem_nil

theorem loose (h : Froze roots emptied a a') (hl : a.Loose id) (apart : id ∉ roots) :
    a'.Loose id where
  exists_cell := h.length ▸ hl.exists_cell
  not_frozen := by
    rw [h.frozen, List.mem_append, not_or]
    refine ⟨fun mem => ?_, hl.not_frozen⟩
    rcases h.reached mem with root | ⟨κ, -, i, hp⟩
    · exact apart root
    · exact hl.unreferred _ hp
  unreferred p hp := hl.unreferred p (h.refersTo hp).1

/-- **An arena stays sound when the cells below loose ones are emptied.** -/
theorem sound (h : Froze roots emptied a a') (sound : a.Sound m)
    (loose : ∀ id ∈ roots, a.Loose id) : a'.Sound m where
  forest := sound.forest.of_subset (Nat.le_of_eq h.length.symm) fun _ _ hp => (h.refersTo hp).1
  shaped := by
    intro id c hc unfrozen
    rw [h.frozen, List.mem_append, not_or] at unfrozen
    exact sound.shaped ((h.kept unfrozen.1) ▸ hc) unfrozen.2
  settled := by
    intro id c hc finished
    by_cases mem : id ∈ emptied
    · obtain ⟨c', hc', finished', he⟩ := h.taken mem
      obtain rfl := Option.some.inj (hc.symm.trans he)
      have settled := sound.settled hc' finished'
      exact settled
    · exact sound.settled ((h.kept mem) ▸ hc) finished
  slot := by
    intro id c i hc hp
    by_cases mem : id ∈ emptied
    · obtain ⟨c', hc', finished', he⟩ := h.taken mem
      obtain rfl := Option.some.inj (hc.symm.trans he)
      exact nomatch (sound.settled hc' finished').symm.trans hp
    · exact sound.slot ((h.kept mem) ▸ hc) hp
  pairSlot := by
    intro id owner c i hc hp
    by_cases mem : id ∈ emptied
    · obtain ⟨c', hc', finished', he⟩ := h.taken mem
      obtain rfl := Option.some.inj (hc.symm.trans he)
      exact nomatch (sound.settled hc' finished').symm.trans hp
    · obtain ⟨o, ho, owns⟩ := sound.pairSlot ((h.kept mem) ▸ hc) hp
      exact ⟨o, h.of_unfinished ho owns.unfinished, owns⟩
  frozen_nodup := by
    rw [h.frozen, List.nodup_append]
    refine ⟨h.nodup, sound.frozen_nodup, fun id mem id' frozen he => ?_⟩
    subst he
    exact h.apart mem frozen
  frozen_finished := by
    intro id frozen
    by_cases mem : id ∈ emptied
    · obtain ⟨c, -, finished, he⟩ := h.taken mem
      exact ⟨c.emptied, he, finished⟩
    · rw [h.frozen, List.mem_append] at frozen
      obtain ⟨c, hc, finished⟩ := sound.frozen_finished (frozen.resolve_left mem)
      exact ⟨c, (h.kept mem).trans hc, finished⟩
  not_frozen := by
    intro p id hp frozen
    obtain ⟨old, apart⟩ := h.refersTo hp
    rw [h.frozen, List.mem_append] at frozen
    rcases frozen with mem | frozen
    · rcases h.reached mem with root | ⟨κ, hκ, i, hp'⟩
      · exact (loose id root).unreferred p old
      · -- the one reference to the cell came from a slot that is emptied too
        exact apart κ hκ i (sound.forest.once old hp')
    · exact sound.not_frozen old frozen

theorem one (hc : a.cells[id]? = some c) (finished : c.finished = true) (apart : id ∉ a.frozen) :
    Froze [id] [id] a { a.store id c.emptied with frozen := id :: a.frozen } where
  root := rfl
  stage := rfl
  frozen := rfl
  length := length_store
  kept mem := getElem?_store_of_ne fun he => mem (he ▸ List.mem_singleton_self _)
  taken := by
    intro id' mem
    obtain rfl := List.mem_singleton.mp mem
    exact ⟨c, hc, finished, getElem?_store_self hc _⟩
  reached := .inl
  nodup := List.nodup_singleton id
  apart := by
    intro id' mem
    obtain rfl := List.mem_singleton.mp mem
    exact apart

end Froze

/-! ## Freezing -/

theorem refersTo_of_mem_parts {c : Cell} (hc : a.cells[id]? = some c) {p : Draft × Nat}
    (mem : p ∈ c.parts) {id' : CellId} (he : p.1.cell? = some id') :
    a.RefersTo (.inside id (.slot p.2)) id' := by
  refine (refersTo_of_cell hc).mpr ?_
  rw [Cell.RefersTo, Cell.draftAt?, Cell.getElem?_of_mem_parts mem]
  exact he

theorem Sound.parts_differ {c : Cell} (sound : a.Sound m) (hc : a.cells[id]? = some c) :
    c.parts.Pairwise fun p q => ∀ id', p.1.cell? = some id' → q.1.cell? ≠ some id' := by
  refine c.pairwise_parts.imp_of_mem fun {p q} hp hq ne id' he he' => ne ?_
  have same := sound.forest.once (refersTo_of_mem_parts hc hp he) (refersTo_of_mem_parts hc hq he')
  rw [Place.inside.injEq, Spot.slot.injEq] at same
  exact same.2

/-- Once a cell is emptied, nothing refers to the cells of its parts. -/
theorem Froze.loose_parts {c : Cell} (froze : Froze [id] [id] a a') (sound : a.Sound m)
    (hc : a.cells[id]? = some c) {p : Draft × Nat} (mem : p ∈ c.parts) {id' : CellId}
    (he : p.1.cell? = some id') : a'.Loose id' := by
  have hp := refersTo_of_mem_parts hc mem he
  have ne : id' ≠ id := Nat.ne_of_gt (sound.forest.later hp)
  refine ⟨froze.length ▸ sound.forest.inside hp, ?_, fun q hq => ?_⟩
  · rw [froze.frozen, List.mem_append, List.mem_singleton, not_or]
    exact ⟨ne, sound.not_frozen hp⟩
  · obtain ⟨old, apart⟩ := froze.refersTo hq
    exact apart id (List.mem_singleton_self id) p.2 (sound.forest.once old hp)

namespace Holds

def Freezes (m : Model) (a : Arena) (type : TypeId) (d : Draft) (content : Maybe Value) : Prop :=
  ∃ emptied a', Runs (d.freeze m type) a (.ok content) a' ∧ Froze d.cell?.toList emptied a a'

/-- The parts of a cell are frozen one after the other. -/
theorem freeze_parts {c : Cell} {types : Nat → TypeId} {contents : Nat → Maybe Value}
    {touched : List CellId} {before : Arena} (parts : List (Draft × Nat))
    (typed : ∀ p ∈ parts, c.slotType? m p.2 = some (types p.2))
    (freezes : ∀ p ∈ parts, ∀ a, a.Sound m → Spares touched before a →
      (∀ id, p.1.cell? = some id → a.Loose id) → Freezes m a (types p.2) p.1 (contents p.2))
    (differ : parts.Pairwise fun p q => ∀ id, p.1.cell? = some id → q.1.cell? ≠ some id)
    (sound : a.Sound m) (spares : Spares touched before a)
    (loose : ∀ p ∈ parts, ∀ id, p.1.cell? = some id → a.Loose id) :
    ∃ emptied a',
      Runs (parts.mapM fun (d, i) => do
        let type ← need (c.slotType? m i)
        return (i, ← d.freeze m type)) a (.ok (parts.map fun p => (p.2, contents p.2))) a' ∧
      Froze (parts.filterMap (·.1.cell?)) emptied a a' := by
  induction parts generalizing a with
  | nil => exact ⟨[], a, runs_mapM_nil _ a, .refl a⟩
  | cons part rest ih =>
    rw [List.forall_mem_cons] at typed freezes loose
    rw [List.pairwise_cons] at differ
    obtain ⟨emptied, a₁, run, froze⟩ := freezes.1 a sound spares loose.1
    have roots : ∀ id ∈ part.1.cell?.toList, a.Loose id := fun id mem =>
      loose.1 id (Option.mem_toList.mp mem)
    -- what the first part empties is not below the others
    have loose' : ∀ p ∈ rest, ∀ id, p.1.cell? = some id → a₁.Loose id := by
      intro p mem id he
      refine froze.loose (loose.2 p mem id he) fun root => ?_
      exact differ.1 p mem id (Option.mem_toList.mp root) he
    obtain ⟨emptied', a₂, run', froze'⟩ := ih typed.2 freezes.2 differ.2 (froze.sound sound roots)
      (spares.trans (froze.spares touched)) loose'
    refine ⟨emptied' ++ emptied, a₂, ?_, ?_⟩
    · exact Runs.mapM_cons ((runs_need typed.1 a).bind (run.bind (runs_pure _ a₁))) run'
    · refine (froze.trans froze').of_reached fun id mem => .inl ?_
      rw [List.filterMap_cons]
      cases he : part.1.cell? with
      | none =>
        rw [he] at mem
        exact mem
      | some id' =>
        rw [he] at mem
        exact mem

/-- **Freezing ends, with the content that is held.**  What was emptied since does not matter, as
long as nothing refers to the cell of the draft any more. -/
theorem freeze {touched : List CellId} {before : Arena} {type : TypeId} {d : Draft}
    {content : Maybe Value} (h : Holds m before type d content) (sound : a.Sound m)
    (spares : Spares touched before a)
    (loose : ∀ id, d.cell? = some id → a.Loose id) : Freezes m a type d content := by
  induction h generalizing a with
  | absent type =>
    refine ⟨[], a, ?_, .refl a⟩
    rw [Draft.freeze]
    exact runs_pure _ a
  | null type =>
    refine ⟨[], a, ?_, .refl a⟩
    rw [Draft.freeze]
    exact runs_pure _ a
  | ready type v =>
    refine ⟨[], a, ?_, .refl a⟩
    rw [Draft.freeze]
    exact runs_pure _ a
  | member reference _ ih =>
    obtain ⟨emptied, a', run, froze⟩ := ih sound spares loose
    refine ⟨emptied, a', ?_, froze⟩
    rw [Draft.freeze]
    exact (runs_need reference a).bind (run.bind (runs_pure _ a'))
  | @cell id c v type types contents hc finished typed _ value ih =>
    have root := loose id rfl
    have hc' : a.cells[id]? = some c := by
      rcases spares.kept hc (.inl finished) with hc' | ⟨-, frozen⟩
      · exact hc'
      · exact absurd frozen root.not_frozen
    have froze := Froze.one hc' finished root.not_frozen
    have sound₁ := froze.sound sound fun id' mem => (List.mem_singleton.mp mem) ▸ root
    obtain ⟨emptied, a', run, froze'⟩ := freeze_parts c.parts typed
      (fun p mem a sound spares loose => ih p mem sound spares loose) (sound.parts_differ hc')
      sound₁ (spares.trans (froze.spares touched)) fun p mem id' he =>
        froze.loose_parts sound hc' mem he
    refine ⟨emptied ++ [id], a', ?_, (froze.trans froze').of_reached ?_⟩
    · rw [Draft.freeze]
      refine (runs_takeCell hc').bind (run.bind ?_)
      rw [value]
      exact runs_pure _ a'
    · intro id' mem
      rcases List.mem_append.mp mem with mem | mem
      · exact .inl mem
      · obtain ⟨p, hp, he⟩ := List.mem_filterMap.mp mem
        exact .inr ⟨id, List.mem_append_right _ (List.mem_singleton_self id), p.2,
          refersTo_of_mem_parts hc' hp he⟩

theorem freezeValue {touched : List CellId} {before : Arena} {type : TypeId} {d : Draft} {v : Value}
    (h : Holds m before type d (.value v)) (sound : a.Sound m) (spares : Spares touched before a)
    (loose : ∀ id, d.cell? = some id → a.Loose id) :
    ∃ emptied a', Runs (freezeValue m type d) a (.ok v) a' ∧ Froze d.cell?.toList emptied a a' := by
  obtain ⟨emptied, a', run, froze⟩ := h.freeze sound spares loose
  exact ⟨emptied, a', run.bind (runs_pure v a'), froze⟩

end Holds

end Arena

end DualView
