import DualView.Proofs.Table
import DualView.Proofs.Value.Fits
import DualView.Value.Indexed

/-!
# The index of entries

A table is *in step* with entries if it indexes them by their texts (`IndexedDict.InStep`).  An
insertion keeps the table in step, whether or not it is refused, and so does every sequence of
insertions.

* `IndexedDict.InStep.insert`, `IndexedDict.InStep.insertEach`: one insertion, and a sequence.
* `IndexedDict.dict_insertEach`: the table changes nothing of what a `Dict` does.
* `IndexedDict.entries_and_index_in_step`: what every sequence of insertions leaves.
-/

namespace DualView

/-! ## Equality -/

def Entry.same (a b : Entry Value) : Bool :=
  a.key.same b.key && a.text == b.text && a.slot.same b.slot

theorem Entry.text_eq_of_same {a b : Entry Value} (h : a.same b = true) : a.text = b.text := by
  rw [Entry.same, Bool.and_eq_true, Bool.and_eq_true] at h
  exact eq_of_beq h.1.2

theorem Value.sameEntries_iff {es es' : List (Entry Value)} :
    sameEntries es es' = true ↔ List.Forall₂ (fun e e' => e.same e' = true) es es' := by
  induction es generalizing es' with
  | nil => cases es' <;> simp [sameEntries]
  | cons e es ih =>
    obtain ⟨key, text, layout, content⟩ := e
    cases es' with
    | nil => simp [sameEntries]
    | cons e' es' =>
      rw [sameEntries, Bool.and_eq_true, ih, List.forall₂_cons]
      exact Iff.rfl

theorem Dict.get?_rel_of_same {d d' : Dict Value} (h : d.same d' = true) (text : String) :
    Option.Rel (fun e e' => e.same e' = true) (d.get? text) (d'.get? text) := by
  obtain ⟨es⟩ := d
  obtain ⟨es'⟩ := d'
  have all : List.Forall₂ (fun e e' => e.same e' = true) es es' := Value.sameEntries_iff.mp h
  clear h
  rw [Dict.get?, Dict.get?]
  induction all with
  | nil => exact .none
  | @cons e e' es es' same _ ih =>
    have texts := Entry.text_eq_of_same same
    by_cases found : e.text = text
    · rw [List.find?_cons_of_pos (by simpa using found),
        List.find?_cons_of_pos (by simpa using texts ▸ found)]
      exact .some same
    · rw [List.find?_cons_of_neg (by simpa using found),
        List.find?_cons_of_neg (by simpa using texts ▸ found)]
      exact ih

namespace IndexedDict

variable {α : Type} {d : IndexedDict α} {e : Entry α}

/-! ## One insertion -/

theorem insert_of_taken {i : Nat} (h : d.index.get? e.text = some i) : d.insert e = (d, false) := by
  rw [insert, h]

theorem insert_of_new (h : d.index.get? e.text = none) :
    d.insert e = (⟨d.entries ++ [e], d.index.set e.text d.entries.length⟩, true) := by
  rw [insert, h]

/-- An entry is refused exactly if the table has its text, and then nothing changes. -/
theorem insert_refused_iff : (d.insert e).2 = false ↔ (d.index.get? e.text).isSome = true := by
  cases h : d.index.get? e.text with
  | none => simp [insert_of_new h]
  | some i => simp [insert_of_taken h]

theorem insert_of_refused (h : (d.insert e).2 = false) : (d.insert e).1 = d := by
  obtain ⟨i, taken⟩ := Option.isSome_iff_exists.mp (insert_refused_iff.mp h)
  rw [insert_of_taken taken]

/-- The table has the position of each entry under its text, and nothing else. -/
def InStep (d : IndexedDict α) : Prop := d.index.Indexes (·.text) d.entries

theorem inStep_empty : (empty : IndexedDict α).InStep := Table.indexes_empty

namespace InStep

/-- **An insertion keeps the table in step.** -/
theorem insert (h : d.InStep) (e : Entry α) : (d.insert e).1.InStep := by
  cases taken : d.index.get? e.text with
  | some i =>
    rw [insert_of_taken taken]
    exact h
  | none =>
    rw [insert_of_new taken]
    exact Table.Indexes.push h taken

/-- **A sequence of insertions keeps the table in step.** -/
theorem insertEach (h : d.InStep) (es : List (Entry α)) : (d.insertEach es).1.InStep := by
  induction es generalizing d with
  | nil => exact h
  | cons e rest ih => exact ih (h.insert e)

theorem get?_eq (h : d.InStep) (text : String) : d.get? text = d.dict.get? text :=
  Table.Indexes.bind_eq_find? h text

theorem insert?_eq (h : d.InStep) (e : Entry α) :
    d.dict.insert? e = if (d.insert e).2 then some (d.insert e).1.dict else none := by
  have contained : d.dict.contains e.text = (d.index.get? e.text).isSome := by
    rw [Bool.eq_iff_iff, Table.Indexes.isSome_iff h, Dict.contains, List.any_eq_true]
    simp [dict]
  rw [Dict.insert?, contained]
  cases taken : d.index.get? e.text with
  | some i => simp [insert_of_taken taken]
  | none => simp [insert_of_new taken, dict]

end InStep

/-! ## Sequences of insertions -/

def accepted (es : List (Entry α)) (answers : List Bool) : List (Entry α) :=
  ((es.zip answers).filter (·.2)).map (·.1)

theorem mem_accepted {es : List (Entry α)} {answers : List Bool} :
    e ∈ accepted es answers ↔ (e, true) ∈ es.zip answers := by
  simp [accepted]

theorem entries_insert (d : IndexedDict α) (e : Entry α) :
    (d.insert e).1.entries = d.entries ++ accepted [e] [(d.insert e).2] := by
  cases taken : d.index.get? e.text with
  | some i => simp [insert_of_taken taken, accepted]
  | none => simp [insert_of_new taken, accepted]

theorem entries_insertEach (d : IndexedDict α) (es : List (Entry α)) :
    (d.insertEach es).1.entries = d.entries ++ accepted es (d.insertEach es).2 := by
  induction es generalizing d with
  | nil => simp [insertEach, accepted]
  | cons e rest ih =>
    have cons : accepted (e :: rest) (d.insertEach (e :: rest)).2 =
        accepted [e] [(d.insert e).2] ++ accepted rest ((d.insert e).1.insertEach rest).2 := by
      simp only [accepted, insertEach, List.zip_cons_cons, List.zip_nil_left, ← List.map_append,
        ← List.filter_append, List.singleton_append]
    rw [cons, ← List.append_assoc, ← entries_insert]
    exact ih (d.insert e).1

theorem length_answers (d : IndexedDict α) (es : List (Entry α)) :
    (d.insertEach es).2.length = es.length := by
  induction es generalizing d with
  | nil => rfl
  | cons e rest ih => exact congrArg (· + 1) (ih (d.insert e).1)

/-- Of what follows on other insertions, the first is an insertion into what they left. -/
theorem insertEach_append (d : IndexedDict α) (before : List (Entry α)) (e : Entry α)
    (after : List (Entry α)) :
    (d.insertEach (before ++ e :: after)).2[before.length]? =
      some ((d.insertEach before).1.insert e).2 := by
  induction before generalizing d with
  | nil => rfl
  | cons e' before ih => exact ih (d.insert e').1

/-- As many entries are appended as answers say so. -/
theorem length_accepted {es : List (Entry α)} {answers : List Bool}
    (length : answers.length = es.length) : (accepted es answers).length = answers.count true := by
  rw [accepted, List.length_map, ← List.countP_eq_length_filter, List.count]
  have second : (es.zip answers).map Prod.snd = answers := List.map_snd_zip (Nat.le_of_eq length)
  conv_rhs => rw [← second, List.countP_map]
  refine List.countP_congr fun p _ => ?_
  simp

/-- The table changes nothing of what a `Dict` does. -/
theorem dict_insertEach (h : d.InStep) (es : List (Entry α)) :
    (d.insertEach es).1.dict = es.foldl Dict.insert d.dict := by
  induction es generalizing d with
  | nil => rfl
  | cons e rest ih =>
    have inserted : d.dict.insert e = (d.insert e).1.dict := by
      rw [Dict.insert, h.insert?_eq e]
      cases answer : (d.insert e).2 with
      | true => rfl
      | false => rw [insert_of_refused answer]; rfl
    rw [List.foldl_cons, inserted]
    exact ih (h.insert e)

/-! ## What insertions leave -/

/-- **Entries and table stay in step, over every sequence of insertions into an empty map.**  An
insertion is refused exactly if an earlier one appended an entry with the same text, and then it
changes nothing.  The entries are the ones that were appended, in order; their texts differ, the
table has the position of each, and each is found under its text.  Maps are equal exactly if their
entries are, and then every text finds equal entries in both.  Entries without a table come to the
same. -/
theorem entries_and_index_in_step (es : List (Entry Value)) :
    let d := (empty.insertEach es).1
    let answers := (empty.insertEach es).2
    (∀ before e after, es = before ++ e :: after →
      let earlier := (empty.insertEach before).1
      answers[before.length]? = some (earlier.insert e).2 ∧
        ((earlier.insert e).2 = false ↔
          ∃ e', (e', true) ∈ before.zip (empty.insertEach before).2 ∧ e'.text = e.text) ∧
        ((earlier.insert e).2 = false → (earlier.insert e).1 = earlier)) ∧
    (d.entries = ((es.zip answers).filter (·.2)).map (·.1) ∧ d.size = answers.count true) ∧
    (d.entries.map (·.text)).Nodup ∧
    (∀ text i, d.index.get? text = some i ↔ ∃ e, d.entries[i]? = some e ∧ e.text = text) ∧
    (∀ text e, d.get? text = some e ↔ e ∈ d.entries ∧ e.text = text) ∧
    (∀ es', let d' := (empty.insertEach es').1
      (d.same d' = true ↔ List.Forall₂ (fun e e' => e.same e' = true) d.entries d'.entries) ∧
        (d.same d' = true → ∀ text,
          Option.Rel (fun e e' => e.same e' = true) (d.get? text) (d'.get? text))) ∧
    d.dict = Dict.ofList es ∧ ∀ text, d.get? text = (Dict.ofList es).get? text := by
  intro d answers
  have entries (es : List (Entry Value)) :
      (empty.insertEach es).1.entries = accepted es (empty.insertEach es).2 :=
    entries_insertEach empty es
  have inStep (es : List (Entry Value)) : (empty.insertEach es).1.InStep :=
    inStep_empty.insertEach es
  have dicts : d.dict = Dict.ofList es := dict_insertEach inStep_empty es
  refine ⟨?_, ⟨entries es, ?_⟩, Table.Indexes.nodup (inStep es), inStep es, fun text e =>
    Table.Indexes.bind_eq_some_iff (inStep es), fun es' => ⟨Value.sameEntries_iff, fun same text => ?_⟩, dicts,
    fun text => ?_⟩
  · rintro before e after rfl
    refine ⟨insertEach_append empty before e after, ?_, insert_of_refused⟩
    rw [insert_refused_iff, Table.Indexes.isSome_iff (inStep before), entries before]
    simp only [mem_accepted]
  · rw [size, entries es]
    exact length_accepted (length_answers empty es)
  · rw [(inStep es).get?_eq, (inStep es').get?_eq]
    exact Dict.get?_rel_of_same same text
  · rw [(inStep es).get?_eq, dicts]

/-- An entry under a text that is taken is refused, and the first one stays. -/
example :
    let low : Entry Value := ⟨.enum 0, "l", .ofValue (.enum 7)⟩
    let high : Entry Value := ⟨.enum 1, "h", .ofValue (.enum 8)⟩
    let d := (IndexedDict.empty.insertEach [low, high, { low with key := .enum 2 }])
    d.2 = [true, true, false] ∧ d.1.get? "l" = some low :=
  ⟨rfl, rfl⟩

end IndexedDict

end DualView
