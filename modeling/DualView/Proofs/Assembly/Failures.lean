import DualView.Proofs.Assembly.Copying
import DualView.Proofs.Schema.Resemblance

/-!
# What copying may fail for

A copy gives each frame what it asks for, in the order in which it asks: a key before its value, and
nothing before the last entry is complete.  So a frame is *ready* again after each entry, and a step
of it can only fail for what it is given.

* `NodeError.OfContent`: the errors about what is given.
* `MapFrame.key_proper`, `MapFrame.value_proper`, `ListFrame.item_proper`: one step of a frame that
  is ready; `MapFrame.close_proper`, `ListFrame.close_proper`: its end.
* `Opening.copy_proper`: a whole tree.
-/

namespace DualView

/-! ## Errors -/

/-- An error is about what is given, and not about the calls or the reads that give it. -/
inductive NodeError.OfContent : NodeError → Prop
  | representation (error : RepresentationError) : OfContent (.representation error)
  | optionality (error : OptionalityError) : OfContent (.optionality error)
  | kindMismatch (type : String) (expected found : Kind) :
      OfContent (.assembly (.kindMismatch type expected found))
  | duplicateKey (type key : String) : OfContent (.assembly (.duplicateKey type key))
  | fieldAlreadySet (type field : String) : OfContent (.assembly (.fieldAlreadySet type field))
  | unionMemberAlreadySet (type : String) : OfContent (.assembly (.unionMemberAlreadySet type))
  | emptyUnion (type : String) : OfContent (.assembly (.emptyUnion type))

/-- An error says that what is given is of another kind than what is asked for. -/
inductive NodeError.OfKind : NodeError → Prop
  | mismatch (type : String) (expected found : Kind) :
      OfKind (.representation (.mismatch type expected found))
  | noKindedMember (type : String) (found : Kind) :
      OfKind (.representation (.noKindedMember type found))
  | kindMismatch (type : String) (expected found : Kind) :
      OfKind (.assembly (.kindMismatch type expected found))

theorem NodeError.OfKind.ofContent {e : NodeError} (h : e.OfKind) : e.OfContent := by
  cases h with
  | mismatch => exact .representation _
  | noKindedMember => exact .representation _
  | kindMismatch => exact .kindMismatch _ _ _

/-- An error is about what is given, but not about its kind. -/
def NodeError.OfForm (e : NodeError) : Prop := e.OfContent ∧ ¬ e.OfKind

/-- An outcome is one that is hoped for, or an error of a class. -/
def Proper {α : Type} (E : NodeError → Prop) (P : α → Prop) : Except NodeError α → Prop
  | .ok a => P a
  | .error e => E e

section Proper

variable {α β : Type} {E E' : NodeError → Prop} {P P' : α → Prop} {Q : β → Prop}
  {x : Except NodeError α}

theorem Proper.bind {f : α → Except NodeError β} (h : Proper E P x)
    (next : ∀ a, x = .ok a → P a → Proper E Q (f a)) : Proper E Q (x >>= f) := by
  cases x with
  | error e => exact h
  | ok a => exact next a rfl h

theorem Proper.imp (h : Proper E P x) (next : ∀ a, x = .ok a → P a → P' a) : Proper E P' x := by
  cases x with
  | error e => exact h
  | ok a => exact next a rfl h

theorem Proper.map {f : α → β} (h : Proper E P x) (next : ∀ a, P a → Q (f a)) :
    Proper E Q (f <$> x) := by
  cases x with
  | error e => exact h
  | ok a => exact next a h

theorem Proper.widen (h : Proper E P x) (le : ∀ e, E e → E' e) : Proper E' P x := by
  cases x with
  | error e => exact le e h
  | ok a => exact h

theorem Proper.of_ok (h : Proper E P x) {a : α} (ok : x = .ok a) : P a := by
  subst ok
  exact h

theorem Proper.not_ofKind (h : Proper NodeError.OfForm P x) {e : NodeError}
    (failed : x = .error e) : ¬ e.OfKind := by
  subst failed
  exact h.2

theorem Proper.ofContent (h : Proper NodeError.OfForm P x) : Proper NodeError.OfContent P x :=
  h.widen fun _ e => e.1

end Proper

/-! ## Scalars -/

namespace Schema

variable (s : Schema)

theorem mismatch_ofKind (view : View) (type : TypeId) (found : Kind) :
    (s.mismatch view type found).OfKind := by
  rw [mismatch.eq_def]
  split
  · exact .kindMismatch _ _ _
  · split
    · exact .mismatch _ _ _
    · exact .noKindedMember _ _

theorem recognized_proper (type : TypeId) (index? : Option Nat) (key : String) :
    Proper NodeError.OfForm (fun _ => True)
      (match index? with
        | some i => (.ok (.enum i) : Except NodeError Value)
        | none => .error (s.unrecognized type key)) := by
  cases index? with
  | some i => trivial
  | none => exact ⟨.representation _, by rintro ⟨⟩⟩

theorem enumMember_proper (view : View) (type : TypeId) (members : List String) (repr : EnumRepr)
    (a : Scalar) :
    Proper NodeError.OfContent (fun _ => True) (s.enumMember view type members repr a) := by
  rw [enumMember.eq_def]
  dsimp only
  split
  · exact (s.recognized_proper type _ _).ofContent
  · exact (s.recognized_proper type _ _).ofContent
  · exact (s.recognized_proper type _ _).ofContent
  · exact (s.mismatch_ofKind view type _).ofContent

end Schema

theorem Model.ofScalar_proper (m : Model) (view : View) (type : TypeId) (a : Scalar) :
    Proper NodeError.OfContent (fun _ => True) (m.ofScalar view type a) := by
  have mismatch := (m.schema.mismatch_ofKind view type (.scalar a.kind)).ofContent
  rw [Model.ofScalar.eq_def]
  split
  · split
    · trivial
    · exact mismatch
  · exact m.schema.enumMember_proper view type _ _ a
  · split
    · rw [Model.joined]
      split
      · trivial
      · exact .representation _
    · exact mismatch
  · exact mismatch

namespace Opening

variable {m : Model} (o : Opening)

theorem mismatch_ofKind (s : Schema) (found : Kind) : (o.mismatch s found).OfKind := by
  rw [mismatch.eq_def]
  split
  · exact s.mismatch_ofKind _ _ _
  · exact .kindMismatch _ _ _
  · exact .mismatch _ _ _

theorem null_proper (s : Schema) : Proper NodeError.OfForm (fun _ => True) (o.null s) := by
  rw [null]
  split
  · trivial
  · exact ⟨.optionality _, by rintro ⟨⟩⟩

theorem scalar_proper (m : Model) (a : Scalar) :
    Proper NodeError.OfContent (fun _ => True) (o.scalar m a) := by
  rw [scalar.eq_def]
  split
  · refine Proper.map (P := fun _ => True) ?_ fun _ _ => trivial
    rw [Model.assign]
    split
    · exact (m.ofScalar_proper o.view _ _).map fun _ _ => trivial
    · exact (m.schema.mismatch_ofKind _ _ _).ofContent
  · trivial
  · exact (o.mismatch_ofKind m.schema _).ofContent

end Opening

/-! ## Fields and members -/

namespace Schema

variable (s : Schema) (type : TypeId) (view : View)

theorem openField_proper (keys : Renaming) (fields : List (Field TypeId))
    (slots : List (Slot Value)) (key : String) :
    Proper NodeError.OfForm (fun _ => True) (s.openField type view keys fields slots key) := by
  rw [openField.eq_def]
  split
  · exact ⟨.representation _, by rintro ⟨⟩⟩
  · split
    · split
      · trivial
      · exact ⟨.fieldAlreadySet _ _, by rintro ⟨⟩⟩
    · exact ⟨.representation _, by rintro ⟨⟩⟩

theorem openMember_proper (members : List TypeId) (repr : UnionRepr)
    (present : Option (Nat × Value)) (key : String) :
    Proper NodeError.OfForm (fun _ => True) (s.openMember type view members repr present key) := by
  rw [openMember.eq_def]
  dsimp only
  split
  · exact ⟨.representation _, by rintro ⟨⟩⟩
  · split
    · trivial
    · exact ⟨.unionMemberAlreadySet _, by rintro ⟨⟩⟩
    · exact ⟨.representation _, by rintro ⟨⟩⟩

end Schema

/-! ## Maps -/

theorem Schema.Valid.exists_keyText {s : Schema} (valid : s.Valid) {type key value : TypeId}
    {nullable : Bool} {nulls : NullPolicy} (body : s.body type = .map key value nullable nulls)
    {k : Value} (fits : s.Fits key k) : ∃ text, s.Text key k text := by
  rcases valid.mapKey_cases body with text | ⟨fields, separator, joined⟩
  · exact text.exists_text fits
  · cases fits with
    | struct body' length states values =>
      cases joined.symm.trans body'
      exact ⟨_, text_iff_read.mpr (by simp only [read, joined, readStruct]; rfl)⟩
    | scalar body' => cases joined.symm.trans body'
    | list body' states values => cases joined.symm.trans body'
    | map body' keys texts apart states values => cases joined.symm.trans body'
    | union body' at_member value => cases joined.symm.trans body'
    | enum body' bound => cases joined.symm.trans body'

namespace MapFrame

structure Ready (s : Schema) (f : MapFrame) : Prop where
  sound : f.Sound s
  idle : f.phase = .idle

/-- What the frame holds fits, and the key of the entry at hand is known; outside of maps it is a
name. -/
structure Keyed (s : Schema) (f : MapFrame) : Prop where
  sound : f.Sound s
  keyed : ∃ key, f.phase = .keyed key ∧
    ((∃ kt vt nullable layout dict, f.content = .entries kt vt nullable layout dict) ∨
      ∃ name, key = .scalar (.string name))

variable {m : Model} {f : MapFrame}

/-- **The key of an entry can be opened, and what is copied there makes it known.** -/
theorem key_proper (valid : m.schema.Valid) (ready : f.Ready m.schema) :
    Proper NodeError.OfForm (fun r : MapFrame × Opening => ∀ t piece, r.2.copy m t = .ok piece →
      (r.1.place piece).Keyed m.schema) (f.key m) := by
  refine Proper.bind (P := fun _ => True) ?_ fun _ settled _ => ?_
  · rw [settled, ready.idle]
    trivial
  intro t piece copied
  have step : f.key m = .ok (_, _) := bind_eq_ok_iff.mpr ⟨(), settled, rfl⟩
  have sound := (key_opens ready.sound step).awaits piece (Opening.copy_takes valid t copied)
  obtain ⟨type, view, member, content, phase⟩ := f
  cases content with
  | entries kt vt nullable layout dict =>
    obtain ⟨_ | key, rfl⟩ := Opening.copy_value_content valid copied
    · exact absurd ((Model.copies_none_iff valid).mp copied).2 Bool.false_ne_true
    · exact ⟨sound, key, rfl, .inl ⟨kt, vt, nullable, layout, dict, rfl⟩⟩
  | fields fields repr slots =>
    obtain ⟨name, -, rfl⟩ := Opening.copy_name_iff.mp copied
    exact ⟨sound, .scalar (.string name), rfl, .inr ⟨name, rfl⟩⟩
  | choice members repr present =>
    obtain ⟨name, -, rfl⟩ := Opening.copy_name_iff.mp copied
    exact ⟨sound, .scalar (.string name), rfl, .inr ⟨name, rfl⟩⟩

/-- The value of an entry whose key is known is opened for a value, of a field, a member or a map,
and what is copied there completes the entry. -/
theorem openNamed_proper (valid : m.schema.Valid) (name : String) :
    Proper NodeError.OfForm (fun r : MapFrame × Opening => ∀ t piece, r.2.copy m t = .ok piece →
      (r.1.place piece).phase = .idle) (f.openNamed m name) := by
  obtain ⟨type, view, member, content, phase⟩ := f
  cases content with
  | entries kt vt nullable layout dict => exact ⟨.representation _, by rintro ⟨⟩⟩
  | fields fields repr slots =>
    refine (m.schema.openField_proper type view _ fields slots name).bind fun r opened _ => ?_
    obtain ⟨i, o⟩ := r
    obtain ⟨-, g, slot, -, -, -, rfl⟩ := Schema.openField_eq_ok_iff.mp opened
    intro t piece copied
    obtain ⟨c, rfl⟩ := Opening.copy_value_content valid copied
    rfl
  | choice members repr present =>
    refine (m.schema.openMember_proper type view members repr present name).bind
      fun r opened _ => ?_
    obtain ⟨i, o⟩ := r
    obtain ⟨-, -, target, -, rfl⟩ := Schema.openMember_eq_ok_iff.mp opened
    intro t piece copied
    obtain ⟨_ | v, rfl⟩ := Opening.copy_value_content valid copied
    · exact absurd ((Model.copies_none_iff valid).mp copied).2 Bool.false_ne_true
    · rfl

theorem openEntry_proper (valid : m.schema.Valid) {kt vt : TypeId} {nullable : Bool}
    {layout : Layout} {dict : Dict Value}
    (content : f.content = .entries kt vt nullable layout dict) {key : Value}
    (text : ∃ text, m.schema.Text kt key text) :
    Proper NodeError.OfForm (fun r : MapFrame × Opening => ∀ t piece, r.2.copy m t = .ok piece →
      (r.1.place piece).phase = .idle) (f.openEntry m kt vt nullable dict key) := by
  obtain ⟨text, ht⟩ := text
  obtain ⟨type, view, member, _, phase⟩ := f
  subst content
  rw [openEntry, Model.keyText_eq_ok_iff.mpr ht]
  simp only [bind, Except.bind]
  split
  · exact ⟨.duplicateKey _ _, by rintro ⟨⟩⟩
  · intro t piece copied
    obtain ⟨c, rfl⟩ := Opening.copy_value_content valid copied
    rfl

/-- **The value of an entry whose key is known can be opened, unless the key is taken or stands for
nothing, and what is copied there completes the entry.** -/
theorem value_proper (valid : m.schema.Valid) (keyed : f.Keyed m.schema) :
    Proper NodeError.OfForm (fun r : MapFrame × Opening => ∀ t piece, r.2.copy m t = .ok piece →
      (r.1.place piece).Ready m.schema) (f.value m) := by
  have idle : Proper NodeError.OfForm (fun r : MapFrame × Opening => ∀ t piece,
      r.2.copy m t = .ok piece → (r.1.place piece).phase = .idle) (f.value m) := by
    obtain ⟨⟨held, known⟩, key, phase, named⟩ := keyed
    rw [value, phase]
    cases content : f.content with
    | entries kt vt nullable layout dict =>
      rw [content] at held known
      rw [phase] at known
      obtain ⟨⟨nulls, body⟩, -⟩ := held
      exact openEntry_proper valid content (valid.exists_keyText body known)
    | fields fields repr slots =>
      obtain ⟨_, _, _, _, _, entries⟩ | ⟨name, rfl⟩ := named
      · cases content.symm.trans entries
      · exact openNamed_proper valid name
    | choice members repr present =>
      obtain ⟨_, _, _, _, _, entries⟩ | ⟨name, rfl⟩ := named
      · cases content.symm.trans entries
      · exact openNamed_proper valid name
  refine idle.imp fun r opened idle t piece copied => ⟨?_, idle t piece copied⟩
  exact (value_opens keyed.sound opened).awaits piece (Opening.copy_takes valid t copied)

/-- **A map that is ready can be finished, unless something is missing in it.** -/
theorem close_proper (ready : f.Ready m.schema) :
    Proper NodeError.OfForm (fun _ => True) (f.close m) := by
  refine Proper.bind (P := fun _ => True) ?_ fun _ _ _ => ?_
  · rw [settled, ready.idle]
    trivial
  · refine Proper.bind (P := fun _ => True) ?_ fun _ _ _ => trivial
    rw [finished.eq_def]
    split
    · trivial
    · split
      · exact ⟨.optionality _, by rintro ⟨⟩⟩
      · trivial
    · trivial
    · exact ⟨.emptyUnion _, by rintro ⟨⟩⟩

theorem openMap_proper (o : Opening) :
    Proper NodeError.OfKind (·.Ready m.schema) (o.openMap m) := by
  have begun : Proper NodeError.OfKind (fun f : MapFrame => f.phase = .idle) (o.openMap m) := by
    rw [Opening.openMap.eq_def]
    split
    · split
      · split
        · rfl
        · exact m.schema.mismatch_ofKind _ _ _
      · exact o.mismatch_ofKind m.schema _
    · exact o.mismatch_ofKind m.schema _
  exact begun.imp fun f opened idle => ⟨(Opening.openMap_sound opened).1, idle⟩

end MapFrame

/-! ## Lists -/

namespace ListFrame

def Ready (f : ListFrame) : Prop :=
  match f.content with
  | .pair _ _ _ stage => stage ≠ .key ∧ ∀ i, stage ≠ .value i
  | _ => f.busy = false

variable {m : Model} {f : ListFrame}

theorem field_of_copied_pair (valid : m.schema.Valid) {owner : TypeId} {keys : Renaming}
    {fields : List (Field TypeId)} {slots : List (Slot Value)} {view : View} {t : Tree}
    {piece : Piece}
    (copied : Opening.copy m ⟨.pair owner keys fields slots, view, false⟩ t = .ok piece) :
    ∃ i c, piece = .field i c := by
  cases t with
  | list items =>
    obtain ⟨f, f', opened, run, closed⟩ := Opening.copy_list_iff.mp copied
    obtain ⟨sound, -⟩ := Opening.openList_sound opened
    obtain ⟨sound', yields⟩ := Opening.copyItems_sound valid items sound run
    have yielded := yields piece (close_yields sound' closed)
    cases opened
    obtain ⟨i, c, -, -, -, rfl⟩ := yielded
    exact ⟨i, c, rfl⟩
  | map entries =>
    obtain ⟨f, -, opened, -⟩ := Opening.copy_map_iff.mp copied
    contradiction
  | null => contradiction
  | scalar a => contradiction

/-- **The next item can be opened, unless there is no place for it, and what is copied there
completes it.** -/
theorem item_proper (valid : m.schema.Valid) (ready : f.Ready) :
    Proper NodeError.OfForm (fun r : ListFrame × Opening => ∀ t piece, r.2.copy m t = .ok piece →
      (r.1.place piece).Ready) (f.item m) := by
  obtain ⟨type, view, member, content, busy⟩ := f
  cases content with
  | items elem nullable layout slots =>
    obtain rfl : busy = false := ready
    intro t piece copied
    obtain ⟨c, rfl⟩ := Opening.copy_value_content valid copied
    rfl
  | tuple fields slots next =>
    obtain rfl : busy = false := ready
    rw [item.eq_def]
    dsimp only
    refine Proper.bind (P := fun _ => True) trivial fun _ _ _ => ?_
    split
    · intro t piece copied
      obtain ⟨c, rfl⟩ := Opening.copy_value_content valid copied
      rfl
    · exact ⟨.representation _, by rintro ⟨⟩⟩
  | pairs keys fields slots =>
    obtain rfl : busy = false := ready
    intro t piece copied
    obtain ⟨i, c, rfl⟩ := field_of_copied_pair valid copied
    rfl
  | pair keys fields slots stage =>
    cases stage with
    | empty =>
      intro t piece copied
      obtain ⟨key, -, rfl⟩ := Opening.copy_name_iff.mp copied
      exact ⟨by rintro ⟨⟩, by rintro _ ⟨⟩⟩
    | key => exact absurd rfl ready.1
    | keyed key =>
      refine (m.schema.openField_proper type view keys fields slots key).bind fun r opened _ => ?_
      obtain ⟨i, o⟩ := r
      obtain ⟨-, g, slot, -, -, -, rfl⟩ := Schema.openField_eq_ok_iff.mp opened
      intro t piece copied
      obtain ⟨c, rfl⟩ := Opening.copy_value_content valid copied
      exact ⟨by rintro ⟨⟩, by rintro _ ⟨⟩⟩
    | value i => exact absurd rfl (ready.2 i)
    | full i c => exact ⟨.representation _, by rintro ⟨⟩⟩

theorem struct_proper (fields : List (Field TypeId)) (slots : List (Slot Value)) :
    Proper NodeError.OfForm (fun _ => True) (f.struct m fields slots) := by
  rw [struct]
  split
  · exact ⟨.optionality _, by rintro ⟨⟩⟩
  · trivial

/-- **A list that is ready can be finished, unless something is missing in it.** -/
theorem close_proper (ready : f.Ready) : Proper NodeError.OfForm (fun _ => True) (f.close m) := by
  obtain ⟨type, view, member, content, busy⟩ := f
  cases content with
  | items elem nullable layout slots =>
    obtain rfl : busy = false := ready
    trivial
  | tuple fields slots next =>
    obtain rfl : busy = false := ready
    exact struct_proper fields slots
  | pairs keys fields slots =>
    obtain rfl : busy = false := ready
    exact struct_proper fields slots
  | pair keys fields slots stage =>
    cases stage with
    | empty => exact ⟨.representation _, by rintro ⟨⟩⟩
    | key => exact absurd rfl ready.1
    | keyed key => exact ⟨.representation _, by rintro ⟨⟩⟩
    | value i => exact absurd rfl (ready.2 i)
    | full i c => trivial

theorem openList_proper (o : Opening) : Proper NodeError.OfKind Ready (o.openList m) := by
  rw [Opening.openList.eq_def]
  split
  · split
    · split
      · rename_i content hcontent
        obtain ⟨-, unpaired⟩ := Opening.listContent?_sound hcontent
        cases content with
        | pair keys fields slots stage => exact absurd rfl (unpaired keys fields slots stage)
        | _ => rfl
      · exact m.schema.mismatch_ofKind _ _ _
    · exact o.mismatch_ofKind m.schema _
  · exact ⟨by rintro ⟨⟩, by rintro _ ⟨⟩⟩
  · exact o.mismatch_ofKind m.schema _

end ListFrame

/-! ## Whole trees -/

namespace Opening

variable {m : Model}

mutual

/-- **What a copy fails for is always what is given.** -/
theorem copy_proper (valid : m.schema.Valid) (o : Opening) :
    (t : Tree) → Proper NodeError.OfContent (fun _ => True) (o.copy m t)
  | .null => (o.null_proper m.schema).ofContent
  | .scalar a => o.scalar_proper m a
  | .list items =>
    ((ListFrame.openList_proper o).widen fun _ e => e.ofContent).bind fun _ _ ready =>
      (copyItems_proper valid items ready).bind fun _ _ ready =>
        (ListFrame.close_proper ready).ofContent
  | .map entries =>
    ((MapFrame.openMap_proper o).widen fun _ e => e.ofContent).bind fun _ _ ready =>
      (copyEntries_proper valid entries ready).bind fun _ _ ready =>
        (MapFrame.close_proper ready).ofContent

theorem copyItems_proper (valid : m.schema.Valid) {f : ListFrame} :
    (items : List Tree) → f.Ready → Proper NodeError.OfContent ListFrame.Ready (copyItems m f items)
  | [], ready => ready
  | t :: rest, ready =>
    (ListFrame.item_proper valid ready).ofContent.bind fun r _ placed =>
      (copy_proper valid r.2 t).bind fun piece copied _ =>
        copyItems_proper valid rest (placed t piece copied)

theorem copyEntries_proper (valid : m.schema.Valid) {f : MapFrame} :
    (entries : List (Tree × Tree)) → f.Ready m.schema →
      Proper NodeError.OfContent (·.Ready m.schema) (copyEntries m f entries)
  | [], ready => ready
  | (k, t) :: rest, ready =>
    (MapFrame.key_proper valid ready).ofContent.bind fun r _ placed =>
      (copy_proper valid r.2 k).bind fun key copied _ =>
        (MapFrame.value_proper valid (placed k key copied)).ofContent.bind fun r _ placed =>
          (copy_proper valid r.2 t).bind fun piece copied _ =>
            copyEntries_proper valid rest (placed t piece copied)

end

end Opening

end DualView
