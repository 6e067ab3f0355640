import DualView.Proofs.Assembly.Lifecycle
import DualView.Proofs.Codec.Keys

/-!
# Fields in any order, in either view

A struct that is represented as a map can be assembled field by field in both views, and the view
may change between one field and the next.  What has been given so far is all that counts: not the
order in which it came, nor the keys under which it came.

* `Prototype.Gives`, `Prototype.GivesFields`: calls that give one field, and fields one by one.
* `Model.filled_perm`: the slots that are filled do not depend on the order.
* `Prototype.GivesFields.run`: such calls lead to a struct with just those fields.
* `Prototype.GivesFields.outcome`: what comes of it when it is finished.
* `Prototype.GivesFields.gives`: a struct that is given field by field is given where it is
  expected.
-/

namespace DualView

/-! ## Slots -/

theorem lookup_perm {α β : Type} [DecidableEq α] {l l' : List (α × β)} (perm : l.Perm l')
    (once : (l.map (·.1)).Nodup) (a : α) : l.lookup a = l'.lookup a := by
  have once' : (l'.map (·.1)).Nodup := (perm.map _).nodup_iff.mp once
  apply Option.ext
  intro b
  rw [lookup_eq_some_iff_mem once, lookup_eq_some_iff_mem once', perm.mem_iff]

/-- The slots that are filled do not depend on the order in which they are. -/
theorem Model.filled_perm (m : Model) (type : TypeId) (fields : List (Field TypeId))
    {given given' : List (Nat × Option Value)} (perm : given.Perm given')
    (apart : (given.map (·.1)).Nodup) :
    m.filled type fields given = m.filled type fields given' := by
  rw [filled, filled]
  simp only [lookup_perm perm apart]

/-! ## Scripts -/

/-- The key under which a view has a field. -/
def Field.keyIn (view : View) (keys : Renaming) (f : Field TypeId) : String :=
  match view with
  | .typed => f.name
  | .representation => keys.keyOf f.name

namespace Prototype

variable (p : Prototype)

/-- Calls give content to an opening: wherever the opening is, they fill it with that content and
leave the rest as it was. -/
def Gives (o : Opening) (calls : List Call) (c : Option Value) : Prop :=
  ∀ (h : Handle) (outer : List Handle),
    ((⟨p, .building, h :: outer, some o⟩ : Builder).run calls).1 =
      ⟨p, .building, { h with frame := h.frame.place (.content c) } :: outer, none⟩

/-- Calls give fields of a struct one by one, each under its key in the view at the time, with
changes of the view in between. -/
inductive GivesFields (fields : List (Field TypeId)) (keys : Renaming) :
    View → List (Nat × Option Value) → List Call → Prop
  | done (view : View) : GivesFields fields keys view [] []
  | switch {given : List (Nat × Option Value)} {calls : List Call} (view view' : View)
      (rest : GivesFields fields keys view' given calls) :
      GivesFields fields keys view given (.view view' :: calls)
  /-- The key is given as text. -/
  | entry {view : View} {given : List (Nat × Option Value)} {value calls : List Call} {i : Nat}
      {f : Field TypeId} {c : Option Value} (found : fields[i]? = some f)
      (gives : p.Gives ⟨.value f.type, view, f.nullable⟩ value c)
      (rest : GivesFields fields keys view given calls) :
      GivesFields fields keys view ((i, c) :: given)
        ([.entry (f.keyIn view keys)] ++ (value ++ calls))
  /-- The key is assembled on its own. -/
  | keyed {view : View} {given : List (Nat × Option Value)} {value calls : List Call} {i : Nat}
      {f : Field TypeId} {c : Option Value} (found : fields[i]? = some f)
      (gives : p.Gives ⟨.value f.type, view, f.nullable⟩ value c)
      (rest : GivesFields fields keys view given calls) :
      GivesFields fields keys view ((i, c) :: given)
        ([.key, .scalar (.string (f.keyIn view keys)), .value] ++ (value ++ calls))

/-- A struct under construction in its handle, some fields of which are given. -/
def atFields (type : TypeId) (member : Option Nat) (keys : Renaming) (fields : List (Field TypeId))
    (outer : List Handle) (view : View) (given : List (Nat × Option Value)) : Builder :=
  ⟨p, .building,
    ⟨.map (p.model.fieldsFrame type view member (.map keys) fields given), false⟩ :: outer, none⟩

/-- What comes of a struct that is finished and left: the first field that must be given and is not
is an error, and otherwise the struct goes to what is around it. -/
def fieldsOutcome (type : TypeId) (member : Option Nat) (fields : List (Field TypeId))
    (outer : List Handle) (given : List (Nat × Option Value)) : Builder × Reply :=
  let slots := p.model.filled type fields given
  match missing? fields slots with
  | some f => (⟨p, .errored, outer, none⟩,
      .failed (.optionality (.requiredFieldMissing (p.model.schema.nameOf type) f.name)))
  | none => ((⟨p, .building, outer, none⟩ : Builder).deliver
      (.content (some ((Value.struct slots).wrap member))) outer, .done)

end Prototype

/-! ## Calls in order -/

namespace Builder

theorem run_cons (b : Builder) (c : Call) (rest : List Call) :
    b.run (c :: rest) =
      (((b.call c).1.run rest).1, (b.call c).2 :: ((b.call c).1.run rest).2) := rfl

theorem run_append (b : Builder) (calls calls' : List Call) :
    b.run (calls ++ calls') = (((b.run calls).1.run calls').1,
      (b.run calls).2 ++ ((b.run calls).1.run calls').2) := by
  induction calls generalizing b with
  | nil => rfl
  | cons c rest ih => rw [List.cons_append, run_cons, run_cons, ih, List.cons_append]

end Builder

/-! ## Giving a field -/

namespace Prototype

variable {p : Prototype} {o : Opening} {c : Option Value}

theorem gives_scalar {a : Scalar} (stands : o.scalar p.model a = .ok (.content c)) :
    p.Gives o [.scalar a] c := by
  intro h outer
  simp only [Builder.run, Builder.call, Builder.callOpening, Builder.model, Builder.fillOpening,
    stands]
  rfl

theorem gives_copy {d : Datum} (copied : o.copy p.model d.tree = .ok (.content c)) :
    p.Gives o [.copy d] c := by
  intro h outer
  rw [Datum.tree] at copied
  simp only [Builder.run, Builder.call, Builder.callOpening, Builder.model, Builder.fillOpening,
    copied]
  rfl

section Fields

variable {type : TypeId} {member : Option Nat} {keys : Renaming} {fields : List (Field TypeId)}
  {outer : List Handle} {view : View} {given : List (Nat × Option Value)} {i : Nat}
  {f : Field TypeId}

theorem found_keyIn (valid : p.model.schema.Valid) (once : p.model.schema.RenamesOnce)
    (body : p.model.schema.body type = .struct fields (.map keys)) (found : fields[i]? = some f)
    (view : View) : ∃ keys', (StructRepr.map keys).entryKeys? view = some keys' ∧
      Field.Found keys' fields (f.keyIn view keys) i := by
  cases view with
  | typed =>
    have keyed : (StructRepr.map keys).entryKeys? .typed = some .none := rfl
    have tells := valid.tells_entries (fun _ => once) body keyed
    exact ⟨.none, keyed, tells.found_iff.mpr ⟨f, found, rfl⟩⟩
  | representation =>
    have keyed : (StructRepr.map keys).entryKeys? .representation = some keys := rfl
    have tells := valid.tells_entries (fun _ => once) body keyed
    exact ⟨keys, keyed, tells.found_iff.mpr ⟨f, found, rfl⟩⟩

/-- The field that a key stands for is opened, if it is not given yet. -/
theorem openNamed_keyIn (valid : p.model.schema.Valid) (once : p.model.schema.RenamesOnce)
    (body : p.model.schema.body type = .struct fields (.map keys)) (found : fields[i]? = some f)
    (new : i ∉ given.map (·.1)) (phase : MapPhase) :
    MapFrame.openNamed p.model { p.model.fieldsFrame type view member (.map keys) fields given with
        phase := phase } (f.keyIn view keys) =
      .ok ({ p.model.fieldsFrame type view member (.map keys) fields given with
        phase := .slot i }, ⟨.value f.type, view, f.nullable⟩) := by
  obtain ⟨keys', keyed, stands⟩ := found_keyIn valid once body found view
  exact (Opening.openNamed_fields_iff keyed).mpr ⟨i, f, stands, new, found, rfl, rfl⟩

def atSlot (p : Prototype) (type : TypeId) (member : Option Nat) (keys : Renaming)
    (fields : List (Field TypeId)) (outer : List Handle) (view : View)
    (given : List (Nat × Option Value)) (i : Nat) (f : Field TypeId) : Builder :=
  ⟨p, .building, ⟨.map { p.model.fieldsFrame type view member (.map keys) fields given with
    phase := .slot i }, false⟩ :: outer, some ⟨.value f.type, view, f.nullable⟩⟩

/-- Calls that open a field and then fill it leave one more field given. -/
theorem run_field (new : i ∉ given.map (·.1)) {key value : List Call}
    (opened : ((p.atFields type member keys fields outer view given).run key).1 =
      p.atSlot type member keys fields outer view given i f)
    (gives : p.Gives ⟨.value f.type, view, f.nullable⟩ value c) (rest : List Call) :
    ((p.atFields type member keys fields outer view given).run (key ++ (value ++ rest))).1 =
      ((p.atFields type member keys fields outer view (given ++ [(i, c)])).run rest).1 := by
  have filled : ((p.atSlot type member keys fields outer view given i f).run value).1 =
      p.atFields type member keys fields outer view (given ++ [(i, c)]) := by
    rw [atSlot, gives, atFields, Model.fieldsFrame, Model.fieldsFrame, ← fillSlot_filled new]
    rfl
  rw [Builder.run_append, opened, Builder.run_append, filled]

theorem run_entry (valid : p.model.schema.Valid) (once : p.model.schema.RenamesOnce)
    (body : p.model.schema.body type = .struct fields (.map keys)) (found : fields[i]? = some f)
    (new : i ∉ given.map (·.1)) :
    ((p.atFields type member keys fields outer view given).run [.entry (f.keyIn view keys)]).1 =
      p.atSlot type member keys fields outer view given i f := by
  have opened : (p.model.fieldsFrame type view member (.map keys) fields given).entry p.model
      (f.keyIn view keys) =
        .ok ({ p.model.fieldsFrame type view member (.map keys) fields given with
          phase := .slot i }, ⟨.value f.type, view, f.nullable⟩) :=
    openNamed_keyIn valid once body found new .idle
  simp only [atFields, Builder.run, Builder.call, Builder.callHandle, Builder.callMap,
    Builder.model, opened]
  rfl

theorem run_keyed (valid : p.model.schema.Valid) (once : p.model.schema.RenamesOnce)
    (body : p.model.schema.body type = .struct fields (.map keys)) (found : fields[i]? = some f)
    (new : i ∉ given.map (·.1)) :
    ((p.atFields type member keys fields outer view given).run
        [.key, .scalar (.string (f.keyIn view keys)), .value]).1 =
      p.atSlot type member keys fields outer view given i f := by
  -- the frame after the key
  let keyed : MapFrame := { p.model.fieldsFrame type view member (.map keys) fields given with
    phase := .keyed (.scalar (.string (f.keyIn view keys))) }
  have opened : keyed.value p.model =
      .ok ({ p.model.fieldsFrame type view member (.map keys) fields given with
        phase := .slot i }, ⟨.value f.type, view, f.nullable⟩) :=
    openNamed_keyIn valid once body found new _
  have last : ((⟨p, .building, ⟨.map keyed, false⟩ :: outer, none⟩ : Builder).call .value).1 =
      p.atSlot type member keys fields outer view given i f := by
    simp only [Builder.call, Builder.callHandle, Builder.callMap, Builder.model, opened]
    rfl
  exact last

theorem call_view (body : p.model.schema.body type = .struct fields (.map keys)) (view' : View) :
    ((p.atFields type member keys fields outer view given).call (.view view')).1 =
      p.atFields type member keys fields outer view' given := by
  have viewed :
      (p.model.fieldsFrame type view member (.map keys) fields given).inView p.model view' =
        .ok (p.model.fieldsFrame type view' member (.map keys) fields given) := by
    simp only [MapFrame.inView, Model.fieldsFrame, body]
    cases view' <;> rfl
  simp only [atFields, Builder.call, Builder.callHandle, Builder.callCompound, Frame.inView,
    Builder.model, viewed]
  rfl

theorem not_mem_of_nodup {earlier : List (Nat × Option Value)}
    (apart : ((earlier ++ (i, c) :: given).map (·.1)).Nodup) : i ∉ earlier.map (·.1) := by
  rw [List.map_append, List.map_cons] at apart
  intro mem
  exact List.disjoint_of_nodup_append apart mem List.mem_cons_self

/-- **Calls that give fields lead to a struct with those fields given.** -/
theorem GivesFields.run (valid : p.model.schema.Valid) (once : p.model.schema.RenamesOnce)
    (body : p.model.schema.body type = .struct fields (.map keys)) {calls : List Call}
    (h : p.GivesFields fields keys view given calls) (earlier : List (Nat × Option Value))
    (apart : ((earlier ++ given).map (·.1)).Nodup) :
    ∃ last, ((p.atFields type member keys fields outer view earlier).run calls).1 =
      p.atFields type member keys fields outer last (earlier ++ given) := by
  induction h generalizing earlier with
  | done view => exact ⟨view, by rw [List.append_nil]; rfl⟩
  | switch view view' rest ih =>
    obtain ⟨last, run⟩ := ih earlier apart
    exact ⟨last, by rw [Builder.run_cons, call_view body, run]⟩
  | @entry view given value calls i f c found gives rest ih =>
    have new := not_mem_of_nodup apart
    rw [List.append_cons] at apart ⊢
    rw [run_field new (run_entry valid once body found new) gives]
    exact ih (earlier ++ [(i, c)]) apart
  | @keyed view given value calls i f c found gives rest ih =>
    have new := not_mem_of_nodup apart
    rw [List.append_cons] at apart ⊢
    rw [run_field new (run_keyed valid once body found new) gives]
    exact ih (earlier ++ [(i, c)]) apart

/-! ## Finishing -/

/-- Finished and left, a struct is an error or goes to what is around it, whatever view it was last
assembled in. -/
theorem run_finish (p : Prototype) (type : TypeId) (member : Option Nat) (keys : Renaming)
    (fields : List (Field TypeId)) (outer : List Handle) (view : View)
    (given : List (Nat × Option Value)) :
    (p.atFields type member keys fields outer view given).run [.finish, .drop] =
      ((p.fieldsOutcome type member fields outer given).1,
        [(p.fieldsOutcome type member fields outer given).2, .done]) := by
  cases missing : missing? fields (p.model.filled type fields given) with
  | some f =>
    have closed : (p.model.fieldsFrame type view member (.map keys) fields given).close p.model =
        .error (.optionality (.requiredFieldMissing (p.model.schema.nameOf type) f.name)) := by
      simp only [MapFrame.close, MapFrame.finished, Model.fieldsFrame, missing]
      rfl
    simp only [fieldsOutcome, missing, atFields, Builder.run, Builder.call, Builder.callHandle,
      Builder.callCompound, Builder.finishCompound, Frame.close, Builder.model, closed]
    rfl
  | none =>
    have closed : (p.model.fieldsFrame type view member (.map keys) fields given).close p.model =
        .ok (.content (some ((Value.struct (p.model.filled type fields given)).wrap member))) := by
      simp only [MapFrame.close, MapFrame.finished, Model.fieldsFrame, missing]
      rfl
    simp only [fieldsOutcome, missing, atFields, Builder.run, Builder.call, Builder.callHandle,
      Builder.callCompound, Builder.finishCompound, Frame.close, Builder.model, closed]
    cases outer <;> rfl

/-- **What comes of a struct whose fields are given is told by the fields alone.** -/
theorem GivesFields.outcome (valid : p.model.schema.Valid) (once : p.model.schema.RenamesOnce)
    (body : p.model.schema.body type = .struct fields (.map keys)) {calls : List Call}
    (h : p.GivesFields fields keys view given calls) (apart : (given.map (·.1)).Nodup)
    (member : Option Nat) (outer : List Handle) :
    ∃ replies, (p.atFields type member keys fields outer view []).run (calls ++ [.finish, .drop]) =
      ((p.fieldsOutcome type member fields outer given).1,
        replies ++ [(p.fieldsOutcome type member fields outer given).2, .done]) := by
  obtain ⟨last, run⟩ := h.run valid once body [] apart
  exact ⟨_, by rw [Builder.run_append, run, run_finish]; rfl⟩

/-- What comes of a struct does not depend on the order in which its fields are given. -/
theorem fieldsOutcome_perm {given' : List (Nat × Option Value)} (perm : given.Perm given')
    (apart : (given.map (·.1)).Nodup) :
    p.fieldsOutcome type member fields outer given =
      p.fieldsOutcome type member fields outer given' := by
  rw [fieldsOutcome, fieldsOutcome, p.model.filled_perm type fields perm apart]

theorem run_map (body : p.model.schema.body type = .struct fields (.map keys)) (view : View)
    (nullable : Bool) :
    ((⟨p, .building, outer, some ⟨.value type, view, nullable⟩⟩ : Builder).run [.map]).1 =
      p.atFields type none keys fields outer view [] := by
  have opened : Opening.openMap p.model ⟨.value type, view, nullable⟩ =
      .ok (p.model.fieldsFrame type view none (.map keys) fields []) := by
    refine Opening.openMap_eq_ok_iff.mpr ⟨none, type, _, ?_, ?_, rfl⟩
    · simp only [Schema.target?, body]
    · cases view with
      | typed => exact Model.mapContent?_eq_some_iff.mpr (.fields body rfl)
      | representation => exact Model.mapContent?_eq_some_iff.mpr (.fields body rfl)
  simp only [Builder.run, Builder.call, Builder.callOpening, Builder.enter, Builder.model, opened]
  rfl

/-- A struct whose fields are given, with none missing, is in turn given to where it is expected. -/
theorem GivesFields.gives (valid : p.model.schema.Valid) (once : p.model.schema.RenamesOnce)
    (body : p.model.schema.body type = .struct fields (.map keys)) {calls : List Call}
    (h : p.GivesFields fields keys view given calls) (apart : (given.map (·.1)).Nodup)
    (complete : missing? fields (p.model.filled type fields given) = none) (nullable : Bool) :
    p.Gives ⟨.value type, view, nullable⟩ ([.map] ++ (calls ++ [.finish, .drop]))
      (some (.struct (p.model.filled type fields given))) := by
  intro handle outer
  obtain ⟨replies, run⟩ := h.outcome valid once body apart none (handle :: outer)
  rw [Builder.run_append, run_map body, run, fieldsOutcome, complete]
  rfl

end Fields

end Prototype

end DualView
