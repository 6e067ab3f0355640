import DualView.Proofs.Assembly.Levels

/-!
# Fields of a struct, as they are copied

Frames that hold a struct differ in how they are told which field comes next: by a key, by a pair
with a key, or by its place.  Each ends up with the slots that are filled by what it was given, and
was given it in any order, but no field twice.

* `Opening.run_fields_iff`: the run that pairs and entries have in common.
* `Opening.copyItems_pairs_iff`, `Opening.copyEntries_fields_iff`, `Opening.copyItems_tuple_iff`:
  what is copied into each of the three frames.
-/

namespace DualView

/-! ## Frames -/

def Model.pairsFrame (m : Model) (type : TypeId) (view : View)
    (member : Option Nat) (keys : Renaming) (fields : List (Field TypeId))
    (given : List (Nat × Option Value)) : ListFrame :=
  ⟨type, view, member, .pairs keys fields (m.filled type fields given), false⟩

def Model.fieldsFrame (m : Model) (type : TypeId) (view : View) (member : Option Nat)
    (repr : StructRepr) (fields : List (Field TypeId)) (given : List (Nat × Option Value)) :
    MapFrame :=
  ⟨type, view, member, .fields fields repr (m.filled type fields given), .idle⟩

def Model.tupleFrame (m : Model) (type : TypeId) (view : View) (member : Option Nat)
    (fields : List (Field TypeId)) (given : List (Nat × Option Value)) : ListFrame :=
  ⟨type, view, member, .tuple fields (m.filled type fields given) given.length, false⟩

namespace Opening

variable {m : Model} {view : View}

/-! ## Fields, as they are given -/

/-- Fields are copied under their keys, after those that are given already. -/
structure CopiesFields (m : Model) (view : View) (keys : Renaming) (fields : List (Field TypeId))
    (given : List Nat) (ks : List (String × CopiedField)) : Prop where
  found : ∀ p ∈ ks, Field.Found keys fields p.1 p.2.index
  apart : (given ++ ks.map (·.2.index)).Nodup
  values : ∀ p ∈ ks, ∀ f, fields[p.2.index]? = some f →
    m.Copies view f.nullable f.type p.2.tree p.2.content

section Fields

variable {keys : Renaming} {fields : List (Field TypeId)} {given : List (Nat × Option Value)}

theorem copiesFields_nil {given : List Nat} (apart : given.Nodup) :
    CopiesFields m view keys fields given [] :=
  ⟨List.forall_mem_nil _, by simpa using apart, List.forall_mem_nil _⟩

theorem copiesFields_cons_iff {given : List Nat} {p : String × CopiedField}
    {ks : List (String × CopiedField)} :
    CopiesFields m view keys fields given (p :: ks) ↔
      Field.Found keys fields p.1 p.2.index ∧
        (∀ f, fields[p.2.index]? = some f → m.Copies view f.nullable f.type p.2.tree p.2.content) ∧
        CopiesFields m view keys fields (given ++ [p.2.index]) ks := by
  have happ : given ++ (p :: ks).map (·.2.index) =
      given ++ [p.2.index] ++ ks.map (·.2.index) := by simp
  constructor
  · rintro ⟨hf, ha, hv⟩
    exact ⟨hf p List.mem_cons_self, hv p List.mem_cons_self,
      fun q hq => hf q (List.mem_cons_of_mem p hq), happ ▸ ha,
      fun q hq => hv q (List.mem_cons_of_mem p hq)⟩
  · rintro ⟨hf, hv, hfs, ha, hvs⟩
    exact ⟨List.forall_mem_cons.mpr ⟨hf, hfs⟩, happ ▸ ha, List.forall_mem_cons.mpr ⟨hv, hvs⟩⟩

theorem CopiesFields.fresh {given : List Nat} {i : Nat} {ks : List (String × CopiedField)}
    (h : CopiesFields m view keys fields (given ++ [i]) ks) : i ∉ given := by
  have := (List.nodup_append.mp (List.nodup_append.mp h.apart).1).2.2
  intro hi
  exact this i hi i (List.mem_singleton_self i) rfl

theorem copy_pair_iff (valid : m.schema.Valid) {owner type : TypeId} {t : Tree} {piece : Piece} :
    copy m ⟨.pair owner keys fields (m.filled type fields given), view, false⟩ t = .ok piece ↔
      ∃ key i f t' c, t = .list [.scalar (.string key), t'] ∧ Field.Found keys fields key i ∧
        i ∉ given.map (·.1) ∧ fields[i]? = some f ∧ m.Copies view f.nullable f.type t' c ∧
        piece = .field i c := by
  constructor
  · intro h
    cases t with
    | null => contradiction
    | scalar a => contradiction
    | map entries =>
      obtain ⟨f, f', hf, -⟩ := copy_map_iff.mp h
      contradiction
    | list items =>
      obtain ⟨f, f', hf, hi, hc⟩ := copy_list_iff.mp h
      cases hf
      rcases items with _ | ⟨k, items⟩
      · cases hi
        contradiction
      obtain ⟨f₁, o, kp, hitem, hk, hi⟩ := copyItems_cons_iff.mp hi
      cases hitem
      obtain ⟨key, rfl, rfl⟩ := copy_name_iff.mp hk
      rcases items with _ | ⟨t', items⟩
      · cases hi
        contradiction
      obtain ⟨f₂, o, vp, hitem, hv, hi⟩ := copyItems_cons_iff.mp hi
      obtain ⟨⟨i, o'⟩, ho, hitem⟩ := bind_eq_ok_iff.mp hitem
      cases hitem
      obtain ⟨hfound, hnew, fld, hfld, rfl⟩ := Schema.openField_filled_iff.mp ho
      obtain ⟨c, rfl⟩ := copy_value_content valid hv
      rcases items with _ | ⟨x, items⟩
      · cases hi
        cases hc
        exact ⟨key, i, fld, t', c, rfl, hfound, hnew, hfld, hv, rfl⟩
      · obtain ⟨f₃, o, xp, hitem, -⟩ := copyItems_cons_iff.mp hi
        contradiction
  · rintro ⟨key, i, f, t', c, rfl, hfound, hnew, hf, hv, rfl⟩
    have ho : m.schema.openField owner view keys fields (m.filled type fields given) key =
        .ok (i, ⟨.value f.type, view, f.nullable⟩) :=
      Schema.openField_filled_iff.mpr ⟨hfound, hnew, f, hf, rfl⟩
    let pair (stage : PairStage) : ListFrame :=
      ⟨owner, view, none, .pair keys fields (m.filled type fields given) stage, false⟩
    have hkey : (pair .empty).item m = .ok (pair .key, ⟨.name owner, view, false⟩) := rfl
    have hvalue : (pair (.keyed key)).item m =
        .ok (pair (.value i), ⟨.value f.type, view, f.nullable⟩) :=
      bind_eq_ok_iff.mpr ⟨_, ho, rfl⟩
    refine copy_list_iff.mpr ⟨pair .empty, pair (.full i c), rfl, ?_, rfl⟩
    refine copyItems_cons_iff.mpr ⟨_, _, _, hkey, copy_name_iff.mpr ⟨key, rfl, rfl⟩, ?_⟩
    exact copyItems_cons_iff.mpr ⟨_, _, _, hvalue, hv, rfl⟩

theorem nodup_given_concat (apart : (given.map (·.1)).Nodup) {i : Nat} (c : Option Value)
    (new : i ∉ given.map (·.1)) : ((given ++ [(i, c)]).map (·.1)).Nodup := by
  rw [List.map_append, List.nodup_append]
  refine ⟨apart, List.nodup_singleton i, fun j hj k hk => ?_⟩
  rintro rfl
  exact new ((List.mem_singleton.mp hk : j = i) ▸ hj)

/-- Where each step copies one field that is not given yet, all steps copy fields.  `Run given xs r`
says that the elements `xs` lead from the fields that are given to the outcome `r`. -/
theorem run_fields_iff {α β : Type} (shape : String → Tree → α)
    (out : List (Nat × Option Value) → β)
    (Run : List (Nat × Option Value) → List α → β → Prop)
    (nil : ∀ given r, Run given [] r ↔ r = out given)
    (cons : ∀ given x xs r, Run given (x :: xs) r ↔
      ∃ key i f t c, x = shape key t ∧ Field.Found keys fields key i ∧ i ∉ given.map (·.1) ∧
        fields[i]? = some f ∧ m.Copies view f.nullable f.type t c ∧ Run (given ++ [(i, c)]) xs r)
    {xs : List α} {r : β} (apart : (given.map (·.1)).Nodup) :
    Run given xs r ↔
      ∃ ks, ks.map (fun p => shape p.1 p.2.tree) = xs ∧
        CopiesFields m view keys fields (given.map (·.1)) ks ∧
        r = out (given ++ (ks.map (·.2)).map CopiedField.given) := by
  induction xs generalizing given with
  | nil =>
    rw [nil]
    constructor
    · rintro rfl
      exact ⟨[], rfl, copiesFields_nil apart, by simp⟩
    · rintro ⟨ks, hks, -, rfl⟩
      simp [List.map_eq_nil_iff.mp hks]
  | cons x xs ih =>
    rw [cons]
    constructor
    · rintro ⟨key, i, f, t, c, rfl, hfound, hnew, hf, hc, hr⟩
      obtain ⟨ks, rfl, hks, rfl⟩ := (ih (nodup_given_concat apart c hnew)).mp hr
      refine ⟨(key, ⟨i, t, c⟩) :: ks, rfl, copiesFields_cons_iff.mpr ⟨hfound, ?_, ?_⟩, by simp⟩
      · intro g hg
        cases hf.symm.trans hg
        exact hc
      · simpa using hks
    · rintro ⟨ks, hks, hcopies, rfl⟩
      obtain ⟨⟨key, i, t, c⟩, ks, rfl, rfl, rfl⟩ := List.map_eq_cons_iff.mp hks
      obtain ⟨hfound, hc, hrest⟩ := copiesFields_cons_iff.mp hcopies
      obtain ⟨f, hf⟩ := hfound.exists
      refine ⟨key, i, f, t, c, rfl, hfound, hrest.fresh, hf, hc f hf, ?_⟩
      exact (ih (nodup_given_concat apart c hrest.fresh)).mpr ⟨ks, rfl, by simpa using hrest, by simp⟩

/-- What is copied as the fields of a struct, by pairs. -/
theorem copyItems_pairs_iff (given : List (Nat × Option Value)) (valid : m.schema.Valid)
    {type : TypeId} {member : Option Nat}
    {items : List Tree} {f' : ListFrame} (apart : (given.map (·.1)).Nodup) :
    copyItems m (m.pairsFrame type view member keys fields given) items = .ok f' ↔
      ∃ ks, ks.map (fun p => .list [.scalar (.string p.1), p.2.tree]) = items ∧
        CopiesFields m view keys fields (given.map (·.1)) ks ∧
        f' = m.pairsFrame type view member keys fields
          (given ++ (ks.map (·.2)).map CopiedField.given) := by
  refine run_fields_iff (fun key t => .list [.scalar (.string key), t])
    (m.pairsFrame type view member keys fields)
    (fun given items f' =>
      copyItems m (m.pairsFrame type view member keys fields given) items = .ok f') ?_ ?_ apart
  · intro given r
    rw [copyItems]
    exact ⟨fun h => (Except.ok.inj h).symm, fun h => congrArg Except.ok h.symm⟩
  · intro given t rest r
    rw [copyItems_cons_iff]
    constructor
    · rintro ⟨f₁, o, piece, hitem, hp, hr⟩
      cases hitem
      obtain ⟨key, i, f, t', c, rfl, hfound, hnew, hf, hc, rfl⟩ := (copy_pair_iff valid).mp hp
      refine ⟨key, i, f, t', c, rfl, hfound, hnew, hf, hc, ?_⟩
      rw [Model.pairsFrame, ← fillSlot_filled hnew]
      exact hr
    · rintro ⟨key, i, f, t', c, rfl, hfound, hnew, hf, hc, hr⟩
      rw [Model.pairsFrame, ← fillSlot_filled hnew] at hr
      exact ⟨_, _, .field i c, rfl, (copy_pair_iff valid).mpr
        ⟨key, i, f, t', c, rfl, hfound, hnew, hf, hc, rfl⟩, hr⟩

theorem openNamed_fields_iff {type : TypeId} {member : Option Nat} {repr : StructRepr}
    {phase : MapPhase} {key : String} {f' : MapFrame} {o : Opening}
    (keyed : repr.entryKeys? view = some keys) :
    MapFrame.openNamed m ⟨type, view, member, .fields fields repr (m.filled type fields given),
        phase⟩ key = .ok (f', o) ↔
      ∃ i f, Field.Found keys fields key i ∧ i ∉ given.map (·.1) ∧ fields[i]? = some f ∧
        f' = ⟨type, view, member, .fields fields repr (m.filled type fields given), .slot i⟩ ∧
        o = ⟨.value f.type, view, f.nullable⟩ := by
  have hkeys := StructRepr.keys_of_entryKeys? keyed
  subst hkeys
  constructor
  · intro h
    obtain ⟨⟨i, o'⟩, ho, h⟩ := bind_eq_ok_iff.mp h
    cases h
    obtain ⟨hfound, hnew, f, hf, rfl⟩ := Schema.openField_filled_iff.mp ho
    exact ⟨i, f, hfound, hnew, hf, rfl, rfl⟩
  · rintro ⟨i, f, hfound, hnew, hf, rfl, rfl⟩
    exact bind_eq_ok_iff.mpr
      ⟨_, Schema.openField_filled_iff.mpr ⟨hfound, hnew, f, hf, rfl⟩, rfl⟩

/-- What is copied as the fields of a struct, by entries. -/
theorem copyEntries_fields_iff (given : List (Nat × Option Value)) (valid : m.schema.Valid)
    {type : TypeId} {member : Option Nat}
    {repr : StructRepr} {entries : List (Tree × Tree)} {f' : MapFrame}
    (keyed : repr.entryKeys? view = some keys) (apart : (given.map (·.1)).Nodup) :
    copyEntries m (m.fieldsFrame type view member repr fields given) entries = .ok f' ↔
      ∃ ks, ks.map (fun p => (.scalar (.string p.1), p.2.tree)) = entries ∧
        CopiesFields m view keys fields (given.map (·.1)) ks ∧
        f' = m.fieldsFrame type view member repr fields
          (given ++ (ks.map (·.2)).map CopiedField.given) := by
  refine run_fields_iff (fun key t => (.scalar (.string key), t))
    (m.fieldsFrame type view member repr fields)
    (fun given entries f' =>
      copyEntries m (m.fieldsFrame type view member repr fields given) entries = .ok f') ?_ ?_ apart
  · intro given r
    rw [copyEntries]
    exact ⟨fun h => (Except.ok.inj h).symm, fun h => congrArg Except.ok h.symm⟩
  · rintro given ⟨k, t⟩ rest r
    rw [copyEntries_cons_iff]
    constructor
    · rintro ⟨f₁, ok, kp, f₂, o, piece, hkey, hk, hvalue, hp, hr⟩
      cases hkey
      obtain ⟨key, rfl, rfl⟩ := copy_name_iff.mp hk
      obtain ⟨i, f, hfound, hnew, hf, rfl, rfl⟩ := (openNamed_fields_iff keyed).mp hvalue
      obtain ⟨c, rfl⟩ := copy_value_content valid hp
      refine ⟨key, i, f, t, c, rfl, hfound, hnew, hf, hp, ?_⟩
      rw [Model.fieldsFrame, ← fillSlot_filled hnew]
      exact hr
    · rintro ⟨key, i, f, t', c, he, hfound, hnew, hf, hc, hr⟩
      cases he
      rw [Model.fieldsFrame, ← fillSlot_filled hnew] at hr
      exact ⟨_, _, _, _, _, _, rfl, copy_name_iff.mpr ⟨key, rfl, rfl⟩,
        (openNamed_fields_iff keyed).mpr ⟨i, f, hfound, hnew, hf, rfl, rfl⟩, hc, hr⟩

end Fields

/-! ## Fields by position -/

theorem item_tuple_iff {type : TypeId} {member : Option Nat} {fields : List (Field TypeId)}
    {given : List (Nat × Option Value)} {f₁ : ListFrame} {o : Opening} :
    (m.tupleFrame type view member fields given).item m = .ok (f₁, o) ↔
      ∃ f, fields[given.length]? = some f ∧
        f₁ = { m.tupleFrame type view member fields given with busy := true } ∧
        o = ⟨.value f.type, view, f.nullable⟩ := by
  constructor
  · intro h
    obtain ⟨-, -, h⟩ := bind_eq_ok_iff.mp h
    split at h
    · rename_i f hf
      cases h
      exact ⟨f, hf, rfl, rfl⟩
    · contradiction
  · rintro ⟨f, hf, rfl, rfl⟩
    refine bind_eq_ok_iff.mpr ⟨(), rfl, ?_⟩
    simp only [hf]
    rfl

/-- What is copied as the fields of a struct, by position. -/
theorem copyItems_tuple_iff (valid : m.schema.Valid) {type : TypeId} {member : Option Nat}
    {fields : List (Field TypeId)} (given : List (Nat × Option Value)) {items : List Tree}
    {f' : ListFrame} (first : given.map (·.1) = List.range given.length)
    (bound : given.length ≤ fields.length) :
    copyItems m (m.tupleFrame type view member fields given) items = .ok f' ↔
      ∃ ps : List CopiedField, ps.map (·.tree) = items ∧
        ps.map (·.index) = List.range' given.length ps.length ∧
        given.length + ps.length ≤ fields.length ∧
        (∀ p ∈ ps, ∀ f, fields[p.index]? = some f →
          m.Copies view f.nullable f.type p.tree p.content) ∧
        f' = m.tupleFrame type view member fields
          (given ++ ps.map CopiedField.given) := by
  induction items generalizing given with
  | nil =>
    rw [copyItems]
    constructor
    · intro h
      cases h
      exact ⟨[], rfl, rfl, bound, List.forall_mem_nil _, by simp⟩
    · rintro ⟨ps, hps, -, -, -, rfl⟩
      simp [List.map_eq_nil_iff.mp hps]
  | cons t rest ih =>
    have hnew : given.length ∉ given.map (·.1) := by rw [first]; exact List.not_mem_range_self
    -- the frame after one more field
    have hplace (c : Option Value) :
        ListFrame.place { m.tupleFrame type view member fields given with busy := true } (.content c)
          = m.tupleFrame type view member fields (given ++ [(given.length, c)]) := by
      rw [Model.tupleFrame, Model.tupleFrame, ← fillSlot_filled hnew, List.length_append]
      rfl
    have ih' (c : Option Value) (hlt : given.length < fields.length) :=
      ih (given ++ [(given.length, c)]) (by simp [first, List.range_succ])
        (by rw [List.length_append]; exact hlt)
    rw [copyItems_cons_iff]
    constructor
    · rintro ⟨f₁, o, piece, hitem, hp, hr⟩
      obtain ⟨f, hf, rfl, rfl⟩ := item_tuple_iff.mp hitem
      obtain ⟨c, rfl⟩ := copy_value_content valid hp
      have hlt : given.length < fields.length := (List.getElem?_eq_some_iff.mp hf).1
      rw [hplace, ih' c hlt] at hr
      obtain ⟨ps, rfl, hindex, hbound, hps, rfl⟩ := hr
      rw [List.length_append, List.length_singleton] at hindex hbound
      refine ⟨⟨given.length, t, c⟩ :: ps, rfl, ?_, ?_, ?_, by simp⟩
      · rw [List.map_cons, hindex, List.length_cons, List.range'_succ]
      · rw [List.length_cons]
        omega
      · refine List.forall_mem_cons.mpr ⟨fun g hg => ?_, hps⟩
        cases hf.symm.trans hg
        exact hp
    · rintro ⟨ps, hps, hindex, hbound, hc, rfl⟩
      obtain ⟨⟨i, t, c⟩, ps, rfl, rfl, rfl⟩ := List.map_eq_cons_iff.mp hps
      rw [List.map_cons, List.length_cons, List.range'_succ, List.cons.injEq] at hindex
      obtain ⟨rfl : i = given.length, hindex⟩ := hindex
      rw [List.length_cons] at hbound
      obtain ⟨hc, hrest⟩ := List.forall_mem_cons.mp hc
      have hlt : given.length < fields.length := by omega
      have hf := List.getElem?_eq_getElem hlt
      refine ⟨_, _, .content c, item_tuple_iff.mpr ⟨_, hf, rfl, rfl⟩, hc _ hf, ?_⟩
      rw [hplace, ih' c hlt]
      refine ⟨ps, rfl, ?_, ?_, hrest, by simp⟩
      · simpa using hindex
      · rw [List.length_append, List.length_singleton]
        omega

end Opening

end DualView
