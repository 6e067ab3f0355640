import DualView.Proofs.Outcome
import DualView.Proofs.Schema.Naming
import DualView.Schema.Collection

/-!
# What a frozen schema guarantees

A schema is *valid* if no declaration in it has a fault.  Freezing gives valid schemas only
(`Schema.valid_of_finalize`), and the rest of this file says what validity means for each form of
declaration: for structs (`Schema.Valid.fields_nodup` to `Schema.Valid.joined`), for unions
(`Schema.Valid.members_nodup` to `Schema.Valid.kindedMember?_iff`), for enums and for the keys of
maps.

`Schema.RenamesOnce` is not part of validity: a list of renamings may name a field twice, and then
the two directions of the renaming do not agree.
-/

namespace DualView

/-! ## Repetition -/

theorem firstRepeat_nil_eq_none_iff {α : Type} [DecidableEq α] {xs : List α} :
    firstRepeat [] xs = none ↔ xs.Nodup := by
  simp [firstRepeat_eq_none_iff]

/-- Nothing else is renamed and no key is repeated: the renaming separates the names. -/
theorem Renaming.separates_iff {names : List String} {keys : Renaming} :
    (keys.pairs.find? (·.1 ∉ names) = .none ∧ firstRepeat [] (names.map keys.keyOf) = .none) ↔
      keys.Separates names := by
  rw [firstRepeat_nil_eq_none_iff]
  constructor
  · rintro ⟨hd, ha⟩
    exact ⟨fun p hp => by simpa using List.find?_eq_none.mp hd p hp, ha⟩
  · rintro ⟨hd, ha⟩
    exact ⟨List.find?_eq_none.mpr fun p hp => by simpa using hd p hp, ha⟩

namespace Schema

def Valid (s : Schema) : Prop := ∀ id, s.fault? (s.body id) = none

theorem valid_of_finalize {ts : TypeSystem} {s : Schema} (h : ts.finalize = .ok s) : s.Valid := by
  rw [TypeSystem.finalize, bind_eq_ok_iff] at h
  obtain ⟨ds, -, h⟩ := h
  dsimp only at h
  split at h
  · contradiction
  · rename_i hf
    obtain rfl := Except.ok.inj h
    intro id
    rw [body, decl]
    cases hd : ds[id]? with
    | none => simp [vacant, fault?, enumFault?, firstRepeat, Renaming.none]
    | some d =>
      have := List.findSome?_eq_none_iff.mp hf d (List.mem_of_getElem? hd)
      simpa using this

/-! ## Renamings without repetition -/

/-- No renaming of the fields of a struct or of the members of a string enum names one twice. -/
def RenamesOnce (s : Schema) : Prop := ∀ d ∈ s.decls,
  match d.body with
  | .struct _ repr => ∀ keys ∈ repr.keys?, keys.NamesOnce
  | .enum _ (.string keys) => keys.NamesOnce
  | _ => True

theorem RenamesOnce.struct {s : Schema} (h : s.RenamesOnce) {type : TypeId}
    {fields : List (Field TypeId)} {repr : StructRepr} {keys : Renaming}
    (body : s.body type = .struct fields repr) (hk : repr.keys? = some keys) :
    keys.NamesOnce := by
  rw [Schema.body, decl] at body
  cases hd : s.decls[type]? with
  | none => simp [hd, vacant] at body
  | some d =>
    rw [hd, Option.getD_some] at body
    have := h d (List.mem_of_getElem? hd)
    rw [body] at this
    exact this keys hk

theorem RenamesOnce.enum {s : Schema} (h : s.RenamesOnce) {type : TypeId} {members : List String}
    {keys : Renaming} (body : s.body type = .enum members (.string keys)) : keys.NamesOnce := by
  rw [Schema.body, decl] at body
  cases hd : s.decls[type]? with
  | none =>
    simp only [hd, vacant, Option.getD_none, Body.enum.injEq, EnumRepr.string.injEq] at body
    exact body.2 ▸ Renaming.namesOnce_none
  | some d =>
    rw [hd, Option.getD_some] at body
    have := h d (List.mem_of_getElem? hd)
    rwa [body] at this

namespace Valid

variable {s : Schema} {type : TypeId}

/-! ## Maps -/

theorem mapKey (h : s.Valid) {key value : TypeId} {nullable : Bool} {nulls : NullPolicy}
    (body : s.body type = .map key value nullable nulls) :
    (s.decl key).reprKind? = some (.scalar .string) := by
  have := h type
  rw [body, fault?, mapFault?] at this
  split at this
  · assumption
  · contradiction

/-! ## Structs -/

section Structs

variable {fields : List (Field TypeId)}

theorem fields_nodup (h : s.Valid) {repr : StructRepr} (body : s.body type = .struct fields repr) :
    (fields.map (·.name)).Nodup := by
  have := h type
  rw [body, fault?, structFault?.eq_def, Option.orElse_eq_none, Option.map_eq_none_iff] at this
  exact firstRepeat_nil_eq_none_iff.mp this.1

theorem keysFault?_eq_none_iff {names : List String} {keys : Renaming} :
    keysFault? names keys = none ↔ keys.Separates names := by
  rw [keysFault?, Option.orElse_eq_none, Option.map_eq_none_iff, Option.map_eq_none_iff,
    Renaming.separates_iff]

theorem separates (h : s.Valid) {repr : StructRepr} {keys : Renaming}
    (body : s.body type = .struct fields repr) (hk : repr.keys? = some keys) :
    keys.Separates (fields.map (·.name)) := by
  have := h type
  rw [body, fault?, structFault?.eq_def, Option.orElse_eq_none] at this
  cases repr with
  | map keys' | listpairs keys' =>
    obtain rfl := Option.some.inj hk
    exact keysFault?_eq_none_iff.mp this.2
  | tuple | stringjoin _ => simp [StructRepr.keys?] at hk

theorem tuple (h : s.Valid) (body : s.body type = .struct fields .tuple) {f : Field TypeId}
    (hf : f ∈ fields) : f.optional = false := by
  have := h type
  rw [body, fault?, structFault?, Option.orElse_eq_none, Option.map_eq_none_iff,
    Option.map_eq_none_iff] at this
  simpa using List.find?_eq_none.mp this.2 f hf

theorem joined (h : s.Valid) {separator : String}
    (body : s.body type = .struct fields (.stringjoin separator)) :
    separator ≠ "" ∧ fields ≠ [] ∧ ∀ f ∈ fields,
      f.optional = false ∧ f.nullable = false ∧ s.body f.type = .scalar .string := by
  have hv := h type
  rw [body, fault?, structFault?, Option.orElse_eq_none] at hv
  have hv := hv.2
  split at hv
  · contradiction
  split at hv
  · contradiction
  · rename_i hs hn
    refine ⟨fun e => hs (by simp [e]), fun e => hn (by simp [e]), fun f hf => ?_⟩
    have hj := List.findSome?_eq_none_iff.mp hv f hf
    rw [joinedFault?] at hj
    split at hj
    · contradiction
    split at hj
    · rename_i hm hb
      simp only [Field.isMaybe, Bool.or_eq_true, not_or, Bool.not_eq_true] at hm
      exact ⟨hm.1, hm.2, hb⟩
    · contradiction

end Structs

/-! ## Unions -/

section Unions

variable {members : List TypeId}

theorem members_nodup (h : s.Valid) {repr : UnionRepr} (body : s.body type = .union members repr) :
    (members.map s.nameOf).Nodup := by
  have := h type
  rw [body, fault?, unionFault?.eq_def] at this
  split at this
  · contradiction
  · rw [Option.orElse_eq_none, Option.map_eq_none_iff] at this
    exact firstRepeat_nil_eq_none_iff.mp this.1

theorem discriminants (h : s.Valid) {ds : Labels String}
    (body : s.body type = .union members (.keyed ds)) : ds.Covers (members.map s.nameOf) := by
  have := h type
  rw [body, fault?, unionFault?] at this
  split at this
  · contradiction
  · rw [Option.orElse_eq_none, Option.map_eq_none_iff, Option.map_eq_none_iff] at this
    exact Labels.fault?_eq_none_iff.mp this.2

theorem kindsFault?_eq_none_iff {seen : List Kind} {members : List TypeId} :
    s.kindsFault? seen members = none ↔
      ∃ kinds : List Kind, members.map (fun m => (s.decl m).reprKind?) = kinds.map some ∧
        kinds.Nodup ∧ ∀ k ∈ kinds, k ∉ seen := by
  induction members generalizing seen with
  | nil => simp [kindsFault?]
  | cons member rest ih =>
    rw [kindsFault?]
    split
    · rename_i hn
      simp only [reduceCtorEq, false_iff, not_exists]
      rintro (_ | ⟨k, kinds⟩) ⟨he, -⟩
      · simp at he
      · simp [hn] at he
    · rename_i kind hk
      split
      · rename_i hs
        simp only [reduceCtorEq, false_iff, not_exists]
        rintro (_ | ⟨k, kinds⟩) ⟨he, -, hd⟩
        · simp at he
        · simp only [List.map_cons, List.cons.injEq, hk, Option.some.injEq] at he
          exact hd k List.mem_cons_self (he.1 ▸ hs)
      · rename_i hs
        rw [ih]
        constructor
        · rintro ⟨kinds, he, hn, hd⟩
          refine ⟨kind :: kinds, by simp [hk, he], ?_, ?_⟩
          · exact List.nodup_cons.mpr ⟨fun hm => hd kind hm List.mem_cons_self, hn⟩
          · rintro k (_ | ⟨_, hm⟩)
            · exact hs
            · intro h
              exact hd k hm (List.mem_cons_of_mem _ h)
        · rintro ⟨_ | ⟨k, kinds⟩, he, hn, hd⟩
          · simp at he
          · simp only [List.map_cons, List.cons.injEq, hk, Option.some.injEq] at he
            obtain ⟨rfl, he⟩ := he
            rw [List.nodup_cons] at hn
            refine ⟨kinds, he, hn.2, fun k' hm => ?_⟩
            rw [List.mem_cons, not_or]
            exact ⟨fun e => hn.1 (e ▸ hm), hd k' (List.mem_cons_of_mem _ hm)⟩

theorem kinds (h : s.Valid) (body : s.body type = .union members .kinded) :
    ∃ kinds : List Kind, members.map (fun m => (s.decl m).reprKind?) = kinds.map some ∧
      kinds.Nodup := by
  have := h type
  rw [body, fault?, unionFault?] at this
  split at this
  · contradiction
  · rw [Option.orElse_eq_none] at this
    obtain ⟨kinds, he, hn, -⟩ := kindsFault?_eq_none_iff.mp this.2
    exact ⟨kinds, he, hn⟩

end Unions

/-! ## Enums -/

section Enums

variable {members : List String}

theorem enum_nodup (h : s.Valid) {repr : EnumRepr} (body : s.body type = .enum members repr) :
    members.Nodup := by
  have := h type
  rw [body, fault?, enumFault?.eq_def, Option.orElse_eq_none, Option.map_eq_none_iff] at this
  exact firstRepeat_nil_eq_none_iff.mp this.1

theorem enum_separates (h : s.Valid) {keys : Renaming}
    (body : s.body type = .enum members (.string keys)) : keys.Separates members := by
  have := h type
  rw [body, fault?, enumFault?, Option.orElse_eq_none] at this
  have := this.2
  rw [Option.orElse_eq_none, Option.map_eq_none_iff, Option.map_eq_none_iff] at this
  exact Renaming.separates_iff.mp this

theorem enum_values (h : s.Valid) {values : Labels Int64}
    (body : s.body type = .enum members (.int values)) : values.Covers members := by
  have := h type
  rw [body, fault?, enumFault?, Option.orElse_eq_none, Option.map_eq_none_iff,
    Option.map_eq_none_iff] at this
  exact Labels.fault?_eq_none_iff.mp this.2

end Enums

end Valid

/-! ## The member of a kind -/

theorem kindedMember?_spec {s : Schema} {members : List TypeId} {kind : Kind} {i : Nat}
    {member : TypeId} (h : s.kindedMember? members kind = some (i, member)) :
    members[i]? = some member ∧ (s.decl member).reprKind? = some kind := by
  rw [kindedMember?, Option.bind_eq_some_iff] at h
  obtain ⟨j, hj, h⟩ := h
  obtain ⟨m, hm, he⟩ := Option.map_eq_some_iff.mp h
  cases he
  obtain ⟨hlt, hp, -⟩ := List.findIdx?_eq_some_iff_getElem.mp hj
  rw [List.getElem?_eq_getElem hlt, Option.some.injEq] at hm
  subst hm
  exact ⟨List.getElem?_eq_getElem hlt, by simpa using hp⟩

/-- **A kind leads to the member that is represented with it.** -/
theorem Valid.kindedMember?_iff {s : Schema} (h : s.Valid) {type : TypeId} {members : List TypeId}
    (body : s.body type = .union members .kinded) {kind : Kind} {i : Nat} {member : TypeId} :
    s.kindedMember? members kind = some (i, member) ↔
      members[i]? = some member ∧ (s.decl member).reprKind? = some kind := by
  refine ⟨kindedMember?_spec, fun ⟨hm, hk⟩ => ?_⟩
  obtain ⟨kinds, he, hn⟩ := h.kinds body
  have at_kind : ∀ {j m}, members[j]? = some m → kinds[j]?.map some = some (s.decl m).reprKind? :=
    fun {j m} hj => by rw [← List.getElem?_map, ← he, List.getElem?_map, hj, Option.map_some]
  have hex : (members.findIdx? fun m => (s.decl m).reprKind? == some kind) ≠ none := fun hnone => by
    have := List.findIdx?_eq_none_iff.mp hnone member (List.mem_of_getElem? hm)
    simp [hk] at this
  obtain ⟨j, hj⟩ := Option.ne_none_iff_exists'.mp hex
  obtain ⟨hlt, hp, -⟩ := List.findIdx?_eq_some_iff_getElem.mp hj
  have hkj := at_kind (List.getElem?_eq_getElem hlt)
  have hki := at_kind hm
  rw [eq_of_beq hp] at hkj
  rw [hk] at hki
  obtain ⟨k, hk1, hk2⟩ := Option.map_eq_some_iff.mp hkj
  obtain ⟨k', hk1', hk2'⟩ := Option.map_eq_some_iff.mp hki
  cases hk2
  cases hk2'
  obtain rfl : j = i := (List.getElem?_inj (List.getElem?_eq_some_iff.mp hk1).1 hn).mp
    (hk1.trans hk1'.symm)
  rw [kindedMember?, hj, Option.bind_some, hm, Option.map_some]

end Schema

end DualView
