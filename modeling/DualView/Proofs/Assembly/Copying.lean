import DualView.Proofs.Assembly.EntryRuns
import DualView.Proofs.Assembly.FieldRuns
import DualView.Proofs.Node.Tree
import DualView.Prototype

/-!
# What is copied

Level by level, a tree copies to exactly what it builds.

* `Opening.builds_of_copyItems`, `Opening.copyItems_of_builds` and the same for entries: what is
  copied into a compound that has begun is one level of it.
* `Opening.copies_list_iff`, `Opening.copies_map_iff`: one level, with the type that takes it.
* `Model.copies_none_iff`, `Model.copies_some_iff`: a tree copies to a null, or builds a value.
* `Prototype.buildFrom_eq_ok_iff`: what is built from a node.
-/

namespace DualView

namespace Opening

variable {m : Model} {view : View}

/-! ## One level -/

theorem copies_null_iff {type : TypeId} {nullable : Bool} {c : Option Value} :
    m.Copies view nullable type .null c ↔ nullable = true ∧ c = none := by
  rw [Model.Copies, copy, null]
  cases nullable <;> simp [eq_comm]

theorem copies_scalar_iff {type : TypeId} {nullable : Bool} {a : Scalar} {c : Option Value} :
    m.Copies view nullable type (.scalar a) c ↔
      ∃ member target v, m.schema.target? view type (.scalar a.kind) = some (member, target) ∧
        m.Denotes view target a v ∧ c = some (v.wrap member) := by
  constructor
  · intro h
    obtain ⟨w, hw, he⟩ := map_eq_ok_iff.mp h
    cases he
    rw [Model.assign] at hw
    split at hw
    · rename_i member target ht
      obtain ⟨v, hv, rfl⟩ := map_eq_ok_iff.mp hw
      exact ⟨member, target, v, ht, Model.ofScalar_eq_ok_iff.mp hv, rfl⟩
    · contradiction
  · rintro ⟨member, target, v, ht, hv, rfl⟩
    refine map_eq_ok_iff.mpr ⟨_, ?_, rfl⟩
    rw [Model.assign, ht]
    exact map_eq_ok_iff.mpr ⟨v, Model.ofScalar_eq_ok_iff.mpr hv, rfl⟩

/-- What is given of a struct closes exactly if nothing that must be present is missing. -/
theorem struct_filled_iff {f : ListFrame} {type : TypeId} {fields : List (Field TypeId)}
    {given : List (Nat × Option Value)} {c : Option Value} :
    f.struct m fields (m.filled type fields given) = .ok (.content c) ↔
      (∀ (i : Nat) g, fields[i]? = some g → g.optional = false → i ∈ given.map (·.1)) ∧
        c = some ((Value.struct (m.filled type fields given)).wrap f.member) := by
  rw [ListFrame.struct_eq_ok_iff, missing?_filled_iff m type, Piece.content.injEq]

theorem CopiesFields.builds {type : TypeId} {keys : Renaming} {fields : List (Field TypeId)}
    {repr : StructRepr} (body : m.schema.body type = .struct fields repr) {t : Tree}
    {ks : List (String × CopiedField)} (h : CopiesFields m view keys fields [] ks)
    (shows : ShowsFields view fields repr t (ks.map (·.2)))
    (required : ∀ (i : Nat) f, fields[i]? = some f → f.optional = false →
      i ∈ ((ks.map (·.2)).map CopiedField.given).map (·.1)) :
    m.Builds view type t (.struct (m.filled type fields ((ks.map (·.2)).map CopiedField.given))) := by
  have hapart : ((ks.map (·.2)).map (·.index)).Nodup := by
    rw [List.map_map]
    exact h.apart
  rw [map_given_index] at required
  refine .struct body shows hapart required ?_
  intro p hp f hf
  obtain ⟨q, hq, rfl⟩ := List.mem_map.mp hp
  exact h.values q hq f hf

theorem copiesFields_of_builds {keys : Renaming} {fields : List (Field TypeId)}
    {ks : List (String × CopiedField)} (found : ∀ p ∈ ks, Field.Found keys fields p.1 p.2.index)
    (apart : ((ks.map (·.2)).map (·.index)).Nodup)
    (values : ∀ p ∈ ks.map (·.2), ∀ f, fields[p.index]? = some f →
      m.Copies view f.nullable f.type p.tree p.content) :
    CopiesFields m view keys fields [] ks :=
  ⟨found, by rwa [List.map_map] at apart, fun p hp => values p.2 (List.mem_map_of_mem hp)⟩

theorem tuple_places (valid : m.schema.Valid) {type : TypeId} {fields : List (Field TypeId)}
    (body : m.schema.body type = .struct fields .tuple) {ps : List CopiedField}
    (index : ps.map (·.index) = List.range' 0 ps.length) (bound : ps.length ≤ fields.length)
    (required : ∀ (i : Nat) f, fields[i]? = some f → f.optional = false → i ∈ ps.map (·.index)) :
    ps.map (·.index) = List.range fields.length := by
  rw [index, ← List.range_eq_range']
  refine congrArg List.range (Nat.le_antisymm bound (Nat.le_of_not_lt fun hlt => ?_))
  have hf := List.getElem?_eq_getElem hlt
  have := required _ _ hf (valid.tuple body (List.getElem_mem hlt))
  rw [index, List.mem_range'_1] at this
  omega

/-- What is copied into a list that has begun builds one level of it. -/
theorem builds_of_copyItems (valid : m.schema.Valid) {type : TypeId} {member : Option Nat}
    {content : ListContent} (begins : m.ListBegins view type content) {items : List Tree}
    {f' : ListFrame} (run : copyItems m ⟨type, view, member, content, false⟩ items = .ok f')
    {c : Option Value} (close : f'.close m = .ok (.content c)) :
    ∃ v, m.Builds view type (.list items) v ∧ c = some (v.wrap member) := by
  cases begins with
  | items body =>
    obtain ⟨ps, rfl, hps, rfl⟩ := (copyItems_items_iff valid).mp run
    cases close
    exact ⟨_, .list body hps, rfl⟩
  | tuple body seen =>
    obtain ⟨ps, rfl, hindex, hbound, hps, rfl⟩ :=
      (copyItems_tuple_iff valid [] rfl (Nat.zero_le _)).mp run
    obtain ⟨hreq, rfl⟩ := struct_filled_iff.mp close
    rw [List.nil_append, map_given_index] at hreq
    have hplaces := tuple_places valid body hindex (by simpa using hbound) hreq
    refine ⟨_, .struct body (.tuple seen hplaces) ?_ hreq hps, rfl⟩
    rw [hplaces]
    exact List.nodup_range
  | pairs body seen =>
    obtain ⟨ks, rfl, hks, rfl⟩ := (copyItems_pairs_iff [] valid List.nodup_nil).mp run
    obtain ⟨hreq, rfl⟩ := struct_filled_iff.mp close
    exact ⟨_, hks.builds body (.pairs seen hks.found) hreq, rfl⟩

/-- One level of a list is copied into the list that begins for it. -/
theorem copyItems_of_builds (valid : m.schema.Valid) {type : TypeId} {items : List Tree} {v : Value}
    (h : m.Builds view type (.list items) v) (member : Option Nat) :
    ∃ content f', m.ListBegins view type content ∧
      copyItems m ⟨type, view, member, content, false⟩ items = .ok f' ∧
        f'.close m = .ok (.content (some (v.wrap member))) := by
  generalize hitems : Tree.list items = t at h
  cases h with
  | scalar denotes => contradiction
  | map body keys texts apart values => contradiction
  | choice body found at_member value => contradiction
  | @list elem nullable ps body hps =>
    cases hitems
    exact ⟨_, _, .items body, (copyItems_items_iff valid).mpr ⟨ps, rfl, hps, rfl⟩, rfl⟩
  | @struct fields repr t ps body shows apart required values =>
    rw [← map_given_index] at required
    cases shows with
    | entries keyed found => contradiction
    | @pairs keys ks seen found =>
      cases hitems
      have hks := copiesFields_of_builds found apart values
      exact ⟨_, _, .pairs body seen,
        (copyItems_pairs_iff [] valid List.nodup_nil).mpr ⟨ks, rfl, hks, rfl⟩,
        struct_filled_iff.mpr ⟨required, rfl⟩⟩
    | tuple seen places =>
      cases hitems
      have hlen : ps.length = fields.length := by simpa using congrArg List.length places
      have hindex : ps.map (·.index) = List.range' 0 ps.length := by
        rw [places, hlen, List.range_eq_range']
      exact ⟨_, _, .tuple body seen, (copyItems_tuple_iff valid [] rfl (Nat.zero_le _)).mpr
        ⟨ps, rfl, hindex, by simp [hlen], values, rfl⟩, struct_filled_iff.mpr ⟨required, rfl⟩⟩

theorem copies_list_iff (valid : m.schema.Valid) {type : TypeId} {nullable : Bool}
    {items : List Tree} {c : Option Value} :
    m.Copies view nullable type (.list items) c ↔
      ∃ member target v, m.schema.target? view type .list = some (member, target) ∧
        m.Builds view target (.list items) v ∧ c = some (v.wrap member) := by
  constructor
  · intro h
    obtain ⟨f, f', hf, run, close⟩ := copy_list_iff.mp h
    obtain ⟨member, target, content, ht, hcontent, rfl⟩ := openList_eq_ok_iff.mp hf
    have begins := Model.listContent?_eq_some_iff.mp hcontent
    exact ⟨member, target, (builds_of_copyItems valid begins run close).imp fun _ h => ⟨ht, h⟩⟩
  · rintro ⟨member, target, v, ht, hb, rfl⟩
    obtain ⟨content, f', begins, run, close⟩ := copyItems_of_builds valid hb member
    have hcontent := Model.listContent?_eq_some_iff.mpr begins
    exact copy_list_iff.mpr
      ⟨_, f', openList_eq_ok_iff.mpr ⟨member, target, content, ht, hcontent, rfl⟩, run, close⟩

theorem close_fields_iff {type : TypeId} {member : Option Nat} {repr : StructRepr}
    {fields : List (Field TypeId)} {given : List (Nat × Option Value)} {c : Option Value} :
    (m.fieldsFrame type view member repr fields given).close m = .ok (.content c) ↔
      (∀ (i : Nat) f, fields[i]? = some f → f.optional = false → i ∈ given.map (·.1)) ∧
        c = some ((Value.struct (m.filled type fields given)).wrap member) := by
  rw [← missing?_filled_iff m type]
  constructor
  · intro h
    obtain ⟨-, -, h⟩ := bind_eq_ok_iff.mp h
    obtain ⟨v, hv, h⟩ := bind_eq_ok_iff.mp h
    cases h
    dsimp only [MapFrame.finished, Model.fieldsFrame] at hv
    split at hv
    · contradiction
    · rename_i full
      cases hv
      exact ⟨full, rfl⟩
  · rintro ⟨full, rfl⟩
    refine bind_eq_ok_iff.mpr ⟨(), rfl, bind_eq_ok_iff.mpr ⟨_, ?_, rfl⟩⟩
    simp only [MapFrame.finished, Model.fieldsFrame, full]

/-- What is copied into a map that has begun builds one level of it. -/
theorem builds_of_copyEntries (valid : m.schema.Valid) {type : TypeId} {member : Option Nat}
    {content : MapContent} (begins : m.MapBegins view type content) {entries : List (Tree × Tree)}
    {f' : MapFrame} (run : copyEntries m ⟨type, view, member, content, .idle⟩ entries = .ok f')
    {c : Option Value} (close : f'.close m = .ok (.content c)) :
    ∃ v, m.Builds view type (.map entries) v ∧ c = some (v.wrap member) := by
  cases begins with
  | entries body =>
    obtain ⟨es, rfl, hes, apart, rfl⟩ :=
      (copyEntries_entries_iff valid [] List.nodup_nil).mp run
    cases close
    exact ⟨_, .map body (fun e he => (hes e he).1) (fun e he => (hes e he).2.1) apart
      (fun e he => (hes e he).2.2), rfl⟩
  | fields body keyed =>
    obtain ⟨ks, rfl, hks, rfl⟩ :=
      (copyEntries_fields_iff [] valid keyed List.nodup_nil).mp run
    obtain ⟨hreq, rfl⟩ := close_fields_iff.mp close
    exact ⟨_, hks.builds body (.entries keyed hks.found) hreq, rfl⟩
  | choice body keyed =>
    obtain ⟨key, i, target, t, v, rfl, hfound, hm, hv, he⟩ :=
      (copy_choice_iff valid).mp ⟨f', run, close⟩
    cases he
    exact ⟨_, .choice body hfound hm hv, rfl⟩

/-- One level of a map is copied into the map that begins for it. -/
theorem copyEntries_of_builds (valid : m.schema.Valid) {type : TypeId}
    {entries : List (Tree × Tree)} {v : Value} (h : m.Builds view type (.map entries) v)
    (member : Option Nat) :
    ∃ content f', m.MapBegins view type content ∧
      copyEntries m ⟨type, view, member, content, .idle⟩ entries = .ok f' ∧
        f'.close m = .ok (.content (some (v.wrap member))) := by
  generalize hentries : Tree.map entries = t at h
  cases h with
  | scalar denotes => contradiction
  | list body items => contradiction
  | @map key value nullable nulls es body keys texts apart values =>
    cases hentries
    exact ⟨_, _, .entries body, (copyEntries_entries_iff valid [] List.nodup_nil).mpr
      ⟨es, rfl, fun e he => ⟨keys e he, texts e he, values e he⟩, apart, rfl⟩, rfl⟩
  | @struct fields repr t ps body shows apart required values =>
    rw [← map_given_index] at required
    cases shows with
    | pairs seen found => contradiction
    | tuple seen places => contradiction
    | @entries _ keys ks keyed found =>
      cases hentries
      have hks := copiesFields_of_builds found apart values
      exact ⟨_, _, .fields body keyed,
        (copyEntries_fields_iff [] valid keyed List.nodup_nil).mpr ⟨ks, rfl, hks, rfl⟩,
        close_fields_iff.mpr ⟨required, rfl⟩⟩
  | @choice members repr key i target t v body found at_member value =>
    cases hentries
    have keyed : view = .representation → repr ≠ .kinded := by
      rintro rfl rfl
      contradiction
    obtain ⟨f', run, close⟩ := (copy_choice_iff valid).mpr
      ⟨key, i, target, t, v, rfl, found, at_member, value, rfl⟩
    exact ⟨_, f', .choice body keyed, run, close⟩

theorem copies_map_iff (valid : m.schema.Valid) {type : TypeId} {nullable : Bool}
    {entries : List (Tree × Tree)} {c : Option Value} :
    m.Copies view nullable type (.map entries) c ↔
      ∃ member target v, m.schema.target? view type .map = some (member, target) ∧
        m.Builds view target (.map entries) v ∧ c = some (v.wrap member) := by
  constructor
  · intro h
    obtain ⟨f, f', hf, run, close⟩ := copy_map_iff.mp h
    obtain ⟨member, target, content, ht, hcontent, rfl⟩ := openMap_eq_ok_iff.mp hf
    have begins := Model.mapContent?_eq_some_iff.mp hcontent
    exact ⟨member, target, (builds_of_copyEntries valid begins run close).imp fun _ h => ⟨ht, h⟩⟩
  · rintro ⟨member, target, v, ht, hb, rfl⟩
    obtain ⟨content, f', begins, run, close⟩ := copyEntries_of_builds valid hb member
    have hcontent := Model.mapContent?_eq_some_iff.mpr begins
    exact copy_map_iff.mpr
      ⟨_, f', openMap_eq_ok_iff.mpr ⟨member, target, content, ht, hcontent, rfl⟩, run, close⟩

end Opening

namespace Model

variable {m : Model} {view : View} {type : TypeId} {t : Tree} {v : Value}

/-- A type of which a level builds takes the tree itself. -/
theorem Builds.target? (h : m.Builds view type t v) (kind : Kind) :
    m.schema.target? view type kind = some (none, type) := by
  rw [Schema.target?.eq_def]
  split
  · rename_i members body
    cases h with
    | scalar denotes => cases denotes <;> simp_all
    | list body' items => simp_all
    | map body' keys texts apart values => simp_all
    | struct body' shows apart required values => simp_all
    | choice body' found at_member value =>
      cases body.symm.trans body'
      contradiction
  · rfl

theorem copies_none_iff (valid : m.schema.Valid) {nullable : Bool} :
    m.Copies view nullable type t none ↔ t = .null ∧ nullable = true := by
  cases t with
  | null => simp [Opening.copies_null_iff]
  | scalar a => simp [Opening.copies_scalar_iff]
  | list items => simp [Opening.copies_list_iff valid]
  | map entries => simp [Opening.copies_map_iff valid]

theorem copies_some_iff_target (valid : m.schema.Valid) {nullable : Bool} :
    m.Copies view nullable type t (some v) ↔
      ∃ member target w, m.schema.target? view type t.kind = some (member, target) ∧
        m.Builds view target t w ∧ v = w.wrap member := by
  cases t with
  | null =>
    rw [Opening.copies_null_iff]
    constructor
    · rintro ⟨-, h⟩
      contradiction
    · rintro ⟨member, target, w, -, hb, -⟩
      generalize ht : Tree.null = t at hb
      cases hb with
      | struct body shows apart required values => cases shows <;> contradiction
      | _ => contradiction
  | scalar a =>
    rw [Opening.copies_scalar_iff]
    constructor
    · rintro ⟨member, target, w, ht, hd, he⟩
      exact ⟨member, target, w, ht, .scalar hd, Option.some.inj he⟩
    · rintro ⟨member, target, w, ht, hb, rfl⟩
      generalize hs : Tree.scalar a = t at hb
      cases hb with
      | scalar denotes =>
        cases hs
        exact ⟨member, target, w, ht, denotes, rfl⟩
      | struct body shows apart required values => cases shows <;> contradiction
      | _ => contradiction
  | list items =>
    simp only [Opening.copies_list_iff valid, Option.some.injEq]
    rfl
  | map entries =>
    simp only [Opening.copies_map_iff valid, Option.some.injEq]
    rfl

/-- **A tree copies to a value exactly if its topmost level builds it**, for the type itself or for
the member of a kinded union that takes the kind of the tree. -/
theorem copies_some_iff (valid : m.schema.Valid) {nullable : Bool} :
    m.Copies view nullable type t (some v) ↔
      m.Builds view type t v ∨
        ∃ members i member w, view = .representation ∧
          m.schema.body type = .union members .kinded ∧
          m.schema.kindedMember? members t.kind = some (i, member) ∧
          m.Builds view member t w ∧ v = .union i w := by
  rw [copies_some_iff_target valid]
  constructor
  · rintro ⟨member, target, w, ht, hb, rfl⟩
    rw [Schema.target?.eq_def] at ht
    split at ht
    · rename_i members body
      obtain ⟨⟨i, k⟩, hk, he⟩ := Option.map_eq_some_iff.mp ht
      cases he
      exact .inr ⟨members, i, target, w, rfl, body, hk, hb, rfl⟩
    · cases ht
      exact .inl hb
  · rintro (hb | ⟨members, i, member, w, rfl, body, hk, hb, rfl⟩)
    · exact ⟨none, type, v, hb.target? _, hb, rfl⟩
    · refine ⟨some i, member, w, ?_, hb, rfl⟩
      simp only [Schema.target?, body, hk]
      rfl

/-- What builds is copied. -/
theorem Builds.copies (valid : m.schema.Valid) (h : m.Builds view type t v) (nullable : Bool) :
    m.Copies view nullable type t (some v) :=
  (copies_some_iff valid).mpr (.inl h)

end Model

/-- **A value is built from a node exactly if the tree of the node copies to it.** -/
theorem Prototype.buildFrom_eq_ok_iff {p : Prototype} (valid : p.model.schema.Valid) {n : Node}
    {v : TypedValue} :
    p.buildFrom n = .ok v ↔
      ∃ w, p.model.Copies p.view false p.type n.tree (some w) ∧ v = ⟨p.model, p.type, w⟩ := by
  rw [Prototype.buildFrom, bind_eq_ok_iff]
  constructor
  · rintro ⟨piece, hp, hv⟩
    obtain ⟨c, rfl⟩ := Opening.copy_value_content valid hp
    cases c with
    | none => contradiction
    | some w =>
      cases hv
      exact ⟨w, hp, rfl⟩
  · rintro ⟨w, hw, rfl⟩
    exact ⟨_, hw, rfl⟩

end DualView
