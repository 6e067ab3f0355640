import DualView.Proofs.Assembly.FieldOrder

/-!
# Fields of a representation in another order

The fields of a struct may come in any order, where it is represented as a map or as a list of
pairs.  Data trees that differ in such orders only, at any depth, decode to the same value, or
neither does.

* `Schema.Level`: one level of a data tree with a hole for a part, and the types expected of them.
* `Schema.Reorders`: one rearrangement of the fields of a struct, at any depth.
* `Schema.Reorders.copies`: it does not change what is copied.
* `Schema.field_order`: neither the order of fields nor the view they are given in changes what
  comes of a struct, and rearranged data trees decode alike.
-/

namespace DualView

/-! ## Rearranged lists -/

section Lists

variable {α β γ : Type} {f : α → γ} {g : β → γ} {l : List α}

theorem exists_perm_of_map_eq {r r' : List β} (perm : r.Perm r') (h : l.map f = r.map g) :
    ∃ l', l.Perm l' ∧ l'.map f = r'.map g := by
  induction perm generalizing l with
  | nil => exact ⟨l, .refl l, h⟩
  | cons b _ ih =>
    obtain ⟨a, rest, rfl, ha, hrest⟩ := List.map_eq_cons_iff.mp h
    obtain ⟨rest', perm, image⟩ := ih hrest
    exact ⟨a :: rest', perm.cons a, by rw [List.map_cons, List.map_cons, ha, image]⟩
  | swap b b' r =>
    obtain ⟨a', rest, rfl, ha', hrest⟩ := List.map_eq_cons_iff.mp h
    obtain ⟨a, rest, rfl, ha, hrest⟩ := List.map_eq_cons_iff.mp hrest
    exact ⟨a :: a' :: rest, .swap a a' rest, by simp [ha, ha', hrest]⟩
  | trans _ _ ih ih' =>
    obtain ⟨l₁, perm, image⟩ := ih h
    obtain ⟨l₂, perm', image'⟩ := ih' image
    exact ⟨l₂, perm.trans perm', image'⟩

theorem exists_at_of_map_eq {before after : List β} {b : β}
    (h : l.map f = (before ++ b :: after).map g) :
    ∃ l₁ a l₂, l = l₁ ++ a :: l₂ ∧ l₁.map f = before.map g ∧ f a = g b ∧
      l₂.map f = after.map g := by
  rw [List.map_append, List.map_cons] at h
  obtain ⟨l₁, rest, rfl, h₁, hrest⟩ := List.map_eq_append_iff.mp h
  obtain ⟨a, l₂, rfl, ha, h₂⟩ := List.map_eq_cons_iff.mp hrest
  exact ⟨l₁, a, l₂, rfl, h₁, ha, h₂⟩

theorem forall_mem_replaced {P : α → Prop} {l₁ l₂ : List α} {a : α} (a' : α)
    (h : ∀ x ∈ l₁ ++ a :: l₂, P x) (new : P a → P a') : ∀ x ∈ l₁ ++ a' :: l₂, P x := by
  rw [List.forall_mem_append, List.forall_mem_cons] at h ⊢
  exact ⟨h.1, new h.2.1, h.2.2⟩

end Lists

/-! ## Rearranged data trees -/

namespace Schema

/-- One level of a data tree where a type is expected, with a hole for a part of another type: an
item, the value of an entry or a field, or the member of a union. -/
inductive Level (s : Schema) (type : TypeId) : TypeId → (Datum → Datum) → Prop
  | item {elem : TypeId} {nullable : Bool} (body : s.body type = .list elem nullable)
      (before after : List Datum) : Level s type elem fun d => .list (before ++ d :: after)
  | value {key value : TypeId} {nullable : Bool} {nulls : NullPolicy}
      (body : s.body type = .map key value nullable nulls) (before after : List (String × Datum))
      (text : String) : Level s type value fun d => .map (before ++ (text, d) :: after)
  | entry {fields : List (Field TypeId)} {keys : Renaming} {key : String} {i : Nat}
      {f : Field TypeId} (body : s.body type = .struct fields (.map keys))
      (stands : Field.Found keys fields key i) (found : fields[i]? = some f)
      (before after : List (String × Datum)) :
      Level s type f.type fun d => .map (before ++ (key, d) :: after)
  | pair {fields : List (Field TypeId)} {keys : Renaming} {key : String} {i : Nat}
      {f : Field TypeId} (body : s.body type = .struct fields (.listpairs keys))
      (stands : Field.Found keys fields key i) (found : fields[i]? = some f)
      (before after : List Datum) :
      Level s type f.type fun d => .list (before ++ Datum.pair (key, d) :: after)
  | place {fields : List (Field TypeId)} {f : Field TypeId}
      (body : s.body type = .struct fields .tuple) (before after : List Datum)
      (found : fields[before.length]? = some f) :
      Level s type f.type fun d => .list (before ++ d :: after)
  | member {members : List TypeId} {discriminants : Labels String} {key : String} {i : Nat}
      {member : TypeId} (body : s.body type = .union members (.keyed discriminants))
      (stands : s.MemberFound .representation members (.keyed discriminants) key i)
      (found : members[i]? = some member) : Level s type member fun d => .map [(key, d)]

/-- Where a type is expected, one data tree is another with the fields of one struct rearranged, be
they entries or pairs.  The struct may be the whole or any part. -/
inductive Reorders (s : Schema) : TypeId → Datum → Datum → Prop
  | entries {type : TypeId} {fields : List (Field TypeId)} {keys : Renaming}
      {entries entries' : List (String × Datum)} (body : s.body type = .struct fields (.map keys))
      (perm : entries.Perm entries') : Reorders s type (.map entries) (.map entries')
  | pairs {type : TypeId} {fields : List (Field TypeId)} {keys : Renaming}
      {pairs pairs' : List Datum} (body : s.body type = .struct fields (.listpairs keys))
      (perm : pairs.Perm pairs') : Reorders s type (.list pairs) (.list pairs')
  | deeper {type part : TypeId} {hole : Datum → Datum} {d d' : Datum}
      (level : s.Level type part hole) (inner : Reorders s part d d') :
      Reorders s type (hole d) (hole d')
  /-- The member of a kinded union is the tree itself. -/
  | kinded {type member : TypeId} {members : List TypeId} {i : Nat} {d d' : Datum}
      (body : s.body type = .union members .kinded)
      (found : s.kindedMember? members d.kind = some (i, member))
      (inner : Reorders s member d d') : Reorders s type d d'

variable {s : Schema} {type part : TypeId} {hole : Datum → Datum} {d d' : Datum}

theorem Level.kind_eq (h : s.Level type part hole) (d d' : Datum) :
    (hole d).kind = (hole d').kind := by
  cases h <;> rfl

theorem Level.not_kinded (h : s.Level type part hole) (members : List TypeId) :
    s.body type ≠ .union members .kinded := by
  intro kinded
  cases h <;> simp_all

theorem Reorders.kind_eq (h : s.Reorders type d d') : d.kind = d'.kind := by
  induction h with
  | entries _ _ => rfl
  | pairs _ _ => rfl
  | deeper level _ _ => exact level.kind_eq _ _
  | kinded _ _ _ ih => exact ih

theorem Reorders.symm (h : s.Reorders type d d') : s.Reorders type d' d := by
  induction h with
  | entries body perm => exact .entries body perm.symm
  | pairs body perm => exact .pairs body perm.symm
  | deeper level _ ih => exact .deeper level ih
  | kinded body found inner ih => exact .kinded body (inner.kind_eq ▸ found) ih

end Schema

/-! ## What a level is built from -/

section Builds

variable {m : Model} {type part : TypeId} {t : Tree} {v : Value}

theorem Model.Builds.exists_items {elem : TypeId} {nullable : Bool}
    (h : m.Builds .representation type t v) (body : m.schema.body type = .list elem nullable) :
    ∃ ps : List (Tree × Option Value), t = .list (ps.map (·.1)) ∧
      (∀ p ∈ ps, m.Copies .representation nullable elem p.1 p.2) ∧
      v = .list (ps.map fun p => ⟨m.elementLayout elem nullable, .given p.2⟩) := by
  cases h with
  | @list elem' nullable' ps body' items =>
    cases body.symm.trans body'
    exact ⟨ps, rfl, items, rfl⟩
  | scalar denotes => cases denotes <;> simp_all
  | map body' => simp_all
  | struct body' => simp_all
  | choice body' => simp_all

theorem Model.Builds.exists_entries {key value : TypeId} {nullable : Bool} {nulls : NullPolicy}
    (h : m.Builds .representation type t v)
    (body : m.schema.body type = .map key value nullable nulls) :
    ∃ es : List CopiedEntry, t = .map (es.map fun e => (e.keyTree, e.tree)) ∧
      (∀ e ∈ es, m.Copies .representation false key e.keyTree (some e.key)) ∧
      (∀ e ∈ es, m.schema.Text key e.key e.text) ∧ (es.map (·.text)).Nodup ∧
      (∀ e ∈ es, m.Copies .representation nullable value e.tree e.content) ∧
      v = .map ⟨es.map (CopiedEntry.stored (m.elementLayout value nullable))⟩ := by
  cases h with
  | @map key' value' nullable' nulls' es body' keys texts apart values =>
    cases body.symm.trans body'
    exact ⟨es, rfl, keys, texts, apart, values, rfl⟩
  | scalar denotes => cases denotes <;> simp_all
  | list body' => simp_all
  | struct body' => simp_all
  | choice body' => simp_all

theorem Model.Builds.exists_fields {fields : List (Field TypeId)} {repr : StructRepr}
    (h : m.Builds .representation type t v) (body : m.schema.body type = .struct fields repr)
    (parted : ∀ separator, repr ≠ .stringjoin separator) :
    ∃ ps : List CopiedField, ShowsFields .representation fields repr t ps ∧
      (ps.map (·.index)).Nodup ∧
      (∀ (i : Nat) f, fields[i]? = some f → f.optional = false → i ∈ ps.map (·.index)) ∧
      (∀ p ∈ ps, ∀ f, fields[p.index]? = some f →
        m.Copies .representation f.nullable f.type p.tree p.content) ∧
      v = .struct (m.filled type fields (ps.map CopiedField.given)) := by
  cases h with
  | @struct fields' repr' t ps body' shows apart required values =>
    cases body.symm.trans body'
    exact ⟨ps, shows, apart, required, values, rfl⟩
  | scalar denotes =>
    cases denotes with
    | joined seen body' arity =>
      cases body.symm.trans body'
      exact absurd rfl (parted _)
    | _ => simp_all
  | list body' => simp_all
  | map body' => simp_all
  | choice body' => simp_all

theorem Model.Builds.exists_member {members : List TypeId} {repr : UnionRepr}
    (h : m.Builds .representation type t v) (body : m.schema.body type = .union members repr) :
    ∃ key i member t' w, t = .map [(.scalar (.string key), t')] ∧
      m.schema.MemberFound .representation members repr key i ∧ members[i]? = some member ∧
      m.Copies .representation false member t' (some w) ∧ v = .union i w := by
  cases h with
  | @choice members' repr' key i member t' w body' stands found value =>
    cases body.symm.trans body'
    exact ⟨key, i, member, t', w, rfl, stands, found, value, rfl⟩
  | scalar denotes => cases denotes <;> simp_all
  | list body' => simp_all
  | map body' => simp_all
  | struct body' => simp_all

section Shown

variable {fields : List (Field TypeId)} {keys : Renaming} {ps : List CopiedField}

theorem ShowsFields.exists_entries {entries : List (Tree × Tree)}
    (h : ShowsFields .representation fields (.map keys) (.map entries) ps) :
    ∃ ks : List (String × CopiedField),
      ks.map (fun p => (.scalar (.string p.1), p.2.tree)) = entries ∧
        (∀ p ∈ ks, Field.Found keys fields p.1 p.2.index) ∧ ps = ks.map (·.2) := by
  generalize shown : Tree.map entries = t at h
  cases h with
  | @entries _ keys' ks keyed found =>
    cases shown
    obtain rfl : keys = keys' := Option.some.inj keyed
    exact ⟨ks, rfl, found, rfl⟩

theorem ShowsFields.exists_pairs {items : List Tree}
    (h : ShowsFields .representation fields (.listpairs keys) (.list items) ps) :
    ∃ ks : List (String × CopiedField),
      ks.map (fun p => .list [.scalar (.string p.1), p.2.tree]) = items ∧
        (∀ p ∈ ks, Field.Found keys fields p.1 p.2.index) ∧ ps = ks.map (·.2) := by
  generalize shown : Tree.list items = t at h
  cases h with
  | entries keyed found => contradiction
  | @pairs _ ks seen found =>
    cases shown
    exact ⟨ks, rfl, found, rfl⟩

theorem ShowsFields.places {items : List Tree}
    (h : ShowsFields .representation fields .tuple (.list items) ps) :
    ps.map (·.tree) = items ∧ ps.map (·.index) = List.range fields.length := by
  generalize shown : Tree.list items = t at h
  cases h with
  | entries keyed found => contradiction
  | tuple seen places =>
    cases shown
    exact ⟨rfl, places⟩

end Shown

theorem Model.builds_of_perm {fields : List (Field TypeId)} {repr : StructRepr}
    {ps ps' : List CopiedField} (body : m.schema.body type = .struct fields repr)
    (perm : ps.Perm ps') (shows : ShowsFields .representation fields repr t ps')
    (apart : (ps.map (·.index)).Nodup)
    (required : ∀ (i : Nat) f, fields[i]? = some f → f.optional = false → i ∈ ps.map (·.index))
    (values : ∀ p ∈ ps, ∀ f, fields[p.index]? = some f →
      m.Copies .representation f.nullable f.type p.tree p.content) :
    m.Builds .representation type t
      (.struct (m.filled type fields (ps.map CopiedField.given))) := by
  have once : ((ps.map CopiedField.given).map (·.1)).Nodup := by rwa [map_given_index]
  rw [m.filled_perm type fields (perm.map CopiedField.given) once]
  refine .struct body shows ((perm.map _).nodup_iff.mp apart) ?_ ?_
  · intro i f found must
    exact (perm.map _).mem_iff.mp (required i f found must)
  · intro p hp
    exact values p (perm.mem_iff.mpr hp)

/-- A field that copies to the same from another tree builds the same struct. -/
theorem Model.builds_of_replaced {fields : List (Field TypeId)} {repr : StructRepr}
    {ps l₁ l₂ : List CopiedField} {i : Nat} {f : Field TypeId} {u u' : Tree} {c : Option Value}
    (body : m.schema.body type = .struct fields repr) (split : ps = l₁ ++ ⟨i, u, c⟩ :: l₂)
    (found : fields[i]? = some f)
    (inner : m.Copies .representation f.nullable f.type u c →
      m.Copies .representation f.nullable f.type u' c)
    (shows : ShowsFields .representation fields repr t (l₁ ++ ⟨i, u', c⟩ :: l₂))
    (apart : (ps.map (·.index)).Nodup)
    (required : ∀ (j : Nat) g, fields[j]? = some g → g.optional = false → j ∈ ps.map (·.index))
    (values : ∀ p ∈ ps, ∀ g, fields[p.index]? = some g →
      m.Copies .representation g.nullable g.type p.tree p.content) :
    m.Builds .representation type t
      (.struct (m.filled type fields (ps.map CopiedField.given))) := by
  subst split
  have index : (l₁ ++ ⟨i, u, c⟩ :: l₂).map (·.index) =
      (l₁ ++ ⟨i, u', c⟩ :: l₂).map CopiedField.index := by simp
  have given : (l₁ ++ ⟨i, u, c⟩ :: l₂).map CopiedField.given =
      (l₁ ++ ⟨i, u', c⟩ :: l₂).map CopiedField.given := by simp
  rw [index] at apart required
  rw [given]
  refine .struct body shows apart required (forall_mem_replaced _ values ?_)
  intro value g hg
  cases found.symm.trans hg
  exact inner (value f found)

end Builds

/-! ## Rearranged trees copy alike -/

namespace Schema

variable {m : Model} {type part : TypeId} {hole : Datum → Datum} {d d' : Datum} {v : Value}

/-- A part that copies to all that another does can take its place in a level. -/
theorem Level.builds (level : m.schema.Level type part hole)
    (inner : ∀ nullable c, m.Copies .representation nullable part d.tree c →
      m.Copies .representation nullable part d'.tree c)
    (h : m.Builds .representation type (hole d).tree v) :
    m.Builds .representation type (hole d').tree v := by
  cases level with
  | item body before after =>
    rw [Datum.tree_list] at h ⊢
    obtain ⟨ps, shown, items, rfl⟩ := h.exists_items body
    obtain ⟨l₁, ⟨t, c⟩, l₂, rfl, h₁, rfl, h₂⟩ := exists_at_of_map_eq (Tree.list.inj shown).symm
    have items' := forall_mem_replaced (d'.tree, c) items (inner _ c)
    simpa [h₁, h₂] using Model.Builds.list body items'
  | value body before after text =>
    rw [Datum.tree_map] at h ⊢
    obtain ⟨es, shown, keys, texts, apart, values, rfl⟩ := h.exists_entries body
    obtain ⟨l₁, ⟨kt, t, k, x, c⟩, l₂, rfl, h₁, he, h₂⟩ :=
      exists_at_of_map_eq (Tree.map.inj shown).symm
    obtain ⟨rfl, rfl⟩ := Prod.mk.inj he
    let e' : CopiedEntry := ⟨.scalar (.string text), d'.tree, k, x, c⟩
    have built := Model.Builds.map body (forall_mem_replaced e' keys id)
      (forall_mem_replaced e' texts id) (by simpa [e'] using apart)
      (forall_mem_replaced e' values (inner _ c))
    simpa [e', h₁, h₂, Datum.entryTree, CopiedEntry.stored] using built
  | @entry fields keys key i f body stands found before after =>
    rw [Datum.tree_map] at h ⊢
    obtain ⟨ps, shows, apart, required, values, rfl⟩ := h.exists_fields body (by simp)
    obtain ⟨ks, shown, all, rfl⟩ := shows.exists_entries
    obtain ⟨l₁, ⟨k, j, u, c⟩, l₂, rfl, h₁, hq, h₂⟩ := exists_at_of_map_eq shown
    cases hq
    obtain rfl : j = i := Option.some.inj
      ((all _ (List.mem_append_right l₁ List.mem_cons_self)).symm.trans stands)
    let q : String × CopiedField := (key, ⟨j, d'.tree, c⟩)
    have keyed : StructRepr.entryKeys? .representation (.map keys) = some keys := rfl
    have shows' := ShowsFields.entries keyed (forall_mem_replaced q all fun h => h)
    refine Model.builds_of_replaced body List.map_append found (inner _ c) ?_ apart required values
    simpa [q, h₁, h₂, Datum.entryTree] using shows'
  | @pair fields keys key i f body stands found before after =>
    rw [Datum.tree_list] at h ⊢
    obtain ⟨ps, shows, apart, required, values, rfl⟩ := h.exists_fields body (by simp)
    obtain ⟨ks, shown, all, rfl⟩ := shows.exists_pairs
    obtain ⟨l₁, ⟨k, j, u, c⟩, l₂, rfl, h₁, hq, h₂⟩ := exists_at_of_map_eq shown
    simp only [Datum.pair, Datum.tree_list, Datum.tree_scalar, List.map_cons, List.map_nil] at hq
    cases hq
    obtain rfl : j = i := Option.some.inj
      ((all _ (List.mem_append_right l₁ List.mem_cons_self)).symm.trans stands)
    let q : String × CopiedField := (key, ⟨j, d'.tree, c⟩)
    have shows' := ShowsFields.pairs rfl (forall_mem_replaced q all fun h => h)
    refine Model.builds_of_replaced body List.map_append found (inner _ c) ?_ apart required values
    simpa [q, h₁, h₂, Datum.pair] using shows'
  | @place fields f body before after found =>
    rw [Datum.tree_list] at h ⊢
    obtain ⟨ps, shows, apart, required, values, rfl⟩ := h.exists_fields body (by simp)
    obtain ⟨shown, places⟩ := shows.places
    obtain ⟨l₁, ⟨j, u, c⟩, l₂, rfl, h₁, rfl, h₂⟩ := exists_at_of_map_eq shown
    have length : l₁.length = before.length := by simpa using congrArg List.length h₁
    obtain rfl : j = before.length := by
      have at_place :
          ((l₁ ++ ⟨j, d.tree, c⟩ :: l₂).map CopiedField.index)[l₁.length]? = some j := by
        simp
      rw [places] at at_place
      obtain ⟨_, index⟩ := List.getElem?_eq_some_iff.mp at_place
      rw [← index, List.getElem_range, length]
    refine Model.builds_of_replaced body rfl found (inner _ c) ?_ apart required values
    have shows' : ShowsFields .representation fields .tuple _
        (l₁ ++ ⟨before.length, d'.tree, c⟩ :: l₂) := .tuple rfl (by simpa using places)
    simpa [h₁, h₂] using shows'
  | @member members ds key i member body stands found =>
    rw [Datum.tree_map] at h ⊢
    obtain ⟨key', i', member', t, w, shown, stands', found', value, rfl⟩ := h.exists_member body
    cases shown
    cases stands.symm.trans stands'
    cases found.symm.trans found'
    exact .choice body stands found (inner _ _ value)

theorem copies_none_of_kind_eq (valid : m.schema.Valid) (kind : d.kind = d'.kind) {nullable : Bool}
    (h : m.Copies .representation nullable type d.tree none) :
    m.Copies .representation nullable type d'.tree none := by
  obtain ⟨null, may⟩ := (Model.copies_none_iff valid).mp h
  obtain rfl := Datum.tree_eq_null_iff.mp null
  obtain rfl : d' = .null := by
    cases d' with
    | null => rfl
    | _ => contradiction
  exact h

/-- What builds all that another tree does copies to all that the other does. -/
theorem copies_of_builds (valid : m.schema.Valid) (kind : d.kind = d'.kind)
    (plain : ∀ members, m.schema.body type ≠ .union members .kinded)
    (builds : ∀ v, m.Builds .representation type d.tree v →
      m.Builds .representation type d'.tree v) (nullable : Bool) (c : Option Value)
    (h : m.Copies .representation nullable type d.tree c) :
    m.Copies .representation nullable type d'.tree c := by
  cases c with
  | none => exact copies_none_of_kind_eq valid kind h
  | some v =>
    rw [Model.copies_some_iff valid] at h ⊢
    rcases h with built | ⟨members, i, member, w, -, body, -, -, -⟩
    · exact .inl (builds v built)
    · exact absurd body (plain members)

theorem builds_of_copies_member (valid : m.schema.Valid) {members : List TypeId} {kind : Kind}
    {i : Nat} {member : TypeId} (found : m.schema.kindedMember? members kind = some (i, member))
    {nullable : Bool} (h : m.Copies .representation nullable member d.tree (some v)) :
    m.Builds .representation member d.tree v := by
  rcases (Model.copies_some_iff valid).mp h with built | ⟨_, _, _, _, -, body, -, -, -⟩
  · exact built
  · have kinded := (kindedMember?_spec found).2
    rw [Decl.reprKind?, ← Schema.body, body] at kinded
    contradiction

/-- **A rearranged tree copies to all that the tree does.** -/
theorem Reorders.copies (valid : m.schema.Valid) (h : m.schema.Reorders type d d') :
    ∀ nullable c, m.Copies .representation nullable type d.tree c →
      m.Copies .representation nullable type d'.tree c := by
  induction h with
  | @entries type fields keys entries entries' body perm =>
    refine copies_of_builds valid rfl (by simp [body]) fun v h => ?_
    rw [Datum.tree_map] at h ⊢
    obtain ⟨ps, shows, apart, required, values, rfl⟩ := h.exists_fields body (by simp)
    obtain ⟨ks, shown, found, rfl⟩ := shows.exists_entries
    obtain ⟨ks', perm', image⟩ := exists_perm_of_map_eq perm shown
    rw [← image]
    exact Model.builds_of_perm body (perm'.map _)
      (.entries rfl fun p hp => found p (perm'.mem_iff.mpr hp)) apart required values
  | @pairs type fields keys pairs pairs' body perm =>
    refine copies_of_builds valid rfl (by simp [body]) fun v h => ?_
    rw [Datum.tree_list] at h ⊢
    obtain ⟨ps, shows, apart, required, values, rfl⟩ := h.exists_fields body (by simp)
    obtain ⟨ks, shown, found, rfl⟩ := shows.exists_pairs
    obtain ⟨ks', perm', image⟩ := exists_perm_of_map_eq perm shown
    rw [← image]
    exact Model.builds_of_perm body (perm'.map _)
      (.pairs rfl fun p hp => found p (perm'.mem_iff.mpr hp)) apart required values
  | deeper level _ ih =>
    exact copies_of_builds valid (level.kind_eq _ _) level.not_kinded fun v => level.builds ih
  | @kinded type member members i d d' body found inner ih =>
    intro nullable c h
    cases c with
    | none => exact copies_none_of_kind_eq valid inner.kind_eq h
    | some v =>
      rw [Model.copies_some_iff valid] at h ⊢
      rcases h with built | ⟨members', i', member', w, seen, body', found', built, rfl⟩
      · -- the union itself is not built from anything
        have target := built.target? d.kind
        simp [target?, body, found] at target
      · cases body.symm.trans body'
        rw [Datum.kind_tree] at found'
        cases found.symm.trans found'
        have copied := ih false (some w) (built.copies valid false)
        have found' : m.schema.kindedMember? members d'.tree.kind = some (i, member) := by
          rw [Datum.kind_tree, ← inner.kind_eq, found]
        exact .inr ⟨members, i, member, w, seen, body, found',
          builds_of_copies_member valid found copied, rfl⟩

/-- **Data trees that differ in the order of fields decode alike**, however often and however deep
they differ. -/
theorem fromRepresentation_reordered (valid : m.schema.Valid)
    (h : Relation.ReflTransGen (m.schema.Reorders type) d d') (view : View) (v : TypedValue) :
    (⟨m, type, view⟩ : Prototype).fromRepresentation (.basic d) = .ok v ↔
      (⟨m, type, view⟩ : Prototype).fromRepresentation (.basic d') = .ok v := by
  induction h with
  | refl => rfl
  | tail _ step ih =>
    rw [ih, Prototype.fromRepresentation, Prototype.fromRepresentation,
      Prototype.buildFrom_eq_ok_iff valid, Prototype.buildFrom_eq_ok_iff valid]
    constructor
    · rintro ⟨w, copied, rfl⟩
      exact ⟨w, step.copies valid false (some w) copied, rfl⟩
    · rintro ⟨w, copied, rfl⟩
      exact ⟨w, step.symm.copies valid false (some w) copied, rfl⟩

end Schema

/-! ## Order and view -/

/-- **Neither the order of fields nor the view they are given in changes what comes of a struct.**
Two scripts that give the same fields, in any order and with any changes of view, end alike: with
the same value, or for the same field that is missing.  Data trees whose fields are rearranged
decode to the same value, or none of them does. -/
theorem Schema.field_order {ts : TypeSystem} {s : Schema} {c : Config} {p : Prototype}
    (frozen : ts.finalize = .ok s) (once : s.RenamesOnce) (compiled : s.compile c = .ok p.model) :
    (∀ type fields keys, s.body type = .struct fields (.map keys) →
      ∀ member outer view view' given given' calls calls',
        given.Perm given' → (given.map (·.1)).Nodup →
        p.GivesFields fields keys view given calls → p.GivesFields fields keys view' given' calls' →
        ∃ (after : Builder) (reply : Reply) (replies replies' : List Reply),
          (p.atFields type member keys fields outer view []).run (calls ++ [.finish, .drop]) =
            (after, replies ++ [reply, .done]) ∧
          (p.atFields type member keys fields outer view' []).run (calls' ++ [.finish, .drop]) =
            (after, replies' ++ [reply, .done]) ∧
          ((∃ v, reply = .done ∧
              after = (⟨p, .building, outer, none⟩ : Builder).deliver (.content (some v)) outer) ∨
            ∃ f ∈ fields, after = ⟨p, .errored, outer, none⟩ ∧
              reply = .failed (.optionality (.requiredFieldMissing (s.nameOf type) f.name)))) ∧
    ∀ d d', Relation.ReflTransGen (s.Reorders p.type) d d' → ∀ v,
      p.fromRepresentation (.basic d) = .ok v ↔ p.fromRepresentation (.basic d') = .ok v := by
  obtain rfl := schema_of_compile compiled
  have valid := valid_of_finalize frozen
  refine ⟨?_, fun d d' reordered v => fromRepresentation_reordered valid reordered p.view v⟩
  intro type fields keys body member outer view view' given given' calls calls' perm apart gives
    gives'
  have apart' : (given'.map (·.1)).Nodup := (perm.map _).nodup_iff.mp apart
  obtain ⟨replies, run⟩ := gives.outcome valid once body apart member outer
  obtain ⟨replies', run'⟩ := gives'.outcome valid once body apart' member outer
  rw [← Prototype.fieldsOutcome_perm perm apart] at run'
  refine ⟨_, _, replies, replies', run, run', ?_⟩
  rw [Prototype.fieldsOutcome]
  cases missing : missing? fields (p.model.filled type fields given) with
  | none => exact .inl ⟨_, rfl, rfl⟩
  | some f =>
    obtain ⟨⟨g, slot⟩, found, rfl⟩ := Option.map_eq_some_iff.mp missing
    have mem := List.mem_of_find?_eq_some found
    exact .inr ⟨g, (List.of_mem_zip mem).1, rfl, rfl⟩

namespace Sample

def sheetPrototype : Prototype := ⟨model, 5, .typed⟩

def sheetFields : List (Field TypeId) := [⟨"counts", 3, false, false⟩, ⟨"tag", 4, true, true⟩]

def sheetKeys : Renaming := ⟨[("counts", "c")]⟩

def counts : Value := .map ⟨[⟨.enum 0, "l", ⟨.embedded, .value (.scalar (.int 3))⟩⟩]⟩

def tag : Value := .struct
  [⟨.embedded, .value (.scalar (.string "a"))⟩, ⟨.embedded, .value (.scalar (.string "b"))⟩]

def countsByName : Datum := .map [("low", .scalar (.int 3))]

def countsByText : Datum := .map [("l", .scalar (.int 3))]

def tagByParts : Datum := .map [("site", .scalar (.string "a")), ("unit", .scalar (.string "b"))]

def tagFirst : List Call :=
  [ .entry "tag", .copy tagByParts, .view .representation,
    .key, .scalar (.string "c"), .value, .copy countsByText ]

def countsFirst : List Call :=
  [ .view .typed, .entry "counts", .copy countsByName, .view .representation,
    .entry "tag", .scalar (.string "a:b") ]

theorem tagFirst_gives : sheetPrototype.GivesFields sheetFields sheetKeys .typed
    [(1, some tag), (0, some counts)] tagFirst := by
  have byParts : sheetPrototype.Gives ⟨.value 4, .typed, true⟩ [.copy tagByParts] (some tag) := by
    apply Prototype.gives_copy
    rw [tagByParts, Datum.tree_map]
    simp only [List.map_cons, List.map_nil, Datum.entryTree, Datum.tree_scalar]
    rfl
  have byText : sheetPrototype.Gives ⟨.value 3, .representation, false⟩ [.copy countsByText]
      (some counts) := by
    apply Prototype.gives_copy
    rw [countsByText, Datum.tree_map]
    simp only [List.map_cons, List.map_nil, Datum.entryTree, Datum.tree_scalar]
    rfl
  have last : sheetPrototype.GivesFields sheetFields sheetKeys .representation [(0, some counts)]
      [.key, .scalar (.string "c"), .value, .copy countsByText] :=
    .keyed (f := ⟨"counts", 3, false, false⟩) rfl byText (.done _)
  exact .entry (f := ⟨"tag", 4, true, true⟩) rfl byParts (.switch _ _ last)

theorem countsFirst_gives : sheetPrototype.GivesFields sheetFields sheetKeys .representation
    [(0, some counts), (1, some tag)] countsFirst := by
  have byName : sheetPrototype.Gives ⟨.value 3, .typed, false⟩ [.copy countsByName]
      (some counts) := by
    apply Prototype.gives_copy
    rw [countsByName, Datum.tree_map]
    simp only [List.map_cons, List.map_nil, Datum.entryTree, Datum.tree_scalar]
    rfl
  have asText : sheetPrototype.Gives ⟨.value 4, .representation, true⟩
      [.scalar (.string "a:b")] (some tag) :=
    Prototype.gives_scalar rfl
  have last : sheetPrototype.GivesFields sheetFields sheetKeys .representation [(1, some tag)]
      [.entry "tag", .scalar (.string "a:b")] :=
    .entry (f := ⟨"tag", 4, true, true⟩) rfl asText (.done _)
  have first : sheetPrototype.GivesFields sheetFields sheetKeys .typed
      [(0, some counts), (1, some tag)]
      [.entry "counts", .copy countsByName, .view .representation, .entry "tag",
        .scalar (.string "a:b")] :=
    .entry (f := ⟨"counts", 3, false, false⟩) rfl byName (.switch _ _ last)
  exact .switch _ _ first

end Sample

/-- The two ways to give a sheet its fields end alike, and so do the two orders of its entries. -/
theorem Schema.field_order_sheet :
    Sample.types.finalize = .ok Sample.schema ∧ Sample.schema.RenamesOnce ∧
      Sample.schema.compile .empty = .ok Sample.sheetPrototype.model ∧
      (∃ (after : Builder) (reply : Reply) (replies replies' : List Reply),
        (Sample.sheetPrototype.atFields 5 none Sample.sheetKeys Sample.sheetFields [] .typed []).run
          (Sample.tagFirst ++ [.finish, .drop]) = (after, replies ++ [reply, .done]) ∧
        (Sample.sheetPrototype.atFields 5 none Sample.sheetKeys Sample.sheetFields []
            .representation []).run (Sample.countsFirst ++ [.finish, .drop]) =
          (after, replies' ++ [reply, .done])) ∧
      ∀ v, Sample.sheetPrototype.fromRepresentation
          (.basic (.map [("tag", .scalar (.string "a:b")), ("c", Sample.countsByText)])) = .ok v ↔
        Sample.sheetPrototype.fromRepresentation
          (.basic (.map [("c", Sample.countsByText), ("tag", .scalar (.string "a:b"))])) =
            .ok v := by
  obtain ⟨scripts, trees⟩ := field_order (p := Sample.sheetPrototype) Sample.finalize_types
    Sample.renamesOnce_schema Sample.compile_schema
  have body : Sample.schema.body 5 = .struct Sample.sheetFields (.map Sample.sheetKeys) := rfl
  refine ⟨Sample.finalize_types, Sample.renamesOnce_schema, Sample.compile_schema, ?_, ?_⟩
  · have apart : ([(1, some Sample.tag), (0, some Sample.counts)].map (·.1)).Nodup := by decide
    obtain ⟨after, reply, replies, replies', run, run', -⟩ :=
      scripts 5 _ _ body none [] .typed .representation _ _ _ _
        (.swap _ _ _) apart Sample.tagFirst_gives Sample.countsFirst_gives
    exact ⟨after, reply, replies, replies', run, run'⟩
  · exact trees _ _ (.single (.entries body (.swap _ _ _)))

end DualView
