import DualView.Node.Path
import DualView.Proofs.Assembly.CopyCalls
import DualView.Proofs.Node.Agreement

/-!
# Kinds as guides

The kind of a node says which questions it answers.  The others it refuses, and gives its kind as
the reason.  Nothing depends on whether what is stored fits its type; where it does, the kind is the
one that the declaration has.

* `Node.Guided`: what a node answers and what it refuses, by its kind; `Node.guided`: so it is for
  every node.
* `Node.readDatum_eq_toDatum`: a node that is read as its kind says is the data tree that it shows.
* `Node.PairRepresented.follow`: the one node without views is a pair, and its value is seen through
  the representation view; so whatever is reached has a representation that is a data tree
  (`Node.PairRepresented.exists_toDatum`).
* `Schema.Fits.kind_typed`, `Schema.Fits.kind_represented`: kinds of values that fit.
* `TypedValue.kind_guides`: all of it, for every node that is reached from a value.
-/

namespace DualView

/-! ## Answers by kind -/

/-- A question that has an answer at nodes of some kinds, and is refused for its kind by any other. -/
def AnswersAt {α : Type} (kinds : List Kind) (expected found : Kind) (answer : Except AccessError α) :
    Prop :=
  (found ∈ kinds → ∃ a, answer = .ok a) ∧ (found ∉ kinds → answer = .error (.wrongKind expected found))

namespace Node

/-- What a node answers and what it refuses, by its kind. -/
structure Guided (n : Node) : Prop where
  asScalar : ∀ kind, AnswersAt [.scalar kind] (.scalar kind) n.kind (n.asScalar kind)
  length : AnswersAt [.list, .map] .map n.kind n.length
  values : AnswersAt [.list] .list n.kind n.values
  entries : AnswersAt [.map] .map n.kind n.entries
  lookupIndex : ∀ index, (n.kind = .list → (∃ c, n.lookupIndex index = .ok c) ∨
      ∃ length, n.length = .ok length ∧ n.lookupIndex index = .error (.outOfRange index length)) ∧
    (n.kind ≠ .list → n.lookupIndex index = .error (.wrongKind .list n.kind))
  lookup : ∀ text, (n.kind = .map → (∃ c, n.lookup text = .ok c) ∨
      n.lookup text = .error (.notExists text)) ∧
    (n.kind ≠ .map → n.lookup text = .error (.wrongKind .map n.kind))
  lookupNode : ∀ key text, key.keyText = .ok text →
    (n.kind = .map → (∃ c, n.lookupNode key = .ok c) ∨
      n.lookupNode key = .error (.notExists text)) ∧
    (n.kind ≠ .map → n.lookupNode key = .error (.wrongKind .map n.kind))

/-! ### Leaves -/

theorem kind_of_scalar? {n : Node} {a : Scalar} (h : n.scalar? = some a) :
    n.kind = .scalar a.kind := by
  cases n with
  | typed n =>
    rw [scalar?] at h
    rw [kind]
    cases hr : n.reading <;> simp_all [Reading.kind]
  | key text => cases h; rfl
  | basic d => cases d <;> first | (cases h; rfl) | contradiction
  | null => contradiction
  | pair text value => contradiction

theorem scalar?_of_kind {n : Node} {kind : ScalarKind} (h : n.kind = .scalar kind) :
    ∃ a, n.scalar? = some a ∧ a.kind = kind := by
  cases n with
  | typed n =>
    rw [Node.kind] at h
    rw [scalar?]
    cases hr : n.reading <;> simp_all [Reading.kind]
  | key text => cases h; exact ⟨_, rfl, rfl⟩
  | basic d => cases d <;> first | (cases h; exact ⟨_, rfl, rfl⟩) | contradiction
  | null => contradiction
  | pair text value => contradiction

theorem asScalar_of_ne {n : Node} {kind : ScalarKind} (h : n.kind ≠ .scalar kind) :
    n.asScalar kind = .error (.wrongKind (.scalar kind) n.kind) := by
  have other : ∀ a, n.scalar? = some a → a.kind ≠ kind := fun a ha same =>
    h (same ▸ kind_of_scalar? ha)
  cases hs : n.scalar? with
  | none =>
    cases kind <;> simp only [asScalar, asBool, asInt, asFloat, asString, asBytes, asLink, hs] <;> rfl
  | some a =>
    have other := other a hs
    cases kind <;> cases a <;> first
      | exact absurd rfl other
      | (simp only [asScalar, asBool, asInt, asFloat, asString, asBytes, asLink, hs]; rfl)

theorem asScalar_answers (n : Node) (kind : ScalarKind) :
    AnswersAt [.scalar kind] (.scalar kind) n.kind (n.asScalar kind) := by
  rw [AnswersAt, List.mem_singleton]
  refine ⟨fun same => ?_, asScalar_of_ne⟩
  obtain ⟨a, ha, rfl⟩ := scalar?_of_kind same
  exact ⟨a, asScalar_of_scalar? ha⟩

/-! ### Lists and maps -/

theorem kind_of_items? {n : Node} {items : List Node} (h : n.items? = some items) :
    n.kind = .list := by
  cases n with
  | typed n =>
    rw [items?, TypedNode.items?] at h
    rw [kind]
    cases hr : n.reading <;> simp_all [Reading.kind]
  | pair text value => rfl
  | basic d => cases d <;> first | rfl | contradiction
  | null => contradiction
  | key text => contradiction

theorem kind_of_entries? {n : Node} {es : List (Node × Node)} (h : n.entries? = some es) :
    n.kind = .map := by
  cases n with
  | typed n =>
    rw [entries?, TypedNode.entries?] at h
    rw [kind]
    cases hr : n.reading <;> simp_all [Reading.kind]
  | basic d => cases d <;> first | rfl | contradiction
  | null => contradiction
  | key text => contradiction
  | pair text value => contradiction

theorem values_answers (n : Node) : AnswersAt [.list] .list n.kind n.values := by
  rw [AnswersAt, List.mem_singleton]
  constructor
  · intro kind
    obtain ⟨items, hi⟩ := exists_items_of_kind kind
    exact ⟨items, values_eq_ok_iff.mpr hi⟩
  · intro kind
    rw [values]
    cases hi : n.items? with
    | none => rfl
    | some items => exact absurd (kind_of_items? hi) kind

theorem entries_answers (n : Node) : AnswersAt [.map] .map n.kind n.entries := by
  rw [AnswersAt, List.mem_singleton]
  constructor
  · intro kind
    obtain ⟨es, he⟩ := exists_entries_of_kind kind
    exact ⟨es, entries_eq_ok_iff.mpr he⟩
  · intro kind
    rw [entries]
    cases he : n.entries? with
    | none => rfl
    | some es => exact absurd (kind_of_entries? he) kind

theorem length_answers (n : Node) : AnswersAt [.list, .map] .map n.kind n.length := by
  rw [AnswersAt, List.mem_pair]
  constructor
  · rintro (kind | kind)
    · obtain ⟨items, hi⟩ := exists_items_of_kind kind
      exact exists_length_of_items hi
    · obtain ⟨es, he⟩ := exists_entries_of_kind kind
      exact exists_length_of_entries he
  · rw [not_or]
    rintro ⟨list, map⟩
    cases n with
    | typed n =>
      rw [kind] at list map ⊢
      rw [length, TypedNode.length.eq_def]
      cases hr : n.reading <;> simp_all [Reading.kind]
    | basic d => cases d <;> first | rfl | contradiction
    | pair text value => contradiction
    | null => rfl
    | key text => rfl

/-! ### Positions and keys -/

theorem lookupIndex_of_list {n : Node} (kind : n.kind = .list) (index : Nat) :
    (∃ c, n.lookupIndex index = .ok c) ∨
      ∃ length, n.length = .ok length ∧ n.lookupIndex index = .error (.outOfRange index length) := by
  cases n with
  | typed n =>
    rw [Node.kind] at kind
    simp only [lookupIndex, length, TypedNode.lookupIndex, TypedNode.length]
    cases hr : n.reading with
    | items elem slots => cases hs : slots[index]? <;> simp [hs]
    | tuple fields slots =>
      cases hf : fields[index]? <;> cases hs : slots[index]? <;> simp [hf, hs]
    | pairs keys fields slots =>
      cases hp : ((fields.zip slots).filterMap fun p => n.pair? keys p.1 p.2)[index]? <;> simp [hp]
    | _ => simp [hr, Reading.kind] at kind
  | pair text value =>
    rcases index with _ | _ | index
    · exact .inl ⟨_, rfl⟩
    · exact .inl ⟨_, rfl⟩
    · exact .inr ⟨2, rfl, rfl⟩
  | basic d =>
    cases d with
    | list items =>
      rw [lookupIndex]
      cases items[index]? with
      | some d => exact .inl ⟨_, rfl⟩
      | none => exact .inr ⟨_, rfl, rfl⟩
    | _ => contradiction
  | null => contradiction
  | key text => contradiction

theorem lookupIndex_of_not_list {n : Node} (kind : n.kind ≠ .list) (index : Nat) :
    n.lookupIndex index = .error (.wrongKind .list n.kind) := by
  cases hi : n.items? with
  | none => exact lookupIndex_of_no_items hi index
  | some items => exact absurd (kind_of_items? hi) kind

theorem found_or_notExists (node? : Option Node) (key : String) :
    (∃ c : Node, (match node? with
      | some node => Except.ok node
      | none => .error (AccessError.notExists key)) = .ok c) ∨
    (match node? with
      | some node => Except.ok node
      | none => .error (AccessError.notExists key)) = .error (.notExists key) := by
  cases node? with
  | some node => exact .inl ⟨node, rfl⟩
  | none => exact .inr rfl

theorem lookup_of_map {n : Node} (kind : n.kind = .map) (text : String) :
    (∃ c, n.lookup text = .ok c) ∨ n.lookup text = .error (.notExists text) := by
  cases n with
  | typed n =>
    rw [Node.kind] at kind
    rw [lookup, TypedNode.lookup]
    cases hr : n.reading with
    | entries keyType value dict omitNulls => exact found_or_notExists _ text
    | fields keys fields slots => exact found_or_notExists _ text
    | choice present member value => exact found_or_notExists _ text
    | _ => simp [hr, Reading.kind] at kind
  | basic d =>
    cases d with
    | map entries =>
      rw [lookup]
      cases entries.lookup text with
      | some d => exact .inl ⟨_, rfl⟩
      | none => exact .inr rfl
    | _ => contradiction
  | null => contradiction
  | key text => contradiction
  | pair text value => contradiction

theorem lookup_of_not_map {n : Node} (kind : n.kind ≠ .map) (text : String) :
    n.lookup text = .error (.wrongKind .map n.kind) := by
  cases he : n.entries? with
  | none => exact lookup_of_no_entries he text
  | some es => exact absurd (kind_of_entries? he) kind

theorem lookupNode_of_map {n : Node} (kind : n.kind = .map) {key : Node} {text : String}
    (represented : key.keyText = .ok text) :
    (∃ c, n.lookupNode key = .ok c) ∨ n.lookupNode key = .error (.notExists text) := by
  have byText := lookup_of_map kind text
  cases n with
  | typed n =>
    have led : (typed n).lookupNode key = n.lookupText text := by rw [lookupNode, represented]; rfl
    rw [led, TypedNode.lookupText]
    cases n.reading with
    | entries keyType value dict omitNulls => exact found_or_notExists _ text
    | _ => exact byText
  | basic d =>
    have led : (basic d).lookupNode key = (basic d).lookup text := by
      rw [lookupNode, represented]; rfl
    rwa [led]
  | null => contradiction
  | key text => contradiction
  | pair text value => contradiction

theorem lookupNode_of_not_map {n : Node} (kind : n.kind ≠ .map) {key : Node} {text : String}
    (represented : key.keyText = .ok text) :
    n.lookupNode key = .error (.wrongKind .map n.kind) := by
  have byText := lookup_of_not_map kind text
  rw [lookupNode, represented]
  cases n with
  | typed n =>
    cases he : n.entries? with
    | none => exact TypedNode.lookupText_of_no_entries he text
    | some es => exact absurd (kind_of_entries? (n := .typed n) he) kind
  | _ => exact byText

/-- **The kind of a node says what it answers and what it refuses.** -/
theorem guided (n : Node) : n.Guided where
  asScalar := n.asScalar_answers
  length := n.length_answers
  values := n.values_answers
  entries := n.entries_answers
  lookupIndex index := ⟨fun kind => lookupIndex_of_list kind index,
    fun kind => lookupIndex_of_not_list kind index⟩
  lookup text := ⟨fun kind => lookup_of_map kind text, fun kind => lookup_of_not_map kind text⟩
  lookupNode _ _ represented := ⟨fun kind => lookupNode_of_map kind represented,
    fun kind => lookupNode_of_not_map kind represented⟩

/-! ### Data trees -/

/-- **Read as its kind says, a node is the data tree that it shows.** -/
theorem readDatum_eq_toDatum (n : Node) : n.readDatum = n.toDatum := by
  rw [readDatum_eq, toDatum_eq]
  cases hi : n.items? with
  | some items =>
    have smaller : ∀ c ∈ items, c.readDatum = c.toDatum := fun c mem =>
      have := weight_lt_of_mem_items hi mem
      readDatum_eq_toDatum c
    rw [kind_of_items? hi, values_eq_ok_iff.mpr hi]
    exact congrArg (Datum.list <$> ·) (mapM_congr smaller)
  | none =>
    cases he : n.entries? with
    | some pairs =>
      have smaller : ∀ c ∈ pairs, c.2.readDatum = c.2.toDatum := fun c mem =>
        have := (weight_lt_of_mem_entries he mem).2
        readDatum_eq_toDatum c.2
      rw [kind_of_entries? he, entries_eq_ok_iff.mpr he]
      exact congrArg (Datum.map <$> ·) (mapM_congr fun c mem => by rw [smaller c mem])
    | none =>
      cases hs : n.scalar? with
      | some a =>
        rw [kind_of_scalar? hs]
        exact congrArg (Datum.scalar <$> ·) (asScalar_of_scalar? hs)
      | none =>
        cases kind : n.kind with
        | null => rfl
        | scalar kind =>
          obtain ⟨a, ha, -⟩ := scalar?_of_kind kind
          exact nomatch hs.symm.trans ha
        | list =>
          obtain ⟨items, found⟩ := exists_items_of_kind kind
          exact nomatch hi.symm.trans found
        | map =>
          obtain ⟨pairs, found⟩ := exists_entries_of_kind kind
          exact nomatch he.symm.trans found
termination_by n.weight

end Node

/-! ## What is reached -/

def Node.PairRepresented : Node → Prop
  | pair _ (some n) => n.view = .representation
  | typed _ | null | key _ | pair _ none | basic _ => True

namespace TypedNode

variable {n : TypedNode}

theorem Shows.pairRepresented {c : Node} (h : n.Shows c) : c.PairRepresented := by
  cases h with
  | pair seen key view_eq =>
    rename_i value
    cases value with
    | none => trivial
    | some m => exact (view_eq m rfl).trans seen
  | _ => trivial

theorem shows_of_entryAt? {value : TypeId} {dict : Dict Value} {omitNulls : Bool} {text : String}
    {w : Node} (hw : n.entryAt? value dict omitNulls text = some w) : n.Shows w := by
  obtain ⟨e, -, hw⟩ := Option.bind_eq_some_iff.mp hw
  split at hw
  · contradiction
  · exact shows_of_slot? hw

theorem shows_of_lookup {key : String} {w : Node} (hw : n.lookup key = .ok w) : n.Shows w := by
  rw [TypedNode.lookup] at hw
  cases hr : n.reading with
  | entries keyType value dict omitNulls =>
    rw [hr] at hw
    obtain ⟨stored, -, hw⟩ := Option.bind_eq_some_iff.mp (found_eq_ok_iff.mp hw)
    exact shows_of_entryAt? hw
  | fields keys fields slots =>
    rw [hr] at hw
    obtain ⟨name, -, hw⟩ := Option.bind_eq_some_iff.mp (found_eq_ok_iff.mp hw)
    obtain ⟨i, -, hw⟩ := Option.bind_eq_some_iff.mp hw
    obtain ⟨f, -, hw⟩ := Option.bind_eq_some_iff.mp hw
    obtain ⟨slot, -, hw⟩ := Option.bind_eq_some_iff.mp hw
    exact shows_of_slot? hw
  | choice present member value =>
    rw [hr] at hw
    obtain ⟨-, same⟩ := Option.ite_none_right_eq_some.mp (found_eq_ok_iff.mp hw)
    cases same
    exact .value member value
  | _ => simp [hr] at hw

theorem shows_of_lookupText {text : String} {w : Node} (hw : n.lookupText text = .ok w) :
    n.Shows w := by
  rw [TypedNode.lookupText] at hw
  split at hw
  · exact shows_of_entryAt? (found_eq_ok_iff.mp hw)
  · exact shows_of_lookup hw

theorem shows_of_lookupIndex {index : Nat} {w : Node} (hw : n.lookupIndex index = .ok w) :
    n.Shows w := by
  rw [TypedNode.lookupIndex] at hw
  cases hr : n.reading with
  | items elem slots =>
    cases hs : slots[index]? with
    | none => simp [hr, hs] at hw
    | some slot =>
      simp only [hr, hs, Except.ok.injEq] at hw
      exact hw ▸ shows_slot elem slot
  | tuple fields slots =>
    cases hf : fields[index]? with
    | none => simp [hr, hf] at hw
    | some f =>
      cases hs : slots[index]? with
      | none => simp [hr, hf, hs] at hw
      | some slot =>
        simp only [hr, hf, hs, Except.ok.injEq] at hw
        exact hw ▸ shows_slot f.type slot
  | pairs keys fields slots =>
    cases hp : ((fields.zip slots).filterMap fun p => n.pair? keys p.1 p.2)[index]? with
    | none => simp [hr, hp] at hw
    | some c =>
      simp only [hr, hp, Except.ok.injEq] at hw
      obtain ⟨p, -, hpair⟩ := List.mem_filterMap.mp (List.mem_of_getElem? hp)
      exact hw ▸ shows_of_pair? (Schema.view_of_pairs hr) hpair
  | _ => simp [hr] at hw

end TypedNode

namespace Node.PairRepresented

variable {n root : Node}

theorem items {items : List Node} (hi : n.items? = some items) {c : Node} (hc : c ∈ items) :
    c.PairRepresented := by
  cases n with
  | typed n => exact (TypedNode.shows_of_items hi hc).pairRepresented
  | pair text value =>
    cases hi
    rcases List.mem_pair.mp hc with rfl | rfl
    · trivial
    · cases value <;> trivial
  | basic d =>
    cases d with
    | list items =>
      cases hi
      obtain ⟨d, -, rfl⟩ := List.mem_map.mp hc
      trivial
    | _ => contradiction
  | null => contradiction
  | key text => contradiction

theorem entries {es : List (Node × Node)} (he : n.entries? = some es) {c : Node × Node}
    (hc : c ∈ es) : c.1.PairRepresented ∧ c.2.PairRepresented := by
  cases n with
  | typed n =>
    obtain ⟨key, value⟩ := TypedNode.shows_of_entries he hc
    exact ⟨key.pairRepresented, value.pairRepresented⟩
  | basic d =>
    cases d with
    | map entries =>
      cases he
      obtain ⟨p, -, rfl⟩ := List.mem_map.mp hc
      exact ⟨trivial, trivial⟩
    | _ => contradiction
  | null => contradiction
  | key text => contradiction
  | pair text value => contradiction

theorem lookup {text : String} {w : Node} (hw : n.lookup text = .ok w) : w.PairRepresented := by
  cases n with
  | typed n => exact (TypedNode.shows_of_lookup hw).pairRepresented
  | basic d =>
    cases d with
    | map entries =>
      rw [Node.lookup] at hw
      cases he : entries.lookup text with
      | none => simp [he] at hw
      | some d =>
        simp only [he, Except.ok.injEq] at hw
        exact hw ▸ trivial
    | _ => contradiction
  | null => contradiction
  | key text => contradiction
  | pair text value => contradiction

theorem lookupNode {key w : Node} (hw : n.lookupNode key = .ok w) : w.PairRepresented := by
  obtain ⟨text, -, hw⟩ := bind_eq_ok_iff.mp hw
  cases n with
  | typed n => exact (TypedNode.shows_of_lookupText hw).pairRepresented
  | basic d => exact lookup hw
  | null => contradiction
  | key text => contradiction
  | pair text value => contradiction

theorem lookupIndex {index : Nat} {w : Node} (hw : n.lookupIndex index = .ok w) :
    w.PairRepresented := by
  cases n with
  | typed n => exact (TypedNode.shows_of_lookupIndex hw).pairRepresented
  | pair text value =>
    match index with
    | 0 =>
      cases hw
      trivial
    | 1 =>
      cases hw
      cases value <;> trivial
    | _ + 2 => contradiction
  | basic d =>
    cases d with
    | list items =>
      rw [Node.lookupIndex] at hw
      cases hi : items[index]? with
      | none => simp [hi] at hw
      | some d =>
        simp only [hi, Except.ok.injEq] at hw
        exact hw ▸ trivial
    | _ => contradiction
  | null => contradiction
  | key text => contradiction

theorem inView (h : n.PairRepresented) (view : View) : (n.inView view).PairRepresented := by
  cases n with
  | typed n => trivial
  | _ => exact h

/-- **A step leads to pairs only of what is seen through the representation view.** -/
theorem take (h : n.PairRepresented) {step : Step} {w : Node} (hw : root.take step n = .ok w) :
    w.PairRepresented := by
  cases step with
  | key text => exact lookup (mapError_eq_ok_iff.mp hw)
  | index position => exact lookupIndex (mapError_eq_ok_iff.mp hw)
  | datumKey d => exact lookupNode (mapError_eq_ok_iff.mp hw)
  | textKey text => exact lookupNode (mapError_eq_ok_iff.mp hw)
  | nullKey =>
    have led : n.lookupNode .null = .ok w := mapError_eq_ok_iff.mp hw
    exact lookupNode led
  | nodeKey path =>
    obtain ⟨key, -, hw⟩ := bind_eq_ok_iff.mp hw
    exact lookupNode (mapError_eq_ok_iff.mp hw)
  | entryKey position =>
    obtain ⟨c, hc, rfl⟩ := map_eq_ok_iff.mp hw
    obtain ⟨es, he, mem⟩ := pick_eq_ok_iff.mp hc
    exact (entries (entries_eq_ok_iff.mp he) (List.mem_of_getElem? mem)).1
  | entryValue position =>
    obtain ⟨c, hc, rfl⟩ := map_eq_ok_iff.mp hw
    obtain ⟨es, he, mem⟩ := pick_eq_ok_iff.mp hc
    exact (entries (entries_eq_ok_iff.mp he) (List.mem_of_getElem? mem)).2
  | item position =>
    obtain ⟨l, hl, mem⟩ := pick_eq_ok_iff.mp hw
    exact items (values_eq_ok_iff.mp hl) (List.mem_of_getElem? mem)
  | representation =>
    cases hw
    exact h.inView .representation
  | typed =>
    cases hw
    exact h.inView .typed

/-- So does a path. -/
theorem follow (h : n.PairRepresented) {path : List Step} {w : Node}
    (hw : root.follow path n = .ok w) : w.PairRepresented := by
  induction path generalizing n with
  | nil =>
    cases hw
    exact h
  | cons step rest ih =>
    obtain ⟨next, hnext, hw⟩ := bind_eq_ok_iff.mp hw
    exact ih (h.take hnext) hw

/-- **The representation of such a node is a data tree.** -/
theorem exists_toDatum (h : n.PairRepresented) : ∃ d, n.representation.toDatum = .ok d := by
  have seen : n.representation.Represented := by
    cases n with
    | typed n => rfl
    | pair text value => cases value <;> exact h
    | null => trivial
    | key text => trivial
    | basic d => trivial
  obtain ⟨d, written, -⟩ := n.representation.toDatum_of_represented seen
  exact ⟨d, written⟩

end Node.PairRepresented

/-! ## Values that fit -/

namespace Schema

variable {s : Schema} {type : TypeId} {v : Value}

/-- The kind of the representation of a value: that of its type or, for a kinded union, of the
member that is present. -/
def presentKind? (s : Schema) (type : TypeId) (v : Value) : Option Kind :=
  match s.body type, v with
  | .union members .kinded, .union i _ => members[i]?.bind fun member => (s.body member).reprKind?
  | body, _ => body.reprKind?

theorem presentKind?_of_reprKind? {kind : Kind} (h : (s.body type).reprKind? = some kind) :
    s.presentKind? type v = some kind := by
  unfold presentKind?
  split
  · rename_i body
    rw [body] at h
    contradiction
  · exact h

/-- In the typed view, a value that fits has the kind of its type. -/
theorem Fits.kind_typed (h : s.Fits type v) :
    (s.read .typed type v).kind = (s.body type).kind := by
  cases h with
  | scalar body => simp [Schema.read, body, Reading.kind, Body.kind]
  | list body states values => simp [Schema.read, body, Reading.kind, Body.kind]
  | map body keys texts apart states values => simp [Schema.read, body, Reading.kind, Body.kind]
  | struct body length states values =>
    simp [Schema.read, body, Schema.readStruct, Reading.kind, Body.kind]
  | union body at_member value => simp [Schema.read, body, at_member, Reading.kind, Body.kind]
  | enum body bound =>
    simp [Schema.read, body, Schema.readEnum, List.getElem?_eq_getElem bound, Reading.kind,
      Body.kind, Scalar.kind]

/-- **In the representation, a value that fits has the kind of its type**, or that of the member
that is present. -/
theorem Fits.kind_represented (valid : s.Valid) (h : s.Fits type v) :
    s.presentKind? type v = some (s.read .representation type v).kind := by
  induction h with
  | scalar body => simp [presentKind?, Schema.read, body, Reading.kind, Body.reprKind?]
  | list body states values => simp [presentKind?, Schema.read, body, Reading.kind, Body.reprKind?]
  | map body keys texts apart states values =>
    simp [presentKind?, Schema.read, body, Reading.kind, Body.reprKind?]
  | @struct type fields repr slots body length states values =>
    cases repr <;>
      simp [presentKind?, Schema.read, body, Schema.readStruct, Reading.kind, Body.reprKind?,
        Scalar.kind]
  | @union type member members repr i v body at_member value ih =>
    cases repr with
    | keyed discriminants =>
      have mem := List.mem_map_of_mem (f := s.nameOf) (List.mem_of_getElem? at_member)
      obtain ⟨key, hl⟩ := (valid.discriminants body).exists_label mem
      simp [presentKind?, Schema.read, body, at_member, hl, Reading.kind, Body.reprKind?]
    | kinded =>
      obtain ⟨kinds, he, -⟩ := valid.kinds body
      have hk : (s.body member).reprKind? ∈ kinds.map some :=
        he ▸ List.mem_map_of_mem (List.mem_of_getElem? at_member)
      obtain ⟨kind, -, hk⟩ := List.mem_map.mp hk
      rw [presentKind?_of_reprKind? hk.symm] at ih
      simp only [presentKind?, Schema.read, body, at_member, Option.bind_some]
      exact hk.symm.trans ih
  | @enum type members repr i body bound =>
    have hi := List.getElem?_eq_getElem bound
    cases repr with
    | string keys =>
      simp [presentKind?, Schema.read, body, Schema.readEnum, EnumRepr.scalar?, EnumRepr.text?, hi,
        Reading.kind, Body.reprKind?, Scalar.kind]
    | int values =>
      obtain ⟨x, hx⟩ := (valid.enum_values body).exists_label (List.getElem_mem bound)
      simp [presentKind?, Schema.read, body, Schema.readEnum, EnumRepr.scalar?, EnumRepr.text?,
        EnumRepr.int?, hi, hx, Reading.kind, Body.reprKind?, Scalar.kind]

end Schema

/-! ## Kinds as guides -/

namespace TypedValue

/-- **Kinds are exact guides to reading.**  Whether or not a value fits its type, every node that is
reached from it answers what belongs to its kind, refuses the rest for its kind, and has a
representation that is a data tree.  A value that fits has the kinds that its declaration has. -/
theorem kind_guides {ts : TypeSystem} {s : Schema} {c : Config} {m : Model}
    (frozen : ts.finalize = .ok s) (compiled : s.compile c = .ok m) (type : TypeId) (v : Value) :
    (∀ view path n, ((⟨m, type, v⟩ : TypedValue).nodeIn view).at? path = .ok n →
      n.Guided ∧ ∃ d, n.representation.toDatum = .ok d) ∧
    (m.schema.Fits type v →
      (⟨m, type, v⟩ : TypedValue).node.kind = (m.schema.decl type).kind ∧
      m.schema.presentKind? type v = some (⟨m, type, v⟩ : TypedValue).representation.kind) := by
  constructor
  · intro view path n reached
    have root : ((⟨m, type, v⟩ : TypedValue).nodeIn view).PairRepresented := trivial
    exact ⟨n.guided, (root.follow reached).exists_toDatum⟩
  · intro fits
    obtain rfl := Schema.schema_of_compile compiled
    exact ⟨fits.kind_typed, fits.kind_represented (Schema.valid_of_finalize frozen)⟩

/-- An int that is stored where a list should be reads as a null: it is refused as a list.  In a
value that fits, a count is represented with the kind of an int. -/
theorem kind_guides_sample :
    Sample.types.finalize = .ok Sample.schema ∧
      Sample.schema.compile .empty = .ok Sample.model ∧
      Sample.misfit.values = .error (.wrongKind .list .null) ∧
      Sample.schema.presentKind? 6 (.union 0 (.scalar (.int 3))) = some (.scalar .int) ∧
      (TypedValue.representation ⟨Sample.model, 6, .union 0 (.scalar (.int 3))⟩).kind =
        .scalar .int := by
  have misread := (kind_guides Sample.finalize_types Sample.compile_schema 7 (.scalar (.int 3))).1
    .typed [] Sample.misfit rfl
  have fits : Sample.schema.Fits 6 (.union 0 (.scalar (.int 3))) :=
    .union rfl rfl (.scalar rfl)
  have kinds := (kind_guides Sample.finalize_types Sample.compile_schema 6
    (.union 0 (.scalar (.int 3)))).2 fits
  exact ⟨Sample.finalize_types, Sample.compile_schema, misread.1.values.2 (by decide), rfl,
    Option.some.inj (kinds.2.symm.trans rfl)⟩

end TypedValue

end DualView
