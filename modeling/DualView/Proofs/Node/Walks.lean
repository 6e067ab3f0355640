import DualView.Node.Path
import DualView.Proofs.Assembly.Runs
import DualView.Proofs.Node.Listing

/-!
# Nodes that are read alike

The representation view of a value computes its items and entries when asked; the data tree that
represents the value has them at hand.  No reader can tell which of the two is being read: nodes
with one tree answer alike, and what they lead to has one tree again.  So a path from either leads
to nodes that answer alike, or fails in the same step for the same reason.

* `Node.Alike.readsLike`: nodes with one tree answer alike.
* `Node.Alike.take`: a step from alike nodes leads to alike nodes, or fails alike.
* `Node.Alike.walk`: so does a path.
* `Builder.representation_walks`: from the representation view of a value that is built, and from
  its data tree, every path goes the same way.
-/

namespace DualView

/-! ## What a tree tells of its node -/

namespace Tree

def scalar? : Tree → Option Scalar
  | scalar a => some a
  | _ => none

def items? : Tree → Option (List Tree)
  | list items => some items
  | _ => none

def entries? : Tree → Option (List (Tree × Tree))
  | map entries => some entries
  | _ => none

end Tree

namespace Node

variable {n n' : Node}

theorem kind_tree (n : Node) : n.tree.kind = n.kind := by
  cases n with
  | typed n =>
    rw [tree_typed, kind]
    cases n.reading <;> rfl
  | null => rw [tree_null]; rfl
  | key text => rw [tree_key]; rfl
  | pair text value => rw [tree_pair]; rfl
  | basic d => exact Datum.kind_tree d

theorem entries?_of_items {items : List Node} (hi : n.items? = some items) :
    n.entries? = none ∧ n.scalar? = none := by
  cases n with
  | typed n =>
    rw [items?, TypedNode.items?] at hi
    rw [entries?, TypedNode.entries?, scalar?]
    cases hr : n.reading <;> simp [hr] at hi ⊢
  | basic d => cases d <;> first | exact ⟨rfl, rfl⟩ | contradiction
  | null => contradiction
  | key text => contradiction
  | pair text value => exact ⟨rfl, rfl⟩

theorem scalar?_of_entries {entries : List (Node × Node)} (he : n.entries? = some entries) :
    n.scalar? = none := by
  cases n with
  | typed n =>
    rw [entries?, TypedNode.entries?] at he
    rw [scalar?]
    cases hr : n.reading <;> simp [hr] at he ⊢
  | basic d => cases d <;> first | rfl | contradiction
  | null => contradiction
  | key text => contradiction
  | pair text value => contradiction

theorem items?_tree (n : Node) : n.tree.items? = n.items?.map (List.map tree) := by
  rw [tree_eq]
  cases n.items? with
  | some items => rfl
  | none => cases n.entries? <;> cases n.scalar? <;> rfl

theorem entries?_tree (n : Node) : n.tree.entries? = n.entries?.map (List.map trees) := by
  rw [tree_eq]
  cases hi : n.items? with
  | some items =>
    rw [(entries?_of_items hi).1]
    rfl
  | none => cases n.entries? <;> cases n.scalar? <;> rfl

theorem scalar?_tree (n : Node) : n.tree.scalar? = n.scalar? := by
  rw [tree_eq]
  cases hi : n.items? with
  | some items =>
    rw [(entries?_of_items hi).2]
    rfl
  | none =>
    cases he : n.entries? with
    | some entries =>
      rw [scalar?_of_entries he]
      rfl
    | none => cases n.scalar? <;> rfl

/-! ## Nodes with one tree -/

structure Alike (n n' : Node) : Prop where
  fits : n.Fits
  fits' : n'.Fits
  seen : n.Represented
  seen' : n'.Represented
  tree_eq : n.tree = n'.tree

def AlikeEntry (c c' : Node × Node) : Prop := c.1.Alike c'.1 ∧ c.2.Alike c'.2

theorem Alike.kind_eq (h : n.Alike n') : n.kind = n'.kind := by
  rw [← kind_tree, h.tree_eq, kind_tree]

theorem Alike.scalar?_eq (h : n.Alike n') : n.scalar? = n'.scalar? := by
  rw [← scalar?_tree, h.tree_eq, scalar?_tree]

theorem itemAt_corresponds {is is' : List Node} (all : List.Forall₂ Alike is is')
    (position : Nat) : Corresponds Alike (itemAt is position) (itemAt is' position) := by
  rw [itemAt, itemAt, all.length_eq]
  obtain ⟨c, c', hc, hc', alike⟩ | ⟨hc, hc'⟩ := rel_iff.mp (getElem?_of_forall₂ all position) <;>
    rw [hc, hc']
  · exact .ok alike
  · exact .error _

theorem under?_of_forall₂ {es es' : List (Node × Node)} (all : List.Forall₂ AlikeEntry es es')
    (text : String) : Option.Rel Alike (under? es text) (under? es' text) := by
  induction all with
  | nil => exact .none
  | @cons c c' _ _ alike _ ih =>
    rw [under?, under?, List.find?_cons, List.find?_cons, alike.1.scalar?_eq]
    cases decide (c'.1.scalar? = some (.string text)) with
    | true => exact .some alike.2
    | false => exact ih

theorem valueUnder_corresponds {es es' : List (Node × Node)}
    (all : List.Forall₂ AlikeEntry es es') (text : String) :
    Corresponds Alike (valueUnder es text) (valueUnder es' text) := by
  rw [valueUnder, valueUnder]
  obtain ⟨c, c', hc, hc', alike⟩ | ⟨hc, hc'⟩ := rel_iff.mp (under?_of_forall₂ all text) <;>
    rw [hc, hc']
  · exact .ok alike
  · exact .error _

section Alike

variable (h : n.Alike n')
include h

/-- Alike nodes have alike items, or none. -/
theorem Alike.items? : Option.Rel (List.Forall₂ Alike) n.items? n'.items? := by
  have trees_eq : n.items?.map (List.map tree) = n'.items?.map (List.map tree) := by
    rw [← items?_tree, h.tree_eq, items?_tree]
  refine rel_of_map_eq trees_eq fun items hi items' hi' he => ?_
  refine forall₂_of_map_eq he fun c hc c' hc' hce => ?_
  exact ⟨h.fits.items hi hc, h.fits'.items hi' hc', h.seen.items hi hc, h.seen'.items hi' hc', hce⟩

theorem Alike.entries? : Option.Rel (List.Forall₂ AlikeEntry) n.entries? n'.entries? := by
  have trees_eq : n.entries?.map (List.map trees) = n'.entries?.map (List.map trees) := by
    rw [← entries?_tree, h.tree_eq, entries?_tree]
  refine rel_of_map_eq trees_eq fun es he es' he' heq => ?_
  refine forall₂_of_map_eq heq fun c hc c' hc' hce => ?_
  obtain ⟨hkey, hvalue⟩ := Prod.mk.inj hce
  obtain ⟨fitsKey, fitsValue⟩ := h.fits.entries he hc
  obtain ⟨fitsKey', fitsValue'⟩ := h.fits'.entries he' hc'
  obtain ⟨⟨text, ht⟩, seen⟩ := h.seen.entries he hc
  obtain ⟨⟨text', ht'⟩, seen'⟩ := h.seen'.entries he' hc'
  exact ⟨⟨fitsKey, fitsKey', ht ▸ trivial, ht' ▸ trivial, hkey⟩,
    fitsValue, fitsValue', seen, seen', hvalue⟩

/-! ### Answers -/

theorem Alike.length_eq : n.length = n'.length := by
  obtain ⟨is, is', hi, hi', all⟩ | ⟨hi, hi'⟩ := rel_iff.mp h.items?
  · rw [length_of_items h.fits hi, length_of_items h.fits' hi', all.length_eq]
  obtain ⟨es, es', he, he', all⟩ | ⟨he, he'⟩ := rel_iff.mp h.entries?
  · rw [length_of_entries h.fits he, length_of_entries h.fits' he', all.length_eq]
  · rw [length_of_leaf hi he, length_of_leaf hi' he', h.kind_eq]

theorem Alike.toDatum_eq : n.toDatum = n'.toDatum := by
  obtain ⟨d, hd, htree⟩ := n.toDatum_of_represented h.seen
  obtain ⟨d', hd', htree'⟩ := n'.toDatum_of_represented h.seen'
  rw [hd, hd', Datum.tree_injective d d' (by rw [htree, htree', h.tree_eq])]

theorem Alike.keyText_eq : n.keyText = n'.keyText := by
  rw [keyText, keyText, representation_of_represented h.seen,
    representation_of_represented h.seen', asString, asString, h.scalar?_eq, h.kind_eq]

/-! ### Steps -/

theorem Alike.representation : n.representation.Alike n'.representation := by
  rw [representation_of_represented h.seen, representation_of_represented h.seen']
  exact h

theorem Alike.values : Corresponds (List.Forall₂ Alike) n.values n'.values := by
  rw [Node.values, Node.values, h.kind_eq]
  obtain ⟨is, is', hi, hi', all⟩ | ⟨hi, hi'⟩ := rel_iff.mp h.items? <;> rw [hi, hi']
  · exact .ok all
  · exact .error _

theorem Alike.entries : Corresponds (List.Forall₂ AlikeEntry) n.entries n'.entries := by
  rw [Node.entries, Node.entries, h.kind_eq]
  obtain ⟨es, es', he, he', all⟩ | ⟨he, he'⟩ := rel_iff.mp h.entries? <;> rw [he, he']
  · exact .ok all
  · exact .error _

theorem Alike.lookupIndex (position : Nat) :
    Corresponds Alike (n.lookupIndex position) (n'.lookupIndex position) := by
  obtain ⟨is, is', hi, hi', all⟩ | ⟨hi, hi'⟩ := rel_iff.mp h.items?
  · rw [lookupIndex_of_items h.fits hi, lookupIndex_of_items h.fits' hi']
    exact itemAt_corresponds all position
  · rw [lookupIndex_of_no_items hi, lookupIndex_of_no_items hi', h.kind_eq]
    exact .error _

theorem Alike.lookup (key : String) : Corresponds Alike (n.lookup key) (n'.lookup key) := by
  obtain ⟨es, es', he, he', all⟩ | ⟨he, he'⟩ := rel_iff.mp h.entries?
  · rw [lookup_of_entries h.fits h.seen he, lookup_of_entries h.fits' h.seen' he']
    exact valueUnder_corresponds all key
  · rw [lookup_of_no_entries he, lookup_of_no_entries he', h.kind_eq]
    exact .error _

theorem Alike.lookupNode {key key' : Node} (text_eq : key.keyText = key'.keyText) :
    Corresponds Alike (n.lookupNode key) (n'.lookupNode key') := by
  rw [lookupNode_represented h.seen, lookupNode_represented h.seen', text_eq]
  cases key'.keyText with
  | error e => exact .error e
  | ok text => exact h.lookup text

end Alike

end Node

/-! ## Paths that stay in a view -/

namespace Step

mutual

/-- The step does not go to the typed view, nor does the path to the key it asks for. -/
def staysInView : Step → Bool
  | .typed => false
  | .nodeKey path => allStayInView path
  | _ => true

def allStayInView : List Step → Bool
  | [] => true
  | step :: rest => step.staysInView && allStayInView rest

end

theorem allStayInView_iff {path : List Step} :
    allStayInView path = true ↔ ∀ step ∈ path, step.staysInView = true := by
  induction path with
  | nil => simp [allStayInView]
  | cons step rest ih => rw [allStayInView, Bool.and_eq_true, ih, List.forall_mem_cons]

end Step

namespace Node

variable {n n' root root' : Node}

theorem pick_corresponds {α : Type} {R : α → α → Prop} {x y : Except AccessError (List α)}
    (h : Corresponds (List.Forall₂ R) x y) (position : Nat) :
    Corresponds R (pick x position) (pick y position) := by
  refine (h.mapError PathError.access).bind fun l r all => ?_
  obtain ⟨a, b, ha, hb, hab⟩ | ⟨ha, hb⟩ := rel_iff.mp (getElem?_of_forall₂ all position) <;>
    rw [ha, hb]
  · exact .ok hab
  · exact .error _

-- the path to a key that is a node starts at the root again, so steps and paths go together
mutual

/-- **A step from alike nodes leads to alike nodes, or fails alike.** -/
theorem Alike.take (hroot : root.Alike root') : (step : Step) → step.staysInView = true →
    ∀ {n n' : Node}, n.Alike n' → Corresponds Alike (root.take step n) (root'.take step n')
  | .key text, _, _, _, h => (h.lookup text).mapError PathError.access
  | .index position, _, _, _, h => (h.lookupIndex position).mapError PathError.access
  | .datumKey _, _, _, _, h => (h.lookupNode rfl).mapError PathError.access
  | .textKey _, _, _, _, h => (h.lookupNode rfl).mapError PathError.access
  | .nullKey, _, _, _, h =>
    (h.lookupNode (rfl : null.keyText = null.keyText)).mapError PathError.access
  | .nodeKey path, stays, _, _, h =>
    (Alike.follow hroot path stays hroot).bind fun _ _ key =>
      (h.lookupNode key.keyText_eq).mapError PathError.access
  | .entryKey position, _, _, _, h => (pick_corresponds h.entries position).map fun _ _ c => c.1
  | .entryValue position, _, _, _, h => (pick_corresponds h.entries position).map fun _ _ c => c.2
  | .item position, _, _, _, h => pick_corresponds h.values position
  | .representation, _, _, _, h => .ok h.representation

/-- **A path from alike nodes leads to alike nodes, or fails alike.** -/
theorem Alike.follow (hroot : root.Alike root') : (path : List Step) →
    Step.allStayInView path = true →
    ∀ {n n' : Node}, n.Alike n' → Corresponds Alike (root.follow path n) (root'.follow path n')
  | [], _, _, _, h => .ok h
  | step :: rest, stays, _, _, h =>
    have ⟨first, later⟩ := Bool.and_eq_true_iff.mp stays
    (Alike.take hroot step first h).bind fun _ _ h => Alike.follow hroot rest later h

end

/-! ## Walks -/

/-- Two nodes give a reader the same answers, and are copied and decoded alike. -/
structure ReadsLike (n n' : Node) : Prop where
  kind : n.kind = n'.kind
  isNull : n.isNull = n'.isNull
  length : n.length = n'.length
  asBool : n.asBool = n'.asBool
  asInt : n.asInt = n'.asInt
  asFloat : n.asFloat = n'.asFloat
  asString : n.asString = n'.asString
  asBytes : n.asBytes = n'.asBytes
  asLink : n.asLink = n'.asLink
  tree : n.tree = n'.tree
  toDatum : n.toDatum = n'.toDatum
  buildFrom : ∀ p : Prototype, p.buildFrom n = p.buildFrom n'

/-- From two roots a path goes the same way: it leads to nodes that read alike, or both walks come
to the same step, which fails for the same reason. -/
inductive SameWalk (root root' : Node) (path : List Step) : Prop
  | arrive {n n' : Node} (reached : root.at? path = .ok n) (reached' : root'.at? path = .ok n')
      (alike : n.ReadsLike n')
  | fail {before after : List Step} {step : Step} {n n' : Node} {e : PathError}
      (split : path = before ++ step :: after) (reached : root.at? before = .ok n)
      (reached' : root'.at? before = .ok n') (failed : root.take step n = .error e)
      (failed' : root'.take step n' = .error e)

/-- **Nodes with one tree answer alike.** -/
theorem Alike.readsLike (h : n.Alike n') : n.ReadsLike n' where
  kind := h.kind_eq
  isNull := by rw [isNull, isNull, h.kind_eq]
  length := h.length_eq
  asBool := by rw [asBool, asBool, h.scalar?_eq, h.kind_eq]
  asInt := by rw [asInt, asInt, h.scalar?_eq, h.kind_eq]
  asFloat := by rw [asFloat, asFloat, h.scalar?_eq, h.kind_eq]
  asString := by rw [asString, asString, h.scalar?_eq, h.kind_eq]
  asBytes := by rw [asBytes, asBytes, h.scalar?_eq, h.kind_eq]
  asLink := by rw [asLink, asLink, h.scalar?_eq, h.kind_eq]
  tree := h.tree_eq
  toDatum := h.toDatum_eq
  buildFrom p := by rw [Prototype.buildFrom, Prototype.buildFrom, h.tree_eq]

theorem follow_concat {path : List Step} {step : Step} {start : Node}
    (reached : root.follow path start = .ok n) :
    root.follow (path ++ [step]) start = root.take step n := by
  induction path generalizing start with
  | nil =>
    cases reached
    rw [List.nil_append, follow]
    exact bind_pure _
  | cons first rest ih =>
    rw [follow] at reached
    obtain ⟨next, hnext, hrest⟩ := bind_eq_ok_iff.mp reached
    rw [List.cons_append, follow]
    simp only [hnext]
    exact ih hrest

/-- Where a path has come to nodes that go together and read alike, and each further step keeps them
together or fails alike, it goes on the same way. -/
theorem walk_of_steps {R : Node → Node → Prop} (alike : ∀ n n', R n n' → n.ReadsLike n')
    {path rest : List Step}
    (steps : ∀ step ∈ rest, ∀ n n', R n n' → Corresponds R (root.take step n) (root'.take step n'))
    (h : R n n') (reached : root.at? path = .ok n) (reached' : root'.at? path = .ok n') :
    SameWalk root root' (path ++ rest) := by
  induction rest generalizing path n n' with
  | nil => exact .arrive (by rwa [List.append_nil]) (by rwa [List.append_nil]) (alike n n' h)
  | cons step rest ih =>
    rw [List.forall_mem_cons] at steps
    obtain ⟨e, ht, ht'⟩ | ⟨m, m', ht, ht', hm⟩ := (steps.1 n n' h).error_or_ok
    · exact .fail rfl reached reached' ht ht'
    · have walk := ih steps.2 hm ((follow_concat reached).trans ht)
        ((follow_concat reached').trans ht')
      rwa [List.append_assoc] at walk

/-- **From alike roots, every path goes the same way.** -/
theorem Alike.walk (hroot : root.Alike root') {path : List Step}
    (stays : Step.allStayInView path = true) : SameWalk root root' path := by
  refine walk_of_steps (fun _ _ => Alike.readsLike) ?_ hroot
    (rfl : root.at? [] = .ok root) (rfl : root'.at? [] = .ok root')
  intro step mem n n' h
  exact Alike.take hroot step (Step.allStayInView_iff.mp stays step mem) h

end Node

/-! ## What is built -/

namespace Builder

/-- **The representation view of a value and the data tree that represents it cannot be told
apart.**  From both, every path leads to nodes that answer alike, or fails in the same step for the
same reason. -/
theorem representation_walks {ts : TypeSystem} {s : Schema} {c : Config} {p : Prototype}
    (frozen : ts.finalize = .ok s) (once : s.RenamesOnce) (compiled : s.compile c = .ok p.model)
    (calls : List Call) {v : TypedValue} (built : ((ofPrototype p).run calls).1.build = .ok v) :
    ∃ d, v.toRepresentation = .ok d ∧ ∀ path, Step.allStayInView path = true →
      Node.SameWalk v.representation (.basic d) path := by
  obtain ⟨rfl, fits⟩ := built_fits frozen compiled calls built
  obtain ⟨d, hd, htree⟩ := v.exists_toRepresentation
  have alike : v.representation.Alike (.basic d) :=
    ⟨⟨Schema.valid_of_finalize frozen, once, fits⟩, trivial, rfl, trivial, htree.symm⟩
  exact ⟨d, hd, fun path stays => alike.walk stays⟩

theorem representation_walks_sample :
    Sample.types.finalize = .ok Sample.schema ∧ Sample.schema.RenamesOnce ∧
      Sample.schema.compile .empty = .ok Sample.prototype.model ∧
      ((ofPrototype Sample.prototype).run Sample.calls).1.build =
        .ok ⟨Sample.model, 7, Sample.value⟩ ∧
      Step.allStayInView [.index 2, .key "c", .entryKey 1] = true ∧
      Step.allStayInView [.index 2, .key "tag", .key "site"] = true ∧
      ∃ d, (⟨Sample.model, 7, Sample.value⟩ : TypedValue).toRepresentation = .ok d ∧
        Node.SameWalk (TypedValue.representation ⟨Sample.model, 7, Sample.value⟩) (.basic d)
          [.index 2, .key "c", .entryKey 1] ∧
        Node.SameWalk (TypedValue.representation ⟨Sample.model, 7, Sample.value⟩) (.basic d)
          [.index 2, .key "tag", .key "site"] := by
  obtain ⟨d, hd, walks⟩ := representation_walks (p := Sample.prototype) Sample.finalize_types
    Sample.renamesOnce_schema Sample.compile_schema Sample.calls rfl
  exact ⟨Sample.finalize_types, Sample.renamesOnce_schema, Sample.compile_schema, rfl, rfl, rfl,
    d, hd, walks _ rfl, walks _ rfl⟩

end Builder

end DualView
