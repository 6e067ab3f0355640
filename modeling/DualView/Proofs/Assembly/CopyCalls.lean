import DualView.Assembly.CopyNode
import DualView.Proofs.Assembly.Failures
import DualView.Proofs.Assembly.Lifecycle
import DualView.Proofs.Codec.Grammar
import DualView.Proofs.Node.Walks

/-!
# Copying keeps to the protocol

A copy makes one call after the other, each to what the last one left open.  The kind of a node says
how it can be read, even if what is stored does not fit its type, so no read is refused.  The calls
come in the order in which frames ask for them, so no call is refused for coming too early or too
late.  What a copy does call by call is therefore what it does to the opening as a whole.

* `Node.licensed`: how a node of a kind can be read.
* `Builder.BearsOut`: calls do what an outcome says; `Builder.copyNode_bearsOut`: so does a copy.
* `Prototype.copyRoot_keeps_protocol`: a copy finishes the builder, or fails for what is copied.
-/

namespace DualView

/-! ## Reads -/

namespace Node

/-- The kind of a node licenses reads of it, which show its tree. -/
inductive Licensed (n : Node) : Kind → Tree → Prop
  | null : Licensed n .null .null
  | scalar {a : Scalar} (read : n.asScalar a.kind = .ok a) :
      Licensed n (.scalar a.kind) (.scalar a)
  | list {count : Nat} {items : List Node} (length : n.length = .ok count)
      (values : n.values = .ok items) : Licensed n .list (.list (items.map tree))
  | map {count : Nat} {pairs : List (Node × Node)} (length : n.length = .ok count)
      (entries : n.entries = .ok pairs) : Licensed n .map (.map (pairs.map trees))

theorem asScalar_of_scalar? {n : Node} {a : Scalar} (h : n.scalar? = some a) :
    n.asScalar a.kind = .ok a := by
  cases a <;> simp [asScalar, Scalar.kind, asBool, asInt, asFloat, asString, asBytes, asLink, h]

theorem exists_length_of_items {n : Node} {items : List Node} (h : n.items? = some items) :
    ∃ count, n.length = .ok count := by
  cases n with
  | typed n =>
    rw [items?, TypedNode.items?] at h
    rw [length, TypedNode.length.eq_def]
    cases hr : n.reading <;> simp [hr] at h ⊢
  | pair text value => exact ⟨2, rfl⟩
  | basic d => cases d <;> first | exact ⟨_, rfl⟩ | contradiction
  | null => contradiction
  | key text => contradiction

theorem exists_length_of_entries {n : Node} {pairs : List (Node × Node)}
    (h : n.entries? = some pairs) : ∃ count, n.length = .ok count := by
  cases n with
  | typed n =>
    rw [entries?, TypedNode.entries?] at h
    rw [length, TypedNode.length.eq_def]
    cases hr : n.reading <;> simp [hr] at h ⊢
  | basic d => cases d <;> first | exact ⟨_, rfl⟩ | contradiction
  | null => contradiction
  | key text => contradiction
  | pair text value => contradiction

/-- **A node can be read as its kind says**, whether or not what is stored fits its type. -/
theorem licensed (n : Node) : n.Licensed n.kind n.tree := by
  have kind_eq := n.kind_tree
  cases ht : n.tree with
  | null =>
    rw [← kind_eq, ht]
    exact .null
  | scalar a =>
    have scalar : n.scalar? = some a := by rw [← scalar?_tree, ht]; rfl
    rw [← kind_eq, ht]
    exact .scalar (asScalar_of_scalar? scalar)
  | list items =>
    have shown : n.items?.map (List.map tree) = some items := by rw [← items?_tree, ht]; rfl
    obtain ⟨items, hi, rfl⟩ := Option.map_eq_some_iff.mp shown
    obtain ⟨count, length⟩ := exists_length_of_items hi
    rw [← kind_eq, ht]
    exact .list length (by rw [values, hi])
  | map pairs =>
    have shown : n.entries?.map (List.map trees) = some pairs := by rw [← entries?_tree, ht]; rfl
    obtain ⟨pairs, he, rfl⟩ := Option.map_eq_some_iff.mp shown
    obtain ⟨count, length⟩ := exists_length_of_entries he
    rw [← kind_eq, ht]
    exact .map length (by rw [entries, he])

end Node

/-! ## Calls that bear out an outcome -/

namespace Builder

variable {α β : Type} {p : Prototype} {q : Progress} {handles outer : List Handle} {o : Opening}

/-- Calls do what an outcome says: they leave a builder that still takes values, as `after` has it,
or an errored one, and the error. -/
inductive BearsOut (after : α → Progress → Builder × Reply) :
    Except NodeError α → Builder × Reply → Prop
  | ok (a : α) {q : Progress} (live : q.Live) : BearsOut after (.ok a) (after a q)
  | failed (e : NodeError) {b : Builder} (errored : b.progress = .errored) :
      BearsOut after (.error e) (b, .failed e)

/-- Calls that are made after others bear out what follows. -/
theorem BearsOut.andThen {after : α → Progress → Builder × Reply}
    {after' : β → Progress → Builder × Reply} {x : Except NodeError α} {r : Builder × Reply}
    {g : α → Except NodeError β} {next : Builder → Builder × Reply} (h : BearsOut after x r)
    (accepted : ∀ a q, (after a q).2.accepted = true)
    (later : ∀ a q, q.Live → BearsOut after' (g a) (next (after a q).1)) :
    BearsOut after' (x >>= g) (Builder.andThen r next) := by
  cases h with
  | failed e errored => exact .failed e errored
  | ok a live =>
    rw [Builder.andThen, if_pos (accepted a _)]
    exact later a _ live

theorem BearsOut.map {after : α → Progress → Builder × Reply}
    {after' : β → Progress → Builder × Reply} {x : Except NodeError α} {r : Builder × Reply}
    {g : α → β} (h : BearsOut after x r) (same : ∀ a q, after a q = after' (g a) q) :
    BearsOut after' (g <$> x) r := by
  cases h with
  | failed e errored => exact .failed e errored
  | ok a live =>
    rw [same]
    exact .ok (g a) live

/-- A call that may fail bears out what it depends on. -/
theorem settle_bearsOut {after : α → Progress → Builder × Reply} {x : Except NodeError α}
    {left : Builder} (live : left.progress.Live) {result : α → Builder × Reply}
    (ok : ∀ a, ∃ q : Progress, q.Live ∧ result a = after a q) :
    BearsOut after x (left.settle (result <$> x)) := by
  cases x with
  | error e =>
    have failed : left.settle (.error e) = _ := settle_failed_live live e
    exact failed ▸ .failed e rfl
  | ok a =>
    obtain ⟨q, live', same⟩ := ok a
    have done : left.settle (.ok (result a)) = _ := settle_ok (ne_errored_of_live live) _
    exact done ▸ same ▸ .ok a live'

def opened (p : Prototype) (wrap : β → Frame) (outer : List Handle) (r : β × Opening)
    (q : Progress) : Builder × Reply :=
  (⟨p, q, ⟨wrap r.1, false⟩ :: outer, some r.2⟩, .opened r.2.view r.2.nullable)

def amid (p : Prototype) (wrap : β → Frame) (outer : List Handle) (reply : Reply) (f : β)
    (q : Progress) : Builder × Reply :=
  (⟨p, q, ⟨wrap f, false⟩ :: outer, none⟩, reply)

def filled (p : Prototype) (handles : List Handle) (piece : Piece) (q : Progress) :
    Builder × Reply :=
  (deliver ⟨p, q, handles, none⟩ piece handles, .done)

theorem step_bearsOut (wrap : β → Frame) (live : q.Live) {frame : Frame}
    (step : Except NodeError (β × Opening)) :
    let b : Builder := ⟨p, q, ⟨frame, false⟩ :: outer, none⟩
    BearsOut (opened p wrap outer) step (b.settle do
      b.checkOpen ⟨frame, false⟩
      let (f, o) ← step
      return b.await (wrap f) outer o) := by
  intro b
  have result : (do
      b.checkOpen ⟨frame, false⟩
      let (f, o) ← step
      return b.await (wrap f) outer o) =
        (fun r : β × Opening => b.await (wrap r.1) outer r.2) <$> step := by
    cases step <;> rfl
  rw [result]
  exact settle_bearsOut live fun r => ⟨q, live, rfl⟩

theorem item_bearsOut (outer : List Handle) (live : q.Live) (f : ListFrame) :
    BearsOut (opened p .list outer) (f.item p.model)
      (call ⟨p, q, ⟨.list f, false⟩ :: outer, none⟩ .value) :=
  step_bearsOut .list live (f.item p.model)

theorem key_bearsOut (outer : List Handle) (live : q.Live) (f : MapFrame) :
    BearsOut (opened p .map outer) (f.key p.model)
      (call ⟨p, q, ⟨.map f, false⟩ :: outer, none⟩ .key) :=
  step_bearsOut .map live (f.key p.model)

theorem value_bearsOut (outer : List Handle) (live : q.Live) (f : MapFrame) :
    BearsOut (opened p .map outer) (f.value p.model)
      (call ⟨p, q, ⟨.map f, false⟩ :: outer, none⟩ .value) :=
  step_bearsOut .map live (f.value p.model)

theorem fill_bearsOut (live : q.Live) (piece : Except NodeError Piece) :
    BearsOut (filled p handles) piece
      (settle ⟨p, q, handles, none⟩ (fillOpening ⟨p, q, handles, some o⟩ piece)) := by
  have result : fillOpening ⟨p, q, handles, some o⟩ piece =
      (fun piece => (deliver ⟨p, q, handles, none⟩ piece handles, .done)) <$> piece := by
    cases piece <;> rfl
  rw [result]
  exact settle_bearsOut live fun piece => ⟨q, live, rfl⟩

theorem enter_bearsOut (wrap : β → Frame) (live : q.Live) (frame : Except NodeError β)
    (reply : Reply) :
    BearsOut (amid p wrap handles reply) frame (settle ⟨p, q, handles, none⟩
      (enter ⟨p, q, handles, some o⟩ (wrap <$> frame) reply)) := by
  have result : enter ⟨p, q, handles, some o⟩ (wrap <$> frame) reply =
      (fun f => amid p wrap handles reply f .building) <$> frame := by
    rcases live with rfl | rfl <;> cases frame <;> rfl
  rw [result]
  exact settle_bearsOut live fun f => ⟨.building, .inr rfl, rfl⟩

def leavable (b : Builder) (frame : Frame) : Builder :=
  { b with handles := ⟨frame, true⟩ :: b.handles }

theorem finishAndLeave_bearsOut (live : q.Live) (frame : Frame) :
    BearsOut (filled p outer) (frame.close p.model)
      (finishAndLeave ⟨p, q, ⟨frame, false⟩ :: outer, none⟩) := by
  have finish : call ⟨p, q, ⟨frame, false⟩ :: outer, none⟩ .finish =
      settle ⟨p, q, ⟨frame, false⟩ :: outer, none⟩
        (finishCompound ⟨p, q, ⟨frame, false⟩ :: outer, none⟩ ⟨frame, false⟩ outer) := by
    cases frame <;> rfl
  have result : finishCompound ⟨p, q, ⟨frame, false⟩ :: outer, none⟩ ⟨frame, false⟩ outer =
      (fun piece => (leavable (filled p outer piece q).1 frame, .done)) <$>
        frame.close p.model := by
    simp only [finishCompound, checkOpen, model]
    cases frame.close p.model with
    | error e => rfl
    | ok piece =>
      rcases outer with _ | ⟨h, outer⟩
      · rcases piece with ⟨_ | v⟩ | ⟨i, c⟩ <;> rfl
      · rfl
  -- to leave it takes away nothing but the finished compound
  have left (piece : Piece) (q : Progress) :
      (leavable (filled p outer piece q).1 frame).call .drop = filled p outer piece q := by
    rcases outer with _ | ⟨h, outer⟩
    · rcases piece with ⟨_ | v⟩ | ⟨i, c⟩ <;> cases frame <;> rfl
    · cases frame <;> rfl
  have finished : BearsOut (fun piece q => (leavable (filled p outer piece q).1 frame, .done))
      (frame.close p.model) (call ⟨p, q, ⟨frame, false⟩ :: outer, none⟩ .finish) := by
    rw [finish, result]
    exact settle_bearsOut live fun piece => ⟨q, live, rfl⟩
  have finishedAndLeft : BearsOut (filled p outer) (frame.close p.model >>= pure)
      (finishAndLeave ⟨p, q, ⟨frame, false⟩ :: outer, none⟩) :=
    finished.andThen (fun _ _ => rfl) fun piece q live => by
      rw [left]
      exact .ok piece live
  rwa [bind_pure] at finishedAndLeft

/-! ## Whole nodes -/

theorem reading_ok {b : Builder} {read : Except AccessError α}
    {next : (a : α) → read = .ok a → Builder × Reply} {a : α} (h : read = .ok a) :
    b.reading read next = next a h := by
  subst h
  rfl

theorem forEach_attach (step : Builder → α → Builder × Reply) (b : Builder) (l : List α) :
    (b.forEach (fun b (c : { a // a ∈ l }) => step b c.1) l.attach) = b.forEach step l := by
  have of_map {γ : Type} (f : γ → α) (b : Builder) (cs : List γ) :
      b.forEach (fun b c => step b (f c)) cs = b.forEach step (cs.map f) := by
    induction cs generalizing b with
    | nil => rfl
    | cons c cs ih =>
      rw [List.map_cons, forEach, forEach, funext fun b => ih b]
  rw [of_map, List.attach_map_subtype_val]

/-- A copy of a node, with the loops over its items and its entries. -/
theorem copyNode_eq (b : Builder) (n : Node) : b.copyNode n =
    match n.kind with
    | .null => b.call .null
    | .scalar kind => b.reading (n.asScalar kind) fun a _ => b.call (.scalar a)
    | .list =>
      b.reading n.length fun _ _ => andThen (b.call .list) fun b =>
        b.reading n.values fun items _ =>
          andThen (b.forEach (fun b c => andThen (b.call .value) (·.copyNode c)) items)
            finishAndLeave
    | .map =>
      b.reading n.length fun _ _ => andThen (b.call .map) fun b =>
        b.reading n.entries fun pairs _ =>
          andThen (b.forEach (fun b c =>
              andThen (andThen (b.call .key) (·.copyNode c.1)) fun b =>
                andThen (b.call .value) (·.copyNode c.2)) pairs)
            finishAndLeave := by
  rw [copyNode]
  cases n.kind with
  | null => rfl
  | scalar kind => rfl
  | list => simp only [forEach_attach fun b c => andThen (b.call .value) (·.copyNode c)]
  | map =>
    simp only [forEach_attach fun b (c : Node × Node) =>
      andThen (andThen (b.call .key) (·.copyNode c.1)) fun b =>
        andThen (b.call .value) (·.copyNode c.2)]

/-- To copy a node call by call bears out what copying its tree makes of an opening. -/
def CopiesAsTree (p : Prototype) (n : Node) : Prop :=
  ∀ {q : Progress} {handles : List Handle} {o : Opening}, q.Live →
    BearsOut (filled p handles) (o.copy p.model n.tree) (copyNode ⟨p, q, handles, some o⟩ n)

def itemOutcome (m : Model) (f : ListFrame) (t : Tree) : Except NodeError ListFrame :=
  f.item m >>= fun r => r.1.place <$> r.2.copy m t

def entryOutcome (m : Model) (f : MapFrame) (k t : Tree) : Except NodeError MapFrame :=
  (f.key m >>= fun r => r.1.place <$> r.2.copy m k) >>= fun f =>
    f.value m >>= fun r => r.1.place <$> r.2.copy m t

theorem copyItems_cons (m : Model) (f : ListFrame) (t : Tree) (rest : List Tree) :
    Opening.copyItems m f (t :: rest) =
      itemOutcome m f t >>= fun f => Opening.copyItems m f rest := by
  rw [Opening.copyItems, itemOutcome]
  cases f.item m with
  | error e => rfl
  | ok r =>
    obtain ⟨f, o⟩ := r
    change (o.copy m t >>= _) = (f.place <$> o.copy m t) >>= _
    cases o.copy m t <;> rfl

theorem copyEntries_cons (m : Model) (f : MapFrame) (k t : Tree) (rest : List (Tree × Tree)) :
    Opening.copyEntries m f ((k, t) :: rest) =
      entryOutcome m f k t >>= fun f => Opening.copyEntries m f rest := by
  rw [Opening.copyEntries, entryOutcome]
  cases f.key m with
  | error e => rfl
  | ok r =>
    obtain ⟨f, ok⟩ := r
    change (ok.copy m k >>= _) = ((f.place <$> ok.copy m k) >>= _) >>= _
    cases ok.copy m k with
    | error e => rfl
    | ok key =>
      change ((f.place key).value m >>= _) = ((f.place key).value m >>= _) >>= _
      cases (f.place key).value m with
      | error e => rfl
      | ok r =>
        obtain ⟨f, o⟩ := r
        change (o.copy m t >>= _) = (f.place <$> o.copy m t) >>= _
        cases o.copy m t <;> rfl

theorem place_bearsOut {wrap : β → Frame} {place : β → Piece → β}
    (placed : ∀ f piece, (wrap f).place piece = wrap (place f piece))
    {x : Except NodeError (β × Opening)} {r : Builder × Reply}
    (opens : BearsOut (opened p wrap outer) x r) {n : Node}
    (copied : CopiesAsTree p n) :
    BearsOut (amid p wrap outer .done) (x >>= fun r => place r.1 <$> r.2.copy p.model n.tree)
      (andThen r (·.copyNode n)) := by
  refine opens.andThen (fun _ _ => rfl) fun r q live => ?_
  refine BearsOut.map (copied live) fun piece q => ?_
  rw [filled, deliver, placed]
  rfl

theorem copyItems_bearsOut (live : q.Live) {f : ListFrame} {items : List Node}
    (copied : ∀ c ∈ items, CopiesAsTree p c) :
    BearsOut (amid p .list outer .done) (Opening.copyItems p.model f (items.map Node.tree))
      (forEach (fun b c => andThen (b.call .value) (·.copyNode c))
        ⟨p, q, ⟨.list f, false⟩ :: outer, none⟩ items) := by
  induction items generalizing q f with
  | nil => exact .ok f live
  | cons c rest ih =>
    rw [List.forall_mem_cons] at copied
    rw [List.map_cons, copyItems_cons, forEach]
    have item := place_bearsOut (fun _ _ => rfl) (item_bearsOut outer live f) copied.1
    exact item.andThen (fun _ _ => rfl) fun f q live => ih live copied.2

theorem copyEntries_bearsOut (live : q.Live) {f : MapFrame} {pairs : List (Node × Node)}
    (copied : ∀ c ∈ pairs, CopiesAsTree p c.1 ∧ CopiesAsTree p c.2) :
    BearsOut (amid p .map outer .done) (Opening.copyEntries p.model f (pairs.map Node.trees))
      (forEach (fun b c => andThen (andThen (b.call .key) (·.copyNode c.1)) fun b =>
          andThen (b.call .value) (·.copyNode c.2))
        ⟨p, q, ⟨.map f, false⟩ :: outer, none⟩ pairs) := by
  induction pairs generalizing q f with
  | nil => exact .ok f live
  | cons c rest ih =>
    rw [List.forall_mem_cons] at copied
    rw [List.map_cons, Node.trees, copyEntries_cons, forEach]
    have key := place_bearsOut (fun _ _ => rfl) (key_bearsOut outer live f) copied.1.1
    have entry : BearsOut (amid p .map outer .done) (entryOutcome p.model f c.1.tree c.2.tree)
        (andThen (andThen (call ⟨p, q, ⟨.map f, false⟩ :: outer, none⟩ .key) (·.copyNode c.1))
          fun b => andThen (b.call .value) (·.copyNode c.2)) :=
      key.andThen (fun _ _ => rfl) fun f q live =>
        place_bearsOut (fun _ _ => rfl) (value_bearsOut outer live f) copied.1.2
    exact entry.andThen (fun _ _ => rfl) fun f q live => ih live copied.2

/-- **Call by call, a copy does what the copy of the tree does to the opening.** -/
theorem copyNode_bearsOut (p : Prototype) (n : Node) : CopiesAsTree p n := by
  intro q handles o live
  rw [copyNode_eq]
  have licensed := n.licensed
  generalize n.kind = kind, n.tree = t at licensed
  cases licensed with
  | null => exact fill_bearsOut live (o.null p.model.schema)
  | scalar read =>
    dsimp only
    rw [reading_ok read]
    exact fill_bearsOut live (o.scalar p.model _)
  | @list count items length values =>
    dsimp only
    rw [reading_ok length, Opening.copy]
    refine (enter_bearsOut .list live (o.openList p.model) _).andThen (fun _ _ => rfl)
      fun f q live => ?_
    rw [reading_ok values]
    have copied : ∀ c ∈ items, CopiesAsTree p c := fun c mem =>
      have := Node.weight_lt_of_mem_values values mem
      copyNode_bearsOut p c
    exact (copyItems_bearsOut live copied).andThen (fun _ _ => rfl) fun f q live =>
      finishAndLeave_bearsOut live (.list f)
  | @map count pairs length entries =>
    dsimp only
    rw [reading_ok length, Opening.copy]
    refine (enter_bearsOut .map live (o.openMap p.model) _).andThen (fun _ _ => rfl)
      fun f q live => ?_
    rw [reading_ok entries]
    have copied : ∀ c ∈ pairs, CopiesAsTree p c.1 ∧ CopiesAsTree p c.2 := fun c mem =>
      have := Node.weight_lt_of_mem_pairs entries mem
      ⟨copyNode_bearsOut p c.1, copyNode_bearsOut p c.2⟩
    exact (copyEntries_bearsOut live copied).andThen (fun _ _ => rfl) fun f q live =>
      finishAndLeave_bearsOut live (.map f)
termination_by n.weight

end Builder

/-! ## The root -/

def Sample.misfit : Node := .typed ⟨Sample.schema, 7, .typed, .scalar (.int 3)⟩

namespace Prototype

variable {p : Prototype}

theorem exists_value_of_copied_root (valid : p.model.schema.Valid) {t : Tree} {piece : Piece}
    (copied : p.root.copy p.model t = .ok piece) : ∃ v, piece = .content (some v) := by
  obtain ⟨_ | v, rfl⟩ := Opening.copy_value_content valid copied
  · exact absurd ((Model.copies_none_iff valid).mp copied).2 Bool.false_ne_true
  · exact ⟨v, rfl⟩

/-- **A copy into the root keeps to the protocol.**  Whatever node is copied, in whichever view and
whether or not what is stored in it fits its type, the copy is done and the builder is finished with
what `buildFrom` gives, or the copy fails as `buildFrom` does, for what is given. -/
theorem copyRoot_keeps_protocol {ts : TypeSystem} {s : Schema} {c : Config}
    (frozen : ts.finalize = .ok s) (compiled : s.compile c = .ok p.model) (n : Node) :
    (∃ v, (p.copyRoot n).2 = .done ∧ (p.copyRoot n).1.progress = .finished v ∧
      (p.copyRoot n).1.build = .ok ⟨p.model, p.type, v⟩ ∧
      p.buildFrom n = .ok ⟨p.model, p.type, v⟩) ∨
    ∃ e, (p.copyRoot n).2 = .failed e ∧ (p.copyRoot n).1.progress = .errored ∧
      p.buildFrom n = .error e ∧ e.OfContent := by
  obtain rfl := Schema.schema_of_compile compiled
  have valid := Schema.valid_of_finalize frozen
  have bears : Builder.BearsOut (Builder.filled p []) (p.root.copy p.model n.tree) (p.copyRoot n) :=
    Builder.copyNode_bearsOut p n (.inl rfl)
  have proper := Opening.copy_proper valid p.root n.tree
  rw [buildFrom]
  generalize p.copyRoot n = r at bears
  cases copied : p.root.copy p.model n.tree with
  | error e =>
    rw [copied] at bears proper
    cases bears with
    | failed _ errored => exact .inr ⟨e, rfl, errored, rfl, proper⟩
  | ok piece =>
    obtain ⟨v, rfl⟩ := exists_value_of_copied_root valid copied
    rw [copied] at bears
    cases bears with
    | ok _ live => exact .inl ⟨v, rfl, rfl, rfl, rfl⟩

/-- A copy that finishes the builder, and one of what does not fit its type. -/
theorem copyRoot_keeps_protocol_sample :
    Sample.types.finalize = .ok Sample.schema ∧
      Sample.schema.compile .empty = .ok Sample.prototype.model ∧
      (Sample.prototype.copyRoot (.basic Sample.datum)).1.progress = .finished Sample.value ∧
      (Sample.prototype.copyRoot Sample.misfit).2 =
        .failed (.optionality (.nullNotAllowed "Items")) := by
  have protocol := copyRoot_keeps_protocol (p := Sample.prototype) Sample.finalize_types
    Sample.compile_schema
  have refused : Sample.prototype.buildFrom Sample.misfit =
      .error (.optionality (.nullNotAllowed "Items")) := by
    rw [buildFrom, Sample.misfit, Node.tree_typed]
    rfl
  refine ⟨Sample.finalize_types, Sample.compile_schema, ?_, ?_⟩
  · obtain ⟨v, -, finished, -, built⟩ | ⟨e, -, -, failed, -⟩ := protocol (.basic Sample.datum)
    · cases built.symm.trans Sample.buildFrom_datum
      exact finished
    · cases failed.symm.trans Sample.buildFrom_datum
  · obtain ⟨v, -, -, -, built⟩ | ⟨e, failed, -, same, -⟩ := protocol Sample.misfit
    · cases built.symm.trans refused
    · cases same.symm.trans refused
      exact failed

end Prototype

end DualView
