import DualView.Layout.Model
import DualView.Proofs.Layout.Containment
import Mathlib.Data.List.Forall2

/-!
# What a classifier answers

A classifier looks for a type among those that another contains.  It looks at the type added last,
says yes at once if it is the one it looks for, and goes through it unless it has done so before.
The type it starts from is not among those gone through, so it is found again where it contains
itself.  Answers are remembered, for every question that comes down to the same search.

* `Search.ends_run`: the search gives an answer, and looks at nothing more often than it is held.
* `Search.run_start_iff`: it says yes exactly where a path of one step or more leads.
* `Classifier.askAll_answers`: so does a classifier, whatever it was asked before.
* `Schema.compileAsking_eq`: one classifier that is asked throughout decides the layouts of a schema.
-/

namespace DualView

/-! ## Rounds -/

namespace Search

variable {s : Schema} {source target : TypeId} {search next : Search} {outcome : Bool ⊕ Search}

/-- What a round of the search for `target` may come to. -/
inductive Round (s : Schema) (target : TypeId) : Search → Bool ⊕ Search → Prop
  /-- Nothing is left to look at. -/
  | exhausted (visited : List TypeId) : Round s target ⟨visited, []⟩ (.inl false)
  | found (visited pending : List TypeId) : Round s target ⟨visited, target :: pending⟩ (.inl true)
  /-- The next type was gone through before. -/
  | again {visited pending : List TypeId} {t : TypeId} (other : t ≠ target) (mem : t ∈ visited) :
      Round s target ⟨visited, t :: pending⟩ (.inr ⟨visited, pending⟩)
  /-- The search goes through the next type, to what it holds. -/
  | through {visited pending : List TypeId} {t : TypeId} (other : t ≠ target) (new : t ∉ visited) :
      Round s target ⟨visited, t :: pending⟩
        (.inr ⟨t :: visited, (s.contained t).reverse ++ pending⟩)

theorem round_of_step (h : search.step s target = outcome) : Round s target search outcome := by
  subst h
  obtain ⟨visited, _ | ⟨t, pending⟩⟩ := search
  · exact .exhausted visited
  rw [step]
  split
  · rename_i meets
    subst meets
    exact .found visited pending
  · rename_i other
    split
    · rename_i mem
      exact .again other mem
    · rename_i new
      exact .through other new

/-- A search for `target` gives its answer in so many rounds. -/
inductive Ends (s : Schema) (target : TypeId) : Search → Nat → Bool → Prop
  | last {search : Search} {answer : Bool} (round : search.step s target = .inl answer) :
      Ends s target search 1 answer
  | next {search next : Search} {rounds : Nat} {answer : Bool}
      (round : search.step s target = .inr next) (rest : Ends s target next rounds answer) :
      Ends s target search (rounds + 1) answer

/-- **A search comes to an end**, after at most one round for all that may still be looked at. -/
theorem ends_run (s : Schema) (target : TypeId) (search : Search) :
    ∃ rounds ≤ search.remaining s + 1, Ends s target search rounds (search.run s target) := by
  fun_induction run s target search with
  | case1 search answer round => exact ⟨1, by omega, .last round⟩
  | case2 search next round ih =>
    obtain ⟨rounds, le, rest⟩ := ih
    have fewer := remaining_step round
    exact ⟨rounds + 1, by omega, .next round rest⟩

/-! ## What is found -/

/-- Where a search says yes, a path leads from what it was to look at. -/
theorem exists_path_of_run (h : search.run s target = true) :
    ∃ t ∈ search.pending, Relation.ReflTransGen s.Holds t target := by
  fun_induction run s target search with
  | case1 search answer round =>
    subst h
    cases round_of_step round with
    | found visited pending => exact ⟨target, List.mem_cons_self, .refl⟩
  | case2 search next round ih =>
    obtain ⟨u, hu, path⟩ := ih h
    cases round_of_step round with
    | again other mem => exact ⟨u, List.mem_cons_of_mem _ hu, path⟩
    | @through visited pending t other new =>
      rcases List.mem_append.mp hu with hu | hu
      · have step : s.Holds t u := Schema.mem_contained_iff.mp (List.mem_reverse.mp hu)
        exact ⟨t, List.mem_cons_self, path.head step⟩
      · exact ⟨u, List.mem_cons_of_mem t hu, path⟩

/-- The search has met all that is held by what it has gone through, and not met `target`. -/
structure Explored (s : Schema) (target : TypeId) (search : Search) : Prop where
  unmet : target ∉ search.visited
  closed : ∀ t ∈ search.visited, ∀ u, s.Holds t u → u ∈ search.visited ∨ u ∈ search.pending

theorem explored_start (s : Schema) (source target : TypeId) : (start s source).Explored s target :=
  ⟨List.not_mem_nil, fun _ ht => absurd ht List.not_mem_nil⟩

/-- A round loses nothing that the search has met. -/
theorem met_of_step (round : search.step s target = .inr next) {t : TypeId}
    (h : t ∈ search.visited ∨ t ∈ search.pending) : t ∈ next.visited ∨ t ∈ next.pending := by
  cases round_of_step round with
  | again other mem =>
    rcases h with h | h
    · exact .inl h
    · rcases List.mem_cons.mp h with rfl | h
      · exact .inl mem
      · exact .inr h
  | through other new =>
    rcases h with h | h
    · exact .inl (List.mem_cons_of_mem _ h)
    · rcases List.mem_cons.mp h with rfl | h
      · exact .inl List.mem_cons_self
      · exact .inr (List.mem_append_right _ h)

theorem Explored.step (h : search.Explored s target) (round : search.step s target = .inr next) :
    next.Explored s target := by
  have kept {u : TypeId} : u ∈ search.visited ∨ u ∈ search.pending → _ := met_of_step round
  cases round_of_step round with
  | again other mem => exact ⟨h.unmet, fun t ht u hu => kept (h.closed t ht u hu)⟩
  | through other new =>
    refine ⟨fun mem => ?_, fun t ht u hu => ?_⟩
    · rcases List.mem_cons.mp mem with meets | mem
      · exact other meets.symm
      · exact h.unmet mem
    · rcases List.mem_cons.mp ht with rfl | ht
      · have mem := List.mem_reverse.mpr (Schema.mem_contained_iff.mpr hu)
        exact .inr (List.mem_append_left _ mem)
      · exact kept (h.closed t ht u hu)

/-- Where a search says no, no path leads from what it has met. -/
theorem Explored.no_path (h : search.Explored s target) (no : search.run s target = false)
    {t : TypeId} (met : t ∈ search.visited ∨ t ∈ search.pending) :
    ¬ Relation.ReflTransGen s.Holds t target := by
  fun_induction run s target search with
  | case1 search answer round =>
    subst no
    cases round_of_step round with
    | exhausted visited =>
      -- nothing is pending, so what was gone through is closed under steps
      have visited_of_met {u : TypeId} (met : u ∈ visited ∨ u ∈ []) : u ∈ visited :=
        met.resolve_right List.not_mem_nil
      have visited_of_path {u : TypeId} (path : Relation.ReflTransGen s.Holds t u) :
          u ∈ visited := by
        induction path with
        | refl => exact visited_of_met met
        | tail _ step ih => exact visited_of_met (h.closed _ ih _ step)
      exact fun path => h.unmet (visited_of_path path)
  | case2 search next round ih => exact ih (h.step round) no (met_of_step round met)

/-- **A search says yes exactly where a path of one step or more leads.** -/
theorem run_start_iff : (start s source).run s target = true ↔ s.Contains source target := by
  have mem_pending {t : TypeId} : t ∈ (start s source).pending ↔ s.Holds source t := by
    rw [start, List.mem_reverse, Schema.mem_contained_iff]
  constructor
  · intro yes
    obtain ⟨t, ht, path⟩ := exists_path_of_run yes
    exact .head' (mem_pending.mp ht) path
  · intro contains
    obtain ⟨t, first, path⟩ := Relation.TransGen.head'_iff.mp contains
    by_contra no
    rw [Bool.not_eq_true] at no
    exact (explored_start s source target).no_path no (.inr (mem_pending.mpr first)) path

/-- A search gives the answer by which layouts are decided. -/
theorem run_start_eq_reaches {ts : TypeSystem} (frozen : ts.finalize = .ok s) :
    (start s source).run s target = s.reaches source target := by
  rw [Bool.eq_iff_iff, run_start_iff, Schema.reaches_iff frozen]

end Search

/-! ## Questions -/

inductive Query
  | reaches (source target : TypeId)
  | isRecursive (type : TypeId)
  | closesCycle (owner field : TypeId)
  deriving DecidableEq

/-- What is asked, of a schema: whether a path of containment leads from one type to another. -/
def Query.Asks (s : Schema) : Query → Prop
  | reaches source target => s.Contains source target
  | isRecursive type => s.Contains type type
  | closesCycle owner field => field = owner ∨ s.Contains field owner

namespace Classifier

variable {s : Schema} {c : Classifier}

def ask (c : Classifier) : Query → Bool × Classifier
  | .reaches source target => c.reaches source target
  | .isRecursive type => c.isRecursive type
  | .closesCycle owner field => c.closesCycle owner field

def askAll (c : Classifier) : List Query → List Bool × Classifier
  | [] => ([], c)
  | q :: rest => ((c.ask q).1 :: ((c.ask q).2.askAll rest).1, ((c.ask q).2.askAll rest).2)

/-- The answers a classifier remembers are right about its schema. -/
structure Sound (s : Schema) (c : Classifier) : Prop where
  schema_eq : c.schema = s
  known {source target : TypeId} {answer : Bool} :
    c.known.lookup (source, target) = some answer → (answer = true ↔ s.Contains source target)

theorem sound_ofSchema (s : Schema) : (ofSchema s).Sound s := ⟨rfl, fun h => by contradiction⟩

theorem Sound.reaches (h : c.Sound s) (source target : TypeId) :
    ((c.reaches source target).1 = true ↔ s.Contains source target) ∧
      (c.reaches source target).2.Sound s := by
  rw [Classifier.reaches]
  split
  · rename_i answer found
    exact ⟨h.known found, h⟩
  · have right : (Search.start s source).run s target = true ↔ s.Contains source target :=
      Search.run_start_iff
    rw [← h.schema_eq] at right ⊢
    refine ⟨right, rfl, fun {source' target' answer} found => ?_⟩
    rw [List.lookup_cons] at found
    split at found
    · rename_i same
      obtain ⟨rfl, rfl⟩ := Prod.mk.inj (eq_of_beq same)
      obtain rfl := Option.some.inj found
      exact right
    · rw [h.schema_eq]
      exact h.known found

/-- **A question is answered rightly, and leaves what is remembered right.** -/
theorem Sound.ask (h : c.Sound s) (q : Query) :
    ((c.ask q).1 = true ↔ q.Asks s) ∧ (c.ask q).2.Sound s := by
  cases q with
  | reaches source target => exact h.reaches source target
  | isRecursive type => exact h.reaches type type
  | closesCycle owner field =>
    rw [Classifier.ask, closesCycle, Query.Asks]
    split
    · rename_i same
      exact ⟨⟨fun _ => .inl same, fun _ => rfl⟩, h⟩
    · rename_i other
      obtain ⟨answer, sound⟩ := h.reaches field owner
      exact ⟨answer.trans (or_iff_right other).symm, sound⟩

theorem Sound.askAll (h : c.Sound s) (queries : List Query) :
    List.Forall₂ (fun q answer => answer = true ↔ q.Asks s) queries (c.askAll queries).1 ∧
      (c.askAll queries).2.Sound s := by
  induction queries generalizing c with
  | nil => exact ⟨.nil, h⟩
  | cons q rest ih =>
    obtain ⟨answer, sound⟩ := h.ask q
    obtain ⟨answers, sound⟩ := ih sound
    exact ⟨.cons answer answers, sound⟩

/-- **A classifier answers whether a path leads, whatever it was asked before**: each search comes to
an end, each answer is right, and none depends on what is remembered. -/
theorem askAll_answers (s : Schema) (queries : List Query) :
    (∀ source target, ∃ rounds ≤ (Search.start s source).remaining s + 1, ∃ answer,
      Search.Ends s target (.start s source) rounds answer ∧
        (answer = true ↔ s.Contains source target)) ∧
    List.Forall₂ (fun q answer => answer = true ↔ q.Asks s) queries
      ((ofSchema s).askAll queries).1 ∧
    ∀ q, (((ofSchema s).askAll queries).2.ask q).1 = ((ofSchema s).ask q).1 := by
  obtain ⟨answers, sound⟩ := (sound_ofSchema s).askAll queries
  refine ⟨fun source target => ?_, answers, fun q => ?_⟩
  · obtain ⟨rounds, le, ends⟩ := Search.ends_run s target (.start s source)
    exact ⟨rounds, le, _, ends, Search.run_start_iff⟩
  · rw [Bool.eq_iff_iff, (sound.ask q).1, ((sound_ofSchema s).ask q).1]

end Classifier

/-! ## Compiling with one classifier -/

namespace Classifier

variable {s : Schema} {α β : Type}

/-- From every classifier whose answers are right, a computation comes to one outcome, and leaves a
classifier whose answers are right. -/
def Computes (s : Schema) (m : Asking α) (x : Except LayoutError α) : Prop :=
  ∀ c : Classifier, c.Sound s → Corresponds (fun r a => r.1 = a ∧ r.2.Sound s) (m.run c) x

namespace Computes

theorem pure (a : α) : Computes s (Pure.pure a : Asking α) (.ok a) :=
  fun _ sound => .ok ⟨rfl, sound⟩

theorem bind {m : Asking α} {x : Except LayoutError α} {f : α → Asking β}
    {g : α → Except LayoutError β} (first : Computes s m x)
    (next : ∀ a, Computes s (f a) (g a)) : Computes s (m >>= f) (x >>= g) := by
  intro c sound
  rw [StateT.run_bind]
  refine (first c sound).bind ?_
  rintro ⟨a, c'⟩ _ ⟨rfl, sound⟩
  exact next a c' sound

theorem mapM {f : α → Asking β} {g : α → Except LayoutError β} {l : List α}
    (each : ∀ a ∈ l, Computes s (f a) (g a)) : Computes s (l.mapM f) (l.mapM g) := by
  induction l with
  | nil => exact pure []
  | cons a l ih =>
    rw [List.forall_mem_cons] at each
    rw [List.mapM_cons, List.mapM_cons]
    exact (each.1).bind fun b => (ih each.2).bind fun bs => pure (b :: bs)

/-- **What is asked is answered by the schema**, and what is remembered stays right. -/
theorem ask (q : Query) {answer : Bool} (right : answer = true ↔ q.Asks s) :
    Computes s (modifyGet (·.ask q) : Asking Bool) (.ok answer) := by
  intro c sound
  obtain ⟨answers, sound⟩ := sound.ask q
  exact .ok ⟨Bool.eq_iff_iff.mpr (answers.trans right.symm), sound⟩

end Computes

end Classifier

namespace Schema

variable {s : Schema} {ts : TypeSystem} {c : Config} {owner id : TypeId}

theorem getElem?_maybeLayouts (bound : id < s.size) :
    (s.maybeLayouts c)[id]?.getD .embedded = s.maybeLayout c id := by
  rw [maybeLayouts, List.getElem?_map, List.getElem?_range bound, Option.map_some, Option.getD_some]

/-- A field is decided by one answer and its configuration. -/
theorem fieldLayout_eq_bind (s : Schema) (c : Config) (owner : TypeId) (f : Field TypeId) :
    s.fieldLayout c owner f = (Except.ok (s.closesCycle owner f.type) >>= fun onCycle =>
      if f.isMaybe then
        match c.maybeLayout? (s.nameOf f.type), onCycle with
        | some .embedded, true =>
          .error (.embeddedRecursion (s.nameOf owner) f.name (s.nameOf f.type))
        | _, true => .ok .indirect
        | _, false => .ok (s.maybeLayout c f.type)
      else .ok (if onCycle then .indirect else .embedded)) := by
  change s.fieldLayout c owner f = (fun onCycle => _) (s.closesCycle owner f.type)
  rw [fieldLayout]
  cases s.closesCycle owner f.type <;> cases f.isMaybe <;>
    rcases c.maybeLayout? (s.nameOf f.type) with - | - | - <;> rfl

theorem computes_fieldLayout (frozen : ts.finalize = .ok s) {f : Field TypeId}
    (bound : f.type < s.size) :
    Classifier.Computes s (s.askFieldLayout c (s.maybeLayouts c) owner f)
      (s.fieldLayout c owner f) := by
  rw [fieldLayout_eq_bind]
  refine (Classifier.Computes.ask (.closesCycle owner f.type) (closesCycle_iff frozen)).bind
    fun onCycle => ?_
  rw [getElem?_maybeLayouts bound]
  cases f.isMaybe with
  | false => exact .pure _
  | true =>
    rcases c.maybeLayout? (s.nameOf f.type) with - | - | - <;> cases onCycle
    all_goals first | exact .pure _ | exact fun _ _ => .error _

theorem computes_typeLayout (frozen : ts.finalize = .ok s) (bound : id < s.size) :
    Classifier.Computes s (s.askTypeLayout c (s.maybeLayouts c) id) (s.typeLayout c id) := by
  have fields : Classifier.Computes s
      (((s.body id).fields?.getD []).mapM (s.askFieldLayout c (s.maybeLayouts c) id))
      (((s.body id).fields?.getD []).mapM (s.fieldLayout c id)) := by
    refine .mapM fun f mem => computes_fieldLayout frozen ?_
    exact references_lt_of_finalize frozen (Body.type_mem_references mem)
  have recursive : Classifier.Computes s (modifyGet (·.isRecursive id)) (.ok (s.isRecursive id)) :=
    .ask (.isRecursive id) (isRecursive_iff frozen)
  have decided : s.typeLayout c id = (Except.ok (s.isRecursive id) >>= fun recursive =>
      ((s.body id).fields?.getD []).mapM (s.fieldLayout c id) >>= fun fields =>
        .ok ⟨s.maybeLayout c id, fields, recursive⟩) := rfl
  rw [decided]
  refine recursive.bind fun recursive => fields.bind fun fields => ?_
  rw [getElem?_maybeLayouts bound]
  exact .pure _

/-- **One classifier that remembers its answers decides every layout as the schema does.** -/
theorem compileAsking_eq (frozen : ts.finalize = .ok s) (c : Config) :
    s.compileAsking c = s.compile c := by
  have all : Classifier.Computes s
      ((List.range s.size).mapM (s.askTypeLayout c (s.maybeLayouts c)))
      ((List.range s.size).mapM (s.typeLayout c)) :=
    .mapM fun id mem => computes_typeLayout frozen (List.mem_range.mp mem)
  have outcome : StateT.run' ((List.range s.size).mapM (s.askTypeLayout c (s.maybeLayouts c)))
      (.ofSchema s) = (List.range s.size).mapM (s.typeLayout c) :=
    (all (.ofSchema s) (Classifier.sound_ofSchema s)).map_eq fun _ _ same => same.1
  rw [compileAsking, compile, outcome]

end Schema

end DualView
