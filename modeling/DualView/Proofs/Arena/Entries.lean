import DualView.Proofs.Arena.Steps

/-!
# Opening entries

A step that opens an entry changes one unfinished cell (`Arena.Moves`), and may empty finished ones:
the key of the entry is frozen first.  What it opens stands in the cell, is absent, and waits for
what the opening of the frame waits for (`Arena.Opens`, `Arena.Asks`).

* `Arena.scalarDraft_agrees`: a scalar makes a draft of the value that it stands for.
* `Arena.beginEntry_agrees`, `Arena.beginKey_agrees`, `Arena.beginValue_agrees`: the steps that open
  something in a map agree with those of its frame.
-/

namespace DualView

namespace Arena

variable {m : Model} {a a' a'' : Arena} {κ owner : CellId} {c c' o : Cell} {q : Place}
  {live : List CellId}

/-! ## What a step moves -/

/-- A step changes one unfinished cell, and may empty finished ones. -/
structure Moves (m : Model) (live : List CellId) (κ : CellId) (a a' : Arena) : Prop where
  running : Running m live a'
  spares : Spares [κ] a a'
  root : a'.root = a.root
  stage : a'.stage = a.stage

theorem Moves.trans (first : Moves m live κ a a') (second : Moves m live κ a' a'') :
    Moves m live κ a a'' :=
  ⟨second.running, first.spares.trans second.spares, second.root.trans first.root,
    second.stage.trans first.stage⟩

theorem Moves.keeps (h : Moves m live κ a a') : Keeps m a a' := h.spares.keeps h.running.sound

theorem Running.moves_store (h : Running m live a) (hc : a.cells[κ]? = some c)
    (free : Free a κ) (unfinished : c.finished = false) (unfinished' : c'.finished = false)
    (refers : ∀ s id, c'.RefersTo s id → c.RefersTo s id) (shaped : c.Shaped m → c'.Shaped m)
    (slot : ∀ i, c'.phase = .slot i → i < c'.slots.length)
    (pairSlot : ∀ owner i, c'.phase ≠ .pairSlot owner i) : Moves m live κ a (a.store κ c') :=
  ⟨h.change hc free unfinished unfinished' refers shaped slot pairSlot,
    .store hc unfinished, rfl, rfl⟩

/-- A step may change the phase of a cell, and take its pending key away. -/
theorem Running.rephase (h : Running m live a) (hc : a.cells[κ]? = some c) (free : Free a κ)
    (unfinished : c.finished = false) {d : Draft} (pending : d = c.pendingKey ∨ d = .absent)
    {phase : CellPhase} (slot : ∀ i, phase = .slot i → i < c.slots.length)
    (pairSlot : ∀ owner i, phase ≠ .pairSlot owner i) (next : Nat) :
    Moves m live κ a (a.store κ { c with pendingKey := d, phase := phase, next := next }) := by
  refine h.moves_store hc free unfinished unfinished (fun s id hs => ?_) id slot pairSlot
  cases s with
  | slot i => exact hs
  | key =>
    rcases pending with rfl | rfl
    · exact hs
    · exact nomatch hs

/-- A cell has one slot more than another, which is open. -/
structure Lengthened (c c' : Cell) : Prop where
  type : c'.type = c.type
  shape : c'.shape = c.shape
  slots : c'.slots = c.slots ++ [Draft.absent]
  pendingKey : c'.pendingKey = c.pendingKey
  phase : c'.phase = .slot c.slots.length
  finished : c'.finished = c.finished

namespace Lengthened

theorem toExtends (h : Lengthened c c') : c.Extends c' none where
  type := h.type
  shape := h.shape
  slots := by
    intro i d _ hd
    rw [h.slots]
    exact (List.getElem?_append_left (List.getElem?_eq_some_iff.mp hd).1).trans hd

theorem absent (h : Lengthened c c') : c'.draftAt? (.slot c.slots.length) = some .absent := by
  rw [Cell.draftAt?, h.slots]
  exact List.getElem?_concat_length

theorem refers {s : Spot} {id : CellId} (h : Lengthened c c') (hs : c'.RefersTo s id) :
    c.RefersTo s id := by
  cases s with
  | key =>
    rw [Cell.RefersTo, Cell.draftAt?, h.pendingKey] at hs
    exact hs
  | slot i =>
    obtain ⟨d, hd, he⟩ := Option.bind_eq_some_iff.mp hs
    rw [Cell.draftAt?, h.slots] at hd
    by_cases before : i < c.slots.length
    · rw [List.getElem?_append_left before] at hd
      exact Option.bind_eq_some_iff.mpr ⟨d, hd, he⟩
    · rw [List.getElem?_append_right (Nat.le_of_not_lt before)] at hd
      rw [List.mem_singleton.mp (List.mem_of_getElem? hd)] at he
      cases he

theorem moves (h : Lengthened c c') (running : Running m live a) (hc : a.cells[κ]? = some c)
    (free : Free a κ) (unfinished : c.finished = false) (shaped : c.Shaped m → c'.Shaped m) :
    Moves m live κ a (a.store κ c') := by
  refine running.moves_store hc free unfinished (h.finished.trans unfinished) (fun _ _ => h.refers)
    shaped (fun i hi => ?_) (fun owner i hi => nomatch h.phase.symm.trans hi)
  obtain rfl := CellPhase.slot.inj (h.phase.symm.trans hi)
  rw [h.slots, List.length_append]
  exact Nat.lt_succ_self _

end Lengthened

theorem Running.shaped (h : Running m live a) (hc : a.cells[κ]? = some c)
    (unfinished : c.finished = false) : c.Shaped m :=
  h.sound.shaped hc (h.sound.not_frozen_of_unfinished hc unfinished)

/-! ## What is opened -/

/-- A place waits for what fills an opening.  For a pair, the cell of the owner has filled what the
opening shows. -/
inductive Asks (m : Model) (a : Arena) : Place → PlaceSpec → Opening → Prop
  | value {q : Place} (type : TypeId) (view : View) (nullable : Bool) :
      Asks m a q ⟨.value type, view, nullable⟩ ⟨.value type, view, nullable⟩
  | name {q : Place} {type type' : TypeId} (view : View) (nullable : Bool) (same : type' = type) :
      Asks m a q ⟨.name type', view, nullable⟩ ⟨.name type, view, nullable⟩
  | pair {owner : CellId} {o : Cell} {type : TypeId} {keys : Renaming}
      {fields : List (Field TypeId)} {slots : List (Slot Value)} (nullable : Bool)
      (ho : a.cells[owner]? = some o) (phase : o.phase = .pair) (unfinished : o.finished = false)
      (same : o.type = type) (fills : FillsStruct m a o fields (.listpairs keys) none slots) :
      Asks m a (.inside owner .key) ⟨.pair owner, .representation, nullable⟩
        ⟨.pair type keys fields slots, .representation, nullable⟩

/-- A step has opened a place for a frame, which stands in the cell of the frame or of its owner. -/
structure Opens (m : Model) (κ : CellId) (f : Frame) (c : Cell) (r : Place × PlaceSpec) (f' : Frame)
    (w : Opening) (a' : Arena) : Prop where
  cell : ∃ c', a'.cells[κ]? = some c' ∧ c'.shape = c.shape ∧ Stores m a' f' c' ∧
    Waits m κ c' f' r.1 w
  absent : a'.draftAt? r.1 = some .absent
  asks : Asks m a' r.1 r.2 w
  continues : f.Continues f'

/-- A step on the cell of a frame opens what the step of the frame opens. -/
def OpensAs (m : Model) (live : List CellId) (κ : CellId) (a : Arena) (f : Frame) (c : Cell)
    {β : Type} (wrap : β → Frame) (r : Place × PlaceSpec) (w : β × Opening) (a' : Arena) : Prop :=
  Moves m live κ a a' ∧ Opens m κ f c r (wrap w.1) w.2 a'

theorem OpensAs.of_moves {β : Type} {wrap : β → Frame} {f : Frame} {r : Place × PlaceSpec}
    {w : β × Opening} (moves : Moves m live κ a a') (shape : c'.shape = c.shape)
    (h : OpensAs m live κ a' f c' wrap r w a'') : OpensAs m live κ a f c wrap r w a'' := by
  obtain ⟨moves', ⟨d, hd, shape', stores, waits⟩, absent, asks, continues⟩ := h
  exact ⟨moves.trans moves', ⟨d, hd, shape'.trans shape, stores, waits⟩, absent, asks, continues⟩

/-! ## Scalars -/

/-- A type is reached from another: it is a member of it, or the type itself. -/
def Reaches (m : Model) (type : TypeId) (member : Option Nat) (target : TypeId) : Prop :=
  match member with
  | some i => (m.schema.references type)[i]? = some target
  | none => target = type

theorem reaches_of_target? {view : View} {type target : TypeId} {kind : Kind} {member : Option Nat}
    (h : m.schema.target? view type kind = some (member, target)) :
    Reaches m type member target := by
  rw [Schema.target?.eq_def] at h
  split at h
  · rename_i members body
    obtain ⟨⟨i, target'⟩, found, he⟩ := Option.map_eq_some_iff.mp h
    cases he
    exact (congrArg (·[i]?) (congrArg Body.references body)).trans
      (Schema.kindedMember?_spec found).1
  · cases h
    rfl

theorem Reaches.holds {type target : TypeId} {member : Option Nat} {d : Draft} {v : Value}
    (h : Reaches m type member target) (held : Holds m a target d (.value v)) :
    Holds m a type (d.wrap member) (.value (v.wrap member)) := by
  cases member with
  | none =>
    obtain rfl : target = type := h
    exact held
  | some i => exact .member h held

structure IsValue (m : Model) (type : TypeId) (d : Draft) (v : Value) : Prop where
  cell? : d.cell? = none
  holds : ∀ a, Holds m a type d (.value v)

/-- **A scalar makes a draft of the value that it stands for.** -/
theorem scalarDraft_agrees (type : TypeId) (view : View) (nullable : Bool) (s : Scalar) :
    Agrees (· = a) (fun d v a' => IsValue m type d v ∧ a' = a)
      (scalarDraft m ⟨.value type, view, nullable⟩ s) a (m.assign view type s) := by
  rw [scalarDraft.eq_def, Model.assign]
  dsimp only
  cases found : m.schema.target? view type (.scalar s.kind) with
  | none => exact .error (runs_throw _ a) rfl
  | some r =>
    obtain ⟨member, target⟩ := r
    dsimp only
    cases m.ofScalar view target s with
    | error e => exact .error (runs_give _ a).bind_error rfl
    | ok v =>
      refine .ok ((runs_give _ a).bind (runs_pure _ a)) ⟨⟨?_, fun a => ?_⟩, rfl⟩
      · cases member <;> rfl
      · exact (reaches_of_target? found).holds (.ready target v)

theorem Running.freezeKey {touched : List CellId} {before : Arena} {type : TypeId} {d : Draft}
    {k : Value} (h : Running m live a) (held : Holds m before type d (.value k))
    (spares : Spares touched before a) (loose : ∀ id, d.cell? = some id → a.Loose id) :
    ∃ a', Runs (freezeValue m type d) a (.ok k) a' ∧ Moves m live κ a a' ∧
      ∀ {id : CellId} {c : Cell}, a.cells[id]? = some c → c.finished = false →
        a'.cells[id]? = some c := by
  obtain ⟨emptied, a', run, froze⟩ := held.freezeValue h.sound spares loose
  refine ⟨a', run, ⟨⟨froze.sound h.sound fun id mem => loose id (Option.mem_toList.mp mem),
    fun id mem => ?_⟩, froze.spares _, froze.root, froze.stage⟩, froze.of_unfinished⟩
  obtain ⟨c, hc, unfinished⟩ := h.underway id mem
  exact ⟨c, froze.of_unfinished hc unfinished, unfinished⟩

/-! ## Maps -/

section Maps

variable {f : MapFrame}

theorem extends_rephase (c : Cell) (d : Draft) (phase : CellPhase) (next : Nat) :
    c.Extends { c with pendingKey := d, phase := phase, next := next } none :=
  ⟨rfl, rfl, fun _ => id⟩

theorem keyless_of_settles (pending : c.phase = .key ∨ c.pendingKey = .absent)
    (settles : a.settles? c = some true) : c.pendingKey = .absent := by
  refine pending.resolve_left fun phase => ?_
  rw [Arena.settles?, phase] at settles
  cases settles

theorem StoresMap.keyless (h : StoresMap m a f c) (settled : c.phase = .settled) :
    c.pendingKey = .absent :=
  h.pending.resolve_left fun phase => nomatch settled.symm.trans phase

/-- **To settle a cell is to find its frame idle.** -/
theorem StoresMap.settle_agrees (h : StoresMap m a f c) (running : Running m live a)
    (hc : a.cells[κ]? = some c) (quiet : Quiet m a κ (.map f) c) :
    Agrees (Running m live)
      (fun _ _ a' => Moves m live κ a a' ∧ ∃ c', a'.cells[κ]? = some c' ∧ c'.phase = .settled ∧
        c'.shape = c.shape ∧ f.phase = .idle ∧ StoresMap m a' f c')
      (settle m κ) a (f.settled m) := by
  have settles := h.settles? hc quiet
  obtain ⟨type, view, member, content, phase⟩ := f
  obtain ⟨same, unfinished, pending, fills, inPhase⟩ := h
  have busy (settles : a.settles? c = some false) :
      Runs (settle m κ) a (.error (.assembly (.incompleteValue (m.schema.nameOf type)))) a :=
    (show c.type = type from same) ▸ runs_settle_error hc settles
  cases phase with
  | key | keyed k | entry k text | slot i => exact .error (busy settles) running
  | idle =>
    refine .ok (runs_settle hc settles) ?_
    have moves : Moves m live κ a (a.store κ { c with phase := .settled }) :=
      running.rephase hc (running.sound.free_of_settles hc settles) unfinished (.inl rfl) (by nofun)
        (by nofun) c.next
    have hc' := getElem?_store_self hc { c with phase := .settled }
    have keyless := keyless_of_settles pending settles
    refine ⟨moves, _, hc', rfl, rfl, rfl, same, unfinished, .inr keyless,
      fills.keep moves.keeps hc' (extends_rephase ..) nofun, ?_⟩
    cases content with
    | entries key value nullable layout dict => exact inPhase
    | fields fields repr slots => trivial
    | choice members repr present => trivial

/-- **The key of an entry is opened as in a frame.** -/
theorem beginKey_agrees (running : Running m live a) (hc : a.cells[κ]? = some c)
    (h : StoresMap m a f c) (quiet : Quiet m a κ (.map f) c) :
    Agrees (Running m live) (OpensAs m live κ a (.map f) c .map) (beginKey m κ f.view) a
      (f.key m) := by
  refine Agrees.after (runs_checkOpen hc h.unfinished) ?_
  refine (h.settle_agrees running hc quiet).bind
    fun _ _ a₁ ⟨moves, c₁, hc₁, phase₁, shape₁, idle, h₁⟩ => ?_
  refine Agrees.after (runs_cell hc₁) ?_
  have free := moves.running.sound.free_of_phase hc₁ (by rw [phase₁]; nofun)
  have moves₂ : Moves m live κ a₁
      (a₁.store κ { c₁ with pendingKey := .absent, phase := .key }) :=
    moves.running.rephase hc₁ free h₁.unfinished (.inr rfl) (by nofun) (by nofun) c₁.next
  have hc₂ := getElem?_store_self hc₁ { c₁ with pendingKey := .absent, phase := .key }
  obtain ⟨type, view, member, content, phase⟩ := f
  obtain ⟨same, unfinished, -, fills, inPhase⟩ := h₁
  obtain rfl : phase = .idle := idle
  have fills₂ := fills.keep moves₂.keeps hc₂ (extends_rephase ..) nofun
  have opened (spec : PlaceSpec) : Runs (do
      update κ ({ · with pendingKey := .absent, phase := .key })
      return (Place.inside κ .key, spec)) a₁ (.ok (.inside κ .key, spec))
      (a₁.store κ { c₁ with pendingKey := .absent, phase := .key }) :=
    (runs_update hc₁ _).bind (runs_pure _ _)
  have absent := draftAt?_inside hc₂ .key
  have moves := moves.trans moves₂
  cases content with
  | entries key value nullable layout dict =>
    rw [FillsMap.shape fills]
    exact .ok (opened _) ⟨moves,
      ⟨_, hc₂, shape₁, ⟨same, unfinished, .inl rfl, fills₂, inPhase, rfl⟩, .key view⟩,
      absent, .value ..,
      ⟨rfl, rfl, rfl, rfl⟩⟩
  | fields fields repr slots =>
    rw [FillsStruct.shape fills]
    exact .ok (opened _) ⟨moves,
      ⟨_, hc₂, shape₁, ⟨same, unfinished, .inl rfl, fills₂, rfl⟩, .fieldName view⟩,
      absent, .name _ _ same,
      ⟨rfl, rfl, rfl, rfl⟩⟩
  | choice members repr present =>
    rw [FillsUnion.shape fills]
    exact .ok (opened _) ⟨moves,
      ⟨_, hc₂, shape₁, ⟨same, unfinished, .inl rfl, fills₂, rfl⟩, .memberName view⟩,
      absent, .name _ _ same,
      ⟨rfl, rfl, rfl, rfl⟩⟩

/-- **A field or member is opened as in a frame.** -/
theorem openNamed_agrees (running : Running m live a) (hc : a.cells[κ]? = some c)
    (settled : c.phase = .settled) (keyless : c.pendingKey = .absent) (same : c.type = f.type)
    (unfinished : c.finished = false) (fills : FillsContent m a c none f.content)
    (named : ∀ key value nullable layout dict, f.content ≠ .entries key value nullable layout dict)
    (key : String) :
    Agrees (Running m live) (OpensAs m live κ a (.map f) c .map) (openNamed m κ key f.view) a
      (f.openNamed m key) := by
  have shaped := running.shaped hc unfinished
  have free := running.sound.free_of_phase hc (by rw [settled]; nofun)
  have moves {i : Nat} (absent : c.draftAt? (.slot i) = some .absent) :
      Moves m live κ a (a.store κ { c with phase := .slot i }) :=
    running.rephase hc free unfinished (.inl rfl)
      (by rintro _ ⟨⟩; exact (List.getElem?_eq_some_iff.mp absent).1) (by nofun) c.next
  obtain ⟨type, view, member, content, phase⟩ := f
  obtain rfl : c.type = type := same
  cases content with
  | entries key value nullable layout dict => exact (named _ _ _ _ _ rfl).elim
  | fields fields repr slots =>
    refine ((openField_agrees hc shaped fills view key).of_unchanged running).map_right
      (fun w => ((⟨c.type, view, member, .fields fields repr slots, .slot w.1⟩ : MapFrame), w.2)) ?_
    rintro ⟨p, spec⟩ ⟨i, o⟩ _
      ⟨⟨rfl, absent, ⟨target, view', nullable, typed, rfl, rfl⟩, rfl⟩, s, hs, unfilled⟩
    have hc' := getElem?_store_self hc { c with phase := .slot i }
    have fills' := FillsContent.keep fills (moves absent).keeps hc' (extends_rephase ..) nofun
    exact ⟨moves absent,
      ⟨_, hc', rfl, ⟨rfl, unfinished, .inr keyless, FillsStruct.opening fills' hs unfilled, rfl⟩,
        .field view' nullable typed⟩, (draftAt?_inside hc' _).trans absent, .value ..,
      ⟨rfl, rfl, rfl, rfl⟩⟩
  | choice members repr present =>
    refine ((openMember_agrees hc shaped fills view key).of_unchanged running).map_right
      (fun w =>
        ((⟨c.type, view, member, .choice members repr present, .slot w.1⟩ : MapFrame), w.2)) ?_
    rintro ⟨p, spec⟩ ⟨i, o⟩ _
      ⟨⟨rfl, absent, ⟨target, view', nullable, typed, rfl, rfl⟩, rfl⟩, rfl, rfl, inside⟩
    have hc' := getElem?_store_self hc { c with phase := .slot i }
    have fills' := FillsContent.keep fills (moves absent).keeps hc' (extends_rephase ..) nofun
    exact ⟨moves absent, ⟨_, hc', rfl, ⟨rfl, unfinished, .inr keyless,
      FillsUnion.opening fills' (List.getElem?_eq_getElem inside), rfl⟩, .member view' typed⟩,
      (draftAt?_inside hc' _).trans absent, .value ..,
      ⟨rfl, rfl, rfl, rfl⟩⟩

/-- **An entry is opened as in a frame.** -/
theorem opensEntry_agrees {keyType valueType : TypeId} {nullable : Bool} {layout : Layout}
    {dict : Dict Value} (running : Running m live a) (hc : a.cells[κ]? = some c)
    (settled : c.phase = .settled) (keyless : c.pendingKey = .absent) (same : c.type = f.type)
    (unfinished : c.finished = false)
    (content : f.content = .entries keyType valueType nullable layout dict)
    (fills : FillsMap m a c keyType valueType nullable layout dict) (keys : c.keys = dict.keys)
    (k : Value) :
    Agrees (Running m live) (OpensAs m live κ a (.map f) c .map) (openEntry m κ k f.view) a
      (f.openEntry m keyType valueType nullable dict k) := by
  have shaped := running.shaped hc unfinished
  have free := running.sound.free_of_phase hc (by rw [settled]; nofun)
  refine ((openEntry_agrees hc shaped same fills keys).of_unchanged running).mono ?_
  rintro _ _ _ ⟨text, new, rfl, rfl, size, rfl⟩
  have longer : Lengthened c (c.withEntry k text) := ⟨rfl, rfl, rfl, rfl, rfl, rfl⟩
  have moves := longer.moves running hc free unfinished fun shaped =>
    shaped_withEntry shaped fills.shape k new
  have hc' := getElem?_store_self hc (c.withEntry k text)
  have fills' := fills.keep moves.keeps hc' longer.toExtends nofun
  obtain ⟨type, view, member, content', phase⟩ := f
  obtain rfl : content' = _ := content
  refine ⟨moves, ⟨_, hc', rfl, ⟨same, unfinished, .inr keyless, fills', ?_, ?_⟩, .entry view⟩, ?_,
    .value .., ⟨rfl, rfl, rfl, rfl⟩⟩
  · exact congrArg (· ++ [(k, text)]) keys
  · exact congrArg CellPhase.slot size
  · exact (draftAt?_inside hc' _).trans (size ▸ longer.absent)

/-- **The value of an entry is opened by the text of its key as in a frame.** -/
theorem beginEntry_agrees (running : Running m live a) (hc : a.cells[κ]? = some c)
    (h : StoresMap m a f c) (quiet : Quiet m a κ (.map f) c) (key : String) :
    Agrees (Running m live) (OpensAs m live κ a (.map f) c .map) (beginEntry m κ key f.view) a
      (f.entry m key) := by
  refine Agrees.after (runs_checkOpen hc h.unfinished) ?_
  refine (h.settle_agrees running hc quiet).bind
    fun _ _ a₁ ⟨moves, c₁, hc₁, settled, shape₁, idle, h₁⟩ => ?_
  refine Agrees.after (runs_cell hc₁) ?_
  obtain ⟨type, view, member, content, phase⟩ := f
  obtain rfl : phase = .idle := idle
  have keyless := h₁.keyless settled
  obtain ⟨same, unfinished, -, fills, keys⟩ := h₁
  cases content with
  | entries keyType valueType nullable layout dict =>
    rw [FillsMap.shape fills]
    dsimp only
    refine Agrees.bind (R := fun d v a' => IsValue m keyType d v ∧ a' = a₁) ?_ ?_
    · exact (scalarDraft_agrees ..).of_unchanged moves.running
    · rintro d k _ ⟨value, rfl⟩
      obtain ⟨a₂, run, moves₂, stays⟩ := moves.running.freezeKey (κ := κ) (value.holds _)
        (.refl [] _) (fun id he => nomatch value.cell?.symm.trans he)
      have hc₂ := stays hc₁ unfinished
      refine Agrees.after run ?_
      exact (opensEntry_agrees moves₂.running hc₂ settled keyless same unfinished rfl
        (FillsContent.keep fills moves₂.keeps hc₂ (.refl c₁) nofun) keys k).mono
        fun _ _ _ => .of_moves (moves.trans moves₂) shape₁
  | fields fields repr slots =>
    rw [FillsStruct.shape fills]
    exact (openNamed_agrees (f := ⟨type, view, member, .fields fields repr slots, .idle⟩)
      moves.running hc₁ settled keyless same unfinished fills nofun key).mono
        fun _ _ _ => .of_moves moves shape₁
  | choice members repr present =>
    rw [FillsUnion.shape fills]
    exact (openNamed_agrees (f := ⟨type, view, member, .choice members repr present, .idle⟩)
      moves.running hc₁ settled keyless same unfinished fills nofun key).mono
        fun _ _ _ => .of_moves moves shape₁

theorem value_named {k : Value} (phase : f.phase = .keyed k)
    (named : ∀ key value nullable layout dict,
      f.content ≠ .entries key value nullable layout dict) :
    f.value m =
      match (Draft.ready k).text? with
      | some name => f.openNamed m name
      | none => .error (f.incomplete m) := by
  obtain ⟨type, view, member, content, phase'⟩ := f
  obtain rfl : phase' = .keyed k := phase
  cases content with
  | entries key value nullable layout dict => exact (named _ _ _ _ _ rfl).elim
  | fields fields repr slots | choice members repr present =>
    cases k with
    | scalar s => cases s <;> rfl
    | _ => rfl

theorem runs_beginValue_error {view : View} (hc : a.cells[κ]? = some c)
    (unfinished : c.finished = false)
    (unknown : c.phase = .key → a.complete? c.pendingKey = some false) :
    Runs (beginValue m κ view) a
      (.error (.assembly (.incompleteValue (m.schema.nameOf c.type)))) a := by
  refine (runs_checkOpen hc unfinished).bind ((runs_cell hc).bind ?_)
  dsimp only
  split
  · rename_i phase
    exact (runs_get a).bind ((runs_need (unknown phase) a).bind (runs_throw _ a))
  · exact runs_throw _ a

theorem Running.loose_key (h : Running m live a) (hc : a.cells[κ]? = some c)
    (taken : c'.pendingKey = .absent) (slots : c'.slots = c.slots) {id : CellId}
    (he : c.pendingKey.cell? = some id) : (a.store κ c').Loose id := by
  refine h.sound.loose_of_taken (p := .inside κ .key) ((refersTo_of_cell hc).mpr he) length_store
    rfl fun q hq => ?_
  rcases (refersTo_store_iff hc).mp hq with ⟨s, rfl, hs⟩ | ⟨ne, old⟩
  · cases s with
    | key =>
      rw [Cell.RefersTo, Cell.draftAt?, taken] at hs
      cases hs
    | slot i =>
      rw [Cell.RefersTo, Cell.draftAt?, slots] at hs
      exact ⟨(refersTo_of_cell hc).mpr hs, by simp⟩
  · exact ⟨old, ne _⟩

theorem Agrees.beginValue {β : Type} {E : Arena → Prop} {R : Place × PlaceSpec → β → Arena → Prop}
    {y : Except NodeError β} {view : View} {shape : CellShape} {pending : Draft}
    (hc : a.cells[κ]? = some c) (unfinished : c.finished = false) (phase : c.phase = .key)
    (complete : a.complete? pending = some true)
    (rest : Agrees E R
      (match shape with
        | .map keyType _ _ => do openEntry m κ (← freezeValue m keyType pending) view
        | _ =>
          match pending.text? with
          | some name => openNamed m κ name view
          | none => throw (.assembly (.incompleteValue (m.schema.nameOf c.type))))
      (a.store κ { c with pendingKey := .absent, phase := .settled }) y)
    (hs : c.shape = shape) (hp : c.pendingKey = pending) :
    Agrees E R (beginValue m κ view) a y := by
  subst hs hp
  refine Agrees.after (runs_checkOpen hc unfinished) (Agrees.after (runs_cell hc) ?_)
  dsimp only
  rw [phase]
  refine Agrees.after (runs_get a) (Agrees.after (runs_need complete a) ?_)
  exact Agrees.after (runs_update hc _) rest

theorem Running.moves_settled (h : Running m live a) (hc : a.cells[κ]? = some c)
    (unfinished : c.finished = false) (phase : c.phase = .key) :
    Moves m live κ a (a.store κ { c with pendingKey := .absent, phase := .settled }) :=
  h.rephase hc (h.sound.free_of_phase hc (by rw [phase]; nofun)) unfinished (.inr rfl) (by nofun)
    (by nofun) c.next

theorem openKeyed_agrees {k : Value} (running : Running m live a) (hc : a.cells[κ]? = some c)
    (same : c.type = f.type) (unfinished : c.finished = false) (phase : c.phase = .key)
    (keyed : f.phase = .keyed k) (fills : FillsContent m a c none f.content)
    (named : ∀ key value nullable layout dict,
      f.content ≠ .entries key value nullable layout dict) :
    Agrees (Running m live) (OpensAs m live κ a (.map f) c .map)
      (match (Draft.ready k).text? with
        | some name => openNamed m κ name f.view
        | none => throw (.assembly (.incompleteValue (m.schema.nameOf c.type))))
      (a.store κ { c with pendingKey := .absent, phase := .settled }) (f.value m) := by
  have moves := running.moves_settled hc unfinished phase
  have hc₁ := getElem?_store_self hc { c with pendingKey := .absent, phase := .settled }
  rw [value_named keyed named, MapFrame.incomplete, ← same]
  cases (Draft.ready k).text? with
  | none => exact .error (runs_throw _ _) moves.running
  | some name =>
    exact (openNamed_agrees moves.running hc₁ rfl rfl same unfinished
      (fills.keep moves.keeps hc₁ (extends_rephase ..) nofun) named name).mono
        fun _ _ _ => .of_moves moves rfl

theorem StoresMap.pendingKey_incomplete (h : StoresMap m a f c) (hc : a.cells[κ]? = some c)
    (quiet : Quiet m a κ (.map f) c) (unknown : ∀ k, f.phase ≠ .keyed k) (phase : c.phase = .key) :
    a.complete? c.pendingKey = some false := by
  have waiting {w : Opening} (waits : Waits m κ c (.map f) (.inside κ .key) w) :
      a.complete? c.pendingKey = some false := by
    obtain ⟨d, hd, incomplete⟩ := quiet.incomplete waits
    rw [draftAt?_inside hc] at hd
    cases hd
    exact incomplete
  have inPhase := h.phase
  obtain ⟨type, view, member, content, phase'⟩ := f
  cases phase' with
  | keyed k => exact absurd rfl (unknown k)
  | idle =>
    have settles := quiet.settles rfl
    rw [Arena.settles?, phase] at settles
    cases settles
  | key =>
    cases content with
    | entries key value nullable layout dict => exact waiting (.key .typed)
    | fields fields repr slots => exact waiting (.fieldName .typed)
    | choice members repr present => exact waiting (.memberName .typed)
  | entry k text =>
    cases content with
    | entries key value nullable layout dict => cases inPhase.2.symm.trans phase
    | fields _ _ _ | choice _ _ _ => exact absurd inPhase id
  | slot i =>
    cases content with
    | entries key value nullable layout dict => exact absurd inPhase id
    | fields _ _ _ | choice _ _ _ => cases inPhase.symm.trans phase

/-- **The value of an entry is opened under its pending key as in a frame.** -/
theorem beginValue_agrees (running : Running m live a) (hc : a.cells[κ]? = some c)
    (h : StoresMap m a f c) (quiet : Quiet m a κ (.map f) c) :
    Agrees (Running m live) (OpensAs m live κ a (.map f) c .map) (beginValue m κ f.view) a
      (f.value m) := by
  have incomplete := h.pendingKey_incomplete hc quiet
  obtain ⟨type, view, member, content, phase⟩ := f
  obtain ⟨same, unfinished, -, fills, inPhase⟩ := h
  obtain rfl : c.type = type := same
  cases phase with
  | idle | key | entry k text | slot i =>
    exact .error (runs_beginValue_error hc unfinished (incomplete (by simp))) running
  | keyed k =>
    have hc₁ := getElem?_store_self hc { c with pendingKey := .absent, phase := .settled }
    cases content with
    | entries keyType valueType nullable layout dict =>
      obtain ⟨keys, phase, held⟩ := inPhase
      have moves := running.moves_settled hc unfinished phase
      obtain ⟨a₂, run, moves₂, stays⟩ := moves.running.freezeKey (κ := κ) held moves.spares
        fun id he => running.loose_key hc (by rfl) (by rfl) he
      have hc₂ := stays hc₁ unfinished
      have fills₁ := FillsContent.keep fills moves.keeps hc₁ (extends_rephase ..) nofun
      have fills₂ := FillsContent.keep fills₁ moves₂.keeps hc₂ (.refl _) nofun
      refine .beginValue hc unfinished phase held.complete?_eq (.after run ?_)
        (FillsMap.shape fills) rfl
      exact (opensEntry_agrees moves₂.running hc₂ rfl rfl rfl unfinished rfl fills₂ keys k).mono
        fun _ _ _ => .of_moves (moves.trans moves₂) rfl
    | fields fields repr slots =>
      obtain ⟨phase, pending⟩ := inPhase
      refine .beginValue hc unfinished phase rfl ?_ (FillsStruct.shape fills) pending
      exact openKeyed_agrees running hc rfl unfinished phase rfl fills (by simp)
    | choice members repr present =>
      obtain ⟨phase, pending⟩ := inPhase
      refine .beginValue hc unfinished phase rfl ?_ (FillsUnion.shape fills) pending
      exact openKeyed_agrees running hc rfl unfinished phase rfl fills (by simp)

end Maps

end Arena

end DualView
