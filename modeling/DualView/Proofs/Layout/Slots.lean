import DualView.Proofs.Assembly.TypedRuns
import DualView.Proofs.Layout.LaidOut
import DualView.Proofs.Schema.Registry

/-!
# Layouts of what is built

A slot gets its layout where it comes into being, and each of these places asks the model for one
type and one position.  So laying out is a discipline of assembly: what a frame holds is laid out so
far, and a frame opens only for what is laid out.

* `Model.layingOut_observed`: every step of assembly lays out.
* `Prototype.slots_follow_model`: all that is built is laid out, and equal values alike.
-/

namespace DualView

/-! ## Frames -/

def Opening.TakesLaidOut (m : Model) (o : Opening) (piece : Piece) : Prop :=
  match o.demand, piece with
  | .value type, .content given => m.GivenLaidOut type given
  | .pair _ _ fields _, .field i given => ∀ f, fields[i]? = some f → m.GivenLaidOut f.type given
  | _, _ => True

def MapContent.LaidOut (m : Model) (type : TypeId) : MapContent → Prop
  | .entries key value nullable layout dict =>
    (∃ nulls, m.schema.body type = .map key value nullable nulls) ∧
      layout = m.elementLayout value nullable ∧ m.LaidOut type (.map dict)
  | .fields fs repr slots =>
    m.schema.body type = .struct fs repr ∧ m.LaidOut type (.struct slots)
  | .choice members repr present =>
    m.schema.body type = .union members repr ∧
      ∀ i v, present = some (i, v) → m.LaidOut type (.union i v)

def MapPhase.LaidOut (m : Model) : MapContent → MapPhase → Prop
  | .entries keyType _ _ _ _, .keyed k | .entries keyType _ _ _ _, .entry k _ =>
    m.LaidOut keyType k
  | _, _ => True

def ListContent.LaidOut (m : Model) (type : TypeId) : ListContent → Prop
  | .items elem nullable layout slots =>
    m.schema.body type = .list elem nullable ∧ layout = m.elementLayout elem nullable ∧
      m.LaidOut type (.list slots)
  | .tuple fs slots _ | .pairs _ fs slots =>
    (∃ repr, m.schema.body type = .struct fs repr) ∧ m.LaidOut type (.struct slots)
  | .pair _ fs _ stage =>
    ∀ i given, stage = .full i given → ∀ f, fs[i]? = some f → m.GivenLaidOut f.type given

def Frame.LaidOut (m : Model) : Frame → Prop
  | map f => f.content.LaidOut m f.type ∧ f.phase.LaidOut m f.content
  | list f => f.content.LaidOut m f.type

def Piece.LaidOut (m : Model) (type : TypeId) (member : Option Nat) (piece : Piece) : Prop :=
  ∃ v, m.LaidOut type v ∧ piece = .content (some (v.wrap member))

def Frame.YieldsLaidOut (m : Model) (frame : Frame) (piece : Piece) : Prop :=
  match frame with
  | map f => piece.LaidOut m f.type f.member
  | list f =>
    match f.content with
    | .pair _ fs _ _ => ∃ i given, (∀ f, fs[i]? = some f → m.GivenLaidOut f.type given) ∧
        piece = .field i given
    | _ => piece.LaidOut m f.type f.member

def Model.layingOut (m : Model) : Discipline where
  Takes := Opening.TakesLaidOut m
  Sound := Frame.LaidOut m
  Yields := Frame.YieldsLaidOut m

variable {m : Model} {o : Opening}

namespace MapFrame

variable {f f' : MapFrame}

theorem place_yieldsLaidOut {piece p : Piece} (h : (Frame.map (f.place p)).YieldsLaidOut m piece) :
    (Frame.map f).YieldsLaidOut m piece := by
  rw [place.eq_def] at h
  split at h <;> exact h

theorem openEntry_lays {keyType valueType : TypeId} {nullable : Bool} {layout : Layout}
    {dict : Dict Value} {k : Value} (h : (Frame.map f).LaidOut m)
    (hc : f.content = .entries keyType valueType nullable layout dict) (hk : m.LaidOut keyType k)
    (hs : f.openEntry m keyType valueType nullable dict k = .ok (f', o)) :
    m.layingOut.Opens (.map f) (.map f') o := by
  obtain ⟨type, view, member, content, phase⟩ := f
  subst hc
  obtain ⟨text, -, hs⟩ := bind_eq_ok_iff.mp hs
  split at hs
  · contradiction
  · cases hs
    refine ⟨⟨⟨h.1, hk⟩, fun _ hy => hy⟩, fun piece takes => ?_⟩
    obtain ⟨⟨⟨nulls, body⟩, rfl, hd⟩, -⟩ := h
    cases piece with
    | field i given => exact ⟨⟨⟨nulls, body⟩, rfl, hd⟩, hk⟩
    | content given =>
      exact ⟨⟨⟨nulls, body⟩, rfl, Model.laidOut_insert body hd hk takes⟩, trivial⟩

theorem openNamed_lays {name : String} (h : (Frame.map f).LaidOut m)
    (hs : f.openNamed m name = .ok (f', o)) : m.layingOut.Opens (.map f) (.map f') o := by
  obtain ⟨type, view, member, content, phase⟩ := f
  cases content with
  | entries kt vt nullable layout dict => contradiction
  | fields fs repr slots =>
    obtain ⟨⟨i, o'⟩, ho, hs⟩ := bind_eq_ok_iff.mp hs
    cases hs
    obtain ⟨-, fld, slot, hf, -, -, rfl⟩ := Schema.openField_eq_ok_iff.mp ho
    refine ⟨⟨⟨h.1, trivial⟩, fun _ hy => hy⟩, fun piece takes => ?_⟩
    cases piece with
    | field j given => exact ⟨h.1, trivial⟩
    | content given =>
      refine ⟨⟨h.1.1, Model.laidOut_fillSlot h.1.1 h.1.2 fun g hg => ?_⟩, trivial⟩
      cases hf.symm.trans hg
      exact takes
  | choice members repr present =>
    obtain ⟨⟨i, o'⟩, ho, hs⟩ := bind_eq_ok_iff.mp hs
    cases hs
    obtain ⟨-, rfl, target, hm, rfl⟩ := Schema.openMember_eq_ok_iff.mp ho
    refine ⟨⟨⟨h.1, trivial⟩, fun _ hy => hy⟩, fun piece takes => ?_⟩
    rcases piece with ⟨_ | v⟩ | ⟨j, given⟩
    · exact ⟨h.1, trivial⟩
    · refine ⟨⟨h.1.1, fun j w same => ?_⟩, trivial⟩
      cases same
      refine (Model.laidOut_union_iff h.1.1).mpr fun member at_member => ?_
      cases hm.symm.trans at_member
      exact takes v rfl
    · exact ⟨h.1, trivial⟩

theorem key_lays (h : (Frame.map f).LaidOut m) (hs : f.key m = .ok (f', o)) :
    m.layingOut.Opens (.map f) (.map f') o := by
  obtain ⟨type, view, member, content, phase⟩ := f
  obtain ⟨-, -, hs⟩ := bind_eq_ok_iff.mp hs
  cases hs
  cases content with
  | entries kt vt nullable layout dict =>
    refine ⟨⟨⟨h.1, trivial⟩, fun _ hy => hy⟩, fun piece takes => ?_⟩
    rcases piece with ⟨_ | k⟩ | ⟨i, given⟩
    · exact ⟨h.1, trivial⟩
    · exact ⟨h.1, takes k rfl⟩
    · exact ⟨h.1, trivial⟩
  | fields fs repr slots =>
    refine ⟨⟨⟨h.1, trivial⟩, fun _ hy => hy⟩, fun piece _ => ?_⟩
    rcases piece with ⟨_ | k⟩ | ⟨i, given⟩ <;> exact ⟨h.1, trivial⟩
  | choice members repr present =>
    refine ⟨⟨⟨h.1, trivial⟩, fun _ hy => hy⟩, fun piece _ => ?_⟩
    rcases piece with ⟨_ | k⟩ | ⟨i, given⟩ <;> exact ⟨h.1, trivial⟩

theorem value_lays (h : (Frame.map f).LaidOut m) (hs : f.value m = .ok (f', o)) :
    m.layingOut.Opens (.map f) (.map f') o := by
  rw [MapFrame.value.eq_def] at hs
  split at hs
  · rename_i k hphase
    split at hs
    · rename_i kt vt nullable layout dict hc
      have hk := h.2
      rw [hphase, hc] at hk
      exact openEntry_lays h hc hk hs
    · exact openNamed_lays h hs
    · contradiction
  · contradiction

/-- The key of an entry that is opened by text is laid out before its value. -/
theorem entry_lays {text : String} (h : (Frame.map f).LaidOut m)
    (hs : f.entry m text = .ok (f', o)) : m.layingOut.Opens (.map f) (.map f') o := by
  obtain ⟨-, -, hs⟩ := bind_eq_ok_iff.mp hs
  split at hs
  · rename_i kt vt nullable layout dict hc
    obtain ⟨k, hk, hs⟩ := bind_eq_ok_iff.mp hs
    exact openEntry_lays h hc (Model.laidOut_of_assign hk) hs
  · exact openNamed_lays h hs

theorem close_laidOut {piece : Piece} (h : (Frame.map f).LaidOut m) (hs : f.close m = .ok piece) :
    piece.LaidOut m f.type f.member := by
  obtain ⟨type, view, member, content, phase⟩ := f
  obtain ⟨-, -, hs⟩ := bind_eq_ok_iff.mp hs
  obtain ⟨v, hv, hs⟩ := bind_eq_ok_iff.mp hs
  cases hs
  refine ⟨v, ?_, rfl⟩
  cases content with
  | entries kt vt nullable layout dict =>
    cases hv
    exact h.1.2.2
  | fields fs repr slots =>
    dsimp only [finished] at hv
    split at hv
    · contradiction
    · cases hv
      exact h.1.2
  | choice members repr present =>
    cases present with
    | none => contradiction
    | some p =>
      cases hv
      exact h.1.2 p.1 p.2 rfl

end MapFrame

namespace ListFrame

variable {f f' : ListFrame}

theorem place_yieldsLaidOut {piece p : Piece} (h : (Frame.list (f.place p)).YieldsLaidOut m piece) :
    (Frame.list f).YieldsLaidOut m piece := by
  obtain ⟨type, view, member, content, busy⟩ := f
  rw [place.eq_def] at h
  dsimp only at h
  split at h <;> exact h

theorem item_lays (h : (Frame.list f).LaidOut m) (hs : f.item m = .ok (f', o)) :
    m.layingOut.Opens (.list f) (.list f') o := by
  obtain ⟨type, view, member, content, busy⟩ := f
  cases content with
  | items elem nullable layout slots =>
    obtain ⟨-, -, hs⟩ := bind_eq_ok_iff.mp hs
    cases hs
    refine ⟨⟨h, fun _ hy => hy⟩, fun piece takes => ?_⟩
    obtain ⟨body, rfl, hd⟩ := h
    cases piece with
    | field i given => exact ⟨body, rfl, hd⟩
    | content given => exact ⟨body, rfl, Model.laidOut_append body hd takes⟩
  | tuple fs slots next =>
    obtain ⟨-, -, hs⟩ := bind_eq_ok_iff.mp hs
    dsimp only at hs
    split at hs
    · rename_i fld hf
      cases hs
      refine ⟨⟨h, fun _ hy => hy⟩, fun piece takes => ?_⟩
      obtain ⟨⟨repr, body⟩, hd⟩ := h
      cases piece with
      | field i given => exact ⟨⟨repr, body⟩, hd⟩
      | content given =>
        refine ⟨⟨repr, body⟩, Model.laidOut_fillSlot body hd fun g hg => ?_⟩
        cases hf.symm.trans hg
        exact takes
    · contradiction
  | pairs keys fs slots =>
    obtain ⟨-, -, hs⟩ := bind_eq_ok_iff.mp hs
    cases hs
    refine ⟨⟨h, fun _ hy => hy⟩, fun piece takes => ?_⟩
    obtain ⟨⟨repr, body⟩, hd⟩ := h
    cases piece with
    | content given => exact ⟨⟨repr, body⟩, hd⟩
    | field i given => exact ⟨⟨repr, body⟩, Model.laidOut_fillSlot body hd takes⟩
  | pair keys fs slots stage =>
    cases stage with
    | empty =>
      cases hs
      refine ⟨⟨nofun, fun _ hy => hy⟩, fun piece _ => ?_⟩
      -- what is placed is the name of a field, or nothing
      rcases piece with ⟨_ | v⟩ | ⟨i, given⟩
      · exact nofun
      · rcases v with a | _ | _ | _ | _ | _
        · cases a <;> exact nofun
        all_goals exact nofun
      · exact nofun
    | key => contradiction
    | keyed k =>
      obtain ⟨⟨i, o'⟩, ho, hs⟩ := bind_eq_ok_iff.mp hs
      cases hs
      obtain ⟨-, fld, slot, hf, -, -, rfl⟩ := Schema.openField_eq_ok_iff.mp ho
      refine ⟨⟨nofun, fun _ hy => hy⟩, fun piece takes => ?_⟩
      cases piece with
      | field j given => exact nofun
      | content given =>
        intro j given' same g hg
        cases same
        cases hf.symm.trans hg
        exact takes
    | value i => contradiction
    | full i given => contradiction

theorem struct_laidOut {fs : List (Field TypeId)} {slots : List (Slot Value)} {piece : Piece}
    (h : m.LaidOut f.type (.struct slots)) (hs : f.struct m fs slots = .ok piece) :
    piece.LaidOut m f.type f.member := by
  obtain ⟨-, rfl⟩ := struct_eq_ok_iff.mp hs
  exact ⟨.struct slots, h, rfl⟩

theorem close_yieldsLaidOut {piece : Piece} (h : (Frame.list f).LaidOut m)
    (hs : f.close m = .ok piece) : (Frame.list f).YieldsLaidOut m piece := by
  obtain ⟨type, view, member, content, busy⟩ := f
  cases content with
  | items elem nullable layout slots =>
    obtain ⟨-, -, hs⟩ := bind_eq_ok_iff.mp hs
    cases hs
    exact ⟨.list slots, h.2.2, rfl⟩
  | tuple fs slots next =>
    obtain ⟨-, -, hs⟩ := bind_eq_ok_iff.mp hs
    exact struct_laidOut h.2 hs
  | pairs keys fs slots =>
    obtain ⟨-, -, hs⟩ := bind_eq_ok_iff.mp hs
    exact struct_laidOut h.2 hs
  | pair keys fs slots stage =>
    cases stage with
    | full i given =>
      cases hs
      exact ⟨i, given, h i given rfl, rfl⟩
    | _ => contradiction

end ListFrame

/-! ## Beginning a compound -/

namespace Opening

theorem mapContent?_laidOut {view : View} {type : TypeId} {content : MapContent}
    (h : m.mapContent? view type = some content) : content.LaidOut m type := by
  cases Model.mapContent?_eq_some_iff.mp h with
  | @entries key value nullable nulls body =>
    refine ⟨⟨nulls, body⟩, rfl, (Model.laidOut_map_iff body).mpr fun e he => ?_⟩
    exact absurd he List.not_mem_nil
  | fields body keyed => exact ⟨body, Model.laidOut_absentSlots body⟩
  | choice body keyed => exact ⟨body, fun i v present => by contradiction⟩

theorem listContent?_laidOut {view : View} {type : TypeId} {content : ListContent}
    (h : m.listContent? view type = some content) : content.LaidOut m type := by
  cases Model.listContent?_eq_some_iff.mp h with
  | items body =>
    refine ⟨body, rfl, (Model.laidOut_list_iff body).mpr fun slot hs => ?_⟩
    exact absurd hs List.not_mem_nil
  | tuple body seen | pairs body seen => exact ⟨⟨_, body⟩, Model.laidOut_absentSlots body⟩

theorem openMap_lays {f : MapFrame} (h : o.openMap m = .ok f) : m.layingOut.Begins o (.map f) := by
  obtain ⟨demand, view, nullable⟩ := o
  cases demand with
  | value type =>
    obtain ⟨member, target, content, ht, hc, rfl⟩ := openMap_eq_ok_iff.mp h
    refine ⟨⟨mapContent?_laidOut hc, ?_⟩, ?_⟩
    · cases content <;> trivial
    · rintro piece ⟨v, hv, rfl⟩ w same
      cases same
      exact Model.laidOut_wrap ht hv
  | name owner => contradiction
  | pair owner keys fs slots => contradiction

theorem openList_lays {f : ListFrame} (h : o.openList m = .ok f) :
    m.layingOut.Begins o (.list f) := by
  obtain ⟨demand, view, nullable⟩ := o
  cases demand with
  | value type =>
    obtain ⟨member, target, content, ht, hc, rfl⟩ := openList_eq_ok_iff.mp h
    refine ⟨listContent?_laidOut hc, fun piece yields => ?_⟩
    cases content with
    | pair keys fs slots stage =>
      obtain ⟨i, given, -, rfl⟩ := yields
      trivial
    | _ =>
      obtain ⟨v, hv, rfl⟩ := yields
      intro w same
      cases same
      exact Model.laidOut_wrap ht hv
  | name owner => contradiction
  | pair owner keys fs slots =>
    cases h
    refine ⟨nofun, ?_⟩
    rintro piece ⟨i, given, laid, rfl⟩
    exact laid

theorem null_takesLaidOut {piece : Piece} (h : o.null m.schema = .ok piece) :
    o.TakesLaidOut m piece := by
  rw [Opening.null] at h
  split at h
  · cases h
    obtain ⟨demand, view, nullable⟩ := o
    cases demand with
    | value type =>
      intro v given
      contradiction
    | name owner => trivial
    | pair owner keys fields slots => trivial
  · contradiction

theorem scalar_takesLaidOut {a : Scalar} {piece : Piece} (h : o.scalar m a = .ok piece) :
    o.TakesLaidOut m piece := by
  obtain ⟨demand, view, nullable⟩ := o
  cases demand with
  | value type =>
    obtain ⟨v, hv, rfl⟩ := map_eq_ok_iff.mp h
    intro w same
    cases same
    exact Model.laidOut_of_assign hv
  | name owner =>
    cases a with
    | string text =>
      cases h
      trivial
    | _ => contradiction
  | pair owner keys fields slots => contradiction

end Opening

/-- **Every step lays out what is assembled.** -/
theorem Model.layingOut_observed (m : Model) : m.layingOut.Observed m where
  null _ _ h := Opening.null_takesLaidOut h
  scalar _ _ _ h := Opening.scalar_takesLaidOut h
  openMap _ _ h := Opening.openMap_lays h
  openList _ _ h := Opening.openList_lays h
  key _ _ _ laid h := MapFrame.key_lays laid h
  value _ _ _ laid h := MapFrame.value_lays laid h
  entry _ _ _ _ laid h := MapFrame.entry_lays laid h
  item _ _ _ laid h := ListFrame.item_lays laid h
  place f _ _ h := by
    cases f with
    | map f => exact MapFrame.place_yieldsLaidOut h
    | list f => exact ListFrame.place_yieldsLaidOut h
  close f _ laid h := by
    cases f with
    | map f => exact MapFrame.close_laidOut laid h
    | list f => exact ListFrame.close_yieldsLaidOut laid h
  inView f _ _ laid h := by
    -- layouts do not depend on views
    cases f with
    | map f =>
      obtain ⟨g, hg, rfl⟩ := map_eq_ok_iff.mp h
      rw [MapFrame.inView_eq_ok hg]
      exact ⟨laid, fun _ hy => hy⟩
    | list f =>
      obtain ⟨g, hg, rfl⟩ := map_eq_ok_iff.mp h
      rw [ListFrame.inView_eq_ok hg]
      exact ⟨laid, fun _ hy => hy⟩

/-! ## What is built -/

theorem Schema.Fits.declared {s : Schema} {type : TypeId} {v : Value} (h : s.Fits type v) :
    type < s.size := by
  by_contra outside
  have vacant : s.body type = Schema.vacant.body := by
    rw [body, decl, List.getElem?_eq_none (Nat.not_lt.mp outside), Option.getD_none]
  cases h with
  | enum body bound =>
    cases body.symm.trans vacant
    exact absurd bound (Nat.not_lt_zero _)
  | scalar body => cases body.symm.trans vacant
  | list body states values => cases body.symm.trans vacant
  | map body keys texts apart states values => cases body.symm.trans vacant
  | struct body length states values => cases body.symm.trans vacant
  | union body at_member value => cases body.symm.trans vacant

/-- Names tell declared types apart. -/
theorem TypeSystem.FrozenAs.type_eq {ts : TypeSystem} {s : Schema} (frozen : ts.FrozenAs s)
    {type other : TypeId} (declared : type < s.size) (declared' : other < s.size)
    (names : s.nameOf type = s.nameOf other) : type = other := by
  have found := frozen.idOf_nameOf type declared
  rw [names, frozen.idOf_nameOf other declared'] at found
  exact (Except.ok.inj found).symm

namespace Prototype

/-- **Every slot has the layout of the model, whichever way it came into being.**  What a prototype
produces is laid out at every depth and inside the keys of maps, and equal values that are built
under one model have the same layouts throughout. -/
theorem slots_follow_model {start : TypeSystem} (fresh : start = .empty ∨ start = .prelude)
    {ds : List (Decl String)} {s : Schema} {c : Config} {p : Prototype}
    (frozen : (start.addEach ds).2.finalize = .ok s) (compiled : s.compile c = .ok p.model)
    {v : TypedValue} (built : p.Produces v) :
    (v.model = p.model ∧ v.type = p.type ∧ s.Fits v.type v.value) ∧
      p.model.LaidOut v.type v.value ∧
      ∀ (q : Prototype) w, q.model = p.model → q.Produces w → v.same w = true →
        v.value.layouts = w.value.layouts := by
  obtain rfl := Schema.schema_of_compile compiled
  have valid := Schema.valid_of_finalize frozen
  have laws : (p.model.schema.fitting.Observed p.model) ∧ p.model.layingOut.Observed p.model :=
    ⟨valid.fitting_observed, p.model.layingOut_observed⟩
  have produced : ∀ q : Prototype, q.model = p.model → ∀ w, q.Produces w →
      w.model = p.model ∧ w.type = q.type ∧ p.model.schema.Fits w.type w.value ∧
        p.model.LaidOut w.type w.value := by
    intro q same_model w built
    rw [← same_model] at laws ⊢
    obtain ⟨model_eq, type_eq, fits⟩ := laws.1.produced built
    obtain ⟨-, -, laid⟩ := laws.2.produced built
    exact ⟨model_eq, type_eq, type_eq ▸ fits, type_eq ▸ laid _ rfl⟩
  obtain ⟨model_eq, type_eq, fits, laid⟩ := produced p rfl v built
  refine ⟨⟨model_eq, type_eq, fits⟩, laid, fun q w same_model built' same => ?_⟩
  obtain ⟨model_eq', -, fits', laid'⟩ := produced q same_model w built'
  rw [TypedValue.same, TypedValue.typeName, TypedValue.typeName, model_eq, model_eq',
    Bool.and_eq_true, beq_iff_eq] at same
  have names := TypeSystem.frozenAs_of_finalize
    (TypeSystem.nodup_names_addEach (TypeSystem.nodup_names_of_fresh fresh) ds) frozen
  rw [← names.type_eq fits.declared fits'.declared same.1] at laid'
  exact laid.layouts_eq fits laid' same.2

end Prototype

/-- A tag has the same layouts whether it is decoded from a joined text or given by its fields. -/
theorem Prototype.slots_follow_model_sample :
    (TypeSystem.empty.addEach Sample.types.decls).2.finalize = .ok Sample.schema ∧
      Sample.schema.compile .empty = .ok Sample.prototype.model ∧
      Sample.model.LaidOut 7 Sample.value ∧
      ∃ w, (Builder.run (.ofPrototype (Sample.prototype.inView .typed)) Sample.typedCalls).1.build =
          .ok w ∧
        Sample.value.layouts = w.value.layouts := by
  have frozen : (TypeSystem.empty.addEach Sample.types.decls).2.finalize = .ok Sample.schema := rfl
  have joined : Sample.prototype.Produces ⟨Sample.model, 7, Sample.value⟩ :=
    .run Sample.calls rfl
  have fieldwise : (Builder.run (.ofPrototype (Sample.prototype.inView .typed))
      Sample.typedCalls).1.build = .ok ⟨Sample.model, 7, Sample.value⟩ := rfl
  obtain ⟨-, laid, alike⟩ := slots_follow_model (.inl rfl) frozen Sample.compile_schema joined
  refine ⟨frozen, Sample.compile_schema, laid, _, fieldwise, ?_⟩
  exact alike (Sample.prototype.inView .typed) _ rfl (.run Sample.typedCalls fieldwise) rfl

end DualView
