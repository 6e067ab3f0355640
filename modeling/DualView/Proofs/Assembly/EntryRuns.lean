import DualView.Proofs.Assembly.Levels

/-!
# Items, entries and members, as they are copied

A frame of a list takes items for as long as there are any, and one of a map takes entries whose
keys have texts that differ.  One of a union takes a single entry.

* `Opening.copyItems_items_iff`, `Opening.copyEntries_entries_iff`: what is copied into a list and a
  map.
* `Opening.copy_choice_iff`: what is copied into a union.
-/

namespace DualView

/-! ## Frames -/

def Model.itemsFrame (m : Model) (type : TypeId) (view : View) (member : Option Nat)
    (elem : TypeId) (nullable : Bool) (slots : List (Slot Value)) : ListFrame :=
  ⟨type, view, member, .items elem nullable (m.elementLayout elem nullable) slots, false⟩

def Model.entriesFrame (m : Model) (type : TypeId) (view : View) (member : Option Nat)
    (key value : TypeId) (nullable : Bool) (entries : List (Entry Value)) : MapFrame :=
  ⟨type, view, member, .entries key value nullable (m.elementLayout value nullable) ⟨entries⟩, .idle⟩

namespace Opening

variable {m : Model} {view : View}

/-! ## Items and entries -/

/-- What is copied as the items of a list. -/
theorem copyItems_items_iff (valid : m.schema.Valid) {type elem : TypeId} {member : Option Nat}
    {nullable : Bool} {slots : List (Slot Value)} {items : List Tree} {f' : ListFrame} :
    copyItems m (m.itemsFrame type view member elem nullable slots) items = .ok f' ↔
      ∃ ps : List (Tree × Option Value), ps.map (·.1) = items ∧
        (∀ p ∈ ps, m.Copies view nullable elem p.1 p.2) ∧
        f' = m.itemsFrame type view member elem nullable
          (slots ++ ps.map fun p => ⟨m.elementLayout elem nullable, .given p.2⟩) := by
  induction items generalizing slots with
  | nil =>
    rw [copyItems]
    constructor
    · intro h
      cases h
      exact ⟨[], rfl, List.forall_mem_nil _, by simp⟩
    · rintro ⟨ps, hps, -, rfl⟩
      simp [List.map_eq_nil_iff.mp hps]
  | cons t rest ih =>
    rw [copyItems_cons_iff]
    constructor
    · rintro ⟨f₁, o, piece, hitem, hp, hr⟩
      cases hitem
      obtain ⟨c, rfl⟩ := copy_value_content valid hp
      obtain ⟨ps, rfl, hps, rfl⟩ := ih.mp hr
      exact ⟨(t, c) :: ps, rfl, List.forall_mem_cons.mpr ⟨hp, hps⟩, by simp⟩
    · rintro ⟨ps, hps, hc, rfl⟩
      obtain ⟨⟨t, c⟩, ps, rfl, rfl, rfl⟩ := List.map_eq_cons_iff.mp hps
      obtain ⟨hc, hrest⟩ := List.forall_mem_cons.mp hc
      exact ⟨_, _, .content c, rfl, hc, ih.mpr ⟨ps, rfl, hrest, by simp⟩⟩

/-- A value is what is copied where there can be no null. -/
theorem copies_some (valid : m.schema.Valid) {type : TypeId} {t : Tree} {c : Option Value}
    (h : m.Copies view false type t c) : ∃ v, c = some v := by
  cases c with
  | none => exact absurd (copy_takes valid t h) Bool.false_ne_true
  | some v => exact ⟨v, rfl⟩

theorem value_entries_iff {type key value : TypeId} {member : Option Nat} {nullable : Bool}
    {layout : Layout} {dict : Dict Value} {k : Value} {f' : MapFrame} {o : Opening} :
    MapFrame.value m ⟨type, view, member, .entries key value nullable layout dict, .keyed k⟩ =
        .ok (f', o) ↔
      ∃ text, m.schema.Text key k text ∧ text ∉ dict.entries.map (·.text) ∧
        f' = ⟨type, view, member, .entries key value nullable layout dict, .entry k text⟩ ∧
        o = ⟨.value value, view, nullable⟩ := by
  constructor
  · intro h
    obtain ⟨text, ht, h⟩ := bind_eq_ok_iff.mp h
    split at h
    · contradiction
    · rename_i hn
      cases h
      exact ⟨text, Model.keyText_eq_ok_iff.mp ht,
        MapFrame.contains_eq_false_iff.mp (by simpa using hn), rfl, rfl⟩
  · rintro ⟨text, ht, hn, rfl, rfl⟩
    refine bind_eq_ok_iff.mpr ⟨text, Model.keyText_eq_ok_iff.mpr ht, ?_⟩
    rw [if_neg (by simpa using MapFrame.contains_eq_false_iff.mpr hn)]

/-- What is copied as the entries of a map. -/
theorem copyEntries_entries_iff (valid : m.schema.Valid) {type key value : TypeId}
    {member : Option Nat} {nullable : Bool} (es : List (Entry Value))
    {entries : List (Tree × Tree)} {f' : MapFrame} (apart : (es.map (·.text)).Nodup) :
    copyEntries m (m.entriesFrame type view member key value nullable es) entries = .ok f' ↔
      ∃ cs : List CopiedEntry, cs.map (fun e => (e.keyTree, e.tree)) = entries ∧
        (∀ e ∈ cs, m.Copies view false key e.keyTree (some e.key) ∧
          m.schema.Text key e.key e.text ∧ m.Copies view nullable value e.tree e.content) ∧
        (es.map (·.text) ++ cs.map (·.text)).Nodup ∧
        f' = m.entriesFrame type view member key value nullable
          (es ++ cs.map (CopiedEntry.stored (m.elementLayout value nullable))) := by
  induction entries generalizing es with
  | nil =>
    rw [copyEntries]
    constructor
    · intro h
      cases h
      exact ⟨[], rfl, List.forall_mem_nil _, by simpa using apart, by simp⟩
    · rintro ⟨cs, hcs, -, -, rfl⟩
      simp [List.map_eq_nil_iff.mp hcs]
  | cons e rest ih =>
    obtain ⟨kt, t⟩ := e
    have apart' (layout : Layout) (e : CopiedEntry) (hn : e.text ∉ es.map (·.text)) :
        ((es ++ [e.stored layout]).map (·.text)).Nodup := by
      rw [List.map_append, List.nodup_append]
      refine ⟨apart, List.nodup_singleton e.text, fun a ha b hb => ?_⟩
      rintro rfl
      exact hn ((List.mem_singleton.mp hb : a = e.text) ▸ ha)
    -- the frame after one more entry
    have hplace (e : CopiedEntry) (hn : e.text ∉ es.map (·.text)) :
        MapFrame.place { m.entriesFrame type view member key value nullable es with
            phase := .entry e.key e.text } (.content e.content) =
          m.entriesFrame type view member key value nullable
            (es ++ [e.stored (m.elementLayout value nullable)]) := by
      have hd : (Dict.mk es).contains e.text = false := MapFrame.contains_eq_false_iff.mpr hn
      simp only [Model.entriesFrame, MapFrame.place, Dict.insert, Dict.insert?, hd]
      rfl
    rw [copyEntries_cons_iff]
    constructor
    · rintro ⟨f₁, ok, kp, f₂, o, piece, hkey, hk, hvalue, hp, hr⟩
      cases hkey
      obtain ⟨kc, rfl⟩ := copy_value_content valid hk
      obtain ⟨k, rfl⟩ := copies_some valid hk
      obtain ⟨text, ht, hn, rfl, rfl⟩ := value_entries_iff.mp hvalue
      obtain ⟨c, rfl⟩ := copy_value_content valid hp
      let e : CopiedEntry := ⟨kt, t, k, text, c⟩
      replace hr := (congrArg (copyEntries m · _) (hplace e hn)).symm.trans hr
      obtain ⟨cs, rfl, hcs, hapart, rfl⟩ := (ih _ (apart' _ e hn)).mp hr
      refine ⟨e :: cs, rfl, List.forall_mem_cons.mpr ⟨⟨hk, ht, hp⟩, hcs⟩, ?_, ?_⟩
      · simpa [CopiedEntry.stored] using hapart
      · simp [e]
    · rintro ⟨cs, hcs, hall, hapart, rfl⟩
      obtain ⟨e, cs, rfl, he, rfl⟩ := List.map_eq_cons_iff.mp hcs
      cases he
      obtain ⟨⟨hk, ht, hp⟩, hrest⟩ := List.forall_mem_cons.mp hall
      have hn : e.text ∉ es.map (·.text) := fun hm =>
        (List.nodup_append.mp hapart).2.2 e.text hm e.text List.mem_cons_self rfl
      refine ⟨_, _, .content (some e.key), _, _, .content e.content, rfl, hk,
        value_entries_iff.mpr ⟨e.text, ht, hn, rfl, rfl⟩, hp, ?_⟩
      refine (congrArg (copyEntries m · _) (hplace e hn)).trans ?_
      refine (ih _ (apart' _ e hn)).mpr ⟨cs, rfl, hrest, ?_, ?_⟩
      · simpa [CopiedEntry.stored] using hapart
      · simp

/-- What is copied as the member of a union. -/
theorem copy_choice_iff (valid : m.schema.Valid) {type : TypeId} {member : Option Nat}
    {members : List TypeId} {repr : UnionRepr} {entries : List (Tree × Tree)} {piece : Piece} :
    (∃ f', copyEntries m ⟨type, view, member, .choice members repr none, .idle⟩ entries = .ok f' ∧
        f'.close m = .ok piece) ↔
      ∃ key i target t v, entries = [(.scalar (.string key), t)] ∧
        m.schema.MemberFound view members repr key i ∧ members[i]? = some target ∧
        m.Copies view false target t (some v) ∧
        piece = .content (some ((Value.union i v).wrap member)) := by
  constructor
  · rintro ⟨f', h, hc⟩
    rcases entries with _ | ⟨⟨k, t⟩, rest⟩
    · cases h
      contradiction
    obtain ⟨f₁, ok, kp, f₂, o, p, hkey, hk, hvalue, hp, hr⟩ := copyEntries_cons_iff.mp h
    cases hkey
    obtain ⟨key, rfl, rfl⟩ := copy_name_iff.mp hk
    obtain ⟨⟨i, o'⟩, ho, hvalue⟩ := bind_eq_ok_iff.mp hvalue
    cases hvalue
    obtain ⟨hfound, -, target, hm, rfl⟩ := Schema.openMember_eq_ok_iff.mp ho
    obtain ⟨c, rfl⟩ := copy_value_content valid hp
    obtain ⟨v, rfl⟩ := copies_some valid hp
    rcases rest with _ | ⟨⟨k', t'⟩, rest⟩
    · cases hr
      cases hc
      exact ⟨key, i, target, t, v, rfl, hfound, hm, hp, rfl⟩
    · -- a second entry finds a member present
      obtain ⟨f₃, ok, kp, f₄, o, p, hkey, hk, hvalue, -⟩ := copyEntries_cons_iff.mp hr
      cases hkey
      obtain ⟨key', rfl, rfl⟩ := copy_name_iff.mp hk
      obtain ⟨⟨j, o'⟩, ho, -⟩ := bind_eq_ok_iff.mp hvalue
      obtain ⟨-, hpresent, -⟩ := Schema.openMember_eq_ok_iff.mp ho
      contradiction
  · rintro ⟨key, i, target, t, v, rfl, hfound, hm, hv, rfl⟩
    have ho : m.schema.openMember type view members repr none key =
        .ok (i, ⟨.value target, view, false⟩) :=
      Schema.openMember_eq_ok_iff.mpr ⟨hfound, rfl, target, hm, rfl⟩
    refine ⟨⟨type, view, member, .choice members repr (some (i, v)), .idle⟩, ?_, rfl⟩
    exact copyEntries_cons_iff.mpr ⟨_, _, _, _, _, .content (some v), rfl,
      copy_name_iff.mpr ⟨key, rfl, rfl⟩, bind_eq_ok_iff.mpr ⟨_, ho, rfl⟩, hv, rfl⟩

end Opening

end DualView
