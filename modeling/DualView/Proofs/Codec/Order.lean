import DualView.Proofs.Assembly.Copying
import Mathlib.Data.List.Sort

/-!
# Declaration order

Fields may be given in any order, and each finds its slot.  Read back, they come in the order in
which they are declared.

* `inOrder`: a list in the order of numbers that belong to its elements.
* `present_filled_eq`: the fields that are given, read back, are in the order of their positions.
-/

namespace DualView

variable {α β γ : Type}

/-- The elements in the order of the numbers that belong to them. -/
def inOrder (number : α → Nat) (l : List α) : List α :=
  l.insertionSort fun a b => number a ≤ number b

theorem inOrder_perm (number : α → Nat) (l : List α) : (inOrder number l).Perm l :=
  List.perm_insertionSort _ l

theorem inOrder_pairwise (number : α → Nat) (l : List α) :
    (inOrder number l).Pairwise fun a b => number a ≤ number b := by
  have total : Std.Total fun a b : α => number a ≤ number b := ⟨fun _ _ => Nat.le_total ..⟩
  have trans : IsTrans α fun a b => number a ≤ number b := ⟨fun _ _ _ => Nat.le_trans⟩
  exact List.pairwise_insertionSort _ l

theorem inOrder_map (number : β → Nat) (f : α → β) (l : List α) :
    inOrder number (l.map f) = (inOrder (fun a => number (f a)) l).map f :=
  (List.map_insertionSort _ _ f l fun _ _ _ _ => Iff.rfl).symm

/-- Numbered elements in order, each number once, are determined by what they are. -/
theorem eq_of_perm_of_pairwise {l r : List (Nat × β)} (once : (l.map (·.1)).Nodup)
    (hl : l.Pairwise fun a b => a.1 ≤ b.1) (hr : r.Pairwise fun a b => a.1 ≤ b.1)
    (perm : l.Perm r) : l = r := by
  refine List.Perm.eq_of_pairwise (fun a b ha hb hab hba => ?_) hl hr perm
  exact List.inj_on_of_nodup_map once ha (perm.mem_iff.mpr hb) (Nat.le_antisymm hab hba)

def presentAt (fields : List (Field TypeId)) (slots : List (Slot Value)) :
    List ((Field TypeId × Slot Value) × Nat) :=
  (fields.zip slots).zipIdx.filter fun x => !x.1.2.isAbsent

theorem present_eq_map_presentAt (fields : List (Field TypeId)) (slots : List (Slot Value)) :
    present fields slots = (presentAt fields slots).map (·.1) := by
  have := List.filter_map (f := Prod.fst) (p := fun p : Field TypeId × Slot Value => !p.2.isAbsent)
    (l := (fields.zip slots).zipIdx)
  rwa [List.zipIdx_map_fst] at this

theorem mem_presentAt_iff {fields : List (Field TypeId)} {slots : List (Slot Value)}
    {f : Field TypeId} {slot : Slot Value} {i : Nat} :
    ((f, slot), i) ∈ presentAt fields slots ↔
      fields[i]? = some f ∧ slots[i]? = some slot ∧ slot.isAbsent = false := by
  rw [presentAt, List.mem_filter, List.mem_zipIdx_iff_getElem?, List.getElem?_zip_eq_some]
  simp [and_assoc]

theorem presentAt_pairwise (fields : List (Field TypeId)) (slots : List (Slot Value)) :
    (presentAt fields slots).Pairwise fun a b => a.2 < b.2 := by
  refine List.Pairwise.filter _ ?_
  rw [← List.pairwise_map, List.zipIdx_map_snd]
  exact List.pairwise_lt_range' 1

variable {m : Model} {type : TypeId} {fields : List (Field TypeId)} {ps : List CopiedField}

theorem lookup_given {p : CopiedField} (apart : (ps.map (·.index)).Nodup) (hp : p ∈ ps) :
    (ps.map CopiedField.given).lookup p.index = some p.content := by
  rw [lookup_eq_some_iff_mem (by rwa [map_given_index])]
  exact List.mem_map_of_mem (f := CopiedField.given) hp

theorem getElem?_filled_given {p : CopiedField} (apart : (ps.map (·.index)).Nodup) (hp : p ∈ ps)
    {f : Field TypeId} (hf : fields[p.index]? = some f) :
    (m.filled type fields (ps.map CopiedField.given))[p.index]? =
      some ⟨m.fieldLayout type p.index, .given p.content⟩ := by
  rw [getElem?_filled, hf, lookup_given apart hp]
  rfl

/-- **The fields that are given, read back, come in the order of their positions**, whatever order
they are shown in. -/
theorem present_filled_eq {ks : List (String × CopiedField)}
    (apart : (ks.map (·.2.index)).Nodup) (bound : ∀ p ∈ ks, p.2.index < fields.length)
    {g : Field TypeId × Slot Value → β} {number : α → Nat} {out : α → β}
    {image : String × CopiedField → γ} {image' : α → γ} {xs : List α}
    (shown : ks.map image = xs.map image')
    (agree : ∀ p ∈ ks, ∀ x ∈ xs, image p = image' x → number x = p.2.index ∧
      ∀ f, fields[p.2.index]? = some f →
        out x = g (f, ⟨m.fieldLayout type p.2.index, .given p.2.content⟩)) :
    (present fields (m.filled type fields ((ks.map (·.2)).map CopiedField.given))).map g =
      (inOrder number xs).map out := by
  let slots := m.filled type fields ((ks.map (·.2)).map CopiedField.given)
  have indices : (ks.map (·.2)).map (·.index) = ks.map (·.2.index) := List.map_map
  have apart' : ((ks.map (·.2)).map (·.index)).Nodup := indices ▸ apart
  let ys := (presentAt fields slots).map fun x => (x.2, g x.1)
  have hys : (ys.map (·.1)).Pairwise (· < ·) := by
    rw [List.map_map, List.pairwise_map]
    exact presentAt_pairwise fields slots
  let zs := xs.map fun x => (number x, out x)
  have hzs : (zs.map (·.1)).Nodup := by
    have : ks.map (·.2.index) = xs.map number :=
      map_eq_of_map_eq shown fun p hp x hx he => (agree p hp x hx he).1.symm
    rw [List.map_map]
    exact this ▸ apart
  have hmem : ∀ y, y ∈ ys ↔ y ∈ zs := by
    rintro ⟨i, b⟩
    constructor
    · intro hy
      obtain ⟨⟨⟨f, slot⟩, j⟩, hx, he⟩ := List.mem_map.mp hy
      cases he
      obtain ⟨hf, hs, ha⟩ := mem_presentAt_iff.mp hx
      have hin : j ∈ ((ks.map (·.2)).map CopiedField.given).map (·.1) := by
        by_contra hn
        rw [(isAbsent_filled_iff hs).mpr hn] at ha
        contradiction
      rw [map_given_index, indices] at hin
      obtain ⟨p, hp, rfl⟩ := List.mem_map.mp hin
      obtain rfl := Option.some.inj
        ((getElem?_filled_given apart' (List.mem_map_of_mem hp) hf).symm.trans hs)
      obtain ⟨x, hx, he⟩ := exists_mem_of_map_eq shown.symm hp
      obtain ⟨hn, ho⟩ := agree p hp x hx he.symm
      exact List.mem_map.mpr ⟨x, hx, by rw [hn, ho f hf]⟩
    · intro hy
      obtain ⟨x, hx, he⟩ := List.mem_map.mp hy
      cases he
      obtain ⟨p, hp, he⟩ := exists_mem_of_map_eq shown hx
      obtain ⟨hn, ho⟩ := agree p hp x hx he
      have hf := List.getElem?_eq_getElem (bound p hp)
      refine List.mem_map.mpr ⟨((_, _), p.2.index), mem_presentAt_iff.mpr
        ⟨hf, getElem?_filled_given apart' (List.mem_map_of_mem hp) hf, given_isAbsent _⟩, ?_⟩
      rw [hn, ho _ hf]
  have once : (ys.map (·.1)).Nodup := hys.imp Nat.ne_of_lt
  have hperm : ys.Perm ((inOrder number xs).map fun x => (number x, out x)) :=
    ((List.perm_ext_iff_of_nodup (.of_map _ once) (.of_map _ hzs)).mpr hmem).trans
      ((inOrder_perm number xs).symm.map _)
  have heq : ys = (inOrder number xs).map fun x => (number x, out x) :=
    eq_of_perm_of_pairwise once ((List.pairwise_map.mp hys).imp Nat.le_of_lt)
      (List.pairwise_map.mpr (inOrder_pairwise number xs)) hperm
  calc (present fields slots).map g
    _ = ys.map (·.2) := by rw [present_eq_map_presentAt, List.map_map, List.map_map]; rfl
    _ = (inOrder number xs).map out := by rw [heq, List.map_map]; rfl

end DualView
