import DualView.Proofs.Text.Split
import Mathlib.Data.List.Infix

/-!
# Occurrences of a separator

Splitting takes the occurrences of a separator from the left, and none that overlaps one already
taken.  So it need not find the separators that joining has put between the parts: where `xa` is
joined to `b` at `aa`, the first `aa` begins inside the first part.  But it finds as many occurrences
as stand side by side, however they are chosen.

* `length_pieces_append_le`: a text splits into no fewer pieces than what stands before and after
  one of its separators.
* `length_lt_length_split_join`: joined parts split into more pieces than there are, if one of them
  holds the separator.
* `split_join_iff`: parts that do not hold the separator are split where they were joined exactly
  if no part runs into the separator after it.
* `unbordered_iff`: no part does so if no beginning of the separator is an end of it; for any other
  separator, some part does.
-/

namespace DualView.Text

/-! ## Texts and separators -/

def Holds (sep text : String) : Prop := sep.toList <:+: text.toList

/-- A text that is followed by a separator holds the separator before that one is complete. -/
def RunsInto (sep text : String) : Prop := sep.toList <:+: text.toList ++ sep.toList.dropLast

/-- No beginning of a separator is an end of it, but the whole. -/
def Unbordered (sep : String) : Prop :=
  ∀ b, b ≠ [] → b <+: sep.toList → b <:+ sep.toList → b = sep.toList

instance (sep text : String) : Decidable (Holds sep text) :=
  inferInstanceAs (Decidable (_ <:+: _))

instance (sep text : String) : Decidable (RunsInto sep text) :=
  inferInstanceAs (Decidable (_ <:+: _))

variable {sep : List Char}

/-! ## One piece -/

theorem length_pieces_pos (sep cs : List Char) : 0 < (pieces sep 0 cs).length :=
  List.length_pos_iff.mpr (pieces_ne_nil sep 0 cs)

theorem pieces_cons {c : Char} {rest : List Char} (h : ¬ sep <+: c :: rest) :
    pieces sep 0 (c :: rest) = (pieces sep 0 rest).modifyHead (c :: ·) := by
  rw [← List.isPrefixOf_iff_prefix] at h
  rw [pieces, if_neg h]

theorem pieces_eq_singleton {cs : List Char} (h : ¬ sep <:+: cs) : pieces sep 0 cs = [cs] := by
  induction cs with
  | nil => rfl
  | cons c rest ih =>
    rw [List.infix_cons_iff, not_or] at h
    rw [pieces_cons h.1, ih h.2]
    rfl

theorem dropLast_isPrefix (sep part rest : List Char) :
    part ++ sep.dropLast <+: part ++ sep ++ rest :=
  ((List.prefix_append_right_inj part).mpr (List.dropLast_prefix sep)).trans
    (List.prefix_append _ rest)

/-- What does not run into the separator after it is the first piece. -/
theorem pieces_append_sep (h : sep ≠ []) {part : List Char} (clear : ¬ sep <:+: part ++ sep.dropLast)
    (rest : List Char) : pieces sep 0 (part ++ sep ++ rest) = part :: pieces sep 0 rest := by
  induction part with
  | nil => exact pieces_append h rest
  | cons c part ih =>
    rw [List.cons_append, List.infix_cons_iff, not_or] at clear
    have outside : ¬ sep <+: c :: (part ++ sep ++ rest) := by
      intro occurs
      have short : c :: (part ++ sep.dropLast) <+: c :: (part ++ sep ++ rest) :=
        dropLast_isPrefix sep (c :: part) rest
      refine clear.1 (List.prefix_of_prefix_length_le occurs short ?_)
      rw [List.length_cons, List.length_append, List.length_dropLast]
      omega
    rw [List.cons_append, List.cons_append, pieces_cons outside, ih clear.2]
    rfl

/-! ## The number of pieces -/

/-- An occurrence at the front is one piece more than what stands after it. -/
theorem length_pieces_of_occurs (h : sep ≠ []) {cs : List Char} (occurs : sep <+: cs) :
    (pieces sep 0 cs).length = (pieces sep 0 (cs.drop sep.length)).length + 1 := by
  obtain ⟨rest, rfl⟩ := occurs
  rw [pieces_append h, List.length_cons, List.drop_left]

theorem length_pieces_cons {c : Char} {rest : List Char} (h : ¬ sep <+: c :: rest) :
    (pieces sep 0 (c :: rest)).length = (pieces sep 0 rest).length := by
  rw [pieces_cons h, List.length_modifyHead]

/-- What is taken off the front of a text does not add pieces, and it takes no more than one away
if it is no longer than the separator. -/
theorem length_pieces_drop (h : sep ≠ []) (cs : List Char) :
    (∀ k, (pieces sep 0 (cs.drop k)).length ≤ (pieces sep 0 cs).length) ∧
      ∀ k ≤ sep.length, (pieces sep 0 cs).length ≤ (pieces sep 0 (cs.drop k)).length + 1 := by
  -- each of the two bounds needs the other one for a shorter text
  induction hn : cs.length using Nat.strongRecOn generalizing cs with
  | ind n ih =>
    cases cs with
    | nil => simp
    | cons c rest =>
      have shorter : rest.length < n := by
        rw [← hn, List.length_cons]
        omega
      obtain ⟨fewer, oneLess⟩ := ih rest.length shorter rest rfl
      by_cases occurs : sep <+: c :: rest
      · have pos : 0 < sep.length := List.length_pos_iff.mpr h
        have count := length_pieces_of_occurs h occurs
        constructor
        · intro k
          cases k with
          | zero => exact Nat.le_refl _
          | succ k =>
            have tail : (c :: rest).drop sep.length = rest.drop (sep.length - 1) := by
              rw [List.drop_cons pos]
            have first := oneLess (sep.length - 1) (by omega)
            have later := fewer k
            rw [List.drop_succ_cons, count, tail]
            omega
        · intro k hk
          cases k with
          | zero => exact Nat.le_succ _
          | succ k =>
            have tail : (c :: rest).drop sep.length = (rest.drop k).drop (sep.length - (k + 1)) := by
              rw [List.drop_cons pos, List.drop_drop]
              exact congrArg rest.drop (by omega)
            have below : (rest.drop k).length < n := by
              rw [List.length_drop]
              omega
            have kept := (ih _ below (rest.drop k) rfl).1 (sep.length - (k + 1))
            rw [List.drop_succ_cons, count, tail]
            omega
      · rw [length_pieces_cons occurs]
        constructor
        · intro k
          cases k with
          | zero => exact Nat.le_of_eq (length_pieces_cons occurs)
          | succ k => exact fewer k
        · intro k hk
          cases k with
          | zero =>
            rw [List.drop_zero, length_pieces_cons occurs]
            exact Nat.le_succ _
          | succ k => exact oneLess k (by omega)

/-- **A text splits into no fewer pieces than what stands before and after one of its separators**,
whether or not splitting finds that separator. -/
theorem length_pieces_append_le (h : sep ≠ []) (before after : List Char) :
    (pieces sep 0 before).length + (pieces sep 0 after).length ≤
      (pieces sep 0 (before ++ sep ++ after)).length := by
  induction hn : before.length using Nat.strongRecOn generalizing before with
  | ind n ih =>
    have pos : 0 < sep.length := List.length_pos_iff.mpr h
    cases before with
    | nil =>
      rw [List.nil_append, pieces_append h, pieces, List.length_singleton, List.length_cons]
      omega
    | cons c rest =>
      by_cases occurs : sep <+: c :: rest ++ sep ++ after
      · have count := length_pieces_of_occurs h occurs
        by_cases fits : sep.length ≤ (c :: rest).length
        · -- the occurrence lies before the separator
          have inside : sep <+: c :: rest := by
            rw [List.append_assoc] at occurs
            exact List.prefix_of_prefix_length_le occurs (List.prefix_append _ _) fits
          have below : ((c :: rest).drop sep.length).length < n := by
            rw [List.length_drop]
            omega
          have later := ih _ below ((c :: rest).drop sep.length) rfl
          rw [length_pieces_of_occurs h inside, count, List.append_assoc (c :: rest),
            List.drop_append_of_le_length fits, ← List.append_assoc]
          omega
        · -- it reaches into the separator, so what stands before that holds none
          have whole : pieces sep 0 (c :: rest) = [c :: rest] :=
            pieces_eq_singleton fun inside => fits inside.length_le
          have after_eq : after =
              ((c :: rest ++ sep ++ after).drop sep.length).drop (c :: rest).length := by
            rw [List.drop_drop, Nat.add_comm, ← List.length_append, List.drop_left]
          have fewer := (length_pieces_drop h
            ((c :: rest ++ sep ++ after).drop sep.length)).1 (c :: rest).length
          rw [← after_eq] at fewer
          rw [whole, count, List.length_singleton]
          omega
      · have outside : ¬ sep <+: c :: rest := by
          intro inside
          apply occurs
          rw [List.append_assoc]
          exact inside.trans (List.prefix_append _ _)
        have shorter : rest.length < n := by
          rw [← hn, List.length_cons]
          omega
        have later := ih rest.length shorter rest rfl
        rw [List.cons_append, List.cons_append] at occurs ⊢
        rw [length_pieces_cons outside, length_pieces_cons occurs]
        exact later

theorem one_lt_length_pieces (h : sep ≠ []) {cs : List Char} (holds : sep <:+: cs) :
    1 < (pieces sep 0 cs).length := by
  obtain ⟨before, after, rfl⟩ := holds
  have both := length_pieces_append_le h before after
  have first := length_pieces_pos sep before
  have second := length_pieces_pos sep after
  omega

/-! ## Joined parts -/

variable {parts : List (List Char)}

theorem length_le_length_pieces (h : sep ≠ []) (parts : List (List Char)) :
    parts.length ≤ (pieces sep 0 (sep.intercalate parts)).length := by
  induction parts with
  | nil => exact Nat.zero_le _
  | cons p rest ih =>
    cases rest with
    | nil => exact length_pieces_pos _ _
    | cons q rest =>
      have both := length_pieces_append_le h p (sep.intercalate (q :: rest))
      have first := length_pieces_pos sep p
      rw [List.intercalate_cons_cons, List.length_cons]
      omega

theorem length_lt_length_pieces (h : sep ≠ []) (holds : ∃ p ∈ parts, sep <:+: p) :
    parts.length < (pieces sep 0 (sep.intercalate parts)).length := by
  induction parts with
  | nil => simp at holds
  | cons p rest ih =>
    rw [List.exists_mem_cons_iff] at holds
    cases rest with
    | nil =>
      have inside : sep <:+: p := by simpa using holds
      rw [List.intercalate_singleton]
      exact one_lt_length_pieces h inside
    | cons q rest =>
      have both := length_pieces_append_le h p (sep.intercalate (q :: rest))
      rw [List.intercalate_cons_cons, List.length_cons]
      rcases holds with inside | later
      · have first := one_lt_length_pieces h inside
        have rest_le := length_le_length_pieces h (q :: rest)
        omega
      · have first := length_pieces_pos sep p
        have rest_lt := ih later
        omega

/-! ## Where joined parts are split -/

/-- Parts lie in a text as splitting would cut it: none of them but the last runs into the separator
after it, and the last does not hold it. -/
def Cut (sep : List Char) : List (List Char) → Prop
  | [] => False
  | [p] => ¬ sep <:+: p
  | p :: q :: rest => ¬ sep <:+: p ++ sep.dropLast ∧ Cut sep (q :: rest)

theorem Cut.nil_cons (h : sep ≠ []) (cut : Cut sep parts) : Cut sep ([] :: parts) := by
  cases parts with
  | nil => exact cut.elim
  | cons p rest =>
    refine ⟨fun inside => ?_, cut⟩
    have short := inside.length_le
    have pos := List.length_pos_iff.mpr h
    rw [List.nil_append, List.length_dropLast] at short
    omega

theorem Cut.cons {c : Char} (cut : Cut sep parts) (begins : ¬ sep <+: c :: sep.intercalate parts) :
    Cut sep (parts.modifyHead (c :: ·)) := by
  cases parts with
  | nil => exact cut.elim
  | cons p rest =>
    cases rest with
    | nil =>
      rw [List.intercalate_singleton] at begins
      rw [List.modifyHead_cons, Cut, List.infix_cons_iff, not_or]
      exact ⟨begins, cut⟩
    | cons q rest =>
      rw [List.intercalate_cons_cons] at begins
      rw [List.modifyHead_cons, Cut, List.cons_append, List.infix_cons_iff, not_or]
      refine ⟨⟨fun inside => begins ?_, cut.1⟩, cut.2⟩
      exact inside.trans (dropLast_isPrefix sep (c :: p) _)

/-- **What a text is split into lies in it so.** -/
theorem cut_pieces (h : sep ≠ []) (cs : List Char) : Cut sep (pieces sep 0 cs) := by
  induction hn : cs.length using Nat.strongRecOn generalizing cs with
  | ind n ih =>
    cases cs with
    | nil =>
      rw [pieces, Cut, List.infix_nil]
      exact h
    | cons c rest =>
      by_cases occurs : sep <+: c :: rest
      · obtain ⟨after, ht⟩ := occurs
        have below : after.length < n := by
          have total := congrArg List.length ht
          have pos := List.length_pos_iff.mpr h
          rw [List.length_append, hn] at total
          omega
        rw [← ht, pieces_append h]
        exact (ih after.length below after rfl).nil_cons h
      · have shorter : rest.length < n := by
          rw [← hn, List.length_cons]
          omega
        rw [pieces_cons occurs]
        refine (ih rest.length shorter rest rfl).cons ?_
        rw [intercalate_pieces h]
        exact occurs

/-- **Joined parts are what splitting gives exactly if they lie in the text as it would cut it.** -/
theorem pieces_intercalate_iff (h : sep ≠ []) :
    pieces sep 0 (sep.intercalate parts) = parts ↔ Cut sep parts := by
  constructor
  · intro undone
    rw [← undone]
    exact cut_pieces h _
  · intro cut
    induction parts with
    | nil => exact cut.elim
    | cons p rest ih =>
      cases rest with
      | nil => rw [List.intercalate_singleton, pieces_eq_singleton cut]
      | cons q rest =>
        rw [List.intercalate_cons_cons, pieces_append_sep h cut.1, ih cut.2]

theorem cut_iff_of_free (ne : parts ≠ []) (free : ∀ p ∈ parts, ¬ sep <:+: p) :
    Cut sep parts ↔ ∀ p ∈ parts.dropLast, ¬ sep <:+: p ++ sep.dropLast := by
  induction parts with
  | nil => contradiction
  | cons p rest ih =>
    rw [List.forall_mem_cons] at free
    cases rest with
    | nil => simpa [Cut] using free.1
    | cons q rest =>
      rw [Cut, ih (List.cons_ne_nil q rest) free.2, List.dropLast_cons_cons, List.forall_mem_cons]

/-! ## Borders -/

/-- A text that does not hold the separator runs into it only over a border of the separator: an end
of it that is a beginning too. -/
theorem exists_border {part : List Char} (free : ¬ sep <:+: part)
    (runs : sep <:+: part ++ sep.dropLast) : ∃ b, b ≠ [] ∧ b <+: sep ∧ b <:+ sep ∧ b ≠ sep := by
  obtain ⟨before, after, eq⟩ := runs
  have pos : 0 < sep.length := List.length_pos_iff.mpr fun e => free (e ▸ List.nil_infix)
  rw [List.append_assoc] at eq
  rcases List.append_eq_append_iff.mp eq with ⟨inPart, rfl, hrest⟩ | ⟨beyond, -, hbeyond⟩
  · rcases List.append_eq_append_iff.mp hrest with ⟨rest, rfl, -⟩ | ⟨b, hb, hend⟩
    · exact absurd ⟨before, rest, List.append_assoc ..⟩ free
    · have short : b.length < sep.length := by
        have total := congrArg List.length hend
        rw [List.length_append, List.length_dropLast] at total
        omega
      refine ⟨b, ?_, ?_, ⟨inPart, hb.symm⟩, fun e => absurd (congrArg List.length e) short.ne⟩
      · rintro rfl
        rw [List.append_nil] at hb
        exact free ⟨before, [], by rw [hb, List.append_nil]⟩
      · exact (hend ▸ List.prefix_append b after).trans (List.dropLast_prefix sep)
  · -- the occurrence would begin after the part, where there is no room for it
    have room := congrArg List.length hbeyond
    rw [List.length_append, List.length_append, List.length_dropLast] at room
    omega

/-- What a separator begins with before a border runs into the separator. -/
theorem runs_of_border {front b : List Char} (border : b <+: front ++ b) (ne : front ≠ []) :
    front ++ b <:+: front ++ (front ++ b).dropLast := by
  have short : b.length ≤ (front ++ b).dropLast.length := by
    have pos := List.length_pos_iff.mpr ne
    rw [List.length_dropLast, List.length_append]
    omega
  have inside : b <+: (front ++ b).dropLast :=
    List.prefix_of_prefix_length_le border (List.dropLast_prefix _) short
  exact ((List.prefix_append_right_inj front).mpr inside).isInfix

/-- **Nothing runs into a separator without borders, and into any other something does.** -/
theorem unbordered_iff {sep : String} :
    Unbordered sep ↔ ∀ text, ¬ Holds sep text → ¬ RunsInto sep text := by
  constructor
  · intro unbordered text free runs
    obtain ⟨b, ne, first, last, short⟩ := exists_border free runs
    exact short (unbordered b ne first last)
  · intro clear b ne first last
    by_contra short
    obtain ⟨front, hf⟩ := last
    have some : front ≠ [] := fun e => short (by rw [← hf, e, List.nil_append])
    have free : ¬ Holds sep (String.ofList front) := by
      intro inside
      have length_le := inside.length_le
      have pos := List.length_pos_iff.mpr ne
      rw [← hf, String.toList_ofList, List.length_append] at length_le
      omega
    refine clear (String.ofList front) free ?_
    rw [RunsInto, String.toList_ofList, ← hf]
    exact runs_of_border (hf ▸ first) some

/-! ## Strings -/

section Strings

variable {sep : String} {parts : List String}

theorem split_join_eq (sep : String) (parts : List String) :
    split sep (join sep parts) =
      (pieces sep.toList 0 (sep.toList.intercalate (parts.map String.toList))).map
        String.ofList := by
  rw [split, join, String.toList_intercalate]

/-- **Joined parts split into more than there are if one of them holds the separator.** -/
theorem length_lt_length_split_join (h : sep ≠ "") (holds : ∃ p ∈ parts, Holds sep p) :
    parts.length < (split sep (join sep parts)).length := by
  obtain ⟨p, hp, inside⟩ := holds
  have pieces_lt := length_lt_length_pieces (toList_ne_nil h)
    ⟨p.toList, List.mem_map_of_mem hp, inside⟩
  rwa [split_join_eq, List.length_map, ← List.length_map String.toList]

/-- **Parts that do not hold the separator are split where they were joined exactly if none but the
last runs into the separator after it.** -/
theorem split_join_iff (h : sep ≠ "") (ne : parts ≠ []) (free : ∀ p ∈ parts, ¬ Holds sep p) :
    split sep (join sep parts) = parts ↔ ∀ p ∈ parts.dropLast, ¬ RunsInto sep p := by
  have undone : split sep (join sep parts) = parts ↔
      pieces sep.toList 0 (sep.toList.intercalate (parts.map String.toList)) =
        parts.map String.toList := by
    have inverse : Function.Injective (List.map String.ofList) :=
      List.map_injective_iff.mpr fun _ _ => String.ofList_inj.mp
    have whole : (parts.map String.toList).map String.ofList = parts := by
      rw [List.map_map]
      exact (List.map_congr_left fun p _ => String.ofList_toList).trans (List.map_id parts)
    rw [split_join_eq, ← inverse.eq_iff, whole]
  rw [undone, pieces_intercalate_iff (toList_ne_nil h),
    cut_iff_of_free (by simpa using ne) (List.forall_mem_map.mpr free), ← List.map_dropLast,
    List.forall_mem_map]
  rfl

end Strings

end DualView.Text
