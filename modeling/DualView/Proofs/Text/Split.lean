import DualView.Text.Split

/-!
# Splitting is undone by joining

* `join_split`: whatever a text is split at, joining the parts at it gives the text back.

The other direction fails for parts that hold the separator, so it is no law of `split`; where it
holds is a matter of the separator's occurrences.
-/

namespace DualView.Text

theorem pieces_ne_nil (sep : List Char) (skip : Nat) (cs : List Char) : pieces sep skip cs ≠ [] := by
  fun_induction pieces sep skip cs with
  | case1 => simp
  | case2 _ _ _ ih => exact ih
  | case3 => simp
  | case4 _ rest _ ih =>
    cases h : pieces sep 0 rest with
    | nil => exact absurd h ih
    | cons p ps => simp

theorem pieces_skip (sep : List Char) (skip : Nat) (cs : List Char) :
    pieces sep skip cs = pieces sep 0 (cs.drop skip) := by
  induction cs generalizing skip with
  | nil => cases skip <;> simp [pieces]
  | cons c rest ih =>
    cases skip with
    | zero => rfl
    | succ skip => rw [pieces, ih, List.drop_succ_cons]

/-- An occurrence of the separator ends a part. -/
theorem pieces_append {sep : List Char} (h : sep ≠ []) (rest : List Char) :
    pieces sep 0 (sep ++ rest) = [] :: pieces sep 0 rest := by
  obtain ⟨c, sep', rfl⟩ := List.exists_cons_of_ne_nil h
  have hp : (c :: sep').isPrefixOf (c :: (sep' ++ rest)) = true := by
    rw [List.isPrefixOf_iff_prefix, ← List.cons_append]
    exact List.prefix_append _ _
  rw [List.cons_append, pieces, if_pos hp, pieces_skip, List.length_cons, Nat.add_sub_cancel,
    List.drop_left]

theorem intercalate_modifyHead (sep : List Char) (c : Char) {ps : List (List Char)} (h : ps ≠ []) :
    sep.intercalate (ps.modifyHead (c :: ·)) = c :: sep.intercalate ps := by
  obtain ⟨p, ps, rfl⟩ := List.exists_cons_of_ne_nil h
  cases ps with
  | nil => simp
  | cons q ps => simp [List.intercalate_cons_cons]

theorem intercalate_pieces {sep : List Char} (h : sep ≠ []) (cs : List Char) :
    sep.intercalate (pieces sep 0 cs) = cs := by
  induction hn : cs.length using Nat.strongRecOn generalizing cs with
  | ind n ih =>
    cases cs with
    | nil => simp [pieces]
    | cons c rest =>
      by_cases hp : sep.isPrefixOf (c :: rest) = true
      · obtain ⟨t, ht⟩ := List.isPrefixOf_iff_prefix.mp hp
        have hlt : t.length < n := by
          have hl : sep.length + t.length = n := by rw [← hn, ← ht, List.length_append]
          have := List.length_pos_iff.mpr h
          omega
        rw [← ht, pieces_append h, List.intercalate_cons_of_ne_nil (pieces_ne_nil _ _ _),
          ih t.length hlt t rfl, List.nil_append]
      · rw [pieces, if_neg hp, intercalate_modifyHead sep c (pieces_ne_nil _ _ _),
          ih rest.length (by rw [← hn]; exact Nat.lt_succ_self _) rest rfl]

/-- The characters of a separator are lacking only if it is empty. -/
theorem toList_ne_nil {sep : String} (h : sep ≠ "") : sep.toList ≠ [] :=
  fun e => h (String.toList_inj.mp (by simpa using e))

/-- **Joining undoes splitting.** -/
theorem join_split {sep : String} (h : sep ≠ "") (text : String) :
    join sep (split sep text) = text := by
  apply String.toList_inj.mp
  rw [join, split, String.toList_intercalate, List.map_map]
  have hid : (String.toList ∘ String.ofList) = id := by
    funext cs
    exact String.toList_ofList
  rw [hid, List.map_id, intercalate_pieces (toList_ne_nil h)]

end DualView.Text
