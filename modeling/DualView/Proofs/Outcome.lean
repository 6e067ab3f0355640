import Mathlib.Data.List.Forall2

/-!
# Outcomes, and lists that go together

What it takes for a computation in `Except` to succeed, step by step, and lemmas on
lists side by side.  Everything about building and reading is opened with these.

* `bind_eq_ok_iff`, `map_eq_ok_iff`, `mapError_eq_ok_iff`: a composite succeeds when its parts do.
* `bind_eq_error_iff`: it fails where the first part fails that does.
* `mapM_eq_ok_iff`: a list of computations succeeds when each of them does.
* `exists_error_of_mapM`: where it fails, the first of them that fails is why.
* `Corresponds`: two computations fail alike, or succeed with results that go together.
* `exists_forall₂_iff`: a choice for each element is a list of choices.
* `forall_mem_zip_iff`: two lists side by side, seen by position.
-/

namespace DualView

variable {ε ε' α β : Type}

/-! ## Outcomes -/

@[simp] theorem pure_eq_ok (a : α) : (pure a : Except ε α) = .ok a := rfl

@[simp] theorem bind_eq_ok_iff {x : Except ε α} {f : α → Except ε β} {b : β} :
    (x >>= f) = .ok b ↔ ∃ a, x = .ok a ∧ f a = .ok b := by
  cases x with
  | error e => simp [bind, Except.bind]
  | ok a => simp [bind, Except.bind]

theorem bind_error {x : Except ε α} {f : α → Except ε β} {e : ε} (h : x = .error e) :
    (x >>= f) = .error e := by
  subst h
  rfl

theorem bind_error_of_ok {x : Except ε α} {f : α → Except ε β} {a : α} {e : ε} (h : x = .ok a)
    (later : f a = .error e) : (x >>= f) = .error e := by
  subst h
  exact later

/-- A composite fails where its first part does, or where the second does after it. -/
theorem bind_eq_error_iff {x : Except ε α} {f : α → Except ε β} {e : ε} :
    (x >>= f) = .error e ↔ x = .error e ∨ ∃ a, x = .ok a ∧ f a = .error e := by
  constructor
  · intro h
    cases x with
    | error e' =>
      cases h
      exact .inl rfl
    | ok a => exact .inr ⟨a, rfl, h⟩
  · rintro (h | ⟨a, h, later⟩)
    · exact bind_error h
    · exact bind_error_of_ok h later

@[simp] theorem map_eq_ok_iff {x : Except ε α} {f : α → β} {b : β} :
    f <$> x = .ok b ↔ ∃ a, x = .ok a ∧ f a = b := by
  cases x with
  | error e => simp [Functor.map, Except.map]
  | ok a => simp [Functor.map, Except.map]

@[simp] theorem mapError_eq_ok_iff {x : Except ε α} {f : ε → ε'} {a : α} :
    x.mapError f = .ok a ↔ x = .ok a := by
  cases x <;> simp [Except.mapError]

theorem mapM_eq_ok_iff {f : α → Except ε β} {l : List α} {r : List β} :
    l.mapM f = .ok r ↔ List.Forall₂ (fun a b => f a = .ok b) l r := by
  induction l generalizing r with
  | nil => simp [eq_comm]
  | cons a l ih =>
    rw [List.mapM_cons, bind_eq_ok_iff, List.forall₂_cons_left_iff]
    constructor
    · rintro ⟨b, hb, hr⟩
      obtain ⟨bs, hbs, he⟩ := bind_eq_ok_iff.mp hr
      exact ⟨b, bs, hb, ih.mp hbs, (Except.ok.inj he).symm⟩
    · rintro ⟨b, bs, hb, hbs, rfl⟩
      exact ⟨b, hb, bind_eq_ok_iff.mpr ⟨bs, ih.mpr hbs, rfl⟩⟩

theorem map_mapError (x : Except ε α) (f : ε → ε') (g : α → β) :
    (g <$> x).mapError f = g <$> x.mapError f := by
  cases x <;> rfl

theorem mapM_congr {f g : α → Except ε β} {l : List α} (agree : ∀ a ∈ l, f a = g a) :
    l.mapM f = l.mapM g := by
  induction l with
  | nil => rfl
  | cons a l ih =>
    rw [List.forall_mem_cons] at agree
    rw [List.mapM_cons, List.mapM_cons, agree.1, ih agree.2]

theorem map_mapM {γ : Type} (g : β → γ) (f : α → Except ε β) (l : List α) :
    List.map g <$> l.mapM f = l.mapM fun a => g <$> f a := by
  induction l with
  | nil => rfl
  | cons a l ih =>
    rw [List.mapM_cons, List.mapM_cons, ← ih]
    cases f a <;> cases l.mapM f <;> rfl

theorem bind_pure_eq_error_iff {x : Except ε α} {f : α → β} {e : ε} :
    (x >>= fun a => pure (f a)) = .error e ↔ x = .error e := by
  cases x <;> simp [bind, Except.bind]

/-- Where a list of computations fails, one of them does, and none before it. -/
theorem exists_error_of_mapM {f : α → Except ε β} {l : List α} {e : ε} (h : l.mapM f = .error e) :
    ∃ (i : Nat) (a : α), l[i]? = some a ∧ f a = .error e ∧
      ∀ j < i, ∀ b, l[j]? = some b → ∃ r, f b = .ok r := by
  induction l with
  | nil => contradiction
  | cons a l ih =>
    rw [List.mapM_cons] at h
    cases ha : f a with
    | error e' =>
      rw [ha] at h
      cases h
      exact ⟨0, a, rfl, ha, nofun⟩
    | ok r =>
      have hl : l.mapM f = .error e := by
        cases hl : l.mapM f with
        | error e' =>
          rw [ha, hl] at h
          exact h
        | ok rs =>
          rw [ha, hl] at h
          contradiction
      obtain ⟨i, a', hi, he, before⟩ := ih hl
      refine ⟨i + 1, a', hi, he, ?_⟩
      intro j hj b hb
      cases j with
      | zero =>
        cases hb
        exact ⟨r, ha⟩
      | succ j => exact before j (Nat.lt_of_succ_lt_succ hj) b hb

/-! ## Outcomes that go together -/

variable {γ δ : Type}

/-- Two computations fail with the same error, or succeed with results that go together. -/
inductive Corresponds (R : α → β → Prop) : Except ε α → Except ε β → Prop
  | error (e : ε) : Corresponds R (.error e) (.error e)
  | ok {a : α} {b : β} (h : R a b) : Corresponds R (.ok a) (.ok b)

namespace Corresponds

variable {R : α → β → Prop} {S : γ → δ → Prop} {x : Except ε α} {y : Except ε β}

theorem error_or_ok (h : Corresponds R x y) :
    (∃ e, x = .error e ∧ y = .error e) ∨ ∃ a b, x = .ok a ∧ y = .ok b ∧ R a b := by
  cases h with
  | error e => exact .inl ⟨e, rfl, rfl⟩
  | ok hab => exact .inr ⟨_, _, rfl, rfl, hab⟩

theorem bind (h : Corresponds R x y) {f : α → Except ε γ} {g : β → Except ε δ}
    (next : ∀ a b, R a b → Corresponds S (f a) (g b)) : Corresponds S (x >>= f) (y >>= g) := by
  cases h with
  | error e => exact .error e
  | ok hab => exact next _ _ hab

theorem map (h : Corresponds R x y) {f : α → γ} {g : β → δ} (next : ∀ a b, R a b → S (f a) (g b)) :
    Corresponds S (f <$> x) (g <$> y) := by
  cases h with
  | error e => exact .error e
  | ok hab => exact .ok (next _ _ hab)

theorem map_eq (h : Corresponds R x y) {f : α → β} (same : ∀ a b, R a b → f a = b) :
    f <$> x = y := by
  cases h with
  | error e => rfl
  | ok hab => exact congrArg Except.ok (same _ _ hab)

theorem imp {S : α → β → Prop} (h : Corresponds R x y) (le : ∀ a b, R a b → S a b) :
    Corresponds S x y := by
  cases h with
  | error e => exact .error e
  | ok hab => exact .ok (le _ _ hab)

theorem mapError (h : Corresponds R x y) (f : ε → ε') :
    Corresponds R (x.mapError f) (y.mapError f) := by
  cases h with
  | error e => exact .error (f e)
  | ok hab => exact .ok hab

end Corresponds

/-- Computations with the same image fail alike, or succeed with results that have it. -/
theorem corresponds_of_map_eq {x : Except ε α} {y : Except ε β} {f : α → γ} {g : β → γ}
    (h : f <$> x = g <$> y) : Corresponds (fun a b => f a = g b) x y := by
  cases x with
  | error e =>
    cases y with
    | error e' =>
      cases h
      exact .error e
    | ok b => contradiction
  | ok a =>
    cases y with
    | error e' => contradiction
    | ok b => exact .ok (Except.ok.inj h)

theorem rel_iff {R : α → β → Prop} {x : Option α} {y : Option β} :
    Option.Rel R x y ↔ (∃ a b, x = some a ∧ y = some b ∧ R a b) ∨ x = none ∧ y = none := by
  constructor
  · rintro (h | _)
    · exact .inl ⟨_, _, rfl, rfl, h⟩
    · exact .inr ⟨rfl, rfl⟩
  · rintro (⟨a, b, rfl, rfl, h⟩ | ⟨rfl, rfl⟩)
    · exact .some h
    · exact .none

/-! ## Lists that go together -/

/-- Something for each element is a list of such things. -/
theorem exists_forall₂_iff {R : α → β → Prop} {l : List α} :
    (∃ r, List.Forall₂ R l r) ↔ ∀ a ∈ l, ∃ b, R a b := by
  induction l with
  | nil => simp
  | cons a l ih =>
    rw [List.forall_mem_cons, ← ih]
    constructor
    · rintro ⟨r, h⟩
      obtain ⟨b, bs, hb, hbs, rfl⟩ := List.forall₂_cons_left_iff.mp h
      exact ⟨⟨b, hb⟩, bs, hbs⟩
    · rintro ⟨⟨b, hb⟩, bs, hbs⟩
      exact ⟨b :: bs, .cons hb hbs⟩

/-- Where two lists go together, so do their elements at each position. -/
theorem getElem?_of_forall₂ {R : α → β → Prop} {l : List α} {r : List β} (h : List.Forall₂ R l r)
    (i : Nat) : Option.Rel R l[i]? r[i]? := by
  induction h generalizing i with
  | nil => exact .none
  | cons hab _ ih =>
    cases i with
    | zero => exact .some hab
    | succ i => exact ih i

theorem map_eq_map_of_forall₂ {R : α → β → Prop} {f : α → γ} {g : β → γ}
    {l : List α} {r : List β} (h : List.Forall₂ R l r) (eq : ∀ a b, R a b → f a = g b) :
    l.map f = r.map g := by
  induction h with
  | nil => rfl
  | cons hab _ ih => rw [List.map_cons, List.map_cons, eq _ _ hab, ih]

theorem exists_map_eq {f : α → γ} {g : β → γ} {P : β → Prop} {l : List α}
    (h : ∀ a ∈ l, ∃ b, g b = f a ∧ P b) : ∃ r : List β, r.map g = l.map f ∧ ∀ b ∈ r, P b := by
  induction l with
  | nil => exact ⟨[], rfl, nofun⟩
  | cons a l ih =>
    obtain ⟨b, hb, hp⟩ := h a List.mem_cons_self
    obtain ⟨r, hr, hps⟩ := ih fun a' ha' => h a' (List.mem_cons_of_mem a ha')
    exact ⟨b :: r, by rw [List.map_cons, List.map_cons, hb, hr], List.forall_mem_cons.mpr ⟨hp, hps⟩⟩

theorem exists_map_eq_self {g : β → α} {P : β → Prop} {l : List α}
    (h : ∀ a ∈ l, ∃ b, g b = a ∧ P b) : ∃ r : List β, r.map g = l ∧ ∀ b ∈ r, P b := by
  obtain ⟨r, hr, hps⟩ := exists_map_eq (f := id) h
  exact ⟨r, by rw [hr, List.map_id], hps⟩

theorem exists_mem_of_map_eq {f : α → γ} {g : β → γ} {l : List α} {r : List β}
    (h : r.map g = l.map f) {a : α} (ha : a ∈ l) : ∃ b ∈ r, g b = f a :=
  List.mem_map.mp (h ▸ List.mem_map_of_mem ha)

/-- Where two lists have the same image, whatever that makes of counterparts holds of both. -/
theorem forall₂_of_map_eq {f : α → γ} {g : β → γ} {R : α → β → Prop} {l : List α} {r : List β}
    (h : l.map f = r.map g) (agree : ∀ a ∈ l, ∀ b ∈ r, f a = g b → R a b) :
    List.Forall₂ R l r := by
  induction l generalizing r with
  | nil =>
    rw [List.map_eq_nil_iff.mp h.symm]
    exact .nil
  | cons a l ih =>
    obtain ⟨b, r, rfl, hb, hr⟩ := List.map_eq_cons_iff.mp h.symm
    have hrest := ih hr.symm fun a' ha' b' hb' =>
      agree a' (List.mem_cons_of_mem a ha') b' (List.mem_cons_of_mem b hb')
    exact .cons (agree a List.mem_cons_self b List.mem_cons_self hb.symm) hrest

theorem rel_of_map_eq {f : α → γ} {g : β → γ} {R : α → β → Prop} {x : Option α} {y : Option β}
    (h : x.map f = y.map g) (agree : ∀ a ∈ x, ∀ b ∈ y, f a = g b → R a b) : Option.Rel R x y := by
  cases x with
  | none =>
    obtain rfl := Option.map_eq_none_iff.mp h.symm
    exact .none
  | some a =>
    obtain ⟨b, rfl, hb⟩ := Option.map_eq_some_iff.mp h.symm
    exact .some (agree a rfl b rfl hb.symm)

/-- Where two lists have the same image, so they have under maps that agree on counterparts. -/
theorem map_eq_of_map_eq {f : α → γ} {g : β → γ} {f' : α → δ} {g' : β → δ} {l : List α}
    {r : List β} (h : l.map f = r.map g)
    (agree : ∀ a ∈ l, ∀ b ∈ r, f a = g b → f' a = g' b) : l.map f' = r.map g' :=
  map_eq_map_of_forall₂ (forall₂_of_map_eq h agree) fun _ _ => id

/-- Where two lists have the same image, so have the parts that are kept alike. -/
theorem map_filter_eq_of_map_eq {f : α → γ} {g : β → γ} {p : α → Bool} {q : β → Bool}
    {f' : α → δ} {g' : β → δ} {l : List α} {r : List β} (h : l.map f = r.map g)
    (agree : ∀ a ∈ l, ∀ b ∈ r, f a = g b → p a = q b ∧ f' a = g' b) :
    (l.filter p).map f' = (r.filter q).map g' := by
  have hopt : l.map (fun a => if p a then some (f' a) else none) =
      r.map fun b => if q b then some (g' b) else none :=
    map_eq_of_map_eq h fun a ha b hb hab => by
      obtain ⟨hp, hf⟩ := agree a ha b hb hab
      rw [hp, hf]
  have kept {ι : Type} (p : ι → Bool) (f : ι → δ) (l : List ι) :
      (l.map fun a => if p a then some (f a) else none).filterMap id = (l.filter p).map f := by
    rw [List.filterMap_map, ← List.filterMap_eq_map, List.filterMap_filter]
    rfl
  rw [← kept, hopt, kept]

theorem nodup_map_zip {κ : Type} {l : List α} {r : List β} (length : r.length = l.length)
    {key : α → κ} (apart : (l.map key).Nodup) : ((l.zip r).map fun p => key p.1).Nodup := by
  rw [← List.map_fst_zip (Nat.le_of_eq length.symm), List.map_map] at apart
  exact apart

/-- What holds of all pairs of a `zip` holds at each position. -/
theorem forall_mem_zip_iff {P : α × β → Prop} {l : List α} {r : List β} :
    (∀ p ∈ l.zip r, P p) ↔
      ∀ (i : Nat) a b, l[i]? = some a → r[i]? = some b → P (a, b) := by
  constructor
  · intro h i a b ha hb
    exact h (a, b) (List.mem_of_getElem? (i := i) (List.getElem?_zip_eq_some.mpr ⟨ha, hb⟩))
  · rintro h ⟨a, b⟩ hp
    obtain ⟨i, hi⟩ := List.mem_iff_getElem?.mp hp
    obtain ⟨ha, hb⟩ := List.getElem?_zip_eq_some.mp hi
    exact h i a b ha hb

end DualView
