import Mathlib.Data.List.Forall2

/-!
# Going through a list with failures

A step that may fail is applied to the members of a list one after the other. The results are the
members' own results in order, and a failure is that of the first member that fails.
-/
namespace RowPolicy.Traversal

variable {α β ε : Type} {f : α → Except ε β}

theorem exists_of_mem_forall₂ {R : α → β → Prop} {xs : List α} {ys : List β}
    (h : List.Forall₂ R xs ys) {x : α} (hx : x ∈ xs) : ∃ y ∈ ys, R x y := by
  induction h with
  | nil => cases hx
  | @cons a b as bs hab _ ih =>
    rcases List.mem_cons.mp hx with rfl | hx
    · exact ⟨b, by simp, hab⟩
    · obtain ⟨y, hy, hxy⟩ := ih hx
      exact ⟨y, by simp [hy], hxy⟩

/-- A recursion that takes the members one by one and stops at the first failure goes through the
list. -/
theorem eq_mapM (go : List α → Except ε (List β)) (hnil : go [] = .ok [])
    (hcons : ∀ x xs, go (x :: xs) =
      match f x with
      | .error e => .error e
      | .ok y =>
        match go xs with
        | .error e => .error e
        | .ok ys => .ok (y :: ys)) (xs : List α) : go xs = xs.mapM f := by
  induction xs with
  | nil => exact hnil
  | cons x xs ih =>
    rw [hcons, List.mapM_cons, ih]
    cases f x with
    | error e => rfl
    | ok y => cases xs.mapM f <;> rfl

theorem mapM_cons_eq_ok_iff {x : α} {xs : List α} {zs : List β} :
    (x :: xs).mapM f = .ok zs ↔ ∃ y ys, f x = .ok y ∧ xs.mapM f = .ok ys ∧ zs = y :: ys := by
  cases h : f x <;> cases hs : xs.mapM f <;>
    simp [List.mapM_cons, h, hs, bind, Except.bind, pure, Except.pure, eq_comm]

theorem mapM_cons_eq_error_iff {x : α} {xs : List α} {e : ε} :
    (x :: xs).mapM f = .error e ↔
      f x = .error e ∨ (∃ y, f x = .ok y) ∧ xs.mapM f = .error e := by
  cases h : f x <;> cases hs : xs.mapM f <;>
    simp [List.mapM_cons, h, hs, bind, Except.bind, pure, Except.pure]

theorem mapM_eq_ok_iff {xs : List α} {ys : List β} :
    xs.mapM f = .ok ys ↔ List.Forall₂ (fun x y => f x = .ok y) xs ys := by
  induction xs generalizing ys with
  | nil => cases ys <;> simp [pure, Except.pure]
  | cons x xs ih =>
    rw [mapM_cons_eq_ok_iff, List.forall₂_cons_left_iff]
    simp [ih]

theorem exists_mapM_eq_ok_iff {xs : List α} :
    (∃ ys, xs.mapM f = .ok ys) ↔ ∀ x ∈ xs, ∃ y, f x = .ok y := by
  induction xs with
  | nil => simp [pure, Except.pure]
  | cons x xs ih =>
    rw [List.forall_mem_cons, ← ih]
    constructor
    · rintro ⟨_, h⟩
      obtain ⟨y, ys, hy, hys, -⟩ := mapM_cons_eq_ok_iff.mp h
      exact ⟨⟨y, hy⟩, ys, hys⟩
    · rintro ⟨⟨y, hy⟩, ys, hys⟩
      exact ⟨_, mapM_cons_eq_ok_iff.mpr ⟨y, ys, hy, hys, rfl⟩⟩

/-- The failing member, with successes only before it. -/
theorem mapM_eq_error_iff {xs : List α} {e : ε} :
    xs.mapM f = .error e ↔ ∃ before x after, xs = before ++ x :: after ∧
      (∀ y ∈ before, ∃ b, f y = .ok b) ∧ f x = .error e := by
  induction xs with
  | nil => simp [pure, Except.pure]
  | cons x xs ih =>
    rw [mapM_cons_eq_error_iff, ih]
    constructor
    · rintro (fails | ⟨fine, before, y, after, rfl, hb, fails⟩)
      · exact ⟨[], x, xs, rfl, by simp, fails⟩
      · exact ⟨x :: before, y, after, rfl, by simpa using ⟨fine, hb⟩, fails⟩
    · rintro ⟨before, y, after, split, hb, fails⟩
      cases before with
      | nil => cases split; exact .inl fails
      | cons z before =>
        cases split
        have ⟨fine, hb⟩ := List.forall_mem_cons.mp hb
        exact .inr ⟨fine, before, y, after, rfl, hb, fails⟩

/-! ## Parts of the members -/

theorem exists_eq_error_iff {x : Except ε β} : (∃ e, x = .error e) ↔ ¬∃ y, x = .ok y := by
  cases x <;> simp

theorem mapM_append_eq_error_iff {xs ys : List α} {e : ε} :
    (xs ++ ys).mapM f = .error e ↔
      xs.mapM f = .error e ∨ (∃ zs, xs.mapM f = .ok zs) ∧ ys.mapM f = .error e := by
  rw [List.mapM_append]
  cases h : xs.mapM f <;> cases hs : ys.mapM f <;>
    simp [bind, Except.bind, pure, Except.pure]

/-- Where each member fails as its parts do, one after the other, the list fails as all parts of
its members do. -/
theorem mapM_flatMap_eq_error_iff {γ δ : Type} {g : α → Except ε γ} {parts : α → List β}
    {f : β → Except ε δ} (hparts : ∀ x e, g x = .error e ↔ (parts x).mapM f = .error e)
    (xs : List α) (e : ε) : (xs.flatMap parts).mapM f = .error e ↔ xs.mapM g = .error e := by
  induction xs with
  | nil => simp [pure, Except.pure]
  | cons x xs ih =>
    have hok : (∃ ys, (parts x).mapM f = .ok ys) ↔ ∃ y, g x = .ok y := by
      rw [← not_iff_not, ← exists_eq_error_iff, ← exists_eq_error_iff]
      simp only [hparts]
    rw [List.flatMap_cons, mapM_append_eq_error_iff, mapM_cons_eq_error_iff, hparts, hok, ih]

end RowPolicy.Traversal
