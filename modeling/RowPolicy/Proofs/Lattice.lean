import Mathlib.Order.Lattice
import RowPolicy.Predicate.Evaluation

/-!
# The lattice of truth values

The truth values are ordered from what is known to be false over what is unknown to what is known
to be true. A conjunction is the minimum of its operands and a disjunction the maximum, and a
negation turns the order around. So filters obey the laws of a distributive lattice and those of
De Morgan on every row, whichever operand is looked at first, and a part of a filter may be replaced
by any other of the same truth.

The main statement is `Predicate.eval_connectives`.
-/
namespace RowPolicy

namespace Truth

/-- The place of a value in the order. -/
def rank : Truth → Nat
  | no => 0
  | unknown => 1
  | yes => 2

theorem rank_injective : Function.Injective rank := by
  intro a b h
  cases a <;> cases b <;> first | rfl | cases h

instance : LinearOrder Truth := LinearOrder.lift' rank rank_injective

theorem and_eq_min (a b : Truth) : a.and b = min a b := by cases a <;> cases b <;> rfl

theorem or_eq_max (a b : Truth) : a.or b = max a b := by cases a <;> cases b <;> rfl

theorem not_min (a b : Truth) : (min a b).not = max a.not b.not := by
  rw [← and_eq_min, ← or_eq_max, not_and]

theorem not_max (a b : Truth) : (max a b).not = min a.not b.not := by
  rw [← and_eq_min, ← or_eq_max, not_or]

end Truth

namespace Predicate

/-- Two filters say the same of the row. -/
def SameOn (row : Row) (p q : Predicate) : Prop := eval row p = eval row q

/-- A filter with one part left out. -/
inductive Context where
  | here
  | andLeft (s : Context) (b : Predicate)
  | andRight (a : Predicate) (s : Context)
  | orLeft (s : Context) (b : Predicate)
  | orRight (a : Predicate) (s : Context)
  | not (s : Context)
  | group (s : Context)

/-- The filter with that part put in. -/
def Context.fill : Context → Predicate → Predicate
  | here, p => p
  | andLeft s b, p => .and (s.fill p) b
  | andRight a s, p => .and a (s.fill p)
  | orLeft s b, p => .or (s.fill p) b
  | orRight a s, p => .or a (s.fill p)
  | not s, p => .not (s.fill p)
  | group s, p => .group (s.fill p)

variable {row : Row} {a a' b b' p q : Predicate}

theorem eval_and_eq_min (row : Row) (a b : Predicate) :
    eval row (and a b) = min (eval row a) (eval row b) :=
  (eval_and row a b).trans (Truth.and_eq_min _ _)

theorem eval_or_eq_max (row : Row) (a b : Predicate) :
    eval row (or a b) = max (eval row a) (eval row b) :=
  (eval_or row a b).trans (Truth.or_eq_max _ _)

theorem SameOn.refl (row : Row) (p : Predicate) : SameOn row p p := rfl

theorem SameOn.and (ha : SameOn row a a') (hb : SameOn row b b') :
    SameOn row (.and a b) (.and a' b') := by
  rw [SameOn, eval_and, eval_and, ha, hb]

theorem SameOn.or (ha : SameOn row a a') (hb : SameOn row b b') :
    SameOn row (.or a b) (.or a' b') := by
  rw [SameOn, eval_or, eval_or, ha, hb]

/-- The truth of a filter depends on nothing of its parts but their truth. -/
theorem SameOn.fill (h : SameOn row p q) (s : Context) : SameOn row (s.fill p) (s.fill q) := by
  induction s with
  | here => exact h
  | andLeft s b ih => exact ih.and (.refl row b)
  | andRight a s ih => exact (SameOn.refl row a).and ih
  | orLeft s b ih => exact ih.or (.refl row b)
  | orRight a s ih => exact (SameOn.refl row a).or ih
  | not s ih => exact congrArg Truth.not ih
  | group s ih => exact ih

/-- The connectives are those of strong Kleene logic, though the right operand is looked at only
where the left one does not decide. -/
theorem eval_connectives (row : Row) (a b c : Predicate) :
    (eval row (and a b) = min (eval row a) (eval row b) ∧
      eval row (or a b) = max (eval row a) (eval row b)) ∧
    (SameOn row (and a b) (and b a) ∧ SameOn row (or a b) (or b a)) ∧
    (SameOn row (and (and a b) c) (and a (and b c)) ∧
      SameOn row (or (or a b) c) (or a (or b c))) ∧
    (SameOn row (and a a) a ∧ SameOn row (or a a) a) ∧
    (SameOn row (and a (or a b)) a ∧ SameOn row (or a (and a b)) a) ∧
    (SameOn row (and a (or b c)) (or (and a b) (and a c)) ∧
      SameOn row (or a (and b c)) (and (or a b) (or a c))) ∧
    (SameOn row (not (and a b)) (or (not a) (not b)) ∧
      SameOn row (not (or a b)) (and (not a) (not b))) ∧
    SameOn row (not (not a)) a ∧
    ∀ s : Context, SameOn row a b → SameOn row (s.fill a) (s.fill b) := by
  refine ⟨⟨eval_and_eq_min row a b, eval_or_eq_max row a b⟩, ?_⟩
  -- What is left are the laws of the lattice; those of De Morgan are settled on the way.
  simp only [SameOn, eval_and_eq_min, eval_or_eq_max, eval_not, Truth.not_min, Truth.not_max]
  refine ⟨⟨min_comm _ _, max_comm _ _⟩, ⟨min_assoc _ _ _, max_assoc _ _ _⟩, ⟨min_self _, max_self _⟩,
    ⟨inf_sup_self, sup_inf_self⟩, ⟨inf_sup_left _ _ _, sup_inf_left _ _ _⟩, ⟨trivial, trivial⟩,
    Truth.not_not _, fun s h => SameOn.fill h s⟩

/-- What is open for want of a column is put in the place of what is open for want of an order. -/
theorem eval_connectives_unknown :
    let unknown : Predicate := .compare ⟨"users", "age", false⟩ .gt (.int 18)
    let other : Predicate := .compare ⟨"users", "status", false⟩ .eq (.int 5)
    let row := Row.empty.set "status" (.text "active")
    let s : Context := .not (.group (.orRight .nothing (.andLeft .here .alwaysTrue)))
    SameOn row unknown other ∧ SameOn row (s.fill unknown) (s.fill other) ∧
      eval row (s.fill other) = .unknown := by
  intro unknown other row s
  have hsame : SameOn row unknown other := rfl
  obtain ⟨-, -, -, -, -, -, -, -, hfill⟩ := eval_connectives row unknown other .all
  exact ⟨hsame, hfill s hsame, rfl⟩

end Predicate

end RowPolicy
