import RowPolicy.Proofs.Equality
import RowPolicy.Proofs.Shape

/-!
# Rows that leave conditions open

A comparison is left open by a row that lacks the column, and where the two values have no order or,
for a pattern, where one of them is no text. Being among items is left open as well where there are
no items, and where none is equal and some have no order to what the row holds.

To deny what meets such a condition does not help: what is unknown stays so under a negation. The
main statement is `Policy.passes_eq_false_of_unknown`: a row that leaves all conditions open does
not pass a filter that restricts at all.
-/
namespace RowPolicy

namespace Truth

theorem ofBool_ne_unknown (b : Bool) : ofBool b ≠ unknown := by cases b <;> decide

theorem not_eq_unknown_iff {t : Truth} : t.not = unknown ↔ t = unknown := by cases t <;> decide

end Truth

/-! ## Values -/

namespace Value

variable {actual expected : Value}

theorem like_eq_unknown_iff :
    like actual expected = .unknown ↔ actual.text? = none ∨ expected.text? = none := by
  cases actual <;> cases expected <;> simp [like, text?, Truth.ofBool_ne_unknown]

theorem compareBy_pattern_eq_unknown_iff {op : Operator} (hop : op.isPattern = true) :
    compareBy op actual expected = .unknown ↔ actual.text? = none ∨ expected.text? = none := by
  cases op with
  | isLike => exact like_eq_unknown_iff
  | notLike => exact Truth.not_eq_unknown_iff.trans like_eq_unknown_iff
  | _ => cases hop

theorem compareBy_order_eq_unknown_iff {op : Operator} (hop : op.isPattern = false)
    (hm : op.isMembership = false) :
    compareBy op actual expected = .unknown ↔ actual.compare? expected = none := by
  cases op with
  | isLike | notLike => cases hop
  | isIn | notIn | eqAny => cases hm
  | _ =>
    simp only [compareBy]
    cases actual.compare? expected <;> simp [Truth.ofBool_ne_unknown]

theorem amongItems_eq_unknown_iff {items : List Value} :
    amongItems actual items = .unknown ↔
      (∀ v ∈ items, actual.equals v = false) ∧ ∃ v ∈ items, actual.compare? v = none := by
  have hunknown (v : Value) : compareBy .eq actual v = .unknown ↔ actual.compare? v = none :=
    compareBy_order_eq_unknown_iff rfl rfl
  rw [amongItems_eq_any, Truth.any_eq_unknown_iff]
  simp only [List.mem_map, compareBy_eq_yes_iff, hunknown, not_exists, not_and, Bool.not_eq_true]

end Value

/-! ## Leaves -/

namespace Predicate

variable {row : Row} {c : Column} {op : Operator}

theorem eval_compare_eq_unknown_iff (hm : op.isMembership = false) {v : Value} :
    eval row (compare c op v) = .unknown ↔ ∀ actual, c.read? row = some actual →
      if op.isPattern then actual.text? = none ∨ v.text? = none
      else actual.compare? v = none := by
  simp only [eval]
  cases c.read? row with
  | none => simp
  | some actual =>
    simp only [Option.some.injEq, forall_eq', Value.meets_eq_compareBy hm]
    cases hop : op.isPattern with
    | true => exact Value.compareBy_pattern_eq_unknown_iff hop
    | false => exact Value.compareBy_order_eq_unknown_iff hop hm

theorem eval_membership_eq_unknown_iff {vs : List Value} :
    eval row (membership c op vs) = .unknown ↔ vs = [] ∨ ∀ actual, c.read? row = some actual →
      (∀ v ∈ vs, actual.equals v = false) ∧ ∃ v ∈ vs, actual.compare? v = none := by
  simp only [eval]
  cases c.read? row with
  | none => simp
  | some actual =>
    simp only [Option.some.injEq, forall_eq', ← Value.amongItems_eq_unknown_iff]
    cases vs with
    | nil => simp [Value.among]
    | cons v vs => cases op <;> simp [Value.among, Truth.not_eq_unknown_iff]

end Predicate

/-! ## Rules -/

namespace Policy

variable {r : Resource} {row : Row}

/-- What a rule that restricts says of a row that leaves its conditions open. -/
theorem truth_of_unknown {q : Policy} (hopen : q.isOpen = false)
    (h : ∀ c ∈ q.conditions, c.truth r row = .unknown) :
    q.truth r row = if q.conditions = [] then .no else .unknown := by
  by_cases hnone : q.conditions = []
  · cases heffect : q.effect with
    | allow => simp [isOpen, heffect, hnone] at hopen
    | deny => simp [truth, heffect, hnone, Truth.all, Truth.not]
  · have hall : Truth.all (q.conditions.map (Condition.truth r row)) = .unknown :=
      Truth.all_eq_unknown (by simpa using hnone) (by simpa using h)
    rw [if_neg hnone]
    cases heffect : q.effect <;> simp only [truth, heffect, hall, Truth.not]

/-- Where some rule restricts, the verdict is the union of those that do. -/
theorem eval_eq_any_kept {role : Role} {ps : List Policy} {p : Predicate}
    (h : filter r role ps = .ok p) (hadmin : role ≠ .admin) {q : Policy} (hq : q ∈ ps)
    (hopen : q.isOpen = false) :
    p.eval row = Truth.any ((ps.filter (!·.isOpen)).map (truth r row)) := by
  rw [eval_eq_verdict h, verdict_eq r row hadmin fun _ => List.ne_nil_of_mem hq]
  have hkept : q ∈ ps.filter (!·.isOpen) := List.mem_filter.mpr ⟨hq, by simp [hopen]⟩
  split
  case h_1 hnil => simp [hnil] at hkept
  case h_2 => rfl

theorem mem_map_kept_iff {ps : List Policy} {t : Truth} :
    t ∈ (ps.filter (!·.isOpen)).map (truth r row) ↔
      ∃ q ∈ ps, q.isOpen = false ∧ q.truth r row = t := by
  simp [and_assoc]

theorem any_kept_of_unknown {ps : List Policy} (h : ∀ q ∈ ps, ∀ c ∈ q.conditions,
      c.truth r row = .unknown) :
    .yes ∉ (ps.filter (!·.isOpen)).map (truth r row) ∧
      (.unknown ∈ (ps.filter (!·.isOpen)).map (truth r row) ↔ ∃ q ∈ ps, q.conditions ≠ []) := by
  have htruth : ∀ q ∈ ps, q.isOpen = false →
      q.truth r row = if q.conditions = [] then .no else .unknown :=
    fun q hq hopen => truth_of_unknown hopen (h q hq)
  rw [mem_map_kept_iff, mem_map_kept_iff]
  constructor
  · rintro ⟨q, hq, hopen, ht⟩
    rw [htruth q hq hopen] at ht
    split at ht <;> cases ht
  · constructor
    · rintro ⟨q, hq, hopen, ht⟩
      refine ⟨q, hq, fun hnone => ?_⟩
      rw [htruth q hq hopen, if_pos hnone] at ht
      cases ht
    · rintro ⟨q, hq, hconditions⟩
      have hopen : q.isOpen = false := by simp [isOpen, hconditions]
      exact ⟨q, hq, hopen, (htruth q hq hopen).trans (if_neg hconditions)⟩

/-- A row that leaves all conditions open does not pass a filter that restricts, and is not even
known to fail it unless the rules that restrict have no conditions. -/
theorem passes_eq_false_of_unknown {role : Role} {ps : List Policy} {p : Predicate}
    (h : filter r role ps = .ok p) (hadmin : role ≠ .admin)
    (hrestricts : ∃ q ∈ ps, q.isOpen = false)
    (hunknown : ∀ q ∈ ps, ∀ c ∈ q.conditions, ∀ leaf, c.leaf r = .ok leaf →
      leaf.eval row = .unknown) :
    p.passes row = false ∧ (p.eval row = .unknown ↔ ∃ q ∈ ps, q.conditions ≠ []) := by
  obtain ⟨q, hq, hopen⟩ := hrestricts
  have htruth : ∀ q ∈ ps, ∀ c ∈ q.conditions, c.truth r row = .unknown := by
    intro q hq c hc
    obtain ⟨leaf, hleaf⟩ := leaf_of_filter h hadmin q hq c hc
    exact (Condition.eval_leaf hleaf row).symm.trans (hunknown q hq c hc leaf hleaf)
  obtain ⟨hyes, hiff⟩ := any_kept_of_unknown htruth
  rw [Predicate.passes, eval_eq_any_kept h hadmin hq hopen]
  constructor
  · rwa [← Bool.not_eq_true, Truth.holds_iff, Truth.any_eq_yes_iff]
  · rw [Truth.any_eq_unknown_iff, and_iff_right hyes, hiff]

/-- A list that is none, a pattern that is no text, values without an order and a lacking column:
neither allowing nor denying lets the row pass. -/
theorem passes_eq_false_of_unknown_mixed :
    let r := ((Resource.new "users").withColumn "age" .integer).withColumn "status" .text
      |>.withColumn "region" .text
    let rules : List Policy := [⟨.allow, []⟩, ⟨.deny, []⟩,
      ⟨.deny, [⟨"age", "not_in", .int 5⟩, ⟨"status", "matches", .int 5⟩]⟩,
      ⟨.allow, [⟨"age", "<", .text "old"⟩]⟩, ⟨.deny, [⟨"region", "eq", .text "EU"⟩]⟩]
    let row := (Row.empty.set "age" (.int 30)).set "status" (.text "active")
    ∃ p, filter r .client rules = .ok p ∧ p.passes row = false ∧ p.eval row = .unknown := by
  intro r rules row
  obtain ⟨p, hp⟩ : ∃ p, filter r .client rules = .ok p := ⟨_, rfl⟩
  have hlist : Predicate.eval row (.membership ⟨"users", "age", false⟩ .notIn []) = .unknown :=
    Predicate.eval_membership_eq_unknown_iff.mpr (.inl rfl)
  have hpattern :
      Predicate.eval row (.compare ⟨"users", "status", false⟩ .isLike (.int 5)) = .unknown :=
    (Predicate.eval_compare_eq_unknown_iff rfl).mpr fun _ _ => .inr rfl
  have horder :
      Predicate.eval row (.compare ⟨"users", "age", false⟩ .lt (.text "old")) = .unknown :=
    (Predicate.eval_compare_eq_unknown_iff rfl).mpr (by rintro _ ⟨⟩; rfl)
  have habsent :
      Predicate.eval row (.compare ⟨"users", "region", false⟩ .eq (.text "EU")) = .unknown :=
    (Predicate.eval_compare_eq_unknown_iff rfl).mpr fun _ h => by cases h
  have hunknown : ∀ q ∈ rules, ∀ c ∈ q.conditions, ∀ leaf, c.leaf r = .ok leaf →
      leaf.eval row = .unknown := by
    simp only [rules, List.forall_mem_cons, List.not_mem_nil, false_implies, implies_true, and_true,
      true_and]
    refine ⟨⟨?_, ?_⟩, ?_, ?_⟩ <;> rintro leaf ⟨⟩
    · exact hlist
    · exact hpattern
    · exact horder
    · exact habsent
  obtain ⟨hpasses, heval⟩ := passes_eq_false_of_unknown hp (by decide) (by decide) hunknown
  exact ⟨p, hp, hpasses, heval.mpr (by decide)⟩

end Policy

end RowPolicy
