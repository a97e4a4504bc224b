import RowPolicy.Proofs.Verdict

/-!
# Complementary operators

To deny the rows that meet a condition is to allow those that meet the complementary one. That a
condition is left open by a row, for want of the column, of an order or of a list with items, is no
exception: its complement is then open as well.

The main statement is `Policy.eval_deny_complement`, on the clauses and the filters of two such
rules.
-/
namespace RowPolicy

namespace Operator

/-- Of two such operators one holds where the other is known not to. There are two ways to be in a
list and one not to be. -/
inductive Complements : Operator → Operator → Prop where
  | eq : Complements eq notEq
  | gt : Complements gt lteq
  | gteq : Complements gteq lt
  | isIn : Complements isIn notIn
  | eqAny : Complements eqAny notIn
  | isLike : Complements isLike notLike
  | symm {op op' : Operator} (h : Complements op op') : Complements op' op

variable {op op' : Operator}

theorem Complements.isMembership_eq (h : op.Complements op') :
    op.isMembership = op'.isMembership := by
  induction h with
  | symm _ ih => exact ih.symm
  | _ => rfl

theorem Complements.isPattern_eq (h : op.Complements op') : op.isPattern = op'.isPattern := by
  induction h with
  | symm _ ih => exact ih.symm
  | _ => rfl

end Operator

variable {op op' : Operator}

/-! ## Values -/

namespace Value

theorem not_compareBy (h : op.Complements op') (a b : Value) :
    (compareBy op a b).not = compareBy op' a b := by
  induction h with
  | symm _ ih => rw [← ih, Truth.not_not]
  | isIn | eqAny | isLike => rfl
  | eq | gt | gteq =>
    simp only [compareBy]
    cases compare? a b with
    | none => rfl
    | some o => cases o <;> rfl

theorem not_among (h : op.Complements op') (hm : op.isMembership = true) (a : Value)
    (items : List Value) : (among op a items).not = among op' a items := by
  induction h with
  | symm h ih => rw [← ih (h.isMembership_eq.trans hm), Truth.not_not]
  | isIn | eqAny =>
    cases items with
    | nil => rfl
    | cons => simp [among]
  | _ => cases hm

theorem not_meets (h : op.Complements op') (a b : Value) :
    (meets op a b).not = meets op' a b := by
  cases b with
  | list items =>
    simp only [meets, ← h.isMembership_eq]
    split
    case isTrue hm => exact not_among h hm a items
    case isFalse => exact not_compareBy h a (list items)
  | _ => exact not_compareBy h a _

end Value

/-! ## Leaves -/

namespace Predicate

theorem not_eval_compare (h : op.Complements op') (column : Column) (v : Value) (row : Row) :
    (eval row (compare column op v)).not = eval row (compare column op' v) := by
  simp only [eval]
  cases column.read? row with
  | none => rfl
  | some actual => exact Value.not_meets h actual v

theorem not_eval_membership (h : op.Complements op') (hm : op.isMembership = true)
    (column : Column) (vs : List Value) (row : Row) :
    (eval row (membership column op vs)).not = eval row (membership column op' vs) := by
  simp only [eval]
  cases column.read? row with
  | none => rfl
  | some actual => exact Value.not_among h hm actual vs

end Predicate

namespace Condition

/-- Complements bring a value into the same shape. -/
theorem aligned_normalized (h : op.Complements op') (type : ColumnType) (v : Value) :
    aligned type op (normalized op v) = aligned type op' (normalized op' v) := by
  simp only [aligned, normalized, h.isMembership_eq, h.isPattern_eq]

theorem not_eval_leafOf (h : op.Complements op') (table column : String) (type : ColumnType)
    (v : Value) (row : Row) :
    ((leafOf table column type op v).eval row).not =
      (leafOf table column type op' v).eval row := by
  simp only [leafOf, aligned_normalized h, ← h.isMembership_eq]
  split
  case h_1 items _ =>
    split
    case isTrue hm => exact Predicate.not_eval_membership h hm _ _ row
    case isFalse => exact Predicate.not_eval_compare h _ _ row
  case h_2 => exact Predicate.not_eval_compare h _ _ row

theorem leaf_eq_leafOf {r : Resource} {column token : String} {type : ColumnType}
    (hcol : r.columnType? column = some type) (hop : Operator.ofToken? token = some op)
    (v : Value) : leaf r ⟨column, token, v⟩ = .ok (leafOf r.table column type op v) := by
  simp [leaf, hcol, hop]

end Condition

/-! ## Rules -/

namespace Policy

theorem clause_single {r : Resource} {c : Condition} {leaf : Predicate}
    (h : c.leaf r = .ok leaf) (effect : Effect) :
    clause r ⟨effect, [c]⟩ = .ok (clauseOf effect [leaf]) := by
  simp [clause, Condition.leaves, h]

/-- The filter of one rule that does not allow every row is its clause. -/
theorem filter_single {r : Resource} {role : Role} {p : Policy} {q : Predicate}
    (hrole : role ≠ .admin) (hq : p.clause r = .ok q) (hopen : p.isOpen = false) :
    filter r role [p] = .ok q := by
  have hkept : q.isAlwaysTrue = false := (isAlwaysTrue_clause hq).trans hopen
  cases role with
  | admin => contradiction
  | _ => simp [filter, clauses, hq, hkept, union]

/-- A rule that denies what meets a condition and the rule that allows what meets the complement
have clauses of one truth on every row, and these are their filters for whoever is no
administrator. -/
theorem eval_deny_complement {r : Resource} {column : String} {type : ColumnType}
    (hcol : r.columnType? column = some type) {token token' : String}
    (hop : Operator.ofToken? token = some op) (hop' : Operator.ofToken? token' = some op')
    (h : op.Complements op') (v : Value) :
    let denying : Policy := ⟨.deny, [⟨column, token, v⟩]⟩
    let allowing : Policy := ⟨.allow, [⟨column, token', v⟩]⟩
    ∃ p q, denying.clause r = .ok p ∧ allowing.clause r = .ok q ∧
      (∀ row, p.eval row = q.eval row) ∧
      ∀ role ≠ .admin, filter r role [denying] = .ok p ∧ filter r role [allowing] = .ok q := by
  intro denying allowing
  have hdeny := clause_single (Condition.leaf_eq_leafOf hcol hop v) .deny
  have hallow := clause_single (Condition.leaf_eq_leafOf hcol hop' v) .allow
  refine ⟨_, _, hdeny, hallow, fun row => ?_, fun role hrole => ?_⟩
  · simp only [clauseOf, conjunction, List.foldl_nil, Predicate.eval_not, Predicate.eval_group]
    exact Condition.not_eval_leafOf h r.table column type v row
  · exact ⟨filter_single hrole hdeny rfl, filter_single hrole hallow rfl⟩

/-- An item of another kind than what the row holds leaves both rules open. -/
theorem eval_deny_complement_notIn :
    let r := (Resource.new "users").withColumn "age" .integer
    let denying : Policy := ⟨.deny, [⟨"age", "not_in", .text "18;old"⟩]⟩
    let allowing : Policy := ⟨.allow, [⟨"age", "eq_any", .text "18;old"⟩]⟩
    let row := Row.empty.set "age" (.int 30)
    ∃ p q, filter r .client [denying] = .ok p ∧ filter r .client [allowing] = .ok q ∧
      p.eval row = q.eval row ∧ p.eval row = .unknown := by
  intro r denying allowing row
  have hcol : r.columnType? "age" = some .integer := rfl
  have hop : Operator.ofToken? "not_in" = some .notIn := rfl
  have hop' : Operator.ofToken? "eq_any" = some .eqAny := rfl
  obtain ⟨p, q, -, -, heval, hfilter⟩ :=
    eval_deny_complement hcol hop hop' (.symm .eqAny) (.text "18;old")
  obtain ⟨hp, hq⟩ := hfilter .client (by decide)
  refine ⟨p, q, hp, hq, heval row, ?_⟩
  cases hp
  decide

end Policy

end RowPolicy
