import RowPolicy.Proofs.Verdict

/-!
# Rules that do not fit

Rules have no filter if a condition of theirs names a column that the resource lacks or an operator
that there is not. The error tells of the first such condition, in the order of the rules and within
a rule in the order of its conditions. A lacking column is told of before a lacking operator.
Administrators have a filter whatever the rules name.

The main statement is `Policy.filter_eq_error_iff`.
-/
namespace RowPolicy

/-- A word or a symbol that names an operator. -/
def Operator.IsToken (token : String) : Prop :=
  ∃ op : Operator, op.token = token ∨ op.symbol? = some token

theorem Operator.ofToken?_eq_none_iff {token : String} :
    ofToken? token = none ↔ ¬IsToken token := by
  simp [ofToken?, IsToken, mem_all]

/-! ## Conditions -/

namespace Condition

/-- A condition on a column of the resource, with an operator. -/
def Fits (r : Resource) (c : Condition) : Prop :=
  (∃ type, r.columnType? c.column = some type) ∧ Operator.IsToken c.predicate

/-- What is wrong with a condition. The operator is looked at only if the column is right. -/
inductive Fault (r : Resource) (c : Condition) : SchemaError → Prop where
  | column (hcol : r.columnType? c.column = none) : Fault r c (.unknownColumn r.name c.column)
  | operator {type : ColumnType} (hcol : r.columnType? c.column = some type)
      (hop : ¬Operator.IsToken c.predicate) : Fault r c (.unknownOperator c.column c.predicate)

variable {r : Resource} {c : Condition}

theorem leaf_eq_error_iff {e : SchemaError} : c.leaf r = .error e ↔ c.Fault r e := by
  constructor
  · intro h
    unfold leaf at h
    split at h
    · next hcol =>
      cases h
      exact .column hcol
    · next type hcol =>
      split at h
      · next hop =>
        cases h
        exact .operator hcol (Operator.ofToken?_eq_none_iff.mp hop)
      · cases h
  · intro h
    cases h with
    | column hcol => simp [leaf, hcol]
    | operator hcol hop => simp [leaf, hcol, Operator.ofToken?_eq_none_iff.mpr hop]

theorem exists_fault_iff : (∃ e, c.Fault r e) ↔ ¬c.Fits r := by
  constructor
  · rintro ⟨e, hfault⟩ ⟨⟨type, hcol⟩, hop⟩
    cases hfault with
    | column hnone => simp [hnone] at hcol
    | operator _ hnone => exact hnone hop
  · intro h
    cases hcol : r.columnType? c.column with
    | none => exact ⟨_, .column hcol⟩
    | some type => exact ⟨_, .operator hcol fun hop => h ⟨⟨type, hcol⟩, hop⟩⟩

theorem exists_leaf_iff_fits : (∃ p, c.leaf r = .ok p) ↔ c.Fits r := by
  rw [← not_iff_not, ← Traversal.exists_eq_error_iff, ← exists_fault_iff]
  simp only [leaf_eq_error_iff]

end Condition

/-! ## Rules -/

namespace Policy

variable {r : Resource} {e : SchemaError}

theorem clause_eq_error_iff {p : Policy} :
    p.clause r = .error e ↔ p.conditions.mapM (·.leaf r) = .error e := by
  rw [clause, Condition.leaves_eq_mapM]
  cases p.conditions.mapM (·.leaf r) <;> simp

/-- Going through the rules fails as going through all their conditions does. -/
theorem clauses_eq_error_iff {ps : List Policy} :
    clauses r ps = .error e ↔ (ps.flatMap (·.conditions)).mapM (·.leaf r) = .error e := by
  rw [clauses_eq_mapM]
  exact (Traversal.mapM_flatMap_eq_error_iff (fun _ _ => clause_eq_error_iff) ps e).symm

/-- There is no filter exactly if some condition does not fit, administrators apart, and the error
is what is wrong with the first condition that does not. -/
theorem filter_eq_error_iff (r : Resource) (role : Role) (ps : List Policy) :
    ((∃ e, filter r role ps = .error e) ↔
      role ≠ .admin ∧ ∃ q ∈ ps, ∃ c ∈ q.conditions, ¬c.Fits r) ∧
    ∀ e, filter r role ps = .error e ↔
      role ≠ .admin ∧ ∃ before c after, ps.flatMap (·.conditions) = before ++ c :: after ∧
        (∀ d ∈ before, d.Fits r) ∧ c.Fault r e := by
  constructor
  · rw [Traversal.exists_eq_error_iff, exists_filter_iff]
    simp only [Condition.exists_leaf_iff_fits, not_or, not_forall, exists_prop, ne_eq]
  · intro e
    rw [filter_eq_error, clauses_eq_error_iff, Traversal.mapM_eq_error_iff]
    simp only [Condition.exists_leaf_iff_fits, Condition.leaf_eq_error_iff]

/-- The column is told of, although the operator is wrong as well and a later rule too. -/
example :
    let r := (Resource.new "users").withColumn "age" .integer
    let rules : List Policy :=
      [⟨.allow, []⟩, ⟨.deny, [⟨"age", ">", .int 18⟩, ⟨"salary", "over", .int 1⟩]⟩,
        ⟨.allow, [⟨"age", "over", .int 65⟩]⟩]
    filter r .client rules = .error (.unknownColumn "users" "salary") ∧
      filter r .admin rules = .ok .all :=
  ⟨rfl, rfl⟩

end Policy

end RowPolicy
