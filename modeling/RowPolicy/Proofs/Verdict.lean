import RowPolicy.Compilation
import RowPolicy.Proofs.Connectives
import RowPolicy.Proofs.Traversal

/-!
# What rules decide about a row

`Policy.verdict` says without a filter what the rules of a role mean for a row. A rule that allows
holds where all its conditions do, a rule that denies where they do not, and one rule that holds is
enough. Rules that allow every row have no say next to others. The verdict is three-valued: a
condition that the row leaves open may leave it open as well.

The main statement is `Policy.eval_filter`: the filter for a role and its rules has the truth of
the verdict on every row.
-/
namespace RowPolicy

/-! ## Conditions -/

namespace Condition

theorem leaves_eq_mapM (r : Resource) (cs : List Condition) :
    leaves r cs = cs.mapM (·.leaf r) := by
  refine Traversal.eq_mapM (leaves r) rfl (fun c cs => ?_) cs
  cases h : c.leaf r <;> cases hs : leaves r cs <;> simp [leaves, h, hs]

/-- Each condition has its own leaf. -/
theorem leaves_eq_ok_iff {r : Resource} {cs : List Condition} {ps : List Predicate} :
    leaves r cs = .ok ps ↔ List.Forall₂ (fun c p => c.leaf r = .ok p) cs ps := by
  rw [leaves_eq_mapM, Traversal.mapM_eq_ok_iff]

/-- The truth of a condition's leaf on a row. A condition without leaf says nothing. -/
def truth (r : Resource) (row : Row) (c : Condition) : Truth :=
  match c.leaf r with
  | .ok p => p.eval row
  | .error _ => .unknown

theorem eval_leaf {r : Resource} {c : Condition} {p : Predicate} (h : c.leaf r = .ok p)
    (row : Row) : p.eval row = c.truth r row := by
  simp [truth, h]

theorem map_eval_leaves {r : Resource} {cs : List Condition} {ps : List Predicate}
    (h : leaves r cs = .ok ps) (row : Row) :
    ps.map (Predicate.eval row) = cs.map (truth r row) := by
  rw [leaves_eq_ok_iff] at h
  induction h with
  | nil => rfl
  | cons hc _ ih => simp [ih, eval_leaf hc]

end Condition

/-! ## Rules -/

namespace Policy

/-- What a rule says about a row: that it meets all conditions, or for a denying rule that it does
not. -/
def truth (r : Resource) (row : Row) (p : Policy) : Truth :=
  let met := Truth.all (p.conditions.map (Condition.truth r row))
  match p.effect with
  | .allow => met
  | .deny => met.not

/-- What the rules of a role say about a row. -/
def verdict (r : Resource) (row : Row) : Role → List Policy → Truth
  | .admin, _ => .yes
  | .client, [] => .no
  | _, policies =>
    match policies.filter (!·.isOpen) with
    | [] => .yes
    | kept => Truth.any (kept.map (truth r row))

theorem eval_conjunction (row : Row) (ps : List Predicate) :
    (conjunction ps).eval row = Truth.all (ps.map (Predicate.eval row)) := by
  cases ps with
  | nil => rfl
  | cons p ps => simp [conjunction, Predicate.eval_foldl_and, Truth.all]

theorem eval_union (row : Row) {ps : List Predicate} (h : ps ≠ []) :
    (union ps).eval row = Truth.any (ps.map (Predicate.eval row)) := by
  cases ps with
  | nil => contradiction
  | cons p ps => simp [union, Predicate.eval_foldl_or, Truth.any]

theorem clause_eq_ok_iff {r : Resource} {p : Policy} {q : Predicate} :
    p.clause r = .ok q ↔
      ∃ ls, Condition.leaves r p.conditions = .ok ls ∧ q = clauseOf p.effect ls := by
  unfold clause
  cases Condition.leaves r p.conditions <;> simp [eq_comm]

theorem eval_clause {r : Resource} {p : Policy} {q : Predicate} (h : p.clause r = .ok q)
    (row : Row) : q.eval row = p.truth r row := by
  obtain ⟨ls, hls, rfl⟩ := clause_eq_ok_iff.mp h
  have hmap := Condition.map_eval_leaves hls row
  cases he : p.effect <;> simp [clauseOf, truth, he, eval_conjunction, hmap]

/-- Only a rule that allows every row has a clause that a union leaves out. -/
theorem isAlwaysTrue_clause {r : Resource} {p : Policy} {q : Predicate} (h : p.clause r = .ok q) :
    q.isAlwaysTrue = p.isOpen := by
  obtain ⟨ls, hls, rfl⟩ := clause_eq_ok_iff.mp h
  have hlen := (Condition.leaves_eq_ok_iff.mp hls).length_eq
  have hempty : ls.isEmpty = p.conditions.isEmpty := by
    rw [Bool.eq_iff_iff, List.isEmpty_iff_length_eq_zero, List.isEmpty_iff_length_eq_zero, hlen]
  unfold isOpen
  rw [← hempty]
  cases p.effect <;> cases ls <;> rfl

theorem clauses_eq_mapM (r : Resource) (ps : List Policy) :
    clauses r ps = ps.mapM (·.clause r) := by
  refine Traversal.eq_mapM (clauses r) rfl (fun p ps => ?_) ps
  cases h : p.clause r <;> cases hs : clauses r ps <;> simp [clauses, h, hs]

/-- Each rule has its own clause. -/
theorem clauses_eq_ok_iff {r : Resource} {ps : List Policy} {qs : List Predicate} :
    clauses r ps = .ok qs ↔ List.Forall₂ (fun p q => p.clause r = .ok q) ps qs := by
  rw [clauses_eq_mapM, Traversal.mapM_eq_ok_iff]

theorem leaf_of_clauses {r : Resource} {ps : List Policy} {qs : List Predicate}
    (h : clauses r ps = .ok qs) : ∀ p ∈ ps, ∀ c ∈ p.conditions, ∃ leaf, c.leaf r = .ok leaf := by
  intro p hp c hc
  obtain ⟨q, -, hq⟩ := Traversal.exists_of_mem_forall₂ (clauses_eq_ok_iff.mp h) hp
  obtain ⟨ls, hls, -⟩ := clause_eq_ok_iff.mp hq
  obtain ⟨leaf, -, hleaf⟩ :=
    Traversal.exists_of_mem_forall₂ (Condition.leaves_eq_ok_iff.mp hls) hc
  exact ⟨leaf, hleaf⟩

theorem map_eval_kept {r : Resource} {ps : List Policy} {qs : List Predicate}
    (h : clauses r ps = .ok qs) (row : Row) :
    (qs.filter (!·.isAlwaysTrue)).map (Predicate.eval row) =
      (ps.filter (!·.isOpen)).map (truth r row) := by
  rw [clauses_eq_ok_iff] at h
  induction h with
  | nil => rfl
  | @cons p q ps qs hp _ ih =>
    have hopen := isAlwaysTrue_clause hp
    cases hq : p.isOpen <;> simp [hopen, hq, ih, eval_clause hp]

theorem eval_union_kept {r : Resource} {ps : List Policy} {qs : List Predicate}
    (h : clauses r ps = .ok qs) (row : Row) :
    (union (qs.filter (!·.isAlwaysTrue))).eval row =
      match ps.filter (!·.isOpen) with
      | [] => .yes
      | kept => Truth.any (kept.map (truth r row)) := by
  have hmap := map_eval_kept h row
  cases hk : ps.filter (!·.isOpen) with
  | nil =>
    rw [hk, List.map_nil, List.map_eq_nil_iff] at hmap
    rw [hmap]
    rfl
  | cons p kept =>
    have hne : qs.filter (!·.isAlwaysTrue) ≠ [] := by
      intro hnil
      simp [hnil, hk] at hmap
    rw [eval_union row hne, hmap, hk]

/-- A filter is what the role alone decides, or the union of the clauses that restrict. -/
theorem filter_eq_ok {r : Resource} {role : Role} {ps : List Policy} {p : Predicate}
    (h : filter r role ps = .ok p) :
    (role = .admin ∧ p = .all) ∨ (role = .client ∧ ps = [] ∧ p = .nothing) ∨
      (role ≠ .admin ∧ (role = .client → ps ≠ []) ∧
        ∃ qs, clauses r ps = .ok qs ∧ p = union (qs.filter (!·.isAlwaysTrue))) := by
  unfold filter at h
  split at h
  case h_1 => cases h; exact .inl ⟨rfl, rfl⟩
  case h_2 => cases h; exact .inr (.inl ⟨rfl, rfl, rfl⟩)
  case h_3 hadmin hclient =>
    split at h
    · cases h
    · next qs hqs =>
      cases h
      refine .inr (.inr ⟨hadmin, ?_, qs, hqs, rfl⟩)
      rintro rfl rfl
      exact hclient rfl rfl

/-- Where neither the role nor the lack of rules decides, the rules that restrict do. -/
theorem verdict_eq (r : Resource) (row : Row) {role : Role} {ps : List Policy}
    (hadmin : role ≠ .admin) (hclient : role = .client → ps ≠ []) :
    verdict r row role ps =
      match ps.filter (!·.isOpen) with
      | [] => .yes
      | kept => Truth.any (kept.map (truth r row)) := by
  unfold verdict
  split
  · contradiction
  · exact absurd rfl (hclient rfl)
  · rfl

theorem eval_eq_verdict {r : Resource} {role : Role} {ps : List Policy} {p : Predicate}
    (h : filter r role ps = .ok p) (row : Row) : p.eval row = verdict r row role ps := by
  rcases filter_eq_ok h with ⟨rfl, rfl⟩ | ⟨rfl, rfl, rfl⟩ | ⟨hadmin, hclient, qs, hqs, rfl⟩
  · rfl
  · rfl
  · rw [verdict_eq r row hadmin hclient, eval_union_kept hqs row]

theorem exists_clauses_iff {r : Resource} {ps : List Policy} :
    (∃ qs, clauses r ps = .ok qs) ↔ ∀ p ∈ ps, ∀ c ∈ p.conditions, ∃ leaf, c.leaf r = .ok leaf := by
  rw [clauses_eq_mapM, Traversal.exists_mapM_eq_ok_iff]
  refine forall₂_congr fun p _ => ?_
  rw [← Traversal.exists_mapM_eq_ok_iff, ← Condition.leaves_eq_mapM]
  constructor
  · rintro ⟨q, hq⟩
    obtain ⟨ls, hls, -⟩ := clause_eq_ok_iff.mp hq
    exact ⟨ls, hls⟩
  · rintro ⟨ls, hls⟩
    exact ⟨_, clause_eq_ok_iff.mpr ⟨ls, hls, rfl⟩⟩

theorem filter_eq_error {r : Resource} {role : Role} {ps : List Policy} {e : SchemaError} :
    filter r role ps = .error e ↔ role ≠ .admin ∧ clauses r ps = .error e := by
  unfold filter
  split
  case h_1 => simp
  case h_2 => simp [clauses]
  case h_3 hadmin _ =>
    have hne : role ≠ .admin := hadmin
    cases clauses r ps <;> simp [hne]

/-- Administrators have a filter whatever the rules are; for others every condition needs a leaf. -/
theorem exists_filter_iff {r : Resource} {role : Role} {ps : List Policy} :
    (∃ p, filter r role ps = .ok p) ↔
      role = .admin ∨ ∀ p ∈ ps, ∀ c ∈ p.conditions, ∃ leaf, c.leaf r = .ok leaf := by
  rw [← exists_clauses_iff, ← not_iff_not, ← Traversal.exists_eq_error_iff, not_or,
    ← Traversal.exists_eq_error_iff]
  simp only [filter_eq_error, exists_and_left, ne_eq]

theorem leaf_of_filter {r : Resource} {role : Role} {ps : List Policy} {p : Predicate}
    (h : filter r role ps = .ok p) (hadmin : role ≠ .admin) :
    ∀ q ∈ ps, ∀ c ∈ q.conditions, ∃ leaf, c.leaf r = .ok leaf :=
  (exists_filter_iff.mp ⟨p, h⟩).resolve_left hadmin

/-- A filter has the truth of the verdict, and unless the role alone decides, every condition has
a leaf that the verdict reads. -/
theorem eval_filter {r : Resource} {role : Role} {ps : List Policy} {p : Predicate}
    (h : filter r role ps = .ok p) (row : Row) :
    p.eval row = verdict r row role ps ∧
      (role ≠ .admin → ∀ q ∈ ps, ∀ c ∈ q.conditions, ∃ leaf, c.leaf r = .ok leaf) := by
  rcases filter_eq_ok h with ⟨rfl, rfl⟩ | ⟨rfl, rfl, rfl⟩ | ⟨hadmin, hclient, qs, hqs, rfl⟩
  · exact ⟨rfl, fun hne => absurd rfl hne⟩
  · exact ⟨rfl, by simp⟩
  · rw [verdict_eq r row hadmin hclient]
    exact ⟨eval_union_kept hqs row, fun _ => leaf_of_clauses hqs⟩

/-- A rule that the row leaves open keeps the others from being known to fail. -/
theorem eval_filter_open :
    let r := ((Resource.new "users").withColumn "age" .integer).withColumn "status" .text
    let rules : List Policy :=
      [⟨.allow, []⟩, ⟨.deny, [⟨"age", ">", .int 18⟩]⟩, ⟨.deny, [⟨"status", "eq", .text "active"⟩]⟩]
    let row := Row.empty.set "age" (.int 30)
    ∃ p, filter r .client rules = .ok p ∧ p.eval row = verdict r row .client rules ∧
      verdict r row .client rules = .unknown :=
  ⟨_, rfl, (eval_filter rfl _).1, by decide⟩

end Policy

end RowPolicy
