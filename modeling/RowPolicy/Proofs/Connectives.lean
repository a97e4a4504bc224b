import RowPolicy.Predicate.Evaluation

/-!
# Connectives over lists

When conjunctions and disjunctions of many truth values are known to be true, and how a filter that
is folded together from others evaluates.
-/
namespace RowPolicy

theorem isEmpty_eq_of_mem_iff {α : Type} {xs ys : List α} (h : ∀ x, x ∈ xs ↔ x ∈ ys) :
    xs.isEmpty = ys.isEmpty := by
  rw [Bool.eq_iff_iff, List.isEmpty_iff, List.isEmpty_iff, List.eq_nil_iff_forall_not_mem,
    List.eq_nil_iff_forall_not_mem]
  simp only [h]

namespace Truth

theorem and_eq_yes_iff {a b : Truth} : a.and b = yes ↔ a = yes ∧ b = yes := by
  cases a <;> cases b <;> decide

theorem or_eq_yes_iff {a b : Truth} : a.or b = yes ↔ a = yes ∨ b = yes := by
  cases a <;> cases b <;> decide

theorem all_eq_yes_iff {ts : List Truth} : all ts = yes ↔ ∀ t ∈ ts, t = yes := by
  induction ts with
  | nil => simp [all]
  | cons t ts ih => simp [all, and_eq_yes_iff, ih]

theorem any_eq_yes_iff {ts : List Truth} : any ts = yes ↔ yes ∈ ts := by
  induction ts with
  | nil => simp [any]
  | cons t ts ih => rw [any, or_eq_yes_iff, ih, List.mem_cons, eq_comm]

theorem or_eq_no_iff {a b : Truth} : a.or b = no ↔ a = no ∧ b = no := by
  cases a <;> cases b <;> decide

theorem any_eq_no_iff {ts : List Truth} : any ts = no ↔ ∀ t ∈ ts, t = no := by
  induction ts with
  | nil => simp [any]
  | cons t ts ih => simp [any, or_eq_no_iff, ih]

/-- Nothing is known where nothing is known to be true and something is unknown. -/
theorem any_eq_unknown {ts : List Truth} (hyes : yes ∉ ts) (hunknown : unknown ∈ ts) :
    any ts = unknown := by
  cases h : any ts with
  | unknown => rfl
  | yes => exact absurd (any_eq_yes_iff.mp h) hyes
  | no => cases any_eq_no_iff.mp h _ hunknown

theorem any_eq_unknown_iff {ts : List Truth} : any ts = unknown ↔ yes ∉ ts ∧ unknown ∈ ts := by
  refine ⟨fun h => ?_, fun ⟨hyes, hunknown⟩ => any_eq_unknown hyes hunknown⟩
  induction ts with
  | nil => cases h
  | cons t ts ih =>
    have hyes : any ts = yes ↔ yes ∈ ts := any_eq_yes_iff
    cases t with
    | no => simpa using ih h
    | unknown => cases hts : any ts <;> simp_all [any, Truth.or]
    | yes => cases h

/-- Neither the order of the operands nor how often one stands there matters. -/
theorem any_congr {ts us : List Truth} (h : ∀ t, t ∈ ts ↔ t ∈ us) : any ts = any us := by
  have hyes : any ts = yes ↔ any us = yes := by rw [any_eq_yes_iff, any_eq_yes_iff, h]
  have hno : any ts = no ↔ any us = no := by simp only [any_eq_no_iff, h]
  cases hts : any ts <;> cases hus : any us <;> simp_all

theorem all_congr {ts us : List Truth} (h : ∀ t, t ∈ ts ↔ t ∈ us) : all ts = all us := by
  have hnot (ts : List Truth) : all ts = (any (ts.map Truth.not)).not := by
    rw [not_any, List.map_map]
    simp [Function.comp_def]
  rw [hnot, hnot]
  exact congrArg Truth.not (any_congr fun t => by simp only [List.mem_map, h])

theorem all_eq_unknown {ts : List Truth} (hne : ts ≠ []) (h : ∀ t ∈ ts, t = unknown) :
    all ts = unknown := by
  induction ts with
  | nil => contradiction
  | cons t ts ih =>
    obtain ⟨rfl, hts⟩ := List.forall_mem_cons.mp h
    cases ts with
    | nil => rfl
    | cons u ts =>
      rw [all, ih (by simp) hts]
      rfl

theorem any_map_unknown {α : Type} {xs : List α} (hne : xs ≠ []) :
    any (xs.map fun _ => unknown) = unknown := by
  obtain ⟨x, hx⟩ := List.exists_mem_of_ne_nil xs hne
  exact any_eq_unknown (by simp) (List.mem_map.mpr ⟨x, hx, rfl⟩)

end Truth

namespace Predicate

theorem eval_foldl_and (row : Row) (p : Predicate) (ps : List Predicate) :
    eval row (ps.foldl .and p) = (eval row p).and (Truth.all (ps.map (eval row))) := by
  induction ps generalizing p with
  | nil => simp [Truth.all]
  | cons q ps ih => simp [ih, Truth.all, Truth.and_assoc]

theorem eval_foldl_or (row : Row) (p : Predicate) (ps : List Predicate) :
    eval row (ps.foldl .or p) = (eval row p).or (Truth.any (ps.map (eval row))) := by
  induction ps generalizing p with
  | nil => simp [Truth.any]
  | cons q ps ih => simp [ih, Truth.any, Truth.or_assoc]

end Predicate

end RowPolicy
