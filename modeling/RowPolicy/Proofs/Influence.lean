import Mathlib.Algebra.Order.Ring.Int
import RowPolicy.Proofs.Shape

/-!
# Columns that decide

A filter reads the columns that the conditions of its rules name, in their order, and no others. Two
rows that hold the same in these columns are one and the same to it, whatever else they hold. Unless
the role alone decides, each of them is a column of the resource.

Values hold the same if they are identical or are called the same: the two zeros of the doubles
differ, but nothing that a filter asks tells them apart.

The main statement is `Policy.eval_filter_agreesOn`.
-/
namespace RowPolicy

/-! ## Values -/

namespace Value

/-- No comparison, no pattern and no cast tells the values apart. -/
structure Indistinct (v w : Value) : Prop where
  compare?_eq : ∀ x, v.compare? x = w.compare? x
  text?_eq : v.text? = w.text?
  toDate?_eq : v.toDate? = w.toDate?

theorem Indistinct.refl (v : Value) : v.Indistinct v := ⟨fun _ => rfl, rfl, rfl⟩

/-- Identical, or called the same. -/
def Alike (v w : Value) : Prop := v = w ∨ v.same w = true

variable {v w : Value}

/-- Doubles that are equal as numbers have one place among all numbers. -/
theorem indistinct_float {x y : Binary64} (h : Binary64.compare? x y = some .eq) :
    (float x).Indistinct (float y) := by
  have hcompare (z : Binary64) : Binary64.compare? x z = Binary64.compare? y z := by
    unfold Binary64.compare? at h ⊢
    split at h
    · cases h
    · next hnumbers =>
      rw [Bool.or_eq_true, not_or] at hnumbers
      have hplace : x.place = y.place := compare_eq_iff_eq.mp (Option.some.inj h)
      simp [hnumbers.1, hnumbers.2, hplace]
  refine ⟨fun z => ?_, rfl, rfl⟩
  cases z with
  | int | float => exact hcompare _
  | _ => rfl

theorem Alike.indistinct (h : v.Alike w) : v.Indistinct w := by
  rcases h with rfl | h
  · exact .refl v
  · cases v <;> cases w <;> simp only [same, Bool.false_eq_true, beq_iff_eq, decide_eq_true_eq] at h
    case float.float => exact indistinct_float h
    case list.list => exact ⟨fun x => by cases x <;> rfl, rfl, rfl⟩
    all_goals
      subst h
      exact .refl _

theorem Indistinct.like_eq (h : v.Indistinct w) (pattern : Value) :
    like v pattern = like w pattern := by
  have htext := h.text?_eq
  cases v <;> cases w <;> simp_all [text?, like]

theorem Indistinct.compareBy_eq (h : v.Indistinct w) (op : Operator) (expected : Value) :
    compareBy op v expected = compareBy op w expected := by
  cases op <;> simp only [compareBy, h.compare?_eq, h.like_eq]

theorem Indistinct.amongItems_eq (h : v.Indistinct w) (items : List Value) :
    amongItems v items = amongItems w items := by
  induction items with
  | nil => rfl
  | cons x items ih => simp only [amongItems, h.compareBy_eq, ih]

theorem Indistinct.among_eq (h : v.Indistinct w) (op : Operator) (items : List Value) :
    among op v items = among op w items := by
  simp only [among, h.amongItems_eq]

theorem Indistinct.meets_eq (h : v.Indistinct w) (op : Operator) (expected : Value) :
    meets op v expected = meets op w expected := by
  cases expected <;> simp only [meets, h.among_eq, h.compareBy_eq]

end Value

/-! ## Rows -/

/-- The rows hold the same in some columns, or nothing in both. -/
def Row.AgreesOn (columns : String → Prop) (row row' : Row) : Prop :=
  ∀ column, columns column → Option.Rel Value.Alike (row.get? column) (row'.get? column)

theorem Row.AgreesOn.mono {columns columns' : String → Prop} {row row' : Row}
    (h : row.AgreesOn columns row') (hsub : ∀ column, columns' column → columns column) :
    row.AgreesOn columns' row' :=
  fun column hcolumn => h column (hsub column hcolumn)

theorem Column.read?_agrees {c : Column} {row row' : Row}
    (h : Option.Rel Value.Alike (row.get? c.name) (row'.get? c.name)) :
    Option.Rel Value.Indistinct (c.read? row) (c.read? row') := by
  unfold read?
  generalize row.get? c.name = held, row'.get? c.name = held' at h ⊢
  cases h with
  | none => exact .none
  | @some v w h =>
    simp only [Option.bind_some, h.indistinct.toDate?_eq]
    split
    · cases w.toDate? with
      | none => exact .none
      | some d => exact .some (.refl _)
    · exact .some h.indistinct

/-! ## Filters -/

namespace Predicate

variable {row row' : Row}

/-- A leaf of either kind asks for what its column holds. -/
theorem read?_congr {c : Column} {decides : Value → Truth}
    (h : Option.Rel Value.Alike (row.get? c.name) (row'.get? c.name))
    (hdecides : ∀ v w, v.Indistinct w → decides v = decides w) :
    (match c.read? row with | some actual => decides actual | none => Truth.unknown) =
      match c.read? row' with | some actual => decides actual | none => .unknown := by
  have hread := Column.read?_agrees h
  revert hread
  cases c.read? row <;> cases c.read? row' <;> rintro ⟨⟩
  · rfl
  · next hindistinct => exact hdecides _ _ hindistinct

theorem eval_agreesOn {p : Predicate} (h : row.AgreesOn (· ∈ p.columns.map Column.name) row') :
    p.eval row = p.eval row' := by
  induction p with
  | all | nothing | alwaysTrue => rfl
  | compare c op v =>
    exact read?_congr (h c.name (by simp [columns])) fun _ _ hvw => hvw.meets_eq op v
  | membership c op vs =>
    exact read?_congr (h c.name (by simp [columns])) fun _ _ hvw => hvw.among_eq op vs
  | and a b iha ihb =>
    rw [columns, List.map_append] at h
    rw [eval_and, eval_and, iha (h.mono fun _ => List.mem_append_left _),
      ihb (h.mono fun _ => List.mem_append_right _)]
  | or a b iha ihb =>
    rw [columns, List.map_append] at h
    rw [eval_or, eval_or, iha (h.mono fun _ => List.mem_append_left _),
      ihb (h.mono fun _ => List.mem_append_right _)]
  | not a ih => exact congrArg Truth.not (ih h)
  | group a ih => exact ih h

theorem columns_foldl {join : Predicate → Predicate → Predicate}
    (hjoin : ∀ p q, (join p q).columns = p.columns ++ q.columns) (p : Predicate)
    (ps : List Predicate) : (ps.foldl join p).columns = p.columns ++ ps.flatMap columns := by
  induction ps generalizing p with
  | nil => simp
  | cons q ps ih => simp [ih, hjoin]

theorem flatMap_columns_kept (ps : List Predicate) :
    (ps.filter (!·.isAlwaysTrue)).flatMap columns = ps.flatMap columns := by
  induction ps with
  | nil => rfl
  | cons p ps ih =>
    cases p with
    | alwaysTrue => exact ih
    | _ => exact congrArg (_ ++ ·) ih

/-- What the parts of a filter name, they name together. -/
theorem names_flatMap {α : Type} {made : α → Predicate → Prop} {names : α → List String}
    {xs : List α} {ps : List Predicate} (h : List.Forall₂ made xs ps)
    (hnames : ∀ x p, made x p → p.columns.map Column.name = names x) :
    (ps.flatMap columns).map Column.name = xs.flatMap names := by
  induction h with
  | nil => rfl
  | @cons x p _ _ hmade _ ih =>
    rw [List.flatMap_cons, List.map_append, List.flatMap_cons, hnames x p hmade, ih]

end Predicate

/-! ## Rules -/

namespace Condition

variable {r : Resource}

theorem columns_leaf {c : Condition} {q : Predicate} (h : c.leaf r = .ok q) :
    q.columns.map Column.name = [c.column] := by
  cases isLeaf_of_leaf h <;> rfl

theorem columns_leaves {cs : List Condition} {ls : List Predicate} (h : leaves r cs = .ok ls) :
    (ls.flatMap Predicate.columns).map Column.name = cs.map (·.column) := by
  rw [Predicate.names_flatMap (leaves_eq_ok_iff.mp h) fun _ _ => columns_leaf, List.map_eq_flatMap]

end Condition

namespace Policy

/-- The columns that the conditions of some rules name, in their order. -/
def named (ps : List Policy) : List String :=
  ps.flatMap fun p => p.conditions.map (·.column)

variable {r : Resource}

theorem columns_conjunction (ls : List Predicate) :
    (conjunction ls).columns = ls.flatMap Predicate.columns := by
  cases ls with
  | nil => rfl
  | cons p ps => exact Predicate.columns_foldl (fun _ _ => rfl) p ps

theorem columns_union (qs : List Predicate) :
    (union qs).columns = qs.flatMap Predicate.columns := by
  cases qs with
  | nil => rfl
  | cons p ps => exact Predicate.columns_foldl (fun _ _ => rfl) p ps

theorem columns_clause {p : Policy} {q : Predicate} (h : p.clause r = .ok q) :
    q.columns.map Column.name = p.conditions.map (·.column) := by
  obtain ⟨ls, hls, rfl⟩ := clause_eq_ok_iff.mp h
  rw [← Condition.columns_leaves hls, ← columns_conjunction]
  cases p.effect <;> rfl

theorem columns_clauses {ps : List Policy} {qs : List Predicate} (h : clauses r ps = .ok qs) :
    (qs.flatMap Predicate.columns).map Column.name = named ps :=
  Predicate.names_flatMap (clauses_eq_ok_iff.mp h) fun _ _ => columns_clause

/-- A filter reads what its rules name. -/
theorem columns_filter {role : Role} {ps : List Policy} {p : Predicate}
    (h : filter r role ps = .ok p) :
    p.columns.map Column.name = if role = .admin then [] else named ps := by
  rcases filter_eq_ok h with ⟨rfl, rfl⟩ | ⟨rfl, rfl, rfl⟩ | ⟨hadmin, -, qs, hqs, rfl⟩
  · rfl
  · rfl
  · rw [if_neg hadmin, columns_union, Predicate.flatMap_columns_kept, columns_clauses hqs]

theorem contains_of_mem_named {role : Role} {ps : List Policy} {p : Predicate}
    (h : filter r role ps = .ok p) (hadmin : role ≠ .admin) :
    ∀ column ∈ named ps, r.contains column = true := by
  intro column hcolumn
  obtain ⟨q, hq, hcolumn⟩ := List.mem_flatMap.mp hcolumn
  obtain ⟨c, hc, rfl⟩ := List.mem_map.mp hcolumn
  obtain ⟨leaf, hleaf⟩ := leaf_of_filter h hadmin q hq c hc
  cases Condition.isLeaf_of_leaf hleaf <;> assumption

theorem mem_columns_filter {role : Role} {ps : List Policy} {p : Predicate}
    (h : filter r role ps = .ok p) {column : String} (hcolumn : column ∈ p.columns.map Column.name) :
    column ∈ named ps ∧ r.contains column = true := by
  rw [columns_filter h] at hcolumn
  split at hcolumn
  · cases hcolumn
  · next hadmin => exact ⟨hcolumn, contains_of_mem_named h hadmin column hcolumn⟩

/-- Rows that agree on the columns that the rules name have one truth. These are columns of the
resource, administrators apart, so that rows which agree on its columns have one truth as well. -/
theorem eval_filter_agreesOn {role : Role} {ps : List Policy} {p : Predicate}
    (h : filter r role ps = .ok p) :
    (∀ row row' : Row, row.AgreesOn (· ∈ named ps) row' → p.eval row = p.eval row') ∧
      (role ≠ .admin → ∀ column ∈ named ps, r.contains column = true) ∧
      ∀ row row' : Row, row.AgreesOn (r.contains · = true) row' → p.eval row = p.eval row' := by
  refine ⟨fun row row' hagrees => ?_, contains_of_mem_named h, fun row row' hagrees => ?_⟩
  · exact Predicate.eval_agreesOn (hagrees.mono fun _ hcolumn => (mem_columns_filter h hcolumn).1)
  · exact Predicate.eval_agreesOn (hagrees.mono fun _ hcolumn => (mem_columns_filter h hcolumn).2)

/-- Neither a salary nor a note that no rule names, nor the sign of a zero, makes a difference. -/
theorem eval_filter_agreesOn_zero :
    let r := (((Resource.new "users").withColumn "age" .integer).withColumn "score" .float)
      |>.withColumn "region" .text |>.withColumn "salary" .integer
    let rules : List Policy :=
      [⟨.allow, [⟨"score", ">", .int 1⟩, ⟨"region", "eq", .text "EU"⟩]⟩,
        ⟨.deny, [⟨"age", "gteq", .int 18⟩, ⟨"score", "lteq", .int 0⟩]⟩]
    let row := ((Row.empty.set "age" (.int 30)).set "score" (.float ⟨0⟩)).set "salary" (.int 5)
    let row' := ((Row.empty.set "age" (.int 30)).set "score" (.float ⟨0x8000000000000000⟩)).set
      "note" (.text "new")
    ∃ p, filter r .client rules = .ok p ∧ row.AgreesOn (· ∈ named rules) row' ∧
      p.eval row = p.eval row' ∧ p.eval row = .no ∧ r.contains "score" = true := by
  intro r rules row row'
  obtain ⟨p, hp⟩ : ∃ p, filter r .client rules = .ok p := ⟨_, rfl⟩
  have hagrees : row.AgreesOn (· ∈ named rules) row' := by
    intro column hcolumn
    have hmem : column ∈ ["score", "region", "age", "score"] := hcolumn
    simp only [List.mem_cons, List.not_mem_nil, or_false] at hmem
    rcases hmem with rfl | rfl | rfl | rfl
    · exact .some (.inr (by decide))
    · exact .none
    · exact .some (.inl rfl)
    · exact .some (.inr (by decide))
  obtain ⟨heval, hnamed, -⟩ := eval_filter_agreesOn hp
  have hno : p.eval row = .no := by
    rw [eval_eq_verdict hp]
    decide
  exact ⟨p, hp, hagrees, heval row row' hagrees, hno,
    hnamed (by decide) "score" (by decide)⟩

end Policy

end RowPolicy
