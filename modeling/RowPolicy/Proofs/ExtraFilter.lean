import RowPolicy.Store
import RowPolicy.Proofs.Equality
import RowPolicy.Proofs.Traversal
import RowPolicy.Proofs.Text.ByteOrder

/-!
# Extra filters

An extra filter lets a row through if the row's value in the column compares equal to the value
asked for, or to one of the values of a list. A row without the column never agrees. The filters of
a query have leaves unless some column is unknown, and then the first unknown one is reported, in
the order of the bytes of the names.
-/
namespace RowPolicy

/-! ## Agreement of a row -/

/-- Whether a row's column compares equal to a value, or to one of the items of a list. -/
def Row.agrees (row : Row) (column : String) (value : Value) : Bool :=
  match row.get? column, value with
  | none, _ => false
  | some actual, .list items => items.any actual.equals
  | some actual, value => actual.equals value

namespace Query

/-- The leaf of an extra filter on a column that the resource has. -/
def extraFilter (table column : String) : Value → Predicate
  | .list items => .membership ⟨table, column, false⟩ .isIn items
  | value => .compare ⟨table, column, false⟩ .eq value

theorem eval_extraFilter_eq_yes_iff {table column : String} {value : Value} {row : Row} :
    (extraFilter table column value).eval row = .yes ↔ row.agrees column value = true := by
  have hread : Column.read? ⟨table, column, false⟩ row = row.get? column := by
    simp [Column.read?]
  cases value with
  | list items =>
    rw [extraFilter, Predicate.eval, hread]
    cases hget : row.get? column with
    | none => simp [Row.agrees, hget]
    | some actual =>
      cases items with
      | nil => simp [Row.agrees, hget, Value.among]
      | cons v vs => simp [Row.agrees, hget, Value.among, Value.amongItems_eq_yes_iff]
  | _ =>
    rw [extraFilter, Predicate.eval, hread]
    · cases hget : row.get? column with
      | none => simp [Row.agrees, hget]
      | some actual => simp [Row.agrees, hget, Value.meets, Value.compareBy_eq_yes_iff]
    · simp

/-! ## The leaves of a query -/

theorem extraLeaf_eq (r : Resource) (column : String) (value : Value) :
    extraLeaf r column value =
      if r.contains column then .ok (extraFilter r.table column value)
      else .error (.unknownColumn r.name column) := by
  by_cases h : r.contains column = true
  · cases value <;> simp [extraLeaf, Resource.column, extraFilter, h]
  · simp [extraLeaf, Resource.column, h]

theorem extraLeaves_eq_mapM (r : Resource) (extras : List (String × Value)) :
    extraLeaves r extras = extras.mapM fun e => extraLeaf r e.1 e.2 := by
  refine Traversal.eq_mapM (extraLeaves r) rfl (fun e extras => ?_) extras
  cases h : extraLeaf r e.1 e.2 <;> cases hs : extraLeaves r extras <;> simp [extraLeaves, h, hs]

theorem extraLeaves_eq_ok_iff {r : Resource} {extras : List (String × Value)}
    {ps : List Predicate} :
    extraLeaves r extras = .ok ps ↔ (∀ e ∈ extras, r.contains e.1 = true) ∧
      ps = extras.map fun e => extraFilter r.table e.1 e.2 := by
  induction extras generalizing ps with
  | nil => cases ps <;> simp [extraLeaves]
  | cons e extras ih =>
    simp only [extraLeaves_eq_mapM] at ih ⊢
    rw [Traversal.mapM_cons_eq_ok_iff, extraLeaf_eq]
    by_cases h : r.contains e.1 = true <;> simp [h, ih]

/-- Some filter names the unknown column, and all before it name columns of the resource. -/
theorem extraLeaves_eq_error_iff {r : Resource} {extras : List (String × Value)}
    {e : SchemaError} :
    extraLeaves r extras = .error e ↔ ∃ before x after, extras = before ++ x :: after ∧
      (∀ y ∈ before, r.contains y.1 = true) ∧ r.contains x.1 = false ∧
      e = .unknownColumn r.name x.1 := by
  have hok (x : String × Value) : (∃ p, extraLeaf r x.1 x.2 = .ok p) ↔ r.contains x.1 = true := by
    by_cases h : r.contains x.1 = true <;> simp [extraLeaf_eq, h]
  have herror (x : String × Value) :
      extraLeaf r x.1 x.2 = .error e ↔ r.contains x.1 = false ∧ e = .unknownColumn r.name x.1 := by
    by_cases h : r.contains x.1 = true <;> simp [extraLeaf_eq, h, eq_comm]
  simp only [extraLeaves_eq_mapM, Traversal.mapM_eq_error_iff, hok, herror]

/-- A filtered column that the resource lacks, the first one by its bytes. -/
structure IsFirstUnknown (r : Resource) (extras : Std.TreeMap String Value) (column : String) :
    Prop where
  mem : column ∈ extras
  unknown : r.contains column = false
  least : ∀ other ∈ extras, r.contains other = false → utf8 column ≤ utf8 other

theorem extraLeaves_toList_eq_ok_iff {r : Resource} {extras : Std.TreeMap String Value}
    {ps : List Predicate} :
    extraLeaves r extras.toList = .ok ps ↔ (∀ column ∈ extras, r.contains column = true) ∧
      ps = extras.toList.map fun e => extraFilter r.table e.1 e.2 := by
  rw [extraLeaves_eq_ok_iff]
  refine and_congr_left fun _ => ?_
  simp only [← Std.TreeMap.mem_keys, ← Std.TreeMap.map_fst_toList_eq_keys, List.forall_mem_map]

theorem isFirstUnknown_of_error {r : Resource} {extras : Std.TreeMap String Value}
    {e : SchemaError} (h : extraLeaves r extras.toList = .error e) :
    ∃ column, IsFirstUnknown r extras column ∧ e = .unknownColumn r.name column := by
  obtain ⟨before, x, after, split, known, unknown, rfl⟩ := extraLeaves_eq_error_iff.mp h
  have hkeys : extras.keys = before.map Prod.fst ++ x.1 :: after.map Prod.fst := by
    rw [← Std.TreeMap.map_fst_toList_eq_keys, split]
    simp
  have hordered : extras.keys.Pairwise fun a b => compare a b = .lt := Std.TreeMap.ordered_keys
  refine ⟨x.1, ⟨?_, unknown, ?_⟩, rfl⟩
  · rw [← Std.TreeMap.mem_keys, hkeys]
    simp
  · intro other hother hunknown
    rw [← Std.TreeMap.mem_keys, hkeys, List.mem_append, List.mem_cons] at hother
    rcases hother with hb | rfl | ha
    · obtain ⟨y, hy, rfl⟩ := List.mem_map.mp hb
      rw [known y hy] at hunknown
      cases hunknown
    · exact le_rfl
    · rw [hkeys, List.pairwise_append, List.pairwise_cons] at hordered
      have hlt := hordered.2.1.1 other ha
      exact utf8_le_iff.mpr (le_of_lt (compare_lt_iff_lt.mp hlt))

theorem extraLeaves_toList_eq_error_iff {r : Resource} {extras : Std.TreeMap String Value}
    {e : SchemaError} :
    extraLeaves r extras.toList = .error e ↔
      ∃ column, IsFirstUnknown r extras column ∧ e = .unknownColumn r.name column := by
  refine ⟨isFirstUnknown_of_error, ?_⟩
  rintro ⟨column, hfirst, rfl⟩
  cases h : extraLeaves r extras.toList with
  | ok ps =>
    have known := (extraLeaves_toList_eq_ok_iff.mp h).1 column hfirst.mem
    rw [hfirst.unknown] at known
    cases known
  | error e =>
    obtain ⟨other, hother, rfl⟩ := isFirstUnknown_of_error h
    have hle := hfirst.least other hother.mem hother.unknown
    have hge := hother.least column hfirst.mem hfirst.unknown
    rw [utf8_strictMono.injective (le_antisymm hge hle)]

end Query

end RowPolicy
