import Mathlib.Data.List.Induction
import RowPolicy.Proofs.ExtraFilter

/-!
# What an access check sees of the past

A catalog and a store come about by a history of changes: resources are registered and rows are
appended, in any order. The history alone says what an access check answers. The resource is the
one registered last under the name, and the rows are all that were ever appended to its table.

`AccessCheck.Outcome` lists the answers with the circumstances of each, and the main statement is
`AccessCheck.answer_eq_iff_outcome`: a check answers exactly so, and changes to other resources
and tables could as well not have happened.
-/
namespace RowPolicy

/-! ## Changes -/

inductive Change where
  | register (r : Resource)
  | append (table : String) (rows : List Row)

namespace Change

def resource? : Change → Option Resource
  | register r => some r
  | append _ _ => none

/-- The rows that a change brings to a table. -/
def rowsFor (table : String) : Change → List Row
  | register _ => []
  | append t rows => if t = table then rows else []

/-- Whether a change is about a resource's name or about a table. -/
def concerns (name table : String) : Change → Bool
  | register r => r.name = name
  | append t _ => t = table

end Change

/-- A catalog and a store next to each other. -/
structure Memory where
  catalog : Catalog
  store : Store

namespace Memory

def empty : Memory := ⟨.empty, .empty⟩

def step (m : Memory) : Change → Memory
  | .register r => { m with catalog := m.catalog.insert r }
  | .append table rows => { m with store := m.store.append table rows }

/-- What a history of changes leaves behind. -/
def after (history : List Change) : Memory := history.foldl step empty

end Memory

/-! ## Views of a history -/

namespace History

/-- The resource that was registered last under a name. -/
def registered? (history : List Change) (name : String) : Option Resource :=
  (history.filterMap Change.resource?).reverse.find? (·.name = name)

/-- All rows that were appended to a table. -/
def appended (history : List Change) (table : String) : List Row :=
  history.flatMap (Change.rowsFor table)

theorem registered?_concat (history : List Change) (change : Change) (name : String) :
    registered? (history ++ [change]) name =
      (change.resource?.filter (·.name = name)).or (registered? history name) := by
  cases change with
  | append table rows => simp [registered?, Change.resource?, List.filterMap]
  | register r =>
    by_cases h : r.name = name <;>
      simp [registered?, Change.resource?, List.filterMap, Option.filter, h]

theorem appended_concat (history : List Change) (change : Change) (table : String) :
    appended (history ++ [change]) table = appended history table ++ change.rowsFor table := by
  simp [appended]

theorem registered?_filter_concerns (history : List Change) (name table : String) :
    registered? (history.filter (·.concerns name table)) name = registered? history name := by
  induction history using List.reverseRecOn with
  | nil => rfl
  | append_singleton history change ih =>
    rw [List.filter_append, registered?_concat]
    by_cases h : change.concerns name table = true
    · rw [List.filter_cons_of_pos h, List.filter_nil, registered?_concat, ih]
    · have hother : change.resource?.filter (·.name = name) = none := by
        cases change with
        | register r => simpa [Change.resource?, Option.filter, Change.concerns] using h
        | append t rows => rfl
      rw [List.filter_cons_of_neg h, List.filter_nil, List.append_nil, ih, hother, Option.none_or]

theorem appended_filter_concerns (history : List Change) (name table : String) :
    appended (history.filter (·.concerns name table)) table = appended history table := by
  induction history with
  | nil => rfl
  | cons change history ih =>
    by_cases h : change.concerns name table = true
    · rw [List.filter_cons_of_pos h, appended, appended, List.flatMap_cons, List.flatMap_cons]
      exact congrArg (change.rowsFor table ++ ·) ih
    · have hother : change.rowsFor table = [] := by
        cases change with
        | register r => rfl
        | append t rows => exact if_neg (by simpa [Change.concerns] using h)
      rw [List.filter_cons_of_neg h, ih, appended, appended, List.flatMap_cons, hother,
        List.nil_append]

end History

namespace Memory

theorem get?_catalog_step (m : Memory) (change : Change) (name : String) :
    (m.step change).catalog.get? name =
      (change.resource?.filter (·.name = name)).or (m.catalog.get? name) := by
  cases change with
  | register r =>
    by_cases h : r.name = name <;>
      simp [step, Catalog.insert, Catalog.get?, Change.resource?, Option.filter,
        Std.TreeMap.getElem?_insert, h]
  | append table rows => simp [step, Change.resource?]

theorem rows_store_step (m : Memory) (change : Change) (table : String) :
    (m.step change).store.rows table = m.store.rows table ++ change.rowsFor table := by
  cases change with
  | register r => simp [step, Change.rowsFor]
  | append t rows =>
    by_cases h : t = table <;>
      simp [step, Store.append, Store.rows, Change.rowsFor, Std.TreeMap.getD_insert, h]

theorem after_concat (history : List Change) (change : Change) :
    after (history ++ [change]) = (after history).step change := by
  simp [after]

theorem get?_catalog_after (history : List Change) (name : String) :
    (after history).catalog.get? name = History.registered? history name := by
  induction history using List.reverseRecOn with
  | nil => simp [after, empty, Catalog.empty, Catalog.get?, History.registered?]
  | append_singleton history change ih =>
    rw [after_concat, get?_catalog_step, ih, History.registered?_concat]

theorem rows_store_after (history : List Change) (table : String) :
    (after history).store.rows table = History.appended history table := by
  induction history using List.reverseRecOn with
  | nil => simp [after, empty, Store.empty, Store.rows, History.appended]
  | append_singleton history change ih =>
    rw [after_concat, rows_store_step, ih, History.appended_concat]

end Memory

/-! ## Queries -/

theorem Predicate.isNothing_iff {p : Predicate} : p.isNothing = true ↔ p = .nothing := by
  cases p <;> simp [Predicate.isNothing]

namespace Query

/-- A row passes the filter together with the extra filters if it passes each. -/
theorem passes_merged {q : Query} {leaves : List Predicate}
    (h : extraLeaves q.resource q.extras = .ok leaves) :
    ∃ p, q.merged = .ok p ∧ ∀ row, p.passes row = true ↔
      q.filter.eval row = .yes ∧ ∀ leaf ∈ leaves, leaf.eval row = .yes := by
  cases leaves with
  | nil => exact ⟨q.filter, by simp [merged, h], by simp [Predicate.passes]⟩
  | cons leaf leaves =>
    refine ⟨q.filter.and (leaves.foldl .and leaf), by simp [merged, h], fun row => ?_⟩
    simp [Predicate.passes, Truth.and_eq_yes_iff, Predicate.eval_foldl_and, Truth.all_eq_yes_iff]

end Query

namespace Store

theorem execute_nothing (s : Store) {q : Query} (h : q.filter = .nothing) :
    s.execute q = .ok [] := by
  simp [execute, h, Predicate.isNothing]

theorem execute_error (s : Store) {q : Query} {e : SchemaError} (hne : q.filter ≠ .nothing)
    (h : Query.extraLeaves q.resource q.extras = .error e) : s.execute q = .error e := by
  have hne' := mt Predicate.isNothing_iff.mp hne
  simp [execute, hne', Query.merged, h]

theorem execute_rows (s : Store) {q : Query} (hne : q.filter ≠ .nothing)
    (known : ∀ e ∈ q.extras, q.resource.contains e.1 = true) :
    s.execute q = .ok ((s.rows q.resource.table).filter fun row =>
      q.filter.eval row = .yes ∧ ∀ e ∈ q.extras, row.agrees e.1 e.2 = true) := by
  have hne' := mt Predicate.isNothing_iff.mp hne
  obtain ⟨p, hp, hpass⟩ := Query.passes_merged (Query.extraLeaves_eq_ok_iff.mpr ⟨known, rfl⟩)
  simp only [execute, hne', hp]
  rw [if_neg (by simp)]
  congr 1
  refine List.filter_congr fun row _ => ?_
  rw [Bool.eq_iff_iff, hpass, decide_eq_true_iff]
  simp only [List.forall_mem_map, Query.eval_extraFilter_eq_yes_iff]

end Store

/-! ## Answers -/

namespace AccessCheck

theorem visibleRows_eq (c : AccessCheck) (catalog : Catalog) (s : Store) :
    c.visibleRows catalog s =
      match catalog.get? c.resource with
      | none => .error (.unknownResource c.resource)
      | some r =>
        match Policy.filter r c.role c.policies with
        | .error e => .error (.schema e)
        | .ok p => (s.execute ⟨r, p, c.extras.toList⟩).mapError .executor := by
  unfold visibleRows run query filter
  cases catalog.get? c.resource with
  | none => rfl
  | some r => cases hp : Policy.filter r c.role c.policies <;> simp only [hp]

/-- The answers of a check after a history, each with the circumstances in which it is given. -/
inductive Outcome (c : AccessCheck) (history : List Change) :
    Except (CheckError SchemaError) (List Row) → Prop where
  | unknownResource (hr : History.registered? history c.resource = none) :
    Outcome c history (.error (.unknownResource c.resource))
  | schema {r : Resource} {e : SchemaError} (hr : History.registered? history c.resource = some r)
    (hp : Policy.filter r c.role c.policies = .error e) :
    Outcome c history (.error (.schema e))
  | nothing {r : Resource} (hr : History.registered? history c.resource = some r)
    (hp : Policy.filter r c.role c.policies = .ok .nothing) :
    Outcome c history (.ok [])
  | unknownColumn {r : Resource} {p : Predicate} {column : String}
    (hr : History.registered? history c.resource = some r)
    (hp : Policy.filter r c.role c.policies = .ok p) (hne : p ≠ .nothing)
    (first : Query.IsFirstUnknown r c.extras column) :
    Outcome c history (.error (.executor (.unknownColumn r.name column)))
  | rows {r : Resource} {p : Predicate} (hr : History.registered? history c.resource = some r)
    (hp : Policy.filter r c.role c.policies = .ok p) (hne : p ≠ .nothing)
    (known : ∀ column ∈ c.extras, r.contains column = true) :
    Outcome c history (.ok ((History.appended history r.table).filter fun row =>
      p.eval row = .yes ∧ ∀ e ∈ c.extras.toList, row.agrees e.1 e.2 = true))

/-- The answer of a check when a history of changes is over. -/
def answer (c : AccessCheck) (history : List Change) :
    Except (CheckError SchemaError) (List Row) :=
  c.visibleRows (Memory.after history).catalog (Memory.after history).store

theorem answer_eq_of_outcome {c : AccessCheck} {history : List Change}
    {a : Except (CheckError SchemaError) (List Row)} (h : c.Outcome history a) :
    c.answer history = a := by
  rw [answer, visibleRows_eq, Memory.get?_catalog_after]
  cases h with
  | unknownResource hr => rw [hr]
  | schema hr hp => simp only [hr, hp]
  | nothing hr hp => simp only [hr, hp, Store.execute_nothing, Except.mapError]
  | @unknownColumn r p column hr hp hne first =>
    have herror := Query.extraLeaves_toList_eq_error_iff.mpr ⟨column, first, rfl⟩
    have hexec :=
      (Memory.after history).store.execute_error (q := ⟨r, p, c.extras.toList⟩) hne herror
    simp only [hr, hp, hexec, Except.mapError]
  | @rows r p hr hp hne known =>
    have hleaves := Query.extraLeaves_toList_eq_ok_iff.mpr ⟨known, rfl⟩
    have hknown := (Query.extraLeaves_eq_ok_iff.mp hleaves).1
    have hexec :=
      (Memory.after history).store.execute_rows (q := ⟨r, p, c.extras.toList⟩) hne hknown
    simp only [hr, hp, hexec, Except.mapError, Memory.rows_store_after]

theorem exists_outcome (c : AccessCheck) (history : List Change) : ∃ a, c.Outcome history a := by
  cases hr : History.registered? history c.resource with
  | none => exact ⟨_, .unknownResource hr⟩
  | some r =>
    cases hp : Policy.filter r c.role c.policies with
    | error e => exact ⟨_, .schema hr hp⟩
    | ok p =>
      by_cases hne : p = .nothing
      · subst hne
        exact ⟨_, .nothing hr hp⟩
      · cases hl : Query.extraLeaves r c.extras.toList with
        | ok leaves => exact ⟨_, .rows hr hp hne (Query.extraLeaves_toList_eq_ok_iff.mp hl).1⟩
        | error e =>
          obtain ⟨column, first, -⟩ := Query.extraLeaves_toList_eq_error_iff.mp hl
          exact ⟨_, .unknownColumn hr hp hne first⟩

/-- An outcome depends on the history only by what was registered last under the check's resource
and by the rows of its table. -/
theorem Outcome.congr {c : AccessCheck} {history other : List Change}
    {a : Except (CheckError SchemaError) (List Row)} (h : c.Outcome history a)
    (hr : History.registered? other c.resource = History.registered? history c.resource)
    (hrows : ∀ r, History.registered? history c.resource = some r →
      History.appended other r.table = History.appended history r.table) :
    c.Outcome other a := by
  cases h with
  | unknownResource h => exact .unknownResource (hr.trans h)
  | schema h hp => exact .schema (hr.trans h) hp
  | nothing h hp => exact .nothing (hr.trans h) hp
  | unknownColumn h hp hne first => exact .unknownColumn (hr.trans h) hp hne first
  | rows h hp hne known =>
    rw [← hrows _ h]
    exact .rows (hr.trans h) hp hne known

/-- A check gives exactly the answer of its circumstances, and the changes that concern neither its
resource nor the resource's table have no part in it. -/
theorem answer_eq_iff_outcome (c : AccessCheck) (history : List Change) :
    (∀ a, c.answer history = a ↔ c.Outcome history a) ∧
      ∀ r, History.registered? history c.resource = some r →
        c.answer (history.filter (·.concerns c.resource r.table)) = c.answer history := by
  have hiff (a) : c.answer history = a ↔ c.Outcome history a := by
    refine ⟨?_, answer_eq_of_outcome⟩
    rintro rfl
    obtain ⟨a, ha⟩ := exists_outcome c history
    rwa [answer_eq_of_outcome ha]
  refine ⟨hiff, fun r hr => answer_eq_of_outcome ?_⟩
  refine ((hiff _).mp rfl).congr (History.registered?_filter_concerns ..) fun r' hr' => ?_
  rw [hr, Option.some_inj] at hr'
  subst hr'
  exact History.appended_filter_concerns ..

/-- Equal rows stay, each in its place, and the first table of the resource is forgotten. -/
theorem answer_eq_iff_outcome_moved :
    let first := ((Resource.new "users").withTable "people").withColumn "age" .integer
    let users := ((Resource.new "users").withTable "accounts").withColumn "age" .integer
    let row (n : Int64) := Row.empty.set "age" (.int n)
    let history : List Change :=
      [.append "accounts" [row 30], .register first, .append "people" [row 30], .register users,
        .register (Resource.new "people"), .append "accounts" [row 17, row 20, row 30]]
    let rules : List Policy := [⟨.allow, [⟨"age", ">", .int 17⟩]⟩]
    let extra : Value := .list [.int 17, .int 30]
    let check := ((AccessCheck.new "users").withPolicies rules).withExtra "age" extra
    History.registered? history "users" = some users ∧
      check.Outcome history (.ok [row 30, row 30]) ∧
      check.answer (history.filter (·.concerns "users" users.table)) = check.answer history :=
  ⟨rfl, ((answer_eq_iff_outcome _ _).1 _).mp rfl, (answer_eq_iff_outcome _ _).2 _ rfl⟩

end AccessCheck

end RowPolicy
