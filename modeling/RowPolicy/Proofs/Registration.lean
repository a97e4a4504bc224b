import Mathlib.Data.Finset.Card
import Mathlib.Data.List.Induction
import RowPolicy.Resource

/-!
# Setting up a resource

A resource is set up by a series of settings, each of which names its table or adds a column. The
settings alone say what the resource is in the end: its columns are the names that were added, in
the order in which they came first, and the type of each is the one that it was given last.

A resource keeps its columns twice, in a row and in an index of places. `InStep` says that the two
agree. One setting preserves it, so it holds of every resource that was set up, and no place of the
index is beyond the row.

The main statement is `Resource.setUp_registered`.
-/
namespace RowPolicy.Resource

/-! ## Settings -/

inductive Setting where
  | table (name : String)
  | column (name : String) (type : ColumnType)

namespace Setting

def table? : Setting → Option String
  | table name => some name
  | column _ _ => none

def column? : Setting → Option (String × ColumnType)
  | table _ => none
  | column name type => some (name, type)

/-- The columns that are added, those that are added again included. -/
def added (settings : List Setting) : List (String × ColumnType) := settings.filterMap column?

def addedNames (settings : List Setting) : List String := (added settings).map Prod.fst

/-- The type that a column is given last. -/
def lastType? (settings : List Setting) (name : String) : Option ColumnType :=
  ((added settings).reverse.find? (·.1 = name)).map Prod.snd

/-- The table that is named last, if any is. -/
def lastTable (default : String) (settings : List Setting) : String :=
  (settings.filterMap table?).getLastD default

variable (settings : List Setting) (name : String) (type : ColumnType)

@[simp] theorem added_table (table : String) :
    added (settings ++ [.table table]) = added settings := by
  simp [added, column?, List.filterMap]

@[simp] theorem added_column :
    added (settings ++ [.column name type]) = added settings ++ [(name, type)] := by
  simp [added, column?, List.filterMap]

theorem lastType?_column (n : String) :
    lastType? (settings ++ [.column name type]) n =
      if n = name then some type else lastType? settings n := by
  by_cases h : name = n <;> simp [lastType?, h, eq_comm]

theorem lastType?_eq_none_iff (n : String) :
    lastType? settings n = none ↔ n ∉ addedNames settings := by
  simp [lastType?, addedNames]
  grind

@[simp] theorem lastTable_table (default table : String) :
    lastTable default (settings ++ [.table table]) = table := by
  simp [lastTable, table?, List.filterMap]

@[simp] theorem lastTable_column (default : String) :
    lastTable default (settings ++ [.column name type]) = lastTable default settings := by
  simp [lastTable, table?, List.filterMap]

end Setting

def set (r : Resource) : Setting → Resource
  | .table name => r.withTable name
  | .column name type => r.withColumn name type

/-- A new resource after some settings. -/
def setUp (name : String) (settings : List Setting) : Resource := settings.foldl set (new name)

/-! ## Columns and their places -/

variable {r : Resource}

def columnNames (r : Resource) : List String := r.columns.toList.map Prod.fst

/-- The index gives the place of each column and of nothing else. -/
def InStep (r : Resource) : Prop :=
  ∀ (name : String) (place : Nat), r.index[name]? = some place ↔ r.columnNames[place]? = some name

namespace InStep

theorem new (name : String) : (Resource.new name).InStep := by
  intro n place
  simp [Resource.new, columnNames]

theorem lt_size (h : r.InStep) {name : String} {place : Nat} (hplace : r.index[name]? = some place) :
    place < r.columns.size := by
  obtain ⟨hlt, -⟩ := List.getElem?_eq_some_iff.mp ((h name place).mp hplace)
  rwa [columnNames, List.length_map, Array.length_toList] at hlt

theorem nodup (h : r.InStep) : r.columnNames.Nodup := by
  rw [List.nodup_iff_getElem?_ne_getElem?]
  intro i j hij hj hsame
  obtain ⟨name, hname⟩ : ∃ name, r.columnNames[j]? = some name := ⟨_, List.getElem?_eq_getElem hj⟩
  have hi := (h name i).mpr (hsame.trans hname)
  rw [(h name j).mpr hname, Option.some_inj] at hi
  omega

theorem mem_columnNames_iff (h : r.InStep) {name : String} :
    name ∈ r.columnNames ↔ r.contains name = true := by
  rw [List.mem_iff_getElem?, Resource.contains, Std.TreeMap.contains_eq_isSome_getElem?,
    Option.isSome_iff_exists]
  exact exists_congr fun place => (h name place).symm

/-! ### One more column -/

variable {name : String}

theorem index_eq_none (h : r.InStep) (hnew : name ∉ r.columnNames) : r.index[name]? = none := by
  rw [Option.eq_none_iff_forall_ne_some]
  intro place hplace
  exact hnew (List.mem_of_getElem? ((h name place).mp hplace))

/-- A column that is there already is given the type at its place, and nowhere else. -/
theorem withColumn_of_mem (h : r.InStep) (hmem : name ∈ r.columnNames) (type : ColumnType) :
    (r.withColumn name type).index = r.index ∧
      (r.withColumn name type).columns.toList =
        r.columns.toList.map fun c => if c.1 = name then (name, type) else c := by
  obtain ⟨place, hplace⟩ := List.mem_iff_getElem?.mp hmem
  have hindex := (h name place).mpr hplace
  simp only [withColumn, hindex, true_and]
  apply List.ext_getElem?
  intro i
  rw [Array.toList_modify, List.getElem?_modify, List.getElem?_map]
  cases hc : r.columns.toList[i]? with
  | none => simp
  | some c =>
    have hi : r.columnNames[i]? = some c.1 := by simp [columnNames, hc]
    by_cases heq : place = i
    · subst heq
      have hname : c.1 = name := Option.some.inj (hi.symm.trans hplace)
      simp [hname]
    · have hname : c.1 ≠ name := by
        rintro rfl
        exact heq (Option.some.inj (hindex.symm.trans ((h c.1 i).mpr hi)))
      simp [heq, hname]

theorem withColumn_of_notMem (h : r.InStep) (hnew : name ∉ r.columnNames) (type : ColumnType) :
    (r.withColumn name type).index = r.index.insert name r.columns.size ∧
      (r.withColumn name type).columns.toList = r.columns.toList ++ [(name, type)] := by
  simp [withColumn, h.index_eq_none hnew]

theorem columnNames_withColumn (h : r.InStep) (name : String) (type : ColumnType) :
    (r.withColumn name type).columnNames =
      if name ∈ r.columnNames then r.columnNames else r.columnNames ++ [name] := by
  split
  · next hmem =>
    have hfst : Prod.fst ∘ (fun c : String × ColumnType => if c.1 = name then (name, type) else c) =
        Prod.fst := by
      funext c
      simp only [Function.comp_apply]
      split <;> simp_all
    rw [columnNames, (h.withColumn_of_mem hmem type).2, List.map_map, hfst, columnNames]
  · next hnew =>
    rw [columnNames, (h.withColumn_of_notMem hnew type).2]
    simp [columnNames]

theorem withColumn (h : r.InStep) (name : String) (type : ColumnType) :
    (r.withColumn name type).InStep := by
  intro n place
  rw [h.columnNames_withColumn]
  split
  · next hmem =>
    rw [(h.withColumn_of_mem hmem type).1]
    exact h n place
  · next hnew =>
    have hsize : r.columnNames.length = r.columns.size := by simp [columnNames]
    rw [(h.withColumn_of_notMem hnew type).1, Std.TreeMap.getElem?_insert]
    by_cases hn : n = name
    · subst hn
      have hnone : r.columnNames[place]? ≠ some n := fun hplace =>
        hnew (List.mem_of_getElem? hplace)
      grind
    · have hne : ¬compare name n = .eq := by simpa using Ne.symm hn
      rw [if_neg hne, h n place]
      grind

end InStep

/-! ## What the settings say -/

open Setting

/-- A resource is what some settings say. -/
structure Follows (name : String) (settings : List Setting) (r : Resource) : Prop where
  name_eq : r.name = name
  table_eq : r.table = lastTable name settings
  inStep : r.InStep
  columnNames_eq : r.columnNames = (addedNames settings).eraseDups
  type_eq : ∀ c ∈ r.columns.toList, lastType? settings c.1 = some c.2

namespace Follows

variable {name : String} {settings : List Setting}

theorem new (name : String) : Follows name [] (Resource.new name) where
  name_eq := rfl
  table_eq := rfl
  inStep := .new name
  columnNames_eq := rfl
  type_eq := by simp [Resource.new]

theorem mem_columnNames_iff (h : r.Follows name settings) {n : String} :
    n ∈ r.columnNames ↔ n ∈ addedNames settings := by
  rw [h.columnNames_eq, List.mem_eraseDups]

theorem withTable (h : r.Follows name settings) (table : String) :
    (r.withTable table).Follows name (settings ++ [.table table]) where
  name_eq := h.name_eq
  table_eq := (lastTable_table ..).symm
  inStep := h.inStep
  columnNames_eq := by
    rw [addedNames, added_table]
    exact h.columnNames_eq
  type_eq c hc := by
    rw [lastType?, added_table]
    exact h.type_eq c hc

theorem withColumn (h : r.Follows name settings) (n : String) (type : ColumnType) :
    (r.withColumn n type).Follows name (settings ++ [.column n type]) where
  name_eq := by
    rw [← h.name_eq, Resource.withColumn]
    split <;> rfl
  table_eq := by
    rw [lastTable_column, ← h.table_eq, Resource.withColumn]
    split <;> rfl
  inStep := h.inStep.withColumn n type
  columnNames_eq := by
    have hadded : addedNames (settings ++ [.column n type]) = addedNames settings ++ [n] := by
      simp [addedNames]
    rw [h.inStep.columnNames_withColumn, hadded, List.eraseDups_append, ← h.columnNames_eq,
      List.cons_removeAll]
    by_cases hmem : n ∈ addedNames settings <;>
      simp [h.mem_columnNames_iff, hmem, List.eraseDups_cons]
  type_eq c hc := by
    rw [lastType?_column]
    by_cases hmem : n ∈ r.columnNames
    · rw [(h.inStep.withColumn_of_mem hmem type).2] at hc
      obtain ⟨d, hd, rfl⟩ := List.mem_map.mp hc
      by_cases hd' : d.1 = n
      · simp [hd']
      · simp [hd', h.type_eq d hd]
    · rw [(h.inStep.withColumn_of_notMem hmem type).2] at hc
      rcases List.mem_append.mp hc with hold | hnew
      · have hne : c.1 ≠ n := by
          rintro rfl
          exact hmem (List.mem_map_of_mem hold)
        rw [if_neg hne, h.type_eq c hold]
      · obtain rfl := List.mem_singleton.mp hnew
        rw [if_pos rfl]

theorem set (h : r.Follows name settings) (setting : Setting) :
    (r.set setting).Follows name (settings ++ [setting]) := by
  cases setting with
  | table table => exact h.withTable table
  | column n type => exact h.withColumn n type

end Follows

/-- One setting after the other, a resource goes on to be what the settings say. -/
theorem follows_setUp (name : String) (settings : List Setting) :
    (setUp name settings).Follows name settings := by
  induction settings using List.reverseRecOn with
  | nil => exact .new name
  | append_singleton settings setting ih =>
    have hset : setUp name (settings ++ [setting]) = (setUp name settings).set setting := by
      simp [setUp]
    rw [hset]
    exact ih.set setting

namespace Follows

variable {name : String} {settings : List Setting}

theorem contains_iff (h : r.Follows name settings) (n : String) :
    r.contains n = true ↔ n ∈ addedNames settings := by
  rw [← h.inStep.mem_columnNames_iff, h.mem_columnNames_iff]

theorem columnType?_eq (h : r.Follows name settings) (n : String) :
    r.columnType? n = lastType? settings n := by
  cases hindex : r.index[n]? with
  | none =>
    have hnone : n ∉ addedNames settings := by
      rw [← h.contains_iff, contains, Std.TreeMap.contains_eq_isSome_getElem?, hindex]
      simp
    rw [(lastType?_eq_none_iff settings n).mpr hnone, columnType?, hindex]
    rfl
  | some place =>
    have hname := (h.inStep n place).mp hindex
    rw [columnNames, List.getElem?_map, Option.map_eq_some_iff] at hname
    obtain ⟨c, hc, rfl⟩ := hname
    rw [h.type_eq c (List.mem_of_getElem? hc), columnType?, hindex, Option.bind_some,
      ← Array.getElem?_toList, hc]
    rfl

theorem column_eq (h : r.Follows name settings) (n : String) :
    r.column n =
      if n ∈ addedNames settings then .ok ⟨lastTable name settings, n, false⟩
      else .error (.unknownColumn name n) := by
  simp only [column, h.contains_iff, h.table_eq, h.name_eq]

theorem size_eq (h : r.Follows name settings) :
    r.size = (addedNames settings).toFinset.card := by
  have hsame : (addedNames settings).toFinset = r.columnNames.toFinset := by
    ext n
    rw [List.mem_toFinset, List.mem_toFinset, h.mem_columnNames_iff]
  rw [hsame, List.toFinset_card_of_nodup h.inStep.nodup]
  simp [size, columnNames]

end Follows

/-- The index of a resource that was set up gives just the places of its columns, all of which are
there. The columns are the different names that were added, in the order of their first addition and
each with its last type, and these columns and no others have a type and a reference, which is to
the last table. -/
theorem setUp_registered (name : String) (settings : List Setting) :
    let r := setUp name settings
    (∀ (n : String) (place : Nat),
      (r.index[n]? = some place ↔ r.columnNames[place]? = some n) ∧
      (r.index[n]? = some place → place < r.columns.size)) ∧
    r.columnNames.Nodup ∧
    r.size = (addedNames settings).toFinset.card ∧
    r.columnNames = (addedNames settings).eraseDups ∧
    (∀ c ∈ r.columns.toList, lastType? settings c.1 = some c.2) ∧
    ∀ n : String,
      r.columnType? n = lastType? settings n ∧
      (r.columnType? n = none ↔ n ∉ addedNames settings) ∧
      (r.contains n = true ↔ n ∈ addedNames settings) ∧
      r.column n =
        if n ∈ addedNames settings then .ok ⟨lastTable name settings, n, false⟩
        else .error (.unknownColumn name n) := by
  intro r
  have h : r.Follows name settings := follows_setUp name settings
  refine ⟨fun n place => ⟨h.inStep n place, h.inStep.lt_size⟩, h.inStep.nodup, h.size_eq,
    h.columnNames_eq, h.type_eq, fun n => ⟨h.columnType?_eq n, ?_, h.contains_iff n, h.column_eq n⟩⟩
  rw [h.columnType?_eq, lastType?_eq_none_iff]

/-- A column that is added again stays in front of those that came after it. -/
example :
    (setUp "users" [.column "age" .integer, .table "people", .column "name" .text,
      .column "age" .float]).columns = #[("age", .float), ("name", .text)] := by
  decide

end RowPolicy.Resource
