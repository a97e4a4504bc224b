import RowPolicy.Proofs.Verdict

/-!
# The shape of a filter

Whoever writes a filter as a query or runs it may rely on its shape. Where a role alone does not
decide, a filter is a disjunction with an operand for each rule that restricts, in the order of the
rules. An operand is a group, for a denying rule under a negation, and holds a conjunction with a
leaf for each condition, in the order of the conditions. A leaf speaks of the table of the resource
and of one of its columns. Operators of membership stand in leaves of membership only, and the day
of a column is asked for only to compare it with a date.

The main statement is `Policy.filter_shape`.
-/
namespace RowPolicy

namespace Predicate

/-- The nodes without operands, from left to right. -/
def atoms : Predicate → List Predicate
  | and a b | or a b => a.atoms ++ b.atoms
  | not a | group a => a.atoms
  | p => [p]

/-- The columns that a filter names. -/
def columns : Predicate → List Column
  | all | nothing | alwaysTrue => []
  | compare column _ _ | membership column _ _ => [column]
  | and a b | or a b => columns a ++ columns b
  | not a | group a => columns a

/-- The nodes that say the same of every row. -/
def isConstant : Predicate → Bool
  | all | nothing | alwaysTrue => true
  | _ => false

def constants (p : Predicate) : List Predicate := p.atoms.filter isConstant

@[simp] theorem atoms_and (a b : Predicate) : (and a b).atoms = a.atoms ++ b.atoms := rfl
@[simp] theorem atoms_or (a b : Predicate) : (or a b).atoms = a.atoms ++ b.atoms := rfl
@[simp] theorem atoms_not (a : Predicate) : (not a).atoms = a.atoms := rfl
@[simp] theorem atoms_group (a : Predicate) : (group a).atoms = a.atoms := rfl

/-! ## Operands joined from the left -/

/-- Operands joined from the left, one for each member of a list and in their order. -/
inductive Nested {α : Type} (join : Predicate → Predicate → Predicate)
    (Operand : α → Predicate → Prop) : List α → Predicate → Prop where
  | single {a : α} {p : Predicate} (h : Operand a p) : Nested join Operand [a] p
  | snoc {as : List α} {a : α} {p q : Predicate} (h : Nested join Operand as p)
      (ha : Operand a q) : Nested join Operand (as ++ [a]) (join p q)

variable {α : Type} {join : Predicate → Predicate → Predicate} {Operand : α → Predicate → Prop}

theorem Nested.foldl {as bs : List α} {p : Predicate} {qs : List Predicate}
    (h : Nested join Operand as p) (hs : List.Forall₂ Operand bs qs) :
    Nested join Operand (as ++ bs) (qs.foldl join p) := by
  induction hs generalizing as p with
  | nil => rwa [List.append_nil]
  | @cons b q bs qs hb _ ih =>
    rw [List.foldl_cons, List.append_cons]
    exact ih (h.snoc hb)

theorem nested_foldl {a : α} {as : List α} {p : Predicate} {ps : List Predicate}
    (h : List.Forall₂ Operand (a :: as) (p :: ps)) :
    Nested join Operand (a :: as) (ps.foldl join p) := by
  obtain ⟨ha, has⟩ := List.forall₂_cons.mp h
  exact (Nested.single ha).foldl has

/-- Every node without operands comes from one of the operands. -/
theorem Nested.exists_of_mem_atoms (hjoin : ∀ p q, (join p q).atoms = p.atoms ++ q.atoms)
    {as : List α} {p x : Predicate} (h : Nested join Operand as p) (hx : x ∈ p.atoms) :
    ∃ a ∈ as, ∃ q, Operand a q ∧ x ∈ q.atoms := by
  induction h with
  | @single a p h => exact ⟨a, by simp, p, h, hx⟩
  | @snoc as a p q _ ha ih =>
    rw [hjoin, List.mem_append] at hx
    rcases hx with hx | hx
    · obtain ⟨b, hb, hmem⟩ := ih hx
      exact ⟨b, by simp [hb], hmem⟩
    · exact ⟨a, by simp, q, ha, hx⟩

theorem Nested.constants (hjoin : ∀ p q, (join p q).atoms = p.atoms ++ q.atoms)
    {as : List α} {p : Predicate} (h : Nested join Operand as p) {own : α → List Predicate}
    (hown : ∀ a q, Operand a q → q.constants = own a) : p.constants = as.flatMap own := by
  induction h with
  | @single a p h => simp [hown a p h]
  | @snoc as a p q _ ha ih =>
    rw [List.flatMap_append, ← ih, Predicate.constants, hjoin, List.filter_append]
    simp [Predicate.constants, ← hown a q ha]

end Predicate

/-! ## Leaves -/

namespace Condition

/-- The leaf of a condition on a registered column. -/
inductive IsLeaf (r : Resource) (c : Condition) : Predicate → Prop where
  | compare {op : Operator} (hcol : r.contains c.column = true)
      (hop : Operator.ofToken? c.predicate = some op) (hm : op.isMembership = false) (v : Value) :
      IsLeaf r c (.compare ⟨r.table, c.column, v.isDate⟩ op v)
  | membership {op : Operator} (hcol : r.contains c.column = true)
      (hop : Operator.ofToken? c.predicate = some op) (hm : op.isMembership = true)
      (vs : List Value) : IsLeaf r c (.membership ⟨r.table, c.column, false⟩ op vs)

variable {r : Resource} {c : Condition}

theorem contains_of_columnType? {column : String} {type : ColumnType}
    (h : r.columnType? column = some type) : r.contains column = true := by
  obtain ⟨place, hplace, -⟩ := Option.bind_eq_some_iff.mp h
  rw [Resource.contains, Std.TreeMap.contains_eq_isSome_getElem?, hplace]
  rfl

/-- An operator of membership has a list in front of it, whatever was given. -/
theorem exists_normalized_eq_list {op : Operator} (hm : op.isMembership = true) (v : Value) :
    ∃ items, normalized op v = .list items := by
  simp only [normalized, hm, if_true]
  cases v <;> exact ⟨_, rfl⟩

theorem exists_aligned_eq_list {op : Operator} (hm : op.isMembership = true) (type : ColumnType)
    (v : Value) : ∃ items, aligned type op (normalized op v) = .list items := by
  obtain ⟨items, hitems⟩ := exists_normalized_eq_list hm v
  refine ⟨items, ?_⟩
  rw [hitems, aligned]
  split <;> rfl

theorem leafOf_comparison {op : Operator} (hm : op.isMembership = false) (table column : String)
    (type : ColumnType) (v : Value) :
    leafOf table column type op v =
      .compare ⟨table, column, (aligned type op v).isDate⟩ op (aligned type op v) := by
  have hnormalized : normalized op v = v := by simp [normalized, hm]
  simp only [leafOf, hm, hnormalized]
  split <;> simp_all

theorem isLeaf_leafOf (hcol : r.contains c.column = true) {op : Operator}
    (hop : Operator.ofToken? c.predicate = some op) (type : ColumnType) :
    c.IsLeaf r (leafOf r.table c.column type op c.value) := by
  cases hm : op.isMembership with
  | true =>
    obtain ⟨items, hitems⟩ := exists_aligned_eq_list hm type c.value
    simp only [leafOf, hitems, hm, if_true]
    exact .membership hcol hop hm _
  | false =>
    rw [leafOf_comparison hm]
    exact .compare hcol hop hm _

/-- A condition that compiles has a registered column and an operator. -/
theorem exists_leafOf_of_leaf {q : Predicate} (h : c.leaf r = .ok q) :
    ∃ type op, r.columnType? c.column = some type ∧ Operator.ofToken? c.predicate = some op ∧
      q = leafOf r.table c.column type op c.value := by
  unfold leaf at h
  split at h
  · cases h
  · next type hcol =>
    split at h
    · cases h
    · next op hop =>
      cases h
      exact ⟨type, op, hcol, hop, rfl⟩

theorem isLeaf_of_leaf {q : Predicate} (h : c.leaf r = .ok q) : c.IsLeaf r q := by
  obtain ⟨type, op, hcol, hop, rfl⟩ := exists_leafOf_of_leaf h
  exact isLeaf_leafOf (contains_of_columnType? hcol) hop type

theorem IsLeaf.atoms {q : Predicate} (h : c.IsLeaf r q) : q.atoms = [q] := by
  cases h <;> rfl

theorem IsLeaf.constants {q : Predicate} (h : c.IsLeaf r q) : q.constants = [] := by
  cases h <;> rfl

end Condition

/-! ## Rules -/

namespace Policy

/-- Allows nothing, since it denies every row. -/
def deniesAll (p : Policy) : Bool := p.effect = .deny && p.conditions.isEmpty

/-- The operand of a rule that restricts. -/
inductive IsClause (r : Resource) : Policy → Predicate → Prop where
  | allow {cs : List Condition} {p : Predicate}
      (h : Predicate.Nested .and (Condition.IsLeaf r) cs p) : IsClause r ⟨.allow, cs⟩ (.group p)
  | deny {cs : List Condition} {p : Predicate}
      (h : Predicate.Nested .and (Condition.IsLeaf r) cs p) :
      IsClause r ⟨.deny, cs⟩ (.not (.group p))
  | denyAll : IsClause r ⟨.deny, []⟩ (.not .alwaysTrue)

/-- The filter of a role and its rules. -/
inductive HasShape (r : Resource) : Role → List Policy → Predicate → Prop where
  | admin (ps : List Policy) : HasShape r .admin ps .all
  | nothing : HasShape r .client [] .nothing
  | unrestricted {role : Role} {ps : List Policy} (hclient : role = .client → ps ≠ [])
      (hopen : ∀ q ∈ ps, q.isOpen = true) : HasShape r role ps .all
  | union {role : Role} {ps : List Policy} {p : Predicate} (hadmin : role ≠ .admin)
      (h : Predicate.Nested .or (IsClause r) (ps.filter (!·.isOpen)) p) : HasShape r role ps p

variable {r : Resource}

theorem isClause_of_clause {p : Policy} {q : Predicate} (hq : p.clause r = .ok q)
    (hopen : p.isOpen = false) : IsClause r p q := by
  obtain ⟨ls, hls, rfl⟩ := clause_eq_ok_iff.mp hq
  have hleaves : List.Forall₂ (Condition.IsLeaf r) p.conditions ls :=
    (Condition.leaves_eq_ok_iff.mp hls).imp fun _ _ => Condition.isLeaf_of_leaf
  obtain ⟨effect, conditions⟩ := p
  cases hleaves with
  | nil =>
    cases effect with
    | allow => cases hopen
    | deny => exact .denyAll
  | cons hc hcs =>
    have hnested : Predicate.Nested .and (Condition.IsLeaf r) _ _ :=
      Predicate.nested_foldl (.cons hc hcs)
    cases effect with
    | allow => exact .allow hnested
    | deny => exact .deny hnested

/-- The clauses that a union keeps are those of the rules that restrict. -/
theorem forall₂_isClause_kept {ps : List Policy} {qs : List Predicate}
    (h : clauses r ps = .ok qs) :
    List.Forall₂ (IsClause r) (ps.filter (!·.isOpen)) (qs.filter (!·.isAlwaysTrue)) := by
  rw [clauses_eq_ok_iff] at h
  induction h with
  | nil => exact .nil
  | @cons p q ps qs hq _ ih =>
    have hkept := isAlwaysTrue_clause hq
    cases hopen : p.isOpen with
    | true => simpa [hopen, hkept] using ih
    | false => simpa [hopen, hkept] using ⟨isClause_of_clause hq hopen, ih⟩

theorem hasShape_of_filter {role : Role} {ps : List Policy} {p : Predicate}
    (h : filter r role ps = .ok p) : HasShape r role ps p := by
  rcases filter_eq_ok h with ⟨rfl, rfl⟩ | ⟨rfl, rfl, rfl⟩ | ⟨hadmin, hclient, qs, hqs, rfl⟩
  · exact .admin ps
  · exact .nothing
  · have hclauses := forall₂_isClause_kept hqs
    cases hkept : qs.filter (!·.isAlwaysTrue) with
    | nil =>
      rw [hkept, List.forall₂_nil_right_iff, List.filter_eq_nil_iff] at hclauses
      exact .unrestricted hclient (by simpa using hclauses)
    | cons q kept =>
      rw [hkept] at hclauses
      obtain ⟨p, ps', hps⟩ : ∃ p ps', ps.filter (!·.isOpen) = p :: ps' :=
        List.exists_cons_of_ne_nil fun hnil => by simp [hnil] at hclauses
      rw [hps] at hclauses
      refine .union hadmin ?_
      rw [hps]
      exact Predicate.nested_foldl hclauses

/-! ### Nodes without operands -/

theorem IsClause.exists_of_mem_atoms {p : Policy} {q x : Predicate} (h : IsClause r p q)
    (hx : x ∈ q.atoms) (hconstant : x.isConstant = false) : ∃ c ∈ p.conditions, c.IsLeaf r x := by
  have hleaf {cs : List Condition} {q : Predicate}
      (h : Predicate.Nested .and (Condition.IsLeaf r) cs q) (hx : x ∈ q.atoms) :
      ∃ c ∈ cs, c.IsLeaf r x := by
    obtain ⟨c, hc, leaf, hleaf, hmem⟩ := h.exists_of_mem_atoms Predicate.atoms_and hx
    rw [hleaf.atoms, List.mem_singleton] at hmem
    exact ⟨c, hc, hmem ▸ hleaf⟩
  cases h with
  | allow h | deny h => exact hleaf h hx
  | denyAll =>
    obtain rfl : x = .alwaysTrue := List.mem_singleton.mp hx
    cases hconstant

theorem IsClause.constants {p : Policy} {q : Predicate} (h : IsClause r p q) :
    q.constants = if p.deniesAll then [.alwaysTrue] else [] := by
  have hnone {cs : List Condition} {q : Predicate}
      (h : Predicate.Nested .and (Condition.IsLeaf r) cs q) : q.constants = [] ∧ cs ≠ [] := by
    constructor
    · rw [h.constants Predicate.atoms_and fun c leaf hleaf => hleaf.constants]
      simp
    · cases h <;> simp
  cases h with
  | allow h => exact (hnone h).1
  | deny h =>
    rw [if_neg (by simp [deniesAll, (hnone h).2])]
    exact (hnone h).1
  | denyAll => rfl

theorem flatMap_deniesAll (ps : List Policy) :
    ((ps.filter (!·.isOpen)).flatMap fun p =>
      if p.deniesAll then [Predicate.alwaysTrue] else []) =
      List.replicate (ps.countP deniesAll) .alwaysTrue := by
  induction ps with
  | nil => rfl
  | cons p ps ih =>
    cases hopen : p.isOpen with
    | true =>
      have hdenies : p.deniesAll = false := by
        simp only [isOpen, Bool.and_eq_true, decide_eq_true_eq] at hopen
        simp [deniesAll, hopen.1]
      simp [hopen, hdenies, ih]
    | false => cases hdenies : p.deniesAll <;> simp [hopen, hdenies, ih, List.replicate_succ]

/-- A filter has its shape, with no constant but one for each rule that denies all, and every other
node without operands is the leaf of a condition. -/
theorem filter_shape {role : Role} {ps : List Policy} {p : Predicate}
    (h : filter r role ps = .ok p) :
    HasShape r role ps p ∧
      (p = .all ∨ p = .nothing ∨
        p.constants = List.replicate (ps.countP deniesAll) .alwaysTrue) ∧
      ∀ x ∈ p.atoms, x.isConstant = false → ∃ q ∈ ps, ∃ c ∈ q.conditions, c.IsLeaf r x := by
  have hshape := hasShape_of_filter h
  refine ⟨hshape, ?_⟩
  cases hshape with
  | admin | unrestricted => exact ⟨.inl rfl, by simp [Predicate.atoms, Predicate.isConstant]⟩
  | nothing => exact ⟨.inr (.inl rfl), by simp [Predicate.atoms, Predicate.isConstant]⟩
  | union _ hunion =>
    refine ⟨.inr (.inr ?_), fun x hx hconstant => ?_⟩
    · rw [hunion.constants Predicate.atoms_or fun q clause hclause => hclause.constants]
      exact flatMap_deniesAll ps
    · obtain ⟨q, hq, clause, hclause, hmem⟩ := hunion.exists_of_mem_atoms Predicate.atoms_or hx
      exact ⟨q, (List.mem_filter.mp hq).1, hclause.exists_of_mem_atoms hmem hconstant⟩

/-- The rule that allows every row leaves no trace, and the one that denies every row a constant. -/
theorem filter_shape_denial :
    let r := ((Resource.new "users").withColumn "born" .date).withColumn "age" .integer
    let rules : List Policy := [⟨.allow, []⟩,
      ⟨.deny, [⟨"born", "<", .text "1990-01-01"⟩, ⟨"age", "in", .text "18;21"⟩]⟩, ⟨.deny, []⟩]
    ∃ p, filter r .client rules = .ok p ∧ HasShape r .client rules p ∧
      p.constants = [.alwaysTrue] :=
  ⟨_, rfl, (filter_shape rfl).1, rfl⟩

end Policy

end RowPolicy
