import RowPolicy.Proofs.Complement
import RowPolicy.Proofs.Number.Digits
import RowPolicy.Proofs.Text.Delimited

/-!
# A delimited text in place of a list

The value of a membership condition may be a list or one text with its elements: each perhaps
between white space, with runs of separators between them and perhaps a run at the end. How the
elements are laid out is arbitrary, and so are the type of the column and the operator. The leaf is
the one for the list of these texts. In a column of integers it is also the one for the list of the
integers whose decimal texts they are.

The main statement is `Condition.leaf_laid`.
-/
namespace RowPolicy

namespace Delimited

/-- What one piece of a text can hold as an element. -/
structure IsElement (e : List Char) : Prop where
  ne_nil : e ≠ []
  plain : IsPlain e
  trimmed : IsTrimmed e

/-- Elements laid out in one text. -/
inductive Laid : List (List Char) → List Char → Prop where
  | last {e before after tail : List Char} (hbefore : IsWhite before) (hafter : IsWhite after)
      (htail : ∀ c ∈ tail, isSeparator c = true) : Laid [e] (before ++ (e ++ after) ++ tail)
  | cons {e before after run rest : List Char} {es : List (List Char)}
      (hbefore : IsWhite before) (hafter : IsWhite after) (hrun : IsRun run)
      (hrest : Laid es rest) :
      Laid (e :: es) (before ++ (e ++ after) ++ (run ++ rest))

variable {e before after cs : List Char} {es : List (List Char)}

theorem isSeparator_eq_false_of_isBlank {c : Char} (h : isBlank c = true) :
    isSeparator c = false := by
  simp only [isSeparator, Bool.or_eq_false_iff, beq_eq_false_iff_ne]
  constructor <;> rintro rfl <;> revert h <;> decide

/-- White space around an element does not part it. -/
theorem IsElement.isPlain_padded (h : IsElement e) (hbefore : IsWhite before)
    (hafter : IsWhite after) : IsPlain (before ++ (e ++ after)) := by
  intro c hc
  simp only [List.mem_append] at hc
  rcases hc with hc | hc | hc
  · exact isSeparator_eq_false_of_isBlank (hbefore c hc)
  · exact h.plain c hc
  · exact isSeparator_eq_false_of_isBlank (hafter c hc)

theorem IsElement.isCore_padded (h : IsElement e) (hbefore : IsWhite before)
    (hafter : IsWhite after) : IsCore (before ++ (e ++ after)) e :=
  ⟨⟨before, after, rfl, hbefore, hafter⟩, h.trimmed⟩

theorem Laid.exists_first (h : Laid es cs) :
    ∃ e ∈ es, ∃ before after rest, cs = before ++ (e ++ after) ++ rest ∧
      IsWhite before ∧ IsWhite after := by
  cases h with
  | @last e before after tail hbefore hafter =>
    exact ⟨e, List.mem_cons_self, before, after, tail, rfl, hbefore, hafter⟩
  | @cons e before after run rest _ hbefore hafter =>
    exact ⟨e, List.mem_cons_self, before, after, run ++ rest, rfl, hbefore, hafter⟩

/-- A layout starts with an element or with white space. -/
theorem Laid.head (h : Laid es cs) (hes : ∀ e ∈ es, IsElement e) :
    ∀ c ∈ cs.head?, isSeparator c = false := by
  obtain ⟨e, he, before, after, rest, rfl, hbefore, hafter⟩ := h.exists_first
  intro c hc
  have hne : before ++ (e ++ after) ≠ [] := by simp [(hes e he).ne_nil]
  rw [List.head?_append_of_ne_nil _ hne] at hc
  exact (hes e he).isPlain_padded hbefore hafter c (List.mem_of_head? hc)

theorem Laid.exists_solid (h : Laid es cs) (hes : ∀ e ∈ es, IsElement e) :
    ∃ c ∈ cs, isBlank c = false := by
  obtain ⟨e, he, before, after, rest, rfl, -⟩ := h.exists_first
  obtain ⟨c, e', hcons⟩ := List.exists_cons_of_ne_nil (hes e he).ne_nil
  exact ⟨c, by simp [hcons], (hes e he).trimmed.1 c (by simp [hcons])⟩

/-- The pieces of a layout are the elements with their white space, and perhaps an empty one behind
the last run. -/
theorem Laid.exists_cut (h : Laid es cs) (hes : ∀ e ∈ es, IsElement e) :
    ∃ kept n, CutAtRuns cs (kept ++ List.replicate n []) ∧ List.Forall₂ IsCore kept es := by
  induction h with
  | @last e before after tail hbefore hafter htail =>
    have he : IsElement e := hes e (by simp)
    have hpiece := he.isPlain_padded hbefore hafter
    have hcores : List.Forall₂ IsCore [before ++ (e ++ after)] [e] :=
      .cons (he.isCore_padded hbefore hafter) .nil
    by_cases hnil : tail = []
    · refine ⟨_, 0, ?_, hcores⟩
      rw [hnil, List.append_nil]
      exact .last hpiece
    · refine ⟨_, 1, ?_, hcores⟩
      rw [← List.append_nil tail]
      exact .cons hpiece ⟨hnil, htail⟩ (by simp) (.last (by decide))
  | @cons e before after run rest es hbefore hafter hrun hrest ih =>
    obtain ⟨he, hes⟩ := List.forall_mem_cons.mp hes
    obtain ⟨kept, n, hcut, hcores⟩ := ih hes
    exact ⟨_ :: kept, n, .cons (he.isPlain_padded hbefore hafter) hrun (hrest.head hes) hcut,
      .cons (he.isCore_padded hbefore hafter) hcores⟩

/-- A layout lists the elements that are laid out. -/
theorem Laid.lists (h : Laid es cs) (hes : ∀ e ∈ es, IsElement e) : Lists cs es := by
  obtain ⟨kept, n, hcut, hcores⟩ := h.exists_cut hes
  refine .pieces (h.exists_solid hes) hcut (fun hlast => ?_) hcores
  obtain ⟨e, he, hcore⟩ := Traversal.exists_of_mem_forall₂ hcores (List.mem_of_getLast? hlast)
  obtain ⟨before, after, hnil, -⟩ := hcore.padded
  simp only [List.nil_eq, List.append_eq_nil_iff] at hnil
  exact (hes e he).ne_nil hnil.2.1

end Delimited

namespace Condition

open Delimited

variable {op : Operator} {type : ColumnType}

/-- The leaf for a list is a membership in the items as the column reads them. -/
theorem leafOf_list (hop : op.isMembership = true) (table column : String) (vs : List Value) :
    leafOf table column type op (.list vs) =
      .membership ⟨table, column, false⟩ op (vs.map type.coerce) := by
  have haligned : aligned type op (normalized op (.list vs)) = .list vs := by
    simp [aligned, normalized, hop, ColumnType.coerce]
  rw [leafOf, haligned]
  simp [hop, Value.isDate]

theorem leafOf_congr {v w : Value} (h : normalized op v = normalized op w) (table column : String) :
    leafOf table column type op v = leafOf table column type op w := by
  simp only [leafOf, h]

/-- A membership operator takes from a layout the elements that are laid out. -/
theorem normalized_laid (hop : op.isMembership = true) {es : List String} {s : String}
    (hs : Laid (es.map String.toList) s.toList) (hes : ∀ e ∈ es, IsElement e.toList) :
    normalized op (.text s) = normalized op (.list (es.map .text)) := by
  have hlists := hs.lists (List.forall_mem_map.mpr hes)
  rw [normalized_text hop, ← lists_iff.mp hlists]
  simp [normalized, hop, Function.comp_def]

theorem coerce_decimal (n : Int64) :
    ColumnType.integer.coerce (.text (Numeral.decimal n.toInt)) = .int n := by
  simp [ColumnType.coerce, ColumnType.read?, Numeral.int64?_decimal]

/-- A text in which elements are laid out compiles to the leaf for the list of the elements, and in
a column of integers decimal texts compile to the leaf for the list of the integers. -/
theorem leaf_laid {r : Resource} {column token : String} (hcol : r.columnType? column = some type)
    (htoken : Operator.ofToken? token = some op) (hop : op.isMembership = true) {es : List String}
    (hes : ∀ e ∈ es, IsElement e.toList) {s : String}
    (hs : Laid (es.map String.toList) s.toList) :
    let p := Predicate.membership ⟨r.table, column, false⟩ op
      (es.map fun e => type.coerce (.text e))
    leaf r ⟨column, token, .text s⟩ = .ok p ∧ leaf r ⟨column, token, .list (es.map .text)⟩ = .ok p ∧
      ∀ ns : List Int64, type = .integer → es = ns.map (fun n => Numeral.decimal n.toInt) →
        leaf r ⟨column, token, .list (ns.map .int)⟩ = .ok p := by
  intro p
  have hlist : leafOf r.table column type op (.list (es.map .text)) = p := by
    rw [leafOf_list hop, List.map_map]
    rfl
  refine ⟨?_, ?_, ?_⟩
  · rw [leaf_eq_leafOf hcol htoken, leafOf_congr (normalized_laid hop hs hes), hlist]
  · rw [leaf_eq_leafOf hcol htoken, hlist]
  · rintro ns rfl rfl
    have hints : p = .membership ⟨r.table, column, false⟩ op (ns.map .int) := by
      simp only [p, List.map_map, Function.comp_def, coerce_decimal]
    rw [leaf_eq_leafOf hcol htoken, leafOf_list hop, List.map_map, hints]
    rfl

/-- The least integer of 64 bits and another one, with white space around the first, two separators
between them and one at the end. -/
theorem leaf_laid_integers :
    let r := (Resource.new "users").withColumn "age" .integer
    leaf r ⟨"age", "not_in", .text "\t-9223372036854775808 ;,7;"⟩ =
      leaf r ⟨"age", "not_in", .list [.int (-9223372036854775808), .int 7]⟩ := by
  intro r
  have hcol : r.columnType? "age" = some .integer := rfl
  have htoken : Operator.ofToken? "not_in" = some .notIn := rfl
  have hleast : IsElement "-9223372036854775808".toList := ⟨by decide, by decide, by decide⟩
  have hseven : IsElement "7".toList := ⟨by decide, by decide, by decide⟩
  have hes : ∀ e ∈ ["-9223372036854775808", "7"], IsElement e.toList :=
    List.forall_mem_cons.mpr ⟨hleast, List.forall_mem_cons.mpr ⟨hseven, by simp⟩⟩
  have hs : Laid (["-9223372036854775808", "7"].map String.toList)
      (['\t'] ++ ("-9223372036854775808".toList ++ [' ']) ++
        ([';', ','] ++ ([] ++ ("7".toList ++ []) ++ [';']))) :=
    .cons (by decide) (by decide) (by decide) (.last (by decide) (by decide) (by simp [isSeparator]))
  have htext : "\t-9223372036854775808 ;,7;".toList = ['\t'] ++
      ("-9223372036854775808".toList ++ [' ']) ++
        ([';', ','] ++ ([] ++ ("7".toList ++ []) ++ [';'])) := rfl
  obtain ⟨htext, -, hints⟩ := leaf_laid hcol htoken rfl hes (htext ▸ hs)
  rw [htext, ← hints [-9223372036854775808, 7] rfl (by decide)]
  rfl

end Condition

end RowPolicy
