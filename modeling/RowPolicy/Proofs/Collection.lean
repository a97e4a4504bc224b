import Mathlib.Algebra.BigOperators.Group.List.Lemmas
import Mathlib.Algebra.GroupWithZero.Nat
import Mathlib.Data.List.Dedup
import Mathlib.Data.List.Induction
import RowPolicy.PolicyFile
import RowPolicy.Proofs.Text.ByteOrder

/-!
# What a set of rules collects

A set of rules comes about by entries, each a resource and a rule. For a resource it keeps the rules
of its entries in their order, so that the number of rules is the number of entries, and it lists
each resource that has an entry once, by the order of the bytes of the names. A text and what is
inserted later make no difference: the blocks of the text are the first entries.

The main statement is `PolicySet.insertAll_ofText`.
-/
namespace RowPolicy.PolicySet

/-! ## Entries -/

/-- The set after some more entries. -/
def insertAll (s : PolicySet) (entries : List (String × Policy)) : PolicySet :=
  entries.foldl (fun s e => s.insert e.1 e.2) s

theorem ofList_append (as bs : List (String × Policy)) :
    ofList (as ++ bs) = (ofList as).insertAll bs := by
  simp [ofList, insertAll]

theorem ofList_concat (entries : List (String × Policy)) (e : String × Policy) :
    ofList (entries ++ [e]) = (ofList entries).insert e.1 e.2 := by
  simp [ofList]

/-- The rules of a resource stand in the order of the entries. -/
theorem get_ofList (entries : List (String × Policy)) (r : String) :
    (ofList entries).get r = (entries.filter (·.1 = r)).map Prod.snd := by
  induction entries using List.reverseRecOn with
  | nil => simp [ofList]
  | append_singleton entries e ih =>
    rw [ofList_concat, get_insert, ih]
    by_cases he : e.1 = r <;> simp [he]

theorem get_ofList_append (as bs : List (String × Policy)) (r : String) :
    (ofList (as ++ bs)).get r = (ofList as).get r ++ (ofList bs).get r := by
  simp [get_ofList]

/-! ## Resources -/

theorem mem_resources_insert {s : PolicySet} {q r : String} {p : Policy} :
    r ∈ (s.insert q p).resources ↔ r = q ∨ r ∈ s.resources := by
  rw [resources, insert, Std.TreeMap.mem_keys, Std.TreeMap.mem_insert, compare_eq_iff_eq,
    resources, Std.TreeMap.mem_keys, eq_comm]

theorem mem_resources_ofList {entries : List (String × Policy)} {r : String} :
    r ∈ (ofList entries).resources ↔ r ∈ entries.map Prod.fst := by
  induction entries using List.reverseRecOn with
  | nil => simp [ofList, empty, resources, Std.TreeMap.mem_keys]
  | append_singleton entries e ih =>
    rw [ofList_concat, mem_resources_insert, ih]
    simp [or_comm]

theorem resources_pairwise (s : PolicySet) :
    s.resources.Pairwise fun a b => utf8 a < utf8 b := by
  have hordered : s.byResource.keys.Pairwise fun a b => compare a b = .lt :=
    Std.TreeMap.ordered_keys
  exact hordered.imp fun hlt => utf8_strictMono (compare_lt_iff_lt.mp hlt)

theorem nodup_resources (s : PolicySet) : s.resources.Nodup :=
  s.resources_pairwise.imp fun hlt heq => by simp [heq] at hlt

/-! ## Numbers -/

/-- The rules are counted resource by resource. -/
theorem size_eq_sum (s : PolicySet) :
    s.size = (s.resources.map fun r => (s.get r).length).sum := by
  have hget : ∀ e ∈ s.byResource.toList, (s.get e.1).length = e.2.length := by
    intro e he
    have hfound := Std.TreeMap.mem_toList_iff_getElem?_eq_some.mp he
    rw [get, Std.TreeMap.getD_eq_getD_getElem?, hfound, Option.getD_some]
  rw [size, toList, List.length_flatMap, resources, ← Std.TreeMap.map_fst_toList_eq_keys,
    List.map_map]
  exact congrArg List.sum (List.map_congr_left fun e he => (hget e he).symm)

/-- Every entry is counted at its resource and nowhere else. -/
theorem size_ofList (entries : List (String × Policy)) : (ofList entries).size = entries.length := by
  have hcount (r : String) :
      ((ofList entries).get r).length = (entries.map Prod.fst).count r := by
    rw [get_ofList, List.length_map, List.count_eq_countP, List.countP_map,
      List.countP_eq_length_filter]
    rfl
  have hresources : (ofList entries).resources.Perm (entries.map Prod.fst).dedup := by
    rw [List.perm_ext_iff_of_nodup (nodup_resources _) (List.nodup_dedup _)]
    intro r
    rw [mem_resources_ofList, List.mem_dedup]
  calc (ofList entries).size
      = ((ofList entries).resources.map fun r => (entries.map Prod.fst).count r).sum := by
        rw [size_eq_sum]
        simp only [hcount]
    _ = ((entries.map Prod.fst).dedup.map fun r => (entries.map Prod.fst).count r).sum :=
        (hresources.map _).sum_eq
    _ = entries.length := by rw [List.sum_map_count_dedup_eq_length, List.length_map]

theorem isEmpty_ofList_iff {entries : List (String × Policy)} :
    (ofList entries).isEmpty = true ↔ entries = [] := by
  simp [isEmpty, size_ofList]

/-- The blocks of a text and later entries are all collected. A resource has the rules of its
entries in their order, and the resources with an entry are listed in strict order. -/
theorem insertAll_ofText {text : String} {blocks : List (String × Policy)}
    (h : PolicyText.parse text = .ok blocks) (inserts : List (String × Policy)) :
    ∃ s, ofText text = .ok s ∧
      let t := s.insertAll inserts
      let entries := blocks ++ inserts
      (∀ r, t.get r = (entries.filter (·.1 = r)).map Prod.snd) ∧
      t.size = entries.length ∧
      (t.isEmpty = true ↔ entries = []) ∧
      (t.resources.Pairwise fun a b => utf8 a < utf8 b) ∧
      ∀ r, r ∈ t.resources ↔ r ∈ entries.map Prod.fst := by
  refine ⟨ofList blocks, ?_, ?_⟩
  · rw [ofText, h]
    rfl
  · rw [← ofList_append]
    exact ⟨get_ofList _, size_ofList _, isEmpty_ofList_iff, resources_pairwise _, fun r =>
      mem_resources_ofList⟩

/-- Blocks and entries of three resources take turns, and a capital letter comes first. -/
theorem insertAll_ofText_turns :
    let text := "policy users deny\x7b\x7d policy Orders allow\x7b\x7d policy users allow\x7b\x7d"
    let inserts : List (String × Policy) := [("items", ⟨.deny, []⟩), ("users", ⟨.deny, []⟩)]
    ∃ s, ofText text = .ok s ∧
      let t := s.insertAll inserts
      t.get "users" = [⟨.deny, []⟩, ⟨.allow, []⟩, ⟨.deny, []⟩] ∧ t.size = 5 ∧
        t.resources = ["Orders", "items", "users"] := by
  intro text inserts
  have htext : PolicyText.parse text =
      .ok [("users", ⟨.deny, []⟩), ("Orders", ⟨.allow, []⟩), ("users", ⟨.allow, []⟩)] := by
    unfold text
    cbv
  obtain ⟨s, hs, hget, hsize, -, -, -⟩ := insertAll_ofText htext inserts
  refine ⟨s, hs, (hget "users").trans rfl, hsize, ?_⟩
  rw [ofText, htext] at hs
  cases hs
  rfl

end RowPolicy.PolicySet
