import RowPolicy.Proofs.PermissionMap.Repetition

/-!
# Which resources are listed

A set of rules lists the resources that have an entry. A set that is empty, or that comes from
policy text, has an entry for a resource only with a rule in it, and inserting a rule keeps it so. A
permission map may also name a resource and give it no rules. Then the resource is listed although
it has none.

The main statement is `PolicySet.resources_insertAll`: besides the resources with rules just those
are listed which a permission map left blank.
-/
namespace RowPolicy.PolicySet

open PermissionMap

variable {s : PolicySet} {r : String}

/-! ## Inserted rules -/

theorem insertAll_concat (s : PolicySet) (inserts : List (String × Policy)) (e : String × Policy) :
    s.insertAll (inserts ++ [e]) = (s.insertAll inserts).insert e.1 e.2 := by
  simp [insertAll]

theorem get_insertAll (s : PolicySet) (inserts : List (String × Policy)) (r : String) :
    (s.insertAll inserts).get r = s.get r ++ (inserts.filter (·.1 = r)).map Prod.snd := by
  induction inserts using List.reverseRecOn with
  | nil => simp [insertAll]
  | append_singleton inserts e ih =>
    rw [insertAll_concat, get_insert, ih]
    by_cases h : e.1 = r <;> simp [h]

theorem mem_resources_insertAll {inserts : List (String × Policy)} :
    r ∈ (s.insertAll inserts).resources ↔ r ∈ s.resources ∨ r ∈ inserts.map Prod.fst := by
  induction inserts using List.reverseRecOn with
  | nil => simp [insertAll]
  | append_singleton inserts e ih =>
    rw [insertAll_concat, mem_resources_insert, ih]
    simp [or_left_comm, or_comm]

theorem get_insertAll_eq_nil_iff {inserts : List (String × Policy)} :
    (s.insertAll inserts).get r = [] ↔ s.get r = [] ∧ r ∉ inserts.map Prod.fst := by
  rw [get_insertAll, List.append_eq_nil_iff, List.map_eq_nil_iff, List.filter_eq_nil_iff,
    List.mem_map]
  grind

/-- A resource without entry has no rules. -/
theorem get_eq_nil_of_notMem (h : r ∉ s.resources) : s.get r = [] := by
  rw [resources, Std.TreeMap.mem_keys] at h
  exact Std.TreeMap.getD_eq_fallback h

theorem isEmpty_iff : s.isEmpty = true ↔ ∀ r ∈ s.resources, s.get r = [] := by
  rw [isEmpty, beq_iff_eq, size_eq_sum, List.sum_eq_zero_iff, List.forall_mem_map]
  simp only [List.length_eq_zero_iff]

/-! ## Where a set comes from -/

inductive Origin where
  | nothing
  | policyText (text : String)
  | permissionMap (text : String)

namespace Origin

def Gives (s : PolicySet) : Origin → Prop
  | nothing => s = empty
  | policyText text => ofText text = .ok s
  | permissionMap text => ofJson text = .ok s

/-- The text has a key for the resource, and no rules under the last one. -/
def LeavesBlank (r : String) : Origin → Prop
  | permissionMap text => ∃ entries, Declares text entries ∧ (under entries r).getLast? = some []
  | _ => False

theorem exists_of_ofText {text : String} (h : ofText text = .ok s) :
    ∃ blocks, s = ofList blocks := by
  unfold ofText at h
  cases hparse : PolicyText.parse text with
  | error e =>
    rw [hparse] at h
    cases h
  | ok blocks =>
    rw [hparse] at h
    cases h
    exact ⟨blocks, rfl⟩

/-- Where rules are added one by one, each listed resource has some. -/
theorem get_ofList_ne_nil {entries : List (String × Policy)}
    (h : r ∈ (ofList entries).resources) : (ofList entries).get r ≠ [] := by
  rw [mem_resources_ofList, List.mem_map] at h
  obtain ⟨e, he, rfl⟩ := h
  rw [get_ofList, ne_eq, List.map_eq_nil_iff, List.filter_eq_nil_iff]
  exact fun hnone => hnone e he (by simp)

theorem leavesBlank_permissionMap_iff {text : String} (h : ofJson text = .ok s) :
    (permissionMap text).LeavesBlank r ↔ r ∈ s.resources ∧ s.get r = [] := by
  obtain ⟨entries, hdeclares, rfl⟩ := exists_declares_of_ofJson h
  have hlast : (permissionMap text).LeavesBlank r ↔ (under entries r).getLast? = some [] := by
    constructor
    · rintro ⟨entries', hdeclares', hlast⟩
      rwa [hdeclares.unique hdeclares']
    · exact fun hlast => ⟨entries, hdeclares, hlast⟩
  have hkey : r ∈ (empty.assignAll entries).resources ↔ under entries r ≠ [] := by
    rw [mem_resources_assignAll, ne_eq, under_eq_nil_iff, not_not]
  rw [hlast, hkey, get_assignAll]
  cases hunder : (under entries r).getLast? with
  | none => simp [List.getLast?_eq_none_iff.mp hunder]
  | some rules =>
    have hne : under entries r ≠ [] := by
      rintro hnil
      simp [hnil] at hunder
    simp [hne]

/-- The resources that are left blank are those that are listed without rules. -/
theorem leavesBlank_iff {o : Origin} (h : o.Gives s) :
    o.LeavesBlank r ↔ r ∈ s.resources ∧ s.get r = [] := by
  cases o with
  | nothing =>
    obtain rfl : s = ofList [] := h
    exact iff_of_false id fun ⟨hmem, hnil⟩ => get_ofList_ne_nil hmem hnil
  | policyText text =>
    obtain ⟨blocks, rfl⟩ := exists_of_ofText h
    exact iff_of_false id fun ⟨hmem, hnil⟩ => get_ofList_ne_nil hmem hnil
  | permissionMap text => exact leavesBlank_permissionMap_iff h

end Origin

/-- Besides the resources with rules just those are listed which a permission map left blank and
for which nothing was inserted. A set without rules lists no others. -/
theorem resources_insertAll {o : Origin} (h : o.Gives s) (inserts : List (String × Policy)) :
    let t := s.insertAll inserts
    let blank r := o.LeavesBlank r ∧ r ∉ inserts.map Prod.fst
    (∀ r, r ∈ t.resources ↔ t.get r ≠ [] ∨ blank r) ∧ (∀ r, blank r → t.get r = []) ∧
      (t.isEmpty = true ↔ ∀ r ∈ t.resources, blank r) := by
  intro t blank
  have hblank (r : String) : blank r ↔ r ∈ t.resources ∧ t.get r = [] := by
    rw [mem_resources_insertAll, get_insertAll_eq_nil_iff]
    simp only [blank, Origin.leavesBlank_iff h]
    tauto
  have hlisted (r : String) (hne : t.get r ≠ []) : r ∈ t.resources :=
    not_not.mp (mt get_eq_nil_of_notMem hne)
  refine ⟨fun r => ?_, fun r hr => ((hblank r).mp hr).2, ?_⟩
  · rw [hblank]
    have := hlisted r
    tauto
  · rw [isEmpty_iff]
    exact forall₂_congr fun r hr => by simp [hblank, hr]

open Json in
/-- A rule is inserted for one of two resources that were left blank. -/
theorem resources_insertAll_blank :
    let text := "\x7b\"a\":[],\"b\":[]\x7d"
    ∃ s, Origin.Gives s (.permissionMap text) ∧ (Origin.permissionMap text).LeavesBlank "b" ∧
      let t := s.insertAll [("a", ⟨.deny, []⟩)]
      "a" ∈ t.resources ∧ "b" ∈ t.resources ∧ t.get "b" = [] ∧ t.isEmpty = false := by
  intro text
  have hfirst : HasMember (array (policy 125)) ("a", []) "\"a\":[],\"b\":[]\x7d".toList
      ",\"b\":[]\x7d".toList := .mk (by cbv) (by cbv) (by cbv)
  have hsecond : HasMember (array (policy 125)) ("b", []) "\"b\":[]\x7d".toList ['\x7d'] :=
    .mk (by cbv) (by cbv) (by cbv)
  have hdeclares : Declares text [("a", []), ("b", [])] := by
    unfold text
    exact ⟨_, [], by cbv, .some (.cons hfirst (by cbv) (.last hsecond rfl)), rfl⟩
  have hblank : (Origin.permissionMap text).LeavesBlank "b" := ⟨_, hdeclares, rfl⟩
  obtain ⟨s, hs⟩ : ∃ s, ofJson text = .ok s := by
    unfold text
    exact ⟨_, by cbv⟩
  have hgives : Origin.Gives s (.permissionMap text) := hs
  obtain ⟨hlisted, hnone, hempty⟩ := resources_insertAll hgives [("a", ⟨.deny, []⟩)]
  have hb : "b" ∈ (s.insertAll [("a", ⟨.deny, []⟩)]).resources :=
    (hlisted "b").mpr (.inr ⟨hblank, by simp⟩)
  have ha : "a" ∈ (s.insertAll [("a", ⟨.deny, []⟩)]).resources :=
    (hlisted "a").mpr (.inl (by simp [get_insertAll]))
  refine ⟨s, hgives, hblank, ha, hb, hnone "b" ⟨hblank, by simp⟩, ?_⟩
  rw [Bool.eq_false_iff]
  exact fun h => (hempty.mp h "a" ha).2 (by simp)

/-- A resource is listed in a set without rules. -/
theorem ofJson_listed :
    ∃ s, ofJson "\x7b\"users\":[]\x7d" = .ok s ∧ s.resources = ["users"] ∧ s.get "users" = [] ∧
      s.isEmpty = true :=
  ⟨_, by cbv, rfl, rfl, rfl⟩

end RowPolicy.PolicySet
