import RowPolicy.Proofs.Json.Documents
import RowPolicy.Proofs.Json.Range
import RowPolicy.Proofs.PermissionMap.Spelling

/-!
# Every spelling of a permission map decodes

A reader of a kind reads whatever writes a thing of this kind as that thing. For the members of a
policy this needs that none of them comes again: `Draft.Expects` says what the members that are
still to come have to add. The main statement is `PolicySet.ofJson_eq_ok_of_spells`: a text that
spells a set of rules decodes to that set.
-/
namespace RowPolicy

namespace PermissionMap

open Json

variable {depth : Nat} {cs : List Char}

/-! ## Values -/

theorem values?_eq_some {vs : List Value} {ds : List Document}
    (h : List.Forall₂ (fun v d => value? d = some v) vs ds) : values? ds = some vs := by
  induction h with
  | nil => rfl
  | cons hd _ ih => simp [values?, hd, ih]

theorem WrittenScalar.exists_document {v : Value} (h : WrittenScalar v cs) :
    ∃ d, value? d = some v ∧ ReadsAs (Document.read depth) d cs := by
  cases h with
  | int n => exact ⟨_, by simp [value?, Numeral.fit64?_toInt], readsAs_int n⟩
  | bool b => exact ⟨_, rfl, readsAs_bool b⟩
  | text h => exact ⟨_, rfl, readsAs_text h⟩

theorem WrittenValue.exists_document {v : Value} (h : WrittenValue depth v cs) :
    ∃ d, value? d = some v ∧ ReadsAs (Document.read depth) d cs := by
  induction depth generalizing v cs with
  | zero => exact WrittenScalar.exists_document h
  | succ depth ih =>
    obtain h | ⟨items, rfl, h⟩ := h
    · exact h.exists_document
    · have hitem : ∀ v part, WrittenValue depth v part →
          ∃ d, value? d = some v ∧ ReadsAs (Document.read depth) d part := fun _ _ => ih
      obtain ⟨ds, hds, hitems⟩ := h.choose hitem
      exact ⟨_, by simp [value?, values?_eq_some hds], readsAs_array hitems⟩

theorem readsAs_value {v : Value} (h : WrittenValue depth v cs) :
    ReadsAs (value depth) v cs := by
  obtain ⟨d, hvalue, hd⟩ := h.exists_document
  refine ⟨hd.starts, fun hgap hends => ?_⟩
  rw [value, hd.reads hgap hends]
  simp only [hvalue]

/-! ## Texts and arrays -/

theorem readsAs_string {s : String} (h : WrittenString s cs) : ReadsAs text s cs := by
  have hstring : ReadsBehind '"' string s cs := string_append h
  refine hstring.readsAs (by decide) fun hskip => ?_
  rw [text, hskip]
  rfl

theorem readsAs_items {α : Type} {read : List Char → Reading α} {as : List α}
    (h : Enclosed '[' ']' (ReadsAs read) as cs) : ReadsAs (array read) as cs := by
  refine (readsBehind_elements h).readsAs (by decide) fun hskip => ?_
  rw [array, hskip]
  rfl

/-! ## Conditions -/

theorem firstItem?_append {α : Type} {read : List Char → Reading α} {a : α} {part gap : List Char}
    (h : ReadsAs read a part) (hgap : IsGap gap) (rest : List Char) :
    firstItem? (gap ++ (part ++ rest)) = .ok (some (gap ++ (part ++ rest))) := by
  obtain ⟨c, tail, rfl, hc, hne, -⟩ := h.starts
  rw [firstItem?, List.cons_append, skipSpace_append hgap hc]
  simp only [hne, if_false]

theorem nextItem?_append {gap : List Char} (hgap : IsGap gap) (rest : List Char) :
    nextItem? (gap ++ ',' :: rest) = .ok (some rest) := by
  rw [nextItem?, skipSpace_append hgap rfl]
  rfl

theorem lastItem_append {gap : List Char} (hgap : IsGap gap) (rest : List Char) :
    lastItem (gap ++ ']' :: rest) = .ok rest := by
  rw [lastItem, skipSpace_append hgap rfl]
  rfl

/-- The items of a condition, behind the opening bracket. -/
def conditionItems (depth : Nat) (cs : List Char) : Except Fault (Condition × List Char) := do
  let (column, rest) ← item (firstItem? cs) text
  let (predicate, rest) ← item (nextItem? rest) text
  let (value, rest) ← item (nextItem? rest) (value (depth - 1))
  let rest ← lastItem rest
  return (⟨column, predicate, value⟩, rest)

theorem readsAs_condition {c : Condition} (h : WrittenCondition depth c cs) :
    ReadsAs (condition depth) c cs := by
  have hitems : ReadsBehind '[' (conditionItems depth) c cs := by
    intro rest
    -- There are just three items, and only the last one has no comma behind it.
    obtain ⟨⟩ | ⟨⟨⟩ | ⟨hbefore, hcolumn, hafter,
      ⟨⟩ | ⟨hbefore', hpredicate, hafter', ⟨hbefore'', hvalue, hafter''⟩ | ⟨-, -, -, ⟨⟩⟩⟩⟩⟩ := h
    refine ⟨_, rfl, ?_⟩
    have hcolumn' := readsAs_string hcolumn
    have hpredicate' := readsAs_string hpredicate
    have hvalue' := readsAs_value hvalue
    simp only [conditionItems, List.append_assoc, List.cons_append, List.nil_append,
      firstItem?_append hcolumn' hbefore, item,
      hcolumn'.reads hbefore (ends_append hafter (.inl rfl) _), nextItem?_append hafter,
      hpredicate'.reads hbefore' (ends_append hafter' (.inl rfl) _), nextItem?_append hafter',
      hvalue'.reads hbefore'' (ends_append hafter'' (.inr (.inl rfl)) _), lastItem_append hafter'',
      bind, Except.bind]
    rfl
  refine hitems.readsAs (by decide) fun hskip => ?_
  rw [condition, hskip]
  rfl

/-! ## Policies -/

theorem readsAs_effect {e : Effect} (h : WrittenEffect depth e cs) :
    ReadsAs (effect depth) e cs := by
  cases e with
  | deny => exact (readsAs_text h).map effectOf
  | allow =>
    obtain ⟨hused, hdeny⟩ := h
    obtain ⟨d, htext, hd⟩ := readsAs_used hused
    have heffect : effectOf d = .allow := by
      cases d with
      | string s =>
        have hne : s ≠ "deny" := by
          rintro rfl
          exact hdeny (htext _ rfl)
        simp [effectOf, Effect.ofToken, hne]
      | _ => rfl
    rw [← heffect]
    exact hd.map effectOf

namespace Draft

def say (d : Draft) : Part → Draft
  | .conditions cs => { d with conditions := some cs }
  | .effect e => { d with effect := some e }
  | .nothing => d

/-- What is known together with what is still to come makes up the policy. -/
def Expects (p : Policy) (d : Draft) (parts : List Part) : Prop :=
  Gives (d.conditions.toList ++ parts.filterMap Part.conditions?)
    (d.effect.toList ++ parts.filterMap Part.effect?) p

variable {p : Policy} {d : Draft} {part : Part} {parts : List Part}

theorem Expects.say (h : Expects p d (part :: parts)) : Expects p (d.say part) parts := by
  obtain ⟨known, effect⟩ := d
  obtain ⟨hconditions, heffect⟩ := h
  cases part with
  | conditions cs =>
    refine ⟨?_, heffect⟩
    cases known with
    | none => exact hconditions
    | some _ => simp [Part.conditions?] at hconditions
  | effect e =>
    refine ⟨hconditions, ?_⟩
    cases effect with
    | none => exact heffect
    | some _ => simp [Part.effect?] at heffect
  | nothing => exact ⟨hconditions, heffect⟩

theorem Expects.policy_eq (h : Expects p d []) : d.policy = p := by
  obtain ⟨known, effect⟩ := d
  obtain ⟨hconditions, heffect⟩ := h
  obtain ⟨effect', conditions⟩ := p
  cases known <;> cases effect <;> simp_all [Draft.policy]

theorem Expects.foldl (h : Expects p d parts) : (parts.foldl Draft.say d).policy = p := by
  induction parts generalizing d with
  | nil => exact h.policy_eq
  | cons part parts ih => exact ih h.say

theorem Expects.isNone_conditions {items : List Condition}
    (h : Expects p d (.conditions items :: parts)) : d.conditions = none := by
  cases hknown : d.conditions with
  | none => rfl
  | some _ => simpa [Part.conditions?, hknown] using Gives.conditions h

theorem Expects.isNone_effect {e : Effect} (h : Expects p d (.effect e :: parts)) :
    d.effect = none := by
  cases hknown : d.effect with
  | none => rfl
  | some _ => simpa [Part.effect?, hknown] using Gives.effect h

theorem readsAs_part (h : Expects p d (part :: parts)) (hpart : WrittenPart depth part cs) :
    ReadsAs (member (Draft.accept depth) d) (d.say part) cs := by
  cases part with
  | conditions items =>
    have hnone := h.isNone_conditions
    refine readsAs_member (by rw [Draft.accept, if_pos rfl, hnone]; rfl) (fun _ hvalue => ?_) hpart
    exact (readsAs_items (hvalue.imp fun _ _ => readsAs_condition)).map fun items =>
      { d with conditions := some items }
  | effect e =>
    have hnone := h.isNone_effect
    refine readsAs_member (by rw [Draft.accept, if_neg (by decide), if_pos rfl, hnone]; rfl)
      (fun _ hvalue => ?_) hpart
    exact (readsAs_effect hvalue).map fun e => { d with effect := some e }
  | nothing =>
    obtain ⟨⟨name, hconditions, heffect, hkey⟩, hbefore, hafter, hvalue⟩ := hpart
    refine readsAs_member (by rw [Draft.accept, if_neg hconditions, if_neg heffect])
      (fun _ hvalue => ?_) (.mk hkey hbefore hafter hvalue)
    exact (readsAs_unused hvalue).map fun _ => d

end Draft

theorem readsAs_policy {p : Policy} (h : WrittenPolicy depth p cs) :
    ReadsAs (policy depth) p cs := by
  obtain ⟨parts, hpolicy, hparts⟩ := h
  have init : Draft.Expects p Draft.empty parts := hpolicy
  have hmembers := readsBehind_members hparts init fun _ _ _ _ hready hpart =>
    ⟨Draft.readsAs_part hready hpart, hready.say⟩
  rw [← init.foldl]
  refine (hmembers.map Draft.policy).readsAs (by decide) fun hskip => ?_
  rw [policy, hskip]
  rfl

/-! ## Sets of rules -/

theorem readsAs_entry {entry : String × List Policy} {s : PolicySet}
    (h : WrittenEntry depth entry cs) :
    ReadsAs (member (accept depth) s) (s.assign entry.1 entry.2) cs := by
  refine readsAs_member rfl (fun _ hvalue => ?_) h
  exact (readsAs_items (hvalue.imp fun _ _ => readsAs_policy)).map (s.assign entry.1)

theorem readsAs_policySet {entries : List (String × List Policy)}
    (h : Enclosed '\x7b' '\x7d' (WrittenEntry (depth - 1)) entries cs) :
    ReadsAs (policySet depth)
      (entries.foldl (fun s e => s.assign e.1 e.2) PolicySet.empty) cs := by
  have hmembers := readsBehind_members (I := fun _ _ => True) (s := PolicySet.empty) h trivial
    fun _ _ _ _ _ hpart => ⟨readsAs_entry hpart, trivial⟩
  refine hmembers.readsAs (by decide) fun hskip => ?_
  rw [policySet, hskip]
  rfl

theorem whole_eq_ok {α : Type} {read : Nat → List Char → Reading α} {a : α} {text : String}
    {before after : List Char} (h : ReadsAs (read greatestDepth) a cs) (hbefore : IsGap before)
    (hafter : IsGap after) (htext : text.toList = before ++ (cs ++ after)) :
    whole read text = .ok a := by
  have hends : Ends after := fun c hc => .inl (hafter c (List.mem_of_mem_head? hc))
  have hskip : skipSpace after = [] := by
    rw [← List.append_nil after, skipSpace_gap hafter]
    rfl
  rw [whole, htext, h.reads hbefore hends]
  simp only [hskip]
  rfl

end PermissionMap

namespace PolicySet

theorem toList_assign_perm {s : PolicySet} {resource : String} (policies : List Policy)
    (h : resource ∉ s.toList.map Prod.fst) :
    (s.assign resource policies).toList.Perm ((resource, policies) :: s.toList) := by
  have hkeep : s.toList.filter (fun e => decide ¬ (resource == e.1) = true) = s.toList := by
    refine List.filter_eq_self.mpr fun e he => ?_
    have hne : resource ≠ e.1 := by
      rintro rfl
      exact h (List.mem_map_of_mem he)
    simp [hne]
  rw [← hkeep]
  exact Std.TreeMap.toList_insert_perm

theorem toList_foldl_assign {entries : List (String × List Policy)} {s : PolicySet}
    (h : ((entries ++ s.toList).map Prod.fst).Nodup) :
    (entries.foldl (fun s e => s.assign e.1 e.2) s).toList.Perm (entries ++ s.toList) := by
  induction entries generalizing s with
  | nil => exact .refl _
  | cons e entries ih =>
    obtain ⟨hnew, hnodup⟩ := List.nodup_cons.mp h
    have hassign : (s.assign e.1 e.2).toList.Perm (e :: s.toList) := by
      refine toList_assign_perm e.2 fun hmem => hnew ?_
      obtain ⟨e', he', heq⟩ := List.mem_map.mp hmem
      exact List.mem_map.mpr ⟨e', List.mem_append_right _ he', heq⟩
    have hmiddle : (entries ++ (s.assign e.1 e.2).toList).Perm (e :: (entries ++ s.toList)) :=
      (hassign.append_left entries).trans List.perm_middle
    exact (ih ((hmiddle.map Prod.fst).nodup_iff.mpr h)).trans hmiddle

theorem toList_eq_of_perm {s t : PolicySet} (h : s.toList.Perm t.toList) : s.toList = t.toList :=
  (Std.TreeMap.equiv_iff_toList_perm.mpr h).toList_eq

/-- Whatever spells a set of rules decodes to that set. -/
theorem ofJson_eq_ok_of_spells {text : String} {s : PolicySet}
    (h : PermissionMap.Spells text s) : ∃ t, ofJson text = .ok t ∧ t.toList = s.toList := by
  obtain ⟨entries, before, object, after, hentries, hbefore, hafter, hobject, htext⟩ := h
  have hread := PermissionMap.readsAs_policySet hobject
  have hdecode := PermissionMap.whole_eq_ok hread hbefore hafter htext
  have hnil : empty.toList = [] := rfl
  have hnodup : (s.toList.map Prod.fst).Nodup := by
    rw [toList, Std.TreeMap.map_fst_toList_eq_keys]
    exact Std.TreeMap.nodup_keys
  have hperm : (entries.foldl (fun s e => s.assign e.1 e.2) empty).toList.Perm entries := by
    simpa [hnil] using toList_foldl_assign (s := empty)
      (by simpa [hnil] using (hentries.map Prod.fst).nodup_iff.mpr hnodup)
  exact ⟨_, hdecode, toList_eq_of_perm (hperm.trans hentries)⟩

open Json PermissionMap in
/-- The resources are not in order. An object in place of an effect allows, and an escape may
stand for half a character where no one looks; an escape in the word `deny` makes no difference. -/
theorem ofJson_eq_ok_of_spells_escaped :
    let text := " \x7b\"b\":[],\"a\":[\x7b\"x\":\"\\ud800\",\"effect\":\x7b\"k\":[-1.5e3]\x7d," ++
      "\"conditions\":[[\"c\",\"in\",[-5,true]]]\x7d,\x7b\"effect\":\"\\u0064eny\"\x7d]\x7d\n"
    let allow : Policy := ⟨.allow, [⟨"c", "in", .list [.int (-5), .bool true]⟩]⟩
    let s := (empty.assign "a" [allow, ⟨.deny, []⟩]).assign "b" []
    PermissionMap.Spells text s ∧ ∃ t, ofJson text = .ok t ∧ t.toList = s.toList := by
  intro text allow s
  have hgap : IsGap [] := by simp [IsGap]
  have hplain {s : String} (h : s.toList.all (fun c => decide (IsPlain c)) = true) :=
    writtenString_plain (s := s) (by simpa using h)
  have hdeny : WrittenString "deny" "\"\\u0064eny\"".toList := by
    have hunit : IsCodeUnit 'd'.toNat ['0', '0', '6', '4'] :=
      .mk (k := 0) (l := 0) (m := 6) (n := 4) (.inl rfl) (.inl rfl) (.inl rfl) (.inl rfl)
    refine ⟨[_, ['e'], ['n'], ['y']], .cons (.unit hunit) ?_, rfl⟩
    exact .cons (.plain (by decide)) (.cons (.plain (by decide)) (.cons (.plain (by decide)) .nil))
  have hhalf : IsUnused "\"\\ud800\"".toList := by
    have hunit : IsCodeUnit _ ['d', '8', '0', '0'] :=
      .mk (k := 13) (l := 8) (m := 0) (n := 0) (.inl rfl) (.inl rfl) (.inl rfl) (.inl rfl)
    exact ⟨0, .text ⟨[_], List.forall_mem_singleton.mpr (.unit hunit), rfl⟩⟩
  have hdigits {c : Char} (h : Numeral.isDigit c = true) : IsDigits [c] := ⟨by simp, by simpa⟩
  have hnumeral : IsNumeralInRange _ :=
    isNumeralInRange_of_places true ⟨hdigits (c := '1') rfl, by decide⟩
      (.digits (hdigits (c := '5') rfl)) (.digits (.inl rfl) (.inl rfl) (hdigits (c := '3') rfl))
      (by decide)
  have hobject : IsUsed 124 _ :=
    .inr (.inr ⟨[()], .series (.last hgap (.mk ⟨"k", hplain rfl⟩ hgap hgap
      (.inr (.inl ⟨[()], .series (.last hgap (.inl (.number hnumeral)) hgap)⟩))) hgap)⟩)
  have hvalue : WrittenValue 122 (.list [.int (-5), .bool true]) _ :=
    .inr ⟨_, rfl, .series (.cons hgap (.inl (.int (-5))) hgap
      (.last hgap (.inl (.bool true)) hgap))⟩
  have hcondition : WrittenCondition 123 ⟨"c", "in", .list [.int (-5), .bool true]⟩ _ :=
    .series (.cons hgap (hplain rfl) hgap (.cons hgap (hplain rfl) hgap
      (.last hgap hvalue hgap)))
  have heffect : WrittenEffect 124 .allow _ := ⟨hobject, by rintro ⟨-, -, ⟨⟩⟩⟩
  have hallow : WrittenPolicy 125 allow _ :=
    ⟨[.nothing, .effect .allow, .conditions allow.conditions], ⟨.inl rfl, .inl rfl⟩, .series
      (.cons hgap (.mk ⟨"x", by decide, by decide, hplain rfl⟩ hgap hgap hhalf) hgap
      (.cons hgap (.mk (hplain rfl) hgap hgap heffect) hgap
      (.last hgap (.mk (hplain rfl) hgap hgap (.series (.last hgap hcondition hgap)))
        hgap)))⟩
  have hdeny' : WrittenPolicy 125 ⟨.deny, []⟩ _ :=
    ⟨[.effect .deny], ⟨.inr ⟨rfl, rfl⟩, .inl rfl⟩,
      .series (.last hgap (.mk (hplain rfl) hgap hgap hdeny) hgap)⟩
  have hperm : List.Perm [("b", []), ("a", [allow, ⟨.deny, []⟩])] s.toList := by
    have hfirst : (empty.assign "a" [allow, ⟨.deny, []⟩]).toList = [("a", [allow, ⟨.deny, []⟩])] :=
      rfl
    have hnew : "b" ∉ (empty.assign "a" [allow, ⟨.deny, []⟩]).toList.map Prod.fst := by
      simp [hfirst]
    have hboth := toList_assign_perm [] hnew
    rw [hfirst] at hboth
    exact hboth.symm
  have hspells : Spells text s :=
    ⟨_, [' '], _, ['\n'], hperm, by simp [IsGap, isSpace], by simp [IsGap, isSpace], .series
      (.cons hgap (.mk (hplain rfl) hgap hgap (.none hgap)) hgap
      (.last hgap (.mk (hplain (s := "a") rfl) hgap hgap
        (.series (.cons hgap hallow hgap (.last hgap hdeny' hgap)))) hgap)), by decide +kernel⟩
  exact ⟨hspells, ofJson_eq_ok_of_spells hspells⟩

end PolicySet

end RowPolicy
