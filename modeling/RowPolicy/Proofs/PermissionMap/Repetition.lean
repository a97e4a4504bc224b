import Mathlib.Algebra.Order.BigOperators.Group.List
import Mathlib.Data.List.Nodup
import RowPolicy.PermissionMap
import RowPolicy.Proofs.Collection

/-!
# Resources that are named twice

An object in JSON may have a key more than once. In a permission map the rules under a key take the
place of those that the resource had before, so only the rules under the last occurrence are kept,
and nothing tells that others were lost. Policy text differs: there the blocks of a resource add up.

`PermissionMap.Declares` says which keys a text has and which rules stand under each, in the order
of the text. The main statement is `PolicySet.get_ofJson`: the set keeps what stands last, this is
all that was declared exactly if nothing stood before, and the number of rules falls short by what
was lost.
-/
namespace RowPolicy

/-! ## Members of an object -/

namespace Json

variable {α σ : Type} {read : List Char → Reading α} {e e' : String × α}
  {es es' : List (String × α)} {cs rest rest' : List Char}

/-- A key, a colon and what is read behind it. -/
inductive HasMember (read : List Char → Reading α) : String × α → List Char → List Char → Prop where
  | mk {name : String} {a : α} {cs r₁ r₂ rest : List Char} (hkey : key cs = .ok (name, r₁))
    (hcolon : colon r₁ = .ok r₂) (hvalue : read r₂ = .ok (a, rest)) :
    HasMember read (name, a) cs rest

/-- One or more members with commas between them and a brace behind them. -/
inductive HasMembers (read : List Char → Reading α) :
    List (String × α) → List Char → List Char → Prop where
  | last {e : String × α} {cs mid rest : List Char} (member : HasMember read e cs mid)
    (brace : skipSpace mid = '\x7d' :: rest) : HasMembers read [e] cs rest
  | cons {e : String × α} {es : List (String × α)} {cs mid next rest : List Char}
    (member : HasMember read e cs mid) (comma : skipSpace mid = ',' :: next)
    (others : HasMembers read es next rest) : HasMembers read (e :: es) cs rest

/-- An object behind its opening brace. -/
inductive IsObject (read : List Char → Reading α) :
    List (String × α) → List Char → List Char → Prop where
  | none {cs rest : List Char} (brace : skipSpace cs = '\x7d' :: rest) : IsObject read [] cs rest
  | some {es : List (String × α)} {cs rest : List Char} (members : HasMembers read es cs rest) :
    IsObject read es cs rest

theorem HasMember.unique (h : HasMember read e cs rest) (h' : HasMember read e' cs rest') :
    e = e' ∧ rest = rest' := by
  obtain ⟨hkey, hcolon, hvalue⟩ := h
  obtain ⟨hkey', hcolon', hvalue'⟩ := h'
  rw [hkey] at hkey'
  cases hkey'
  rw [hcolon] at hcolon'
  cases hcolon'
  rw [hvalue] at hvalue'
  cases hvalue'
  exact ⟨rfl, rfl⟩

theorem HasMembers.unique (h : HasMembers read es cs rest) (h' : HasMembers read es' cs rest') :
    es = es' ∧ rest = rest' := by
  induction h generalizing es' with
  | last member brace =>
    cases h' with
    | last member' brace' =>
      obtain ⟨rfl, rfl⟩ := member.unique member'
      rw [brace] at brace'
      cases brace'
      exact ⟨rfl, rfl⟩
    | cons member' comma' =>
      obtain ⟨-, rfl⟩ := member.unique member'
      rw [brace] at comma'
      cases comma'
  | cons member comma _ ih =>
    cases h' with
    | last member' brace' =>
      obtain ⟨-, rfl⟩ := member.unique member'
      rw [comma] at brace'
      cases brace'
    | cons member' comma' others' =>
      obtain ⟨rfl, rfl⟩ := member.unique member'
      rw [comma] at comma'
      cases comma'
      obtain ⟨rfl, rfl⟩ := ih others'
      exact ⟨rfl, rfl⟩

/-- No member starts with a brace. -/
theorem HasMembers.brace_notMem (h : HasMembers read es cs rest) :
    '\x7d' ∉ (skipSpace cs).head? := by
  have hkey {name : String} {r : List Char} (hkey : key cs = .ok (name, r)) :
      '\x7d' ∉ (skipSpace cs).head? := by
    intro hmem
    obtain ⟨tail, hskip⟩ := List.head?_eq_some_iff.mp hmem
    rw [key, hskip] at hkey
    cases hkey
  cases h with
  | last member | cons member =>
    obtain ⟨h, -, -⟩ := member
    exact hkey h

theorem IsObject.unique (h : IsObject read es cs rest) (h' : IsObject read es' cs rest') :
    es = es' ∧ rest = rest' := by
  cases h with
  | none brace =>
    cases h' with
    | none brace' =>
      rw [brace] at brace'
      cases brace'
      exact ⟨rfl, rfl⟩
    | some members' => exact absurd (by rw [brace]; rfl) members'.brace_notMem
  | some members =>
    cases h' with
    | none brace' => exact absurd (by rw [brace']; rfl) members.brace_notMem
    | some members' => exact members.unique members'

/-- Each value is read alike, whatever its key and the members before it, and is then stored. -/
def Stores (accept : σ → String → Except Fault (List Char → Reading σ))
    (read : List Char → Reading α) (store : σ → String × α → σ) : Prop :=
  ∀ s name, accept s name =
    .ok fun cs => (read cs).map fun (a, rest) => (store s (name, a), rest)

variable {accept : σ → String → Except Fault (List Char → Reading σ)} {store : σ → String × α → σ}
  {s t : σ}

theorem Stores.exists_hasMember (haccept : Stores accept read store) {name : String}
    {readValue : List Char → Reading σ} {r₁ r₂ : List Char} (hkey : key cs = .ok (name, r₁))
    (hread : accept s name = .ok readValue) (hcolon : colon r₁ = .ok r₂)
    (hvalue : readValue r₂ = .ok (t, rest)) :
    ∃ a, HasMember read (name, a) cs rest ∧ t = store s (name, a) := by
  rw [haccept] at hread
  cases hread
  dsimp only at hvalue
  rcases ha : read r₂ with f | ⟨a, r⟩
  · rw [ha] at hvalue
    cases hvalue
  · rw [ha] at hvalue
    cases hvalue
    exact ⟨a, .mk hkey hcolon ha, rfl⟩

theorem Stores.exists_hasMembers (haccept : Stores accept read store)
    (h : membersFrom accept s cs = .ok (t, rest)) :
    ∃ es, HasMembers read es cs rest ∧ t = es.foldl store s := by
  fun_induction membersFrom accept s cs with
  | case6 s cs name r₁ hkey readValue hread r₂ hcolon s' r₃ hvalue next brace =>
    cases h
    obtain ⟨a, hmember, rfl⟩ := haccept.exists_hasMember hkey hread hcolon hvalue
    exact ⟨_, .last hmember brace, rfl⟩
  | case7 s cs name r₁ hkey readValue hread r₂ hcolon s' r₃ hvalue next _ comma _ ih =>
    obtain ⟨a, hmember, rfl⟩ := haccept.exists_hasMember hkey hread hcolon hvalue
    obtain ⟨es, hmembers, rfl⟩ := ih h
    exact ⟨_, .cons hmember comma hmembers, rfl⟩
  | _ => cases h

theorem Stores.exists_isObject (haccept : Stores accept read store)
    (h : members accept s cs = .ok (t, rest)) :
    ∃ es, IsObject read es cs rest ∧ t = es.foldl store s := by
  unfold members at h
  split at h
  · cases h
  · next c r hskip =>
    split at h
    · next hc =>
      subst hc
      cases h
      exact ⟨[], .none hskip, rfl⟩
    · obtain ⟨es, hmembers, rfl⟩ := haccept.exists_hasMembers h
      exact ⟨es, .some hmembers, rfl⟩

end Json

namespace PermissionMap

open Json

/-- The whole text is an object with these keys and rules, in this order. -/
def Declares (text : String) (entries : List (String × List Policy)) : Prop :=
  ∃ inside rest, skipSpace text.toList = '\x7b' :: inside ∧
    IsObject (array (policy (greatestDepth - 2))) entries inside rest ∧ skipSpace rest = []

theorem Declares.unique {text : String} {entries entries' : List (String × List Policy)}
    (h : Declares text entries) (h' : Declares text entries') : entries = entries' := by
  obtain ⟨inside, rest, hopen, hobject, -⟩ := h
  obtain ⟨inside', rest', hopen', hobject', -⟩ := h'
  rw [hopen] at hopen'
  cases hopen'
  exact (hobject.unique hobject').1

end PermissionMap

namespace PolicySet

open Json PermissionMap

/-! ## Rules that take the place of others -/

variable {s : PolicySet} {entries : List (String × List Policy)} {r : String}

/-- The set after each entry has replaced the rules of its resource. -/
def assignAll (s : PolicySet) (entries : List (String × List Policy)) : PolicySet :=
  entries.foldl (fun s e => s.assign e.1 e.2) s

theorem exists_declares_of_ofJson {text : String} (h : ofJson text = .ok s) :
    ∃ entries, Declares text entries ∧ s = empty.assignAll entries := by
  have hstores : Stores (accept (greatestDepth - 1)) (array (policy (greatestDepth - 2)))
      fun s e => s.assign e.1 e.2 := fun _ _ => rfl
  unfold ofJson whole policySet at h
  split at h
  · cases h
  · next s' rest hread =>
    split at hread
    · cases hread
    · next c inside hskip =>
      split at hread
      · next hc =>
        subst hc
        split at h
        · next hrest =>
          cases h
          obtain ⟨entries, hobject, rfl⟩ := hstores.exists_isObject hread
          exact ⟨entries, ⟨inside, rest, hskip, hobject, List.isEmpty_iff.mp hrest⟩, rfl⟩
        · cases h
      · cases hread


theorem assignAll_concat (s : PolicySet) (entries : List (String × List Policy))
    (e : String × List Policy) :
    s.assignAll (entries ++ [e]) = (s.assignAll entries).assign e.1 e.2 := by
  simp [assignAll]

theorem get_assign (s : PolicySet) (q r : String) (ps : List Policy) :
    (s.assign q ps).get r = if q = r then ps else s.get r := by
  unfold assign get
  rw [Std.TreeMap.getD_insert]
  simp

theorem mem_resources_assign {q : String} {ps : List Policy} :
    r ∈ (s.assign q ps).resources ↔ r = q ∨ r ∈ s.resources := by
  rw [resources, assign, Std.TreeMap.mem_keys, Std.TreeMap.mem_insert, compare_eq_iff_eq,
    resources, Std.TreeMap.mem_keys, eq_comm]

/-- The rules under each occurrence of a key. -/
def under (entries : List (String × List Policy)) (r : String) : List (List Policy) :=
  (entries.filter (·.1 = r)).map Prod.snd

theorem under_concat (entries : List (String × List Policy)) (e : String × List Policy)
    (r : String) :
    under (entries ++ [e]) r = if e.1 = r then under entries r ++ [e.2] else under entries r := by
  by_cases h : e.1 = r <;> simp [under, h]

theorem under_eq_nil_iff : under entries r = [] ↔ r ∉ entries.map Prod.fst := by
  rw [under, List.map_eq_nil_iff, List.filter_eq_nil_iff, List.mem_map]
  constructor
  · rintro h ⟨e, he, rfl⟩
    exact h e he (by simp)
  · exact fun h e he hr => h ⟨e, he, by simpa using hr⟩

/-- What stands last is kept. -/
theorem get_assignAll (entries : List (String × List Policy)) (r : String) :
    (empty.assignAll entries).get r = (under entries r).getLast?.getD [] := by
  induction entries using List.reverseRecOn with
  | nil => simp [assignAll, under]
  | append_singleton entries e ih =>
    rw [assignAll_concat, get_assign, under_concat]
    split
    · simp
    · exact ih

theorem mem_resources_assignAll :
    r ∈ (empty.assignAll entries).resources ↔ r ∈ entries.map Prod.fst := by
  induction entries using List.reverseRecOn with
  | nil => simp [assignAll, empty, resources, Std.TreeMap.mem_keys]
  | append_singleton entries e ih =>
    rw [assignAll_concat, mem_resources_assign, ih]
    simp [or_comm]

/-! ## Rules that are lost -/

/-- The rules of a resource that others take the place of. -/
def lost (entries : List (String × List Policy)) (r : String) : List Policy :=
  (under entries r).dropLast.flatten

theorem lost_append_get (entries : List (String × List Policy)) (r : String) :
    lost entries r ++ (empty.assignAll entries).get r = (under entries r).flatten := by
  rw [get_assignAll, lost]
  rcases (under entries r).eq_nil_or_concat with h | ⟨before, last, h⟩ <;> simp [h]

/-- Every rule of a text stands under one of its keys. -/
theorem sum_length_under {rs : List String} (hnodup : rs.Nodup) (hrs : ∀ e ∈ entries, e.1 ∈ rs) :
    (rs.map fun r => (under entries r).flatten.length).sum = (entries.flatMap Prod.snd).length := by
  induction entries with
  | nil => simp [under]
  | cons e entries ih =>
    obtain ⟨he, hrest⟩ := List.forall_mem_cons.mp hrs
    have hcons (r : String) : (under (e :: entries) r).flatten.length =
        (if e.1 = r then e.2.length else 0) + (under entries r).flatten.length := by
      by_cases h : e.1 = r <;> simp [under, h]
    have hone : (rs.map fun r => if e.1 = r then e.2.length else 0).sum = e.2.length := by
      rw [List.sum_map_eq_nsmul_single e.1 _ fun r hr _ => if_neg hr.symm,
        List.count_eq_one_of_mem hnodup he]
      simp
    simp only [hcons, List.sum_map_add, hone, ih hrest, List.flatMap_cons, List.length_append]

/-- The rules that are kept and those that are lost are all the rules of the text. -/
theorem size_assignAll (entries : List (String × List Policy)) :
    let s := empty.assignAll entries
    s.size + (s.resources.map fun r => (lost entries r).length).sum =
      (entries.flatMap Prod.snd).length := by
  intro s
  have hresources : ∀ e ∈ entries, e.1 ∈ s.resources := fun e he =>
    mem_resources_assignAll.mpr (List.mem_map_of_mem he)
  have hget (r : String) :
      (s.get r).length + (lost entries r).length = (under entries r).flatten.length := by
    rw [← lost_append_get entries r, List.length_append, Nat.add_comm]
  rw [size_eq_sum, ← List.sum_map_add, ← sum_length_under (nodup_resources s) hresources]
  simp only [hget]

theorem size_assignAll_eq_iff :
    (empty.assignAll entries).size = (entries.flatMap Prod.snd).length ↔
      ∀ r, lost entries r = [] := by
  have hsize := size_assignAll entries
  dsimp only at hsize
  rw [← hsize, left_eq_add, List.sum_eq_zero_iff, List.forall_mem_map]
  refine ⟨fun h r => ?_, fun h r _ => by rw [h r, List.length_nil]⟩
  by_cases hr : r ∈ (empty.assignAll entries).resources
  · exact List.length_eq_zero_iff.mp (h r hr)
  · rw [lost, under_eq_nil_iff.mpr (mt mem_resources_assignAll.mpr hr)]
    rfl

/-- A set that is decoded keeps for each resource the rules under the last occurrence of its key.
These are all its rules exactly if none stood under the occurrences before, and they are counted
in full exactly if that is so for every resource. -/
theorem get_ofJson {text : String} (h : ofJson text = .ok s) :
    (∃ entries, Declares text entries) ∧ ∀ entries, Declares text entries →
      (∀ r, s.get r = (under entries r).getLast?.getD []) ∧
      (∀ r, s.get r = (under entries r).flatten ↔ lost entries r = []) ∧
      (s.size = (entries.flatMap Prod.snd).length ↔ ∀ r, lost entries r = []) := by
  obtain ⟨declared, hdeclared, rfl⟩ := exists_declares_of_ofJson h
  refine ⟨⟨declared, hdeclared⟩, fun entries hentries => ?_⟩
  obtain rfl := hdeclared.unique hentries
  refine ⟨get_assignAll declared, fun r => ?_, size_assignAll_eq_iff⟩
  rw [← lost_append_get declared r, List.self_eq_append_left]

/-- No rules stand under the first of the two keys, so that none are lost. -/
theorem get_ofJson_kept :
    let text := "\x7b\"r\":[],\"s\":[\x7b\x7d],\"r\":[\x7b\x7d]\x7d"
    let entries : List (String × List Policy) :=
      [("r", []), ("s", [⟨.allow, []⟩]), ("r", [⟨.allow, []⟩])]
    Declares text entries ∧ ∃ s, ofJson text = .ok s ∧ s.get "r" = [⟨.allow, []⟩] ∧
      s.get "r" = (under entries "r").flatten := by
  intro text entries
  have hfirst : HasMember (array (policy 125)) ("r", [])
      "\"r\":[],\"s\":[\x7b\x7d],\"r\":[\x7b\x7d]\x7d".toList
      ",\"s\":[\x7b\x7d],\"r\":[\x7b\x7d]\x7d".toList := .mk (by cbv) (by cbv) (by cbv)
  have hsecond : HasMember (array (policy 125)) ("s", [⟨.allow, []⟩])
      "\"s\":[\x7b\x7d],\"r\":[\x7b\x7d]\x7d".toList ",\"r\":[\x7b\x7d]\x7d".toList :=
    .mk (by cbv) (by cbv) (by cbv)
  have hthird : HasMember (array (policy 125)) ("r", [⟨.allow, []⟩])
      "\"r\":[\x7b\x7d]\x7d".toList ['\x7d'] := .mk (by cbv) (by cbv) (by cbv)
  have hdeclares : Declares text entries := by
    unfold text
    exact ⟨_, [], by cbv,
      .some (.cons hfirst (by cbv) (.cons hsecond (by cbv) (.last hthird rfl))), rfl⟩
  obtain ⟨s, hs⟩ : ∃ s, ofJson text = .ok s := by
    unfold text
    exact ⟨_, by cbv⟩
  obtain ⟨hget, hall, -⟩ := (get_ofJson hs).2 entries hdeclares
  exact ⟨hdeclares, s, hs, hget "r", (hall "r").mpr rfl⟩

/-- The rule under the second of two keys takes the place of the one under the first, so that a
denial is lost. -/
theorem ofJson_overwritten :
    let text := "\x7b\"r\":[\x7b\"effect\":\"deny\"\x7d],\"r\":[\x7b\x7d]\x7d"
    let entries : List (String × List Policy) := [("r", [⟨.deny, []⟩]), ("r", [⟨.allow, []⟩])]
    Declares text entries ∧ ∃ s, ofJson text = .ok s ∧ s.get "r" = [⟨.allow, []⟩] ∧
      s.get "r" ≠ (under entries "r").flatten ∧ s.size ≠ (entries.flatMap Prod.snd).length := by
  intro text entries
  have hfirst : HasMember (array (policy 125)) ("r", [⟨.deny, []⟩])
      "\"r\":[\x7b\"effect\":\"deny\"\x7d],\"r\":[\x7b\x7d]\x7d".toList
      ",\"r\":[\x7b\x7d]\x7d".toList := .mk (by cbv) (by cbv) (by cbv)
  have hsecond : HasMember (array (policy 125)) ("r", [⟨.allow, []⟩])
      "\"r\":[\x7b\x7d]\x7d".toList ['\x7d'] := .mk (by cbv) (by cbv) (by cbv)
  have hdeclares : Declares text entries := by
    unfold text
    exact ⟨_, [], by cbv, .some (.cons hfirst (by cbv) (.last hsecond rfl)), rfl⟩
  refine ⟨hdeclares, _, by unfold text; cbv, rfl, ?_, ?_⟩
  · intro heq
    exact absurd (congrArg List.length heq) (by decide)
  · decide

end PolicySet

end RowPolicy
