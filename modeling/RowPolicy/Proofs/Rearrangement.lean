import RowPolicy.Proofs.Verdict

/-!
# Rules in another order

Rules may be put in another order, written down again or struck out where they are written more
than once, and so may the conditions within a rule. None of these moves changes which rules there
are, up to the way their conditions are listed, and nothing else has a part in a verdict.

The main statement is `Policy.filter_rearranged`: rearranged rules have filters for the same roles,
and these filters agree on every row.
-/
namespace RowPolicy

namespace Policy

/-- The moves. Where a move concerns a single rule, it is the first one, which any rule can be made
by a move of order. -/
inductive Rearranged : List Policy → List Policy → Prop where
  | order {ps qs : List Policy} (h : ps.Perm qs) : Rearranged ps qs
  | again {p : Policy} {ps : List Policy} (h : p ∈ ps) : Rearranged ps (p :: ps)
  | conditionOrder {effect : Effect} {cs ds : List Condition} (h : cs.Perm ds) (ps : List Policy) :
      Rearranged (⟨effect, cs⟩ :: ps) (⟨effect, ds⟩ :: ps)
  | conditionAgain (effect : Effect) {c : Condition} {cs : List Condition} (h : c ∈ cs)
      (ps : List Policy) : Rearranged (⟨effect, cs⟩ :: ps) (⟨effect, c :: cs⟩ :: ps)
  | symm {ps qs : List Policy} (h : Rearranged ps qs) : Rearranged qs ps
  | trans {ps qs rs : List Policy} (h : Rearranged ps qs) (h' : Rearranged qs rs) :
      Rearranged ps rs

/-! ## What the moves keep -/

/-- The same effect and the same conditions, in whatever order and number. -/
def Alike (p q : Policy) : Prop :=
  p.effect = q.effect ∧ ∀ c, c ∈ p.conditions ↔ c ∈ q.conditions

theorem Alike.refl (p : Policy) : p.Alike p := ⟨rfl, fun _ => .rfl⟩

theorem Alike.symm {p q : Policy} (h : p.Alike q) : q.Alike p := ⟨h.1.symm, fun c => (h.2 c).symm⟩

theorem Alike.trans {p q s : Policy} (h : p.Alike q) (h' : q.Alike s) : p.Alike s :=
  ⟨h.1.trans h'.1, fun c => (h.2 c).trans (h'.2 c)⟩

theorem alike_of_perm (effect : Effect) {cs ds : List Condition} (h : cs.Perm ds) :
    Alike ⟨effect, cs⟩ ⟨effect, ds⟩ :=
  ⟨rfl, fun _ => h.mem_iff⟩

theorem alike_cons (effect : Effect) {c : Condition} {cs : List Condition} (h : c ∈ cs) :
    Alike ⟨effect, cs⟩ ⟨effect, c :: cs⟩ := by
  refine ⟨rfl, fun d => ⟨List.mem_cons_of_mem c, fun hd => ?_⟩⟩
  rcases List.mem_cons.mp hd with rfl | hd
  · exact h
  · exact hd

/-- Each rule of the one list has its like in the other. -/
def Covers (qs ps : List Policy) : Prop := ∀ p ∈ ps, ∃ q ∈ qs, p.Alike q

theorem covers_of_subset {ps qs : List Policy} (h : ps ⊆ qs) : Covers qs ps :=
  fun p hp => ⟨p, h hp, .refl p⟩

theorem Covers.trans {ps qs rs : List Policy} (h : Covers qs ps) (h' : Covers rs qs) :
    Covers rs ps := by
  intro p hp
  obtain ⟨q, hq, hpq⟩ := h p hp
  obtain ⟨s, hs, hqs⟩ := h' q hq
  exact ⟨s, hs, hpq.trans hqs⟩

theorem covers_cons {p q : Policy} (h : p.Alike q) (ps : List Policy) :
    Covers (q :: ps) (p :: ps) := by
  intro p' hp'
  rcases List.mem_cons.mp hp' with rfl | hmem
  · exact ⟨q, by simp, h⟩
  · exact ⟨p', by simp [hmem], .refl p'⟩

theorem Rearranged.covers {ps qs : List Policy} (h : Rearranged ps qs) :
    Covers qs ps ∧ Covers ps qs := by
  induction h with
  | order h => exact ⟨covers_of_subset h.subset, covers_of_subset h.symm.subset⟩
  | @again p ps h =>
    exact ⟨covers_of_subset (List.subset_cons_self p ps), covers_of_subset (by simp [h])⟩
  | @conditionOrder effect cs ds h ps =>
    have halike := alike_of_perm effect h
    exact ⟨covers_cons halike ps, covers_cons halike.symm ps⟩
  | conditionAgain effect h ps =>
    have halike := alike_cons effect h
    exact ⟨covers_cons halike ps, covers_cons halike.symm ps⟩
  | symm _ ih => exact ih.symm
  | trans _ _ ih ih' => exact ⟨ih.1.trans ih'.1, ih'.2.trans ih.2⟩

/-! ## Verdicts -/

variable {r : Resource}

theorem Alike.truth_eq {p q : Policy} (h : p.Alike q) (row : Row) :
    p.truth r row = q.truth r row := by
  have hall : Truth.all (p.conditions.map (Condition.truth r row)) =
      Truth.all (q.conditions.map (Condition.truth r row)) :=
    Truth.all_congr fun t => by simp only [List.mem_map, h.2]
  simp only [truth, h.1, hall]

theorem Alike.isOpen_eq {p q : Policy} (h : p.Alike q) : p.isOpen = q.isOpen := by
  rw [isOpen, isOpen, h.1, isEmpty_eq_of_mem_iff h.2]

theorem Covers.eq_nil {ps qs : List Policy} (h : Covers qs ps) (hqs : qs = []) : ps = [] := by
  subst hqs
  refine List.eq_nil_iff_forall_not_mem.mpr fun p hp => ?_
  obtain ⟨q, hq, -⟩ := h p hp
  cases hq

/-- What the rules that restrict say is said by the other list as well. -/
theorem Covers.mem_kept {ps qs : List Policy} (h : Covers qs ps) {row : Row} {t : Truth}
    (ht : t ∈ (ps.filter (!·.isOpen)).map (truth r row)) :
    t ∈ (qs.filter (!·.isOpen)).map (truth r row) := by
  obtain ⟨p, hp, rfl⟩ := List.mem_map.mp ht
  obtain ⟨hp, hopen⟩ := List.mem_filter.mp hp
  obtain ⟨q, hq, hpq⟩ := h p hp
  refine List.mem_map.mpr ⟨q, List.mem_filter.mpr ⟨hq, ?_⟩, (hpq.truth_eq row).symm⟩
  rwa [← hpq.isOpen_eq]

theorem verdict_congr {ps qs : List Policy} (h : Covers qs ps) (h' : Covers ps qs) (row : Row)
    (role : Role) : verdict r row role ps = verdict r row role qs := by
  have hnil : ps = [] ↔ qs = [] := ⟨h'.eq_nil, h.eq_nil⟩
  have hmem (t : Truth) : t ∈ (ps.filter (!·.isOpen)).map (truth r row) ↔
      t ∈ (qs.filter (!·.isOpen)).map (truth r row) := ⟨h.mem_kept, h'.mem_kept⟩
  by_cases hadmin : role = .admin
  · subst hadmin
    rfl
  by_cases hclient : role = .client → ps ≠ []
  · rw [verdict_eq r row hadmin hclient,
      verdict_eq r row hadmin fun hc => mt hnil.mpr (hclient hc)]
    have hkept : ps.filter (!·.isOpen) = [] ↔ qs.filter (!·.isOpen) = [] := by
      rw [← List.map_eq_nil_iff (f := truth r row), ← List.map_eq_nil_iff (f := truth r row),
        List.eq_nil_iff_forall_not_mem, List.eq_nil_iff_forall_not_mem]
      simp only [hmem]
    have hany := Truth.any_congr hmem
    cases hp : ps.filter (!·.isOpen) with
    | nil => rw [hkept.mp hp]
    | cons p kept =>
      obtain ⟨q, kept', hq⟩ : ∃ q kept', qs.filter (!·.isOpen) = q :: kept' :=
        List.exists_cons_of_ne_nil fun hq => by simp [hkept.mpr hq] at hp
      rw [hq]
      rwa [hp, hq] at hany
  · obtain ⟨rfl, rfl⟩ : role = .client ∧ ps = [] := by simpa using hclient
    rw [hnil.mp rfl]

theorem Covers.exists_leaf {ps qs : List Policy} (h : Covers qs ps)
    (hqs : ∀ q ∈ qs, ∀ c ∈ q.conditions, ∃ leaf, c.leaf r = .ok leaf) :
    ∀ p ∈ ps, ∀ c ∈ p.conditions, ∃ leaf, c.leaf r = .ok leaf := by
  intro p hp c hc
  obtain ⟨q, hq, hpq⟩ := h p hp
  exact hqs q hq c ((hpq.2 c).mp hc)

/-- Rearranged rules have filters for the same roles, and these agree on every row. -/
theorem filter_rearranged {ps qs : List Policy} (h : Rearranged ps qs) (r : Resource)
    (role : Role) :
    ((∃ p, filter r role ps = .ok p) ↔ ∃ q, filter r role qs = .ok q) ∧
      ∀ p q, filter r role ps = .ok p → filter r role qs = .ok q →
        ∀ row, p.eval row = q.eval row := by
  obtain ⟨hqs, hps⟩ := h.covers
  constructor
  · rw [exists_filter_iff, exists_filter_iff]
    exact or_congr_right ⟨hps.exists_leaf, hqs.exists_leaf⟩
  · intro p q hp hq row
    rw [eval_eq_verdict hp row, eval_eq_verdict hq row]
    exact verdict_congr hqs hps row role

/-- A row that leaves a rule open does so wherever the rule stands. -/
theorem filter_rearranged_open :
    let r := ((Resource.new "users").withColumn "age" .integer).withColumn "region" .text
    let grown : Condition := ⟨"age", ">", .int 18⟩
    let abroad : Condition := ⟨"region", "not_eq", .text "EU"⟩
    let ps : List Policy := [⟨.allow, [abroad]⟩, ⟨.deny, [grown, abroad]⟩]
    let qs : List Policy :=
      [⟨.allow, [abroad]⟩, ⟨.deny, [abroad, abroad, grown]⟩, ⟨.allow, [abroad]⟩]
    let row := Row.empty.set "age" (.int 30)
    Rearranged ps qs ∧ ∃ p q, filter r .client ps = .ok p ∧ filter r .client qs = .ok q ∧
      p.eval row = q.eval row ∧ p.eval row = .unknown := by
  intro r grown abroad ps qs row
  have hmoved : Rearranged ps [⟨.deny, [grown, abroad]⟩, ⟨.allow, [abroad]⟩] :=
    .order (.swap _ _ [])
  have hturned : Rearranged [⟨.deny, [grown, abroad]⟩, ⟨.allow, [abroad]⟩]
      [⟨.deny, [abroad, grown]⟩, ⟨.allow, [abroad]⟩] := .conditionOrder (.swap _ _ []) _
  have hlonger : Rearranged [⟨.deny, [abroad, grown]⟩, ⟨.allow, [abroad]⟩]
      [⟨.deny, [abroad, abroad, grown]⟩, ⟨.allow, [abroad]⟩] :=
    .conditionAgain .deny (by simp) _
  have h : Rearranged ps qs :=
    ((hmoved.trans hturned).trans hlonger).trans (.again (by simp))
  obtain ⟨p, hp⟩ : ∃ p, filter r .client ps = .ok p := by
    simp only [r, grown, abroad, ps]
    exact ⟨_, rfl⟩
  obtain ⟨hexists, heval⟩ := filter_rearranged h r .client
  obtain ⟨q, hq⟩ := hexists.mp ⟨p, hp⟩
  have hopen : verdict r row .client ps = .unknown := by decide
  exact ⟨h, p, q, hp, hq, heval p q hp hq row, (eval_eq_verdict hp row).trans hopen⟩

end Policy

end RowPolicy
