import Mathlib.Data.List.Forall2
import RowPolicy.Proofs.Text.Casing
import RowPolicy.Proofs.Text.Wildcard

/-!
# Patterns made from a text

A pattern is made from a text by putting `_` in the place of some of its characters and `%` in the
place of some of its parts. The text fits such a pattern. Without regard to case it is found to fit
as long as the lower case of both leaves everything in its place: a dotted capital I that `_`
stands for becomes two characters, and a capital sigma that is kept may end a word in one of the
two and not in the other.

The main statement is `Predicate.eval_isLike_masked`. A pattern without `%` leaves no other way to
fit, so there the condition is exact.
-/
namespace RowPolicy

namespace Wildcard

open Casing

/-- What becomes of a part of the text. -/
inductive Part where
  | kept (c : Char)
  | blanked (c : Char)
  | skipped (piece : List Char)
  deriving DecidableEq, Repr

/-- The text. -/
def original : List Part → List Char
  | [] => []
  | .kept c :: parts | .blanked c :: parts => c :: original parts
  | .skipped piece :: parts => piece ++ original parts

/-- The pattern made from it. -/
def masked : List Part → List Char
  | [] => []
  | .kept c :: parts => c :: masked parts
  | .blanked _ :: parts => '_' :: masked parts
  | .skipped _ :: parts => '%' :: masked parts

/-- Every capital sigma that is kept takes the same form in the text and in the pattern. What stands
before the parts is given in reverse, in the text and in the pattern. -/
def SigmasAgree : List Char → List Char → List Part → Prop
  | _, _, [] => True
  | before, before', .kept c :: parts =>
    (c = 'Σ' → lowerSigma before (original parts) = lowerSigma before' (masked parts)) ∧
      SigmasAgree (c :: before) (c :: before') parts
  | before, before', .blanked c :: parts => SigmasAgree (c :: before) ('_' :: before') parts
  | before, before', .skipped piece :: parts =>
    SigmasAgree (piece.reverse ++ before) ('%' :: before') parts

/-- Lower case leaves all parts in their places: a `_` still stands for one character, and what is
kept is still the same. -/
def InPlace (parts : List Part) : Prop :=
  .blanked 'İ' ∉ parts ∧ SigmasAgree [] [] parts

variable {parts : List Part} {before before' pattern text : List Char}

/-! ## Parts in their places -/

theorem Cut.append_left (h : Cut pattern text) (piece : List Char) :
    Cut (piece ++ pattern) (piece ++ text) := by
  induction piece with
  | nil => exact h
  | cons c piece ih =>
    have hcons : Cut (c :: (piece ++ pattern)) ([c] ++ (piece ++ text)) := .cons (.self c) ih
    exact hcons

theorem exists_lowerPart_eq_singleton {c : Char} (h : Part.blanked 'İ' ≠ .blanked c)
    (before after : List Char) : ∃ d, lowerPart before c after = [d] := by
  have hc : c ≠ 'İ' := fun hc => h (congrArg Part.blanked hc.symm)
  exact List.length_eq_one_iff.mp ((length_lowerPart before c after).trans (if_neg hc))

/-- The parts of the text in lower case fit the parts of the pattern in lower case. -/
theorem cut_lowerAfter (hblanked : .blanked 'İ' ∉ parts)
    (hsigma : SigmasAgree before before' parts) :
    Cut (lowerAfter before' (masked parts)) (lowerAfter before (original parts)) := by
  induction parts generalizing before before' with
  | nil => exact .nil
  | cons part parts ih =>
    obtain ⟨hpart, hparts⟩ := List.ne_and_not_mem_of_not_mem_cons hblanked
    cases part with
    | kept c =>
      obtain ⟨hsame, hsigma⟩ := hsigma
      simp only [masked, original, lowerAfter_cons, lowerPart_congr hsame]
      exact (ih hparts hsigma).append_left _
    | blanked c =>
      obtain ⟨d, hd⟩ := exists_lowerPart_eq_singleton hpart before (original parts)
      simp only [masked, original, lowerAfter_cons, lowerPart_underscore, hd]
      exact .cons (.one d) (ih hparts hsigma)
    | skipped piece =>
      obtain ⟨low, hlow⟩ := exists_lowerAfter_append before piece (original parts)
      simp only [masked, original, lowerAfter_cons, lowerPart_percent, hlow]
      exact .cons (.run low) (ih hparts hsigma)

/-! ## Patterns without runs -/

/-- Without `%` a pattern fits character by character. -/
theorem Cut.forall₂ (h : Cut pattern text) (hplain : '%' ∉ pattern) :
    List.Forall₂ (fun p t => p = '_' ∨ p = t) pattern text := by
  induction h with
  | nil => exact .nil
  | @cons c piece pattern rest hstands _ ih =>
    obtain ⟨hc, hrest⟩ := List.ne_and_not_mem_of_not_mem_cons hplain
    cases hstands with
    | run => exact absurd rfl hc
    | one d => exact .cons (.inl rfl) (ih hrest)
    | self => exact .cons (.inr rfl) (ih hrest)

/-- The text in lower case is longer by one for every dotted capital I that is blanked. -/
theorem length_lowerAfter_original (hplain : '%' ∉ masked parts) (before before' : List Char) :
    (lowerAfter before (original parts)).length =
      (lowerAfter before' (masked parts)).length + parts.count (.blanked 'İ') := by
  induction parts generalizing before before' with
  | nil => rfl
  | cons part parts ih =>
    cases part with
    | kept c =>
      have hrest := ih (List.not_mem_of_not_mem_cons hplain) (c :: before) (c :: before')
      simp only [masked, original, lowerAfter_cons, List.length_append, length_lowerPart, hrest,
        List.count_cons]
      grind
    | blanked c =>
      have hrest := ih (List.not_mem_of_not_mem_cons hplain) (c :: before) ('_' :: before')
      simp only [masked, original, lowerAfter_cons, List.length_append, length_lowerPart, hrest,
        List.count_cons]
      grind
    | skipped piece => exact absurd List.mem_cons_self hplain

theorem lowerSigma_ne_underscore (before after : List Char) : lowerSigma before after ≠ '_' := by
  rcases lowerSigma_eq before after with h | h <;> simp [h]

theorem sigmasAgree_of_forall₂ (hblanked : .blanked 'İ' ∉ parts) (hplain : '%' ∉ masked parts)
    (h : List.Forall₂ (fun p t => p = '_' ∨ p = t) (lowerAfter before' (masked parts))
      (lowerAfter before (original parts))) : SigmasAgree before before' parts := by
  induction parts generalizing before before' with
  | nil => trivial
  | cons part parts ih =>
    obtain ⟨hpart, hparts⟩ := List.ne_and_not_mem_of_not_mem_cons hblanked
    cases part with
    | kept c =>
      have hplain := List.not_mem_of_not_mem_cons hplain
      simp only [masked, original, lowerAfter_cons] at h
      have hlength : (lowerPart before c (original parts)).length =
          (lowerPart before' c (masked parts)).length := by
        rw [length_lowerPart, length_lowerPart]
      have hrest := List.forall₂_drop_append _ _ _ h
      rw [hlength, List.drop_left] at hrest
      refine ⟨?_, ih hparts hplain hrest⟩
      rintro rfl
      rw [lowerPart_sigma, lowerPart_sigma] at h
      cases h with
      | cons hsame => exact (hsame.resolve_left (lowerSigma_ne_underscore _ _)).symm
    | blanked c =>
      have hplain := List.not_mem_of_not_mem_cons hplain
      obtain ⟨d, hd⟩ := exists_lowerPart_eq_singleton hpart before (original parts)
      simp only [masked, original, lowerAfter_cons, lowerPart_underscore, hd] at h
      cases h with
      | cons _ hrest => exact ih hparts hplain hrest
    | skipped piece => exact absurd List.mem_cons_self hplain

/-- Without runs there is no other way for the parts to fit. -/
theorem inPlace_of_cut (hplain : '%' ∉ masked parts)
    (h : Cut (lower (masked parts)) (lower (original parts))) : InPlace parts := by
  have hfits := h.forall₂ (percent_notMem_lower hplain)
  have hlength := length_lowerAfter_original hplain [] []
  have hcount : parts.count (.blanked 'İ') = 0 := by
    have := hfits.length_eq
    simp only [lower] at this
    omega
  have hblanked := List.count_eq_zero.mp hcount
  exact ⟨hblanked, sigmasAgree_of_forall₂ hblanked hplain hfits⟩

end Wildcard

/-! ## Leaves -/

namespace Predicate

open Wildcard Casing

theorem eval_isLike {row : Row} {column : Column} {s : String}
    (hread : column.read? row = some (.text s)) (p : String) :
    eval row (compare column .isLike (.text p)) =
      .ofBool (fits (lower p.toList) (lower s.toList)) := by
  simp only [eval, hread]
  exact Value.compareBy_isLike s p

/-- A text that has no `%` matches a pattern made from it if lower case leaves the parts in their
places, and if there is no `%` in the pattern, only then. In general it does so exactly if its lower
case can be cut to fit that of the pattern, be it at other places. -/
theorem eval_isLike_masked {parts : List Part} (hplain : '%' ∉ original parts) {row : Row}
    {column : Column} (hread : column.read? row = some (.text (String.ofList (original parts)))) :
    let leaf := compare column .isLike (.text (String.ofList (masked parts)))
    (InPlace parts → eval row leaf = .yes) ∧
      ('%' ∉ masked parts → (eval row leaf = .yes ↔ InPlace parts)) ∧
      (eval row leaf = .yes ↔ Cut (lower (masked parts)) (lower (original parts))) := by
  intro leaf
  have hcut : eval row leaf = .yes ↔ Cut (lower (masked parts)) (lower (original parts)) := by
    rw [eval_isLike hread, String.toList_ofList, String.toList_ofList,
      ← fits_iff_cut_of_plain (.inl (percent_notMem_lower hplain))]
    cases fits (lower (masked parts)) (lower (original parts)) <;> simp
  have hyes : InPlace parts → eval row leaf = .yes := fun h => hcut.mpr (cut_lowerAfter h.1 h.2)
  exact ⟨hyes, fun hruns => ⟨fun h => inPlace_of_cut hruns (hcut.mp h), hyes⟩, hcut⟩

/-- The sigma ends its word in both, and it is not for a `_` that the dotted capital I stands. -/
theorem eval_isLike_masked_words :
    let parts : List Part := [.kept 'Ο', .blanked 'Δ', .kept 'Ο', .kept 'Σ', .kept ' ',
      .skipped ['İ', 'z'], .kept 'm', .blanked 'i', .kept 'r']
    let row := Row.empty.set "name" (.text "ΟΔΟΣ İzmir")
    original parts = "ΟΔΟΣ İzmir".toList ∧ masked parts = "Ο_ΟΣ %m_r".toList ∧
      '%' ∉ original parts ∧ InPlace parts ∧
      eval row (compare ⟨"users", "name", false⟩ .isLike (.text "Ο_ΟΣ %m_r")) = .yes := by
  intro parts row
  have hplain : '%' ∉ original parts := by decide
  have hletter : isIgnorable 'Ο' = false ∧ isCased 'Ο' = true := by
    simp only [isIgnorable, isCased, inRanges_eq_any]
    decide +kernel
  have hspace : isIgnorable ' ' = false ∧ isCased ' ' = false := by
    simp only [isIgnorable, isCased, inRanges_eq_any]
    decide +kernel
  have hfinal (cs ds : List Char) : lowerSigma ('Ο' :: cs) (' ' :: ds) = 'ς' := by
    simp [lowerSigma, meetsCased_cons, hletter, hspace]
  have hplace : InPlace parts :=
    ⟨by decide, by simp [parts, SigmasAgree, original, masked, hfinal]⟩
  exact ⟨rfl, rfl, hplain, hplace, (eval_isLike_masked hplain rfl).1 hplace⟩

/-- A `_` does not stand for a dotted capital I, and a sigma that is left alone does not stand for
the one that ended a word. -/
theorem eval_isLike_blanked_dotted :
    let leaf (p : String) := compare ⟨"users", "name", false⟩ .isLike (.text p)
    let row (s : String) := Row.empty.set "name" (.text s)
    (original [.blanked 'İ'] = "İ".toList ∧ masked [.blanked 'İ'] = "_".toList ∧
      eval (row "İ") (leaf "_") = .no) ∧
      (original [.skipped ['A'], .kept 'Σ'] = "AΣ".toList ∧
        masked [.skipped ['A'], .kept 'Σ'] = "%Σ".toList ∧
        eval (row "AΣ") (leaf "%Σ") = .no) := by
  intro leaf row
  have hdotted : fits (lower ['_']) (lower ['İ']) = false := by decide
  have hletter : isIgnorable 'A' = false ∧ isCased 'A' = true := by
    simp only [isIgnorable, isCased, inRanges_eq_any]
    decide +kernel
  have hsign : isIgnorable '%' = false ∧ isCased '%' = false := by
    simp only [isIgnorable, isCased, inRanges_eq_any]
    decide +kernel
  have hfinal : lowerSigma ['A'] [] = 'ς' := by
    rw [lowerSigma, meetsCased_cons hletter.1, hletter.2]
    rfl
  have hlone : lowerSigma ['%'] [] = 'σ' := by
    rw [lowerSigma, meetsCased_cons hsign.1, hsign.2]
    rfl
  have hsigma : fits (lower ['%', 'Σ']) (lower ['A', 'Σ']) = false := by
    have hpattern : lower ['%', 'Σ'] = ['%', 'σ'] := congrArg (['%', ·]) hlone
    have htext : lower ['A', 'Σ'] = ['a', 'ς'] := congrArg (['a', ·]) hfinal
    rw [hpattern, htext]
    cbv
  refine ⟨⟨rfl, rfl, ?_⟩, rfl, rfl, ?_⟩
  · rw [eval_isLike rfl]
    exact congrArg Truth.ofBool hdotted
  · rw [eval_isLike rfl]
    exact congrArg Truth.ofBool hsigma

end Predicate

end RowPolicy
