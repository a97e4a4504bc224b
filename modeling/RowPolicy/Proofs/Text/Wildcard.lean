import Mathlib.Data.List.Infix
import RowPolicy.Predicate.Evaluation

/-!
# Texts that fit a pattern

A text fits a pattern if it can be cut into pieces, one for each character of the pattern: `%`
stands for any piece, `_` for any one character and every other character for itself.

The search finds such a cut with one remembered `%`, since what stands behind a later `%` may as
well stand behind an earlier place of it. But it takes a `%` of the pattern for itself wherever it
meets a `%` of the text, and never takes that back. What it finds are therefore the settled cuts
(`Wildcard.fits_iff_settled`). A settled cut is a cut, and where only one of the text and the
pattern has a `%`, or neither, every cut is settled (`Wildcard.fits_iff_cut`), so `like` misses no
match there (`Value.compareBy_like_of_cut`).
-/
namespace RowPolicy

namespace Wildcard

/-! ## Cuts -/

/-- What a character of a pattern may stand for. -/
inductive Stands : Char → List Char → Prop where
  | run (piece : List Char) : Stands '%' piece
  | one (c : Char) : Stands '_' [c]
  | self (c : Char) : Stands c [c]

/-- The text is a row of pieces, one for each character of the pattern. -/
inductive Cut : List Char → List Char → Prop where
  | nil : Cut [] []
  | cons {c : Char} {piece pattern rest : List Char} (h : Stands c piece)
      (hrest : Cut pattern rest) : Cut (c :: pattern) (piece ++ rest)

/-- A cut in which a `%` of the pattern that meets a `%` of the text stands for just that. -/
inductive Settled : List Char → List Char → Prop where
  | nil : Settled [] []
  | single {p t : Char} {pattern text : List Char} (h : p = '_' ∨ p = t)
      (hrest : Settled pattern text) : Settled (p :: pattern) (t :: text)
  | run {pattern text rest : List Char} (hhead : text.head? ≠ some '%') (h : rest <:+ text)
      (hrest : Settled pattern rest) : Settled ('%' :: pattern) text

/-- The pattern is met at the front of the text or anywhere later. -/
def SettledLater (pattern text : List Char) : Prop :=
  ∃ rest, rest <:+ text ∧ Settled pattern rest

variable {pattern text : List Char} {p t : Char}

theorem Settled.later (h : Settled pattern text) : SettledLater pattern text :=
  ⟨text, List.suffix_rfl, h⟩

theorem SettledLater.mono {later : List Char} (h : SettledLater pattern later)
    (hlater : later <:+ text) : SettledLater pattern text := by
  obtain ⟨rest, hsuffix, hrest⟩ := h
  exact ⟨rest, hsuffix.trans hlater, hrest⟩

theorem settledLater_nil_iff : SettledLater pattern [] ↔ Settled pattern [] := by
  simp [SettledLater]

theorem settledLater_cons_iff :
    SettledLater pattern (t :: text) ↔ Settled pattern (t :: text) ∨ SettledLater pattern text := by
  simp [SettledLater, List.suffix_cons_iff, or_and_right, exists_or]

theorem settled_of_cut (h : Cut pattern text) (hplain : '%' ∉ text ∨ '%' ∉ pattern) :
    Settled pattern text := by
  induction h with
  | nil => exact .nil
  | @cons c piece pattern rest hstands _ ih =>
    have hrest : Settled pattern rest := ih (hplain.imp (by simp_all) (by simp_all))
    cases hstands with
    | run =>
      have htext : '%' ∉ piece ++ rest := hplain.resolve_right (by simp)
      exact .run (fun hhead => htext (List.mem_of_head? hhead)) (List.suffix_append _ _) hrest
    | one => exact .single (.inl rfl) hrest
    | self => exact .single (.inr rfl) hrest

theorem Settled.cut (h : Settled pattern text) : Cut pattern text := by
  induction h with
  | nil => exact .nil
  | @single p t pattern text hsame _ ih =>
    rcases hsame with rfl | rfl
    · exact .cons (.one t) ih
    · exact .cons (.self p) ih
  | @run pattern text rest _ hsuffix _ ih =>
    obtain ⟨piece, rfl⟩ := hsuffix
    exact .cons (.run piece) ih

/-! ## Settled cuts, character by character -/

/-- Without its first character a pattern is met further on. -/
theorem Settled.tail (h : Settled (p :: pattern) text) : SettledLater pattern text := by
  cases h with
  | single _ hrest => exact hrest.later.mono (List.suffix_cons _ _)
  | run _ hsuffix hrest => exact ⟨_, hsuffix, hrest⟩

theorem settled_nil_iff : Settled pattern [] ↔ ∀ c ∈ pattern, c = '%' := by
  induction pattern with
  | nil => exact ⟨by simp, fun _ => .nil⟩
  | cons p pattern ih =>
    rw [List.forall_mem_cons, ← ih]
    constructor
    · intro h
      cases h with
      | run _ hsuffix hrest => exact ⟨rfl, List.suffix_nil.mp hsuffix ▸ hrest⟩
    · rintro ⟨rfl, hrest⟩
      exact .run (by simp) List.suffix_rfl hrest

theorem settled_single_iff (h : p = '_' ∨ p = t) :
    Settled (p :: pattern) (t :: text) ↔ Settled pattern text := by
  constructor
  · intro hsettled
    cases hsettled with
    | single _ hrest => exact hrest
    | run hhead =>
      -- The character would be a `%` that meets a `%`.
      rcases h with h | rfl
      · cases h
      · exact absurd rfl hhead
  · exact .single h

theorem settled_run_iff (h : t ≠ '%') :
    Settled ('%' :: pattern) (t :: text) ↔ SettledLater pattern (t :: text) := by
  constructor
  · exact Settled.tail
  · rintro ⟨rest, hsuffix, hrest⟩
    exact .run (by simpa using h) hsuffix hrest

theorem not_settled_cons (hsingle : ¬(p = '_' ∨ p = t)) (hrun : p ≠ '%') :
    ¬Settled (p :: pattern) (t :: text) := by
  intro h
  cases h with
  | single hsame => exact hsingle hsame
  | run => exact hrun rfl

/-! ## The search -/

/-- What is left to decide where a walk stops. -/
def Stop.Leaves : Stop → Prop
  | .textOver pattern => ∀ c ∈ pattern, c = '%'
  | .star pattern text => SettledLater pattern text
  | .mismatch => False

/-- Up to its stop a walk has no choice. -/
theorem settled_iff_leaves (pattern text : List Char) :
    Settled pattern text ↔ (walk pattern text).Leaves := by
  fun_induction walk pattern text with
  | case1 pattern => exact settled_nil_iff
  | case2 t text => exact ⟨fun h => (by cases h), False.elim⟩
  | case3 p pattern t text hsingle ih => exact (settled_single_iff hsingle).trans ih
  | case4 pattern t text hsingle => exact settled_run_iff fun ht => hsingle (.inr ht.symm)
  | case5 p pattern t text hsingle hrun => exact ⟨not_settled_cons hsingle hrun, False.elim⟩

/-- The first place where a walk meets no mismatch decides: what is met from a later place on is
met from there on as well. -/
theorem settledLater_iff_leaves (hwalk : walk pattern text ≠ .mismatch) :
    SettledLater pattern text ↔ (walk pattern text).Leaves := by
  refine ⟨fun h => ?_, fun h => ((settled_iff_leaves pattern text).mpr h).later⟩
  fun_induction walk pattern text with
  | case1 pattern => exact settled_nil_iff.mp (settledLater_nil_iff.mp h)
  | case2 => exact absurd rfl hwalk
  | case3 p pattern t text hsingle ih =>
    refine ih hwalk ?_
    rcases settledLater_cons_iff.mp h with hfront | ⟨rest, hsuffix, hrest⟩
    · exact ((settled_single_iff hsingle).mp hfront).later
    · exact hrest.tail.mono hsuffix
  | case4 pattern t text =>
    obtain ⟨rest, hsuffix, hrest⟩ := h
    exact hrest.tail.mono hsuffix
  | case5 => exact absurd rfl hwalk

/-- One remembered `%` is enough. -/
theorem search_iff_settledLater (pattern text : List Char) :
    search pattern text = true ↔ SettledLater pattern text := by
  fun_induction search pattern text with
  | case1 pattern text left hwalk =>
    rw [settledLater_iff_leaves (by simp [hwalk]), hwalk]
    simp [Stop.Leaves]
  | case2 pattern text p t hwalk ih =>
    rw [settledLater_iff_leaves (by simp [hwalk]), hwalk]
    exact ih
  | case3 pattern hwalk =>
    rw [settledLater_nil_iff, settled_iff_leaves, hwalk]
    simp [Stop.Leaves]
  | case4 pattern t text hwalk ih =>
    rw [settledLater_cons_iff, settled_iff_leaves, hwalk]
    exact ih.trans (iff_of_eq (false_or _)).symm

theorem fits_iff_settled (pattern text : List Char) :
    fits pattern text = true ↔ Settled pattern text := by
  rw [settled_iff_leaves, fits]
  cases walk pattern text with
  | textOver left => simp [Stop.Leaves]
  | star p t => exact search_iff_settledLater p t
  | mismatch => simp [Stop.Leaves]

theorem fits_iff_cut_of_plain (hplain : '%' ∉ text ∨ '%' ∉ pattern) :
    fits pattern text = true ↔ Cut pattern text :=
  (fits_iff_settled pattern text).trans ⟨Settled.cut, fun h => settled_of_cut h hplain⟩

/-- Whatever fits can be cut. Unless both have a `%`, whatever can be cut fits, however many
wildcards there are. -/
theorem fits_iff_cut (pattern text : List Char) :
    (fits pattern text = true → Cut pattern text) ∧
      ('%' ∉ text ∨ '%' ∉ pattern → (fits pattern text = true ↔ Cut pattern text)) :=
  ⟨fun h => ((fits_iff_settled pattern text).mp h).cut, fits_iff_cut_of_plain⟩

/-- The search takes the first `ab` that it meets and never tries another, and finds a cut. -/
theorem fits_iff_cut_twice :
    '%' ∉ "abaabbb".toList ∧ fits "%ab%b_".toList "abaabbb".toList = true := by
  have hplain : '%' ∉ "abaabbb".toList := by decide
  have hcut : Cut "%ab%b_".toList "abaabbb".toList :=
    .cons (.run "aba".toList) <| .cons (.self 'a') <| .cons (.self 'b') <| .cons (.run []) <|
      .cons (.self 'b') <| .cons (.one 'b') .nil
  exact ⟨hplain, ((fits_iff_cut _ _).2 (.inl hplain)).mpr hcut⟩

end Wildcard

/-! ## Values -/

namespace Value

open Wildcard Casing

theorem compareBy_isLike (s p : String) :
    compareBy .isLike (text s) (text p) = .ofBool (fits (lower p.toList) (lower s.toList)) := rfl

theorem compareBy_notLike (s p : String) :
    compareBy .notLike (text s) (text p) = .ofBool !fits (lower p.toList) (lower s.toList) :=
  Truth.not_ofBool _

/-- A text that can be cut to fit a pattern is found to fit, unless both have a `%`. -/
theorem compareBy_like_of_cut {s p : String} (h : Cut (lower p.toList) (lower s.toList))
    (hplain : '%' ∉ lower s.toList ∨ '%' ∉ lower p.toList) :
    fits (lower p.toList) (lower s.toList) = true ∧
      compareBy .isLike (text s) (text p) = .yes ∧
      compareBy .notLike (text s) (text p) = .no := by
  have hfits := (fits_iff_settled _ _).mpr (settled_of_cut h hplain)
  rw [compareBy_isLike, compareBy_notLike, hfits]
  exact ⟨rfl, rfl, rfl⟩

/-- The cut has `iss` at its second place, and the search finds one with the first. -/
theorem compareBy_like_of_cut_second :
    Cut (lower "M%iss%IP_i".toList) (lower "Mississippi".toList) ∧
      '%' ∉ lower "Mississippi".toList ∧
      compareBy .isLike (text "Mississippi") (text "M%iss%IP_i") = .yes := by
  have hcut : Cut (lower "M%iss%IP_i".toList) (lower "Mississippi".toList) :=
    .cons (.self 'm') <| .cons (.run "iss".toList) <| .cons (.self 'i') <| .cons (.self 's') <|
      .cons (.self 's') <| .cons (.run []) <| .cons (.self 'i') <| .cons (.self 'p') <|
      .cons (.one 'p') <| .cons (.self 'i') .nil
  have hplain : '%' ∉ lower "Mississippi".toList := by decide
  exact ⟨hcut, hplain, (compareBy_like_of_cut hcut (.inl hplain)).2.1⟩

/-- A pattern that fits every text is not found to fit one that starts with `%`: it takes that
character for itself and has nothing left for the rest. -/
theorem not_fits_percent :
    Cut (lower "%".toList) (lower "%a".toList) ∧
      fits (lower "%".toList) (lower "%a".toList) = false ∧
      compareBy .isLike (text "%a") (text "%") = .no ∧
      compareBy .notLike (text "%a") (text "%") = .yes :=
  ⟨.cons (.run "%a".toList) .nil, by decide, by decide, by decide⟩

end Value

end RowPolicy
