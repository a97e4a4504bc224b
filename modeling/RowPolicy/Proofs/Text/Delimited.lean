import Mathlib.Data.List.DropRight
import Mathlib.Data.List.Forall2
import RowPolicy.Compilation
import RowPolicy.Proofs.Traversal

/-!
# What a delimited text lists

A text lists what is left of its pieces between the longest runs of separators: without the empty
pieces at its end, and each without the white space around it. A blank text lists nothing. This
fixes the elements, and they are what a membership operator makes of the text, though that is split
at every single separator.

The main statement is `Condition.normalized_text_iff_lists`.
-/
namespace RowPolicy

namespace Delimited

/-- Without separators. -/
def IsPlain (cs : List Char) : Prop := ∀ c ∈ cs, isSeparator c = false

/-- Some separators, and nothing else. -/
def IsRun (cs : List Char) : Prop := cs ≠ [] ∧ ∀ c ∈ cs, isSeparator c = true

instance (cs : List Char) : Decidable (IsPlain cs) :=
  List.decidableBAll (isSeparator · = false) cs

instance (cs : List Char) : Decidable (IsRun cs) :=
  have := List.decidableBAll (isSeparator · = true) cs
  inferInstanceAs (Decidable (_ ∧ _))

/-- A text and its pieces between runs of separators. No separator stands behind a run, which so is
as long as it can be. -/
inductive CutAtRuns : List Char → List (List Char) → Prop where
  | last {piece : List Char} (h : IsPlain piece) : CutAtRuns piece [piece]
  | cons {piece run rest : List Char} {pieces : List (List Char)} (hpiece : IsPlain piece)
      (hrun : IsRun run) (hmax : ∀ c ∈ rest.head?, isSeparator c = false)
      (hrest : CutAtRuns rest pieces) : CutAtRuns (piece ++ (run ++ rest)) (piece :: pieces)

/-- White space and nothing else. -/
def IsWhite (cs : List Char) : Prop := ∀ c ∈ cs, isBlank c = true

instance (cs : List Char) : Decidable (IsWhite cs) :=
  List.decidableBAll (isBlank · = true) cs

/-- Without white space at the ends. -/
def IsTrimmed (cs : List Char) : Prop :=
  (∀ c ∈ cs.head?, isBlank c = false) ∧ ∀ c ∈ cs.getLast?, isBlank c = false

instance (cs : List Char) : Decidable (IsTrimmed cs) :=
  have (o : Option Char) : Decidable (∀ c ∈ o, isBlank c = false) := Option.decidableForallMem o
  inferInstanceAs (Decidable (_ ∧ _))

/-- What is left of a piece without the white space around it. -/
structure IsCore (piece core : List Char) : Prop where
  padded : ∃ before after, piece = before ++ (core ++ after) ∧ IsWhite before ∧ IsWhite after
  trimmed : IsTrimmed core

/-- A text and its elements. -/
inductive Lists : List Char → List (List Char) → Prop where
  | blank {cs : List Char} (h : IsWhite cs) : Lists cs []
  | pieces {cs : List Char} {kept cores : List (List Char)} {n : Nat}
      (hsolid : ∃ c ∈ cs, isBlank c = false) (hcut : CutAtRuns cs (kept ++ List.replicate n []))
      (hlast : kept.getLast? ≠ some []) (hcores : List.Forall₂ IsCore kept cores) : Lists cs cores

variable {cs piece core run rest : List Char} {ps es : List (List Char)}

/-! ## Pieces between single separators -/

theorem pieces_plain_append (h : IsPlain piece) (cs : List Char) :
    pieces (piece ++ cs) = (piece ++ (pieces cs).1, (pieces cs).2) := by
  induction piece with
  | nil => rfl
  | cons c piece ih =>
    obtain ⟨hc, hpiece⟩ := List.forall_mem_cons.mp h
    rw [List.cons_append, pieces, ih hpiece]
    simp [hc]

theorem pieces_plain (h : IsPlain piece) : pieces piece = (piece, []) := by
  simpa [pieces] using pieces_plain_append h []

/-- A run leaves only empty pieces between its separators. -/
theorem pieces_run_append (h : IsRun run) (rest : List Char) :
    (pieces (run ++ rest)).1 = [] ∧
      (pieces (run ++ rest)).2.filter (!·.isEmpty) =
        ((pieces rest).1 :: (pieces rest).2).filter (!·.isEmpty) := by
  obtain ⟨hne, hrun⟩ := h
  induction run with
  | nil => exact absurd rfl hne
  | cons c run ih =>
    obtain ⟨hc, hrun⟩ := List.forall_mem_cons.mp hrun
    have hfirst : pieces (c :: (run ++ rest)) =
        ([], (pieces (run ++ rest)).1 :: (pieces (run ++ rest)).2) := by
      simp [pieces, hc]
    rw [List.cons_append, hfirst]
    refine ⟨rfl, ?_⟩
    by_cases hnil : run = []
    · rw [hnil, List.nil_append]
    · obtain ⟨hempty, hothers⟩ := ih hnil hrun
      rw [hempty, List.filter_cons_of_neg (by simp), hothers]

/-! ## Pieces between runs -/

/-- The first piece is the same, and so are the others but for empty ones. -/
theorem CutAtRuns.pieces_eq (h : CutAtRuns cs ps) :
    ∃ p qs, ps = p :: qs ∧ (pieces cs).1 = p ∧
      (pieces cs).2.filter (!·.isEmpty) = qs.filter (!·.isEmpty) := by
  induction h with
  | @last piece hpiece => exact ⟨piece, [], rfl, by simp [pieces_plain hpiece]⟩
  | @cons piece run rest pieces hpiece hrun hmax hrest ih =>
    obtain ⟨p, qs, rfl, hp, hqs⟩ := ih
    obtain ⟨hempty, hothers⟩ := pieces_run_append hrun rest
    rw [pieces_plain_append hpiece]
    refine ⟨piece, p :: qs, rfl, by rw [hempty, List.append_nil], ?_⟩
    rw [hothers, hp, List.filter_cons, List.filter_cons, hqs]

theorem CutAtRuns.of_eq_nil (h : CutAtRuns cs ps) (hcs : cs = []) : ps = [[]] := by
  cases h with
  | last => rw [hcs]
  | cons _ hrun =>
    simp only [List.append_eq_nil_iff] at hcs
    exact absurd hcs.2.1 hrun.1

/-- Only the first piece and the last one may be empty. -/
theorem CutAtRuns.filter_eq (h : CutAtRuns cs ps) :
    ps.tail.filter (!·.isEmpty) = ps.tail ∨ ps.tail.filter (!·.isEmpty) ++ [[]] = ps.tail := by
  induction h with
  | last => exact .inl rfl
  | @cons piece run rest pieces hpiece hrun hmax hrest ih =>
    obtain ⟨p, qs, rfl, hp, -⟩ := hrest.pieces_eq
    rw [List.tail_cons]
    cases rest with
    | nil =>
      rw [hrest.of_eq_nil rfl]
      exact .inr rfl
    | cons c rest =>
      -- Behind a run stands no separator, so that the piece there is not empty.
      have hne : p ≠ [] := by
        rw [← hp, Delimited.pieces]
        simp [hmax c rfl]
      simpa [List.filter_cons, hne] using ih

/-- Each text can be cut. -/
theorem exists_cutAtRuns (cs : List Char) : ∃ ps, CutAtRuns cs ps := by
  have hnil : IsPlain [] := by simp [IsPlain]
  induction cs with
  | nil => exact ⟨[[]], .last hnil⟩
  | cons c cs ih =>
    obtain ⟨ps, hcut⟩ := ih
    cases hc : isSeparator c with
    | false =>
      -- The character belongs to the first piece.
      have hplain {piece : List Char} (h : IsPlain piece) : IsPlain (c :: piece) :=
        List.forall_mem_cons.mpr ⟨hc, h⟩
      cases hcut with
      | last hpiece => exact ⟨_, .last (hplain hpiece)⟩
      | cons hpiece hrun hmax hrest => exact ⟨_, .cons (hplain hpiece) hrun hmax hrest⟩
    | true =>
      by_cases hmax : ∀ d ∈ cs.head?, isSeparator d = false
      · have hrun : IsRun [c] := ⟨by simp, by simpa using hc⟩
        exact ⟨_, .cons hnil hrun hmax hcut⟩
      -- The run goes on, and the first piece behind the character is empty.
      cases hcut with
      | last hpiece => exact absurd (fun d hd => hpiece d (List.mem_of_head? hd)) hmax
      | @cons piece run rest pieces hpiece hrun hmax' hrest =>
        cases piece with
        | nil =>
          have hlonger : IsRun (c :: run) := ⟨by simp, List.forall_mem_cons.mpr ⟨hc, hrun.2⟩⟩
          exact ⟨_, .cons hnil hlonger hmax' hrest⟩
        | cons d piece => exact absurd (by simpa using hpiece d List.mem_cons_self) hmax

theorem CutAtRuns.isPlain (h : CutAtRuns cs ps) : ∀ p ∈ ps, IsPlain p := by
  induction h with
  | last hpiece => simpa using hpiece
  | cons hpiece _ _ _ ih => exact List.forall_mem_cons.mpr ⟨hpiece, ih⟩

/-! ## The ends of a list -/

/-- What is dropped at the end is all that can be. -/
theorem rdropWhile_append {α : Type} {p : α → Bool} {xs ys : List α}
    (hys : ∀ y ∈ ys, p y = true) (hxs : ∀ x ∈ xs.getLast?, p x = false) :
    (xs ++ ys).rdropWhile p = xs := by
  induction ys using List.reverseRecOn with
  | nil =>
    rw [List.append_nil, List.rdropWhile_eq_self_iff]
    intro hne
    simpa using hxs _ (List.getLast?_eq_some_getLast hne)
  | append_singleton ys y ih =>
    rw [← List.append_assoc, List.rdropWhile_concat_pos _ _ _ (hys y (by simp))]
    exact ih fun y hy => hys y (by simp [hy])

theorem getLast?_rdropWhile {α : Type} {p : α → Bool} {xs : List α} :
    ∀ x ∈ (xs.rdropWhile p).getLast?, p x = false := by
  intro x hx
  have hne : xs.rdropWhile p ≠ [] := by
    intro h
    simp [h] at hx
  have hlast := List.rdropWhile_last_not p xs hne
  rw [List.getLast?_eq_some_getLast hne, Option.mem_some_iff] at hx
  simpa [hx] using hlast

theorem dropTrailingEmpty_eq (xs : List (List Char)) :
    dropTrailingEmpty xs = xs.rdropWhile List.isEmpty := rfl

theorem dropTrailingEmpty_append (hlast : ps.getLast? ≠ some []) (n : Nat) :
    dropTrailingEmpty (ps ++ List.replicate n []) = ps := by
  rw [dropTrailingEmpty_eq]
  refine rdropWhile_append (fun p hp => ?_) fun p hp => ?_
  · rw [List.eq_of_mem_replicate hp]
    rfl
  · rw [List.isEmpty_eq_false_iff]
    rintro rfl
    exact hlast hp

theorem exists_eq_dropTrailingEmpty (ps : List (List Char)) :
    ∃ n, ps = dropTrailingEmpty ps ++ List.replicate n [] ∧
      (dropTrailingEmpty ps).getLast? ≠ some [] := by
  have hempty : ∀ p ∈ ps.rtakeWhile List.isEmpty, p = [] := fun p hp =>
    List.isEmpty_iff.mp (List.mem_rtakeWhile_imp hp)
  refine ⟨(ps.rtakeWhile List.isEmpty).length, ?_, fun hlast => ?_⟩
  · rw [← List.eq_replicate_of_mem hempty, dropTrailingEmpty_eq,
      List.rdropWhile_append_rtakeWhile]
  · exact absurd (getLast?_rdropWhile _ hlast) (by decide)

/-- Empty pieces between others make no difference where only the last one may be empty. -/
theorem CutAtRuns.dropTrailingEmpty_eq (h : CutAtRuns cs ps) :
    dropTrailingEmpty ((pieces cs).1 :: (pieces cs).2.filter (!·.isEmpty)) =
      dropTrailingEmpty ps := by
  obtain ⟨p, qs, rfl, hp, hqs⟩ := h.pieces_eq
  rw [hp, hqs]
  rcases h.filter_eq with hsame | hlast
  · rw [List.tail_cons] at hsame
    rw [hsame]
  · rw [List.tail_cons] at hlast
    rw [← hlast, ← List.cons_append, Delimited.dropTrailingEmpty_eq,
      Delimited.dropTrailingEmpty_eq, List.rdropWhile_concat_pos _ _ _ (by rfl), hlast]

/-! ## White space -/

theorem trim_eq (cs : List Char) : trim cs = (cs.dropWhile isBlank).rdropWhile isBlank := rfl

theorem IsCore.trim_eq (h : IsCore piece core) : trim piece = core := by
  obtain ⟨⟨before, after, rfl, hbefore, hafter⟩, hhead, hlast⟩ := h
  rw [Delimited.trim_eq, List.dropWhile_append_of_pos hbefore]
  cases core with
  | nil =>
    rw [List.nil_append, List.dropWhile_eq_nil_iff.mpr hafter, List.rdropWhile_nil]
  | cons c core =>
    rw [List.cons_append, List.dropWhile_cons_of_neg (by simp [hhead c rfl]), ← List.cons_append]
    exact rdropWhile_append hafter hlast

theorem isCore_trim (piece : List Char) : IsCore piece (trim piece) := by
  obtain ⟨rest, hrest⟩ : ∃ rest, rest = piece.dropWhile isBlank := ⟨_, rfl⟩
  have hpadded : piece = piece.takeWhile isBlank ++ (trim piece ++ rest.rtakeWhile isBlank) := by
    rw [Delimited.trim_eq, ← hrest, List.rdropWhile_append_rtakeWhile, hrest,
      List.takeWhile_append_dropWhile]
  refine ⟨⟨_, _, hpadded, fun c hc => List.mem_takeWhile_imp hc, fun c hc =>
    List.mem_rtakeWhile_imp hc⟩, fun c hc => ?_, getLast?_rdropWhile⟩
  -- What the trimmed text begins with is what follows the white space in front.
  have hprefix : trim piece <+: rest := hrest ▸ List.rdropWhile_prefix isBlank _
  obtain ⟨after, hafter⟩ := hprefix
  have hhead : rest.head? = some c := by
    rw [← hafter, List.head?_append, Option.mem_def.mp hc, Option.some_or]
  have hnot := List.head?_dropWhile_not isBlank piece
  rw [← hrest, hhead] at hnot
  exact hnot

/-! ## Elements -/

theorem elements_eq (hsolid : ∃ c ∈ cs, isBlank c = false) (hcut : CutAtRuns cs ps) :
    elements cs = (dropTrailingEmpty ps).map trim := by
  have hall : cs.all isBlank = false := by simpa using hsolid
  rw [elements, hall, ← hcut.dropTrailingEmpty_eq]
  rfl

/-- The elements of a text are what it lists, and there is no other list. -/
theorem lists_iff : Lists cs es ↔ es = elements cs := by
  constructor
  · intro h
    cases h with
    | blank hblank => simp [elements, List.all_eq_true.mpr hblank]
    | pieces hsolid hcut hlast hcores =>
      rw [elements_eq hsolid hcut, dropTrailingEmpty_append hlast]
      have hmap : List.Forall₂ (· = ·) (List.map trim _) es :=
        List.forall₂_map_left_iff.mpr (hcores.imp fun _ _ hcore => hcore.trim_eq)
      rw [List.forall₂_eq_eq_eq] at hmap
      exact hmap.symm
  · rintro rfl
    by_cases hblank : IsWhite cs
    · have hnone : elements cs = [] := by simp [elements, List.all_eq_true.mpr hblank]
      exact hnone ▸ .blank hblank
    · have hsolid : ∃ c ∈ cs, isBlank c = false := by simpa [IsWhite] using hblank
      obtain ⟨ps, hcut⟩ := exists_cutAtRuns cs
      obtain ⟨n, hps, hlast⟩ := exists_eq_dropTrailingEmpty ps
      rw [elements_eq hsolid hcut]
      rw [hps] at hcut
      refine .pieces hsolid hcut hlast ?_
      rw [List.forall₂_map_right_iff, List.forall₂_same]
      exact fun p _ => isCore_trim p

/-- An element is a part of a piece. -/
theorem Lists.isPlain (h : Lists cs es) : ∀ e ∈ es, IsPlain e := by
  intro e he
  cases h with
  | blank => cases he
  | pieces hsolid hcut hlast hcores =>
    obtain ⟨p, hp, hcore⟩ := Traversal.exists_of_mem_forall₂ hcores.flip he
    obtain ⟨before, after, rfl, -⟩ := hcore.padded
    intro c hc
    exact hcut.isPlain _ (List.mem_append_left _ hp) c (by simp [hc])

theorem Lists.isTrimmed (h : Lists cs es) : ∀ e ∈ es, IsTrimmed e := by
  intro e he
  cases h with
  | blank => cases he
  | pieces hsolid hcut hlast hcores =>
    obtain ⟨p, -, hcore⟩ := Traversal.exists_of_mem_forall₂ hcores.flip he
    exact hcore.trimmed

end Delimited

namespace Condition

open Delimited

theorem normalized_text {op : Operator} (hop : op.isMembership = true) (s : String) :
    normalized op (.text s) =
      .list ((elements s.toList).map fun e => .text (String.ofList e)) := by
  simp [normalized, hop]

/-- A membership operator takes from a text just what the text lists. In no element there is a
separator, or white space at an end. -/
theorem normalized_text_iff_lists {op : Operator} (hop : op.isMembership = true) (s : String) :
    ∃ es, normalized op (.text s) = .list (es.map fun e => .text (String.ofList e)) ∧
      (∀ es', Lists s.toList es' ↔ es' = es) ∧ ∀ e ∈ es, IsPlain e ∧ IsTrimmed e := by
  have hlists : Lists s.toList (elements s.toList) := lists_iff.mpr rfl
  exact ⟨elements s.toList, normalized_text hop s, fun es' => lists_iff, fun e he =>
    ⟨hlists.isPlain e he, hlists.isTrimmed e he⟩⟩

/-- White space in front of the first separator and between two of them is an element, and what
stands behind the last run is none. -/
theorem normalized_text_iff_lists_blanks :
    normalized .notIn (.text " ;a, ,;") = .list [.text "", .text "a", .text ""] := by
  have hop : Operator.notIn.isMembership = true := rfl
  obtain ⟨es, hes, hlists, -⟩ := normalized_text_iff_lists hop " ;a, ,;"
  have hcut : CutAtRuns ([' '] ++ ([';'] ++ (['a'] ++ ([','] ++ ([' '] ++ ([',', ';'] ++ []))))))
      ([[' '], ['a'], [' ']] ++ List.replicate 1 []) :=
    .cons (by decide) (by decide) (by simp [isSeparator]) <|
      .cons (by decide) (by decide) (by simp [isSeparator]) <|
        .cons (by decide) (by decide) (by simp) <| .last (by decide)
  have hblank : IsCore [' '] [] := ⟨⟨[' '], [], rfl, by decide, by decide⟩, by decide⟩
  have hsolid : IsCore ['a'] ['a'] := ⟨⟨[], [], rfl, by decide, by decide⟩, by decide⟩
  have hcores : List.Forall₂ IsCore [[' '], ['a'], [' ']] [[], ['a'], []] :=
    .cons hblank (.cons hsolid (.cons hblank .nil))
  have hlist : Lists " ;a, ,;".toList [[], ['a'], []] :=
    .pieces ⟨'a', by decide, by decide⟩ hcut (by decide) hcores
  obtain rfl := (hlists _).mp hlist
  exact hes

end Condition

end RowPolicy
