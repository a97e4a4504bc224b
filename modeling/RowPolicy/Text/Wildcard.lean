/-!
# Wildcard patterns

In a pattern `%` stands for any run of characters and `_` for one. `Wildcard.fits` decides with
one remembered `%`: what comes before the latest `%` has been placed as early as possible, and
only the part behind it is ever tried again, one character further on. A character of the pattern
is first taken as itself, so a `%` that meets a `%` in the text stands for that character.
-/
namespace RowPolicy.Wildcard

/-- Where a walk along pattern and text stops. -/
inductive Stop where
  /-- The text is over; the rest of the pattern is left. -/
  | textOver (pattern : List Char)
  /-- A `%` was met; what is behind it, and the text left. -/
  | star (pattern text : List Char)
  | mismatch
  deriving DecidableEq, Repr

/-- Walk along both as long as single characters agree. -/
def walk : List Char → List Char → Stop
  | pattern, [] => .textOver pattern
  | [], _ :: _ => .mismatch
  | p :: pattern, t :: text =>
    if p = '_' ∨ p = t then walk pattern text
    else if p = '%' then .star pattern (t :: text)
    else .mismatch

theorem length_of_walk_eq_star {pattern text p t : List Char}
    (h : walk pattern text = .star p t) : p.length < pattern.length := by
  fun_induction walk pattern text with
  | case1 => cases h
  | case2 => cases h
  | case3 q pattern c text same ih => exact Nat.lt_succ_of_lt (ih h)
  | case4 pattern c text => cases h; simp
  | case5 => cases h

/-- Place the pattern behind a `%` at the front of the text or anywhere later. -/
def search (pattern text : List Char) : Bool :=
  match _h : walk pattern text with
  | .textOver rest => rest.all (· == '%')
  | .star p t => search p t
  | .mismatch =>
    match text with
    | [] => false
    | _ :: later => search pattern later
termination_by (pattern.length, text.length)
decreasing_by
  · exact Prod.Lex.left _ _ (length_of_walk_eq_star _h)
  · exact Prod.Lex.right _ (by simp)

def fits (pattern text : List Char) : Bool :=
  match walk pattern text with
  | .textOver rest => rest.all (· == '%')
  | .star p t => search p t
  | .mismatch => false

end RowPolicy.Wildcard
