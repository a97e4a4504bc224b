import Mathlib.Data.Prod.Lex
import Mathlib.Logic.Relation
import RowPolicy.Text.Wildcard

/-!
# Fitting a pattern with places

The search for a fit as a loop over places. A cursor holds a place in the text, a place in the
pattern and the `%` that was met last, with the place in the text at which the part of the pattern
behind it was last tried. Where single characters differ the loop goes back to that `%` and tries
one character further on, so both places may move backwards.

Still every turn comes nearer to the end: what is left of the text behind the last trial gets less,
or it stays and a later `%` is remembered, or both stay and the place in the pattern goes on. And no
turn leaves the pattern. The main statement is `turns_lead_to_fits`: the loop ends, within bounds,
with the answer of `Wildcard.fits`.
-/
namespace RowPolicy.Wildcard

/-! ## The loop -/

/-- A `%` that was met, and where the part of the pattern behind it was last tried. -/
structure Trial where
  star : Nat
  start : Nat
  deriving DecidableEq, Repr

structure Cursor where
  inText : Nat
  inPattern : Nat
  last : Option Trial
  deriving DecidableEq, Repr

inductive Turn where
  | onward (c : Cursor)
  | ended (fits : Bool)
  /-- The rest of the pattern was asked for at a place behind its end. -/
  | outOfBounds
  deriving DecidableEq, Repr

/-- One turn of the loop. It is the last one where the text is over, or where characters differ and
no `%` was met. -/
def turn (pattern text : List Char) (c : Cursor) : Turn :=
  match text[c.inText]? with
  | none =>
    if c.inPattern ≤ pattern.length then .ended ((pattern.drop c.inPattern).all (· == '%'))
    else .outOfBounds
  | some t =>
    if pattern[c.inPattern]? = some '_' ∨ pattern[c.inPattern]? = some t then
      .onward ⟨c.inText + 1, c.inPattern + 1, c.last⟩
    else if pattern[c.inPattern]? = some '%' then
      .onward ⟨c.inText, c.inPattern + 1, some ⟨c.inPattern, c.inText⟩⟩
    else
      match c.last with
      | some l => .onward ⟨l.start + 1, l.star + 1, some ⟨l.star, l.start + 1⟩⟩
      | none => .ended false

/-- The place in the text may move backwards. -/
example : turn "%ab".toList "aab".toList ⟨1, 2, some ⟨0, 0⟩⟩ = .onward ⟨1, 1, some ⟨0, 1⟩⟩ := by
  decide

def start : Cursor := ⟨0, 0, none⟩

/-- The loop comes to this cursor. -/
def Reaches (pattern text : List Char) : Cursor → Prop :=
  Relation.ReflTransGen (fun c d => turn pattern text c = .onward d) start

variable {pattern text : List Char} {c d : Cursor}

/-- The three ways to go on. -/
inductive Onward (pattern text : List Char) : Cursor → Cursor → Prop where
  | single {c : Cursor} {p t : Char} (ht : text[c.inText]? = some t)
    (hp : pattern[c.inPattern]? = some p) (h : p = '_' ∨ p = t) :
    Onward pattern text c ⟨c.inText + 1, c.inPattern + 1, c.last⟩
  | star {c : Cursor} {t : Char} (ht : text[c.inText]? = some t)
    (hp : pattern[c.inPattern]? = some '%') (h : '%' ≠ t) :
    Onward pattern text c ⟨c.inText, c.inPattern + 1, some ⟨c.inPattern, c.inText⟩⟩
  | again {c : Cursor} {t : Char} {l : Trial} (ht : text[c.inText]? = some t)
    (hp : ∀ p ∈ pattern[c.inPattern]?, ¬(p = '_' ∨ p = t) ∧ p ≠ '%') (hl : c.last = some l) :
    Onward pattern text c ⟨l.start + 1, l.star + 1, some ⟨l.star, l.start + 1⟩⟩

theorem onward_of_turn (h : turn pattern text c = .onward d) : Onward pattern text c d := by
  unfold turn at h
  split at h
  · split at h <;> cases h
  · next t ht =>
    split at h
    · next hsingle =>
      cases h
      rcases hsingle with hp | hp
      · exact .single ht hp (.inl rfl)
      · exact .single ht hp (.inr rfl)
    · next hsingle =>
      split at h
      · next hp =>
        cases h
        exact .star ht hp (by grind)
      · next hstar =>
        split at h
        · next l hl =>
          cases h
          exact .again ht (by grind) hl
        · cases h

/-! ## Bounds -/

/-- The remembered `%` lies before the place in the pattern and was tried no later in the text. -/
structure Cursor.InBounds (pattern text : List Char) (c : Cursor) : Prop where
  inText_le : c.inText ≤ text.length
  inPattern_le : c.inPattern ≤ pattern.length
  star_lt : ∀ l ∈ c.last, l.star < c.inPattern
  start_le : ∀ l ∈ c.last, l.start ≤ c.inText

theorem inBounds_start (pattern text : List Char) : start.InBounds pattern text :=
  ⟨Nat.zero_le _, Nat.zero_le _, by simp [start], by simp [start]⟩

theorem lt_length_of_getElem? {l : List Char} {i : Nat} {a : Char} (h : l[i]? = some a) :
    i < l.length :=
  (List.getElem?_eq_some_iff.mp h).1

theorem Onward.inBounds (h : Onward pattern text c d) (hc : c.InBounds pattern text) :
    d.InBounds pattern text := by
  obtain ⟨htext, hpattern, hstar, hstart⟩ := hc
  cases h with
  | single ht hp =>
    refine ⟨lt_length_of_getElem? ht, lt_length_of_getElem? hp, ?_, ?_⟩
    · intro l hl
      exact Nat.lt_succ_of_lt (hstar l hl)
    · intro l hl
      exact Nat.le_succ_of_le (hstart l hl)
  | star ht hp =>
    refine ⟨htext, lt_length_of_getElem? hp, ?_, ?_⟩
    · rintro _ ⟨⟩
      exact Nat.lt_succ_self _
    · rintro _ ⟨⟩
      exact Nat.le_refl _
  | again ht hp hl =>
    have htlt := lt_length_of_getElem? ht
    refine ⟨?_, ?_, ?_, ?_⟩
    · exact Nat.succ_le_of_lt ((hstart _ hl).trans_lt htlt)
    · exact (Nat.succ_le_of_lt (hstar _ hl)).trans hpattern
    · rintro _ ⟨⟩
      exact Nat.lt_succ_self _
    · rintro _ ⟨⟩
      exact Nat.le_refl _

theorem Reaches.inBounds (h : Reaches pattern text c) : c.InBounds pattern text := by
  induction h with
  | refl => exact inBounds_start pattern text
  | tail _ hturn ih => exact (onward_of_turn hturn).inBounds ih

theorem turn_ne_outOfBounds (hc : c.InBounds pattern text) :
    turn pattern text c ≠ .outOfBounds := by
  have hpattern := hc.inPattern_le
  unfold turn
  grind

/-! ## What is left to do -/

namespace Cursor

/-- The text behind the last trial; more than any if there was none. -/
def untried (text : List Char) (c : Cursor) : Nat :=
  match c.last with
  | some l => text.length - l.start
  | none => text.length + 1

/-- The pattern from the remembered `%` on. -/
def fromStar (pattern : List Char) (c : Cursor) : Nat :=
  match c.last with
  | some l => pattern.length - l.star
  | none => pattern.length

/-- The three rests, of which the first one counts most. -/
def rank (pattern text : List Char) (c : Cursor) : ℕ ×ₗ ℕ ×ₗ ℕ :=
  toLex (c.untried text, toLex (c.fromStar pattern, pattern.length - c.inPattern))

theorem rank_lt_iff :
    d.rank pattern text < c.rank pattern text ↔
      d.untried text < c.untried text ∨ d.untried text = c.untried text ∧
        (d.fromStar pattern < c.fromStar pattern ∨ d.fromStar pattern = c.fromStar pattern ∧
          pattern.length - d.inPattern < pattern.length - c.inPattern) := by
  simp [rank, Prod.Lex.toLex_lt_toLex]

end Cursor

open Cursor in
/-- Every way to go on lowers the rank: a single character only moves the place in the pattern, a new
`%` stands behind the old one and is first tried no earlier, and a further trial starts later. -/
theorem Onward.rank_lt (h : Onward pattern text c d) (hc : c.InBounds pattern text) :
    d.rank pattern text < c.rank pattern text := by
  obtain ⟨htext, hpattern, hstar, hstart⟩ := hc
  rw [rank_lt_iff]
  cases h with
  | single ht hp =>
    have hlt := lt_length_of_getElem? hp
    exact .inr ⟨rfl, .inr ⟨rfl, by dsimp only; omega⟩⟩
  | star ht hp =>
    have hlt := lt_length_of_getElem? hp
    cases hl : c.last with
    | none =>
      left
      simp only [untried, hl]
      omega
    | some l =>
      have hstar := hstar l hl
      have hstart := hstart l hl
      simp only [untried, fromStar, hl]
      omega
  | again ht hp hl =>
    have hlt := lt_length_of_getElem? ht
    have hstart := hstart _ hl
    left
    simp only [untried, hl]
    omega

/-! ## The answer -/

/-- What a walk comes to, given what is said of a mismatch. -/
def Stop.answer (otherwise : Bool) : Stop → Bool
  | .textOver pattern => pattern.all (· == '%')
  | .star pattern text => search pattern text
  | .mismatch => otherwise

theorem search_eq_answer (pattern text : List Char) :
    search pattern text = (walk pattern text).answer (search pattern text.tail) := by
  rw [search]
  split
  · next rest h => simp [h, Stop.answer]
  · next p t h => simp [h, Stop.answer]
  · next h =>
    cases text with
    | nil => simp [walk] at h
    | cons t text => simp [h, Stop.answer]

/-- What is left to decide at a cursor: a walk from both places, and if that meets a mismatch a
later trial behind the remembered `%`. -/
def Cursor.answer (pattern text : List Char) (c : Cursor) : Bool :=
  (walk (pattern.drop c.inPattern) (text.drop c.inText)).answer <|
    match c.last with
    | some l => search (pattern.drop (l.star + 1)) (text.drop (l.start + 1))
    | none => false

theorem answer_start (pattern text : List Char) : start.answer pattern text = fits pattern text :=
  rfl

theorem drop_of_getElem? {l : List Char} {i : Nat} {a : Char} (h : l[i]? = some a) :
    l.drop i = a :: l.drop (i + 1) := by
  obtain ⟨hlt, rfl⟩ := List.getElem?_eq_some_iff.mp h
  exact List.drop_eq_getElem_cons hlt

/-- Right behind the remembered `%` all is left to a search. -/
theorem answer_trial (pattern text : List Char) (star start : Nat) :
    Cursor.answer pattern text ⟨start, star + 1, some ⟨star, start⟩⟩ =
      search (pattern.drop (star + 1)) (text.drop start) := by
  rw [search_eq_answer, List.tail_drop]
  rfl

theorem walk_eq_mismatch {t : Char} (ht : text[c.inText]? = some t)
    (hp : ∀ p ∈ pattern[c.inPattern]?, ¬(p = '_' ∨ p = t) ∧ p ≠ '%') :
    walk (pattern.drop c.inPattern) (text.drop c.inText) = .mismatch := by
  rw [drop_of_getElem? ht]
  cases hdrop : pattern.drop c.inPattern with
  | nil => rfl
  | cons p rest =>
    obtain ⟨hsingle, hstar⟩ := hp p (by rw [← List.head?_drop, hdrop]; rfl)
    rw [walk, if_neg hsingle, if_neg hstar]

theorem Onward.answer_eq (h : Onward pattern text c d) :
    d.answer pattern text = c.answer pattern text := by
  cases h with
  | single ht hp hsingle =>
    simp [Cursor.answer, drop_of_getElem? ht, drop_of_getElem? hp, walk, hsingle]
  | star ht hp hne =>
    rw [answer_trial]
    simp [Cursor.answer, drop_of_getElem? ht, drop_of_getElem? hp, walk, hne, Stop.answer]
  | again ht hp hl =>
    rw [answer_trial]
    simp [Cursor.answer, walk_eq_mismatch ht hp, hl, Stop.answer]

/-- The last turn answers what is left to decide. -/
theorem answer_of_turn {b : Bool} (h : turn pattern text c = .ended b) :
    c.answer pattern text = b := by
  unfold turn at h
  split at h
  · next hended =>
    split at h
    · cases h
      have hdrop : text.drop c.inText = [] := by
        rw [← List.head?_eq_none_iff, List.head?_drop, hended]
      rw [Cursor.answer, hdrop, walk]
      rfl
    · cases h
  · next t ht =>
    split at h
    · cases h
    · next hsingle =>
      split at h
      · cases h
      · next hstar =>
        split at h
        · cases h
        · next hl =>
          cases h
          have hwalk : walk (pattern.drop c.inPattern) (text.drop c.inText) = .mismatch :=
            walk_eq_mismatch ht (by grind)
          simp [Cursor.answer, hwalk, hl, Stop.answer]

/-! ## The end -/

/-- From within bounds the loop ends, since each turn lowers the rank and keeps both the bounds and
what is left to decide. -/
theorem exists_ended (hc : c.InBounds pattern text) :
    ∃ d, Relation.ReflTransGen (fun c d => turn pattern text c = .onward d) c d ∧
      turn pattern text d = .ended (c.answer pattern text) := by
  induction hr : c.rank pattern text using WellFoundedLT.induction generalizing c with
  | ind r ih =>
  subst hr
  cases hturn : turn pattern text c with
  | onward d =>
    have honward := onward_of_turn hturn
    obtain ⟨e, hreach, hended⟩ := ih _ (honward.rank_lt hc) (honward.inBounds hc) rfl
    rw [honward.answer_eq] at hended
    exact ⟨e, .head hturn hreach, hended⟩
  | ended b =>
    rw [answer_of_turn hturn]
    exact ⟨c, .refl, hturn⟩
  | outOfBounds => exact absurd hturn (turn_ne_outOfBounds hc)

/-- The place in the pattern never passes its end, each turn that goes on lowers the rank, and so the
loop comes to its last turn, which answers whether the text fits. -/
theorem turns_lead_to_fits (pattern text : List Char) :
    (∀ c, Reaches pattern text c →
      c.inPattern ≤ pattern.length ∧ turn pattern text c ≠ .outOfBounds) ∧
    (∀ c d, Reaches pattern text c → turn pattern text c = .onward d →
      d.rank pattern text < c.rank pattern text) ∧
    ∃ c, Reaches pattern text c ∧ turn pattern text c = .ended (fits pattern text) := by
  refine ⟨?_, ?_, ?_⟩
  · intro c hreach
    exact ⟨hreach.inBounds.inPattern_le, turn_ne_outOfBounds hreach.inBounds⟩
  · intro c d hreach hturn
    exact (onward_of_turn hturn).rank_lt hreach.inBounds
  · have hended := exists_ended (inBounds_start pattern text)
    rwa [answer_start] at hended

end RowPolicy.Wildcard
