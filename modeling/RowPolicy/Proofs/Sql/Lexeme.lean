import Mathlib.Data.List.Chain
import RowPolicy.Proofs.Sql.Literal

/-!
# The tokens of a condition

The text of a condition falls into words, quoted texts and single marks, with blanks between them.
A word is a run of letters, digits, underscores and points, as long as it goes, so a column behind
its table is one word. A quoted text is one token, whatever stands in it.

Tokens are kept with the blanks in front of them, so that no character of the text is lost. They
are found again in the text that they make up, provided that no two of them run into each other:
`lexemes?_flatMap`. `Lexes` says of a piece of a text which tokens it is made of, and how pieces
are put together.
-/
namespace RowPolicy.Sql

/-! ## Reading -/

/-- A character of a word. Whatever is not ASCII counts as a letter. -/
def isNameChar (c : Char) : Bool := c.isAlphanum || c == '_' || c == '.' || 0x80 ≤ c.toNat

inductive Token where
  | word (cs : List Char)
  | quoted (s : List Char)
  | mark (c : Char)
  deriving DecidableEq, Repr

namespace Token

def text : Token → List Char
  | word cs => cs
  | quoted s => Value.quoted s
  | mark c => [c]

def isMark : Token → Bool
  | mark _ => true
  | _ => false

end Token

/-- A token behind its blanks. -/
structure Lexeme where
  gap : List Char
  token : Token
  deriving DecidableEq, Repr

def Lexeme.text (l : Lexeme) : List Char := l.gap ++ l.token.text

/-- The token at the front of a text that starts with no blank. -/
def token? : List Char → Option (Token × List Char)
  | [] => none
  | '\'' :: cs => (unquoted? cs).map fun (s, rest) => (.quoted s, rest)
  | c :: cs =>
    if isNameChar c then some (.word (c :: cs.takeWhile isNameChar), cs.dropWhile isNameChar)
    else some (.mark c, cs)

theorem length_of_token?_eq_some {cs rest : List Char} {t : Token}
    (h : token? cs = some (t, rest)) : rest.length < cs.length := by
  fun_cases token? cs with
  | case1 => cases h
  | case2 cs =>
    obtain ⟨⟨s, rest'⟩, hread, hfound⟩ := Option.map_eq_some_iff.mp h
    cases hfound
    exact Nat.lt_succ_of_lt (length_of_unquoted?_eq_some hread)
  | case3 c cs hquote hname =>
    rw [token?, if_pos hname] at h
    · cases h
      exact Nat.lt_succ_of_le (List.dropWhile_suffix _).length_le
    · exact hquote
  | case4 c cs hquote hname =>
    rw [token?, if_neg hname] at h
    · cases h
      exact Nat.lt_succ_self _
    · exact hquote

/-- All tokens of a text. Blanks at its end belong to none. -/
def lexemes? (cs : List Char) : Option (List Lexeme) :=
  match _h : token? (cs.dropWhile Char.isWhitespace) with
  | some (t, rest) => (lexemes? rest).map (⟨cs.takeWhile Char.isWhitespace, t⟩ :: ·)
  | none => if cs.all Char.isWhitespace then some [] else none
termination_by cs.length
decreasing_by
  have hle := (List.dropWhile_suffix (l := cs) Char.isWhitespace).length_le
  exact Nat.lt_of_lt_of_le (length_of_token?_eq_some _h) hle

/-! ## One token -/

theorem not_isNameChar_of_isWhitespace {c : Char} (h : c.isWhitespace = true) :
    isNameChar c = false := by
  simp only [Char.isWhitespace, Bool.or_eq_true, decide_eq_true_eq] at h
  rcases h with ((rfl | rfl) | rfl) | rfl <;> rfl

namespace Token

/-- Tokens that reading can give. -/
inductive Valid : Token → Prop
  | word {cs : List Char} (hne : cs ≠ []) (h : cs.all isNameChar = true) : Valid (word cs)
  | quoted (s : List Char) : Valid (quoted s)
  | mark {c : Char} (hname : isNameChar c = false) (hblank : c.isWhitespace = false)
      (hquote : c ≠ '\'') : Valid (mark c)

/-- A token that is no mark ends where neither a word nor a quoted text runs on. -/
def Stops (t : Token) (rest : List Char) : Prop :=
  t.isMark = false → ∀ c ∈ rest.head?, isNameChar c = false ∧ c ≠ '\''

/-- A token starts with no blank. -/
theorem Valid.head {t : Token} (h : t.Valid) :
    ∃ c cs, t.text = c :: cs ∧ c.isWhitespace = false := by
  cases h with
  | @word cs hne h =>
    obtain ⟨c, cs, rfl⟩ := List.exists_cons_of_ne_nil hne
    have hname := List.all_eq_true.mp h c (by simp)
    refine ⟨c, cs, rfl, Bool.eq_false_iff.mpr fun hblank => ?_⟩
    rw [not_isNameChar_of_isWhitespace hblank] at hname
    cases hname
  | quoted s => exact ⟨'\'', _, rfl, rfl⟩
  | @mark c hname hblank hquote => exact ⟨c, [], rfl, hblank⟩

end Token

theorem token?_append {t : Token} (h : t.Valid) {rest : List Char} (stops : t.Stops rest) :
    token? (t.text ++ rest) = some (t, rest) := by
  cases h with
  | @word cs hne h =>
    obtain ⟨c, cs, rfl⟩ := List.exists_cons_of_ne_nil hne
    rw [List.all_eq_true, List.forall_mem_cons] at h
    obtain ⟨htake, hdrop⟩ := span_append h.2 fun d hd => (stops rfl d hd).1
    rw [Token.text, List.cons_append, token?, if_pos h.1, htake, hdrop]
    rintro rfl
    cases h.1
  | quoted s =>
    have hread := unquoted?_quoted s fun hquote => (stops rfl _ hquote).2 rfl
    rw [show (Token.quoted s).text = '\'' :: (Value.quoted s).tail from rfl, List.cons_append,
      token?, hread]
    rfl
  | @mark c hname hblank hquote =>
    rw [Token.text, List.singleton_append, token?, if_neg (by simp [hname])]
    exact hquote

/-! ## All tokens -/

/-- Blanks in front of a token. -/
def Blank (gap : List Char) : Prop := ∀ c ∈ gap, c.isWhitespace = true

theorem blank_nil : Blank [] := by simp [Blank]

theorem blank_space : Blank [' '] := by simp [Blank]

namespace Lexeme

structure Valid (l : Lexeme) : Prop where
  gap : Blank l.gap
  token : l.token.Valid

/-- Two tokens that do not run into each other: a blank stands between them, or one is a mark. -/
def Joint (l m : Lexeme) : Prop :=
  m.gap ≠ [] ∨ l.token.isMark = true ∨ m.token.isMark = true

theorem Joint.stops {l m : Lexeme} (h : l.Joint m) (hm : m.Valid) (rest : List Char) :
    l.token.Stops (m.text ++ rest) := by
  intro hl d hd
  rcases m with ⟨_ | ⟨c, gap⟩, t⟩
  · have hmark : t.isMark = true := by simpa [Joint, hl] using h
    cases hm.token with
    | word | quoted => cases hmark
    | @mark c hname hblank hquote =>
      obtain rfl : c = d := by simpa [text, Token.text] using hd
      exact ⟨hname, hquote⟩
  · have hblank : c.isWhitespace = true := hm.gap c (by simp)
    obtain rfl : c = d := by simpa [text] using hd
    refine ⟨not_isNameChar_of_isWhitespace hblank, ?_⟩
    rintro rfl
    cases hblank

end Lexeme

theorem lexemes?_cons {l : Lexeme} (h : l.Valid) {rest : List Char} (stops : l.token.Stops rest) :
    lexemes? (l.text ++ rest) = (lexemes? rest).map (l :: ·) := by
  obtain ⟨c, cs, hcons, hc⟩ := h.token.head
  have hsolid : ∀ d ∈ (l.token.text ++ rest).head?, d.isWhitespace = false := by
    simpa [hcons] using hc
  obtain ⟨htake, hdrop⟩ := span_append h.gap hsolid
  rw [Lexeme.text, List.append_assoc, lexemes?, hdrop, htake]
  split
  · next t rest' hread =>
    rw [token?_append h.token stops] at hread
    cases hread
    rfl
  · next hread =>
    rw [token?_append h.token stops] at hread
    cases hread

/-- The tokens of a text are found again in it. -/
theorem lexemes?_flatMap {ls : List Lexeme} (hvalid : ∀ l ∈ ls, l.Valid)
    (hjoint : ls.IsChain Lexeme.Joint) : lexemes? (ls.flatMap Lexeme.text) = some ls := by
  induction ls with
  | nil => rw [List.flatMap_nil, lexemes?]; rfl
  | cons l ls ih =>
    rw [List.forall_mem_cons] at hvalid
    rw [List.isChain_cons] at hjoint
    have stops : l.token.Stops (ls.flatMap Lexeme.text) := by
      cases ls with
      | nil => simp [Token.Stops]
      | cons m ls => exact (hjoint.1 m rfl).stops (hvalid.2 m (by simp)) _
    rw [List.flatMap_cons, lexemes?_cons hvalid.1 stops, ih hvalid.2 hjoint.2]
    rfl

/-! ## Pieces of a text -/

/-- The text behind the gap is made of the tokens. -/
structure Lexes (gap text : List Char) (ls : List Lexeme) : Prop where
  head : ∃ t tail, ls = ⟨gap, t⟩ :: tail
  flatMap_text : ls.flatMap Lexeme.text = gap ++ text
  valid : ∀ l ∈ ls, l.Valid
  joint : ls.IsChain Lexeme.Joint

namespace Lexes

variable {gap text text' : List Char} {ls ls' : List Lexeme}

theorem ne_nil (h : Lexes gap text ls) : ls ≠ [] := by
  obtain ⟨t, tail, rfl⟩ := h.head
  exact List.cons_ne_nil _ _

theorem token {t : Token} (hgap : Blank gap) (ht : t.Valid) : Lexes gap t.text [⟨gap, t⟩] where
  head := ⟨t, [], rfl⟩
  flatMap_text := by simp [Lexeme.text]
  valid := by simpa using ⟨hgap, ht⟩
  joint := List.isChain_singleton _

theorem append {gap' : List Char} (h : Lexes gap text ls) (h' : Lexes gap' text' ls')
    (hjoint : ∀ l ∈ ls.getLast?, ∀ m ∈ ls'.head?, l.Joint m) :
    Lexes gap (text ++ gap' ++ text') (ls ++ ls') where
  head := by
    obtain ⟨t, tail, rfl⟩ := h.head
    exact ⟨t, tail ++ ls', rfl⟩
  flatMap_text := by simp [h.flatMap_text, h'.flatMap_text]
  valid := by
    simp only [List.mem_append]
    rintro l (hl | hl)
    · exact h.valid l hl
    · exact h'.valid l hl
  joint := h.joint.append h'.joint hjoint

/-- A mark may stand in front of anything. -/
theorem cons_mark {c : Char} (hgap : Blank gap) (hc : (Token.mark c).Valid)
    (h : Lexes [] text ls) : Lexes gap (c :: text) (⟨gap, .mark c⟩ :: ls) := by
  have happend := (token hgap hc).append h fun l hl m _ => by
    obtain rfl : ⟨gap, .mark c⟩ = l := by simpa using hl
    exact .inr (.inl rfl)
  simpa [Token.text] using happend

/-- A mark may follow anything. -/
theorem append_mark {c : Char} (h : Lexes gap text ls) (hc : (Token.mark c).Valid) :
    Lexes gap (text ++ [c]) (ls ++ [⟨[], .mark c⟩]) := by
  have happend := h.append (token blank_nil hc) fun l _ m hm => by
    obtain rfl : ⟨[], .mark c⟩ = m := by simpa using hm
    exact .inr (.inr rfl)
  simpa [Token.text] using happend

theorem parens (hgap : Blank gap) (h : Lexes [] text ls) :
    Lexes gap ('(' :: text ++ [')']) (⟨gap, .mark '('⟩ :: ls ++ [⟨[], .mark ')'⟩]) :=
  (h.cons_mark hgap (.mark rfl rfl (by decide))).append_mark (.mark rfl rfl (by decide))

/-- What stands behind a blank may follow anything. -/
theorem append_blank (h : Lexes gap text ls) (h' : Lexes [' '] text' ls') :
    Lexes gap (text ++ ' ' :: text') (ls ++ ls') := by
  obtain ⟨t, tail, rfl⟩ := h'.head
  have happend := h.append h' fun l _ m hm => by
    obtain rfl : ⟨[' '], t⟩ = m := by simpa using hm
    exact .inl (by simp)
  simpa using happend

/-- A word between two pieces. -/
theorem append_word {word : List Char} (h : Lexes gap text ls) (hword : (Token.word word).Valid)
    (h' : Lexes [' '] text' ls') :
    Lexes gap (text ++ ' ' :: (word ++ ' ' :: text')) (ls ++ ⟨[' '], .word word⟩ :: ls') :=
  h.append_blank ((token blank_space hword).append_blank h')

end Lexes

end RowPolicy.Sql
