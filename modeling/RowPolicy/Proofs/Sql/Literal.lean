import RowPolicy.Value.Literal
import RowPolicy.Proofs.Number.Digits

/-!
# Literals read back

How a literal of a query is read. A quoted text ends at the first quote that no other quote
follows, and two quotes stand for one. A list stands in parentheses, its items behind commas. What
is not quoted goes up to a blank, a comma or a parenthesis: a truth word or an integer.

The main statement is `literal?_literal`: in front of anything that may follow a literal, a value
of integers, truth words, texts and lists is read back from its literal, and nothing behind it is
taken. So no text breaks out of its quotes, and no two such values have one literal.
-/
namespace RowPolicy.Sql

/-! ## Reading -/

/-- The content of a quoted text behind its first quote, and what follows its last one. -/
def unquoted? : List Char → Option (List Char × List Char)
  | [] => none
  | '\'' :: '\'' :: cs => (unquoted? cs).map fun (s, rest) => ('\'' :: s, rest)
  | '\'' :: rest => some ([], rest)
  | c :: cs => (unquoted? cs).map fun (s, rest) => (c :: s, rest)

/-- A character that ends what is not quoted. -/
def isDelimiter (c : Char) : Bool :=
  c.isWhitespace || c == ',' || c == '(' || c == ')' || c == '\''

/-- The value of what is not quoted. -/
def bare? (cs : List Char) : Option Value :=
  if Numeral.isWord "true" cs then some (.bool true)
  else if Numeral.isWord "false" cs then some (.bool false)
  else (Numeral.int64? cs).map .int

mutual

/-- A literal at the front of a text, and what follows it. -/
def literal? : List Char → Option (Value × List Char)
  | '\'' :: cs => (unquoted? cs).map fun (s, rest) => (.text (String.ofList s), rest)
  | '(' :: ')' :: rest => some (.list [], rest)
  | '(' :: cs => (items? cs).map fun (vs, rest) => (.list vs, rest)
  | cs =>
    (bare? (cs.takeWhile (!isDelimiter ·))).map fun v => (v, cs.dropWhile (!isDelimiter ·))
termination_by cs => (cs.length, 0)

/-- Items up to the closing parenthesis, and what follows that. -/
def items? (cs : List Char) : Option (List Value × List Char) :=
  match literal? cs with
  | some (v, ')' :: rest) => some ([v], rest)
  | some (v, ',' :: rest) =>
    if rest.length < cs.length then
      (items? (rest.dropWhile Char.isWhitespace)).map fun (vs, rest) => (v :: vs, rest)
    else none
  | _ => none
termination_by (cs.length, 1)
decreasing_by
  · exact Prod.Lex.right _ (by decide)
  · have := (List.dropWhile_suffix (l := rest) Char.isWhitespace).length_le
    exact Prod.Lex.left _ _ (by omega)

end

/-! ## Texts -/

theorem length_of_unquoted?_eq_some {cs s rest : List Char} (h : unquoted? cs = some (s, rest)) :
    rest.length < cs.length := by
  fun_induction unquoted? cs generalizing s with
  | case1 => cases h
  | case2 cs ih | case4 c cs _ _ ih =>
    obtain ⟨⟨t, r⟩, hread, hfound⟩ := Option.map_eq_some_iff.mp h
    cases hfound
    have := ih hread
    simp only [List.length_cons]
    omega
  | case3 => cases h; simp

theorem unquoted?_quote {rest : List Char} (h : '\'' ∉ rest.head?) :
    unquoted? ('\'' :: rest) = some ([], rest) := by
  rw [unquoted?]
  rintro cs rfl
  exact h rfl

theorem unquoted?_cons {c : Char} (h : c ≠ '\'') (cs : List Char) :
    unquoted? (c :: cs) = (unquoted? cs).map fun (s, rest) => (c :: s, rest) := by
  rw [unquoted?]
  · exact fun _ hc _ => h hc
  · exact h

/-- A text reads back from between its quotes, whatever quotes it holds. -/
theorem unquoted?_quoted (s : List Char) {rest : List Char} (h : '\'' ∉ rest.head?) :
    unquoted? ((Value.quoted s).tail ++ rest) = some (s, rest) := by
  simp only [Value.quoted, List.cons_append, List.tail_cons, List.append_assoc, List.nil_append]
  induction s with
  | nil => exact unquoted?_quote h
  | cons c s ih =>
    by_cases hc : c = '\''
    · subst hc
      simp [unquoted?, ih]
    · simp [hc, unquoted?_cons hc, ih]

/-! ## What is not quoted -/

/-- What may follow a literal: nothing, a blank, a comma or a parenthesis that closes. -/
def Ends (rest : List Char) : Prop := ∀ c ∈ rest.head?, c = ' ' ∨ c = ',' ∨ c = ')'

theorem Ends.isDelimiter {rest : List Char} (h : Ends rest) :
    ∀ c ∈ rest.head?, (!isDelimiter c) = false := by
  intro c hc
  rcases h c hc with rfl | rfl | rfl <;> decide

theorem Ends.quote_notMem {rest : List Char} (h : Ends rest) : '\'' ∉ rest.head? := by
  intro hc
  rcases h _ hc with hc | hc | hc <;> cases hc

theorem literal?_bare {word rest : List Char} (hne : word ≠ [])
    (hword : ∀ c ∈ word, isDelimiter c = false) (h : Ends rest) :
    literal? (word ++ rest) = (bare? word).map fun v => (v, rest) := by
  obtain ⟨c, cs, rfl⟩ := List.exists_cons_of_ne_nil hne
  have hc : isDelimiter c = false := hword c (by simp)
  have hquote : c ≠ '\'' := by
    rintro rfl
    cases hc
  have hopen : c ≠ '(' := by
    rintro rfl
    cases hc
  have hrun : ∀ d ∈ c :: cs, (!isDelimiter d) = true := fun d hd => by simp [hword d hd]
  obtain ⟨htake, hdrop⟩ := span_append hrun h.isDelimiter
  rw [List.cons_append] at htake hdrop ⊢
  rw [literal?, htake, hdrop]
  · exact fun _ heq => hquote (List.head_eq_of_cons_eq heq)
  · exact fun _ heq => hopen (List.head_eq_of_cons_eq heq)
  · exact fun _ heq => hopen (List.head_eq_of_cons_eq heq)

/-! ## Integers -/

theorem bare?_decimal (n : Int64) : bare? (Numeral.decimal n.toInt).toList = some (.int n) := by
  have hint := Numeral.int64?_decimal n
  obtain ⟨c, cs, hcons, hc⟩ := Numeral.exists_cons_decimal n.toInt
  have hlower : c.toLower = c := by
    rcases hc with rfl | hdigit
    · rfl
    · exact Numeral.toLower_of_isDigit hdigit
  have hother {d : Char} (hminus : d ≠ '-') (hdigit : Numeral.isDigit d = false) : d ≠ c := by
    rintro rfl
    rcases hc with rfl | hc
    · exact hminus rfl
    · rw [hc] at hdigit
      cases hdigit
  have htrue : Numeral.isWord "true" (c :: cs) = false := by
    refine Numeral.isWord_cons_eq_false ?_
    rw [hlower]
    exact fun h => hother (d := 't') (by decide) rfl (Option.some.inj h)
  have hfalse : Numeral.isWord "false" (c :: cs) = false := by
    refine Numeral.isWord_cons_eq_false ?_
    rw [hlower]
    exact fun h => hother (d := 'f') (by decide) rfl (Option.some.inj h)
  rw [hcons] at hint ⊢
  simp [bare?, htrue, hfalse, hint]

theorem isDigit_eq_false_of_isDelimiter {c : Char} (h : isDelimiter c = true) :
    Numeral.isDigit c = false := by
  simp only [isDelimiter, Char.isWhitespace, Bool.or_eq_true, decide_eq_true_eq, beq_iff_eq] at h
  rcases h with (((((((rfl | rfl) | rfl) | rfl) | rfl) | rfl) | rfl) | rfl) <;> rfl

theorem isDelimiter_of_mem_decimal {n : Int} {c : Char} (h : c ∈ (Numeral.decimal n).toList) :
    isDelimiter c = false := by
  rw [Numeral.toList_decimal, List.mem_append] at h
  rcases h with hminus | hdigit
  · obtain ⟨-, rfl⟩ : n < 0 ∧ c = '-' := by simpa [Numeral.minusIf] using hminus
    rfl
  · have hdigit : Numeral.isDigit c = true := Numeral.isDigit_of_mem_toDigits hdigit
    refine Bool.eq_false_iff.mpr fun hdelimiter => ?_
    rw [isDigit_eq_false_of_isDelimiter hdelimiter] at hdigit
    cases hdigit

/-! ## Values -/

/-- Integers, truth words, texts and lists of them, nested to any depth. -/
inductive Readable : Value → Prop
  | int (n : Int64) : Readable (.int n)
  | bool (b : Bool) : Readable (.bool b)
  | text (s : String) : Readable (.text s)
  | list {vs : List Value} (h : ∀ v ∈ vs, Readable v) : Readable (.list vs)

/-- A literal starts neither with a blank nor with the parenthesis that closes a list. -/
theorem Readable.head {v : Value} (h : Readable v) :
    ∃ c cs, v.literalChars = c :: cs ∧ c.isWhitespace = false ∧ c ≠ ')' := by
  cases h with
  | int n =>
    obtain ⟨c, cs, hcons, -⟩ := Numeral.exists_cons_decimal n.toInt
    have hc : isDelimiter c = false := isDelimiter_of_mem_decimal (n := n.toInt) (by simp [hcons])
    simp only [isDelimiter, Bool.or_eq_false_iff, beq_eq_false_iff_ne] at hc
    exact ⟨c, cs, hcons, hc.1.1.1.1, hc.1.2⟩
  | bool b =>
    cases b with
    | true => exact ⟨'T', "RUE".toList, rfl, rfl, by decide⟩
    | false => exact ⟨'F', "ALSE".toList, rfl, rfl, by decide⟩
  | text s => exact ⟨'\'', _, rfl, rfl, by decide⟩
  | list h => exact ⟨'(', _, rfl, rfl, by decide⟩

theorem itemsChars_head {v : Value} (h : Readable v) (vs : List Value) :
    ∃ c cs, Value.itemsChars (v :: vs) = c :: cs ∧ c.isWhitespace = false ∧ c ≠ ')' := by
  obtain ⟨c, cs, hcons, hc⟩ := h.head
  cases vs with
  | nil => exact ⟨c, cs, by rw [Value.itemsChars, hcons], hc⟩
  | cons w vs => exact ⟨c, _, by rw [Value.itemsChars, hcons, List.cons_append], hc⟩

theorem literal?_list {cs : List Char} (h : ')' ∉ cs.head?) :
    literal? ('(' :: cs) = (items? cs).map fun (vs, rest) => (.list vs, rest) := by
  rw [literal?]
  rintro rest rfl
  exact h rfl

theorem items?_last {cs rest : List Char} {v : Value} (h : literal? cs = some (v, ')' :: rest)) :
    items? cs = some ([v], rest) := by
  rw [items?, h]
  rfl

theorem items?_comma {cs rest : List Char} {v : Value}
    (h : literal? cs = some (v, ',' :: ' ' :: rest)) (hlt : rest.length + 1 < cs.length)
    (hrest : ∀ c ∈ rest.head?, c.isWhitespace = false) :
    items? cs = (items? rest).map fun (vs, rest) => (v :: vs, rest) := by
  have hblank : ∀ c ∈ [' '], c.isWhitespace = true := by simp
  have hdrop : (' ' :: rest).dropWhile Char.isWhitespace = rest := (span_append hblank hrest).2
  rw [items?, h]
  simp [hlt, hdrop]

/-- Items that read back one by one read back up to the closing parenthesis. -/
theorem items?_itemsChars {v : Value} {vs : List Value} (hvs : ∀ w ∈ v :: vs, Readable w)
    (hread : ∀ w ∈ v :: vs, ∀ rest, Ends rest → literal? (w.literalChars ++ rest) = some (w, rest))
    (rest : List Char) :
    items? (Value.itemsChars (v :: vs) ++ ')' :: rest) = some (v :: vs, rest) := by
  induction vs generalizing v with
  | nil => exact items?_last (hread v (by simp) (')' :: rest) (by simp [Ends]))
  | cons w vs ih =>
    rw [List.forall_mem_cons] at hvs hread
    have hcomma := hread.1 (',' :: ' ' :: (Value.itemsChars (w :: vs) ++ ')' :: rest))
      (by simp [Ends])
    obtain ⟨c, cs, hcons, hc, -⟩ := itemsChars_head (hvs.2 w (by simp)) vs
    rw [Value.itemsChars, List.append_assoc, List.cons_append, List.cons_append,
      items?_comma hcomma (by simp; omega) (by simpa [hcons] using hc), ih hvs.2 hread.2]
    rfl

theorem literal?_literalChars {v : Value} (h : Readable v) :
    ∀ rest, Ends rest → literal? (v.literalChars ++ rest) = some (v, rest) := by
  induction h with
  | int n =>
    intro rest hrest
    obtain ⟨c, cs, hcons, -⟩ := Numeral.exists_cons_decimal n.toInt
    have hne : (Numeral.decimal n.toInt).toList ≠ [] := by simp [hcons]
    have hread := literal?_bare hne (fun c hc => isDelimiter_of_mem_decimal hc) hrest
    rwa [bare?_decimal] at hread
  | bool b =>
    intro rest hrest
    cases b with
    | true =>
      have hdelimiter : ∀ c ∈ "TRUE".toList, isDelimiter c = false := by simp [isDelimiter]
      exact literal?_bare (by decide) hdelimiter hrest
    | false =>
      have hdelimiter : ∀ c ∈ "FALSE".toList, isDelimiter c = false := by simp [isDelimiter]
      exact literal?_bare (by decide) hdelimiter hrest
  | text s =>
    intro rest hrest
    have hread := unquoted?_quoted s.toList hrest.quote_notMem
    rw [show (Value.text s).literalChars = '\'' :: (Value.quoted s.toList).tail from rfl,
      List.cons_append, literal?, hread]
    simp
  | @list vs hvs ih =>
    intro rest hrest
    cases vs with
    | nil => rw [show (Value.list []).literalChars ++ rest = '(' :: ')' :: rest from rfl, literal?]
    | cons v vs =>
      obtain ⟨c, cs, hcons, -, hc⟩ := itemsChars_head (hvs v (by simp)) vs
      have hitems := items?_itemsChars hvs ih rest
      rw [show (Value.list (v :: vs)).literalChars ++ rest =
          '(' :: (Value.itemsChars (v :: vs) ++ ')' :: rest) by simp [Value.literalChars],
        literal?_list (by simpa [hcons] using hc), hitems]
      rfl

/-- A value of integers, truth words, texts and lists reads back from its literal, and what
follows is left as it is. So no other such value has that literal. -/
theorem literal?_literal {v : Value} (h : Readable v) :
    (∀ rest, Ends rest → literal? (v.literal.toList ++ rest) = some (v, rest)) ∧
      ∀ w, Readable w → w.literal = v.literal → w = v := by
  have hread {w : Value} (hw : Readable w) (rest : List Char) (hrest : Ends rest) :
      literal? (w.literal.toList ++ rest) = some (w, rest) := by
    rw [Value.literal, String.toList_ofList]
    exact literal?_literalChars hw rest hrest
  refine ⟨hread h, fun w hw hsame => ?_⟩
  have hnil : Ends [] := by simp [Ends]
  have hboth := (hread hw [] hnil).symm.trans (hsame ▸ hread h [] hnil)
  exact congrArg Prod.fst (Option.some.inj hboth)

/-- Quotes at both ends of a text, an empty list and a list in a list, before what follows. -/
theorem literal?_literal_nested :
    literal? "('''; --''', -7, (), (TRUE, '')) AND".toList =
      some (.list [.text "'; --'", .int (-7), .list [], .list [.bool true, .text ""]],
        " AND".toList) := by
  have hread : Readable
      (.list [.text "'; --'", .int (-7), .list [], .list [.bool true, .text ""]]) := by
    refine .list fun v hv => ?_
    simp only [List.mem_cons, List.not_mem_nil, or_false] at hv
    obtain rfl | rfl | rfl | rfl := hv
    · exact .text _
    · exact .int _
    · exact .list fun v hv => absurd hv List.not_mem_nil
    · exact .list fun v hv => by
        obtain rfl | rfl : v = .bool true ∨ v = .text "" := by simpa using hv
        · exact .bool _
        · exact .text _
  exact (literal?_literal hread).1 " AND".toList (by simp [Ends])

end RowPolicy.Sql
