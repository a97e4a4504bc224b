import RowPolicy.PolicyFile
import RowPolicy.Proofs.Collection
import RowPolicy.Proofs.PolicyText.Progress

/-!
# Policy texts one behind the other

A reader looks at the text behind what it finds only to see where a name or a number ends, and a
line feed ends either. So where a text is read to its end, a line feed and another text behind it
leave all that it holds as it was, and the other text is read as if it stood alone.

The main statement is `parse_append_line`: rules join, and a fault of the second text is found at
its place there.
-/
namespace RowPolicy

namespace PolicyText

variable {α : Type} {cs rest : List Char}

/-- What was found, with another line behind the text. -/
def withLine (q : List Char) (found : α × List Char) : α × List Char :=
  (found.1, found.2 ++ '\n' :: q)

@[simp] theorem withLine_mk (q : List Char) (a : α) (rest : List Char) :
    withLine q (a, rest) = (a, rest ++ '\n' :: q) := rfl

/-! ## White space and comments -/

theorem lineEnd?_append_of_ne_nil {line : List Char} (h : lineEnd? cs = some line)
    (hne : line ≠ []) (more : List Char) : lineEnd? (cs ++ more) = some (line ++ more) := by
  fun_induction lineEnd? cs with
  | case1 => cases h; contradiction
  | case2 | case3 => cases h; rfl
  | case4 => cases h
  | case5 c cs hfeed hcrlf hcr ih =>
    rw [List.cons_append, lineEnd?, ih h]
    · exact hfeed
    · intro ds hc hds
      exact hcr hc
    · exact hcr

/-- Only the end of the text ends a comment that has no line end. -/
theorem notMem_of_lineEnd?_eq_nil (h : lineEnd? cs = some []) : ∀ c ∈ cs, c ≠ '\r' ∧ c ≠ '\n' := by
  fun_induction lineEnd? cs with
  | case1 => simp
  | case2 | case3 | case4 => cases h
  | case5 c cs hfeed hcrlf hcr ih =>
    rw [List.forall_mem_cons]
    exact ⟨⟨hcr, hfeed⟩, ih h⟩

theorem skip_hash {line : List Char} (h : lineEnd? cs = some line) :
    skip ('#' :: cs) = skip line := by
  rw [skip, if_neg (by decide), if_pos rfl]
  split
  · next line' h' =>
    rw [h] at h'
    cases h'
    rfl
  · next h' =>
    rw [h] at h'
    cases h'

/-- Text behind a character that no comment starts with is not looked at. -/
theorem skip_append {c : Char} (h : skip cs = c :: rest) (hc : c ≠ '#') (more : List Char) :
    skip (cs ++ more) = c :: (rest ++ more) := by
  fun_induction skip cs with
  | case1 => cases h
  | case2 d ds hspace ih => rw [List.cons_append, skip_space hspace, ih h]
  | case3 ds line hline _ ih =>
    have hne : line ≠ [] := by
      rintro rfl
      rw [skip] at h
      cases h
    rw [List.cons_append, skip_hash (lineEnd?_append_of_ne_nil hline hne more), ih h]
  | case4 =>
    cases h
    contradiction
  | case5 d ds hspace hhash =>
    cases h
    rw [List.cons_append, skip, if_neg hspace, if_neg hhash]

/-- A comment at the end of a text ends at the line feed behind it. -/
theorem skip_append_line (h : skip cs = []) (q : List Char) : skip (cs ++ '\n' :: q) = skip q := by
  fun_induction skip cs with
  | case1 => exact skip_space rfl q
  | case2 d ds hspace ih => rw [List.cons_append, skip_space hspace, ih h]
  | case3 ds line hline _ ih =>
    by_cases hne : line = []
    · subst hne
      exact skip_comment (notMem_of_lineEnd?_eq_nil hline) q
    · rw [List.cons_append, skip_hash (lineEnd?_append_of_ne_nil hline hne _), ih h]
  | case4 => cases h
  | case5 => cases h

/-! ## Tokens -/

theorem takeWhile_line {kind : Char → Bool} (hkind : kind '\n' = false) (cs q : List Char) :
    (cs ++ '\n' :: q).takeWhile kind = cs.takeWhile kind ∧
      (cs ++ '\n' :: q).dropWhile kind = cs.dropWhile kind ++ '\n' :: q := by
  induction cs with
  | nil => simp [hkind]
  | cons c cs ih =>
    cases hc : kind c with
    | true => simp [hc, ih.1, ih.2]
    | false => simp [hc]

theorem run?_line {kind : Char → Bool} (hkind : kind '\n' = false) (cs q : List Char) :
    run? kind (cs ++ '\n' :: q) = (run? kind cs).map (withLine q) := by
  obtain ⟨htake, hdrop⟩ := takeWhile_line hkind cs q
  unfold run?
  rw [htake, hdrop]
  dsimp only
  split <;> rfl

theorem name?_line {name : List Char} (h : name? cs = some (name, rest)) (q : List Char) :
    name? (cs ++ '\n' :: q) = some (name, rest ++ '\n' :: q) := by
  cases cs with
  | nil => cases h
  | cons c cs =>
    obtain ⟨hc, hfound⟩ := Option.ite_none_right_eq_some.mp h
    cases hfound
    have hkind : isNameChar '\n' = false := by decide
    obtain ⟨htake, hdrop⟩ := takeWhile_line hkind cs q
    rw [List.cons_append, name?, if_pos hc, htake, hdrop]

theorem literally?_line {token : List Char} (htoken : ∀ c ∈ token, c ≠ '\n') (cs q : List Char) :
    literally? token (cs ++ '\n' :: q) = (literally? token cs).map (· ++ '\n' :: q) := by
  induction token generalizing cs with
  | nil => rfl
  | cons w ws ih =>
    obtain ⟨hw, hws⟩ := List.forall_mem_cons.mp htoken
    cases cs with
    | nil => exact literally?_of_ne hw ws q
    | cons c cs =>
      simp only [List.cons_append, literally?]
      split
      · exact ih hws cs
      · rfl

theorem operator?_line {token : List Char} (h : operator? cs = some (token, rest))
    (q : List Char) : operator? (cs ++ '\n' :: q) = some (token, rest ++ '\n' :: q) := by
  unfold operator? at h
  split at h
  case h_1 | h_3 | h_5 | h_6 => cases h; rfl
  case h_2 cs hne | h_4 cs hne =>
    cases h
    cases rest with
    | nil => rfl
    | cons c cs =>
      have hc : c ≠ '=' := fun hc => hne cs (by rw [hc])
      simp [operator?, hc]
  case h_7 =>
    have hline := run?_line (show isWordChar '\n' = false from rfl) cs q
    rw [h] at hline
    cases cs with
    | nil => cases h
    | cons c cs =>
      have hc : isWordChar c = true := by
        by_contra hc
        simp [run?, hc] at h
      rw [List.cons_append] at hline ⊢
      rw [operator?_of_isWordChar hc, hline]
      rfl

theorem quoted?_more {s : List Char} (h : quoted? cs = some (s, rest)) (more : List Char) :
    quoted? (cs ++ more) = some (s, rest ++ more) := by
  fun_induction quoted? cs generalizing s with
  | case1 => cases h
  | case2 => cases h; rfl
  | case3 => cases h
  | case4 c cs ih =>
    obtain ⟨⟨t, r⟩, hread, hfound⟩ := Option.map_eq_some_iff.mp h
    cases hfound
    simp [quoted?, ih hread]
  | case5 c cs hquote hend hslash ih =>
    obtain ⟨⟨t, r⟩, hread, hfound⟩ := Option.map_eq_some_iff.mp h
    cases hfound
    have hc : c ≠ '\\' := by
      rintro rfl
      cases cs with
      | nil => exact hend rfl rfl
      | cons d ds => exact hslash d ds rfl rfl
    rw [List.cons_append, quoted?, ih hread]
    · rfl
    · exact hquote
    · exact fun hslash _ => hc hslash
    · exact fun _ _ hslash _ => hc hslash

theorem digits?_line (count : Nat) (cs q : List Char) :
    digits? count (cs ++ '\n' :: q) = (digits? count cs).map (withLine q) := by
  unfold digits?
  rcases Nat.lt_or_ge cs.length count with hlt | hle
  · -- The line feed falls among the characters taken, and it is no digit.
    obtain ⟨k, rfl⟩ : ∃ k, count = cs.length + (k + 1) := ⟨count - cs.length - 1, by omega⟩
    have hfeed : (cs ++ '\n' :: q.take k).all Numeral.isDigit = false := by
      simp [Numeral.isDigit]
    have hshort : (cs.take (cs.length + (k + 1))).length ≠ cs.length + (k + 1) := by
      rw [List.length_take]
      omega
    rw [List.take_length_add_append, List.take_succ_cons]
    dsimp only
    rw [if_neg fun h => absurd h.2 (by rw [hfeed]; decide), if_neg fun h => hshort h.1]
    rfl
  · rw [List.take_append_of_le_length hle, List.drop_append_of_le_length hle]
    dsimp only
    split <;> rfl

/-! ## Scalars -/

theorem calendarDay?_line (cs q : List Char) :
    calendarDay? (cs ++ '\n' :: q) = (calendarDay? cs).map (withLine q) := by
  have hdash : ∀ c ∈ ['-'], c ≠ '\n' := by simp
  simp [calendarDay?, digits?_line, literally?_line hdash, Option.map_bind, Option.bind_map,
    Function.comp_def, withLine]

theorem clockTime?_line (cs q : List Char) :
    clockTime? (cs ++ '\n' :: q) = (clockTime? cs).map (withLine q) := by
  have hmark : ∀ c ∈ ['T'], c ≠ '\n' := by simp
  have hcolon : ∀ c ∈ [':'], c ≠ '\n' := by simp
  simp [clockTime?, digits?_line, literally?_line hmark, literally?_line hcolon, Option.map_bind,
    Option.bind_map, Function.comp_def, withLine]

theorem time?_line (cs q : List Char) :
    time? (cs ++ '\n' :: q) = (time? cs).map (withLine q) := by
  unfold time?
  rw [calendarDay?_line]
  rcases calendarDay? cs with _ | ⟨⟨year, month, day⟩, rest⟩
  · rfl
  · simp only [Option.map_some, withLine_mk, clockTime?_line]
    rcases clockTime? rest with _ | ⟨⟨hour, minute, second⟩, rest⟩ <;> rfl

theorem negative?_line (cs q : List Char) :
    negative? (cs ++ '\n' :: q) = (negative? cs).map (withLine q) := by
  cases cs with
  | nil => rfl
  | cons c cs =>
    by_cases hc : c = '-'
    · subst hc
      rw [List.cons_append, negative?, negative?, run?_line rfl]
      rcases run? (fun c => Numeral.isDigit c || c == '.') cs with _ | ⟨body, rest⟩
      · rfl
      · simp only [Option.map_some, withLine_mk]
        split <;> rfl
    · have hnone (ds : List Char) : negative? (c :: ds) = none := by
        unfold negative?
        split
        · next heq => cases heq; contradiction
        · rfl
      rw [List.cons_append, hnone, hnone]
      rfl

theorem decimal?_line (cs q : List Char) :
    decimal? (cs ++ '\n' :: q) = (decimal? cs).map (withLine q) := by
  have hdigit : Numeral.isDigit '\n' = false := rfl
  have hpoint : ∀ c ∈ ['.'], c ≠ '\n' := by simp
  simp [decimal?, run?_line hdigit, literally?_line hpoint, Option.map_bind, Option.bind_map,
    Function.comp_def, withLine]

theorem counting?_line (cs q : List Char) :
    counting? (cs ++ '\n' :: q) = (counting? cs).map (withLine q) := by
  have hdigit : Numeral.isDigit '\n' = false := rfl
  unfold counting?
  rw [run?_line hdigit]
  rcases run? Numeral.isDigit cs with _ | ⟨digits, rest⟩
  · rfl
  · simp only [Option.map_some, withLine_mk, Option.bind_eq_bind, Option.bind_some]
    split
    · rfl
    · cases Numeral.int64? digits <;> rfl

theorem integer?_line (cs q : List Char) :
    integer? (cs ++ '\n' :: q) = (integer? cs).map (withLine q) := by
  cases cs with
  | nil => exact counting?_line [] q
  | cons c cs =>
    by_cases hzero : c = '0'
    · subst hzero
      rfl
    by_cases hplus : c = '+'
    · subst hplus
      exact counting?_line cs q
    · rw [List.cons_append, integer?_cons hzero hplus, integer?_cons hzero hplus]
      exact counting?_line (c :: cs) q

theorem scalar?_of_ne {c : Char} (hquote : c ≠ '"') (cs : List Char) :
    scalar? (c :: cs) =
      ((literally? "true".toList (c :: cs)).map fun rest => (some (.bool true), rest)).or
        (((literally? "false".toList (c :: cs)).map fun rest => (some (.bool false), rest)).or
          ((time? (c :: cs)).or ((negative? (c :: cs)).or
            ((decimal? (c :: cs)).or (integer? (c :: cs)))))) := by
  unfold scalar?
  split
  · next heq => cases heq; contradiction
  · rfl

theorem scalar?_line {v : Option Value} (h : scalar? cs = some (v, rest)) (q : List Char) :
    scalar? (cs ++ '\n' :: q) = some (v, rest ++ '\n' :: q) := by
  cases cs with
  | nil => cases h
  | cons c cs =>
    by_cases hquote : c = '"'
    · subst hquote
      obtain ⟨⟨s, r⟩, hread, hfound⟩ := Option.map_eq_some_iff.mp h
      cases hfound
      simp [scalar?, quoted?_more hread]
    · have htrue : ∀ c ∈ "true".toList, c ≠ '\n' := by simp
      have hfalse : ∀ c ∈ "false".toList, c ≠ '\n' := by simp
      have hline : scalar? (c :: cs ++ '\n' :: q) = (scalar? (c :: cs)).map (withLine q) := by
        rw [List.cons_append, scalar?_of_ne hquote, scalar?_of_ne hquote, ← List.cons_append,
          literally?_line htrue, literally?_line hfalse, time?_line, negative?_line,
          decimal?_line, integer?_line]
        simp only [Option.map_or, Option.map_map]
        rfl
      rw [hline, h]
      rfl

/-! ## Literals -/

theorem literal_eq_found_of_bracket {inner : List Char} {v : Value} (hopen : skip cs = '[' :: inner)
    (h : literal cs = .found v rest) :
    ∃ vs close, items inner = .ok (vs, close) ∧ skip close = ']' :: rest ∧ v = .list vs := by
  rw [literal_eq, hopen] at h
  dsimp only at h
  rw [if_pos rfl] at h
  split at h
  · cases h
  · next vs close hitems =>
    unfold closeList at h
    split at h
    · next hclose =>
      cases h
      exact ⟨vs, close, hitems, hclose, rfl⟩
    · cases h

theorem literal_eq_found_of_ne {c : Char} {inner : List Char} {v : Value}
    (hskip : skip cs = c :: inner) (hc : c ≠ '[') (h : literal cs = .found v rest) :
    scalar? (c :: inner) = some (some v, rest) := by
  rw [literal_of_scalar hskip hc, scalar] at h
  split at h
  · cases h
  · next hscalar =>
    cases h
    exact hscalar
  · cases h

mutual

theorem literal_line {cs rest : List Char} {v : Value} (h : literal cs = .found v rest)
    (q : List Char) : literal (cs ++ '\n' :: q) = .found v (rest ++ '\n' :: q) := by
  cases hskip : skip cs with
  | nil =>
    rw [literal_eq, hskip] at h
    cases h
  | cons c inner =>
    by_cases hc : c = '['
    · subst hc
      have hlt := length_lt_of_skip hskip
      obtain ⟨vs, close, hitems, hclose, rfl⟩ := literal_eq_found_of_bracket hskip h
      exact literal_of_items (skip_append hskip (by decide) _) (items_line hitems hclose q)
        (skip_append hclose (by decide) _)
    · have hread := literal_eq_found_of_ne hskip hc h
      have hhash : c ≠ '#' := by
        rintro rfl
        rw [scalar?_eq_none (by decide) rfl] at hread
        cases hread
      rw [literal_of_scalar (skip_append hskip hhash _) hc, ← List.cons_append, scalar,
        scalar?_line hread]
termination_by (cs.length, 0)
decreasing_by exact Prod.Lex.left _ _ (by assumption)

theorem items_line {cs close after : List Char} {vs : List Value} (h : items cs = .ok (vs, close))
    (hclose : skip close = ']' :: after) (q : List Char) :
    items (cs ++ '\n' :: q) = .ok (vs, close ++ '\n' :: q) := by
  have hwithin := literal_within cs
  rw [items] at h
  split at h
  · cases h
    exact items_of_close (skip_append hclose (by decide) _)
  · cases h
  · next v mid hv =>
    rw [hv] at hwithin
    have hlt : mid.length < cs.length := hwithin
    rw [if_pos hlt] at h
    split at h
    · next further =>
      cases h
      refine items_of_literal (literal_line hv q) ?_ (furtherItems_line further hclose q)
      simpa using hlt
    · cases h
termination_by (cs.length, 1)
decreasing_by
  · exact Prod.Lex.right _ (by decide)
  · exact Prod.Lex.left _ _ (by assumption)

theorem furtherItems_line {cs close after : List Char} {vs : List Value}
    (h : furtherItems cs = .ok (vs, close)) (hclose : skip close = ']' :: after) (q : List Char) :
    furtherItems (cs ++ '\n' :: q) = .ok (vs, close ++ '\n' :: q) := by
  rw [furtherItems_eq] at h
  split at h
  · next next hcomma =>
    have hnext := length_lt_of_skip hcomma
    have hwithin := literal_within next
    split at h
    · -- A comma without a literal behind it is left where a bracket should be.
      cases h
      rw [hcomma] at hclose
      cases hclose
    · cases h
    · next v mid hv =>
      rw [hv] at hwithin
      have hlt : mid.length < cs.length := Nat.lt_trans hwithin hnext
      rw [if_pos hlt] at h
      split at h
      · next further =>
        cases h
        refine furtherItems_of_literal (skip_append hcomma (by decide) _) (literal_line hv q) ?_
          (furtherItems_line further hclose q)
        simpa using hlt
      · cases h
  · cases h
    exact furtherItems_of_close (skip_append hclose (by decide) _)
termination_by (cs.length, 0)
decreasing_by
  · exact Prod.Lex.left _ _ (by assumption)
  · exact Prod.Lex.left _ _ (by assumption)

end

/-! ## Series -/

section Series

variable {read : List Char → Outcome α}

theorem many_of_absent (h : read cs = .absent) : many read cs = .ok ([], cs) := by
  rw [many, h]

theorem many_of_fault {f : Fault} (h : read cs = .fault f) : many read cs = .error f := by
  rw [many, h]

theorem many_of_found {a : α} (h : read cs = .found a rest) (hlt : rest.length < cs.length) :
    many read cs = (many read rest).map fun (as, rest) => (a :: as, rest) := by
  rw [many, h]
  dsimp only
  rw [if_pos hlt]
  rcases many read rest with f | ⟨as, r⟩ <;> rfl

/-- A series goes on behind the line feed where it ended before. -/
theorem many_line (hwithin : ∀ cs, (read cs).Within cs)
    (hline : ∀ {cs a rest}, read cs = .found a rest →
      ∀ q, read (cs ++ '\n' :: q) = .found a (rest ++ '\n' :: q))
    {as : List α} (h : many read cs = .ok (as, rest)) (q : List Char) :
    many read (cs ++ '\n' :: q) =
      (many read (rest ++ '\n' :: q)).map fun (bs, r) => (as ++ bs, r) := by
  fun_induction many read cs generalizing as rest with
  | case1 cs habsent =>
    cases h
    rcases many read (cs ++ '\n' :: q) with f | ⟨bs, r⟩ <;> rfl
  | case2 => cases h
  | case3 cs a mid hfound hlt as' rest' hmany ih =>
    cases h
    have hlt' : (mid ++ '\n' :: q).length < (cs ++ '\n' :: q).length := by simpa using hlt
    rw [many_of_found (hline hfound q) hlt', ih hmany]
    rcases many read (rest' ++ '\n' :: q) with f | ⟨bs, r⟩ <;> rfl
  | case4 => cases h
  | case5 cs a mid hfound hge =>
    have hlt := hwithin cs
    rw [hfound] at hlt
    exact absurd hlt hge

end Series

/-! ## Conditions and blocks -/

/-- A reader behind skipped text, where no comment starts what it reads. -/
theorem skip_line {read : List Char → Option (α × List Char)} {a : α} {q : List Char}
    (hnil : read [] = none) (hhash : ∀ ds, read ('#' :: ds) = none)
    (hline : ∀ ds, read ds = some (a, rest) → read (ds ++ '\n' :: q) = some (a, rest ++ '\n' :: q))
    (h : read (skip cs) = some (a, rest)) :
    read (skip (cs ++ '\n' :: q)) = some (a, rest ++ '\n' :: q) := by
  cases hskip : skip cs with
  | nil =>
    rw [hskip, hnil] at h
    cases h
  | cons c ds =>
    rw [hskip] at h
    have hc : c ≠ '#' := by
      rintro rfl
      rw [hhash] at h
      cases h
    rw [skip_append hskip hc]
    exact hline (c :: ds) h

theorem name?_skip_line {name : List Char} (h : name? (skip cs) = some (name, rest))
    (q : List Char) : name? (skip (cs ++ '\n' :: q)) = some (name, rest ++ '\n' :: q) :=
  skip_line rfl (fun _ => rfl) (fun _ hread => name?_line hread q) h

theorem operator?_skip_line {token : List Char} (h : operator? (skip cs) = some (token, rest))
    (q : List Char) : operator? (skip (cs ++ '\n' :: q)) = some (token, rest ++ '\n' :: q) :=
  skip_line rfl (fun _ => rfl) (fun _ hread => operator?_line hread q) h

theorem condition_line {c : Condition} (h : condition cs = .found c rest) (q : List Char) :
    condition (cs ++ '\n' :: q) = .found c (rest ++ '\n' :: q) := by
  unfold condition at h
  split at h
  · cases h
  · next column r₁ hcolumn =>
    split at h
    · cases h
    · next token r₂ htoken =>
      split at h
      · cases h
      · cases h
      · next v r₃ hv =>
        cases h
        rw [condition, name?_skip_line hcolumn q]
        simp only [operator?_skip_line htoken q, literal_line hv q]

/-- In front of the closing brace there is no condition. -/
theorem condition_congr {ds : List Char} (h : skip cs = skip ds) : condition cs = condition ds := by
  rw [condition, condition, h]

theorem condition_of_close (h : skip cs = '\x7d' :: rest) : condition cs = .absent := by
  rw [condition, h]
  rfl

theorem body_line {resource effect : List Char} {b : String × Policy}
    (h : body resource effect cs = .found b rest) (q : List Char) :
    body resource effect (cs ++ '\n' :: q) = .found b (rest ++ '\n' :: q) := by
  unfold body at h
  split at h
  · next inner hopen =>
    split at h
    · cases h
    · next conditions close hmany =>
      split at h
      · next after hclose =>
        cases h
        have hclose' := skip_append hclose (by decide) ('\n' :: q)
        have hmany' := many_line condition_within condition_line hmany q
        rw [many_of_absent (condition_of_close hclose')] at hmany'
        rw [body, skip_append hopen (by decide)]
        simp [hmany', Except.map, hclose']
      · cases h
  · cases h

theorem block_line {b : String × Policy} (h : block cs = .found b rest) (q : List Char) :
    block (cs ++ '\n' :: q) = .found b (rest ++ '\n' :: q) := by
  unfold block at h
  split at h
  · cases h
  · next r₁ hword =>
    split at h
    · cases h
    · next resource r₂ hresource =>
      split at h
      · cases h
      · next effect r₃ heffect =>
        have hskip : skip cs = 'p' :: ("olicy".toList ++ r₁) := literally?_eq_some_iff.mp hword
        have hword' : literally? "policy".toList (skip (cs ++ '\n' :: q)) =
            some (r₁ ++ '\n' :: q) := by
          rw [literally?_eq_some_iff, skip_append hskip (by decide), List.append_assoc]
          rfl
        rw [block, hword']
        simp only [name?_skip_line hresource q, name?_skip_line heffect q, body_line h q]

theorem block_congr {ds : List Char} (h : skip cs = skip ds) : block cs = block ds := by
  rw [block, block, h]

/-- What is skipped in front of the blocks makes no difference. -/
theorem blocks_congr {ds : List Char} (h : skip cs = skip ds) : blocks cs = blocks ds := by
  have hcs := block_within cs
  have hds := block_within ds
  have hblock := block_congr h
  cases hd : block ds with
  | absent =>
    rw [blocks, blocks, many_of_absent hd, many_of_absent (hblock.trans hd)]
    simp only [h]
  | fault f => rw [blocks, blocks, many_of_fault hd, many_of_fault (hblock.trans hd)]
  | found b rest =>
    rw [hblock, hd] at hcs
    rw [hd] at hds
    rw [blocks, blocks, many_of_found hd hds, many_of_found (hblock.trans hd) hcs]

/-- Behind blocks that are read to the end of a text, those on the next lines are read. -/
theorem blocks_line {bs : List (String × Policy)} (h : blocks cs = .ok bs) (q : List Char) :
    blocks (cs ++ '\n' :: q) = (blocks q).map (bs ++ ·) := by
  unfold blocks at h
  split at h
  · cases h
  · next bs' rest hmany =>
    split at h
    · next hend =>
      cases h
      rw [← blocks_congr (skip_append_line hend q), blocks, blocks,
        many_line block_within block_line hmany q]
      rcases many block (rest ++ '\n' :: q) with f | ⟨bs'', r⟩
      · rfl
      · simp only [Except.map]
        split <;> rfl
    · cases h

/-! ## Texts and sets of rules -/

theorem parse_eq_ok_iff {text : String} {bs : List (String × Policy)} :
    parse text = .ok bs ↔ blocks text.toList = .ok bs := by
  unfold parse
  split
  · next h => rw [h]; simp
  · next h => rw [h]; simp

theorem parse_eq_error_iff {text : String} {e : ParseError} :
    parse text = .error e ↔
      ∃ f, blocks text.toList = .error f ∧ e = ParseError.ofFault text.toList f := by
  unfold parse
  split
  · next h => rw [h]; simp
  · next f h => rw [h]; simp [eq_comm]

/-- A place in the second part of a text. -/
theorem offset_ofFault_append {f : Fault} (h : f.rest.length ≤ cs.length) (before : List Char) :
    (ParseError.ofFault (before ++ cs) f).offset =
      byteCount before + (ParseError.ofFault cs f).offset := by
  simp only [ParseError.offset, ParseError.ofFault]
  rw [List.length_append, Nat.add_sub_assoc h, List.take_length_add_append, byteCount_append]

theorem toList_append_line (p q : String) :
    (p ++ "\n" ++ q).toList = p.toList ++ '\n' :: q.toList := by
  simp

/-- Rules join, and a fault is found at its place behind the first text and the line feed. -/
theorem parse_append_line {p q : String} {ps : List (String × Policy)} (hp : parse p = .ok ps) :
    (∀ qs, parse q = .ok qs →
      parse (p ++ "\n" ++ q) = .ok (ps ++ qs) ∧
      ∃ sp sq s, PolicySet.ofText p = .ok sp ∧ PolicySet.ofText q = .ok sq ∧
        PolicySet.ofText (p ++ "\n" ++ q) = .ok s ∧ ∀ r, s.get r = sp.get r ++ sq.get r) ∧
    ∀ e, parse q = .error e →
      ∃ e', parse (p ++ "\n" ++ q) = .error e' ∧
        e'.offset = p.utf8ByteSize + 1 + e.offset := by
  have hline := blocks_line (parse_eq_ok_iff.mp hp) q.toList
  rw [← toList_append_line] at hline
  constructor
  · intro qs hq
    have hjoined : parse (p ++ "\n" ++ q) = .ok (ps ++ qs) := by
      rw [parse_eq_ok_iff, hline, parse_eq_ok_iff.mp hq]
      rfl
    refine ⟨hjoined, .ofList ps, .ofList qs, .ofList (ps ++ qs), ?_, ?_, ?_,
      PolicySet.get_ofList_append ps qs⟩
    · rw [PolicySet.ofText, hp]
      rfl
    · rw [PolicySet.ofText, hq]
      rfl
    · rw [PolicySet.ofText, hjoined]
      rfl
  · intro e hq
    obtain ⟨f, hf, rfl⟩ := parse_eq_error_iff.mp hq
    refine ⟨.ofFault (p ++ "\n" ++ q).toList f, ?_, ?_⟩
    · rw [parse_eq_error_iff]
      refine ⟨f, ?_, rfl⟩
      rw [hline, hf]
      rfl
    · have hsplit : (p ++ "\n" ++ q).toList = (p ++ "\n").toList ++ q.toList := String.toList_append
      rw [hsplit, offset_ofFault_append (length_of_blocks_eq_error hf), byteCount_toList,
        String.utf8ByteSize_append]
      rfl

/-- The first text ends in a comment, and the last one without a value. -/
theorem parse_append_line_comment :
    let p := "policy users deny\x7b\x7d#"
    let q := "policy users allow\x7bage>1\x7d"
    let broken := "policy users allow\x7bage>"
    parse p = .ok [("users", ⟨.deny, []⟩)] ∧
      parse (p ++ "\n" ++ q) =
        .ok [("users", ⟨.deny, []⟩), ("users", ⟨.allow, [⟨"age", ">", .int 1⟩]⟩)] ∧
      ∃ e e', parse broken = .error e ∧ e.offset = 23 ∧
        parse (p ++ "\n" ++ broken) = .error e' ∧ e'.offset = 44 := by
  intro p q broken
  have hp : parse p = .ok [("users", ⟨.deny, []⟩)] := by
    unfold p
    cbv
  have hq : parse q = .ok [("users", ⟨.allow, [⟨"age", ">", .int 1⟩]⟩)] := by
    unfold q
    cbv
  obtain ⟨e, he, hoffset⟩ : ∃ e, parse broken = .error e ∧ e.offset = 23 := by
    unfold broken
    exact ⟨_, by cbv, by cbv⟩
  have hjoined := ((parse_append_line hp).1 _ hq).1
  obtain ⟨e', he', hoffset'⟩ := (parse_append_line hp).2 e he
  refine ⟨hp, hjoined, e, e', he, hoffset, he', ?_⟩
  rw [hoffset', hoffset]
  rfl

end PolicyText

end RowPolicy
