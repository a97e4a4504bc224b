import RowPolicy.Proofs.PolicyText.Surroundings

/-!
# Where reading stands

Reading never leaves its text: wherever a reader stops, at what it found, at a fault or where
nothing of its kind starts, a rest of the text is left, and behind what was found it is a shorter
one. So every series goes on in rounds that each take something, and comes to an end.

The main statement is `reading_advances`: all readers and all series of policy text are of this
kind, and what is wrong with a text is wrong at a place between two of its characters.
-/
namespace RowPolicy.PolicyText

variable {α : Type} {cs rest : List Char}

/-! ## Readers -/

theorem skip_skip (cs : List Char) : skip (skip cs) = skip cs := by
  fun_induction skip cs with
  | case1 => rw [skip]
  | case2 c rest _ ih => exact ih
  | case3 rest line _ _ ih => exact ih
  | case4 rest hline hspace => rw [skip, if_neg hspace, if_pos rfl, hline]
  | case5 c rest hspace hhash => rw [skip, if_neg hspace, if_neg hhash]

/-- The text that is left behind a reader. One that finds nothing of its kind returns no position,
since its caller goes back to where it began; `looked` is what it had left at that moment. -/
def Outcome.left (looked : List Char) : Outcome α → List Char
  | .found _ rest => rest
  | .absent => looked
  | .fault f => f.rest

/-- A reader that leaves a rest of its text, and a shorter one behind what it found. The steps of the
reader up to the one that is refused where nothing of its kind starts are `looked`: `id` if that is
the first step, and `skip` if only the gap is taken before it. Nothing of its kind starts in the text
that these steps leave. -/
structure Advances (read : List Char → Outcome α) (looked : List Char → List Char) : Prop where
  left_suffix (cs : List Char) : (read cs).left (looked cs) <:+ cs
  shorter {cs rest : List Char} {a : α} : read cs = .found a rest → Shorter rest cs
  still_absent {cs : List Char} : read cs = .absent → read (looked cs) = .absent

section Advances

variable {read : List Char → Outcome α} {looked : List Char → List Char}

theorem advances_of_forward (hread : ∀ cs, (read cs).Forward cs) (hlooked : ∀ cs, looked cs <:+ cs)
    (habsent : ∀ cs, read cs = .absent → read (looked cs) = .absent) : Advances read looked := by
  refine ⟨fun cs => ?_, fun hfound => (hread _).shorter hfound, fun h => habsent _ h⟩
  cases h : read cs with
  | found a rest => exact ((hread cs).shorter h).suffix
  | absent => exact hlooked cs
  | fault f => exact (hread cs).suffix h

/-- A reader whose first step is refused has not moved. -/
theorem advances_from_start (hread : ∀ cs, (read cs).Forward cs) : Advances read id :=
  advances_of_forward hread (fun _ => List.suffix_rfl) fun _ h => h

/-- A reader that takes the gap first is refused at the character behind the gap. -/
theorem advances_behind_gap (hread : ∀ cs, (read cs).Forward cs)
    (hcongr : ∀ {cs ds}, skip cs = skip ds → read cs = read ds) : Advances read skip :=
  advances_of_forward hread skip_suffix fun cs h => (hcongr (skip_skip cs)).trans h

end Advances

def Outcome.ofOption : Option (α × List Char) → Outcome α
  | some (a, rest) => .found a rest
  | none => .absent

theorem forward_ofOption {o : Option (α × List Char)}
    (h : ∀ a rest, o = some (a, rest) → Shorter rest cs) : (Outcome.ofOption o).Forward cs := by
  rcases o with - | ⟨a, rest⟩
  · trivial
  · exact h a rest rfl

/-- A quoted text with its first quote. -/
def quotedText : List Char → Outcome (List Char)
  | '"' :: cs => .ofOption (quoted? cs)
  | _ => .absent

/-- Without a first quote nothing is taken. Behind it characters are taken up to the second one, so
where that is missing nothing is left. -/
def behindQuoted : List Char → List Char
  | '"' :: _ => []
  | cs => cs

/-- A comma between two items of a list. -/
def comma (cs : List Char) : Outcome Unit :=
  match skip cs with
  | ',' :: rest => .found () rest
  | _ => .absent

/-- The blocks of a text and the gap behind them. There may be no block, so this is never absent. -/
def allBlocks (cs : List Char) : Outcome (List (String × Policy)) :=
  match many block cs with
  | .ok (blocks, rest) => .found blocks (skip rest)
  | .error f => .fault f

theorem advances_name : Advances (fun cs => .ofOption (name? cs)) id :=
  advances_from_start fun _ => forward_ofOption fun _ _ => shorter_of_name?

theorem advances_quotedText : Advances quotedText behindQuoted := by
  refine advances_of_forward (fun cs => ?_) (fun cs => ?_) fun cs h => ?_
  · unfold quotedText
    split
    · next cs =>
      refine (forward_ofOption fun _ _ => shorter_of_quoted?).mono (List.suffix_cons _ _)
    · trivial
  · unfold behindQuoted
    split
    · exact List.nil_suffix
    · exact List.suffix_rfl
  · unfold behindQuoted
    split
    · rfl
    · exact h

theorem advances_literal : Advances literal skip :=
  advances_behind_gap literal_forward fun h => by rw [literal_eq, literal_eq, h]

theorem advances_comma : Advances comma skip := by
  refine advances_behind_gap (fun cs => ?_) fun h => by rw [comma, comma, h]
  unfold comma
  split
  · next rest h => exact shorter_of_skip h
  · trivial

theorem advances_condition : Advances condition skip :=
  advances_behind_gap condition_forward condition_congr

theorem advances_block : Advances block skip := advances_behind_gap block_forward block_congr

theorem left_allBlocks_suffix (cs : List Char) : (allBlocks cs).left cs <:+ cs := by
  have hmany := many_forward block_forward cs
  unfold allBlocks
  split
  · next blocks rest h =>
    rw [h] at hmany
    exact (skip_suffix rest).trans hmany
  · next f h =>
    rw [h] at hmany
    exact hmany

theorem allBlocks_of_blocks_eq_ok {bs : List (String × Policy)} (h : blocks cs = .ok bs) :
    allBlocks cs = .found bs [] := by
  obtain ⟨rest, hmany, hend⟩ := blocks_eq_ok_iff.mp h
  rw [allBlocks, hmany]
  simp only [hend]

theorem left_allBlocks_of_blocks_eq_error {f : Fault} (h : blocks cs = .error f) :
    (allBlocks cs).left cs = f.rest := by
  unfold blocks at h
  unfold allBlocks
  split at h
  · next hmany =>
    cases h
    rw [hmany]
    rfl
  · next bs rest hmany =>
    rw [hmany]
    split at h
    · cases h
    · cases h
      rfl

/-! ## Series -/

/-- A series as it is read, round by round. Each round takes something. -/
inductive Rounds (read : List Char → Outcome α) :
    List Char → Except Fault (List α × List Char) → Prop where
  | over {cs : List Char} (h : read cs = .absent) : Rounds read cs (.ok ([], cs))
  | fault {cs : List Char} {f : Fault} (h : read cs = .fault f) : Rounds read cs (.error f)
  | round {cs rest : List Char} {a : α} {s : Except Fault (List α × List Char)}
    (h : read cs = .found a rest) (takes : Shorter rest cs) (further : Rounds read rest s) :
    Rounds read cs (s.map fun (as, rest) => (a :: as, rest))

theorem rounds_many {read : List Char → Outcome α} {looked : List Char → List Char}
    (hread : Advances read looked) (cs : List Char) : Rounds read cs (many read cs) := by
  fun_induction many read cs with
  | case1 cs h => exact .over h
  | case2 cs f h => exact .fault h
  | case3 cs a rest h _ as rest' hmany ih =>
    rw [hmany] at ih
    exact .round h (hread.shorter h) ih
  | case4 cs a rest h _ f hmany ih =>
    rw [hmany] at ih
    exact .round h (hread.shorter h) ih
  | case5 cs a rest h hstill => exact absurd (hread.shorter h).lt hstill

/-! ## Gaps -/

/-- Some white space, or one comment. -/
def gapPiece : List Char → Outcome Unit
  | [] => .absent
  | c :: cs =>
    if isSpace c then .found () (cs.dropWhile isSpace)
    else if c = '#' then
      match lineEnd? cs with
      | some line => .found () line
      | none => .absent
    else .absent

theorem advances_gapPiece : Advances gapPiece id := by
  refine advances_from_start fun cs => ?_
  unfold gapPiece
  split
  · trivial
  · next c cs =>
    split
    · exact .suffix_trans (List.dropWhile_suffix _) (.cons c cs)
    · split
      · split
        · next line h => exact .suffix_trans (lineEnd?_suffix h) (.cons c cs)
        · trivial
      · trivial

theorem skip_dropWhile (cs : List Char) : skip (cs.dropWhile isSpace) = skip cs := by
  induction cs with
  | nil => rfl
  | cons c cs ih =>
    cases hc : isSpace c with
    | true => rw [List.dropWhile_cons_of_pos hc, ih, skip_space hc]
    | false => rw [List.dropWhile_cons_of_neg (by simp [hc])]

theorem skip_of_gapPiece (h : gapPiece cs = .found () rest) : skip cs = skip rest := by
  unfold gapPiece at h
  split at h
  · cases h
  · next c cs =>
    split at h
    · next hspace =>
      cases h
      rw [skip_space hspace, skip_dropWhile]
    · split at h
      · next hhash =>
        split at h
        · next line hline =>
          cases h
          rw [hhash, skip_hash hline]
        · cases h
      · cases h

theorem skip_of_gapPiece_eq_absent (h : gapPiece cs = .absent) : skip cs = cs := by
  unfold gapPiece at h
  split at h
  · rw [skip]
  · next c cs =>
    split at h
    · cases h
    · next hspace =>
      rw [skip, if_neg hspace]
      split
      · next hhash =>
        rw [if_pos hhash] at h
        split
        · next line hline => rw [hline] at h; cases h
        · rfl
      · rfl

theorem gapPiece_ne_fault {f : Fault} : gapPiece cs ≠ .fault f := by
  unfold gapPiece
  grind

/-- A gap is skipped piece by piece. -/
theorem exists_rounds_skip (cs : List Char) :
    ∃ pieces, Rounds gapPiece cs (.ok (pieces, skip cs)) := by
  induction hn : cs.length using Nat.strong_induction_on generalizing cs with
  | _ n ih =>
  subst hn
  cases h : gapPiece cs with
  | absent =>
    rw [skip_of_gapPiece_eq_absent h]
    exact ⟨[], .over h⟩
  | found piece rest =>
    have hrest := advances_gapPiece.shorter h
    obtain ⟨pieces, hrounds⟩ := ih rest.length hrest.lt rest rfl
    rw [skip_of_gapPiece h]
    exact ⟨piece :: pieces, .round h hrest hrounds⟩
  | fault f => exact absurd h gapPiece_ne_fault

/-! ## Items -/

/-- A comma and an item. Where one of them is missing, the comma is given back. -/
def furtherItem (cs : List Char) : Outcome Value :=
  match comma cs with
  | .found () rest => literal rest
  | _ => .absent

theorem forward_furtherItem (cs : List Char) : (furtherItem cs).Forward cs := by
  unfold furtherItem
  split
  · next rest h => exact (literal_forward rest).mono (advances_comma.shorter h).suffix
  · trivial

theorem advances_furtherItem : Advances furtherItem id :=
  advances_from_start forward_furtherItem

theorem furtherItem_of_skip (h : skip cs = ',' :: rest) : furtherItem cs = literal rest := by
  simp [furtherItem, comma, h]

theorem furtherItem_of_skip_ne (h : ∀ rest, skip cs ≠ ',' :: rest) : furtherItem cs = .absent := by
  have hcomma : comma cs = .absent := by
    unfold comma
    split
    · next rest heq => exact absurd heq (h rest)
    · rfl
  rw [furtherItem, hcomma]

/-- The items behind the first one are a series too. -/
theorem furtherItems_eq_many (cs : List Char) : furtherItems cs = many furtherItem cs := by
  induction hn : cs.length using Nat.strong_induction_on generalizing cs with
  | _ n ih =>
  subst hn
  by_cases hcomma : ∃ next, skip cs = ',' :: next
  · obtain ⟨next, hskip⟩ := hcomma
    have hitem := furtherItem_of_skip hskip
    cases h : literal next with
    | absent =>
      rw [many_of_absent (hitem.trans h), furtherItems_eq, hskip]
      simp only [h]
    | fault f =>
      rw [many_of_fault (hitem.trans h), furtherItems_eq, hskip]
      simp only [h]
    | found v rest =>
      have hlt := (advances_furtherItem.shorter (hitem.trans h)).lt
      rw [many_of_found (hitem.trans h) hlt, furtherItems_of_comma hskip h, items_of_found h,
        ih rest.length hlt rest rfl]
  · have hskip : ∀ next, skip cs ≠ ',' :: next := fun next heq => hcomma ⟨next, heq⟩
    rw [many_of_absent (furtherItem_of_skip_ne hskip), furtherItems_eq]
    split
    · next next heq => exact absurd heq (hskip next)
    · rfl

/-- The items of a list, with the first one read by itself. -/
inductive ItemRounds : List Char → Except Fault (List Value × List Char) → Prop where
  | over {cs : List Char} (h : literal cs = .absent) : ItemRounds cs (.ok ([], cs))
  | fault {cs : List Char} {f : Fault} (h : literal cs = .fault f) : ItemRounds cs (.error f)
  | first {cs rest : List Char} {v : Value} {s : Except Fault (List Value × List Char)}
    (h : literal cs = .found v rest) (takes : Shorter rest cs)
    (further : Rounds furtherItem rest s) :
    ItemRounds cs (s.map fun (vs, rest) => (v :: vs, rest))

theorem itemRounds_items (cs : List Char) : ItemRounds cs (items cs) := by
  cases h : literal cs with
  | absent =>
    rw [items, h]
    exact .over h
  | fault f =>
    rw [items, h]
    exact .fault h
  | found v rest =>
    rw [items_of_found h, furtherItems_eq_many]
    exact .first h (advances_literal.shorter h) (rounds_many advances_furtherItem rest)

/-! ## Faults -/

theorem before_append_rest {f : Fault} (h : f.rest <:+ cs) :
    (ParseError.ofFault cs f).before ++ f.rest = cs := by
  obtain ⟨before, rfl⟩ := h
  simp [ParseError.ofFault]

/-- A fault is at a place between two characters. -/
theorem isValid_offset {text : String} {f : Fault} (h : f.rest <:+ text.toList) :
    String.Pos.Raw.IsValid text ⟨(ParseError.ofFault text.toList f).offset⟩ := by
  have hsplit := before_append_rest h
  rw [String.Pos.Raw.isValid_iff_exists_append]
  refine ⟨String.ofList (ParseError.ofFault text.toList f).before, String.ofList f.rest, ?_, ?_⟩
  · rw [← String.ofList_append, hsplit, String.ofList_toList]
  · rw [String.rawEndPos, ← byteCount_toList, String.toList_ofList]
    rfl

theorem offset_le {text : String} {f : Fault} (h : f.rest <:+ text.toList) :
    (ParseError.ofFault text.toList f).offset ≤ text.utf8ByteSize := by
  have hbytes := congrArg byteCount (before_append_rest h)
  rw [byteCount_append, byteCount_toList] at hbytes
  rw [ParseError.offset]
  omega

/-- Every reader leaves a rest of its text and takes something where it finds something. A name is
refused at its first character, and a literal, a comma, a condition or a block at the character
behind the gap, where it is refused again. Every series goes round by round to its end, be it of the
pieces of a gap, of items, of conditions or of blocks. So each text is read to its end, or reading
gives up where it stands, at a place inside the text that parts no character. -/
theorem reading_advances :
    (∀ cs, skip cs <:+ cs) ∧
    Advances (fun cs => .ofOption (name? cs)) id ∧
    Advances quotedText behindQuoted ∧
    Advances literal skip ∧
    Advances comma skip ∧
    Advances condition skip ∧
    Advances block skip ∧
    (∀ cs, (allBlocks cs).left cs <:+ cs) ∧
    (∀ cs, ∃ pieces, Rounds gapPiece cs (.ok (pieces, skip cs))) ∧
    (∀ cs, ItemRounds cs (items cs)) ∧
    (∀ cs, Rounds condition cs (many condition cs)) ∧
    (∀ cs, Rounds block cs (many block cs)) ∧
    ∀ text, (∃ bs, parse text = .ok bs ∧ allBlocks text.toList = .found bs []) ∨
      ∃ e, parse text = .error e ∧
        e.before ++ (allBlocks text.toList).left text.toList = text.toList ∧
        e.offset ≤ text.utf8ByteSize ∧ String.Pos.Raw.IsValid text ⟨e.offset⟩ := by
  refine ⟨skip_suffix, advances_name, advances_quotedText, advances_literal, advances_comma,
    advances_condition, advances_block, left_allBlocks_suffix, exists_rounds_skip,
    itemRounds_items, rounds_many advances_condition, rounds_many advances_block, fun text => ?_⟩
  cases h : parse text with
  | ok bs => exact .inl ⟨bs, rfl, allBlocks_of_blocks_eq_ok (parse_eq_ok_iff.mp h)⟩
  | error e =>
    obtain ⟨f, hf, rfl⟩ := parse_eq_error_iff.mp h
    have hsuffix := suffix_of_blocks_eq_error hf
    refine .inr ⟨_, rfl, ?_, offset_le hsuffix, isValid_offset hsuffix⟩
    rw [left_allBlocks_of_blocks_eq_error hf, before_append_rest hsuffix]

/-- Characters may take several bytes. -/
example : ∃ e, parse "#é\n?" = .error e ∧ e.offset = 4 := ⟨_, by cbv, by cbv⟩

end RowPolicy.PolicyText
