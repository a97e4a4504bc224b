import RowPolicy.Proofs.Json.Strings

/-!
# Parts between brackets

A reader reads a part as something if it does so between any gap and anything that may follow a
part. From this the readers of arrays and objects read any series of such parts:
`readsBehind_elements` gives the list of what the parts were read as, and `readsBehind_members` the
state after the last member. Members that are not used are one more case of the same loop.
-/
namespace RowPolicy.Json

/-! ## Gaps -/

theorem skipSpace_gap {gap : List Char} (h : IsGap gap) (cs : List Char) :
    skipSpace (gap ++ cs) = skipSpace cs :=
  List.dropWhile_append_of_pos h

theorem skipSpace_cons {c : Char} (h : isSpace c = false) (cs : List Char) :
    skipSpace (c :: cs) = c :: cs := by
  simp [skipSpace, h]

theorem skipSpace_append {gap : List Char} (hgap : IsGap gap) {c : Char} (hc : isSpace c = false)
    (cs : List Char) : skipSpace (gap ++ c :: cs) = c :: cs := by
  rw [skipSpace_gap hgap, skipSpace_cons hc]

/-- What may follow a part: nothing, white space, a comma or a bracket that closes. -/
def Ends (rest : List Char) : Prop :=
  ∀ c ∈ rest.head?, isSpace c = true ∨ c = ',' ∨ c = ']' ∨ c = '\x7d'

theorem ends_append {gap : List Char} (hgap : IsGap gap) {c : Char}
    (hc : c = ',' ∨ c = ']' ∨ c = '\x7d') (cs : List Char) : Ends (gap ++ c :: cs) := by
  intro d hd
  cases gap with
  | nil =>
    obtain rfl : c = d := by simpa using hd
    exact .inr hc
  | cons e gap =>
    obtain rfl : e = d := by simpa using hd
    exact .inl (hgap e (by simp))

/-! ## Parts -/

/-- A reader reads a part as something, whatever stands around it. No part starts like a gap or with
a bracket that closes. -/
structure ReadsAs {α : Type} (read : List Char → Reading α) (a : α) (part : List Char) : Prop where
  starts : ∃ c tail, part = c :: tail ∧ isSpace c = false ∧ c ≠ ']' ∧ c ≠ '\x7d'
  reads : ∀ {gap rest : List Char}, IsGap gap → Ends rest →
    read (gap ++ (part ++ rest)) = .ok (a, rest)

theorem ReadsAs.map {α β : Type} {read : List Char → Reading α} {a : α} {part : List Char}
    (h : ReadsAs read a part) (f : α → β) :
    ReadsAs (fun cs => (read cs).map fun (a, rest) => (f a, rest)) (f a) part where
  starts := h.starts
  reads hgap hends := by
    simp only [h.reads hgap hends]
    rfl

/-- A reader reads a part as something, from behind the character that the part starts with. -/
def ReadsBehind {α : Type} (c : Char) (read : List Char → Reading α) (a : α)
    (part : List Char) : Prop :=
  ∀ rest, ∃ tail, part = c :: tail ∧ read (tail ++ rest) = .ok (a, rest)

theorem ReadsBehind.map {α β : Type} {c : Char} {read : List Char → Reading α} {a : α}
    {part : List Char} (h : ReadsBehind c read a part) (f : α → β) :
    ReadsBehind c (fun cs => (read cs).map fun (a, rest) => (f a, rest)) (f a) part := by
  intro rest
  obtain ⟨tail, rfl, hread⟩ := h rest
  refine ⟨tail, rfl, ?_⟩
  simp only [hread]
  rfl

/-- A reader that finds its first character behind a gap. -/
theorem ReadsBehind.readsAs {α : Type} {c : Char} {inner read : List Char → Reading α} {a : α}
    {part : List Char} (h : ReadsBehind c inner a part)
    (hc : isSpace c = false ∧ c ≠ ']' ∧ c ≠ '\x7d')
    (hread : ∀ {cs tail}, skipSpace cs = c :: tail → read cs = inner tail) :
    ReadsAs read a part where
  starts := by
    obtain ⟨tail, rfl, -⟩ := h []
    exact ⟨c, tail, rfl, hc⟩
  reads {gap rest} hgap _ := by
    obtain ⟨tail, rfl, hinner⟩ := h rest
    rw [← hinner]
    exact hread (skipSpace_append hgap hc.1 _)

section Series

variable {α β : Type} {Part : α → List Char → Prop} {as : List α} {cs : List Char}

/-- Parts that are written by some things are also written by others that match these. -/
theorem Series.choose {Q : β → List Char → Prop} {R : α → β → Prop}
    (h : ∀ a part, Part a part → ∃ b, R a b ∧ Q b part) (hs : Series Part as cs) :
    ∃ bs, List.Forall₂ R as bs ∧ Series Q bs cs := by
  induction hs with
  | last hbefore hpart hafter =>
    obtain ⟨b, hb, hpart'⟩ := h _ _ hpart
    exact ⟨[b], .cons hb .nil, .last hbefore hpart' hafter⟩
  | cons hbefore hpart hafter _ ih =>
    obtain ⟨b, hb, hpart'⟩ := h _ _ hpart
    obtain ⟨bs, hbs, hmore⟩ := ih
    exact ⟨b :: bs, .cons hb hbs, .cons hbefore hpart' hafter hmore⟩

theorem Enclosed.choose {opening closing : Char} {Q : β → List Char → Prop} {R : α → β → Prop}
    (h : ∀ a part, Part a part → ∃ b, R a b ∧ Q b part)
    (hs : Enclosed opening closing Part as cs) :
    ∃ bs, List.Forall₂ R as bs ∧ Enclosed opening closing Q bs cs := by
  cases hs with
  | none hgap => exact ⟨[], .nil, .none hgap⟩
  | series hs =>
    obtain ⟨bs, hbs, hs'⟩ := hs.choose h
    exact ⟨bs, hbs, .series hs'⟩

theorem Series.imp {Q : α → List Char → Prop} (h : ∀ a part, Part a part → Q a part)
    (hs : Series Part as cs) : Series Q as cs := by
  obtain ⟨bs, hbs, hs'⟩ := hs.choose fun a part hpart => ⟨a, rfl, h a part hpart⟩
  obtain rfl : as = bs := by rwa [List.forall₂_eq_eq_eq] at hbs
  exact hs'

theorem Enclosed.imp {opening closing : Char} {Q : α → List Char → Prop}
    (h : ∀ a part, Part a part → Q a part) (hs : Enclosed opening closing Part as cs) :
    Enclosed opening closing Q as cs := by
  cases hs with
  | none hgap => exact .none hgap
  | series hs => exact .series (hs.imp h)

/-- No part is longer than the series that it is in. -/
theorem Series.bounded (hs : Series Part as cs) :
    Series (fun a part => Part a part ∧ part.length ≤ cs.length) as cs := by
  induction hs with
  | last hbefore hpart hafter =>
    refine .last hbefore ⟨hpart, ?_⟩ hafter
    simp only [List.length_append]
    omega
  | @cons _ _ before part after more hbefore hpart hafter _ ih =>
    have hle : more.length ≤ (before ++ (part ++ (after ++ ',' :: more))).length := by
      simp only [List.length_append, List.length_cons]
      omega
    refine .cons hbefore ⟨hpart, ?_⟩ hafter (ih.imp fun _ _ h => ⟨h.1, Nat.le_trans h.2 hle⟩)
    simp only [List.length_append]
    omega

theorem Enclosed.bounded {opening closing : Char} (hs : Enclosed opening closing Part as cs) :
    Enclosed opening closing (fun a part => Part a part ∧ part.length < cs.length) as cs := by
  cases hs with
  | none hgap => exact .none hgap
  | series hs =>
    refine .series (hs.bounded.imp fun _ _ h => ⟨h.1, ?_⟩)
    have := h.2
    simp only [List.length_append, List.length_cons, List.length_nil]
    omega

theorem Series.exists_cons (hs : Series Part as cs) : ∃ a as', as = a :: as' := by
  cases hs <;> exact ⟨_, _, rfl⟩

/-- Behind its opening bracket a series does not look like the end of an empty one. -/
theorem Series.skipSpace_eq {a : α} (h : ∀ part, Part a part →
      ∃ c tail, part = c :: tail ∧ isSpace c = false ∧ c ≠ ']' ∧ c ≠ '\x7d')
    (hs : Series Part (a :: as) cs) (rest : List Char) :
    ∃ c tail, skipSpace (cs ++ rest) = c :: tail ∧ c ≠ ']' ∧ c ≠ '\x7d' := by
  cases hs with
  | last hbefore hpart _ | cons hbefore hpart _ _ =>
    obtain ⟨c, tail, rfl, hc, hne⟩ := h _ hpart
    rw [List.append_assoc, List.cons_append, List.cons_append, skipSpace_append hbefore hc]
    exact ⟨c, _, rfl, hne⟩

end Series

/-! ## Arrays -/

section Elements

variable {α : Type} {read : List Char → Reading α} {as : List α} {cs : List Char}

theorem elementsFrom_append (h : Series (ReadsAs read) as cs) (rest : List Char) :
    elementsFrom read (cs ++ ']' :: rest) = .ok (as, rest) := by
  induction h with
  | last hbefore hpart hafter =>
    have hread := hpart.reads hbefore (ends_append hafter (.inr (.inl rfl)) rest)
    rw [elementsFrom]
    simp only [List.append_assoc, hread, skipSpace_append hafter (c := ']') rfl, if_true]
  | @cons _ as before part after more hbefore hpart hafter _ ih =>
    have hread := hpart.reads hbefore (ends_append hafter (.inl rfl) (more ++ ']' :: rest))
    have hlength : (more ++ ']' :: rest).length <
        (before ++ (part ++ (after ++ ',' :: (more ++ ']' :: rest)))).length := by
      simp only [List.length_append, List.length_cons]
      omega
    rw [elementsFrom]
    simp only [List.append_assoc, List.cons_append, hread, skipSpace_append hafter (c := ',') rfl,
      hlength, ih, Char.reduceEq, if_true, if_false]

theorem readsBehind_elements (h : Enclosed '[' ']' (ReadsAs read) as cs) :
    ReadsBehind '[' (elements read) as cs := by
  intro rest
  cases h with
  | none hgap =>
    refine ⟨_, rfl, ?_⟩
    rw [List.append_assoc, List.singleton_append, elements, skipSpace_append hgap rfl]
    rfl
  | @series _ cs hs =>
    refine ⟨_, rfl, ?_⟩
    obtain ⟨a, as, rfl⟩ := hs.exists_cons
    obtain ⟨c, tail, hskip, hne, -⟩ := hs.skipSpace_eq (fun _ h => h.starts) (']' :: rest)
    rw [List.append_assoc, List.singleton_append, elements, hskip]
    simp only [hne, if_false]
    exact elementsFrom_append hs rest

end Elements

/-! ## Objects -/

theorem key_append {name : String} {text gap : List Char} (h : WrittenString name text)
    (hgap : IsGap gap) (rest : List Char) : key (gap ++ (text ++ rest)) = .ok (name, rest) := by
  obtain ⟨tail, rfl, hstring⟩ := string_append h rest
  rw [List.cons_append, key, skipSpace_append hgap rfl]
  exact hstring

theorem colon_append {gap : List Char} (hgap : IsGap gap) (rest : List Char) :
    colon (gap ++ ':' :: rest) = .ok rest := by
  rw [colon, skipSpace_append hgap rfl]
  rfl

section Members

variable {σ μ : Type}

/-- A loop over the members of an object up to the brace behind them. Each member is read in the
state that the members before it lead to. -/
def LoopsOver (loop member : σ → List Char → Reading σ) : Prop :=
  ∀ state cs, loop state cs =
    match member state cs with
    | .error f => .error f
    | .ok (state, rest) =>
      match skipSpace rest with
      | [] => .error .truncated
      | c :: next =>
        if c = '\x7d' then .ok (state, next)
        else if c = ',' then
          if next.length < cs.length then loop state next else .error .malformed
        else .error .malformed

/-- An object behind its opening brace, with a loop for its members. -/
def objectWith (loop : σ → List Char → Reading σ) (state : σ) (cs : List Char) : Reading σ :=
  match skipSpace cs with
  | [] => .error .truncated
  | c :: rest => if c = '\x7d' then .ok (state, rest) else loop state cs

variable {loop read : σ → List Char → Reading σ} {Part : μ → List Char → Prop} {f : σ → μ → σ}
  {I : σ → List μ → Prop} {ms : List μ} {cs : List Char} {s : σ}

/-- Members are read one by one. What the state has to be for the members that are still to come is
kept up to date along the way. -/
theorem LoopsOver.append (hloop : LoopsOver loop read) (h : Series Part ms cs) (init : I s ms)
    (step : ∀ s m ms part, I s (m :: ms) → Part m part →
      ReadsAs (read s) (f s m) part ∧ I (f s m) ms) (rest : List Char) :
    loop s (cs ++ '\x7d' :: rest) = .ok (ms.foldl f s, rest) := by
  induction h generalizing s with
  | last hbefore hpart hafter =>
    have hends := ends_append hafter (.inr (.inr rfl)) rest
    have hread := (step _ _ _ _ init hpart).1.reads hbefore hends
    rw [hloop]
    simp only [List.append_assoc, hread, skipSpace_append hafter (c := '\x7d') rfl, if_true,
      List.foldl_cons, List.foldl_nil]
  | @cons _ ms before part after more hbefore hpart hafter _ ih =>
    obtain ⟨hreads, hnext⟩ := step _ _ _ _ init hpart
    have hread := hreads.reads hbefore (ends_append hafter (.inl rfl) (more ++ '\x7d' :: rest))
    have hlength : (more ++ '\x7d' :: rest).length <
        (before ++ (part ++ (after ++ ',' :: (more ++ '\x7d' :: rest)))).length := by
      simp only [List.length_append, List.length_cons]
      omega
    rw [hloop]
    simp only [List.append_assoc, List.cons_append, hread, skipSpace_append hafter (c := ',') rfl,
      hlength, ih hnext, Char.reduceEq, if_true, if_false, List.foldl_cons]

theorem LoopsOver.readsBehind (hloop : LoopsOver loop read)
    (h : Enclosed '\x7b' '\x7d' Part ms cs) (init : I s ms)
    (step : ∀ s m ms part, I s (m :: ms) → Part m part →
      ReadsAs (read s) (f s m) part ∧ I (f s m) ms) :
    ReadsBehind '\x7b' (objectWith loop s) (ms.foldl f s) cs := by
  intro rest
  cases h with
  | none hgap =>
    refine ⟨_, rfl, ?_⟩
    rw [List.append_assoc, List.singleton_append, objectWith, skipSpace_append hgap rfl]
    rfl
  | @series _ cs hs =>
    refine ⟨_, rfl, ?_⟩
    obtain ⟨m, ms, rfl⟩ := hs.exists_cons
    obtain ⟨c, tail, hskip, -, hne⟩ :=
      hs.skipSpace_eq (fun _ hpart => (step _ _ _ _ init hpart).1.starts) ('\x7d' :: rest)
    rw [List.append_assoc, List.singleton_append, objectWith, hskip]
    simp only [hne, if_false]
    exact hloop.append hs init step rest

/-! ### Members that are used -/

variable {accept : σ → String → Except Fault (List Char → Reading σ)}

/-- The reader of one member, its key and its value. -/
def member (accept : σ → String → Except Fault (List Char → Reading σ)) (state : σ)
    (cs : List Char) : Reading σ :=
  match key cs with
  | .error f => .error f
  | .ok (name, rest) =>
    match accept state name with
    | .error f => .error f
    | .ok read =>
      match colon rest with
      | .error f => .error f
      | .ok rest => read rest

theorem loopsOver_membersFrom : LoopsOver (membersFrom accept) (member accept) := by
  intro state cs
  rw [membersFrom, member]
  cases key cs with
  | error f => rfl
  | ok found =>
    simp only
    cases accept state found.1 with
    | error f => rfl
    | ok read =>
      simp only
      cases colon found.2 <;> rfl

theorem readsAs_member {s s' : σ} {name : String} {read : List Char → Reading σ}
    {Value : List Char → Prop} {part : List Char} (hread : accept s name = .ok read)
    (hvalue : ∀ value, Value value → ReadsAs read s' value)
    (h : Member (WrittenString name) Value part) : ReadsAs (member accept s) s' part := by
  obtain ⟨hkey, hbefore, hafter, h⟩ := h
  constructor
  · obtain ⟨parts, -, rfl⟩ := hkey
    exact ⟨'"', _, rfl, by decide⟩
  · intro gap rest hgap hends
    rw [List.append_assoc, List.append_assoc, List.cons_append, List.append_assoc, member,
      key_append hkey hgap]
    simp only [hread, colon_append hbefore]
    exact (hvalue _ h).reads hafter hends

theorem readsBehind_members (h : Enclosed '\x7b' '\x7d' Part ms cs) (init : I s ms)
    (step : ∀ s m ms part, I s (m :: ms) → Part m part →
      ReadsAs (member accept s) (f s m) part ∧ I (f s m) ms) :
    ReadsBehind '\x7b' (members accept s) (ms.foldl f s) cs :=
  loopsOver_membersFrom.readsBehind h init step

/-! ### Members that are not used -/

variable {skip : List Char → Reading Unit}

theorem loopsOver_skipMembersFrom :
    LoopsOver (fun _ => skipMembersFrom skip) (fun _ => skipMember skip) := by
  intro state cs
  simp only
  rw [skipMembersFrom]
  cases skipMember skip cs <;> rfl

theorem skipKey_append {text gap : List Char} (h : IsQuoted text) (hgap : IsGap gap)
    (rest : List Char) : skipKey (gap ++ (text ++ rest)) = .ok rest := by
  obtain ⟨tail, rfl, hskip⟩ := skipString_append h rest
  rw [List.cons_append, skipKey, skipSpace_append hgap rfl]
  exact hskip

theorem readsAs_skipMember {part : List Char} (h : Member IsQuoted (ReadsAs skip ()) part) :
    ReadsAs (skipMember skip) () part := by
  obtain ⟨hkey, hbefore, hafter, h⟩ := h
  constructor
  · obtain ⟨parts, -, rfl⟩ := hkey
    exact ⟨'"', _, rfl, by decide⟩
  · intro gap rest hgap hends
    rw [List.append_assoc, List.append_assoc, List.cons_append, List.append_assoc, skipMember,
      skipKey_append hkey hgap]
    simp only [colon_append hbefore]
    exact h.reads hafter hends

theorem readsBehind_skipMembers {count : List Unit}
    (h : Enclosed '\x7b' '\x7d' (fun _ => ReadsAs (skipMember skip) ()) count cs) :
    ReadsBehind '\x7b' (skipMembers skip) () cs :=
  loopsOver_skipMembersFrom.readsBehind (I := fun _ _ => True) (f := fun _ _ => ()) h trivial
    fun _ _ _ _ _ hpart => ⟨hpart, trivial⟩

end Members

end RowPolicy.Json
