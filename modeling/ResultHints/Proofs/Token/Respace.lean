import ResultHints.Proofs.Token.Join

/-!
# Other white space

Where other white space stands in a text in the place of each token of white space, with a
line feed where that one has one, the tokens are the same but for that (`tokenize_respaced`):
no other token goes over a blank, and none looks behind one for its end.
-/

namespace ResultHints

/-- The text is that of the tokens, with other white space in the place of each token of white
    space: not empty, with a line feed where that one has one, and with the line feed first after
    a comment that ends with its line. `afterLine` tells whether such a comment stands before the
    tokens. -/
inductive Respaced : (afterLine : Bool) → List Token → List Char → Prop
  | nil {afterLine : Bool} : Respaced afterLine [] []
  | keep {afterLine : Bool} {t : Token} {ts : List Token} {rest : List Char} :
    t.kind ≠ .trivia .blank → Respaced (t.kind == .trivia .lineComment) ts rest →
    Respaced afterLine (t :: ts) (t.text ++ rest)
  | blank {afterLine : Bool} {t : Token} {ts : List Token} {gap rest : List Char} :
    t.kind = .trivia .blank → gap ≠ [] → (∀ c ∈ gap, isBlank c) →
    ('\n' ∈ gap ↔ '\n' ∈ t.text) → (afterLine → gap.head? = some '\n') →
    Respaced false ts rest → Respaced afterLine (t :: ts) (gap ++ rest)

/-- The tokens are the same, but for the text of white space, in which a line feed stands in both
    or in none. -/
structure Token.Alike (t t' : Token) : Prop where
  kind : t'.kind = t.kind
  text : t.kind ≠ .trivia .blank → t'.text = t.text
  hasBreak : '\n' ∈ t'.text ↔ '\n' ∈ t.text

theorem Token.Alike.symm {t t' : Token} (h : t.Alike t') : t'.Alike t :=
  ⟨h.kind.symm, fun hk => (h.text (h.kind ▸ hk)).symm, h.hasBreak.symm⟩

theorem Token.Alike.contains_eq {t t' : Token} (h : t.Alike t') :
    t'.text.contains '\n' = t.text.contains '\n' := by
  rw [Bool.eq_iff_iff, List.contains_iff_mem, List.contains_iff_mem]
  exact h.hasBreak

variable {text text' rest rest' : List Char} {afterLine afterJump : Bool} {ts ts' : List Token}
  {limit limit' n n' : Nat}

/-- In the texts of such tokens, line feeds stand in both or in none. -/
theorem mem_flatMap_text_iff (h : List.Forall₂ Token.Alike ts ts') :
    '\n' ∈ ts'.flatMap Token.text ↔ '\n' ∈ ts.flatMap Token.text := by
  induction h with
  | nil => rfl
  | cons ht _ ih =>
    rw [List.flatMap_cons, List.flatMap_cons, List.mem_append, List.mem_append, ht.hasBreak, ih]

/-! ## One token -/

/-- Tokens that were not stopped before their text ended: the first one, and those after it. -/
theorem tokensFrom_inv {t : Token} (hl : text.length ≤ limit)
    (h : tokensFrom limit afterJump n text = (t :: ts, none)) :
    ∃ c taken rest limit', text = c :: taken ++ rest ∧ t.text = c :: taken ∧
      nextToken afterJump c (taken ++ rest) = .ok (t.kind, rest) ∧ rest.length ≤ limit' ∧
      tokensFrom limit' t.kind.takesLabel (n + byteLength t.text) rest = (ts, none) := by
  cases text with
  | nil => cases limit <;> cases (Prod.mk.inj h).1
  | cons c cs =>
    obtain ⟨limit, rfl⟩ : ∃ l, limit = l + 1 := ⟨limit - 1, by simp at hl; omega⟩
    obtain ⟨k, rest, us, hk, hus, heq⟩ := tokensFrom_cons.1 h
    obtain ⟨rfl, rfl⟩ := List.cons.inj heq
    have hsuffix := nextToken_suffix hk
    have hlen := hsuffix.length_le
    obtain ⟨taken, rfl⟩ := hsuffix
    rw [List.length_cons] at hl
    rw [← List.cons_append, consumed_append_left] at hus ⊢
    exact ⟨c, taken, rest, limit, rfl, rfl, hk, by omega, hus⟩

theorem tokensFrom_intro {k : TokenKind} {c : Char} {taken : List Char}
    (h : nextToken afterJump c (taken ++ rest) = .ok (k, rest))
    (hrest : tokensFrom limit k.takesLabel (n + byteLength (c :: taken)) rest = (ts, none)) :
    tokensFrom (limit + 1) afterJump n (c :: taken ++ rest) = (⟨k, n, c :: taken⟩ :: ts, none) := by
  have htaken : consumed (c :: (taken ++ rest)) rest = c :: taken :=
    consumed_append_left (c :: taken) rest
  rw [List.cons_append, tokensFrom_cons]
  exact ⟨k, rest, ts, h, by rwa [htaken], by rw [htaken]⟩

theorem tokensFrom_nil_inv (hl : text.length ≤ limit)
    (h : tokensFrom limit afterJump n text = ([], none)) : text = [] := by
  cases text with
  | nil => rfl
  | cons c cs =>
    obtain ⟨limit, rfl⟩ : ∃ l, limit = l + 1 := ⟨limit - 1, by simp at hl; omega⟩
    obtain ⟨k, rest, us, -, -, heq⟩ := tokensFrom_cons.1 h
    cases heq

/-- Both texts are the same up to the first white space. -/
theorem Respaced.cut (h : Respaced afterLine ts text') (hl : text.length ≤ limit)
    (htokens : tokensFrom limit afterJump n text = (ts, none))
    (hline : afterLine → ∀ d ∈ text.head?, d = '\n') :
    text' = text ∨ ∃ front b more b' more', text = front ++ b :: more ∧
      text' = front ++ b' :: more' ∧ isBlank b ∧ isBlank b' ∧
      (afterLine → b = '\n' ∧ b' = '\n') := by
  induction h generalizing text limit afterJump n with
  | nil => exact .inl (tokensFrom_nil_inv hl htokens).symm
  | @keep afterLine t ts rest' hk _ ih =>
    obtain ⟨c, taken, rest, limit', rfl, htext, hnext, hl', hrest⟩ := tokensFrom_inv hl htokens
    have hafter : ¬afterLine := by
      intro hafter
      obtain rfl := hline hafter c rfl
      rw [nextToken_of_isBlank (by decide)] at hnext
      exact hk (Prod.mk.inj (Except.ok.inj hnext)).1.symm
    rw [htext]
    obtain rfl | ⟨front, b, more, b', more', rfl, rfl, hb, hb', -⟩ :=
      ih hl' hrest fun hcomment => head?_of_lineComment (beq_iff_eq.1 hcomment ▸ hnext)
    · exact .inl rfl
    · exact .inr ⟨c :: taken ++ front, b, more, b', more', by rw [List.append_assoc],
        by rw [List.append_assoc], hb, hb', fun h => absurd h hafter⟩
  | @blank afterLine t ts gap rest' hk hne hgap _ hhead _ _ =>
    obtain ⟨c, taken, rest, limit', rfl, htext, hnext, -, -⟩ := tokensFrom_inv hl htokens
    obtain ⟨b', gap, rfl⟩ := List.exists_cons_of_ne_nil hne
    rw [hk] at hnext
    refine .inr ⟨[], c, taken ++ rest, b', gap ++ rest', rfl, rfl, (nextToken_blank hnext).1,
      hgap b' List.mem_cons_self, fun hafter => ⟨hline hafter c rfl, ?_⟩⟩
    exact Option.some.inj (hhead hafter)

/-- What is no white space is the first token where other white space follows it as well. -/
theorem nextToken_respaced {k : TokenKind} {c : Char} {taken : List Char}
    (h : nextToken afterJump c (taken ++ rest) = .ok (k, rest)) (hk : k ≠ .trivia .blank)
    (hl : rest.length ≤ limit) (hrest : tokensFrom limit k.takesLabel n rest = (ts, none))
    (hspaced : Respaced (k == .trivia .lineComment) ts rest') :
    nextToken afterJump c (taken ++ rest') = .ok (k, rest') := by
  obtain rfl | ⟨front, b, more, b', more', rfl, rfl, hb, hb', hline⟩ :=
    hspaced.cut hl hrest fun hcomment => head?_of_lineComment (beq_iff_eq.1 hcomment ▸ h)
  · exact h
  · have hblank : k = .trivia .blank → front ≠ [] := fun h => absurd h hk
    rw [← List.append_assoc] at h ⊢
    rw [nextToken_append_iff hb hblank fun hk => (hline (beq_iff_eq.2 hk)).1] at h
    rwa [nextToken_append_iff hb' hblank fun hk => (hline (beq_iff_eq.2 hk)).2]

/-- Where no white space comes first, both texts begin with the same character. -/
theorem Respaced.head?_eq (h : Respaced afterLine ts text') (hl : text.length ≤ limit)
    (htokens : tokensFrom limit afterJump n text = (ts, none))
    (hplain : ∀ d ∈ text.head?, isBlank d = false) : text'.head? = text.head? := by
  cases h with
  | nil => rw [tokensFrom_nil_inv hl htokens]
  | keep _ _ =>
    obtain ⟨c, taken, rest, limit', rfl, htext, -⟩ := tokensFrom_inv hl htokens
    rw [htext]
    rfl
  | blank hk _ _ _ _ _ =>
    obtain ⟨c, taken, rest, limit', rfl, -, hnext, -⟩ := tokensFrom_inv hl htokens
    rw [hk] at hnext
    have hc := hplain c rfl
    rw [(nextToken_blank hnext).1] at hc
    cases hc

/-! ## All tokens -/

theorem tokensFrom_respaced (h : Respaced afterLine ts text') (hl : text.length ≤ limit)
    (hl' : text'.length ≤ limit') (htokens : tokensFrom limit afterJump n text = (ts, none)) :
    ∃ ts', tokensFrom limit' afterJump n' text' = (ts', none) ∧
      List.Forall₂ Token.Alike ts ts' := by
  induction h generalizing text limit limit' afterJump n n' with
  | nil => exact ⟨[], by cases limit' <;> rfl, .nil⟩
  | @keep afterLine t ts rest' hk hspaced ih =>
    obtain ⟨c, taken, rest, limit, rfl, htext, hnext, hl, hrest⟩ := tokensFrom_inv hl htokens
    rw [htext, List.cons_append, List.length_cons, List.length_append] at hl'
    obtain ⟨limit', rfl⟩ : ∃ l, limit' = l + 1 := ⟨limit' - 1, by omega⟩
    have hroom : rest'.length ≤ limit' := by omega
    obtain ⟨ts', hts', halike⟩ := ih hl hroom hrest
    rw [htext]
    exact ⟨_, tokensFrom_intro (nextToken_respaced hnext hk hl hrest hspaced) hts',
      .cons ⟨rfl, fun _ => htext.symm, by rw [htext]⟩ halike⟩
  | @blank afterLine t ts gap rest' hk hne hgap hbreak _ hspaced ih =>
    obtain ⟨c, taken, rest, limit, rfl, htext, hnext, hl, hrest⟩ := tokensFrom_inv hl htokens
    obtain ⟨b, gap, rfl⟩ := List.exists_cons_of_ne_nil hne
    rw [List.cons_append, List.length_cons, List.length_append] at hl'
    obtain ⟨limit', rfl⟩ : ∃ l, limit' = l + 1 := ⟨limit' - 1, by omega⟩
    have hroom : rest'.length ≤ limit' := by omega
    obtain ⟨ts', hts', halike⟩ := ih hl hroom hrest
    rw [hk] at hnext
    -- The white space ends in both texts where the same character comes next.
    have hplain : ∀ d ∈ rest.head?, isBlank d = false := by
      intro d hd
      have hstop := List.head?_dropWhile_not isBlank (taken ++ rest)
      rw [← (nextToken_blank hnext).2, Option.mem_def.1 hd] at hstop
      simpa using hstop
    have hhead := hspaced.head?_eq hl hrest hplain
    have hthere : nextToken afterJump b (gap ++ rest') = .ok (.trivia .blank, rest') := by
      rw [nextToken_of_isBlank (hgap b List.mem_cons_self), ← List.cons_append,
        List.dropWhile_append_of_pos hgap]
      cases rest' with
      | nil => rfl
      | cons d rest' =>
        rw [List.dropWhile_cons_of_neg (by simp [hplain d (Option.mem_def.2 hhead.symm)])]
    exact ⟨_, tokensFrom_intro hthere (hk ▸ hts'),
      .cons ⟨hk.symm, fun h => absurd hk h, hbreak⟩ halike⟩

/-- The tokens of a text with other white space. -/
theorem tokenize_respaced {source source' : List Char} {tokens : List Token}
    (h : tokenize source = .ok tokens) (hspaced : Respaced false tokens source') :
    ∃ tokens', tokenize source' = .ok tokens' ∧ List.Forall₂ Token.Alike tokens tokens' := by
  rw [tokenize_eq_ok] at h
  obtain ⟨tokens', htokens', halike⟩ :=
    tokensFrom_respaced hspaced (Nat.le_refl _) (Nat.le_refl _) h
  exact ⟨tokens', tokenize_eq_ok.2 htokens', halike⟩

end ResultHints
