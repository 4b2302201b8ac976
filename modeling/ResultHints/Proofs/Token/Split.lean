import ResultHints.Proofs.Token.Cut
import ResultHints.Proofs.Token.Lossless

/-!
# Places between tokens

A text may be cut behind every token (`tokenize_append`): the tokens of what stands before the
cut are those up to it, and the tokens of what stands behind are those from there on. Only one
thing crosses a cut, for the token behind it: an `@` refers to a label if a jump stands right
before it (`nextToken_unlabelled`).
-/

namespace ResultHints

variable {text rest : List Char} {k : TokenKind} {c : Char} {afterJump : Bool}
  {ts before after : List Token} {limit n : Nat}

/-! ## Labels -/

/-- The kind that a token has where no token that takes a label stands right before it. -/
def TokenKind.unlabelled : TokenKind → TokenKind
  | labelReference => annotationName
  | k => k

/-- The tokens where no token that takes a label stands right before them. -/
def firstUnlabelled : List Token → List Token
  | [] => []
  | t :: ts => { t with kind := t.kind.unlabelled } :: ts

@[simp] theorem TokenKind.takesLabel_unlabelled (k : TokenKind) :
    k.unlabelled.takesLabel = k.takesLabel := by
  cases k <;> rfl

/-- Only what an `@` begins depends on the token before it. -/
theorem nextToken_eq_of_ne_at (hc : c ≠ '@') (afterJump : Bool) (text : List Char) :
    nextToken afterJump c text = nextToken false c text := by
  rw [nextToken.eq_def, nextToken.eq_def]
  split
  · rfl
  · split <;> first | rfl | exact absurd rfl hc

/-- What an `@` does not begin is no reference to a label. -/
theorem unlabelled_of_ne_at (hc : c ≠ '@') (h : nextToken afterJump c text = .ok (k, rest)) :
    k.unlabelled = k := by
  cases firstToken_of_nextToken h with
  | blank | lineComment | blockComment | tripleQuotes | quotes | character => rfl
  | quotedName h => obtain rfl | rfl := kind_of_scanQuotedName h <;> rfl
  | atSign => exact absurd rfl hc
  | number _ h =>
    obtain rfl | rfl := kind_of_scanNumber h <;> rfl
  | word _ h =>
    obtain rfl | rfl | ⟨word, rfl⟩ := kind_of_scanWord h <;> rfl
  | symbol h => obtain ⟨word, rfl⟩ | ⟨mark, rfl⟩ := kind_of_scanSymbol h <;> rfl

/-- What stands before a text tells whether it begins with a reference to a label, and nothing
    else. -/
theorem nextToken_unlabelled (h : nextToken afterJump c text = .ok (k, rest)) :
    nextToken false c text = .ok (k.unlabelled, rest) := by
  by_cases hc : c = '@'
  · subst hc
    obtain ⟨rfl, hname⟩ := scanAt_eq_ok.1 (show scanAt afterJump text = _ from h)
    exact scanAt_eq_ok.2 ⟨by cases afterJump <;> rfl, hname⟩
  · rw [unlabelled_of_ne_at hc h, ← nextToken_eq_of_ne_at hc afterJump, h]

theorem tokensFrom_unlabelled (h : tokensFrom limit afterJump n text = (ts, none)) :
    tokensFrom limit false n text = (firstUnlabelled ts, none) := by
  cases limit with
  | zero =>
    obtain ⟨rfl, -⟩ := Prod.mk.inj h
    rfl
  | succ limit =>
    cases text with
    | nil =>
      obtain ⟨rfl, -⟩ := Prod.mk.inj h
      rfl
    | cons c text =>
      obtain ⟨k, rest, us, hk, hus, rfl⟩ := tokensFrom_cons.1 h
      exact tokensFrom_cons.2 ⟨k.unlabelled, rest, us, nextToken_unlabelled hk,
        by rwa [TokenKind.takesLabel_unlabelled], rfl⟩

/-! ## Places between tokens -/

theorem start_eq_of_tokensFrom {t : Token}
    (h : tokensFrom limit afterJump n text = (t :: ts, none)) : t.start = n := by
  cases limit with
  | zero => cases (Prod.mk.inj h).1
  | succ limit =>
    cases text with
    | nil => cases (Prod.mk.inj h).1
    | cons c text =>
      obtain ⟨k, rest, us, -, -, heq⟩ := tokensFrom_cons.1 h
      rw [(List.cons.inj heq).1]

/-- Tokens further behind in a text are those of the text alone, shifted. -/
theorem exists_tokensFrom_of_shift {limit' d : Nat} (hl : text.length ≤ limit)
    (hl' : text.length ≤ limit') (h : tokensFrom limit afterJump (n + d) text = (ts, none)) :
    ∃ us, tokensFrom limit' afterJump n text = (us, none) ∧ us.map (Token.shift d) = ts := by
  induction ts generalizing text limit limit' afterJump n with
  | nil =>
    obtain rfl := tokensFrom_nil_inv hl h
    exact ⟨[], by cases limit' <;> rfl, rfl⟩
  | cons t ts ih =>
    have hstart := start_eq_of_tokensFrom h
    obtain ⟨c, taken, rest, limit, rfl, htext, hnext, hl, hrest⟩ := tokensFrom_inv hl h
    rw [List.cons_append, List.length_cons, List.length_append] at hl'
    obtain ⟨limit', rfl⟩ : ∃ l, limit' = l + 1 := ⟨limit' - 1, by omega⟩
    rw [Nat.add_right_comm] at hrest
    have hroom : rest.length ≤ limit' := by omega
    obtain ⟨us, hus, hshift⟩ := ih hl hroom hrest
    refine ⟨_, tokensFrom_intro hnext (htext ▸ hus), ?_⟩
    rw [List.map_cons, hshift, ← htext, Token.shift, ← hstart]

/-- Tokens are those of the text before a place between them, and those behind it. -/
theorem tokensFrom_append (hl : text.length ≤ limit)
    (h : tokensFrom limit afterJump n text = (before ++ after, none)) :
    ∃ front back, text = front ++ back ∧
      (∀ c tail, front = c :: tail → ∃ afterJump k rest,
        nextToken afterJump c (tail ++ back) = .ok (k, rest ++ back)) ∧
      (∀ limit', front.length ≤ limit' → tokensFrom limit' afterJump n front = (before, none)) ∧
      ∃ limit' afterJump', back.length ≤ limit' ∧
        tokensFrom limit' afterJump' (n + byteLength front) back = (after, none) := by
  induction before generalizing text limit afterJump n with
  | nil =>
    exact ⟨[], text, rfl, by simp, fun limit' _ => by cases limit' <;> rfl, limit, afterJump, hl, h⟩
  | cons t before ih =>
    have hstart := start_eq_of_tokensFrom h
    obtain ⟨c, taken, rest, limit, rfl, htext, hnext, hl, hrest⟩ := tokensFrom_inv hl h
    obtain ⟨front, back, rfl, hfirst, hfront, limit', afterJump', hl', hback⟩ := ih hl hrest
    rw [← List.append_assoc] at hnext
    refine ⟨c :: taken ++ front, back, (List.append_assoc ..).symm, ?_, fun limit'' hl'' => ?_,
      limit', afterJump', hl', ?_⟩
    · intro d tail heq
      obtain ⟨rfl, rfl⟩ := List.cons.inj heq
      exact ⟨afterJump, t.kind, front, hnext⟩
    · rw [List.cons_append, List.length_cons, List.length_append] at hl''
      obtain ⟨limit'', rfl⟩ : ∃ l, limit'' = l + 1 := ⟨limit'' - 1, by omega⟩
      have hroom : front.length ≤ limit'' := by omega
      -- What comes next ends before the place as well, unless the place is the end.
      have hhere : nextToken afterJump c (taken ++ front) = .ok (t.kind, front) := by
        cases back with
        | nil => simpa using hnext
        | cons b more => exact nextToken_of_append hnext hfirst
      exact (tokensFrom_intro hhere (htext ▸ hfront limit'' hroom)).trans
        (by rw [← htext, ← hstart])
    · rw [byteLength_append, ← htext, ← Nat.add_assoc]
      exact hback

/-- A text may be cut after every token: its tokens up to the place, and from there on, are those
    of the two texts, but for a reference to a label that stands first in the second one. -/
theorem tokenize_append {source : List Char} (h : tokenize source = .ok (before ++ after)) :
    ∃ front back, source = front ++ back ∧
      (∀ t ∈ before.getLast?, t.stop = byteLength front) ∧ tokenize front = .ok before ∧
      ∃ us, tokenize back = .ok us ∧
        us.map (Token.shift (byteLength front)) = firstUnlabelled after := by
  obtain ⟨front, back, rfl, -, hfront, limit, afterJump, hl, hback⟩ :=
    tokensFrom_append (Nat.le_refl _) (tokenize_eq_ok.1 h)
  have hbefore : tokenize front = .ok before := tokenize_eq_ok.2 (hfront _ (Nat.le_refl _))
  obtain ⟨us, hus, hshift⟩ :=
    exists_tokensFrom_of_shift hl (Nat.le_refl _) (tokensFrom_unlabelled hback)
  refine ⟨front, back, rfl, fun t ht => ?_, hbefore, us, tokenize_eq_ok.2 hus, hshift⟩
  rw [(tiling_of_tokenize hbefore).stop_of_getLast? ht, Nat.zero_add]

/-- Behind a jump, a label becomes the name of an annotation. -/
theorem tokenize_append_return : ∃ front back, "return@a".toList = front ++ back ∧
    (∀ t ∈ [(⟨.keyword .return_, 0, "return".toList⟩ : Token)].getLast?,
      t.stop = byteLength front) ∧
    tokenize front = .ok [⟨.keyword .return_, 0, "return".toList⟩] ∧
    ∃ us, tokenize back = .ok us ∧ us.map (Token.shift (byteLength front)) =
      [⟨.annotationName, 6, "@a".toList⟩] := by
  have h : tokenize "return@a".toList = .ok ([⟨.keyword .return_, 0, "return".toList⟩] ++
      [⟨.labelReference, 6, "@a".toList⟩]) := by decide +kernel
  exact tokenize_append h

end ResultHints
