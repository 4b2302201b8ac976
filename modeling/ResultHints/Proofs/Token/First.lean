import ResultHints.Token.Stream

/-!
# The first token

Which part of the scanner reads the token that a text begins with (`FirstToken`), and which
kinds of tokens each part gives. Main statements:

- `firstToken_of_nextToken`: the part is told by what the text begins with;
- `scanNumber_of_nextToken`: a token that is a number was read as one.
-/

namespace ResultHints

variable {text rest : List Char} {k : TokenKind} {afterJump : Bool} {c : Char}

/-! ## What is enclosed -/

theorem scanBlockComment_eq_ok :
    scanBlockComment text = .ok (k, rest) ↔
      k = .trivia .blockComment ∧ commentEnd 0 text = some rest := by
  rw [scanBlockComment]
  split
  · next h => simp [h, eq_comm]
  · next h => simp [h]

theorem scanString_eq_ok {e : Enclosure} :
    scanString e text = .ok (k, rest) ↔
      k = .literal .string ∧ stringEnd e [] text = .ok rest := by
  rw [scanString]
  split
  · next h => simp [h, eq_comm]
  · next h => simp [h]

theorem scanCharacter_eq_ok :
    scanCharacter text = .ok (k, rest) ↔
      k = .literal .char ∧ afterCharacter text = .ok ('\'' :: rest) := by
  rw [scanCharacter]
  split
  · next h => simp [h, eq_comm]
  · next hno h => simpa [h] using fun _ => hno rest
  · next h => simp [h]

theorem scanQuotedName_eq_ok :
    scanQuotedName text = .ok (k, rest) ↔
      ∃ after, toBacktick text = '`' :: after ∧ scanNameEnd after = (k, rest) := by
  rw [scanQuotedName]
  split
  · next h => simp [h]
  · next hno =>
    refine iff_of_false (by simp) ?_
    rintro ⟨after, h, -⟩
    exact hno after h

/-! ## Kinds -/

theorem kind_of_scanNumberEnd {isFloat : Bool} (h : scanNumberEnd isFloat text = .ok (k, rest)) :
    k = .literal .integer ∨ k = .literal .float := by
  simp only [scanNumberEnd] at h
  generalize (if text.head?.any fun c => c == 'f' || c == 'F' then text.drop 1
      else if isFloat then text else afterIntegerSuffix text) = after at h
  split at h <;> cases h
  split
  · exact .inr rfl
  · exact .inl rfl

theorem kind_of_scanNumber (h : scanNumber text = .ok (k, rest)) :
    k = .literal .integer ∨ k = .literal .float := by
  have decimal {text : List Char} (h : scanDecimal text = .ok (k, rest)) :
      k = .literal .integer ∨ k = .literal .float := by
    simp only [scanDecimal] at h
    split at h
    · exact kind_of_scanNumberEnd h
    · split at h
      · exact kind_of_scanNumberEnd h
      · cases h
  rw [scanNumber.eq_def] at h
  split at h
  · split at h
    · rw [scanRadix] at h
      split at h <;> cases h
      exact .inl rfl
    · exact decimal h
  · exact decimal h

theorem kind_of_scanAt (h : scanAt afterJump text = .ok (k, rest)) :
    k = .labelReference ∨ k = .annotationName := by
  rw [scanAt.eq_def] at h
  cases afterJump <;> dsimp only at h <;> split at h <;> (try split at h) <;> cases h
  all_goals first | exact .inl rfl | exact .inr rfl

theorem kind_of_scanNameEnd (h : scanNameEnd text = (k, rest)) :
    k = .identifier ∨ k = .labelDefinition := by
  rw [scanNameEnd.eq_def] at h
  split at h <;> cases h
  · exact .inr rfl
  · exact .inl rfl

theorem kind_of_scanQuotedName (h : scanQuotedName text = .ok (k, rest)) :
    k = .identifier ∨ k = .labelDefinition := by
  obtain ⟨after, -, hend⟩ := scanQuotedName_eq_ok.1 h
  exact kind_of_scanNameEnd hend

theorem kind_of_scanWord (h : scanWord text = (k, rest)) :
    k = .identifier ∨ k = .labelDefinition ∨ ∃ word, k = .keyword word := by
  rw [scanWord] at h
  split at h
  · exact (kind_of_scanNameEnd h).imp_right .inl
  all_goals
    cases h
    exact .inr (.inr ⟨_, rfl⟩)

/-- A symbol and a negated word have a fixed spelling. -/
theorem kind_of_scanSymbol (h : scanSymbol c text = .ok (k, rest)) :
    (∃ word, k = .keyword word) ∨ ∃ mark, k = .symbol mark := by
  rw [scanSymbol] at h
  split at h <;> cases h
  · exact .inl ⟨_, rfl⟩
  · exact .inl ⟨_, rfl⟩
  · exact .inr ⟨_, rfl⟩

/-! ## All tokens -/

/-- How the token is read that the text `c :: text` begins with: what tells it, and which part of
    the scanner takes it from there. -/
inductive FirstToken (afterJump : Bool) :
    (c : Char) → (text : List Char) → TokenKind → (rest : List Char) → Prop
  | blank {c : Char} {text : List Char} : isBlank c →
    FirstToken afterJump c text (.trivia .blank) (text.dropWhile isBlank)
  | lineComment {text : List Char} :
    FirstToken afterJump '/' ('/' :: text) (.trivia .lineComment) (text.dropWhile (· != '\n'))
  | blockComment {text rest : List Char} : commentEnd 0 text = some rest →
    FirstToken afterJump '/' ('*' :: text) (.trivia .blockComment) rest
  | tripleQuotes {inside rest : List Char} :
    stringEnd (.tripleQuotes 0 ('\"' :: '\"' :: '\"' :: inside)) [] inside = .ok rest →
    FirstToken afterJump '\"' ('\"' :: '\"' :: inside) (.literal .string) rest
  | quotes {text rest : List Char} : (∀ inside, text ≠ '\"' :: '\"' :: inside) →
    stringEnd (.quotes ('\"' :: text)) [] text = .ok rest →
    FirstToken afterJump '\"' text (.literal .string) rest
  | character {text rest : List Char} : afterCharacter text = .ok ('\'' :: rest) →
    FirstToken afterJump '\'' text (.literal .char) rest
  | quotedName {text rest : List Char} {k : TokenKind} : scanQuotedName text = .ok (k, rest) →
    FirstToken afterJump '`' text k rest
  | atSign {text rest : List Char} {k : TokenKind} : scanAt afterJump text = .ok (k, rest) →
    FirstToken afterJump '@' text k rest
  | number {c : Char} {text rest : List Char} {k : TokenKind} : c.isDigit →
    scanNumber (c :: text) = .ok (k, rest) → FirstToken afterJump c text k rest
  | word {c : Char} {text rest : List Char} {k : TokenKind} : isNameStart c →
    scanWord (c :: text) = (k, rest) → FirstToken afterJump c text k rest
  | symbol {c : Char} {text rest : List Char} {k : TokenKind} :
    scanSymbol c (c :: text) = .ok (k, rest) → FirstToken afterJump c text k rest

theorem firstToken_of_nextToken
    (h : nextToken afterJump c text = .ok (k, rest)) : FirstToken afterJump c text k rest := by
  rw [nextToken.eq_def] at h
  split at h
  · next hblank =>
    obtain ⟨rfl, rfl⟩ := Prod.mk.inj (Except.ok.inj h)
    exact .blank hblank
  · split at h
    · obtain ⟨rfl, rfl⟩ := Prod.mk.inj (Except.ok.inj h)
      exact .lineComment
    · obtain ⟨rfl, hend⟩ := scanBlockComment_eq_ok.1 h
      exact .blockComment hend
    · obtain ⟨rfl, hend⟩ := scanString_eq_ok.1 h
      exact .tripleQuotes hend
    · next hquotes =>
      obtain ⟨rfl, hend⟩ := scanString_eq_ok.1 h
      exact .quotes hquotes hend
    · obtain ⟨rfl, hend⟩ := scanCharacter_eq_ok.1 h
      exact .character hend
    · exact .quotedName h
    · exact .atSign h
    · split at h
      · exact .number ‹_› h
      · split at h
        · exact .word ‹_› (Except.ok.inj h)
        · exact .symbol h

/-- A number is read as such. -/
theorem scanNumber_of_nextToken (hk : k = .literal .integer ∨ k = .literal .float)
    (h : nextToken afterJump c text = .ok (k, rest)) :
    c.isDigit ∧ scanNumber (c :: text) = .ok (k, rest) := by
  cases firstToken_of_nextToken h with
  | number hc h => exact ⟨hc, h⟩
  | blank | lineComment | blockComment | tripleQuotes | quotes | character => simp at hk
  | quotedName h => obtain rfl | rfl := kind_of_scanQuotedName h <;> simp at hk
  | atSign h => obtain rfl | rfl := kind_of_scanAt h <;> simp at hk
  | word _ h => obtain rfl | rfl | ⟨word, rfl⟩ := kind_of_scanWord h <;> simp at hk
  | symbol h => obtain ⟨word, rfl⟩ | ⟨mark, rfl⟩ := kind_of_scanSymbol h <;> simp at hk

end ResultHints
