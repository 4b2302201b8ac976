import ResultHints.Proofs.Text.CharSet
import ResultHints.Proofs.Token.First

/-!
# What tokens leave

A token takes characters from the beginning of a text: what it leaves is an end
of the text, and a proper one (`nextToken_suffix`). So the text of a token and what
follows it are the text before (`consumed_append`), and a token is never empty.
-/

namespace ResultHints

variable {text rest : List Char} {k : TokenKind}

/-! ## Numbers -/

theorem skipOne_suffix (p : Char → Bool) (text : List Char) : skipOne p text <:+ text := by
  cases text with
  | nil => exact List.suffix_rfl
  | cons c cs =>
    rw [skipOne]
    split
    · exact List.suffix_cons c cs
    · exact List.suffix_rfl

theorem afterIntegerSuffix_suffix (text : List Char) : afterIntegerSuffix text <:+ text :=
  (skipOne_suffix _ _).trans (skipOne_suffix _ _)

theorem afterFraction?_suffix (h : afterFraction? text = some rest) : rest <:+ text := by
  rw [afterFraction?.eq_def] at h
  split at h
  · split at h
    · obtain rfl := Option.some.inj h
      exact (List.dropWhile_suffix _).trans ((List.suffix_cons _ _).trans (List.suffix_cons _ _))
    · exact absurd h (by simp)
  · exact absurd h (by simp)

theorem afterExponentMark?_suffix (h : afterExponentMark? text = some rest) : rest <:+ text := by
  rw [afterExponentMark?.eq_def] at h
  split at h
  · split at h
    · obtain rfl := Option.some.inj h
      exact (skipOne_suffix _ _).trans (List.suffix_cons _ _)
    · exact absurd h (by simp)
  · exact absurd h (by simp)

theorem scanRadix_suffix (h : scanRadix text = .ok (k, rest)) : rest <:+ text := by
  rw [scanRadix] at h
  split at h
  · obtain ⟨_, rfl⟩ := Prod.mk.inj (Except.ok.inj h)
    exact (afterIntegerSuffix_suffix _).trans (List.dropWhile_suffix _)
  · exact absurd h (by simp)

theorem scanNumberEnd_suffix {isFloat : Bool} (h : scanNumberEnd isFloat text = .ok (k, rest)) :
    rest <:+ text := by
  have suffix : (if text.head?.any fun c => c == 'f' || c == 'F' then text.drop 1
      else if isFloat then text else afterIntegerSuffix text) <:+ text := by
    split
    · exact List.drop_suffix _ _
    · split
      · exact List.suffix_rfl
      · exact afterIntegerSuffix_suffix _
  simp only [scanNumberEnd] at h
  generalize (if text.head?.any fun c => c == 'f' || c == 'F' then text.drop 1
      else if isFloat then text else afterIntegerSuffix text) = s at h suffix
  split at h
  · exact absurd h (by simp)
  · exact (Prod.mk.inj (Except.ok.inj h)).2 ▸ suffix

/-- A number in base ten leaves an end of what follows its first digits. -/
theorem scanDecimal_suffix (h : scanDecimal text = .ok (k, rest)) :
    rest <:+ text.dropWhile isNumberPart := by
  have mantissa : (afterFraction? (text.dropWhile isNumberPart)).getD (text.dropWhile isNumberPart)
      <:+ text.dropWhile isNumberPart := by
    cases hf : afterFraction? (text.dropWhile isNumberPart) with
    | none => exact List.suffix_rfl
    | some rest => exact afterFraction?_suffix hf
  rw [scanDecimal] at h
  split at h
  · exact (scanNumberEnd_suffix h).trans mantissa
  · next digits he =>
    split at h
    · exact (scanNumberEnd_suffix h).trans ((List.dropWhile_suffix _).trans
        ((afterExponentMark?_suffix he).trans mantissa))
    · exact absurd h (by simp)

theorem scanNumber_suffix {c : Char} (hc : c.isDigit) (h : scanNumber (c :: text) = .ok (k, rest)) :
    rest <:+ text := by
  -- The digit that is first is passed with those that follow.
  have decimal : ∀ {s}, scanDecimal (c :: s) = .ok (k, rest) → rest <:+ s := by
    intro s hs
    have := scanDecimal_suffix hs
    rw [List.dropWhile_cons, if_pos (by rw [isNumberPart, hc, Bool.true_or])] at this
    exact this.trans (List.dropWhile_suffix _)
  rw [scanNumber.eq_def] at h
  split at h
  · next d digits e =>
    obtain ⟨rfl, rfl⟩ := List.cons.inj e
    split at h
    · exact (scanRadix_suffix h).trans (List.suffix_cons _ _)
    · exact decimal h
  · exact decimal h

/-! ## Characters, names and symbols -/

theorem afterHexDigits_suffix {n : Nat} (h : afterHexDigits n text = .ok rest) : rest <:+ text := by
  induction n generalizing text with
  | zero =>
    obtain rfl := Except.ok.inj h
    exact List.suffix_rfl
  | succ n ih =>
    cases text with
    | nil => exact absurd h (by simp [afterHexDigits])
    | cons c cs =>
      rw [afterHexDigits] at h
      split at h
      · exact (ih h).trans (List.suffix_cons c cs)
      · exact absurd h (by simp)

theorem afterCharacter_suffix (h : afterCharacter text = .ok rest) : rest <:+ text := by
  rw [afterCharacter.eq_def] at h
  split at h
  · exact (afterHexDigits_suffix h).trans ((List.suffix_cons _ _).trans (List.suffix_cons _ _))
  · split at h
    · exact absurd h (by simp)
    · obtain rfl := Except.ok.inj h
      exact (List.suffix_cons _ _).trans (List.suffix_cons _ _)
  · exact absurd h (by simp)
  · split at h
    · exact absurd h (by simp)
    · obtain rfl := Except.ok.inj h
      exact List.suffix_cons _ _
  · exact absurd h (by simp)

theorem scanNameEnd_suffix (text : List Char) : (scanNameEnd text).2 <:+ text := by
  rw [scanNameEnd.eq_def]
  split
  · exact List.suffix_cons _ _
  · exact List.suffix_rfl

theorem toBacktick_suffix (text : List Char) : toBacktick text <:+ text := List.dropWhile_suffix _

theorem scanQuotedName_suffix (h : scanQuotedName text = .ok (k, rest)) : rest <:+ text := by
  rw [scanQuotedName] at h
  split at h
  · next s e =>
    have : s <:+ text := (List.suffix_cons _ _).trans (e ▸ toBacktick_suffix text)
    have hr : (scanNameEnd s).2 = rest := congrArg Prod.snd (Except.ok.inj h)
    exact hr ▸ (scanNameEnd_suffix s).trans this
  · exact absurd h (by simp)

theorem scanWord_suffix {c : Char} (hc : isNameStart c) : (scanWord (c :: text)).2 <:+ text := by
  have word : (c :: text).dropWhile isNamePart <:+ text := by
    rw [List.dropWhile_cons, if_pos (isNamePart_of_isNameStart hc)]
    exact List.dropWhile_suffix _
  rw [scanWord]
  split
  · exact (scanNameEnd_suffix _).trans word
  · next e => exact e ▸ word
  · next e => exact (List.suffix_cons _ _).trans (e ▸ word)
  · exact word

theorem scanAt_suffix {afterJump : Bool} (h : scanAt afterJump text = .ok (k, rest)) :
    rest <:+ text := by
  simp only [scanAt.eq_def] at h
  generalize (if afterJump then TokenKind.labelReference else .annotationName) = kind at h
  split at h
  · next s =>
    split at h
    · next r e =>
      obtain ⟨_, rfl⟩ := Prod.mk.inj (Except.ok.inj h)
      have : '`' :: r <:+ s := e ▸ toBacktick_suffix s
      exact (List.suffix_cons _ _).trans (this.trans (List.suffix_cons _ _))
    · exact absurd h (by simp)
  · split at h
    · obtain ⟨_, rfl⟩ := Prod.mk.inj (Except.ok.inj h)
      exact (List.dropWhile_suffix _).trans (List.suffix_cons _ _)
    · exact absurd h (by simp)
  · exact absurd h (by simp)

theorem negatedWord?_eq_some {w : Keyword} (h : negatedWord? w text = some rest) :
    rest = text.drop w.spelling.toList.length := by
  simp only [negatedWord?] at h
  split at h
  · split at h
    · exact absurd h (by simp)
    · exact (Option.some.inj h).symm
  · exact absurd h (by simp)

theorem Symbol.length_spelling_pos (s : Symbol) : 0 < s.spelling.toList.length := by
  cases s <;> decide

theorem drop_cons_suffix {c : Char} {n : Nat} (hn : 0 < n) : (c :: text).drop n <:+ text := by
  obtain ⟨n, rfl⟩ := Nat.exists_eq_succ_of_ne_zero (Nat.ne_of_gt hn)
  exact List.drop_suffix n text

theorem scanSymbol_suffix {c : Char} (h : scanSymbol c (c :: text) = .ok (k, rest)) :
    rest <:+ text := by
  rw [scanSymbol] at h
  split at h
  · next e =>
    obtain ⟨_, rfl⟩ := Prod.mk.inj (Except.ok.inj h)
    exact negatedWord?_eq_some e ▸ drop_cons_suffix (by decide)
  · next e =>
    obtain ⟨_, rfl⟩ := Prod.mk.inj (Except.ok.inj h)
    exact negatedWord?_eq_some e ▸ drop_cons_suffix (by decide)
  · obtain ⟨_, rfl⟩ := Prod.mk.inj (Except.ok.inj h)
    exact drop_cons_suffix (Symbol.length_spelling_pos _)
  · exact absurd h (by simp)

/-! ## Comments and strings -/

theorem commentEnd_suffix {depth : Nat} (h : commentEnd depth text = some rest) :
    rest <:+ text := by
  fun_induction commentEnd depth text with
  | case1 s => exact Option.some.inj h ▸ (List.suffix_cons _ _).trans (List.suffix_cons _ _)
  | case2 s depth ih => exact (ih h).trans ((List.suffix_cons _ _).trans (List.suffix_cons _ _))
  | case3 depth s ih => exact (ih h).trans ((List.suffix_cons _ _).trans (List.suffix_cons _ _))
  | case4 depth c s _ _ ih => exact (ih h).trans (List.suffix_cons _ _)
  | case5 => exact absurd h (by simp)

section Steps

/-! One step of `stringEnd`, for each kind of place. -/

variable {start : List Char} {outer : List Enclosure} {c : Char}

theorem stringEnd_quotes_break (text : List Char) :
    stringEnd (.quotes start) outer ('\n' :: text) = .error start := rfl

theorem stringEnd_backslash (d : Char) (text : List Char) :
    stringEnd (.quotes start) outer ('\\' :: d :: text) =
      if d = '\n' then .error start else stringEnd (.quotes start) outer text := rfl

theorem stringEnd_quotes_cons (hquote : c ≠ '\"') (hbreak : c ≠ '\n') (hslash : c ≠ '\\')
    (hdollar : ∀ tail, c = '$' → text ≠ '\x7b' :: tail) :
    stringEnd (.quotes start) outer (c :: text) = stringEnd (.quotes start) outer text := by
  rw [stringEnd.eq_def]
  dsimp only
  rw [if_neg hquote, if_neg hbreak]
  split
  · exact (hslash rfl).elim
  · exact (hslash rfl).elim
  · exact (hdollar _ rfl rfl).elim
  · rfl

theorem stringEnd_tripleQuotes_quote {run : Nat} :
    stringEnd (.tripleQuotes run start) outer ('\"' :: text) =
      if 2 ≤ run ∧ text.head? ≠ some '\"' then match outer with
        | [] => .ok text
        | e :: outer => stringEnd e outer text
      else stringEnd (.tripleQuotes (run + 1) start) outer text := rfl

theorem stringEnd_tripleQuotes_cons {run : Nat} (hquote : c ≠ '\"')
    (hdollar : ∀ tail, c = '$' → text ≠ '\x7b' :: tail) :
    stringEnd (.tripleQuotes run start) outer (c :: text) =
      stringEnd (.tripleQuotes 0 start) outer text := by
  rw [stringEnd.eq_def]
  dsimp only
  rw [if_neg hquote]
  split
  · exact (hdollar _ rfl rfl).elim
  · rfl

/-- In a template, a quote opens a string in single quotes unless two more follow. -/
theorem stringEnd_template_quote {depth : Nat} (h : ∀ inside, text ≠ '\"' :: '\"' :: inside) :
    stringEnd (.template depth start) outer ('\"' :: text) =
      stringEnd (.quotes ('\"' :: text)) (.template depth start :: outer) text := by
  rw [stringEnd.eq_def]
  dsimp only
  rw [if_neg (by decide), if_neg (by decide)]
  split
  · exact (h _ rfl).elim
  · rfl
  · next hother _ => exact (hother rfl).elim

theorem stringEnd_template_cons {depth : Nat} (hopen : c ≠ '\x7b') (hclose : c ≠ '\x7d')
    (hquote : c ≠ '\"') :
    stringEnd (.template depth start) outer (c :: text) =
      stringEnd (.template depth start) outer text := by
  rw [stringEnd.eq_def]
  dsimp only
  rw [if_neg hopen, if_neg hclose]
  split
  · exact (hquote rfl).elim
  · exact (hquote rfl).elim
  · rfl

end Steps

/-- A string takes a character at least. -/
theorem stringEnd_suffix_tail {e : Enclosure} {outer : List Enclosure}
    (h : stringEnd e outer text = .ok rest) : rest <:+ text.tail := by
  -- The cases go by how many characters are passed before the rest is looked at again.
  fun_induction stringEnd e outer text with
  | case1 | case4 | case5 | case6 => exact absurd h (by simp)
  | case2 | case10 | case16 => exact Except.ok.inj h ▸ List.suffix_rfl
  | case7 | case8 | case13 =>
    rename_i ih
    exact ((ih h).trans (List.tail_suffix _)).trans (List.suffix_cons _ _)
  | case19 =>
    rename_i ih
    exact ((ih h).trans (List.tail_suffix _)).trans
      ((List.suffix_cons _ _).trans (List.suffix_cons _ _))
  | _ =>
    rename_i ih
    exact (ih h).trans (List.tail_suffix _)

theorem stringEnd_suffix {e : Enclosure} {outer : List Enclosure}
    (h : stringEnd e outer text = .ok rest) : rest <:+ text :=
  (stringEnd_suffix_tail h).trans (List.tail_suffix _)

theorem scanBlockComment_suffix (h : scanBlockComment text = .ok (k, rest)) : rest <:+ text :=
  commentEnd_suffix (scanBlockComment_eq_ok.1 h).2

theorem scanString_suffix {e : Enclosure} (h : scanString e text = .ok (k, rest)) :
    rest <:+ text :=
  stringEnd_suffix (scanString_eq_ok.1 h).2

/-! ## All tokens -/

/-- What a token leaves is an end of the text without its first character. -/
theorem nextToken_suffix {afterJump : Bool} {c : Char}
    (h : nextToken afterJump c text = .ok (k, rest)) : rest <:+ text := by
  cases firstToken_of_nextToken h with
  | blank => exact List.dropWhile_suffix _
  | lineComment => exact (List.dropWhile_suffix _).trans (List.suffix_cons _ _)
  | blockComment h => exact (commentEnd_suffix h).trans (List.suffix_cons _ _)
  | tripleQuotes h =>
    exact (stringEnd_suffix h).trans ((List.suffix_cons _ _).trans (List.suffix_cons _ _))
  | quotes _ h => exact stringEnd_suffix h
  | character h => exact (List.suffix_cons _ _).trans (afterCharacter_suffix h)
  | quotedName h => exact scanQuotedName_suffix h
  | atSign h => exact scanAt_suffix h
  | number hc h => exact scanNumber_suffix hc h
  | word hc h =>
    have hsuffix : (scanWord (c :: text)).2 <:+ text := scanWord_suffix hc
    rwa [h] at hsuffix
  | symbol h => exact scanSymbol_suffix h

/-- What is taken, and what is left, are the text again. -/
theorem consumed_append (h : rest <:+ text) : consumed text rest ++ rest = text := by
  obtain ⟨taken, rfl⟩ := h
  rw [consumed, List.length_append, Nat.add_sub_cancel, List.take_left' rfl]

/-- A token takes its first character. -/
theorem consumed_cons_ne_nil {c : Char} (h : rest <:+ text) : consumed (c :: text) rest ≠ [] := by
  intro hnil
  have e := consumed_append (h.trans (List.suffix_cons c text))
  rw [hnil, List.nil_append] at e
  have := h.length_le
  rw [e, List.length_cons] at this
  omega

end ResultHints
