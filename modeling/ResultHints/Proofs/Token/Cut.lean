import ResultHints.Proofs.Token.Name

/-!
# Tokens before a cut

A text is cut behind a token. Whether the token is still the first one of the text before the
cut is not told by the token alone, for its end may have been found by what comes behind the cut:
`as` takes a question mark along unless a point follows, and `!in` is no token where a name goes
on. But then the cut is inside the token that comes next. Main statements:

- `scanWord_of_append`, `scanSymbol_of_append`: the two sorts of tokens that look behind what
  follows them, and where the cut must not be;
- `nextToken_of_append`: the first token is the same before the cut, if the next one ends before
  the cut as well.
-/

namespace ResultHints

variable {text rest more : List Char} {k : TokenKind} {b c : Char}

/-! ## Several characters -/

/-- Where a text is taken apart before the place that is left, what follows the place is not
    looked at. -/
theorem exists_of_append_eq (taken : List Char) {tail : List Char}
    (h : text ++ b :: more = taken ++ tail)
    (hrest : rest ++ b :: more <:+ tail) :
    ∃ after, text = taken ++ after ∧ tail = after ++ b :: more ∧ rest <:+ after := by
  obtain ⟨front, rfl⟩ := hrest
  rw [← List.append_assoc, ← List.append_assoc] at h
  refine ⟨front ++ rest, ?_, (List.append_assoc ..).symm, List.suffix_append _ _⟩
  rw [← List.append_assoc]
  exact List.append_cancel_right h

theorem eq_append_of_append_eq (taken : List Char)
    (h : text ++ b :: more = taken ++ (rest ++ b :: more)) : text = taken ++ rest := by
  rw [← List.append_assoc] at h
  exact List.append_cancel_right h

theorem exists_of_suffix_append {tail : List Char} (h : tail <:+ text ++ b :: more)
    (hrest : rest ++ b :: more <:+ tail) : ∃ after, tail = after ++ b :: more := by
  obtain ⟨taken, h⟩ := h
  obtain ⟨after, -, htail, -⟩ := exists_of_append_eq taken h.symm hrest
  exact ⟨after, htail⟩

theorem eq_nil_of_append_suffix {tail : List Char} (h : tail = rest ++ b :: more)
    (htail : tail <:+ b :: more) : rest = [] := by
  have hle := htail.length_le
  rw [h] at hle
  rw [List.length_append] at hle
  exact List.eq_nil_of_length_eq_zero (by omega)

section Characters

variable {p : Char → Bool}

theorem dropWhile_of_append (h : (text ++ b :: more).dropWhile p = rest ++ b :: more) :
    text.dropWhile p = rest := by
  rw [List.dropWhile_append] at h
  split at h
  · next hall =>
    rw [List.isEmpty_iff.1 hall, eq_nil_of_append_suffix h (List.dropWhile_suffix p)]
  · exact List.append_cancel_right h

theorem takeWhile_of_append (h : (text ++ b :: more).dropWhile p = rest ++ b :: more) :
    (text ++ b :: more).takeWhile p = text.takeWhile p := by
  have hwhole := List.takeWhile_append_dropWhile (p := p) (l := text ++ b :: more)
  have htext := List.takeWhile_append_dropWhile (p := p) (l := text)
  rw [dropWhile_of_append h] at htext
  rw [h, ← List.append_assoc] at hwhole
  exact List.append_cancel_right ((List.append_cancel_right hwhole).trans htext.symm)

theorem any_head?_of_append (h : (text ++ b :: more).head?.any p)
    (hrest : rest ++ b :: more <:+ (text ++ b :: more).dropWhile p) : text.head?.any p := by
  cases text with
  | nil =>
    have hb : p b := h
    rw [List.nil_append, List.dropWhile_cons_of_pos hb] at hrest
    exact absurd (hrest.trans (List.dropWhile_suffix p)) (not_append_cons_suffix rest)
  | cons c text => exact h

theorem any_head?_eq_false_of_append (h : (text ++ b :: more).head?.any p = false) :
    text.head?.any p = false := by
  cases text with
  | nil => rfl
  | cons c text => exact h

theorem skipOne_of_append (h : skipOne p (text ++ b :: more) = rest ++ b :: more) :
    skipOne p text = rest := by
  cases text with
  | nil =>
    rw [eq_nil_of_append_suffix h (skipOne_suffix p (b :: more)), skipOne]
  | cons c text =>
    rw [List.cons_append, skipOne] at h
    rw [skipOne]
    split at h
    · rw [if_pos ‹_›, List.append_cancel_right h]
    · rw [← List.cons_append] at h
      rw [if_neg ‹_›, List.append_cancel_right h]

end Characters

/-! ## Numbers -/

theorem afterIntegerSuffix_of_append
    (h : afterIntegerSuffix (text ++ b :: more) = rest ++ b :: more) :
    afterIntegerSuffix text = rest := by
  rw [afterIntegerSuffix] at h
  obtain ⟨after, hafter⟩ :=
    exists_of_suffix_append (skipOne_suffix _ _) (h ▸ skipOne_suffix _ _)
  rw [hafter] at h
  rw [afterIntegerSuffix, skipOne_of_append hafter, skipOne_of_append h]

theorem afterFraction?_eq_some :
    afterFraction? text = some rest ↔
      ∃ c tail, text = ['.', c] ++ tail ∧ c.isDigit ∧ tail.dropWhile isNumberPart = rest := by
  rw [afterFraction?.eq_def]
  split
  · next c tail =>
    split <;> simp_all
  · next hno =>
    refine iff_of_false (by simp) ?_
    rintro ⟨c, tail, rfl, -⟩
    exact hno c tail rfl

theorem afterFraction?_of_append
    (h : afterFraction? (text ++ b :: more) = some (rest ++ b :: more)) :
    afterFraction? text = some rest := by
  obtain ⟨c, tail, heq, hc, htail⟩ := afterFraction?_eq_some.1 h
  obtain ⟨after, rfl, rfl, -⟩ := exists_of_append_eq _ heq (htail ▸ List.dropWhile_suffix _)
  exact afterFraction?_eq_some.2 ⟨c, after, rfl, hc, dropWhile_of_append htail⟩

theorem afterFraction?_eq_none_of_append (h : afterFraction? (text ++ b :: more) = none) :
    afterFraction? text = none := by
  rw [Option.eq_none_iff_forall_ne_some] at h ⊢
  intro rest hrest
  obtain ⟨c, tail, rfl, hc, -⟩ := afterFraction?_eq_some.1 hrest
  exact h _ (afterFraction?_eq_some.2 ⟨c, tail ++ b :: more, List.append_assoc .., hc, rfl⟩)

theorem afterExponentMark?_eq_some :
    afterExponentMark? text = some rest ↔
      ∃ c tail, text = [c] ++ tail ∧ (c == 'e' || c == 'E') ∧
        skipOne (fun c => c == '+' || c == '-') tail = rest := by
  cases text with
  | nil => simp [afterExponentMark?]
  | cons c tail =>
    rw [afterExponentMark?]
    split <;> simp_all

theorem afterExponentMark?_of_append
    (h : afterExponentMark? (text ++ b :: more) = some (rest ++ b :: more)) :
    afterExponentMark? text = some rest := by
  obtain ⟨c, tail, heq, hc, htail⟩ := afterExponentMark?_eq_some.1 h
  obtain ⟨after, rfl, rfl, -⟩ := exists_of_append_eq _ heq (htail ▸ skipOne_suffix _ _)
  exact afterExponentMark?_eq_some.2 ⟨c, after, rfl, hc, skipOne_of_append htail⟩

theorem afterExponentMark?_eq_none_of_append (h : afterExponentMark? (text ++ b :: more) = none) :
    afterExponentMark? text = none := by
  rw [Option.eq_none_iff_forall_ne_some] at h ⊢
  intro rest hrest
  obtain ⟨c, tail, rfl, hc, -⟩ := afterExponentMark?_eq_some.1 hrest
  exact h _ (afterExponentMark?_eq_some.2 ⟨c, tail ++ b :: more, List.append_assoc .., hc, rfl⟩)

theorem scanRadix_of_append (h : scanRadix (text ++ b :: more) = .ok (k, rest ++ b :: more)) :
    scanRadix text = .ok (k, rest) := by
  simp only [scanRadix] at h ⊢
  split at h
  · next hdigits =>
    obtain ⟨rfl, hsuffix⟩ := Prod.mk.inj (Except.ok.inj h)
    have hrest := hsuffix ▸ afterIntegerSuffix_suffix _
    obtain ⟨after, hafter⟩ := exists_of_suffix_append (List.dropWhile_suffix _) hrest
    rw [if_pos (any_head?_of_append hdigits hrest), dropWhile_of_append hafter]
    rw [hafter] at hsuffix
    rw [afterIntegerSuffix_of_append hsuffix]
  · cases h

theorem scanNumberEnd_eq_ok {isFloat hasMark : Bool}
    (hmark : (text.head?.any fun c => c == 'f' || c == 'F') = hasMark) :
    scanNumberEnd isFloat text = .ok (k, rest) ↔
      .literal (if isFloat || hasMark then .float else .integer) = k ∧
        (if hasMark then text.drop 1 else if isFloat then text else afterIntegerSuffix text) =
          rest ∧ rest.head?.any isNamePart = false := by
  subst hmark
  simp only [scanNumberEnd]
  generalize (if text.head?.any fun c => c == 'f' || c == 'F' then text.drop 1
      else if isFloat then text else afterIntegerSuffix text) = after
  cases hname : after.head?.any isNamePart with
  | true =>
    refine iff_of_false (by simp) ?_
    rintro ⟨-, rfl, hplain⟩
    rw [hname] at hplain
    cases hplain
  | false =>
    rw [if_neg (by simp), Except.ok.injEq, Prod.mk.injEq]
    refine and_congr_right fun _ => (and_iff_left_of_imp ?_).symm
    rintro rfl
    exact hname

theorem scanNumberEnd_of_append {isFloat : Bool}
    (h : scanNumberEnd isFloat (text ++ b :: more) = .ok (k, rest ++ b :: more)) :
    scanNumberEnd isFloat text = .ok (k, rest) := by
  cases hmark : (text ++ b :: more).head?.any fun c => c == 'f' || c == 'F' with
  | true =>
    obtain ⟨hk, hrest, hname⟩ := (scanNumberEnd_eq_ok hmark).1 h
    rw [if_pos rfl] at hrest
    have hname := any_head?_eq_false_of_append hname
    cases text with
    | nil => exact (not_append_cons_suffix rest ⟨[], hrest.symm⟩).elim
    | cons c text =>
      obtain rfl : text = rest := List.append_cancel_right (show text ++ b :: more = _ from hrest)
      have hmark : ((c :: text).head?.any fun c => c == 'f' || c == 'F') = true := hmark
      exact (scanNumberEnd_eq_ok hmark).2 ⟨hk, rfl, hname⟩
  | false =>
    obtain ⟨hk, hrest, hname⟩ := (scanNumberEnd_eq_ok hmark).1 h
    refine (scanNumberEnd_eq_ok (any_head?_eq_false_of_append hmark)).2
      ⟨hk, ?_, any_head?_eq_false_of_append hname⟩
    cases isFloat with
    | true => exact List.append_cancel_right hrest
    | false => exact afterIntegerSuffix_of_append hrest

/-- A number in base ten: its fraction, its exponent, and what ends it. -/
theorem scanDecimal_eq_ok :
    scanDecimal text = .ok (k, rest) ↔ ∃ mantissa,
      (afterFraction? (text.dropWhile isNumberPart)).getD (text.dropWhile isNumberPart) =
        mantissa ∧
      (afterExponentMark? mantissa = none ∧
          scanNumberEnd (afterFraction? (text.dropWhile isNumberPart)).isSome mantissa =
            .ok (k, rest) ∨
        ∃ digits, afterExponentMark? mantissa = some digits ∧ digits.head?.any Char.isDigit ∧
          scanNumberEnd true (digits.dropWhile Char.isDigit) = .ok (k, rest)) := by
  simp only [scanDecimal, exists_eq_left']
  split
  · next hnone => simp [hnone]
  · next digits hsome => split <;> simp_all

theorem scanDecimal_of_append (h : scanDecimal (text ++ b :: more) = .ok (k, rest ++ b :: more)) :
    scanDecimal text = .ok (k, rest) := by
  obtain ⟨whole, hwhole⟩ := exists_of_suffix_append (List.dropWhile_suffix _) (scanDecimal_suffix h)
  obtain ⟨_, rfl, hend⟩ := scanDecimal_eq_ok.1 h
  rw [hwhole] at hend
  rw [scanDecimal_eq_ok, dropWhile_of_append hwhole]
  -- The mantissa ends before the cut, for what is left begins behind it.
  have hsuffix : rest ++ b :: more <:+
      (afterFraction? (whole ++ b :: more)).getD (whole ++ b :: more) := by
    obtain ⟨-, hnumber⟩ | ⟨digits, hdigits, -, hnumber⟩ := hend
    · exact scanNumberEnd_suffix hnumber
    · exact (scanNumberEnd_suffix hnumber).trans
        ((List.dropWhile_suffix _).trans (afterExponentMark?_suffix hdigits))
  obtain ⟨mantissa, hmantissa, hisSome, htext⟩ : ∃ mantissa,
      (afterFraction? (whole ++ b :: more)).getD (whole ++ b :: more) = mantissa ++ b :: more ∧
      (afterFraction? (whole ++ b :: more)).isSome = (afterFraction? whole).isSome ∧
      (afterFraction? whole).getD whole = mantissa := by
    cases hfraction : afterFraction? (whole ++ b :: more) with
    | none =>
      rw [afterFraction?_eq_none_of_append hfraction]
      exact ⟨whole, rfl, rfl, rfl⟩
    | some mantissa =>
      rw [hfraction] at hsuffix
      obtain ⟨after, rfl⟩ := exists_of_suffix_append (afterFraction?_suffix hfraction) hsuffix
      rw [afterFraction?_of_append hfraction]
      exact ⟨after, rfl, rfl, rfl⟩
  rw [hmantissa, hisSome] at hend
  refine ⟨mantissa, htext, hend.imp ?_ ?_⟩
  · rintro ⟨hnone, hnumber⟩
    exact ⟨afterExponentMark?_eq_none_of_append hnone, scanNumberEnd_of_append hnumber⟩
  · rintro ⟨digits, hdigits, hhead, hnumber⟩
    have hrest := scanNumberEnd_suffix hnumber
    obtain ⟨after, rfl⟩ := exists_of_suffix_append (afterExponentMark?_suffix hdigits)
      (hrest.trans (List.dropWhile_suffix _))
    obtain ⟨last, hlast⟩ := exists_of_suffix_append (List.dropWhile_suffix _) hrest
    refine ⟨after, afterExponentMark?_of_append hdigits, any_head?_of_append hhead hrest, ?_⟩
    rw [dropWhile_of_append hlast]
    rw [hlast] at hnumber
    exact scanNumberEnd_of_append hnumber

theorem scanNumber_of_append (h : scanNumber (text ++ b :: more) = .ok (k, rest ++ b :: more)) :
    scanNumber text = .ok (k, rest) := by
  generalize hwhole : text ++ b :: more = whole at h
  rw [scanNumber.eq_def] at h
  split at h
  · next c digits =>
    split at h
    · next hc =>
      obtain ⟨after, rfl, rfl, -⟩ :=
        exists_of_append_eq ['0', c] hwhole (scanRadix_suffix h)
      rw [List.cons_append, List.cons_append, scanNumber, if_pos hc]
      exact scanRadix_of_append h
    · next hc =>
      rw [← hwhole] at h
      have hdecimal := scanDecimal_of_append h
      rw [scanNumber.eq_def]
      split
      · cases hwhole
        rw [if_neg hc, hdecimal]
      · exact hdecimal
  · next hother =>
    subst hwhole
    have hdecimal := scanDecimal_of_append h
    rw [scanNumber.eq_def]
    split
    · exact (hother _ _ rfl).elim
    · exact hdecimal

/-! ## Characters, names and symbols -/

theorem afterHexDigits_of_append {n : Nat}
    (h : afterHexDigits n (text ++ b :: more) = .ok (rest ++ b :: more)) :
    afterHexDigits n text = .ok rest := by
  induction n generalizing text with
  | zero => exact congrArg Except.ok (List.append_cancel_right (Except.ok.inj h))
  | succ n ih =>
    cases text with
    | nil =>
      rw [List.nil_append, afterHexDigits] at h
      split at h
      · exact (not_append_cons_suffix rest (afterHexDigits_suffix h)).elim
      · cases h
    | cons c text =>
      rw [List.cons_append, afterHexDigits] at h
      rw [afterHexDigits]
      split at h
      · rw [if_pos ‹_›]
        exact ih h
      · cases h

theorem afterCharacter_of_append
    (h : afterCharacter (text ++ b :: more) = .ok (rest ++ b :: more)) :
    afterCharacter text = .ok rest := by
  generalize hwhole : text ++ b :: more = whole at h
  rw [afterCharacter.eq_def] at h
  split at h
  · obtain ⟨after, rfl, rfl, -⟩ :=
      exists_of_append_eq ['\\', 'u'] hwhole (afterHexDigits_suffix h)
    exact afterHexDigits_of_append h
  · next c tail hu =>
    split at h <;> cases h
    obtain rfl := eq_append_of_append_eq ['\\', c] hwhole
    rw [List.cons_append, List.cons_append, List.nil_append, afterCharacter, if_neg ‹_›]
    rintro rfl
    exact hu rfl
  · cases h
  · next c tail _ hbackslash _ =>
    split at h <;> cases h
    obtain rfl := eq_append_of_append_eq [c] hwhole
    rw [List.cons_append, List.nil_append, afterCharacter_of_ne _ rest, if_neg ‹_›]
    rintro rfl
    cases rest with
    | nil => exact hbackslash _ _ rfl rfl
    | cons d rest => exact hbackslash _ _ rfl rfl
  · cases h

theorem scanCharacter_of_append
    (h : scanCharacter (text ++ b :: more) = .ok (k, rest ++ b :: more)) :
    scanCharacter text = .ok (k, rest) := by
  rw [scanCharacter_eq_ok, ← List.cons_append] at h
  exact scanCharacter_eq_ok.2 ⟨h.1, afterCharacter_of_append h.2⟩


theorem scanNameEnd_of_append (h : scanNameEnd (text ++ b :: more) = (k, rest ++ b :: more)) :
    scanNameEnd text = (k, rest) := by
  generalize hwhole : text ++ b :: more = whole at h
  rw [scanNameEnd.eq_def] at h
  split at h
  · obtain ⟨rfl, rfl⟩ := Prod.mk.inj h
    obtain rfl := eq_append_of_append_eq ['@'] hwhole
    rfl
  · next hat =>
    obtain ⟨rfl, rfl⟩ := Prod.mk.inj h
    obtain rfl : text = rest := List.append_cancel_right hwhole
    rw [scanNameEnd.eq_def]
    split
    · exact (hat _ rfl).elim
    · rfl

theorem scanQuotedName_of_append
    (h : scanQuotedName (text ++ b :: more) = .ok (k, rest ++ b :: more)) :
    scanQuotedName text = .ok (k, rest) := by
  obtain ⟨after, hafter, hend⟩ := scanQuotedName_eq_ok.1 h
  have hrest := scanNameEnd_suffix after
  rw [hend] at hrest
  obtain ⟨after, rfl⟩ := exists_of_suffix_append
    ((List.suffix_cons '`' after).trans (hafter ▸ toBacktick_suffix _)) hrest
  exact scanQuotedName_eq_ok.2
    ⟨after, (toBacktick_append_iff _ _).1 hafter, scanNameEnd_of_append hend⟩

theorem eq_of_scanNameEnd (h : scanNameEnd text = (k, rest)) :
    text = rest ∨ text = '@' :: rest := by
  rw [scanNameEnd.eq_def] at h
  split at h <;> cases h
  · exact .inr rfl
  · exact .inl rfl

/-- A word takes its name characters, and may take a mark behind them. -/
theorem dropWhile_of_scanWord (h : scanWord text = (k, rest)) :
    text.dropWhile isNamePart = rest ∨ text.dropWhile isNamePart = '@' :: rest ∨
      text.dropWhile isNamePart = '?' :: rest := by
  rw [scanWord] at h
  generalize text.dropWhile isNamePart = after at h
  split at h
  · exact (eq_of_scanNameEnd h).imp_right .inl
  · exact .inl (Prod.mk.inj h).2
  · exact .inr (.inr (congrArg _ (Prod.mk.inj h).2))
  · exact .inl (Prod.mk.inj h).2

theorem scanWord_suffix_dropWhile (text : List Char) :
    (scanWord text).2 <:+ text.dropWhile isNamePart := by
  obtain h | h | h := dropWhile_of_scanWord (rfl : scanWord text = _)
  · exact h ▸ List.suffix_rfl
  · exact h ▸ List.suffix_cons _ _
  · exact h ▸ List.suffix_cons _ _

/-- Of the keywords, only `as` takes a mark along. -/
theorem scanWord_of_keyword {word : Keyword}
    (hword : Keyword.ofWord? (text.takeWhile isNamePart) = some word) :
    scanWord text =
      if word = .as_ ∧ (text.dropWhile isNamePart).head? = some '?' ∧
          (text.dropWhile isNamePart).tail.head? ≠ some '.' then
        (.keyword .asSafe, (text.dropWhile isNamePart).tail)
      else (.keyword word, text.dropWhile isNamePart) := by
  rw [scanWord, hword]
  generalize text.dropWhile isNamePart = after
  by_cases hsafe : word = .as_
  · subst hsafe
    rcases after with _ | ⟨c, _ | ⟨d, after⟩⟩
    · rfl
    · by_cases hc : c = '?'
      · subst hc
        rfl
      · simp [hc]
    · by_cases hc : c = '?'
      · subst hc
        by_cases hd : d = '.'
        · subst hd
          rfl
        · simp [hd]
      · simp [hc]
  · simp [hsafe]

/-- The word that a text begins with does not depend on what comes behind a cut after it, unless
    the cut is behind the mark of a `?.`, which the keyword `as` would take along. -/
theorem scanWord_of_append (h : scanWord (text ++ b :: more) = (k, rest ++ b :: more))
    (hmark : rest = ['?'] → b ≠ '.') : scanWord text = (k, rest) := by
  have hrest := scanWord_suffix_dropWhile (text ++ b :: more)
  rw [h] at hrest
  obtain ⟨after, hafter⟩ := exists_of_suffix_append (List.dropWhile_suffix _) hrest
  cases hword : Keyword.ofWord? (text.takeWhile isNamePart) with
  | none =>
    rw [scanWord, takeWhile_of_append hafter, hafter, hword] at h
    rw [scanWord, dropWhile_of_append hafter, hword]
    exact scanNameEnd_of_append h
  | some word =>
    rw [scanWord_of_keyword ((takeWhile_of_append hafter).symm ▸ hword), hafter] at h
    rw [scanWord_of_keyword hword, dropWhile_of_append hafter]
    split at h
    · next hsafe =>
      obtain ⟨hword, hhead, htail⟩ := hsafe
      obtain ⟨rfl, hlast⟩ := Prod.mk.inj h
      cases after with
      | nil => exact (not_append_cons_suffix rest ⟨[], hlast.symm⟩).elim
      | cons c after =>
        obtain rfl : after = rest := List.append_cancel_right hlast
        refine if_pos ⟨hword, hhead, fun hdot => htail ?_⟩
        rw [List.tail_cons] at hdot
        rw [List.cons_append, List.tail_cons, List.head?_append, hdot, Option.some_or]
    · next hplain =>
      obtain ⟨rfl, hlast⟩ := Prod.mk.inj h
      obtain rfl : after = rest := List.append_cancel_right hlast
      refine if_neg fun hsafe => hplain ⟨hsafe.1, ?_, ?_⟩
      · rw [List.head?_append, hsafe.2.1, Option.some_or]
      · rcases after with _ | ⟨c, _ | ⟨d, after⟩⟩
        · cases hsafe.2.1
        · obtain rfl : c = '?' := Option.some.inj hsafe.2.1
          exact fun hb => hmark rfl (Option.some.inj hb)
        · exact hsafe.2.2

theorem scanAt_eq_ok {afterJump : Bool} :
    scanAt afterJump text = .ok (k, rest) ↔
      (if afterJump then .labelReference else .annotationName) = k ∧
        ((∃ tail, text = ['`'] ++ tail ∧ toBacktick tail = '`' :: rest) ∨
          ∃ c tail, text = [c] ++ tail ∧ isNameStart c ∧ tail.dropWhile isNamePart = rest) := by
  cases text with
  | nil => simp [scanAt]
  | cons c text =>
    by_cases hc : c = '`'
    · subst hc
      have hplain : isNameStart '`' = false := by decide
      rw [scanAt]
      split
      · next hquote => simp [hquote, hplain]
      · next hquote => simpa [hplain] using fun _ => hquote rest
    · rw [scanAt]
      · split <;> simp_all
      · simp [hc]

theorem scanAt_of_append {afterJump : Bool}
    (h : scanAt afterJump (text ++ b :: more) = .ok (k, rest ++ b :: more)) :
    scanAt afterJump text = .ok (k, rest) := by
  obtain ⟨hk, ⟨tail, heq, htail⟩ | ⟨c, tail, heq, hc, htail⟩⟩ := scanAt_eq_ok.1 h
  · obtain ⟨after, rfl, rfl, -⟩ := exists_of_append_eq _ heq
      ((List.suffix_cons '`' _).trans (htail ▸ toBacktick_suffix tail))
    exact scanAt_eq_ok.2 ⟨hk, .inl ⟨after, rfl, (toBacktick_append_iff _ _).1 htail⟩⟩
  · obtain ⟨after, rfl, rfl, -⟩ := exists_of_append_eq _ heq (htail ▸ List.dropWhile_suffix _)
    exact scanAt_eq_ok.2 ⟨hk, .inr ⟨c, after, rfl, hc, dropWhile_of_append htail⟩⟩

theorem negatedWord?_eq_some_iff {word : Keyword} :
    negatedWord? word text = some rest ↔
      text = word.spelling.toList ++ rest ∧ rest.head?.any isNamePart = false := by
  rw [negatedWord?]
  split
  · next hprefix =>
    obtain ⟨tail, rfl⟩ := List.isPrefixOf_iff_prefix.1 hprefix
    rw [List.drop_left, List.append_cancel_left_eq]
    dsimp only
    split
    · next hname =>
      refine iff_of_false (by simp) ?_
      rintro ⟨rfl, hplain⟩
      rw [hname] at hplain
      cases hplain
    · next hname =>
      rw [Option.some.injEq]
      refine (and_iff_left_of_imp ?_).symm
      rintro rfl
      exact Bool.eq_false_iff.2 hname
  · next hprefix =>
    refine iff_of_false (by simp) ?_
    rintro ⟨rfl, -⟩
    exact hprefix (List.isPrefixOf_iff_prefix.2 (List.prefix_append _ _))

/-- A negated word that a cut makes ends at the cut, and the name went on behind it. -/
theorem negatedWord?_of_append_eq_none {word : Keyword} {tail : List Char}
    (h : negatedWord? word (text ++ b :: more) = none)
    (htail : negatedWord? word text = some tail) :
    text = word.spelling.toList ∧ isNamePart b := by
  obtain ⟨rfl, hplain⟩ := negatedWord?_eq_some_iff.1 htail
  rw [Option.eq_none_iff_forall_ne_some] at h
  have hname : ¬(tail ++ b :: more).head?.any isNamePart = false := fun hname =>
    h _ (negatedWord?_eq_some_iff.2 ⟨List.append_assoc .., hname⟩)
  cases tail with
  | nil => exact ⟨List.append_nil _, by simpa using hname⟩
  | cons d tail => exact (hname hplain).elim

/-- A longest symbol that ends before a cut is the longest symbol without what comes behind. -/
theorem leading?_of_append {mark : Symbol}
    (h : Symbol.leading? (mark.spelling.toList ++ rest ++ more) = some mark) :
    Symbol.leading? (mark.spelling.toList ++ rest) = some mark := by
  rw [Symbol.leading?, List.find?_eq_some_iff_append] at h ⊢
  obtain ⟨-, longer, shorter, hmarks, hlonger⟩ := h
  refine ⟨List.isPrefixOf_iff_prefix.2 (List.prefix_append _ _), longer, shorter, hmarks, ?_⟩
  intro s hs
  have hno := hlonger s hs
  rw [Bool.not_eq_true', Bool.eq_false_iff, ne_eq, List.isPrefixOf_iff_prefix] at hno ⊢
  exact fun hstart => hno (hstart.trans (List.prefix_append _ _))

/-- The symbol that a text begins with does not depend on what comes behind a cut after it, unless
    the cut is behind the beginning of a name that would be a negated word. -/
theorem scanSymbol_of_append
    (h : scanSymbol c (text ++ b :: more) = .ok (k, rest ++ b :: more))
    (hword : rest = ['i', 's'] ∨ rest = ['i', 'n'] → isNamePart b = false) :
    scanSymbol c text = .ok (k, rest) := by
  have negated {word : Keyword}
      (h : negatedWord? word (text ++ b :: more) = some (rest ++ b :: more)) :
      text = word.spelling.toList ++ rest ∧ negatedWord? word text = some rest := by
    obtain ⟨heq, hplain⟩ := negatedWord?_eq_some_iff.1 h
    have htext := eq_append_of_append_eq _ heq
    exact ⟨htext, negatedWord?_eq_some_iff.2 ⟨htext, any_head?_eq_false_of_append hplain⟩⟩
  rw [scanSymbol] at h
  split at h
  · next htail =>
    obtain ⟨rfl, rfl⟩ := Prod.mk.inj (Except.ok.inj h)
    rw [scanSymbol, (negated htail).2]
  · next htail =>
    obtain ⟨rfl, rfl⟩ := Prod.mk.inj (Except.ok.inj h)
    obtain ⟨rfl, hnot⟩ := negated htail
    rw [scanSymbol, hnot]
    rfl
  · next mark hnotIs hnotIn hmark =>
    obtain ⟨rfl, htail⟩ := Prod.mk.inj (Except.ok.inj h)
    have heq := List.prefix_iff_eq_append.1
      (List.isPrefixOf_iff_prefix.1 (isPrefixOf_leading? hmark))
    rw [htail] at heq
    obtain rfl := eq_append_of_append_eq _ heq.symm
    have hshort := leading?_of_append hmark
    have hnone : negatedWord? .notIs (mark.spelling.toList ++ rest) = none ∧
        negatedWord? .notIn (mark.spelling.toList ++ rest) = none := by
      refine ⟨Option.eq_none_iff_forall_ne_some.2 fun tail htail => ?_,
        Option.eq_none_iff_forall_ne_some.2 fun tail htail => ?_⟩
      · obtain ⟨heq, hb⟩ := negatedWord?_of_append_eq_none hnotIs htail
        rw [heq] at hshort
        obtain rfl : Symbol.bang = mark := Option.some.inj hshort
        obtain rfl : rest = ['i', 's'] := (List.cons.inj heq).2
        exact absurd hb (by simp [hword (.inl rfl)])
      · obtain ⟨heq, hb⟩ := negatedWord?_of_append_eq_none hnotIn htail
        rw [heq] at hshort
        obtain rfl : Symbol.bang = mark := Option.some.inj hshort
        obtain rfl : rest = ['i', 'n'] := (List.cons.inj heq).2
        exact absurd hb (by simp [hword (.inr rfl)])
    rw [scanSymbol, hnone.1, hnone.2, hshort]
    simp
  · cases h

/-! ## Comments and strings -/

theorem commentEnd_of_append {depth : Nat}
    (h : commentEnd depth (text ++ b :: more) = some (rest ++ b :: more)) :
    commentEnd depth text = some rest := by
  generalize hwhole : text ++ b :: more = whole at h
  fun_induction commentEnd depth whole generalizing text with
  | case1 tail =>
    obtain rfl := Option.some.inj h
    obtain rfl := eq_append_of_append_eq ['*', '/'] hwhole
    rfl
  | case2 tail depth ih =>
    obtain ⟨after, rfl, rfl, -⟩ := exists_of_append_eq ['*', '/'] hwhole (commentEnd_suffix h)
    exact ih rfl h
  | case3 depth tail ih =>
    obtain ⟨after, rfl, rfl, -⟩ := exists_of_append_eq ['/', '*'] hwhole (commentEnd_suffix h)
    exact ih rfl h
  | case4 depth c tail hclose hopen ih =>
    obtain ⟨after, rfl, rfl, -⟩ := exists_of_append_eq [c] hwhole (commentEnd_suffix h)
    rw [List.singleton_append, commentEnd]
    · exact ih rfl h
    · rintro after rfl rfl
      exact hclose _ rfl rfl
    · rintro after rfl rfl
      exact hopen _ rfl rfl
  | case5 => cases h

/-- A brace that leads a text with a cut in it, but not what is before the cut, is behind it. -/
theorem brace_of_append_cons {tail : List Char} (h : ∀ tail, text ≠ '\x7b' :: tail)
    (heq : text ++ b :: more = '\x7b' :: tail) : text = [] ∧ b = '\x7b' := by
  cases text with
  | nil => exact ⟨rfl, (List.cons.inj heq).1⟩
  | cons d text =>
    obtain ⟨rfl, -⟩ := List.cons.inj heq
    exact absurd rfl (h text)

/-- The end of a string before a cut is found without what comes behind. -/
theorem stringEnd_of_append {e : Enclosure} {outer : List Enclosure}
    (h : stringEnd (e.extend (b :: more)) (outer.map (Enclosure.extend (b :: more)))
      (text ++ b :: more) = .ok (rest ++ b :: more)) :
    stringEnd e outer text = .ok rest := by
  -- No step of the reading goes over the cut, for less than what is left would be left then.
  have hover {P : Prop} {e : Enclosure} {outer : List Enclosure} {tail : List Char}
      (htail : tail <:+ more) (h : stringEnd e outer tail = .ok (rest ++ b :: more)) : P :=
    (not_append_cons_suffix rest ((stringEnd_suffix h).trans htail)).elim
  fun_induction stringEnd e outer text with
  | case1 => exact (not_append_cons_suffix rest (stringEnd_suffix_tail h)).elim
  | case2 | case16 => simpa [Enclosure.extend, stringEnd] using h
  | case3 | case8 | case13 | case15 | case17 | case18 | case19 =>
    rename_i ih
    exact ih h
  | case4 =>
    rw [List.cons_append, Enclosure.extend, stringEnd_quotes_break] at h
    cases h
  | case5 =>
    rw [List.cons_append, List.nil_append, Enclosure.extend, stringEnd_backslash] at h
    split at h
    · cases h
    · exact hover List.suffix_rfl h
  | case6 =>
    rw [List.cons_append, List.cons_append, Enclosure.extend, stringEnd_backslash, if_pos rfl] at h
    cases h
  | case7 _ _ _ _ hd _ _ ih =>
    rw [List.cons_append, List.cons_append, Enclosure.extend, stringEnd_backslash, if_neg hd] at h
    exact ih h
  | case9 _ _ c hquote hbreak text hend hslash hdollar ih =>
    have hslash : c ≠ '\\' := by
      rintro rfl
      cases text with
      | nil => exact hend rfl rfl
      | cons d text => exact hslash d text rfl rfl
    rw [List.cons_append, Enclosure.extend, stringEnd_quotes_cons hquote hbreak hslash] at h
    · exact ih h
    · rintro tail rfl heq
      obtain ⟨rfl, rfl⟩ := brace_of_append_cons (hdollar · rfl) heq
      exact hover List.suffix_rfl h
  | case10 _ _ tail hclose =>
    rw [List.cons_append, Enclosure.extend, stringEnd_tripleQuotes_quote] at h
    split at h
    · simpa using h
    · next hopen =>
      cases tail with
      | nil => exact (not_append_cons_suffix rest (stringEnd_suffix_tail h)).elim
      | cons d tail => exact (hopen hclose).elim
  | case11 _ _ tail hclose _ _ ih =>
    rw [List.cons_append, Enclosure.extend, stringEnd_tripleQuotes_quote] at h
    split at h
    · exact ih h
    · next hopen =>
      cases tail with
      | nil => exact (not_append_cons_suffix rest (stringEnd_suffix_tail h)).elim
      | cons d tail => exact (hopen hclose).elim
  | case12 _ _ _ tail hopen ih =>
    rw [List.cons_append, Enclosure.extend, stringEnd_tripleQuotes_quote, if_neg] at h
    · exact ih h
    · rintro ⟨hrun, hhead⟩
      refine hopen ⟨hrun, fun hquote => hhead ?_⟩
      rw [List.head?_append, hquote, Option.some_or]
  | case14 _ _ _ c hquote text hdollar ih =>
    rw [List.cons_append, Enclosure.extend, stringEnd_tripleQuotes_cons hquote] at h
    · exact ih h
    · rintro tail rfl heq
      obtain ⟨rfl, rfl⟩ := brace_of_append_cons (hdollar · rfl) heq
      exact hover List.suffix_rfl h
  | case20 _ _ _ text hquotes _ _ ih =>
    rw [List.cons_append, Enclosure.extend, stringEnd_template_quote] at h
    · exact ih h
    · intro inside heq
      rcases text with _ | ⟨d, _ | ⟨d', text⟩⟩
      · obtain ⟨rfl, rfl⟩ := List.cons.inj heq
        exact hover (List.suffix_cons _ _) h
      · cases heq
        exact hover List.suffix_rfl h
      · cases heq
        exact hquotes text rfl
  | case21 _ _ _ c hopen hclose text _ hquote ih =>
    rw [List.cons_append, Enclosure.extend, stringEnd_template_cons hopen hclose hquote] at h
    exact ih h

theorem scanString_of_append {e : Enclosure}
    (h : scanString (e.extend (b :: more)) (text ++ b :: more) = .ok (k, rest ++ b :: more)) :
    scanString e text = .ok (k, rest) := by
  obtain ⟨hk, hend⟩ := scanString_eq_ok.1 h
  exact scanString_eq_ok.2 ⟨hk, stringEnd_of_append hend⟩

theorem scanBlockComment_of_append
    (h : scanBlockComment (text ++ b :: more) = .ok (k, rest ++ b :: more)) :
    scanBlockComment text = .ok (k, rest) := by
  obtain ⟨hk, hend⟩ := scanBlockComment_eq_ok.1 h
  exact scanBlockComment_eq_ok.2 ⟨hk, commentEnd_of_append hend⟩

/-! ## All tokens -/

/-- The mark of `?.` is no token of its own. -/
theorem nextToken_safeAccess (afterJump : Bool) (text : List Char) :
    nextToken afterJump '?' ('.' :: text) = .ok (.symbol .safeAccess, text) := by
  rfl

/-- What begins as a name does goes on with all its name characters. -/
theorem nextToken_suffix_of_isNamePart {afterJump : Bool} {front : List Char}
    (hfront : (c :: front).all isNamePart) (hc : isNameStart c) (hb : isNamePart b)
    (h : nextToken afterJump c (front ++ b :: more) = .ok (k, rest)) : rest <:+ more := by
  rw [nextToken_of_isNameStart hc, Except.ok.injEq] at h
  have hrest := scanWord_suffix_dropWhile (c :: front ++ b :: more)
  rw [List.cons_append, h, ← List.cons_append,
    List.dropWhile_append_of_pos (List.all_eq_true.1 hfront),
    List.dropWhile_cons_of_pos hb] at hrest
  exact hrest.trans (List.dropWhile_suffix _)

/-- What a text begins with does not depend on what comes behind a cut after it, if the token that
    comes next ends before the cut as well. -/
theorem nextToken_of_append {afterJump : Bool}
    (h : nextToken afterJump c (text ++ b :: more) = .ok (k, rest ++ b :: more))
    (hnext : ∀ d tail, rest = d :: tail → ∃ afterJump k' rest',
      nextToken afterJump d (tail ++ b :: more) = .ok (k', rest' ++ b :: more)) :
    nextToken afterJump c text = .ok (k, rest) := by
  -- Where what comes next is only the beginning of a token, that token goes over the cut.
  have hover {d : Char} {tail : List Char} (hrest : rest = d :: tail)
      (hsuffix : ∀ {afterJump k' rest'},
        nextToken afterJump d (tail ++ b :: more) = .ok (k', rest') → rest' <:+ more) :
      False := by
    obtain ⟨afterJump, k', rest', htoken⟩ := hnext d tail hrest
    exact not_append_cons_suffix rest' (hsuffix htoken)
  rw [nextToken.eq_def] at h
  split at h
  · next hc =>
    obtain ⟨rfl, hrest⟩ := Prod.mk.inj (Except.ok.inj h)
    rw [nextToken.eq_def, if_pos hc, dropWhile_of_append hrest]
  · next hc =>
    rw [nextToken.eq_def, if_neg hc]
    generalize hwhole : text ++ b :: more = whole at h
    split at h
    · next tail =>
      obtain ⟨rfl, htail⟩ := Prod.mk.inj (Except.ok.inj h)
      obtain ⟨after, rfl, rfl, -⟩ :=
        exists_of_append_eq ['/'] hwhole (htail ▸ List.dropWhile_suffix _)
      rw [List.singleton_append]
      exact congrArg (fun rest => Except.ok (_, rest)) (dropWhile_of_append htail)
    · next tail =>
      obtain ⟨after, rfl, rfl, -⟩ := exists_of_append_eq ['*'] hwhole (scanBlockComment_suffix h)
      exact scanBlockComment_of_append h
    · next inside =>
      obtain ⟨after, rfl, rfl, -⟩ :=
        exists_of_append_eq ['\"', '\"'] hwhole (scanString_suffix h)
      exact scanString_of_append h
    · next hquotes =>
      subst hwhole
      have hstring := scanString_of_append (e := .quotes ('\"' :: text)) h
      split
      · next heq => exact absurd heq (by decide)
      · next heq => exact absurd heq (by decide)
      · exact (hquotes _ rfl).elim
      · exact hstring
      · next heq => exact absurd heq (by decide)
      · next heq => exact absurd heq (by decide)
      · next heq => exact absurd heq (by decide)
      · next hother _ _ _ _ _ _ => exact (hother rfl).elim
    · subst hwhole
      exact scanCharacter_of_append h
    · subst hwhole
      exact scanQuotedName_of_append h
    · subst hwhole
      exact scanAt_of_append h
    · next hquote happos htick hat hline hblock _ =>
      subst hwhole
      split
      · next tail _ => exact (hline (tail ++ b :: more) rfl rfl).elim
      · next tail _ => exact (hblock (tail ++ b :: more) rfl rfl).elim
      · exact (hquote rfl).elim
      · exact (hquote rfl).elim
      · exact (happos rfl).elim
      · exact (htick rfl).elim
      · exact (hat rfl).elim
      · rw [← List.cons_append] at h
        split at h
        · rw [if_pos ‹_›]
          exact scanNumber_of_append h
        · rw [if_neg ‹_›]
          split at h
          · rw [if_pos ‹_›]
            refine congrArg Except.ok (scanWord_of_append (Except.ok.inj h) fun hrest hdot => ?_)
            subst hdot
            refine hover hrest fun htoken => ?_
            rw [List.nil_append, nextToken_safeAccess] at htoken
            cases htoken
            exact List.suffix_rfl
          · rw [if_neg ‹_›]
            refine scanSymbol_of_append h fun hrest => ?_
            by_contra hb
            rw [Bool.not_eq_false] at hb
            rcases hrest with hrest | hrest
            · exact hover hrest (nextToken_suffix_of_isNamePart (by decide) (by decide) hb)
            · exact hover hrest (nextToken_suffix_of_isNamePart (by decide) (by decide) hb)

end ResultHints
