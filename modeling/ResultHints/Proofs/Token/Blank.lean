import ResultHints.Proofs.Token.Tiling

/-!
# Tokens up to a blank

No token but white space, comments and strings goes over a blank, and these end where they
are closed. So what a text begins with does not depend on a blank behind it and on what
follows the blank (`nextToken_append_iff`): unless it is white space, with which the blank
goes on, or a comment up to the end of its line, which ends before a line break only.
-/

namespace ResultHints

variable {text rest more : List Char} {k : TokenKind} {b c : Char}

/-! ## Several characters -/

section Characters

variable {p : Char → Bool} (hp : p b = false) (text more : List Char)

include hp

theorem dropWhile_append_cons :
    (text ++ b :: more).dropWhile p = text.dropWhile p ++ b :: more := by
  rw [List.dropWhile_append, List.dropWhile_cons_of_neg (by simp [hp])]
  split
  · next h => rw [List.isEmpty_iff.1 h, List.nil_append]
  · rfl

theorem takeWhile_append_cons : (text ++ b :: more).takeWhile p = text.takeWhile p := by
  rw [List.takeWhile_append, List.takeWhile_cons_of_neg (by simp [hp]), List.append_nil]
  split
  · next h => rw [List.IsPrefix.eq_of_length (List.takeWhile_prefix p) h]
  · rfl

theorem any_head?_append_cons : (text ++ b :: more).head?.any p = text.head?.any p := by
  cases text with
  | nil => exact hp
  | cons c cs => rfl

theorem skipOne_append_cons : skipOne p (text ++ b :: more) = skipOne p text ++ b :: more := by
  cases text with
  | nil => simp [skipOne, hp]
  | cons c cs =>
    rw [List.cons_append, skipOne, skipOne]
    split <;> rfl

end Characters

/-- What a text begins with before some character, but for that character, the text begins
    with. -/
theorem eq_cons_of_append_cons {d : Char} {tail : List Char} (hd : d ≠ b)
    (h : text ++ b :: more = d :: tail) :
    ∃ rest, text = d :: rest ∧ tail = rest ++ b :: more := by
  cases text with
  | nil => exact absurd (List.cons.inj h).1.symm hd
  | cons c text =>
    obtain ⟨rfl, rfl⟩ := List.cons.inj h
    exact ⟨text, rfl, rfl⟩

theorem head?_append_cons_ne {d : Char} (hd : d ≠ b) :
    (text ++ b :: more).head? ≠ some d ↔ text.head? ≠ some d := by
  cases text with
  | nil => simp [hd.symm]
  | cons c text => rfl

/-- A character ends no beginning without it. -/
theorem isPrefixOf_append_cons {word : List Char} (h : b ∉ word) (text more : List Char) :
    word.isPrefixOf (text ++ b :: more) = word.isPrefixOf text := by
  induction word generalizing text with
  | nil => simp
  | cons c word ih =>
    rw [List.mem_cons, not_or] at h
    cases text with
    | nil => simp [List.isPrefixOf, Ne.symm h.1]
    | cons d text => rw [List.cons_append, List.isPrefixOf, List.isPrefixOf, ih h.2]

/-- An end of a text that begins with some character is not longer than that. -/
theorem not_append_cons_suffix (rest : List Char) : ¬rest ++ b :: more <:+ more := by
  intro h
  have hle := h.length_le
  rw [List.length_append, List.length_cons] at hle
  omega

section Blank

variable (hb : isBlank b)

include hb

theorem beq_of_isBlank (hc : isBlank c = false) : (b == c) = false :=
  beq_eq_false_iff_ne.2 (ne_of_isBlank hb hc)

/-! ## Numbers -/

theorem isNumberPart_of_isBlank : isNumberPart b = false := by
  simp (disch := decide) only [isNumberPart, isDigit_of_isBlank hb, beq_of_isBlank hb,
    Bool.or_false]

theorem afterIntegerSuffix_append_blank (text more : List Char) :
    afterIntegerSuffix (text ++ b :: more) = afterIntegerSuffix text ++ b :: more := by
  rw [afterIntegerSuffix, skipOne_append_cons, skipOne_append_cons]
  · rfl
  all_goals simp (disch := decide) only [beq_of_isBlank hb, Bool.or_false]

theorem afterFraction?_append_blank (text more : List Char) :
    afterFraction? (text ++ b :: more) = (afterFraction? text).map (· ++ b :: more) := by
  match text with
  | [] =>
    rw [List.nil_append, afterFraction?.eq_def]
    split
    · next h => exact absurd (List.cons.inj h).1 (ne_of_isBlank hb (by decide))
    · rfl
  | c :: text =>
    by_cases hc : c = '.'
    · subst hc
      cases text with
      | nil => simp [afterFraction?, isDigit_of_isBlank hb]
      | cons d text =>
        rw [List.cons_append, List.cons_append, afterFraction?, afterFraction?]
        split
        · rw [dropWhile_append_cons (isNumberPart_of_isBlank hb)]
          rfl
        · rfl
    · simp [afterFraction?, hc]

theorem afterExponentMark?_append_blank (text more : List Char) :
    afterExponentMark? (text ++ b :: more) =
      (afterExponentMark? text).map (· ++ b :: more) := by
  cases text with
  | nil =>
    simp (disch := decide) only [List.nil_append, afterExponentMark?, beq_of_isBlank hb,
      Bool.or_false]
    rfl
  | cons c text =>
    rw [List.cons_append, afterExponentMark?, afterExponentMark?]
    split
    · rw [skipOne_append_cons]
      · rfl
      · simp (disch := decide) only [beq_of_isBlank hb, Bool.or_false]
    · rfl

theorem scanRadix_append_iff :
    scanRadix (text ++ b :: more) = .ok (k, rest ++ b :: more) ↔
      scanRadix text = .ok (k, rest) := by
  have hpart : (isHexDigit b || b == '_') = false := by
    simp (disch := decide) only [isHexDigit_of_isBlank hb, beq_of_isBlank hb, Bool.or_false]
  simp only [scanRadix]
  rw [any_head?_append_cons hpart, dropWhile_append_cons hpart,
    afterIntegerSuffix_append_blank hb]
  split <;> simp

theorem scanNumberEnd_append_iff {isFloat : Bool} :
    scanNumberEnd isFloat (text ++ b :: more) = .ok (k, rest ++ b :: more) ↔
      scanNumberEnd isFloat text = .ok (k, rest) := by
  have hmark : (b == 'f' || b == 'F') = false := by
    simp (disch := decide) only [beq_of_isBlank hb, Bool.or_false]
  simp only [scanNumberEnd]
  rw [any_head?_append_cons hmark]
  have hrest : (if text.head?.any fun c => c == 'f' || c == 'F'
        then (text ++ b :: more).drop 1
        else if isFloat then text ++ b :: more else afterIntegerSuffix (text ++ b :: more)) =
      (if text.head?.any fun c => c == 'f' || c == 'F' then text.drop 1
        else if isFloat then text else afterIntegerSuffix text) ++ b :: more := by
    rw [afterIntegerSuffix_append_blank hb]
    cases text with
    | nil => cases isFloat <;> rfl
    | cons c text =>
      split
      · rfl
      · split <;> rfl
  rw [hrest]
  generalize (if text.head?.any fun c => c == 'f' || c == 'F' then text.drop 1
      else if isFloat then text else afterIntegerSuffix text) = s
  rw [any_head?_append_cons (isNamePart_of_isBlank hb)]
  split <;> simp

theorem scanDecimal_append_iff :
    scanDecimal (text ++ b :: more) = .ok (k, rest ++ b :: more) ↔
      scanDecimal text = .ok (k, rest) := by
  simp only [scanDecimal]
  rw [dropWhile_append_cons (isNumberPart_of_isBlank hb), afterFraction?_append_blank hb]
  have hmantissa (whole : List Char) :
      ((afterFraction? whole).map (· ++ b :: more)).getD (whole ++ b :: more) =
        (afterFraction? whole).getD whole ++ b :: more := by
    cases afterFraction? whole <;> rfl
  rw [hmantissa, afterExponentMark?_append_blank hb, Option.isSome_map]
  cases afterExponentMark? ((afterFraction? (text.dropWhile isNumberPart)).getD
    (text.dropWhile isNumberPart)) with
  | none => exact scanNumberEnd_append_iff hb
  | some digits =>
    rw [Option.map_some]
    dsimp only
    rw [any_head?_append_cons (isDigit_of_isBlank hb),
      dropWhile_append_cons (isDigit_of_isBlank hb)]
    split
    · exact scanNumberEnd_append_iff hb
    · simp

theorem scanNumber_append_iff :
    scanNumber (text ++ b :: more) = .ok (k, rest ++ b :: more) ↔
      scanNumber text = .ok (k, rest) := by
  by_cases hzero : ∃ c digits, text = '0' :: c :: digits
  · obtain ⟨c, digits, rfl⟩ := hzero
    rw [List.cons_append, List.cons_append, scanNumber, scanNumber]
    split
    · exact scanRadix_append_iff hb
    · exact @scanDecimal_append_iff ('0' :: c :: digits) rest more k b hb
  · have hshort : scanNumber text = scanDecimal text := by
      rw [scanNumber.eq_def]
      split
      · exact absurd ⟨_, _, rfl⟩ hzero
      · rfl
    have hlong : scanNumber (text ++ b :: more) = scanDecimal (text ++ b :: more) := by
      rw [scanNumber.eq_def]
      split
      · next c digits heq =>
        -- Only the blank can have come after the zero, and it tells no base.
        obtain ⟨tail, rfl, htail⟩ :=
          eq_cons_of_append_cons (ne_of_isBlank hb (by decide)).symm heq
        cases tail with
        | nil =>
          obtain ⟨rfl, rfl⟩ := List.cons.inj htail
          simp (disch := decide) only [beq_of_isBlank hb, Bool.or_false, Bool.false_eq_true,
            if_false]
          rfl
        | cons d tail => exact absurd ⟨_, _, rfl⟩ hzero
      · rfl
    rw [hshort, hlong]
    exact scanDecimal_append_iff hb

/-! ## Characters, names and symbols -/

theorem afterHexDigits_append_iff {n : Nat} :
    afterHexDigits n (text ++ b :: more) = .ok (rest ++ b :: more) ↔
      afterHexDigits n text = .ok rest := by
  induction n generalizing text with
  | zero => simp [afterHexDigits]
  | succ n ih =>
    cases text with
    | nil => simp [afterHexDigits, isHexDigit_of_isBlank hb]
    | cons c text =>
      rw [List.cons_append, afterHexDigits, afterHexDigits]
      split
      · exact ih
      · simp

omit hb in
theorem afterCharacter_of_ne {c : Char} (hc : c ≠ '\\') (text : List Char) :
    afterCharacter (c :: text) =
      if c = '\'' ∨ c = '\n' then .error (c :: text) else .ok text := by
  rw [afterCharacter] <;> simp [hc]

theorem afterCharacter_append_iff :
    afterCharacter (text ++ b :: more) = .ok (rest ++ b :: more) ↔
      afterCharacter text = .ok rest := by
  -- A character that takes the blank along leaves less than the blank and what follows it.
  have htaken (failed : Bool) :
      (if failed then Except.error (b :: more) else .ok more) ≠ .ok (rest ++ b :: more) := by
    intro h
    split at h
    · cases h
    · exact not_append_cons_suffix rest ⟨[], (Except.ok.inj h).symm⟩
  cases text with
  | nil =>
    rw [List.nil_append, afterCharacter_of_ne (ne_of_isBlank hb (by decide))]
    simpa [afterCharacter] using htaken (b = '\'' ∨ b = '\n')
  | cons c text =>
    rw [List.cons_append]
    by_cases hc : c = '\\'
    · subst hc
      cases text with
      | nil =>
        rw [List.nil_append, afterCharacter]
        · simpa [afterCharacter] using htaken (b = '\n')
        · exact ne_of_isBlank hb (by decide)
      | cons d text =>
        by_cases hd : d = 'u'
        · subst hd
          exact afterHexDigits_append_iff hb
        · rw [List.cons_append, afterCharacter, afterCharacter]
          · split <;> simp
          all_goals simp [hd]
    · rw [afterCharacter_of_ne hc, afterCharacter_of_ne hc]
      split <;> simp

theorem scanCharacter_append_iff :
    scanCharacter (text ++ b :: more) = .ok (k, rest ++ b :: more) ↔
      scanCharacter text = .ok (k, rest) := by
  rw [scanCharacter_eq_ok, scanCharacter_eq_ok, ← List.cons_append, afterCharacter_append_iff hb]

theorem scanNameEnd_append_blank (text more : List Char) :
    scanNameEnd (text ++ b :: more) =
      ((scanNameEnd text).1, (scanNameEnd text).2 ++ b :: more) := by
  have hat : b ≠ '@' := ne_of_isBlank hb (by decide)
  cases text with
  | nil => simp [scanNameEnd, hat]
  | cons c text =>
    rw [List.cons_append, scanNameEnd.eq_def, scanNameEnd.eq_def (c :: text)]
    by_cases hc : c = '@'
    · rw [hc]
      rfl
    · simp [hc]

omit hb in
/-- A backtick before some place of a text is found without what follows. -/
theorem toBacktick_append_iff (text more : List Char) :
    toBacktick (text ++ b :: more) = '`' :: (rest ++ b :: more) ↔
      toBacktick text = '`' :: rest := by
  rw [toBacktick, toBacktick, List.dropWhile_append]
  split
  · next hnone =>
    rw [List.isEmpty_iff.1 hnone]
    refine iff_of_false (fun h => ?_) (by simp)
    have hsuffix := h ▸ List.dropWhile_suffix (fun c => c != '`' && c != '\n') (l := b :: more)
    have hle := hsuffix.length_le
    simp only [List.length_cons, List.length_append] at hle
    omega
  · rw [← List.cons_append, List.append_cancel_right_eq]

theorem scanQuotedName_append_iff :
    scanQuotedName (text ++ b :: more) = .ok (k, rest ++ b :: more) ↔
      scanQuotedName text = .ok (k, rest) := by
  rw [scanQuotedName_eq_ok, scanQuotedName_eq_ok]
  constructor
  · rintro ⟨after, hafter, hend⟩
    have hsuffix := scanNameEnd_suffix after
    rw [hend] at hsuffix
    obtain ⟨taken, rfl⟩ := hsuffix
    rw [← List.append_assoc] at hafter hend
    rw [scanNameEnd_append_blank hb] at hend
    refine ⟨_, (toBacktick_append_iff _ _).1 hafter, ?_⟩
    simpa [Prod.ext_iff] using hend
  · rintro ⟨after, hafter, hend⟩
    refine ⟨_, (toBacktick_append_iff _ _).2 hafter, ?_⟩
    rw [scanNameEnd_append_blank hb, hend]

theorem scanWord_append_blank (text more : List Char) :
    scanWord (text ++ b :: more) =
      ((scanWord text).1, (scanWord text).2 ++ b :: more) := by
  have hquestion : b ≠ '?' := ne_of_isBlank hb (by decide)
  have hdot : b ≠ '.' := ne_of_isBlank hb (by decide)
  rw [scanWord, scanWord, takeWhile_append_cons (isNamePart_of_isBlank hb),
    dropWhile_append_cons (isNamePart_of_isBlank hb)]
  generalize text.dropWhile isNamePart = after
  cases Keyword.ofWord? (text.takeWhile isNamePart) with
  | none => exact scanNameEnd_append_blank hb _ _
  | some word =>
    by_cases hword : word = .as_
    · subst hword
      rcases after with _ | ⟨c, _ | ⟨d, after⟩⟩
      · simp [hquestion]
      · by_cases hc : c = '?'
        · subst hc
          simp [hdot]
        · simp [hc]
      · by_cases hc : c = '?'
        · subst hc
          by_cases hd : d = '.'
          · subst hd
            rfl
          · simp [hd]
        · simp [hc]
    · simp [hword]

theorem scanAt_append_iff {afterJump : Bool} :
    scanAt afterJump (text ++ b :: more) = .ok (k, rest ++ b :: more) ↔
      scanAt afterJump text = .ok (k, rest) := by
  have hquoted {text rest : List Char} : scanAt afterJump ('`' :: text) = .ok (k, rest) ↔
      (if afterJump then .labelReference else .annotationName) = k ∧
        toBacktick text = '`' :: rest := by
    rw [scanAt]
    split
    · next h => simp [h]
    · next hno => exact iff_of_false (by simp) fun h => hno _ h.2
  cases text with
  | nil =>
    have hquote : b ≠ '`' := ne_of_isBlank hb (by decide)
    have hstart : isNameStart b = false := by
      rw [Bool.eq_false_iff]
      intro hstart
      have hpart := isNamePart_of_isNameStart hstart
      rw [isNamePart_of_isBlank hb] at hpart
      cases hpart
    rw [List.nil_append, scanAt]
    · simp [hstart, scanAt]
    · simp [hquote]
  | cons c text =>
    rw [List.cons_append]
    by_cases hc : c = '`'
    · subst hc
      rw [hquoted, hquoted, toBacktick_append_iff]
    · rw [scanAt, scanAt]
      · rw [dropWhile_append_cons (isNamePart_of_isBlank hb)]
        split <;> simp
      all_goals simp [hc]

theorem negatedWord?_append_blank (word : Keyword) (hword : b ∉ word.spelling.toList)
    (text more : List Char) :
    negatedWord? word (text ++ b :: more) = (negatedWord? word text).map (· ++ b :: more) := by
  rw [negatedWord?, negatedWord?, isPrefixOf_append_cons hword]
  split
  · next hprefix =>
    have hlen := (List.isPrefixOf_iff_prefix.1 hprefix).length_le
    rw [List.drop_append_of_le_length hlen]
    dsimp only
    rw [any_head?_append_cons (isNamePart_of_isBlank hb)]
    split <;> rfl
  · rfl

theorem not_mem_of_isBlank {word : List Char} (hword : word.all fun c => !isBlank c) :
    b ∉ word := by
  intro hmem
  have hplain := List.all_eq_true.1 hword b hmem
  rw [hb] at hplain
  cases hplain

theorem leading?_append_blank (text more : List Char) :
    Symbol.leading? (text ++ b :: more) = Symbol.leading? text := by
  have hspelling (mark : Symbol) : b ∉ mark.spelling.toList :=
    not_mem_of_isBlank hb (by cases mark <;> decide)
  rw [Symbol.leading?, Symbol.leading?]
  simp only [isPrefixOf_append_cons (hspelling _)]

omit hb in
theorem isPrefixOf_leading? {mark : Symbol} (h : Symbol.leading? text = some mark) :
    mark.spelling.toList.isPrefixOf text := by
  rw [Symbol.leading?] at h
  simpa using List.find?_some h

theorem scanSymbol_append_iff :
    scanSymbol c (text ++ b :: more) = .ok (k, rest ++ b :: more) ↔
      scanSymbol c text = .ok (k, rest) := by
  rw [scanSymbol, scanSymbol,
    negatedWord?_append_blank hb _ (not_mem_of_isBlank hb (by decide)),
    negatedWord?_append_blank hb _ (not_mem_of_isBlank hb (by decide)),
    leading?_append_blank hb]
  cases negatedWord? .notIs text with
  | some after => simp
  | none =>
    cases negatedWord? .notIn text with
    | some after => simp
    | none =>
      cases hmark : Symbol.leading? text with
      | none => simp
      | some mark =>
        have hprefix := List.isPrefixOf_iff_prefix.1 (isPrefixOf_leading? hmark)
        simp [List.drop_append_of_le_length hprefix.length_le]

/-! ## Comments and strings -/

theorem commentEnd_append_iff {depth : Nat} :
    commentEnd depth (text ++ b :: more) = some (rest ++ b :: more) ↔
      commentEnd depth text = some rest := by
  have hstar : '*' ≠ b := (ne_of_isBlank hb (by decide)).symm
  have hslash : '/' ≠ b := (ne_of_isBlank hb (by decide)).symm
  fun_induction commentEnd depth text with
  | case1 => simp [commentEnd]
  | case2 | case3 =>
    rename_i ih
    exact ih
  | case4 depth c text hclose hopen ih =>
    rw [List.cons_append, commentEnd]
    · exact ih
    · intro tail hc htail
      obtain ⟨rest, rfl, -⟩ := eq_cons_of_append_cons hslash htail
      exact hclose rest hc rfl
    · intro tail hc htail
      obtain ⟨rest, rfl, -⟩ := eq_cons_of_append_cons hstar htail
      exact hopen rest hc rfl
  | case5 depth =>
    -- A comment that goes over the blank leaves less than what follows it.
    refine iff_of_false (fun h => ?_) (by simp)
    rw [List.nil_append, commentEnd] at h
    · exact not_append_cons_suffix rest (commentEnd_suffix h)
    · exact fun tail hc => absurd hc hstar.symm
    · exact fun tail hc => absurd hc hslash.symm

/-- An enclosure in a text that goes on. -/
def Enclosure.extend (behind : List Char) : Enclosure → Enclosure
  | quotes start => quotes (start ++ behind)
  | tripleQuotes run start => tripleQuotes run (start ++ behind)
  | template depth start => template depth (start ++ behind)

theorem stringEnd_append_iff (e : Enclosure) (outer : List Enclosure) :
    stringEnd (e.extend (b :: more)) (outer.map (Enclosure.extend (b :: more)))
        (text ++ b :: more) = .ok (rest ++ b :: more) ↔
      stringEnd e outer text = .ok rest := by
  have hquote : '\"' ≠ b := (ne_of_isBlank hb (by decide)).symm
  have hbrace : '\x7b' ≠ b := (ne_of_isBlank hb (by decide)).symm
  fun_induction stringEnd e outer text with
  | case1 =>
    refine iff_of_false (fun h => ?_) (by simp)
    exact not_append_cons_suffix rest (stringEnd_suffix_tail h)
  | case2 | case16 => simp [Enclosure.extend, stringEnd]
  | case3 | case8 | case13 | case15 | case17 | case18 | case19 =>
    rename_i ih
    exact ih
  | case4 =>
    refine iff_of_false (fun h => ?_) (by simp)
    rw [List.cons_append, Enclosure.extend, stringEnd_quotes_break] at h
    cases h
  | case5 =>
    -- The backslash takes the blank along.
    refine iff_of_false (fun h => ?_) (by simp)
    rw [List.cons_append, List.nil_append, Enclosure.extend, stringEnd_backslash] at h
    split at h
    · cases h
    · exact not_append_cons_suffix rest (stringEnd_suffix h)
  | case6 =>
    refine iff_of_false (fun h => ?_) (by simp)
    rw [List.cons_append, List.cons_append, Enclosure.extend, stringEnd_backslash, if_pos rfl] at h
    cases h
  | case7 _ _ _ _ hd _ _ ih =>
    rw [List.cons_append, List.cons_append, Enclosure.extend, stringEnd_backslash, if_neg hd]
    exact ih
  | case9 _ _ c hquote hbreak text hend hslash hdollar ih =>
    have hslash : c ≠ '\\' := by
      rintro rfl
      cases text with
      | nil => exact hend rfl rfl
      | cons d text => exact hslash d text rfl rfl
    rw [List.cons_append, Enclosure.extend, stringEnd_quotes_cons hquote hbreak hslash]
    · exact ih
    · intro tail hc heq
      obtain ⟨tail, rfl, -⟩ := eq_cons_of_append_cons hbrace heq
      exact hdollar tail hc rfl
  | case10 _ _ _ hclose =>
    rw [List.cons_append, Enclosure.extend, stringEnd_tripleQuotes_quote,
      if_pos ⟨hclose.1, (head?_append_cons_ne hquote).2 hclose.2⟩]
    simp
  | case11 _ _ _ hclose _ _ ih =>
    rw [List.cons_append, Enclosure.extend, stringEnd_tripleQuotes_quote,
      if_pos ⟨hclose.1, (head?_append_cons_ne hquote).2 hclose.2⟩]
    exact ih
  | case12 _ _ _ _ hopen ih =>
    rw [List.cons_append, Enclosure.extend, stringEnd_tripleQuotes_quote,
      if_neg fun hclose => hopen ⟨hclose.1, (head?_append_cons_ne hquote).1 hclose.2⟩]
    exact ih
  | case14 _ _ _ c hquote text hdollar ih =>
    rw [List.cons_append, Enclosure.extend, stringEnd_tripleQuotes_cons hquote]
    · exact ih
    · intro tail hc heq
      obtain ⟨tail, rfl, -⟩ := eq_cons_of_append_cons hbrace heq
      exact hdollar tail hc rfl
  | case20 _ _ _ text hquotes _ _ ih =>
    rw [List.cons_append, Enclosure.extend, stringEnd_template_quote]
    · exact ih
    · intro inside heq
      obtain ⟨tail, rfl, hrest⟩ := eq_cons_of_append_cons hquote heq
      obtain ⟨tail, rfl, -⟩ := eq_cons_of_append_cons hquote hrest.symm
      exact hquotes tail rfl
  | case21 _ _ _ c hopen hclose text _ hquote ih =>
    rw [List.cons_append, Enclosure.extend, stringEnd_template_cons hopen hclose hquote]
    exact ih

theorem scanString_append_iff (e : Enclosure) :
    scanString (e.extend (b :: more)) (text ++ b :: more) = .ok (k, rest ++ b :: more) ↔
      scanString e text = .ok (k, rest) := by
  rw [scanString_eq_ok, scanString_eq_ok]
  exact and_congr_right fun _ => stringEnd_append_iff hb e []

theorem scanBlockComment_append_iff :
    scanBlockComment (text ++ b :: more) = .ok (k, rest ++ b :: more) ↔
      scanBlockComment text = .ok (k, rest) := by
  rw [scanBlockComment_eq_ok, scanBlockComment_eq_ok, commentEnd_append_iff hb]

/-! ## All tokens -/

/-- White space that ends before the text does ends at the same place whatever follows. -/
theorem afterBlanks_append_iff (hne : rest ≠ []) :
    (text ++ b :: more).dropWhile isBlank = rest ++ b :: more ↔ text.dropWhile isBlank = rest := by
  rw [List.dropWhile_append]
  split
  · next hall =>
    rw [List.isEmpty_iff.1 hall, List.dropWhile_cons_of_pos hb]
    refine iff_of_false (fun h => ?_) hne.symm
    exact not_append_cons_suffix rest (h ▸ List.dropWhile_suffix isBlank)
  · rw [List.append_cancel_right_eq]

/-- The first token of a text is the same whatever blank and text follow its end, or if nothing
    does, unless it is white space or ends with its line. -/
theorem nextToken_append_iff {afterJump : Bool} (hblank : k = .trivia .blank → rest ≠ [])
    (hline : k = .trivia .lineComment → b = '\n') :
    nextToken afterJump c (text ++ b :: more) = .ok (k, rest ++ b :: more) ↔
      nextToken afterJump c text = .ok (k, rest) := by
  generalize hscanned : nextToken afterJump c text = scanned
  rw [nextToken.eq_def] at hscanned ⊢
  split at hscanned
  · next hc =>
    subst hscanned
    rw [if_pos hc]
    simp only [Except.ok.injEq, Prod.mk.injEq]
    exact and_congr_right fun hk => afterBlanks_append_iff hb (hblank hk.symm)
  · next hc =>
    rw [if_neg hc]
    split at hscanned
    · subst hscanned
      simp only [List.cons_append, Except.ok.injEq, Prod.mk.injEq]
      refine and_congr_right fun hk => ?_
      rw [dropWhile_append_cons (by simp [hline hk.symm])]
      rw [List.append_cancel_right_eq]
    · subst hscanned
      exact scanBlockComment_append_iff hb
    · next inside =>
      subst hscanned
      exact scanString_append_iff hb (.tripleQuotes 0 ('\"' :: '\"' :: '\"' :: inside))
    · next hquotes =>
      subst hscanned
      have hquote : '\"' ≠ b := (ne_of_isBlank hb (by decide)).symm
      split
      · next hc _ => exact absurd hc (by decide)
      · next hc _ => exact absurd hc (by decide)
      · next heq =>
        obtain ⟨tail, rfl, hrest⟩ := eq_cons_of_append_cons hquote heq
        obtain ⟨tail, rfl, -⟩ := eq_cons_of_append_cons hquote hrest.symm
        exact (hquotes tail rfl).elim
      · exact scanString_append_iff hb (.quotes ('\"' :: text))
      · next hc => exact absurd hc (by decide)
      · next hc => exact absurd hc (by decide)
      · next hc => exact absurd hc (by decide)
      · next hc _ _ _ _ _ _ => exact (hc rfl).elim
    · subst hscanned
      exact scanCharacter_append_iff hb
    · subst hscanned
      exact scanQuotedName_append_iff hb
    · subst hscanned
      exact scanAt_append_iff hb
    · next hquote happos htick hat hline hblock hquotes =>
      subst hscanned
      split
      · next heq =>
        obtain ⟨tail, rfl, -⟩ := eq_cons_of_append_cons (ne_of_isBlank hb (by decide)).symm heq
        exact (hline tail rfl rfl).elim
      · next heq =>
        obtain ⟨tail, rfl, -⟩ := eq_cons_of_append_cons (ne_of_isBlank hb (by decide)).symm heq
        exact (hblock tail rfl rfl).elim
      · exact (hquote rfl).elim
      · exact (hquote rfl).elim
      · exact (happos rfl).elim
      · exact (htick rfl).elim
      · exact (hat rfl).elim
      · rw [← List.cons_append]
        split
        · exact scanNumber_append_iff hb
        · split
          · rw [scanWord_append_blank hb]
            simp [Prod.ext_iff]
          · exact scanSymbol_append_iff hb

end Blank

end ResultHints
