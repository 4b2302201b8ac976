import ResultHints.Proofs.Token.Lossless
import ResultHints.Proofs.Token.Split

/-!
# Where words and numbers end

A word, a label or a number is as long as it can be: behind it no name goes on, unless it ends
with a mark that stands in no name (`isApart_of_nextToken`). So no word touches another one, and
a number that runs into a word is no token (`words_apart`). But a number in another base than
ten ends where its digits and suffixes do, whatever follows.
-/

namespace ResultHints

variable {text rest : List Char} {k : TokenKind} {afterJump : Bool} {c : Char} {t u : Token}

/-- Whether a number begins with the mark of base sixteen or two. -/
def hasBaseMark (text : List Char) : Bool :=
  text.head? == some '0' &&
    text.tail.head?.any fun c => c == 'x' || c == 'X' || c == 'b' || c == 'B'

namespace TokenKind

/-- The kinds of numbers. -/
def isNumber : TokenKind → Bool
  | literal .integer | literal .float => true
  | _ => false

/-- The kinds of tokens that may end with a name character. -/
def endsAsWord : TokenKind → Bool
  | identifier | labelReference | annotationName | keyword _ => true
  | k => k.isNumber

theorem isNumber_iff : k.isNumber ↔ k = literal .integer ∨ k = literal .float := by
  rw [isNumber.eq_def]
  split <;> simp_all

end TokenKind

/-! ## One token -/

/-- No name goes on behind a token, or the token ends with a character that no name has. -/
def IsApart (text rest : List Char) : Prop :=
  rest.head?.any isNamePart = false ∨
    ∃ front last, text = front ++ last :: rest ∧ isNamePart last = false

theorem IsApart.cons (c : Char) (h : IsApart text rest) : IsApart (c :: text) rest := by
  obtain h | ⟨front, last, rfl, hlast⟩ := h
  · exact .inl h
  · exact .inr ⟨c :: front, last, rfl, hlast⟩

theorem isApart_dropWhile (text : List Char) : IsApart text (text.dropWhile isNamePart) := by
  have hstop := List.head?_dropWhile_not isNamePart text
  left
  cases h : text.dropWhile isNamePart with
  | nil => rfl
  | cons c rest =>
    rw [h] at hstop
    simpa using hstop

theorem isApart_of_suffix (h : c :: rest <:+ text) (hc : isNamePart c = false) :
    IsApart text rest := by
  obtain ⟨front, rfl⟩ := h
  exact .inr ⟨front, c, rfl, hc⟩

/-- A word takes its name characters, and may take a mark behind them. -/
theorem isApart_scanWord (h : scanWord text = (k, rest)) : IsApart text rest := by
  have hsuffix : text.dropWhile isNamePart <:+ text := List.dropWhile_suffix _
  obtain hrest | hrest | hrest := dropWhile_of_scanWord h
  · exact hrest ▸ isApart_dropWhile text
  · exact isApart_of_suffix (hrest ▸ hsuffix) (by decide)
  · exact isApart_of_suffix (hrest ▸ hsuffix) (by decide)

theorem isApart_scanQuotedName (h : scanQuotedName text = .ok (k, rest)) : IsApart text rest := by
  obtain ⟨after, hafter, hend⟩ := scanQuotedName_eq_ok.1 h
  have hsuffix := hafter ▸ toBacktick_suffix text
  obtain rfl | rfl := eq_of_scanNameEnd hend
  · exact isApart_of_suffix hsuffix (by decide)
  · exact isApart_of_suffix ((List.suffix_cons _ _).trans hsuffix) (by decide)

theorem isApart_scanAt (h : scanAt afterJump text = .ok (k, rest)) : IsApart text rest := by
  obtain ⟨-, ⟨tail, rfl, htail⟩ | ⟨c, tail, rfl, -, rfl⟩⟩ := scanAt_eq_ok.1 h
  · exact (isApart_of_suffix (htail ▸ toBacktick_suffix tail) (by decide)).cons '`'
  · exact (isApart_dropWhile tail).cons c

theorem isApart_scanSymbol {word : Keyword} (h : scanSymbol c text = .ok (.keyword word, rest)) :
    IsApart text rest := by
  rw [scanSymbol] at h
  split at h <;> cases h
  · exact .inl (negatedWord?_eq_some_iff.1 ‹_›).2
  · exact .inl (negatedWord?_eq_some_iff.1 ‹_›).2

theorem isApart_scanNumberEnd {isFloat : Bool} (h : scanNumberEnd isFloat text = .ok (k, rest)) :
    rest.head?.any isNamePart = false :=
  ((scanNumberEnd_eq_ok rfl).1 h).2.2

theorem isApart_scanNumber (hbase : hasBaseMark text = false)
    (h : scanNumber text = .ok (k, rest)) :
    rest.head?.any isNamePart = false := by
  have decimal {text : List Char} (h : scanDecimal text = .ok (k, rest)) :
      rest.head?.any isNamePart = false := by
    obtain ⟨mantissa, -, ⟨-, hend⟩ | ⟨digits, -, -, hend⟩⟩ := scanDecimal_eq_ok.1 h
    · exact isApart_scanNumberEnd hend
    · exact isApart_scanNumberEnd hend
  rw [scanNumber.eq_def] at h
  split at h
  · rw [if_neg (by simpa [hasBaseMark] using hbase)] at h
    exact decimal h
  · exact decimal h

/-- No token of a kind that may end with a name character is cut short, but a number with the
    mark of a base. -/
theorem isApart_of_nextToken (hk : k.endsAsWord)
    (hbase : k.isNumber → hasBaseMark (c :: text) = false)
    (h : nextToken afterJump c text = .ok (k, rest)) : IsApart (c :: text) rest := by
  cases firstToken_of_nextToken h with
  | blank | lineComment | blockComment | tripleQuotes | quotes | character => cases hk
  | quotedName h => exact (isApart_scanQuotedName h).cons '`'
  | atSign h => exact (isApart_scanAt h).cons '@'
  | number _ h =>
    have hnumber := TokenKind.isNumber_iff.2 (kind_of_scanNumber h)
    exact .inl (isApart_scanNumber (hbase hnumber) h)
  | word _ h => exact isApart_scanWord h
  | symbol h =>
    obtain ⟨word, rfl⟩ | ⟨mark, rfl⟩ := kind_of_scanSymbol h
    · exact isApart_scanSymbol h
    · cases hk

/-- A number takes the mark of its base. -/
theorem hasBaseMark_append (h : scanNumber (c :: (text ++ rest)) = .ok (k, rest)) :
    hasBaseMark (c :: (text ++ rest)) = hasBaseMark (c :: text) := by
  cases text with
  | cons d text => rfl
  | nil =>
    cases rest with
    | nil => rfl
    | cons d digits =>
      have halone : hasBaseMark [c] = false := Bool.and_false _
      rw [halone, Bool.eq_false_iff]
      intro hbase
      obtain ⟨hc, hmark⟩ := Bool.and_eq_true_iff.1 hbase
      obtain rfl := Option.some.inj (beq_iff_eq.1 hc)
      rw [List.nil_append, scanNumber, if_pos (by exact hmark)] at h
      exact not_append_cons_suffix [] (scanRadix_suffix h)

/-! ## Two tokens -/

/-- A token that touches another one comes right before it. -/
theorem Tiling.head?_of_touching {n : Nat} {pre post : List Token}
    (h : Tiling n text (pre ++ t :: post)) (hu : u ∈ pre ++ t :: post)
    (htouch : t.stop = u.start) : post.head? = some u := by
  have hlt {v : Token} (hv : v ∈ pre ++ t :: post) : v.start < v.stop := (h.le_start hv).2
  have ht : t ∈ pre ++ t :: post := List.mem_append_right _ List.mem_cons_self
  obtain ⟨-, htail, hbefore⟩ := List.pairwise_append.1 h.pairwise
  rcases List.mem_append.1 hu with hpre | hpost
  · have hle := hbefore u hpre t List.mem_cons_self
    have := hlt hu
    have := hlt ht
    omega
  · rcases List.mem_cons.1 hpost with rfl | hpost
    · exact absurd htouch (Nat.ne_of_gt (hlt hu))
    · cases post with
      | nil => cases hpost
      | cons v post =>
        rcases List.mem_cons.1 hpost with rfl | hlater
        · rfl
        · obtain ⟨hnext, hpost⟩ := List.pairwise_cons.1 htail
          have := hnext v List.mem_cons_self
          have := (List.pairwise_cons.1 hpost).1 u hlater
          have := hlt (v := v) (by simp)
          omega

/-- A token, and the token that touches it. -/
theorem exists_nextToken_touching {source : List Char} {tokens : List Token}
    (h : tokenize source = .ok tokens) (ht : t ∈ tokens) :
    ∃ afterJump c taken rest, t.text = c :: taken ∧
      nextToken afterJump c (taken ++ rest) = .ok (t.kind, rest) ∧
      ∀ u ∈ tokens, t.stop = u.start → u.text.head? = rest.head? := by
  obtain ⟨pre, post, rfl⟩ := List.append_of_mem ht
  obtain ⟨front, back, -, -, -, limit, afterJump, hl, hback⟩ :=
    tokensFrom_append (Nat.le_refl _) (tokenize_eq_ok.1 h)
  obtain ⟨c, taken, rest, limit', rfl, htext, hnext, hl', hrest⟩ := tokensFrom_inv hl hback
  refine ⟨afterJump, c, taken, rest, htext, hnext, fun u hu htouch => ?_⟩
  have hhead := (tiling_of_tokenize h).head?_of_touching hu htouch
  cases post with
  | nil => cases hhead
  | cons v post =>
    obtain rfl := Option.some.inj hhead
    obtain ⟨d, taken', rest', -, rfl, htext', -⟩ := tokensFrom_inv hl' hrest
    rw [htext']
    rfl

/-! ## Numbers that go on -/

/-- What begins with a digit is a number. -/
theorem nextToken_of_isDigit (hc : c.isDigit) (text : List Char) :
    nextToken afterJump c text = scanNumber (c :: text) := by
  have hblank : ¬isBlank c := by
    intro hblank
    rw [isDigit_of_isBlank hblank] at hc
    cases hc
  rw [nextToken.eq_def, if_neg hblank]
  split
  -- None of the first characters that are told apart is a digit.
  iterate 7 exact absurd hc (by decide)
  rw [if_pos hc]

theorem badLiteral_of_scanNumber {e : ScanError} (h : scanNumber text = .error e) :
    ∃ rest, e = .badLiteral .number rest := by
  have atEnd {isFloat : Bool} {text : List Char} (h : scanNumberEnd isFloat text = .error e) :
      ∃ rest, e = .badLiteral .number rest := by
    simp only [scanNumberEnd] at h
    generalize (if text.head?.any fun c => c == 'f' || c == 'F' then text.drop 1
        else if isFloat then text else afterIntegerSuffix text) = after at h
    split at h <;> cases h
    exact ⟨_, rfl⟩
  have decimal {text : List Char} (h : scanDecimal text = .error e) :
      ∃ rest, e = .badLiteral .number rest := by
    simp only [scanDecimal] at h
    split at h
    · exact atEnd h
    · split at h
      · exact atEnd h
      · cases h
        exact ⟨_, rfl⟩
  rw [scanNumber.eq_def] at h
  split at h
  · split at h
    · simp only [scanRadix] at h
      split at h <;> cases h
      exact ⟨_, rfl⟩
    · exact decimal h
  · exact decimal h

/-- A number that a name character follows is longer, or ill-formed. -/
theorem suffix_of_scanNumber {more rest' : List Char} {d : Char} {k' : TokenKind}
    (h : scanNumber (c :: text ++ more) = .ok (k, more)) (hc : c.isDigit)
    (hbase : hasBaseMark (c :: text) = false) (hd : isNamePart d)
    (h' : scanNumber (c :: text ++ d :: rest) = .ok (k', rest')) : rest' <:+ rest := by
  by_contra hshort
  have hsuffix : rest' <:+ c :: text ++ d :: rest :=
    (scanNumber_suffix hc h').trans (List.suffix_cons _ _)
  -- Else the number would end before the character, as it does where nothing follows.
  obtain ⟨left, rfl⟩ : d :: rest <:+ rest' := by
    obtain hle | hle := List.suffix_or_suffix_of_suffix hsuffix (List.suffix_append _ (d :: rest))
    · rw [List.suffix_cons_iff] at hle
      exact hle.resolve_right hshort ▸ List.suffix_rfl
    · exact hle
  have halone : scanNumber (c :: text) = .ok (k, []) := by
    cases more with
    | nil => simpa using h
    | cons b more => exact scanNumber_of_append h
  obtain ⟨rfl, rfl⟩ := Prod.mk.inj (Except.ok.inj ((scanNumber_of_append h').symm.trans halone))
  have hmark := hasBaseMark_append (show scanNumber (c :: (text ++ d :: rest)) = _ from h')
  have hplain : isNamePart d = false := isApart_scanNumber (hmark.trans hbase) h'
  rw [hd] at hplain
  cases hplain

theorem tokensFrom_of_number {more : List Char} {d : Char} {limit n : Nat}
    (h : scanNumber (c :: text ++ more) = .ok (k, more)) (hc : c.isDigit)
    (hbase : hasBaseMark (c :: text) = false) (hd : isNamePart d) :
    (∃ taken, tokensFrom (limit + 1) afterJump n (c :: text ++ d :: rest) =
        ([], some (.badLiteral .number taken n))) ∨
      ∃ u us fault, tokensFrom (limit + 1) afterJump n (c :: text ++ d :: rest) =
        (u :: us, fault) ∧ u.kind.isNumber ∧ c :: text ++ [d] <+: u.text := by
  rw [List.cons_append, tokensFrom, nextToken_of_isDigit hc]
  cases hscan : scanNumber (c :: (text ++ d :: rest)) with
  | error e =>
    obtain ⟨left, rfl⟩ := badLiteral_of_scanNumber hscan
    exact .inl ⟨_, rfl⟩
  | ok scanned =>
    obtain ⟨k', rest'⟩ := scanned
    obtain ⟨front, rfl⟩ := suffix_of_scanNumber h hc hbase hd hscan
    refine .inr ⟨_, _, _, rfl, TokenKind.isNumber_iff.2 (kind_of_scanNumber hscan), front, ?_⟩
    have htaken := consumed_append_left (c :: text ++ d :: front) rest'
    simpa using htaken.symm

/-- Words do not touch: behind a token that ends with a name character none comes first, unless the
    token is a number in another base than ten. A number that a name character follows is no token,
    but part of a longer one or of a literal that is ill-formed. -/
theorem words_apart {source : List Char} {tokens : List Token} (h : tokenize source = .ok tokens)
    (ht : t ∈ tokens) (hk : t.kind.endsAsWord)
    (hbase : t.kind.isNumber → hasBaseMark t.text = false) :
    (∀ u ∈ tokens, t.stop = u.start → t.text.getLast?.any isNamePart →
      u.text.head?.any isNamePart = false) ∧
    (t.kind.isNumber → ∀ (d : Char) (rest : List Char) (limit n : Nat) (afterJump : Bool),
      isNamePart d →
        (∃ taken, tokensFrom (limit + 1) afterJump n (t.text ++ d :: rest) =
          ([], some (.badLiteral .number taken n))) ∨
        ∃ u us fault, tokensFrom (limit + 1) afterJump n (t.text ++ d :: rest) = (u :: us, fault) ∧
          u.kind.isNumber ∧ t.text ++ [d] <+: u.text) := by
  obtain ⟨afterJump, c, taken, rest, htext, hnext, htouching⟩ := exists_nextToken_touching h ht
  have hscan (hnumber : t.kind.isNumber) :=
    scanNumber_of_nextToken (TokenKind.isNumber_iff.1 hnumber) hnext
  rw [htext] at hbase ⊢
  constructor
  · intro u hu htouch hlast
    rw [htouching u hu htouch]
    obtain hplain | ⟨front, last, heq, hmark⟩ := isApart_of_nextToken hk
      (fun hnumber => (hasBaseMark_append (hscan hnumber).2).trans (hbase hnumber)) hnext
    · exact hplain
    · have htaken : c :: taken = front ++ [last] := List.append_cancel_right
        (show c :: taken ++ rest = front ++ [last] ++ rest by simpa using heq)
      rw [htaken, List.getLast?_concat, Option.any_some, hmark] at hlast
      cases hlast
  · intro hnumber d rest limit n afterJump hd
    exact tokensFrom_of_number (hscan hnumber).2 (hscan hnumber).1 (hbase hnumber) hd

/-- A number before an operator, and the number where it runs into a word. -/
theorem words_apart_of_number :
    tokenize "1+g".toList = .ok [⟨.literal .integer, 0, "1".toList⟩, ⟨.symbol .plus, 1, "+".toList⟩,
        ⟨.identifier, 2, "g".toList⟩] ∧
      "+".toList.head?.any isNamePart = false ∧
      ((∃ taken, tokensFrom 2 false 0 "1g".toList = ([], some (.badLiteral .number taken 0))) ∨
        ∃ u us fault, tokensFrom 2 false 0 "1g".toList = (u :: us, fault) ∧ u.kind.isNumber ∧
          "1g".toList <+: u.text) := by
  have h : tokenize "1+g".toList = .ok [⟨.literal .integer, 0, "1".toList⟩,
      ⟨.symbol .plus, 1, "+".toList⟩, ⟨.identifier, 2, "g".toList⟩] := rfl
  obtain ⟨hplus, hnumber⟩ := words_apart h List.mem_cons_self rfl fun _ => rfl
  exact ⟨h, hplus _ (List.mem_cons_of_mem _ List.mem_cons_self) rfl rfl,
    hnumber rfl 'g' [] 1 0 false rfl⟩

/-- A number in base sixteen is cut short where a name goes on. -/
theorem not_words_apart_of_hex :
    tokenize "0x1g".toList =
        .ok [⟨.literal .integer, 0, "0x1".toList⟩, ⟨.identifier, 3, "g".toList⟩] ∧
      Token.stop ⟨.literal .integer, 0, "0x1".toList⟩ = 3 ∧
      "0x1".toList.getLast?.any isNamePart ∧ "g".toList.head?.any isNamePart :=
  ⟨rfl, rfl, rfl, rfl⟩

end ResultHints
