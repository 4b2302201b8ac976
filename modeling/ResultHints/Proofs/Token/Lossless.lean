import Mathlib.Data.List.Chain
import ResultHints.Proofs.Token.Tiling

/-!
# Nothing of a text is lost

The tokens of a source text, joined, are the text again; of a text with a fault they
are the text up to a place, and the fault is told at that place or behind it, but
before the end. White space is never cut in two. Main statements:

- `position_of_tokensEnd`: a fault points into what is left of the text;
- `tokens_lossless`: the offsets of the tokens and of the fault.
-/

namespace ResultHints

variable {text rest start : List Char} {k : TokenKind} {afterJump : Bool} {c : Char}

/-! ## White space and strings -/

/-- What is scanned is no string that is left open. -/
def IsPlain : Scanned → Prop
  | .error (.openString _) => False
  | _ => True

theorem isPlain_scanRadix (text : List Char) : IsPlain (scanRadix text) := by
  rw [scanRadix]
  split <;> trivial

theorem isPlain_scanNumberEnd (isFloat : Bool) (text : List Char) :
    IsPlain (scanNumberEnd isFloat text) := by
  simp only [scanNumberEnd]
  generalize (if text.head?.any fun c => c == 'f' || c == 'F' then text.drop 1
      else if isFloat then text else afterIntegerSuffix text) = rest
  split <;> trivial

theorem isPlain_scanNumber (text : List Char) : IsPlain (scanNumber text) := by
  have decimal (text : List Char) : IsPlain (scanDecimal text) := by
    simp only [scanDecimal]
    split
    · exact isPlain_scanNumberEnd _ _
    · split
      · exact isPlain_scanNumberEnd _ _
      · trivial
  rw [scanNumber.eq_def]
  split
  · split
    · exact isPlain_scanRadix _
    · exact decimal _
  · exact decimal _

theorem isPlain_scanCharacter (text : List Char) : IsPlain (scanCharacter text) := by
  rw [scanCharacter]
  split <;> trivial

theorem isPlain_scanQuotedName (text : List Char) : IsPlain (scanQuotedName text) := by
  rw [scanQuotedName]
  split <;> trivial

theorem isPlain_scanAt (afterJump : Bool) (text : List Char) : IsPlain (scanAt afterJump text) := by
  rw [scanAt.eq_def]
  cases afterJump <;> dsimp only <;> split <;> (try split) <;> trivial

theorem isPlain_scanSymbol (c : Char) (text : List Char) : IsPlain (scanSymbol c text) := by
  rw [scanSymbol]
  split <;> trivial

/-- White space is taken as far as it goes, and so is a comment that ends with its line. -/
theorem nextToken_trivia {sort : TriviaKind}
    (h : nextToken afterJump c text = .ok (.trivia sort, rest)) :
    sort = .blank ∧ isBlank c ∧ rest = text.dropWhile isBlank ∨
      sort = .lineComment ∧ (∃ inside : List Char, rest = inside.dropWhile (· != '\n')) ∨
      sort = .blockComment := by
  cases firstToken_of_nextToken h with
  | blank hc => exact .inl ⟨rfl, hc, rfl⟩
  | lineComment => exact .inr (.inl ⟨rfl, _, rfl⟩)
  | blockComment => exact .inr (.inr rfl)
  | quotedName h => obtain hk | hk := kind_of_scanQuotedName h <;> cases hk
  | atSign h => obtain hk | hk := kind_of_scanAt h <;> cases hk
  | number _ h => obtain hk | hk := kind_of_scanNumber h <;> cases hk
  | word _ h => obtain hk | hk | ⟨word, hk⟩ := kind_of_scanWord h <;> cases hk
  | symbol h => obtain ⟨word, hk⟩ | ⟨mark, hk⟩ := kind_of_scanSymbol h <;> cases hk

theorem nextToken_blank (h : nextToken afterJump c text = .ok (.trivia .blank, rest)) :
    isBlank c ∧ rest = text.dropWhile isBlank := by
  obtain ⟨-, hblank⟩ | ⟨hsort, -⟩ | hsort := nextToken_trivia h
  · exact hblank
  · cases hsort
  · cases hsort

/-- Behind a comment that ends with its line comes a line break, or nothing. -/
theorem head?_of_lineComment (h : nextToken afterJump c text = .ok (.trivia .lineComment, rest)) :
    ∀ d ∈ rest.head?, d = '\n' := by
  obtain ⟨hsort, -⟩ | ⟨-, inside, rfl⟩ | hsort := nextToken_trivia h
  · cases hsort
  · intro d hd
    have hstop := List.head?_dropWhile_not (· != '\n') inside
    rw [Option.mem_def.1 hd] at hstop
    simpa using hstop
  · cases hsort

namespace Enclosure

@[simp] theorem start_quotes (start : List Char) : (quotes start).start = start := rfl

@[simp] theorem start_tripleQuotes (run : Nat) (start : List Char) :
    (tripleQuotes run start).start = start := rfl

@[simp] theorem start_template (depth : Nat) (start : List Char) :
    (template depth start).start = start := rfl

end Enclosure

/-- A string that is open at some place of a text: it begins in the text, or is one of those
    around it. -/
def OpensIn (text : List Char) (outer : List (List Char)) (start : List Char) : Prop :=
  (start <:+ text ∧ start ≠ []) ∨ start ∈ outer

theorem OpensIn.mono {outer outer' : List (List Char)} (h : OpensIn rest outer start)
    (htext : rest <:+ text) (houter : ∀ s ∈ outer, OpensIn text outer' s) :
    OpensIn text outer' start := by
  obtain ⟨hsuffix, hne⟩ | hmem := h
  · exact .inl ⟨hsuffix.trans htext, hne⟩
  · exact houter start hmem

/-- A string that is left open is open at some place of the text. -/
theorem stringEnd_error {e : Enclosure} {outer : List Enclosure}
    (h : stringEnd e outer text = .error start) :
    OpensIn text ((e :: outer).map Enclosure.start) start := by
  -- Each step passes some characters and opens a string at them, or none.
  fun_induction stringEnd e outer text with
  | case1 | case4 | case5 | case6 =>
    obtain rfl := Except.error.inj h
    exact .inr List.mem_cons_self
  | case2 | case10 | case16 => cases h
  | case7 | case8 | case13 =>
    rename_i ih
    refine (ih h).mono ((List.suffix_cons _ _).trans (List.suffix_cons _ _)) ?_
    simp +contextual [OpensIn]
  | case19 =>
    rename_i ih
    refine (ih h).mono ((List.suffix_cons _ _).trans
      ((List.suffix_cons _ _).trans (List.suffix_cons _ _))) ?_
    simp +contextual [OpensIn]
  | _ =>
    rename_i ih
    refine (ih h).mono (List.suffix_cons _ _) ?_
    simp +contextual [OpensIn]

theorem scanString_error {e : Enclosure} (h : scanString e text = .error (.openString start)) :
    OpensIn text [e.start] start := by
  rw [scanString] at h
  split at h
  · cases h
  · next hopen =>
    cases h
    exact stringEnd_error hopen

/-- A string that is left open begins in the text. -/
theorem nextToken_openString (h : nextToken afterJump c text = .error (.openString start)) :
    start <:+ c :: text ∧ start ≠ [] := by
  have plain {r : Scanned} (hr : IsPlain r) : r ≠ .error (.openString start) := by
    rintro rfl
    exact hr
  have inside {e : Enclosure} {inside : List Char} (hinside : inside <:+ c :: text)
      (he : e.start = c :: text) (h : scanString e inside = .error (.openString start)) :
      start <:+ c :: text ∧ start ≠ [] := by
    obtain ⟨hsuffix, hne⟩ | hmem := scanString_error h
    · exact ⟨hsuffix.trans hinside, hne⟩
    · rw [List.mem_singleton.1 hmem, he]
      exact ⟨List.suffix_rfl, List.cons_ne_nil _ _⟩
  rw [nextToken.eq_def] at h
  split at h
  · cases h
  · split at h
    · cases h
    · simp only [scanBlockComment] at h
      split at h <;> cases h
    · exact inside (List.suffix_append ['\"', '\"', '\"'] _) rfl h
    · exact inside (List.suffix_cons _ _) rfl h
    · exact absurd h (plain (isPlain_scanCharacter _))
    · exact absurd h (plain (isPlain_scanQuotedName _))
    · exact absurd h (plain (isPlain_scanAt _ _))
    · split at h
      · exact absurd h (plain (isPlain_scanNumber _))
      · split at h
        · cases h
        · exact absurd h (plain (isPlain_scanSymbol _ _))

/-! ## Tokens that tile -/

namespace Tiling

variable {n : Nat} {ts : List Token} {t : Token}

theorem flatMap_text (h : Tiling n text ts) : ts.flatMap Token.text = text := by
  induction h with
  | nil => rfl
  | cons _ _ ih => rw [List.flatMap_cons, ih]

theorem start_of_head? (h : Tiling n text ts) (ht : t ∈ ts.head?) : t.start = n := by
  cases h with
  | nil => cases ht
  | cons _ _ =>
    obtain rfl := Option.some.inj ht
    rfl

/-- Each token begins where the one before ends. -/
theorem isChain (h : Tiling n text ts) : ts.IsChain fun t u => t.stop = u.start := by
  induction h with
  | nil => exact .nil
  | cons _ htail ih => exact List.isChain_cons.2 ⟨fun u hu => (htail.start_of_head? hu).symm, ih⟩

theorem stop_of_getLast? (h : Tiling n text ts) (ht : t ∈ ts.getLast?) :
    t.stop = n + byteLength text := by
  induction h with
  | nil => cases ht
  | @cons s rest ts _ htail ih =>
    rw [byteLength_append, ← Nat.add_assoc]
    cases ts with
    | nil =>
      obtain rfl := Option.some.inj ht
      obtain rfl : [] = rest := htail.flatMap_text
      rfl
    | cons u us =>
      rw [List.getLast?_cons_cons] at ht
      exact ih ht

/-- The span of a token names its text. -/
theorem slice_span {before : List Char} (h : Tiling n text ts) (hn : byteLength before = n)
    (ht : t ∈ ts) (behind : List Char) : slice (before ++ text ++ behind) t.span = t.text := by
  induction h generalizing before with
  | nil => exact absurd ht List.not_mem_nil
  | @cons s rest ts _ _ ih =>
    rcases List.mem_cons.1 ht with rfl | ht
    · rw [Token.span, Token.stop, ← hn, ← List.append_assoc, List.append_assoc _ rest]
      exact slice_append _ _ _
    · rw [← List.append_assoc]
      exact ih (by rw [byteLength_append, hn, Token.stop]) ht

end Tiling

/-- The first token of a text is the one that the text begins with. -/
theorem nextToken_of_head? {limit n : Nat} {u : Token}
    (h : u ∈ (tokensFrom limit afterJump n text).1.head?) :
    ∃ c cs rest, text = c :: cs ∧ nextToken afterJump c cs = .ok (u.kind, rest) := by
  cases limit with
  | zero => cases h
  | succ limit =>
    cases text with
    | nil => cases h
    | cons c cs =>
      rw [tokensFrom] at h
      split at h
      · cases h
      · next k rest hk =>
        obtain rfl := Option.some.inj h
        exact ⟨c, cs, rest, rfl, hk⟩

/-- Of two tokens one after the other, not both are white space. -/
theorem isChain_tokensFrom {limit n : Nat} {ts : List Token} {fault : Option Fault}
    (h : tokensFrom limit afterJump n text = (ts, fault)) :
    ts.IsChain fun t u => ¬(t.kind = .trivia .blank ∧ u.kind = .trivia .blank) := by
  induction limit generalizing afterJump n text ts with
  | zero =>
    obtain ⟨rfl, -⟩ := Prod.mk.inj h
    exact .nil
  | succ limit ih =>
    cases text with
    | nil =>
      obtain ⟨rfl, -⟩ := Prod.mk.inj h
      exact .nil
    | cons c cs =>
      rw [tokensFrom] at h
      split at h
      · obtain ⟨rfl, -⟩ := Prod.mk.inj h
        exact .nil
      · next k rest hk =>
        obtain ⟨rfl, hfault⟩ := Prod.mk.inj h
        refine List.isChain_cons.2 ⟨fun u hu => ?_, ih (Prod.ext rfl hfault)⟩
        rintro ⟨rfl, hblank⟩
        -- What follows white space does not begin with any.
        obtain ⟨-, rfl⟩ := nextToken_blank hk
        obtain ⟨c', cs', rest', heq, hnext⟩ := nextToken_of_head? hu
        rw [hblank] at hnext
        have hhead := List.head?_dropWhile_not isBlank cs
        rw [heq] at hhead
        exact absurd (nextToken_blank hnext).1 (by simpa using hhead)

/-! ## Offsets -/

/-- A fault tells an offset in what is left of the text: at its beginning or behind it, between
    two characters, and before the end. -/
theorem position_of_tokensEnd {fault : Fault} {n : Nat} (h : TokensEnd (some fault) n rest) :
    ∃ read left, rest = read ++ left ∧ left ≠ [] ∧
      fault.position? = some (n + byteLength read) := by
  obtain ⟨afterJump, c, cs, e, rfl, he, rfl⟩ := h
  cases e with
  | openString start =>
    obtain ⟨hsuffix, hne⟩ := nextToken_openString he
    exact ⟨_, start, (consumed_append hsuffix).symm, hne, rfl⟩
  | _ => exact ⟨[], c :: cs, rfl, List.cons_ne_nil _ _, rfl⟩

theorem IsBoundary.append_right {n : Nat} (h : IsBoundary text n) (rest : List Char) :
    IsBoundary (text ++ rest) n := by
  obtain ⟨a, b, rfl, rfl⟩ := h
  exact ⟨a, b ++ rest, List.append_assoc _ _ _, rfl⟩

/-- The tokens cut a text, from its beginning up to the offset `stop`, into pieces. -/
structure Cuts (source : List Char) (stop : Nat) (ts : List Token) : Prop where
  /-- Every token takes something, between characters, and its span names its text. -/
  token : ∀ t ∈ ts, t.start < t.stop ∧ IsBoundary source t.start ∧ IsBoundary source t.stop ∧
    slice source t.span = t.text
  first : ∀ t ∈ ts.head?, t.start = 0
  touching : ts.IsChain fun t u => t.stop = u.start
  last : ∀ t ∈ ts.getLast?, t.stop = stop
  /-- Joined, the tokens are the text up to the offset. -/
  joined : ∃ rest, source = ts.flatMap Token.text ++ rest ∧
    byteLength (ts.flatMap Token.text) = stop
  blanks : ts.IsChain fun t u => ¬(t.kind = .trivia .blank ∧ u.kind = .trivia .blank)

theorem text_ne_nil_of_tiling {n : Nat} {ts : List Token} (h : Tiling n text ts) {t : Token}
    (ht : t ∈ ts) : t.text ≠ [] := by
  induction h with
  | nil => exact absurd ht List.not_mem_nil
  | cons hne _ ih =>
    rcases List.mem_cons.1 ht with rfl | ht
    · exact hne
    · exact ih ht

theorem cuts_of_tiling {ts : List Token} (h : Tiling 0 text ts) (rest : List Char)
    (hblanks : ts.IsChain fun t u => ¬(t.kind = .trivia .blank ∧ u.kind = .trivia .blank)) :
    Cuts (text ++ rest) (byteLength text) ts where
  token t ht := by
    have hnone : byteLength [] = 0 := rfl
    obtain ⟨hstart, hstop⟩ := h.isBoundary hnone ht
    exact ⟨Token.start_lt_stop (text_ne_nil_of_tiling h ht), hstart.append_right rest,
      hstop.append_right rest, h.slice_span hnone ht rest⟩
  first _ ht := h.start_of_head? ht
  touching := h.isChain
  last t ht := by rw [h.stop_of_getLast? ht, Nat.zero_add]
  joined := ⟨rest, by rw [h.flatMap_text], by rw [h.flatMap_text]⟩
  blanks := hblanks

/-- The tokens of a text cut it into pieces, from the beginning to the end or up to a place where
    no token begins. In the latter case the fault tells an offset at this place or behind it,
    between two characters, and before the end of the text. -/
theorem tokens_lossless (source : List Char) : ∃ stop, Cuts source stop (tokenStream source).1 ∧
    match (tokenStream source).2 with
    | none => tokenize source = .ok (tokenStream source).1 ∧ stop = byteLength source ∧
      (tokenStream source).1.flatMap Token.text = source
    | some fault => tokenize source = .error fault ∧ stop < byteLength source ∧
      ∃ q, fault.position? = some q ∧ stop ≤ q ∧ q < byteLength source ∧ IsBoundary source q := by
  obtain ⟨ts, fault, hstream⟩ : ∃ ts fault, tokenStream source = (ts, fault) := ⟨_, _, rfl⟩
  obtain ⟨front, back, rfl, htiling, hend⟩ := tiling_of_tokensFrom (Nat.le_refl _) hstream
  refine ⟨byteLength front, hstream ▸ cuts_of_tiling htiling back (isChain_tokensFrom hstream), ?_⟩
  cases fault with
  | none =>
    obtain rfl : back = [] := hend
    rw [hstream]
    refine ⟨by rw [tokenize, hstream], ?_, ?_⟩
    · rw [List.append_nil]
    · rw [htiling.flatMap_text, List.append_nil]
  | some fault =>
    obtain ⟨read, left, rfl, hne, hposition⟩ := position_of_tokensEnd hend
    have hleft := byteLength_pos hne
    rw [hstream]
    simp only [byteLength_append]
    refine ⟨by rw [tokenize, hstream], by omega, byteLength front + byteLength read, ?_, by omega,
      by omega, ?_⟩
    · rw [hposition, Nat.zero_add]
    · exact ⟨front ++ read, left, by rw [List.append_assoc], byteLength_append _ _⟩

end ResultHints
