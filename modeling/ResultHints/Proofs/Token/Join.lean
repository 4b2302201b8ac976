import ResultHints.Proofs.Token.Blank
import ResultHints.Proofs.Token.Lossless

/-!
# The tokens of two texts

A text, a line break and another text have the tokens of both texts, but for the white
space about the line break, which is one token (`tokenize_break`). So their lexemes are
those of the first text and then those of the second, of which the first comes after a
line break (`Joined.lexemes_eq`).
-/

namespace ResultHints

/-- The token, further behind in a text. -/
def Token.shift (d : Nat) (t : Token) : Token := { t with start := t.start + d }

@[simp] theorem Token.shift_kind (d : Nat) (t : Token) : (t.shift d).kind = t.kind := rfl

@[simp] theorem Token.shift_text (d : Nat) (t : Token) : (t.shift d).text = t.text := rfl

@[simp] theorem Token.shift_start (d : Nat) (t : Token) : (t.shift d).start = t.start + d := rfl

@[simp] theorem Token.shift_stop (d : Nat) (t : Token) : (t.shift d).stop = t.stop + d :=
  Nat.add_right_comm _ _ _

variable {text rest : List Char} {afterJump : Bool} {ts : List Token}

theorem consumed_append_left (a b : List Char) : consumed (a ++ b) b = a := by
  rw [consumed, List.length_append, Nat.add_sub_cancel, List.take_left' rfl]

/-- What is taken does not depend on what comes after the rest. -/
theorem consumed_append_append (h : rest <:+ text) (more : List Char) :
    consumed (text ++ more) (rest ++ more) = consumed text rest := by
  obtain ⟨taken, rfl⟩ := h
  rw [List.append_assoc, consumed_append_left, consumed_append_left]

theorem consumed_dropWhile (p : Char → Bool) (text : List Char) :
    consumed text (text.dropWhile p) = text.takeWhile p := by
  have h := consumed_append_left (text.takeWhile p) (text.dropWhile p)
  rwa [List.takeWhile_append_dropWhile] at h

theorem nextToken_of_isBlank {c : Char} (h : isBlank c) (text : List Char) :
    nextToken afterJump c text = .ok (.trivia .blank, (c :: text).dropWhile isBlank) := by
  rw [nextToken.eq_def, if_pos h, List.dropWhile_cons_of_pos h]

theorem tokenize_eq_ok : tokenize text = .ok ts ↔ tokenStream text = (ts, none) := by
  rw [tokenize]
  split
  · next h => simp [h]
  · next h => simp [h]

/-- The tokens of a text that has no fault: the first one, and those after it. -/
theorem tokensFrom_cons {limit n : Nat} {c : Char} :
    tokensFrom (limit + 1) afterJump n (c :: text) = (ts, none) ↔
      ∃ k rest us, nextToken afterJump c text = .ok (k, rest) ∧
        tokensFrom limit k.takesLabel (n + byteLength (consumed (c :: text) rest)) rest =
          (us, none) ∧ ts = ⟨k, n, consumed (c :: text) rest⟩ :: us := by
  rw [tokensFrom]
  constructor
  · intro h
    split at h
    · cases (Prod.mk.inj h).2
    · next k rest hk =>
      obtain ⟨rfl, hnone⟩ := Prod.mk.inj h
      exact ⟨k, rest, _, hk, Prod.ext rfl hnone, rfl⟩
  · rintro ⟨k, rest, us, hk, hus, rfl⟩
    rw [hk]
    dsimp only [Token.stop]
    rw [hus]

/-- Where a text begins tells where its tokens begin, and nothing else about them. -/
theorem tokensFrom_shift {limit limit' n : Nat} (hl : text.length ≤ limit)
    (hl' : text.length ≤ limit') (h : tokensFrom limit afterJump n text = (ts, none)) (d : Nat) :
    tokensFrom limit' afterJump (n + d) text = (ts.map (Token.shift d), none) := by
  induction limit generalizing limit' afterJump n text ts with
  | zero =>
    obtain rfl := List.eq_nil_of_length_eq_zero (Nat.le_zero.1 hl)
    obtain ⟨rfl, -⟩ := Prod.mk.inj h
    cases limit' <;> rfl
  | succ limit ih =>
    cases text with
    | nil =>
      obtain ⟨rfl, -⟩ := Prod.mk.inj h
      cases limit' <;> rfl
    | cons c cs =>
      rw [List.length_cons] at hl hl'
      obtain ⟨limit', rfl⟩ : ∃ l, limit' = l + 1 := ⟨limit' - 1, by omega⟩
      obtain ⟨k, rest, us, hk, hus, rfl⟩ := tokensFrom_cons.1 h
      have hlen := (nextToken_suffix hk).length_le
      refine tokensFrom_cons.2 ⟨k, rest, us.map (Token.shift d), hk, ?_, rfl⟩
      rw [Nat.add_right_comm]
      exact ih (by omega) (by omega) hus

/-- The tokens after the white space that a text begins with. -/
theorem tokensFrom_dropWhile (h : tokenize text = .ok ts) : ∃ lead tail, ts = lead ++ tail ∧
    (∀ t ∈ lead, t.kind = .trivia .blank) ∧ lead.flatMap (·.text) = text.takeWhile isBlank ∧
    ∀ limit, text.length ≤ limit → ∀ d,
      tokensFrom limit false (d + byteLength (text.takeWhile isBlank)) (text.dropWhile isBlank) =
        (tail.map (Token.shift d), none) := by
  rw [tokenize_eq_ok, tokenStream] at h
  cases text with
  | nil =>
    obtain ⟨rfl, -⟩ := Prod.mk.inj h
    exact ⟨[], [], rfl, by simp, rfl, fun limit _ d => by cases limit <;> rfl⟩
  | cons c cs =>
    by_cases hc : isBlank c
    · obtain ⟨k, rest, us, hk, hus, rfl⟩ := tokensFrom_cons.1 h
      obtain ⟨rfl, rfl⟩ := Prod.mk.inj (Except.ok.inj ((nextToken_of_isBlank hc _).symm.trans hk))
      have hlen := (nextToken_suffix hk).length_le
      refine ⟨[_], us, rfl, by simp, by simp [consumed_dropWhile], fun limit hl d => ?_⟩
      rw [List.length_cons] at hl
      rw [consumed_dropWhile, Nat.zero_add] at hus
      rw [Nat.add_comm]
      exact tokensFrom_shift hlen (by omega) hus d
    · rw [List.takeWhile_cons_of_neg hc, List.dropWhile_cons_of_neg hc]
      refine ⟨[], ts, rfl, by simp, rfl, fun limit hl d => ?_⟩
      rw [Nat.add_comm]
      exact tokensFrom_shift (Nat.le_refl _) hl h d

/-- The tokens of two texts and those of both with a line break between them, where the second one
    begins at the offset `d`: all of them but the white space at the end of the first text and at
    the beginning of the second, which is one token with the line break. -/
inductive Joined (d : Nat) : (ts us both : List Token) → Prop
  | intro {init trail lead tail : List Token} {gap : Token} :
    (∀ t ∈ trail, t.kind = .trivia .blank) → (∀ t ∈ lead, t.kind = .trivia .blank) →
    gap.kind = .trivia .blank → '\n' ∈ gap.text →
    Joined d (init ++ trail) (lead ++ tail) (init ++ gap :: tail.map (Token.shift d))

theorem Joined.cons {d : Nat} {ts us both : List Token} (t : Token) (h : Joined d ts us both) :
    Joined d (t :: ts) us (t :: both) := by
  obtain ⟨htrail, hlead, hkind, hbreak⟩ := h
  rw [← List.cons_append, ← List.cons_append]
  exact .intro htrail hlead hkind hbreak

/-- White space at the end of a text is one token with the line break and the white space after
    it. -/
theorem tokensFrom_gap {blank more : List Char} {trail us : List Token} {limit n : Nat}
    (hblank : blank.dropWhile isBlank = []) (htrail : ∀ t ∈ trail, t.kind = .trivia .blank)
    (hl : blank.length + 1 + more.length ≤ limit) (hmore : tokenize more = .ok us) :
    ∃ both, tokensFrom limit afterJump n (blank ++ '\n' :: more) = (both, none) ∧
      Joined (n + byteLength blank + 1) trail us both := by
  obtain ⟨lead, tail, rfl, hlead, -, htail⟩ := tokensFrom_dropWhile hmore
  have hdrop : (blank ++ '\n' :: more).dropWhile isBlank = more.dropWhile isBlank := by
    rw [List.dropWhile_append, hblank, List.dropWhile_cons_of_pos (by decide)]
    rfl
  have htake : (blank ++ '\n' :: more).takeWhile isBlank =
      blank ++ '\n' :: more.takeWhile isBlank := by
    have hall : blank.takeWhile isBlank = blank := by
      have h := List.takeWhile_append_dropWhile (p := isBlank) (l := blank)
      rwa [hblank, List.append_nil] at h
    rw [List.takeWhile_append, hall, if_pos rfl, List.takeWhile_cons_of_pos (by decide)]
  obtain ⟨c, cs, htext, hc⟩ : ∃ c cs, blank ++ '\n' :: more = c :: cs ∧ isBlank c := by
    cases blank with
    | nil => exact ⟨'\n', more, rfl, by decide⟩
    | cons c cs => exact ⟨c, _, rfl, by by_contra hc; simp [hc] at hblank⟩
  obtain ⟨limit, rfl⟩ : ∃ l, limit = l + 1 := ⟨limit - 1, by omega⟩
  have hfirst : nextToken afterJump c cs = .ok (.trivia .blank, more.dropWhile isBlank) := by
    rw [nextToken_of_isBlank hc, ← htext, hdrop]
  have hgap : consumed (blank ++ '\n' :: more) (more.dropWhile isBlank) =
      blank ++ '\n' :: more.takeWhile isBlank := by rw [← hdrop, consumed_dropWhile, htake]
  have hlength : byteLength (blank ++ '\n' :: more.takeWhile isBlank) =
      byteLength blank + 1 + byteLength (more.takeWhile isBlank) := by
    rw [byteLength_append, byteLength_cons, Nat.add_assoc]
    rfl
  refine ⟨⟨.trivia .blank, n, blank ++ '\n' :: more.takeWhile isBlank⟩ ::
      tail.map (Token.shift (n + byteLength blank + 1)), ?_, ?_⟩
  swap
  · rw [← List.nil_append trail, ← List.nil_append (_ :: _)]
    exact .intro htrail hlead rfl (by simp)
  rw [htext, tokensFrom_cons]
  refine ⟨_, _, _, hfirst, ?_, by rw [← htext, hgap]⟩
  rw [← htext, hgap, hlength, ← Nat.add_assoc, ← Nat.add_assoc]
  exact htail limit (by omega) _

theorem tokensFrom_break {more : List Char} {us : List Token} {limit limit' n : Nat}
    (hl : text.length ≤ limit) (hl' : text.length + 1 + more.length ≤ limit')
    (h : tokensFrom limit afterJump n text = (ts, none)) (hmore : tokenize more = .ok us) :
    ∃ both, tokensFrom limit' afterJump n (text ++ '\n' :: more) = (both, none) ∧
      Joined (n + byteLength text + 1) ts us both := by
  induction limit generalizing limit' afterJump n text ts with
  | zero =>
    obtain rfl := List.eq_nil_of_length_eq_zero (Nat.le_zero.1 hl)
    obtain ⟨rfl, -⟩ := Prod.mk.inj h
    exact tokensFrom_gap rfl (by simp) hl' hmore
  | succ limit ih =>
    cases text with
    | nil =>
      obtain ⟨rfl, -⟩ := Prod.mk.inj h
      exact tokensFrom_gap rfl (by simp) hl' hmore
    | cons c cs =>
      obtain ⟨k, rest, ts, hk, hts, rfl⟩ := tokensFrom_cons.1 h
      by_cases hend : k = .trivia .blank ∧ rest = []
      · -- The white space at the end goes on after the line break.
        obtain ⟨rfl, rfl⟩ := hend
        obtain ⟨hc, hrest⟩ := nextToken_blank hk
        obtain rfl : [] = ts := by
          cases limit <;> exact (Prod.mk.inj hts).1
        refine tokensFrom_gap ?_ (by simp) hl' hmore
        rw [List.dropWhile_cons_of_pos hc, ← hrest]
      · have hsuffix := nextToken_suffix hk
        have hlen := hsuffix.length_le
        rw [List.length_cons] at hl hl'
        obtain ⟨limit', rfl⟩ : ∃ l, limit' = l + 1 := ⟨limit' - 1, by omega⟩
        have hl'' : rest.length + 1 + more.length ≤ limit' := by omega
        obtain ⟨both, hboth, hjoined⟩ := ih (by omega) hl'' hts
        have htaken := consumed_append_append (hsuffix.trans (List.suffix_cons c cs))
          ('\n' :: more)
        rw [List.cons_append] at htaken ⊢
        have hnext : nextToken afterJump c (cs ++ '\n' :: more) = .ok (k, rest ++ '\n' :: more) :=
          (nextToken_append_iff (by decide) (fun hk hrest => hend ⟨hk, hrest⟩) fun _ => rfl).2 hk
        refine ⟨_, tokensFrom_cons.2 ⟨k, _, both, hnext, ?_, rfl⟩, ?_⟩
        · rw [htaken]
          exact hboth
        · rw [htaken]
          have hwhole := congrArg byteLength
            (consumed_append (hsuffix.trans (List.suffix_cons c cs)))
          rw [byteLength_append] at hwhole
          rw [← hwhole, ← Nat.add_assoc]
          exact hjoined.cons _

/-- The tokens of two texts with a line break between them. -/
theorem tokenize_break {more : List Char} {us : List Token} (h : tokenize text = .ok ts)
    (hmore : tokenize more = .ok us) : ∃ both, tokenize (text ++ '\n' :: more) = .ok both ∧
      Joined (byteLength text + 1) ts us both := by
  rw [tokenize_eq_ok] at h
  obtain ⟨both, hboth, hjoined⟩ := tokensFrom_break (Nat.le_refl _) (Nat.le_refl _) h hmore
  refine ⟨both, tokenize_eq_ok.2 ?_, by rwa [Nat.zero_add] at hjoined⟩
  rw [tokenStream, ← hboth, List.length_append, List.length_cons]
  congr 1
  omega

/-- Before a token of the first text, the same tokens stand in both. -/
theorem Joined.split_left {d : Nat} {ts us both : List Token} (h : Joined d ts us both) {w : Token}
    (hw : w ∈ ts) (hk : w.kind.isTrivia = false) :
    ∃ pre post post', ts = pre ++ w :: post ∧ both = pre ++ w :: post' := by
  obtain ⟨htrail, -, -, -⟩ := h
  rcases List.mem_append.1 hw with hw | hw
  · obtain ⟨pre, post, rfl⟩ := List.append_of_mem hw
    exact ⟨pre, _, _, List.append_assoc _ _ _, List.append_assoc _ _ _⟩
  · rw [htrail w hw] at hk
    cases hk

/-- Between two tokens of the second text, the same tokens stand in both. -/
theorem Joined.split_right {d : Nat} {ts us both : List Token} (h : Joined d ts us both)
    (hpairwise : us.Pairwise fun t u => t.start < u.start) {v w : Token} (hv : v ∈ us)
    (hkv : v.kind.isTrivia = false) (hw : w ∈ us) (hkw : w.kind.isTrivia = false)
    (hlt : v.start < w.start) :
    ∃ lead front pre post, pre ≠ [] ∧ us = lead ++ (pre ++ w :: post) ∧
      both = front ++ (pre ++ w :: post).map (Token.shift d) := by
  obtain @⟨init, trail, lead, tail, gap, -, hlead, -, -⟩ := h
  have hmem {t : Token} (hk : t.kind.isTrivia = false) (ht : t ∈ lead ++ tail) : t ∈ tail := by
    refine (List.mem_append.1 ht).resolve_left fun ht => ?_
    rw [hlead t ht] at hk
    cases hk
  obtain ⟨pre, post, rfl⟩ := List.append_of_mem (hmem hkw hw)
  refine ⟨lead, init ++ [gap], pre, post, ?_, rfl, by rw [List.append_assoc]; rfl⟩
  -- The earlier token is before the later one.
  rintro rfl
  rcases List.mem_cons.1 (hmem hkv hv) with rfl | hv
  · exact Nat.lt_irrefl _ hlt
  · have hlate := (List.pairwise_cons.1 (List.pairwise_append.1 hpairwise).2.1).1 v hv
    exact Nat.lt_asymm hlt hlate

/-! ## Lexemes -/

/-- The lexeme, further behind in a text. -/
def Lexeme.shift (d : Nat) (t : Lexeme) : Lexeme := { t with toToken := t.toToken.shift d }

@[simp] theorem Lexeme.shift_kind (d : Nat) (t : Lexeme) : (t.shift d).kind = t.kind := rfl

@[simp] theorem Lexeme.shift_text (d : Nat) (t : Lexeme) : (t.shift d).text = t.text := rfl

@[simp] theorem Lexeme.shift_afterBreak (d : Nat) (t : Lexeme) :
    (t.shift d).afterBreak = t.afterBreak := rfl

@[simp] theorem Lexeme.shift_start (d : Nat) (t : Lexeme) : (t.shift d).start = t.start + d := rfl

@[simp] theorem Lexeme.shift_stop (d : Nat) (t : Lexeme) : (t.shift d).stop = t.stop + d :=
  Token.shift_stop d t.toToken

theorem lexemes_shift (d : Nat) (broken : Bool) (ts : List Token) :
    lexemes broken (ts.map (Token.shift d)) = (lexemes broken ts).map (Lexeme.shift d) := by
  induction ts generalizing broken with
  | nil => rfl
  | cons t ts ih =>
    rw [List.map_cons, lexemes, lexemes, Token.shift_kind, Token.shift_text, ih, ih]
    split <;> rfl

theorem lexemes_cons_blank (broken : Bool) {t : Token} (h : t.kind = .trivia .blank)
    (ts : List Token) :
    lexemes broken (t :: ts) = lexemes (broken || t.text.contains '\n') ts := by
  rw [lexemes, if_pos (by rw [h]; rfl)]

theorem lexemes_append_trivia (broken : Bool) (ts : List Token) {trail : List Token}
    (h : ∀ t ∈ trail, t.kind = .trivia .blank) :
    lexemes broken (ts ++ trail) = lexemes broken ts := by
  induction ts generalizing broken with
  | nil =>
    induction trail generalizing broken with
    | nil => rfl
    | cons t trail ih =>
      rw [List.nil_append, lexemes_cons_blank _ (h t List.mem_cons_self)]
      exact ih (fun u hu => h u (List.mem_cons_of_mem _ hu)) _
  | cons t ts ih =>
    rw [List.cons_append, lexemes, lexemes, ih, ih]

/-- White space before some lexemes tells of a line break before the first. -/
theorem lexemes_blank_append {lead : List Token} (h : ∀ t ∈ lead, t.kind = .trivia .blank)
    (broken : Bool) (ts : List Token) :
    lexemes broken (lead ++ ts) =
      lexemes (broken || (lead.flatMap (·.text)).contains '\n') ts := by
  induction lead generalizing broken with
  | nil => simp
  | cons t lead ih =>
    rw [List.cons_append, lexemes_cons_blank _ (h t List.mem_cons_self),
      ih fun u hu => h u (List.mem_cons_of_mem _ hu), List.flatMap_cons, Bool.or_assoc]
    simp

theorem lexemes_append_break (broken : Bool) (ts : List Token) {gap : Token}
    (hkind : gap.kind = .trivia .blank) (hbreak : '\n' ∈ gap.text) (us : List Token) :
    lexemes broken (ts ++ gap :: us) = lexemes broken ts ++ lexemes true us := by
  induction ts generalizing broken with
  | nil =>
    rw [List.nil_append, lexemes_cons_blank _ hkind, List.contains_iff_mem.2 hbreak, Bool.or_true]
    rfl
  | cons t ts ih =>
    rw [List.cons_append, lexemes, lexemes, ih, ih]
    split <;> rfl

/-- The lexemes of two texts with a line break between them. -/
theorem Joined.lexemes_eq {d : Nat} {ts us both : List Token} (h : Joined d ts us both)
    (broken : Bool) :
    lexemes broken both = lexemes broken ts ++ (lexemes true us).map (Lexeme.shift d) := by
  obtain ⟨htrail, hlead, hkind, hbreak⟩ := h
  rw [lexemes_append_break _ _ hkind hbreak, lexemes_append_trivia _ _ htrail,
    lexemes_blank_append hlead, Bool.true_or, lexemes_shift]

end ResultHints
