import ResultHints.Grammar.Cursor
import ResultHints.Proofs.Token.Rest

/-!
# Tokens in their text

The tokens of a source text lie in it one after the other, without gaps and none
of them empty (`tiling_of_tokenize`). So the lexemes among them come in order
(`inOrder_lexemes`), and begin and end between two characters
(`Tiling.isBoundary`); of two spans between characters, the inner one names a part
of what the outer one names (`slice_infix`).
-/

namespace ResultHints

/-- The tokens are the text cut into pieces, of which the first begins at the
    offset `n`. -/
inductive Tiling : (n : Nat) → (text : List Char) → List Token → Prop
  | nil {n : Nat} : Tiling n [] []
  | cons {t : Token} {rest : List Char} {ts : List Token} : t.text ≠ [] →
    Tiling t.stop rest ts → Tiling t.start (t.text ++ rest) (t :: ts)

/-- Why tokens end before the text `rest` at the offset `n`: nothing is left, or no token begins
    there. -/
def TokensEnd : (fault : Option Fault) → (n : Nat) → (rest : List Char) → Prop
  | none, _, rest => rest = []
  | some fault, n, rest => ∃ afterJump c cs e, rest = c :: cs ∧
    nextToken afterJump c cs = .error e ∧ fault = e.toFault rest n

/-- Tokens that were not stopped before their text ended tile the text, or what stands before
    a place where no token begins. -/
theorem tiling_of_tokensFrom {limit n : Nat} {afterJump : Bool} {text : List Char}
    {ts : List Token} {fault : Option Fault} (hl : text.length ≤ limit)
    (h : tokensFrom limit afterJump n text = (ts, fault)) :
    ∃ front back, text = front ++ back ∧ Tiling n front ts ∧
      TokensEnd fault (n + byteLength front) back := by
  induction limit generalizing afterJump n text ts with
  | zero =>
    obtain rfl := List.eq_nil_of_length_eq_zero (Nat.le_zero.1 hl)
    obtain ⟨rfl, rfl⟩ := Prod.mk.inj h
    exact ⟨[], [], rfl, .nil, rfl⟩
  | succ limit ih =>
    cases text with
    | nil =>
      obtain ⟨rfl, rfl⟩ := Prod.mk.inj h
      exact ⟨[], [], rfl, .nil, rfl⟩
    | cons c cs =>
      rw [tokensFrom] at h
      split at h
      · next e he =>
        obtain ⟨rfl, rfl⟩ := Prod.mk.inj h
        exact ⟨[], c :: cs, rfl, .nil, afterJump, c, cs, e, rfl, he, rfl⟩
      · next k rest hk =>
        -- A token takes at least one character, so that the limit is enough for the rest.
        have hrest := nextToken_suffix hk
        have hlen := hrest.length_le
        rw [List.length_cons] at hl
        obtain ⟨rfl, hfault⟩ := Prod.mk.inj h
        obtain ⟨front, back, hsplit, htail, hback⟩ := ih (by omega) (Prod.ext rfl hfault)
        refine ⟨consumed (c :: cs) rest ++ front, back, ?_, ?_, ?_⟩
        · rw [List.append_assoc, ← hsplit,
            consumed_append (hrest.trans (List.suffix_cons c cs))]
        · exact Tiling.cons (t := ⟨k, n, consumed (c :: cs) rest⟩) (consumed_cons_ne_nil hrest)
            htail
        · rw [byteLength_append, ← Nat.add_assoc]
          exact hback

/-- The tokens of a source text tile it. -/
theorem tiling_of_tokenize {source : List Char} {ts : List Token} (h : tokenize source = .ok ts) :
    Tiling 0 source ts := by
  rw [tokenize] at h
  split at h
  · next ts' e =>
    obtain rfl := Except.ok.inj h
    obtain ⟨front, back, rfl, htiling, rfl⟩ := tiling_of_tokensFrom (Nat.le_refl _) e
    rwa [List.append_nil]
  · exact absurd h (by simp)

/-! ## Order -/

theorem byteLength_pos {text : List Char} (h : text ≠ []) : 0 < byteLength text := by
  cases text with
  | nil => exact absurd rfl h
  | cons c cs =>
    have := c.utf8Size_pos
    rw [byteLength_cons]
    omega

theorem Token.start_lt_stop {t : Token} (h : t.text ≠ []) : t.start < t.stop :=
  Nat.lt_add_of_pos_right (byteLength_pos h)

/-- The tokens that tile a text are not empty, and begin where it begins or later. -/
theorem Tiling.le_start {n : Nat} {text : List Char} {ts : List Token} (h : Tiling n text ts)
    {t : Token} (ht : t ∈ ts) : n ≤ t.start ∧ t.start < t.stop := by
  induction h with
  | nil => exact absurd ht List.not_mem_nil
  | cons hne _ ih =>
    rcases List.mem_cons.1 ht with rfl | ht
    · exact ⟨Nat.le_refl _, Token.start_lt_stop hne⟩
    · obtain ⟨hle, hlt⟩ := ih ht
      exact ⟨Nat.le_trans (Nat.le_of_lt (Token.start_lt_stop hne)) hle, hlt⟩

/-- They come one after the other. -/
theorem Tiling.pairwise {n : Nat} {text : List Char} {ts : List Token} (h : Tiling n text ts) :
    ts.Pairwise fun t u => t.stop ≤ u.start := by
  induction h with
  | nil => exact .nil
  | cons _ hrest ih => exact .cons (fun u hu => (hrest.le_start hu).1) ih

theorem Tiling.starts {n : Nat} {text : List Char} {ts : List Token} (h : Tiling n text ts) :
    ts.Pairwise fun t u => t.start < u.start := by
  refine h.pairwise.imp_of_mem fun ht _ hle => ?_
  exact Nat.lt_of_lt_of_le (h.le_start ht).2 hle

/-- There are no more of them than bytes. -/
theorem Tiling.length_le {n : Nat} {text : List Char} {ts : List Token} (h : Tiling n text ts) :
    ts.length ≤ byteLength text := by
  induction h with
  | nil => exact Nat.le_refl 0
  | cons hne _ ih =>
    have := byteLength_pos hne
    rw [List.length_cons, byteLength_append]
    omega

/-- Lexemes that are not empty and come one after the other, from the offset `lo` on. -/
def InOrder : (lo : Nat) → List Lexeme → Prop
  | _, [] => True
  | lo, t :: ts => lo ≤ t.start ∧ t.start < t.stop ∧ InOrder t.stop ts

theorem InOrder.mono {lo lo' : Nat} {ts : List Lexeme} (hle : lo' ≤ lo) (h : InOrder lo ts) :
    InOrder lo' ts := by
  cases ts with
  | nil => trivial
  | cons t ts => exact ⟨Nat.le_trans hle h.1, h.2⟩

/-- Lexemes in order begin at the offset `lo` or after it. -/
theorem InOrder.le_start {lo : Nat} {ts : List Lexeme} (h : InOrder lo ts) {t : Lexeme}
    (ht : t ∈ ts) : lo ≤ t.start := by
  induction ts generalizing lo with
  | nil => exact absurd ht List.not_mem_nil
  | cons s ts ih =>
    rcases List.mem_cons.1 ht with rfl | ht
    · exact h.1
    · exact Nat.le_trans (Nat.le_trans h.1 (Nat.le_of_lt h.2.1)) (ih h.2.2 ht)

theorem InOrder.start_lt_stop {lo : Nat} {ts : List Lexeme} (h : InOrder lo ts) {t : Lexeme}
    (ht : t ∈ ts) : t.start < t.stop := by
  induction ts generalizing lo with
  | nil => exact absurd ht List.not_mem_nil
  | cons s ts ih =>
    rcases List.mem_cons.1 ht with rfl | ht
    · exact h.2.1
    · exact ih h.2.2 ht

/-- Of lexemes in order, one that begins before another ends does not begin after it. -/
theorem InOrder.start_le_start {lo : Nat} {ts : List Lexeme} (h : InOrder lo ts) {t u : Lexeme}
    (ht : t ∈ ts) (hu : u ∈ ts) (hlt : t.start < u.stop) : t.start ≤ u.start := by
  induction ts generalizing lo with
  | nil => exact absurd ht List.not_mem_nil
  | cons s ts ih =>
    obtain ⟨-, hs, hrest⟩ := h
    rcases List.mem_cons.1 ht with rfl | hts <;> rcases List.mem_cons.1 hu with rfl | hus
    · exact Nat.le_refl _
    · exact Nat.le_trans (Nat.le_of_lt hs) (hrest.le_start hus)
    · exact absurd hlt (Nat.not_lt.2 (hrest.le_start hts))
    · exact ih hrest hts hus

/-- Of lexemes in order, none ends behind the last one. -/
theorem InOrder.stop_le_getLast {lo : Nat} {ts : List Lexeme} (h : InOrder lo ts) {t u : Lexeme}
    (ht : t ∈ ts) (hu : u ∈ ts.getLast?) : t.stop ≤ u.stop := by
  induction ts generalizing lo with
  | nil => exact absurd ht List.not_mem_nil
  | cons s ts ih =>
    rcases ts with _ | ⟨v, ts⟩
    · obtain rfl : s = u := Option.some.inj hu
      obtain rfl := List.mem_singleton.1 ht
      exact Nat.le_refl _
    · rw [List.getLast?_cons_cons] at hu
      rcases List.mem_cons.1 ht with rfl | ht
      · have hmem := List.mem_of_getLast? hu
        exact Nat.le_trans (h.2.2.le_start hmem) (Nat.le_of_lt (h.2.2.start_lt_stop hmem))
      · exact ih h.2.2 ht hu

/-- The lexemes among the tokens of a text come in order. -/
theorem inOrder_lexemes {n : Nat} {text : List Char} {ts : List Token} (h : Tiling n text ts)
    (broken : Bool) : InOrder n (lexemes broken ts) := by
  induction h generalizing broken with
  | nil => trivial
  | @cons t rest ts hne _ ih =>
    rw [lexemes]
    split
    · exact (ih _).mono (Nat.le_of_lt (Token.start_lt_stop hne))
    · exact ⟨Nat.le_refl _, Token.start_lt_stop hne, ih _⟩

/-! ## Boundaries -/

/-- An offset between two characters of a text, or at its beginning or its end. -/
def IsBoundary (text : List Char) (n : Nat) : Prop := ∃ a b, text = a ++ b ∧ byteLength a = n

/-- No boundary lies behind the end of the text. -/
theorem IsBoundary.le {text : List Char} {n : Nat} (h : IsBoundary text n) :
    n ≤ byteLength text := by
  obtain ⟨a, b, rfl, rfl⟩ := h
  rw [byteLength_append]
  exact Nat.le_add_right _ _

/-- The tokens that tile a text begin and end between its characters. -/
theorem Tiling.isBoundary {n : Nat} {text before : List Char} {ts : List Token}
    (h : Tiling n text ts) (hn : byteLength before = n) {t : Token} (ht : t ∈ ts) :
    IsBoundary (before ++ text) t.start ∧ IsBoundary (before ++ text) t.stop := by
  induction h generalizing before with
  | nil => exact absurd ht List.not_mem_nil
  | @cons s rest ts _ _ ih =>
    have hs : byteLength (before ++ s.text) = s.stop := by rw [byteLength_append, hn, Token.stop]
    rcases List.mem_cons.1 ht with rfl | ht
    · exact ⟨⟨before, _, rfl, hn⟩, ⟨before ++ t.text, rest, by rw [List.append_assoc], hs⟩⟩
    · rw [← List.append_assoc]
      exact ih hs ht

/-- The lexemes are the tokens that are no trivia. -/
theorem map_toToken_lexemes (broken : Bool) (ts : List Token) :
    (lexemes broken ts).map (·.toToken) = ts.filter fun t => !t.kind.isTrivia := by
  induction ts generalizing broken with
  | nil => rfl
  | cons t ts ih =>
    rw [lexemes]
    split
    · next ht => rw [List.filter_cons_of_neg (by simp [ht]), ih]
    · next ht => rw [List.filter_cons_of_pos (by simp [ht]), List.map_cons, ih]

/-- A lexeme is one of the tokens. -/
theorem mem_of_mem_lexemes {broken : Bool} {ts : List Token} {t : Lexeme}
    (h : t ∈ lexemes broken ts) : t.toToken ∈ ts := by
  have hmem : t.toToken ∈ (lexemes broken ts).map (·.toToken) := List.mem_map_of_mem h
  rw [map_toToken_lexemes] at hmem
  exact (List.mem_filter.1 hmem).1

/-- The lexemes of a source text begin and end between its characters. -/
theorem isBoundary_of_mem_lexemes {source : List Char} {ts : List Token}
    (h : tokenize source = .ok ts) {t : Lexeme} (ht : t ∈ lexemes false ts) :
    IsBoundary source t.start ∧ IsBoundary source t.stop := by
  have hnone : byteLength [] = 0 := rfl
  exact (tiling_of_tokenize h).isBoundary hnone (mem_of_mem_lexemes ht)

/-- From one boundary on, the text leads to every later one. -/
theorem IsBoundary.advance {a b : List Char} {n : Nat} (h : IsBoundary (a ++ b) n)
    (hn : byteLength a ≤ n) : ∃ m r, b = m ++ r ∧ byteLength (a ++ m) = n := by
  obtain ⟨a', b', heq, rfl⟩ := h
  rcases List.append_eq_append_iff.1 heq with ⟨m, rfl, rfl⟩ | ⟨m, rfl, rfl⟩
  · exact ⟨m, b', rfl, rfl⟩
  · -- The later boundary would be the earlier one, and nothing lies between.
    have hm : m = [] := by
      refine Classical.byContradiction fun hm => ?_
      have := byteLength_pos hm
      rw [byteLength_append] at hn
      omega
    exact ⟨[], b, rfl, by rw [hm, List.append_nil, List.append_nil]⟩

/-- Of two spans between characters, the text of the inner one stands in that of the outer
    one. -/
theorem slice_infix {text : List Char} {s t : Span} (hs : IsBoundary text s.start)
    (ht : IsBoundary text t.start) (ht' : IsBoundary text t.stop) (hs' : IsBoundary text s.stop)
    (hlo : s.start ≤ t.start) (hle : t.start ≤ t.stop) (hhi : t.stop ≤ s.stop) :
    slice text t <:+: slice text s := by
  -- The four boundaries cut the text into five pieces, in order.
  obtain ⟨a, b, rfl, ha⟩ := hs
  obtain ⟨p, r, rfl, hp⟩ := ht.advance (by omega)
  rw [← List.append_assoc] at ht' hs'
  obtain ⟨m, r, rfl, hm⟩ := ht'.advance (by omega)
  rw [← List.append_assoc] at hs'
  obtain ⟨q, r, rfl, hq⟩ := hs'.advance (by omega)
  simp only [byteLength_append] at hp hm hq
  have outer := slice_append a (p ++ m ++ q) r
  have inner := slice_append (a ++ p) m (q ++ r)
  simp only [byteLength_append, List.append_assoc] at outer inner
  have hspan :
      s = ⟨byteLength a, byteLength a + (byteLength p + (byteLength m + byteLength q))⟩ := by
    cases s
    simp only [Span.mk.injEq] at *
    omega
  have htspan : t = ⟨byteLength a + byteLength p, byteLength a + byteLength p + byteLength m⟩ := by
    cases t
    simp only [Span.mk.injEq] at *
    omega
  rw [hspan, htspan]
  simp only [← Nat.add_assoc] at outer inner ⊢
  rw [outer, inner]
  exact ⟨p, q, by rw [List.append_assoc]⟩

end ResultHints
