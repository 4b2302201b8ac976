import ResultHints.Proofs.Grammar.FrameReader

/-!
# The first lexeme of a statement

What stands before a statement does not matter to it: neither where the lexeme before ends
nor whether a line break stands between that lexeme and the first one of the statement.
Every reader of a statement takes its first lexeme before anything else, so from two cursors
that are the same but for this (`Cursor.SameButBreak`) it reads the same and comes to the
same place. Main statement:

- `Inner.Blind.blind_statement`: a statement is read alike from both cursors.
-/

namespace ResultHints

open Reader

/-- Two cursors before the same lexemes, but there may be a line break before the first lexeme at
    one of them only, and the lexeme before may end elsewhere. -/
inductive Cursor.SameButBreak : Cursor → Cursor → Prop
  | mk (source : List Char) (t : Lexeme) (broken : Bool) (ts : List Lexeme) (n n' : Nat)
    (i : NodeId) :
    SameButBreak ⟨source, t :: ts, n, i⟩ ⟨source, { t with afterBreak := broken } :: ts, n', i⟩

/-- A reader does the same at cursors that are alike. -/
def Reader.Blind {α : Type} (r : Reader α) : Prop :=
  ∀ {s c : Cursor} {a : α} {s' : Cursor}, s.SameButBreak c → r s = .ok a s' → r c = .ok a s'

/-- What is read first at such a level does not see what stands before it. -/
structure Inner.Blind (inner : Inner) : Prop where
  operand (m : Layout) : (inner.operand m).Blind
  lambda : inner.lambda.Blind

namespace Reader

variable {α β : Type} {s c : Cursor} {k : TokenKind}

theorem blind_bind {r : Reader α} {g : α → Reader β} (hr : r.Blind) : (r >>= g).Blind := by
  intro s c b s' hc h
  obtain ⟨a, s₁, ha, h⟩ := bind_eq_ok.1 h
  exact bind_eq_ok.2 ⟨a, s₁, hr hc ha, h⟩

/-- What goes on after the first lexeme does not ask whether a line break stood before it. -/
theorem blind_next_bind {g : Lexeme → Reader α}
    (hg : ∀ t broken, g { t with afterBreak := broken } = g t) : (next >>= g).Blind := by
  rintro _ _ a s' ⟨source, t, broken, ts, n, n', i⟩ h
  obtain ⟨_, _, ⟨⟩, h⟩ := bind_eq_ok.1 h
  exact bind_eq_ok.2 ⟨_, _, rfl, by rw [hg]; exact h⟩

theorem blind_discard_next_bind {r : Reader α} : (do discard next; r).Blind := by
  rintro _ _ a s' ⟨source, t, broken, ts, n, n', i⟩ h
  obtain ⟨_, _, ⟨⟩, h⟩ := bind_eq_ok.1 h
  exact bind_eq_ok.2 ⟨_, _, rfl, h⟩

theorem blind_expect_bind {what : Expectation} {g : Lexeme → Reader α}
    (hg : ∀ t broken, g { t with afterBreak := broken } = g t) : (expect what >>= g).Blind := by
  rintro _ _ a s' ⟨source, t, broken, ts, n, n', i⟩ h
  obtain ⟨_, _, ht, h⟩ := bind_eq_ok.1 h
  obtain ⟨ht, hk⟩ := takes_of_expect ht
  cases ht
  exact bind_eq_ok.2 ⟨_, _, if_pos hk, by rw [hg]; exact h⟩

/-- With no level left, nothing is read. -/
theorem blind_tooDeep : (tooDeep : Reader α).Blind := by
  intro _ _ _ _ _ h
  cases h

end Reader

variable {inner : Inner} {m : Layout} {s c s' : Cursor} {u : Fragment} {us : List Fragment}

/-! ## What is seen -/

namespace Cursor.SameButBreak

variable (h : s.SameButBreak c)

include h

theorem kind? : c.kind? = s.kind? := by
  cases h
  rfl

theorem position : c.position = s.position := by
  cases h
  rfl

theorem declarationAhead : c.declarationAhead = s.declarationAhead := by
  obtain ⟨source, t, broken, ts, n, n', i⟩ := h
  rw [Cursor.declarationAhead, Cursor.declarationAhead, afterAnnotations.eq_def,
    afterAnnotations.eq_def .before (t :: ts)]
  dsimp only
  by_cases hk : t.kind = .annotationName
  · rw [if_pos hk, if_pos hk]
  · rw [if_neg hk, if_neg hk]
    rfl

end Cursor.SameButBreak

/-! ## What is read -/

namespace Inner.Blind

variable (hn : inner.Blind)

theorem blind_ifElse : (ifElse inner m).Blind := blind_expect_bind fun _ _ => rfl

theorem blind_whenBranches : (whenBranches inner).Blind := blind_expect_bind fun _ _ => rfl

theorem blind_forLoop : (forLoop inner m).Blind := blind_expect_bind fun _ _ => rfl

theorem blind_whileLoop : (whileLoop inner m).Blind := blind_expect_bind fun _ _ => rfl

theorem blind_function : (function inner).Blind := blind_expect_bind fun _ _ => rfl

theorem blind_property : (property inner).Blind := blind_next_bind fun _ _ => rfl

theorem blind_lambdaLevel : (lambdaLevel inner).Blind := blind_expect_bind fun _ _ => rfl

/-- An expression that begins with a keyword does not ask what stands before the keyword. -/
theorem keywordExpression_first (t : Lexeme) (broken : Bool) (word : Keyword) :
    keywordExpression inner m { t with afterBreak := broken } word =
      keywordExpression inner m t word := by
  cases word <;> rfl

theorem blind_keywordExpression (t : Lexeme) (word : Keyword) :
    (keywordExpression inner m t word).Blind := by
  cases word with
  | if_ => exact blind_ifElse
  | when_ => exact blind_whenBranches
  | for_ => exact blind_forLoop
  | while_ => exact blind_whileLoop
  | this_ | return_ | throw_ | break_ | continue_ => exact blind_discard_next_bind
  | _ =>
    intro _ _ _ _ _ h
    cases h

/-- Entries that begin with the first lexeme. -/
theorem annotationEntries_alike (hc : s.SameButBreak c) (hk : s.kind? = some .annotationName)
    (h : annotationEntries inner m s = .ok us s') : annotationEntries inner m c = .ok us s' := by
  obtain ⟨source, t, broken, ts, n, n', i⟩ := hc
  obtain hk : t.kind = .annotationName := Option.some.inj hk
  rw [annotationEntries_apply] at h ⊢
  simp only [Cursor.size, List.length_cons, annotationEntriesUpTo, bind_eq_ok] at h ⊢
  obtain ⟨_, _, ht, h⟩ := h
  obtain ⟨-, -, hno⟩ | ⟨t, rfl, ht, -⟩ := takes_of_accept ht
  · simp [Cursor.isAt, Cursor.kind?, hk] at hno
  · cases ht
    exact ⟨_, _, if_pos hk, h⟩

theorem annotatedDeclaration_alike (hc : s.SameButBreak c) (hk : s.kind? = some .annotationName)
    (h : annotatedDeclaration inner s = .ok u s') : annotatedDeclaration inner c = .ok u s' := by
  simp only [annotatedDeclaration, bind_eq_ok, get_eq_ok] at h ⊢
  obtain ⟨_, _, ⟨rfl, rfl⟩, es, s₁, hes, h⟩ := h
  refine ⟨_, _, ⟨rfl, rfl⟩, _, _, annotationEntries_alike hc hk hes, ?_⟩
  rw [hc.position]
  exact h

section Level

include hn

theorem blind_primary : (primary inner m).Blind := by
  intro s c u s' hc h
  have hc' := hc
  obtain ⟨source, t, broken, ts, n, n', i⟩ := hc'
  simp only [primary, bind_eq_ok, get_eq_ok] at h ⊢
  obtain ⟨_, _, ⟨rfl, rfl⟩, h⟩ := h
  refine ⟨_, _, ⟨rfl, rfl⟩, ok_of_cases h fun r r' => ?_⟩
  dsimp only
  split <;> rintro rfl rfl h
  · exact blind_discard_next_bind hc h
  · exact blind_discard_next_bind hc h
  · exact blind_discard_next_bind hc h
  · exact hn.lambda hc h
  · rw [keywordExpression_first]
    exact blind_keywordExpression t _ hc h
  · cases h

theorem blind_suffixes : (suffixes inner m).Blind := blind_bind hn.blind_primary

theorem blind_operandLevel : (operandLevel inner m).Blind := by
  intro s c u s' hc h
  simp only [operandLevel, bind_eq_ok, get_eq_ok] at h ⊢
  obtain ⟨_, _, ⟨rfl, rfl⟩, h⟩ := h
  refine ⟨_, _, ⟨rfl, rfl⟩, ?_⟩
  rw [hc.kind?, hc.position]
  refine ok_of_cases h fun r r' => ?_
  split <;> rintro rfl rfl h
  · exact blind_discard_next_bind hc h
  · exact blind_next_bind (fun _ _ => rfl) hc h
  · rename_i hk
    simp only [bind_eq_ok] at h ⊢
    obtain ⟨es, s₁, hes, h⟩ := h
    exact ⟨_, _, annotationEntries_alike hc hk hes, h⟩
  · exact hn.blind_suffixes hc h

theorem blind_expression : (expression inner m).Blind := blind_bind (hn.operand m)

theorem blind_assignment : (assignment inner m).Blind := blind_bind hn.blind_expression

theorem blind_statement : (statement inner).Blind := by
  intro s c u s' hc h
  simp only [statement, bind_eq_ok, get_eq_ok] at h ⊢
  obtain ⟨_, _, ⟨rfl, rfl⟩, h⟩ := h
  refine ⟨_, _, ⟨rfl, rfl⟩, ?_⟩
  rw [hc.kind?, hc.declarationAhead]
  refine ok_of_cases h fun r r' => ?_
  split
  · rintro rfl rfl h
    exact blind_function hc h
  · rintro rfl rfl h
    exact blind_property hc h
  · rintro rfl rfl h
    exact blind_property hc h
  · rename_i hk
    split <;> rintro rfl rfl h
    · exact annotatedDeclaration_alike hc hk h
    · exact hn.blind_assignment hc h
  · rintro rfl rfl h
    exact hn.blind_assignment hc h

end Level

end Inner.Blind

/-- At no level is what stands before the first lexeme seen. -/
theorem Inner.blind_ofDepth (n : Nat) : (Inner.ofDepth n).Blind := by
  induction n with
  | zero => exact ⟨fun _ => blind_tooDeep, blind_tooDeep⟩
  | succ n ih => exact ⟨fun _ => ih.blind_operandLevel, Inner.Blind.blind_lambdaLevel⟩

end ResultHints
