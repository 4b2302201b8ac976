import ResultHints.Proofs.Grammar.FrameReader
import ResultHints.Proofs.Syntax.Grouping

/-!
# Groups of operators

Chains are read as they are grouped. What was read of a chain is the group of the links before
the cursor; none of these is looser than the operator at the cursor, so this operator splits what
stands around it. Main statements:

- `chain_of_spellsLinks`: the links that a chain of some level takes, and their group;
- `expression_of_chain`: the expression that is read of the text of a chain.
-/

namespace ResultHints

open Reader

variable {s s₁ s' : Cursor} {t : Lexeme} {ts : List Lexeme} {n limit : Nat} {m : Layout}
  {links before : List ChainLink} {first : WordName} {least : Precedence} {left : Fragment}

/-! ## Operands -/

/-- Whether a token of the kind may begin what follows an operand and belongs to it. -/
def TokenKind.beginsSuffix : TokenKind → Bool
  | annotationName | labelDefinition | symbol .dot | symbol .safeAccess | symbol .leftBracket
  | symbol .leftParen | symbol .leftBrace => true
  | k => k.trailing?.isSome

theorem TokenKind.beginsSuffix_of_connective {k : TokenKind} {kind : NodeKind}
    (h : k.connective? = some kind) : k.beginsSuffix = false := by
  cases k with
  | symbol mark => cases mark <;> first | rfl | cases h
  | _ => first | rfl | cases h

theorem TokenKind.beginsSuffix_of_trailing {k : TokenKind} {op : TrailingOperator}
    (h : k.trailing? = some op) : k.beginsSuffix := by
  cases k with
  | symbol mark => cases mark <;> first | rfl | cases h
  | _ => cases h

/-- No operand goes on at the cursor. -/
def Cursor.EndsOperand (s : Cursor) : Prop := ∀ k, s.kind? = some k → k.beginsSuffix = false

theorem Cursor.EndsOperand.kind?_ne {k : TokenKind} (h : s.EndsOperand) (hk : k.beginsSuffix) :
    s.kind? ≠ some k := by
  intro hkind
  rw [h k hkind] at hk
  cases hk

theorem Cursor.EndsOperand.lambdaAhead (h : s.EndsOperand) : s.lambdaAhead = false := by
  obtain ⟨source, _ | ⟨t, ts⟩, stop, i⟩ := s
  · rfl
  · have hne {k : TokenKind} (hk : k.beginsSuffix) : t.kind ≠ k := fun heq =>
      h.kind?_ne hk (congrArg some heq)
    rw [Cursor.lambdaAhead, afterAnnotations, if_neg (hne rfl), kinds, List.map_cons]
    split
    · rename_i heq
      exact absurd (List.cons.inj heq).1 (hne rfl)
    · rename_i heq
      exact absurd (List.cons.inj heq).1 (hne rfl)
    · rfl

theorem callOf?_of_endsOperand {inner : Inner} (h : s.EndsOperand) (callee : Fragment) :
    callOf? inner m callee s = .ok none s := by
  have hparen : s.isAt (.symbol .leftParen) = false :=
    beq_eq_false_iff_ne.2 (h.kind?_ne rfl)
  exact callOf?_of_not_ahead hparen h.lambdaAhead callee

/-- An operand ends where none goes on. -/
theorem suffixesUpTo_of_endsOperand {inner : Inner} (h : s.EndsOperand) (u : Fragment) :
    suffixesUpTo inner m limit u s = .ok u s := by
  cases limit with
  | zero => rfl
  | succ limit =>
    simp only [suffixesUpTo, bind_eq_ok, get_eq_ok]
    refine ⟨_, _, ⟨rfl, rfl⟩, ok_of_forall_eq fun q => ?_⟩
    split
    · rename_i hk
      exact absurd hk (h.kind?_ne rfl)
    · rename_i hk
      exact absurd hk (h.kind?_ne rfl)
    · rintro rfl
      split
      · rfl
      · refine ok_of_forall_eq fun q => ?_
        split
        · rename_i op hop
          obtain ⟨k, hk, hop⟩ := Option.bind_eq_some_iff.1 hop
          exact absurd hk (h.kind?_ne (TokenKind.beginsSuffix_of_trailing hop))
        · rename_i hk
          exact absurd hk (h.kind?_ne rfl)
        · rintro rfl
          exact bind_eq_ok.2 ⟨_, _, callOf?_of_endsOperand h u, rfl⟩

theorem primary_of_name {inner : Inner} (ht : s.Takes t s₁) (hk : t.kind = .identifier) :
    primary inner m s = .ok (s₁.leaf (.nameReference (identifierName t.text)) t) s₁.made := by
  cases ht
  simp only [primary, bind_eq_ok, get_eq_ok]
  refine ⟨_, _, ⟨rfl, rfl⟩, ?_⟩
  dsimp only
  rw [hk]
  rfl

/-- A name is an operand where nothing that follows belongs to it. -/
theorem operand_of_name (ht : s.Takes t s₁) (hk : t.kind = .identifier) (hend : s₁.EndsOperand) :
    (Inner.ofDepth (n + 1)).operand m s =
      .ok (s₁.leaf (.nameReference (identifierName t.text)) t) s₁.made := by
  have hkind : s.kind? = some .identifier := by rw [ht.kind?, hk]
  change operandLevel (.ofDepth n) m s = _
  simp only [operandLevel, bind_eq_ok, get_eq_ok]
  refine ⟨_, _, ⟨rfl, rfl⟩, ?_⟩
  rw [hkind]
  simp only [suffixes, bind_eq_ok, get_eq_ok, Option.bind_eq_bind, Option.bind_some,
    TokenKind.leading?]
  have hend : s₁.made.EndsOperand := hend
  exact ⟨_, _, primary_of_name ht hk, _, _, ⟨rfl, rfl⟩, suffixesUpTo_of_endsOperand hend _⟩

/-! ## Chains -/

/-- The lexemes of some links, all on one line. -/
inductive SpellsLinks : List Lexeme → List ChainLink → Prop
  | nil : SpellsLinks [] []
  | cons {o t : Lexeme} {ts : List Lexeme} {l : ChainLink} {ls : List ChainLink} :
    o.kind.connective? = some (.binary l.op) → o.afterBreak = false → t.kind = .identifier →
    identifierName t.text = String.ofList l.name.1 → SpellsLinks ts ls →
    SpellsLinks (o :: t :: ts) (l :: ls)

theorem SpellsLinks.endsOperand (h : SpellsLinks s.rest links) : s.EndsOperand := by
  intro k hk
  obtain ⟨source, ts, stop, i⟩ := s
  cases h with
  | nil => cases hk
  | cons hop =>
    cases hk
    exact TokenKind.beginsSuffix_of_connective hop

theorem SpellsLinks.length_le (h : SpellsLinks ts links) : links.length ≤ ts.length := by
  induction h with
  | nil => exact Nat.le_refl _
  | cons _ _ _ _ _ ih =>
    simp only [List.length_cons]
    omega

theorem connective?_of_spellsLinks {l : ChainLink} (h : SpellsLinks s.rest (l :: links))
    (hl : least.admits l) : s.connective? m least = some (.binary l.op, l.level) := by
  obtain ⟨source, ts, stop, i⟩ := s
  cases h with
  | cons hop hbreak =>
    refine Inner.Sound.connective?_eq_some.2 ⟨_, rfl, hop, l.precedence, of_decide_eq_true hl, ?_⟩
    simp [Cursor.atBreak, hbreak]

theorem connective?_eq_none_of_spellsLinks (h : SpellsLinks s.rest links)
    (hlinks : ∀ l ∈ links.head?, ¬least.admits l) : s.connective? m least = none := by
  rw [Option.eq_none_iff_forall_ne_some]
  rintro ⟨made, level⟩ hsome
  obtain ⟨k, hk, hmade, hlevel, hle, -⟩ := Inner.Sound.connective?_eq_some.1 hsome
  obtain ⟨source, ts, stop, i⟩ := s
  cases h with
  | nil => cases hk
  | @cons o t ts l ls hop =>
    cases hk
    cases hop.symm.trans hmade
    cases l.precedence.symm.trans hlevel
    exact hlinks l rfl (decide_eq_true hle)

/-- Right of an operator stands a name, which is read as an operand. -/
theorem operand_of_spellsLinks {l : ChainLink} (h : SpellsLinks s.rest (l :: links)) :
    ∃ o s₁ u s', next s = .ok o s₁ ∧ (Inner.ofDepth (n + 1)).operand m s₁ = .ok u s' ∧
      u.map (fun a => a.kind) = grouped l.name [] ∧ SpellsLinks s'.rest links := by
  obtain ⟨source, ts, stop, i⟩ := s
  cases h with
  | @cons o t ts l ls _ _ hk hname hrest =>
    have ht : Cursor.Takes ⟨source, t :: ts, o.stop, i⟩ t ⟨source, ts, t.stop, i⟩ := .mk ..
    refine ⟨o, _, _, _, rfl, operand_of_name ht hk (SpellsLinks.endsOperand hrest), ?_, hrest⟩
    rw [grouped_nil, ← hname]
    rfl

/-- A chain takes the links up to the first looser one. What was read before it is a group, and no
    link in it is looser than the first one it takes. -/
theorem chain_of_spellsLinks (least : Precedence) (hlimit : links.length ≤ limit)
    (h : SpellsLinks s.rest links) (hleft : left.map (fun a => a.kind) = grouped first before)
    (hbefore : NoneLooser before links) :
    ∃ u s', chain (.ofDepth (n + 1)) m limit least left s = .ok u s' ∧
      SpellsLinks s'.rest (links.dropWhile least.admits) ∧
      u.map (fun a => a.kind) = grouped first (before ++ links.takeWhile least.admits) := by
  -- The induction is on the number of operators that may be taken: what stands right of one takes
  -- fewer, and so does what follows both of its sides.
  induction limit generalizing s links first before least left with
  | zero =>
    obtain rfl := List.eq_nil_of_length_eq_zero (Nat.le_zero.1 hlimit)
    rw [List.takeWhile_nil, List.append_nil]
    exact ⟨left, s, rfl, h, hleft⟩
  | succ limit ih =>
    cases links with
    | nil =>
      rw [List.takeWhile_nil, List.append_nil]
      have hnone : s.connective? m least = none := connective?_eq_none_of_spellsLinks h (by simp)
      exact ⟨left, s, Inner.Sound.chain_of_none hnone, h, hleft⟩
    | cons l links =>
      by_cases hl : least.admits l
      · obtain ⟨o, s₁, operand, s₂, ho, hoperand, hname, hrest⟩ :=
          operand_of_spellsLinks (n := n) (m := m) h
        rw [List.length_cons, Nat.succ_le_succ_iff] at hlimit
        -- Right of the operator, a chain takes all links that are tighter.
        obtain ⟨right, s₃, hright, hrest', hgroup⟩ := ih l.level.next hlimit hrest hname .nil
        have hsplit : (s₃.join (.binary l.op) left right).map (fun a => a.kind) =
            grouped first (before ++ l :: links.takeWhile l.level.next.admits) := by
          rw [grouped_step hbefore, ← hleft, ← List.nil_append (links.takeWhile _), ← hgroup]
          rfl
        -- What follows both sides is no tighter than any link so far.
        have hlimit' := Nat.le_trans (List.length_dropWhile_le l.level.next.admits links) hlimit
        obtain ⟨u, s', hu, hrest', hgroup'⟩ :=
          ih (s := s₃.made) least hlimit' hrest' hsplit hbefore.step
        refine ⟨u, s', ?_, ?_, ?_⟩
        · exact (Inner.Sound.chain_eq_ok (connective?_of_spellsLinks h hl)).2
            ⟨o, s₁, right, s₃, ho, bind_eq_ok.2 ⟨operand, s₂, hoperand, hright⟩, hu⟩
        · rwa [dropWhile_admits_cons hl]
        · rw [takeWhile_admits_cons hl, hgroup', List.append_assoc, List.cons_append]
      · have hnone : s.connective? m least = none :=
          connective?_eq_none_of_spellsLinks h fun l' hl' => Option.some.inj hl' ▸ hl
        rw [List.dropWhile_cons_of_neg hl, List.takeWhile_cons_of_neg hl, List.append_nil]
        exact ⟨left, s, Inner.Sound.chain_of_none hnone, h, hleft⟩

/-- The expression of a chain is the group of all its links. -/
theorem expression_of_spellsLinks (ht : s.Takes t s₁) (hk : t.kind = .identifier)
    (hname : identifierName t.text = String.ofList first.1) (h : SpellsLinks s₁.rest links) :
    ∃ u s', expression (.ofDepth (n + 1)) m s = .ok u s' ∧ s'.rest = [] ∧
      u.map (fun a => a.kind) = grouped first links := by
  have hfirst := operand_of_name (n := n) (m := m) ht hk h.endsOperand
  have hgroup : (s₁.leaf (.nameReference (identifierName t.text)) t).map (fun a => a.kind) =
      grouped first [] := by
    rw [grouped_nil, ← hname]
    rfl
  obtain ⟨u, s', hu, hrest, hgroup'⟩ := chain_of_spellsLinks (n := n) (m := m) (s := s₁.made)
    .disjunction h.length_le h hgroup .nil
  have hall : ∀ l ∈ links, Precedence.disjunction.admits l := fun l _ => l.admits_disjunction
  rw [List.dropWhile_eq_nil_iff.2 hall] at hrest
  rw [List.takeWhile_eq_self_iff.2 hall] at hgroup'
  simp only [expression, bind_eq_ok, get_eq_ok]
  refine ⟨u, s', ⟨_, _, hfirst, _, _, ⟨rfl, rfl⟩, hu⟩, ?_, hgroup'⟩
  generalize s'.rest = ts at hrest
  cases hrest
  rfl

/-! ## The text of a chain -/

/-- The kind of the token that a text is. -/
def soleToken? : List Char → Option TokenKind
  | [] => none
  | c :: text => match nextToken false c text with
    | .ok (k, []) => some k
    | _ => none

variable {k : TokenKind} {word rest : List Char} {p : Nat} {tokens : List Token}

theorem soleToken?_name (x : WordName) : soleToken? x.1 = some .identifier := by
  obtain ⟨_ | ⟨c, text⟩, h⟩ := x
  · cases h
  · rw [soleToken?, nextToken_of_isWordName h]

/-- An operator is one token, which makes its node. -/
theorem soleToken?_operator {op : BinaryOperator} {level : Precedence}
    (h : op.precedence? = some level) :
    (soleToken? op.spelling.toList).bind TokenKind.connective? = some (.binary op) := by
  cases op <;> cases h <;> decide +kernel

theorem isTrivia_of_connective {kind : NodeKind} (h : k.connective? = some kind) :
    k.isTrivia = false := by
  cases k with
  | trivia => cases h
  | _ => rfl

/-- A word that is a token begins with no white space. -/
theorem isBlank_of_soleToken? (hword : soleToken? word = some k) (hk : k.isTrivia = false) :
    ∃ c text, word = c :: text ∧ nextToken false c text = .ok (k, []) ∧ isBlank c = false := by
  cases word with
  | nil => cases hword
  | cons c text =>
    rw [soleToken?] at hword
    split at hword
    · rename_i k' hnext
      cases hword
      refine ⟨c, text, rfl, hnext, Bool.eq_false_iff.2 fun hblank => ?_⟩
      rw [nextToken_of_isBlank hblank] at hnext
      obtain rfl := (Prod.mk.inj (Except.ok.inj hnext)).1
      cases hk
    · cases hword

/-- Before a space or the end, a word is the same token as alone. -/
theorem tokensFrom_sole (hword : soleToken? word = some k) (hk : k.isTrivia = false)
    (hrest : ∀ d ∈ rest.head?, d = ' ')
    (h : tokensFrom limit k.takesLabel (p + byteLength word) rest = (tokens, none)) :
    tokensFrom (limit + 1) false p (word ++ rest) = (⟨k, p, word⟩ :: tokens, none) := by
  obtain ⟨c, text, rfl, hnext, -⟩ := isBlank_of_soleToken? hword hk
  refine tokensFrom_intro ?_ h
  cases rest with
  | nil => rwa [List.append_nil]
  | cons d rest =>
    obtain rfl := hrest d rfl
    refine (nextToken_append_iff (by decide) ?_ ?_).2 hnext
    · rintro rfl
      cases hk
    · rintro rfl
      cases hk

/-- A space before a word is white space, up to the word. -/
theorem tokensFrom_space (afterJump : Bool) (hword : soleToken? word = some k)
    (hk : k.isTrivia = false)
    (h : tokensFrom limit false (p + 1) (word ++ rest) = (tokens, none)) :
    tokensFrom (limit + 1) afterJump p (' ' :: (word ++ rest)) =
      (⟨.trivia .blank, p, [' ']⟩ :: tokens, none) := by
  obtain ⟨c, text, rfl, -, hc⟩ := isBlank_of_soleToken? hword hk
  have hnext : nextToken afterJump ' ' ([] ++ (c :: text ++ rest)) =
      .ok (.trivia .blank, c :: text ++ rest) := by
    rw [nextToken_of_isBlank (by decide), List.nil_append, List.dropWhile_cons_of_pos (by decide),
      List.cons_append, List.dropWhile_cons_of_neg (by rw [hc]; decide)]
  exact tokensFrom_intro hnext h

theorem head?_flatMap_text (links : List ChainLink) :
    ∀ d ∈ (links.flatMap ChainLink.text).head?, d = ' ' := by
  cases links with
  | nil => nofun
  | cons l links => exact fun d hd => (Option.some.inj hd).symm

theorem length_pos_of_soleToken? (hword : soleToken? word = some k) : 0 < word.length := by
  cases word with
  | nil => cases hword
  | cons c text => exact Nat.succ_pos _

theorem lexemes_space (ts : List Token) :
    lexemes false (⟨.trivia .blank, p, [' ']⟩ :: ts) = lexemes false ts :=
  lexemes_cons_blank false rfl ts

/-- The lexemes of the links are their operators and their names. -/
theorem tokensFrom_links (hl : (links.flatMap ChainLink.text).length ≤ limit) (afterJump : Bool) :
    ∃ tokens, tokensFrom limit afterJump p (links.flatMap ChainLink.text) = (tokens, none) ∧
      SpellsLinks (lexemes false tokens) links := by
  induction links generalizing limit p afterJump with
  | nil => exact ⟨[], by cases limit <;> rfl, .nil⟩
  | cons l links ih =>
    obtain ⟨k, hop, hmade⟩ := Option.bind_eq_some_iff.1 (soleToken?_operator l.precedence)
    have hname := soleToken?_name l.name
    have htrivia := isTrivia_of_connective hmade
    have htext : (l :: links).flatMap ChainLink.text = ' ' :: (l.op.spelling.toList ++
        ' ' :: (l.name.1 ++ links.flatMap ChainLink.text)) := by
      simp [ChainLink.text]
    rw [htext] at hl ⊢
    -- The link has four tokens.
    obtain ⟨limit, rfl, hlimit⟩ :
        ∃ r, limit = r + 4 ∧ (links.flatMap ChainLink.text).length ≤ r := by
      have hop := length_pos_of_soleToken? hop
      have hname := length_pos_of_soleToken? hname
      simp only [List.length_cons, List.length_append] at hl
      exact ⟨limit - 4, by omega, by omega⟩
    obtain ⟨tokens, htokens, hspells⟩ :=
      ih (p := p + 1 + byteLength l.op.spelling.toList + 1 + byteLength l.name.1) hlimit
        TokenKind.identifier.takesLabel
    have hright := tokensFrom_sole hname rfl (head?_flatMap_text links) htokens
    have hspace := tokensFrom_space k.takesLabel hname rfl hright
    have hboth := tokensFrom_sole hop htrivia (by rintro d ⟨⟩; rfl) hspace
    refine ⟨_, tokensFrom_space afterJump hop htrivia hboth, ?_⟩
    have hword := identifierName_of_spelling (.word l.name.2)
    rw [lexemes_space, lexemes, if_neg (by simp [htrivia]), lexemes_space]
    exact .cons hmade rfl rfl hword hspells

/-- The text of a chain is read as one expression up to its end, which is the group of the chain. -/
theorem expression_of_chain (first : WordName) (links : List ChainLink) :
    ∃ tokens u s', tokenize (chainText first links) = .ok tokens ∧
      expression .outermost .lines (.ofTokens (chainText first links) tokens) = .ok u s' ∧
      s'.rest = [] ∧ u.map (fun a => a.kind) = grouped first links := by
  have hfirst := soleToken?_name first
  obtain ⟨limit, hlimit, hl⟩ : ∃ r, (chainText first links).length = r + 1 ∧
      (links.flatMap ChainLink.text).length ≤ r := by
    have hpos := length_pos_of_soleToken? hfirst
    rw [chainText, List.length_append]
    exact ⟨_, (Nat.sub_add_cancel (by omega)).symm, by omega⟩
  obtain ⟨tokens, htokens, hspells⟩ :=
    tokensFrom_links (p := 0 + byteLength first.1) hl TokenKind.identifier.takesLabel
  have hall := tokensFrom_sole hfirst rfl (head?_flatMap_text links) htokens
  have htokenize :
      tokenize (chainText first links) = .ok (⟨.identifier, 0, first.1⟩ :: tokens) := by
    rw [tokenize_eq_ok, tokenStream, hlimit]
    exact hall
  have hname := identifierName_of_spelling (.word first.2)
  have ht := Cursor.Takes.mk (chainText first links) ⟨⟨.identifier, 0, first.1⟩, false⟩
    (lexemes false tokens) 0 0
  obtain ⟨u, s', hu⟩ :=
    expression_of_spellsLinks (n := maxNesting - 1) (m := .lines) ht rfl hname hspells
  exact ⟨_, u, s', htokenize, hu⟩

end ResultHints
