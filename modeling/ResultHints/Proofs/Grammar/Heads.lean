import ResultHints.Proofs.Grammar.Layout
import ResultHints.Proofs.Grammar.Sound

/-!
# Heads

Some lexemes tell what they begin: the keyword of an `if` begins an `if`, an annotation
name an annotation entry, a literal a literal (`TokenKind.head?`). Of no such lexeme the
grammar loses sight, and it makes none up. From left to right, they are the heads of the
nodes in preorder; and there are as many opening braces as lambdas, `when`s and blocks
(`Conserves`). Main statements:

- `conserves_of_reads`: so it is in every phrase;
- `conserves_of_file`: and in a file.
-/

namespace ResultHints

/-! ## Heads of nodes -/

/-- What a lexeme may tell that it begins. -/
inductive Head
  | keyword (word : Keyword)
  | label
  | annotation
  | literal (sort : LiteralKind)
  deriving DecidableEq

/-- What a token begins, if it tells. -/
def TokenKind.head? : TokenKind → Option Head
  | labelDefinition => some .label
  | annotationName => some Head.annotation
  | literal .integer => some (.literal .integer)
  | literal .float => some (.literal .float)
  | literal .string => some (.literal .string)
  | literal .char => some (.literal .char)
  | keyword .true_ | keyword .false_ => some (.literal .boolean)
  | keyword .null_ => some (.literal .null)
  | keyword .else_ | keyword .is_ | keyword .notIs | keyword .in_ | keyword .notIn
  | keyword .as_ | keyword .asSafe => none
  | keyword word => some (.keyword word)
  | trivia _ | identifier | labelReference | symbol _ => none

/-- What a node begins with, if that tells of it. -/
def NodeKind.head? : NodeKind → Option Head
  | packageDirective _ => some (.keyword .package_)
  | importDirective _ => some (.keyword .import_)
  | function _ => some (.keyword .fun_)
  | property _ isMutable => some (.keyword (if isMutable then .var_ else .val_))
  | ifElse => some (.keyword .if_)
  | when_ => some (.keyword .when_)
  | forLoop _ => some (.keyword .for_)
  | whileLoop => some (.keyword .while_)
  | jump (.return_ _) => some (.keyword .return_)
  | jump .throw_ => some (.keyword .throw_)
  | jump (.break_ _) => some (.keyword .break_)
  | jump (.continue_ _) => some (.keyword .continue_)
  | this _ => some (.keyword .this_)
  | labeled _ => some .label
  | annotationEntry _ => some Head.annotation
  | literal sort => some (.literal sort)
  | _ => none

/-- What a head and the node it begins have in common: where they begin, and of a literal where
    it ends. -/
def Head.extent (span : Span) : Head → Span
  | literal _ => span
  | _ => .point span.start

/-- The head of a token with its extent. -/
def Token.mark? (t : Token) : Option (Head × Span) :=
  t.kind.head?.map fun h => (h, h.extent t.span)

/-- The head of a node with its extent. -/
def Node.mark? (a : Node) : Option (Head × Span) := a.kind.head?.map fun h => (h, h.extent a.span)

/-- The heads of the nodes of some fragments, in preorder. -/
def marksOf (us : List Fragment) : List (Head × Span) := (Tree.preorderAll us).filterMap Node.mark?

/-! ## Opening braces -/

/-- Whether nodes of the kind have an opening brace. That of a lambda stands before its
    parameters, so the block in it has none. -/
def NodeKind.opensBrace (inLiteral : Bool) : NodeKind → Bool
  | lambda | when_ => true
  | block => !inLiteral
  | _ => false

mutual
/-- The number of opening braces of a fragment. -/
def bracesOf (inLiteral : Bool) : Tree Node → Nat
  | .node a ts =>
    (a.kind.opensBrace inLiteral).toNat + bracesOfAll (a.kind == .functionLiteral) ts

/-- The number of opening braces of some fragments. -/
def bracesOfAll (inLiteral : Bool) : List (Tree Node) → Nat
  | [] => 0
  | t :: ts => bracesOf inLiteral t + bracesOfAll inLiteral ts
end

theorem bracesOfAll_append (inLiteral : Bool) (us vs : List Fragment) :
    bracesOfAll inLiteral (us ++ vs) = bracesOfAll inLiteral us + bracesOfAll inLiteral vs := by
  induction us with
  | nil => exact (Nat.zero_add _).symm
  | cons u us ih => rw [List.cons_append, bracesOfAll, bracesOfAll, ih, Nat.add_assoc]

/-- It only matters to a block whether it is that of a lambda. -/
theorem bracesOfAll_eq {us : List Fragment} (h : ∀ u ∈ us, u.label.kind ≠ .block)
    (inLiteral : Bool) : bracesOfAll inLiteral us = bracesOfAll false us := by
  induction us with
  | nil => rfl
  | cons u us ih =>
    rw [List.forall_mem_cons] at h
    obtain ⟨a, ts⟩ := u
    have hopens : a.kind.opensBrace inLiteral = a.kind.opensBrace false := by
      cases hk : a.kind <;> first | rfl | exact absurd hk h.1
    rw [bracesOfAll, bracesOfAll, ih h.2, bracesOf, bracesOf, hopens]

/-- Whether a token is an opening brace. -/
def Token.isBrace (t : Token) : Bool := t.kind == .symbol .leftBrace

/-! ## From one cursor to another -/

variable {s s₁ s₂ s' : Cursor} {t : Lexeme} {ts : List Lexeme} {k : TokenKind} {kind : NodeKind}
  {n m : Nat} {p : Phrase} {u : Fragment} {us vs : List Fragment} {ms : List (Head × Span)}
  {span : Span} {i : NodeId}

namespace Cursor

/-- The heads ahead. -/
def marks (s : Cursor) : List (Head × Span) := s.rest.filterMap fun t => t.mark?

/-- The number of opening braces ahead. -/
def braces (s : Cursor) : Nat := s.rest.countP fun t => t.isBrace

end Cursor

/-- Between two cursors are the heads and the opening braces of some fragments; and before those,
    `ms` and `n` others, which belong to a node that is yet to be made. -/
structure Conserves (ms : List (Head × Span)) (n : Nat) (s : Cursor) (us : List Fragment)
    (s' : Cursor) : Prop where
  marks : s.marks = ms ++ (marksOf us ++ s'.marks)
  braces : s.braces = n + (bracesOfAll false us + s'.braces)

/-- A token that is neither a head nor an opening brace. -/
def TokenKind.isUnmarked (k : TokenKind) : Bool := k.head?.isNone && k != .symbol .leftBrace

/-- A node that has neither a head nor an opening brace. -/
def NodeKind.isHeadless (k : NodeKind) : Bool :=
  k.head?.isNone && !k.opensBrace false && k != .functionLiteral

/-- A node that has the same head as a token, and no more in common with it than where it
    begins. -/
def NodeKind.hasHead (k : NodeKind) (t : TokenKind) : Bool :=
  k.head? == t.head? && k.head?.any fun h => h.extent ⟨0, 1⟩ == .point 0

namespace Conserves

theorem nil : Conserves [] 0 s [] s where
  marks := rfl
  braces := by simp [bracesOfAll]

theorem append (h : Conserves ms m s us s₁) (h' : Conserves [] n s₁ vs s') :
    Conserves ms (m + n) s (us ++ vs) s' where
  marks := by
    rw [h.marks, h'.marks]
    simp [marksOf, Tree.preorderAll_eq_flatMap, List.filterMap_flatMap]
  braces := by
    rw [h.braces, h'.braces, bracesOfAll_append]
    omega

/-- What is read before fragments, or after them, without any of its own. -/
theorem trans (h : Conserves ms m s [] s₁) (h' : Conserves [] n s₁ us s') :
    Conserves ms (m + n) s us s' := h.append h'

theorem before (h : Conserves ms m s us s₁) (h' : Conserves [] n s₁ [] s') :
    Conserves ms (m + n) s us s' := by
  have h := h.append h'
  rwa [List.append_nil] at h

/-! ### Lexemes -/

theorem of_takes (ht : s.Takes t s') :
    Conserves t.mark?.toList t.isBrace.toNat s [] s' := by
  cases ht with
  | mk source t ts =>
    refine ⟨?_, ?_⟩
    · simp only [Cursor.marks, List.filterMap_cons]
      cases t.mark? <;> rfl
    · simp only [Cursor.braces, List.countP_cons, bracesOfAll]
      cases t.isBrace <;> simp [Nat.add_comm]

theorem of_takes_unmarked (ht : s.Takes t s') (hk : t.kind.isUnmarked) :
    Conserves [] 0 s [] s' := by
  simp only [TokenKind.isUnmarked, Bool.and_eq_true, Option.isNone_iff_eq_none, bne_iff_ne] at hk
  have h := of_takes ht
  rwa [Token.mark?, hk.1, Token.isBrace, beq_eq_false_iff_ne.2 hk.2] at h

theorem of_skips (hs : s.Skips k s') (hk : k.isUnmarked) : Conserves [] 0 s [] s' := by
  obtain ⟨t, ht, rfl⟩ := hs
  exact of_takes_unmarked ht hk

theorem of_takes_brace (ht : s.Takes t s') (hk : t.kind = .symbol .leftBrace) :
    Conserves [] 1 s [] s' := by
  have h := of_takes ht
  rwa [Token.mark?, hk, Token.isBrace, hk] at h

theorem of_moves (hm : s.Moves ts s') (hts : ∀ t ∈ ts, t.kind.isUnmarked) :
    Conserves [] 0 s [] s' := by
  induction hm with
  | nil => exact nil
  | cons ht _ ih =>
    rw [List.forall_mem_cons] at hts
    exact (of_takes_unmarked ht hts.1).trans (ih hts.2)

theorem of_refers {label : Option String} (h : s.Refers label s') : Conserves [] 0 s [] s' := by
  cases h with
  | none => exact nil
  | some ht hk => exact of_takes_unmarked ht (by rw [hk]; rfl)

/-! ### Nodes -/

/-- A node takes what was yet to be made, if it is all its own. -/
theorem node {a : Node} (h : Conserves a.mark?.toList (a.kind.opensBrace false).toNat s us s')
    (hk : a.kind ≠ .functionLiteral) : Conserves [] 0 s [.node a us] s'.made where
  marks := by
    rw [h.marks, marksOf, marksOf, Tree.preorderAll, Tree.preorderAll, List.append_nil,
      Tree.preorder, List.filterMap_cons]
    cases a.mark? <;> rfl
  braces := by
    have hbraces : bracesOfAll false [Tree.node a us] =
        (a.kind.opensBrace false).toNat + bracesOfAll false us := by
      rw [bracesOfAll, bracesOfAll, bracesOf, beq_eq_false_iff_ne.2 hk, Nat.add_zero]
    have hmade : s'.made.braces = s'.braces := rfl
    rw [h.braces, hbraces, hmade]
    omega

/-- A node over fragments that has nothing of its own. -/
theorem around (h : Conserves [] 0 s us s') (hk : kind.isHeadless) :
    Conserves [] 0 s [.node ⟨⟨kind, span⟩, i⟩ us] s'.made := by
  simp only [NodeKind.isHeadless, Bool.and_eq_true, Option.isNone_iff_eq_none, Bool.not_eq_true',
    bne_iff_ne] at hk
  obtain ⟨⟨hhead, hbrace⟩, hk⟩ := hk
  refine node ?_ hk
  rwa [Node.mark?, hhead, hbrace]

theorem wrap (h : Conserves [] 0 s [u] s') (kind : NodeKind) (hk : kind.isHeadless) :
    Conserves [] 0 s [s'.wrap kind u] s'.made := h.around hk

theorem leaf (h : Conserves [] 0 s [] s') (hk : kind.isHeadless) :
    Conserves [] 0 s [s'.leaf kind t] s'.made := h.around hk

/-- A node with its head, and a brace if it has one. -/
theorem head (ht : s.Takes t s₁) (hk : kind.hasHead t.kind)
    (h : Conserves [] (kind.opensBrace false).toNat s₁ us s') :
    Conserves [] 0 s [s'.node t.start kind us] s'.made := by
  simp only [NodeKind.hasHead, Bool.and_eq_true, beq_iff_eq] at hk
  obtain ⟨hhead, hpoint⟩ := hk
  obtain ⟨h', hkind⟩ : ∃ h', kind.head? = some h' := by
    cases hkind : kind.head? with
    | none => simp [hkind] at hpoint
    | some h' => exact ⟨h', rfl⟩
  rw [hkind, Option.any_some, beq_iff_eq] at hpoint
  have hextent (a b c : Nat) : h'.extent ⟨a, b⟩ = h'.extent ⟨a, c⟩ := by
    cases h' with
    | literal => cases hpoint
    | _ => rfl
  have hmark : t.mark? = Node.mark? ⟨⟨kind, s'.spanFrom t.start⟩, s'.nextId⟩ := by
    rw [Token.mark?, Node.mark?, ← hhead, hkind]
    exact congrArg (fun e => some (h', e)) (hextent ..)
  have hbrace : t.isBrace = false := by
    rw [Token.isBrace, beq_eq_false_iff_ne]
    intro hbrace
    rw [hkind, hbrace] at hhead
    cases hhead
  have htake := of_takes ht
  rw [hbrace, hmark] at htake
  refine node ?_ ?_
  · have h := htake.trans h
    rwa [Bool.toNat_false, Nat.zero_add] at h
  · rintro hliteral
    change kind = _ at hliteral
    rw [hliteral] at hkind
    cases hkind

end Conserves

/-! ## Kinds without heads -/

theorem isUnmarked_of_isTypePart (h : k.isTypePart) : k.isUnmarked := by
  cases k with
  | symbol mark => cases mark <;> first | rfl | cases h
  | identifier => rfl
  | _ => cases h

theorem isUnmarked_of_connective (h : k.connective? = some kind) : k.isUnmarked := by
  cases k with
  | symbol mark => cases mark <;> first | rfl | cases h
  | keyword word => cases word <;> first | rfl | cases h
  | _ => cases h

theorem isUnmarked_of_assignment {op : BinaryOperator} (h : k.assignment? = some op) :
    k.isUnmarked := by
  cases k with
  | symbol mark => cases mark <;> first | rfl | cases h
  | _ => cases h

theorem isUnmarked_of_leading {op : LeadingOperator} (h : k.leading? = some op) :
    k.isUnmarked := by
  cases k with
  | symbol mark => cases mark <;> first | rfl | cases h
  | _ => cases h

theorem isUnmarked_of_trailing {op : TrailingOperator} (h : k.trailing? = some op) :
    k.isUnmarked := by
  cases k with
  | symbol mark => cases mark <;> first | rfl | cases h
  | _ => cases h

theorem head?_of_literal {sort : LiteralKind} (h : k.literal? = some sort) :
    k.head? = some (.literal sort) := by
  cases k with
  | literal token => cases token <;> cases h <;> rfl
  | keyword word => cases word <;> cases h <;> rfl
  | _ => cases h

theorem isHeadless_of_isTyping (h : kind.isTyping) : kind.isHeadless := by
  cases kind <;> first | rfl | cases h

theorem isHeadless_of_isEnclosed (h : kind.isEnclosed) : kind.isHeadless := by
  cases kind <;> first | rfl | cases h

/-! ## Phrases -/

/-- A literal token is a literal, and nothing else is. -/
theorem conserves_literal {sort : LiteralKind} (ht : s.Takes t s')
    (hk : t.kind.literal? = some sort) :
    Conserves [] 0 s [s'.leaf (.literal sort) t] s'.made := by
  have hhead : t.kind.head? = some (.literal sort) := head?_of_literal hk
  have hbrace : t.isBrace = false := by
    rw [Token.isBrace, beq_eq_false_iff_ne]
    intro hbrace
    rw [hbrace] at hk
    cases hk
  have htake := Conserves.of_takes ht
  rw [hbrace, Token.mark?, hhead] at htake
  exact htake.node (a := ⟨⟨.literal sort, t.span⟩, s'.nextId⟩) nofun

/-- A lambda has one opening brace, and the block in it none of its own. -/
theorem conserves_lambda {opening closing : Lexeme} {ps : List Fragment} {s₃ : Cursor}
    {body literal lambda : Span} {j j' : NodeId}
    (hopen : s.Takes opening s₁) (hkopen : opening.kind = .symbol .leftBrace)
    (hps : Conserves [] 0 s₁ ps s₂) (hblock : ∀ u ∈ ps, u.label.kind ≠ .block)
    (hus : Conserves [] 0 s₂ us s₃) (hclose : s₃.Takes closing s')
    (hkclose : closing.kind = .symbol .rightBrace) :
    Conserves [] 0 s [.node ⟨⟨.lambda, lambda⟩, i⟩
      [.node ⟨⟨.functionLiteral, literal⟩, j⟩ (ps ++ [.node ⟨⟨.block, body⟩, j'⟩ us])]]
      s'.made.made.made := by
  have hinside := (Conserves.of_takes_brace hopen hkopen).trans
    ((hps.append hus).before (.of_takes_unmarked hclose (by rw [hkclose]; rfl)))
  refine ⟨?_, ?_⟩
  · rw [hinside.marks]
    simp [marksOf, Tree.preorderAll_eq_flatMap, Tree.preorder_node, List.filterMap_flatMap,
      List.filterMap_cons, Node.mark?, NodeKind.head?]
    rfl
  · have hbraces : bracesOfAll true (ps ++ [.node ⟨⟨.block, body⟩, j'⟩ us]) =
        bracesOfAll false (ps ++ us) := by
      rw [bracesOfAll_append, bracesOfAll_append, bracesOfAll_eq hblock]
      rw [bracesOfAll, bracesOfAll, bracesOf, Nat.add_zero]
      exact congrArg _ (Nat.zero_add _)
    have hmade : s'.made.made.made.braces = s'.braces := rfl
    rw [hinside.braces, hmade]
    simp only [bracesOfAll, bracesOf, beq_self_eq_true, hbraces, NodeKind.opensBrace,
      Bool.toNat_true, Bool.toNat_false]
    omega

/-- The phrases that conserve heads and braces; of directives this is only true where they
    stand. -/
def Phrase.conserves : Phrase → Bool
  | maybe p | many p | items p | rows p => p.conserves
  | after k p => k.isUnmarked && p.conserves
  | directive => false
  | _ => true

/-- What a phrase takes has the heads and the opening braces of its fragments. -/
theorem conserves_of_reads (h : Reads n p s us s') (hp : p.conserves) :
    Conserves [] 0 s us s' := by
  induction h with
  | absent | unmarked | noMore | noItem | noRow | noLambdaHead => exact .nil
  | present _ ih | lastItem _ ih => exact ih hp
  | chainStart _ ih | value _ ih | blockBody _ ih | valueBody _ ih | lambdaAlone _ ih
  | suffixStart _ ih | plainOperand _ ih | plainLambda _ ih | blockFunctionBody _ ih
  | valueFunctionBody _ ih | declaration _ ih | assignmentStatement _ ih => exact ih rfl
  | marked hs _ ih =>
    rw [Phrase.conserves, Bool.and_eq_true] at hp
    exact (Conserves.of_skips hs hp.1).trans (ih hp.2)
  | more _ _ ihu ihs | row _ _ _ ihu ihs => exact (ihu hp).append (ihs hp)
  | item _ hs _ ihu ihs => exact ((ihu hp).before (.of_skips hs rfl)).append (ihs hp)
  | semicolon hs _ ih => exact (Conserves.of_skips hs rfl).trans (ih hp)
  | lateElseBranch hs _ ih => exact (Conserves.of_skips hs rfl).trans (ih rfl)
  | lambdaHead _ hs ih => exact (ih rfl).before (.of_skips hs rfl)
  | typeReference hm _ hts =>
    exact (Conserves.of_moves hm fun t ht => isUnmarked_of_isTypePart (hts t ht)).around rfl
  -- Nodes with a head.
  | literal ht hk => exact conserves_literal ht hk
  | this ht hk hr | break_ ht hk hr | continue_ ht hk hr =>
    exact .head ht (by rw [hk]; rfl) (.of_refers hr)
  | annotationEntry ht hk _ ih | throw_ ht hk _ ih | labeled ht hk _ ih
  | labeledLambda ht hk _ ih => exact .head ht (by rw [hk]; rfl) (ih rfl)
  | return_ ht hk hr _ ih =>
    exact .head ht (by rw [hk]; rfl) ((Conserves.of_refers hr).trans (ih rfl))
  | property ht hk hname hkname _ _ ihus ihvs =>
    refine .head ht (by rcases hk with hk | hk <;> rw [hk] <;> rfl) ?_
    exact (Conserves.of_takes_unmarked hname (by rw [hkname]; rfl)).trans
      ((ihus rfl).append (ihvs rfl))
  | function ht hk hm hnames hname hs _ hs' _ _ ihps ihus ihvs =>
    have hmoves := Conserves.of_moves hm (Reader.forall_mem_segments hnames hname rfl rfl)
    have hps := (Conserves.of_skips hs rfl).trans ((ihps rfl).before (.of_skips hs' rfl))
    exact .head ht (by rw [hk]; rfl) (((hmoves.trans hps).append (ihus rfl)).append (ihvs rfl))
  | ifElse ht hk _ _ _ _ ihc ihb ihes =>
    have hbranches := ((ihb rfl).wrap .thenBranch rfl).append (ihes rfl)
    exact .head ht (by rw [hk]; rfl) ((ihc rfl).append hbranches)
  | whileLoop ht hk _ _ ihc ihb =>
    exact (Conserves.head ht (by rw [hk]; rfl)
      ((ihc rfl).append ((ihb rfl).wrap .loopBody rfl)))
  | forLoop ht hk hs hname hkname hin _ hs' _ ihu ihb =>
    have hstart := (Conserves.of_skips hs rfl).trans
      ((Conserves.of_takes_unmarked hname (by rw [hkname]; rfl)).trans (.of_skips hin rfl))
    have hrange := ((ihu rfl).before (.of_skips hs' rfl)).wrap .loopRange rfl
    have hbody := (ihb rfl).wrap .loopBody rfl
    exact .head ht (by rw [hk]; rfl) (hstart.trans (hrange.append hbody))
  | when_ ht hk _ hs _ hs' ihus ihes =>
    obtain ⟨_, hopen, hkopen⟩ := hs
    have hentries := (Conserves.of_takes_brace hopen hkopen).trans
      ((ihes rfl).before (.of_skips hs' rfl))
    exact .head ht (by rw [hk]; rfl) ((ihus rfl).append hentries)
  -- Nodes with an opening brace.
  | block ht hk _ ht' hk' ih =>
    have hinside := (ih rfl).before (.of_takes_unmarked ht' (by rw [hk']; rfl))
    exact .node ((Conserves.of_takes_brace ht hk).trans hinside) nofun
  | lambda ht hk hps _ ht' hk' ihps ihus =>
    refine conserves_lambda ht hk (ihps rfl) (fun u hu hblock => ?_) (ihus rfl) ht' hk'
    have hparameter := (laid_of_reads hps u hu).2
    rw [Phrase.Admits, Fragment.outline, Tree.label_map, hblock] at hparameter
    cases hparameter
  -- Nodes with neither.
  | name ht hk | memberName ht hk =>
    exact (Conserves.of_takes_unmarked ht (by rw [hk]; rfl)).around rfl
  | memberCall ht hk _ _ _ ihus ihvs =>
    have hcall := (ihus rfl).append (ihvs rfl)
    exact .around (.append (.leaf (.of_takes_unmarked ht (by rw [hk]; rfl)) rfl) hcall) rfl
  | parameter ht hk _ _ ihus ihvs =>
    exact ((Conserves.of_takes_unmarked ht (by rw [hk]; rfl)).trans
      ((ihus rfl).append (ihvs rfl))).around rfl
  | namedArgument ht hk hs _ ih =>
    exact ((Conserves.of_takes_unmarked ht (by rw [hk]; rfl)).trans
      ((Conserves.of_skips hs rfl).trans (ih rfl))).around rfl
  | argumentList ht hk _ hs ih | parenthesized ht hk _ hs ih =>
    exact ((Conserves.of_takes_unmarked ht (by rw [hk]; rfl)).trans
      ((ih rfl).before (.of_skips hs rfl))).around rfl
  | argument _ ih | lambdaArgument _ _ ih | valueCondition _ ih => exact (ih rfl).around rfl
  | typeCondition ht hk _ ih | membershipCondition ht hk _ ih =>
    refine ((Conserves.of_takes_unmarked ht ?_).trans (ih rfl)).around rfl
    rw [hk]
    split <;> rfl
  | enclosed hk hs _ hs' ih =>
    exact ((Conserves.of_skips hs rfl).trans ((ih rfl).before (.of_skips hs' rfl))).around
      (isHeadless_of_isEnclosed hk)
  | elseBranch hs _ ih => exact ((Conserves.of_skips hs rfl).trans (ih rfl)).around rfl
  | elseEntry hs hs' _ ih =>
    exact ((Conserves.of_skips hs rfl).trans
      ((Conserves.of_skips hs' rfl).trans (ih rfl))).around rfl
  | whenEntry _ _ hs _ ihcs ihb =>
    exact ((ihcs rfl).append ((Conserves.of_skips hs rfl).trans (ihb rfl))).around rfl
  | leading ht hk _ ih =>
    exact ((Conserves.of_takes_unmarked ht (isUnmarked_of_leading hk)).trans (ih rfl)).around rfl
  | trailing _ ht hk ih =>
    exact ((ih rfl).before (.of_takes_unmarked ht (isUnmarked_of_trailing hk))).around rfl
  | binary _ ht hk _ _ _ ihu ihv =>
    have hv := (Conserves.of_takes_unmarked ht (isUnmarked_of_connective hk)).trans (ihv rfl)
    exact ((ihu rfl).append hv).around rfl
  | typing _ ht hk hkind _ _ _ ihu ihv =>
    have hv := (Conserves.of_takes_unmarked ht (isUnmarked_of_connective hk)).trans (ihv rfl)
    exact ((ihu rfl).append hv).around (isHeadless_of_isTyping hkind)
  | assignment _ ht hk _ ihu ihv =>
    have hv := (Conserves.of_takes_unmarked ht (isUnmarked_of_assignment hk)).trans (ihv rfl)
    exact ((ihu rfl).append hv).around rfl
  | qualified _ hs _ ihu ihv =>
    refine ((ihu rfl).append ((Conserves.of_skips hs ?_).trans (ihv rfl))).around rfl
    split <;> rfl
  | arrayAccess _ hs _ _ hs' ihu ihus =>
    exact ((ihu rfl).append ((Conserves.of_skips hs rfl).trans
      ((ihus rfl).before (.of_skips hs' rfl)))).around rfl
  | call _ _ _ _ ihu ihus ihvs =>
    exact ((ihu rfl).append ((ihus rfl).append (ihvs rfl))).around rfl
  | annotated _ _ _ ihes ihus => exact ((ihes rfl).append (ihus rfl)).around rfl
  | annotatedLambda _ _ _ ihes ihu | annotatedDeclaration _ _ _ _ ihes ihu =>
    exact ((ihes rfl).append (ihu rfl)).around rfl
  | directive => cases hp

/-! ## Files -/

section File

open Reader

theorem isUnmarked_of_isPathPart (h : k.isPathPart) : k.isUnmarked := by
  cases k with
  | symbol mark => cases mark <;> first | rfl | cases h
  | identifier => rfl
  | _ => cases h

/-- A directive begins with its keyword where one is seen ahead. -/
theorem conserves_directive (h : directive s = .ok u s')
    (hk : s.kind? = some (.keyword .package_) ∨ s.kind? = some (.keyword .import_)) :
    Conserves [] 0 s [u] s' := by
  simp only [directive, bind_eq_ok, get_eq_ok] at h
  obtain ⟨first, s₁, hfirst, t, s₂, ht, _, _, ⟨rfl, rfl⟩, path, s₃, hpath, h⟩ := h
  obtain ⟨ts, hts, hall⟩ := moves_of_pathFrom hpath
  obtain ⟨ht, hkt⟩ := takes_of_identifier ht
  obtain ⟨rfl, rfl⟩ := eq_of_close h
  have hpath := (Conserves.of_takes_unmarked ht (by rw [hkt]; rfl)).trans
    (.of_moves hts fun t ht => isUnmarked_of_isPathPart (hall t ht))
  rcases hk with hk | hk
  · obtain ⟨hfirst, hkfirst⟩ := takes_of_next_of_kind? hfirst hk
    rw [if_pos hkfirst]
    exact .head hfirst (by rw [hkfirst]; rfl) hpath
  · obtain ⟨hfirst, hkfirst⟩ := takes_of_next_of_kind? hfirst hk
    rw [if_neg (by simp [hkfirst])]
    exact .head hfirst (by rw [hkfirst]; rfl) hpath

theorem conserves_packageDirective (h : packageDirective s = .ok us s') :
    Conserves [] 0 s us s' := by
  simp only [packageDirective, bind_eq_ok, get_eq_ok] at h
  obtain ⟨_, s₁, hsemi, _, _, ⟨rfl, rfl⟩, h⟩ := h
  refine of_semicolons (P := fun s => Conserves [] 0 s us s')
    (fun _ _ hs ih => (Conserves.of_skips hs rfl).trans ih) hsemi ?_
  split at h
  · rename_i hat
    simp only [bind_eq_ok, pure_eq_ok] at h
    obtain ⟨d, s₂, hd, _, s₃, hend, rfl, rfl⟩ := h
    obtain rfl := eq_of_rowEnd hend
    exact conserves_directive hd (.inl (beq_iff_eq.1 hat))
  · obtain ⟨rfl, rfl⟩ := pure_eq_ok.1 h
    exact .nil

theorem conserves_imports (h : rows (· != some (.keyword .import_)) none directive s = .ok us s') :
    Conserves [] 0 s us s' := by
  rw [rows_apply] at h
  refine of_rowsUpTo (P := Conserves [] 0) (fun _ => .nil)
    (fun _ _ _ _ hs ih => (Conserves.of_skips hs rfl).trans ih) (fun s u _ _ _ hstop _ hu ih => ?_) h
  have hk : s.kind? = some (.keyword .import_) := by simpa using hstop
  exact (conserves_directive hu (.inr hk)).append ih

/-- A file has the heads and the opening braces of all lexemes in it. -/
theorem conserves_of_file (h : file s = .ok u s') : Conserves [] 0 s [u] s' := by
  simp only [file, bind_eq_ok, get_eq_ok] at h
  obtain ⟨ps, s₁, hps, is, s₂, his, us, s₃, hus, _, _, ⟨rfl, rfl⟩, h⟩ := h
  obtain ⟨rfl, rfl⟩ := eq_of_make h
  have hstatements : Conserves [] 0 s₂ us s₃ :=
    conserves_of_reads ((Inner.sound_ofDepth maxNesting).reads_statements hus) rfl
  have hrows := (conserves_packageDirective hps).append (conserves_imports his)
  exact (hrows.append hstatements).around rfl

end File

end ResultHints
