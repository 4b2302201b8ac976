import ResultHints.Proofs.Grammar.Worth.Expression

/-!
# What statements and files cost

Operands, statements, lambdas and blocks pay for themselves, if what they read further in does;
so all levels of nesting do (`saves_ofDepth`). Main statements:

- `pays_expression_outermost`: an expression of the outermost level pays for itself;
- `pays_file`: a file lacks two, for the node of the file itself.
-/

namespace ResultHints

open Reader

namespace Inner.Saves

variable {inner : Inner} {k : Nat} {m : Layout} {s : Cursor} {u : Fragment} (hn : inner.Saves)

/-! ## What stands alone -/

theorem pays_labelReference? : Pays k labelReference? fun _ => k :=
  pays_bind_accept (fun _ => pays_pure (Nat.le_add_right k 5)) (pays_pure (Nat.le_refl k))

include hn

theorem pays_returnJump {start : Nat} : Pays (k + 2) (returnJump inner m start) fun _ => k := by
  refine pays_labelReference?.bind fun _ => pays_get fun _ => ?_
  exact (pays_optionally hn.pays_expression).bind fun _ => pays_close

theorem pays_parenthesized {start : Nat} : Pays k (parenthesized inner start) fun _ => k + 4 := by
  refine hn.pays_expression.bind fun _ => (pays_symbol .rightParen).discard.bind fun _ => ?_
  exact pays_close

theorem pays_keywordExpression {t : Lexeme} {word : Keyword} :
    Pays k (keywordExpression inner m t word) fun _ => k + 1 := by
  have hlabel {made : Option String → NodeKind} : Pays k (do
      discard next
      close t.start (made (← labelReference?)) []) fun _ => k + 1 := by
    refine pays_next.discard.bind fun _ => pays_labelReference?.bind fun _ => ?_
    exact pays_close.of_le fun _ => by omega
  unfold keywordExpression
  split
  · exact hlabel
  · exact hn.pays_ifElse.of_le fun _ => by omega
  · exact hn.pays_whenBranches
  · exact hn.pays_forLoop
  · exact hn.pays_whileLoop
  · exact pays_next.discard.bind fun _ => hn.pays_returnJump.of_le fun _ => by omega
  · refine pays_next.discard.bind fun _ => hn.pays_expression.bind fun _ => ?_
    exact pays_close.of_le fun _ => by omega
  · exact hlabel
  · exact hlabel
  · exact pays_unexpected

theorem pays_primary : Pays k (primary inner m) fun _ => k + 1 := by
  refine pays_get fun s => ?_
  have hleaf {made : NodeKind} {t : Lexeme} : Pays k (do
      discard next
      leaf made t) fun _ => k + 1 :=
    pays_next.discard.bind fun _ => pays_leaf.of_le fun _ => by omega
  split
  · exact pays_unexpected
  · split
    · exact hleaf
    · exact hleaf
    · exact pays_next.discard.bind fun _ => hn.pays_parenthesized.of_le fun _ => by omega
    · exact hn.lambda.of_le fun _ => by omega
    · exact hn.pays_keywordExpression
    · exact pays_unexpected

/-! ## What follows -/

theorem pays_member : Pays k (member inner m) fun _ => k + 3 := by
  refine (pays_identifier _).bind fun t => pays_leaf.bind fun name => ?_
  exact hn.pays_callOf?.bind fun _ => pays_pure (Nat.le_refl _)

theorem pays_indices : Pays k (indices inner u) fun _ => k + 3 := by
  refine (pays_items hn.pays_expression.forget (by omega) (by omega)).bind fun _ => ?_
  exact (pays_symbol .rightBracket).discard.bind fun _ => pays_close

theorem pays_suffixesUpTo (limit : Nat) : Pays k (suffixesUpTo inner m limit u) fun _ => k := by
  induction limit generalizing u with
  | zero => exact pays_pure (Nat.le_refl k)
  | succ limit ih =>
    refine pays_get fun s => ?_
    have hmember {safe : Bool} : Pays k (do
        discard next
        let name ← member inner m
        suffixesUpTo inner m limit (← join (.qualified safe) u name)) fun _ => k := by
      refine pays_next.discard.bind fun _ => hn.pays_member.bind fun name => ?_
      exact pays_join.bind fun _ => ih.of_more (by omega)
    split
    · exact hmember
    · exact hmember
    · refine .ite (fun _ => pays_pure (Nat.le_refl k)) fun _ => ?_
      split
      · exact pays_next.discard.bind fun _ => pays_close.bind fun _ => ih.of_more (by omega)
      · exact pays_next.discard.bind fun _ => hn.pays_indices.bind fun _ => ih.of_more (by omega)
      · refine hn.pays_callOf?.bind fun found => ?_
        cases found with
        | none => exact pays_pure (Nat.le_refl k)
        | some call => exact ih

theorem pays_suffixes : Pays k (suffixes inner m) fun _ => k + 1 :=
  hn.pays_primary.bind fun _ => pays_get fun _ => hn.pays_suffixesUpTo _

/-! ## What stands before -/

theorem pays_operandLevel : Pays k (operandLevel inner m) fun _ => k + 1 := by
  -- There is an entry only if an annotation comes next, so the cursor is kept in sight.
  refine fun s => paysAt_get ?_
  dsimp only
  split
  · refine pays_next.discard.bind (fun _ => hn.operand.bind fun e => ?_) s
    exact pays_close.of_le fun _ => by omega
  · refine pays_next.bind (fun label => pays_get fun _ => ?_) s
    exact (pays_optionally hn.operand).bind fun _ => pays_close.of_le fun _ => by omega
  · next hk =>
    refine (hn.paysAt_annotationEntries hk).bind fun es => pays_get fun _ => ?_
    exact (pays_optionally hn.operand).bind fun _ => pays_close
  · exact hn.pays_suffixes s

theorem pays_wrappedLambdaLevel : Pays k (wrappedLambdaLevel inner m) fun _ => k + 4 := by
  refine fun s => paysAt_get ?_
  dsimp only
  split
  · next hk =>
    refine (hn.paysAt_annotationEntries hk).bind fun es => hn.wrappedLambda.bind fun e => ?_
    exact pays_close.of_le fun _ => by omega
  · refine pays_next.bind (fun label => hn.wrappedLambda.bind fun e => ?_) s
    exact pays_close.of_le fun _ => by omega
  · exact hn.lambda s

/-! ## Declarations and statements -/

theorem pays_functionParameter : Pays k (functionParameter inner) fun _ => k + 3 := by
  refine (pays_identifier _).bind fun name => (pays_after hn.pays_typeReference).bind fun _ => ?_
  exact (pays_after hn.pays_expression).bind fun _ => pays_close

theorem pays_lambdaParameter : Pays k (lambdaParameter inner) fun _ => k + 3 := by
  refine (pays_identifier _).bind fun name => (pays_after hn.pays_typeReference).bind fun _ => ?_
  exact pays_close

theorem pays_functionBody : Pays k (functionBody inner) fun _ => k := by
  refine pays_get fun _ => .ite (fun _ => ?_) fun _ => pays_after hn.pays_expression
  exact hn.block.bind fun _ => pays_pure (Nat.le_add_right k 8)

theorem pays_function : Pays k (function inner) fun _ => k + 3 := by
  refine (pays_keyword .fun_).bind fun _ => (pays_qualifiedName _).bind fun name => ?_
  refine (pays_symbol .leftParen).discard.bind fun _ => ?_
  refine (pays_itemsTo hn.pays_functionParameter.forget (by omega) (by omega)).bind fun _ => ?_
  refine (pays_after hn.pays_typeReference).bind fun _ => hn.pays_functionBody.bind fun _ => ?_
  exact pays_close.of_le fun _ => by omega

theorem pays_property : Pays k (property inner) fun _ => k + 3 := by
  refine pays_next.bind fun first => (pays_identifier _).bind fun name => ?_
  refine (pays_after hn.pays_typeReference).bind fun _ => ?_
  exact (pays_after hn.pays_expression).bind fun _ => pays_close.of_le fun _ => by omega

theorem pays_annotatedDeclaration : Pays k (annotatedDeclaration inner) fun _ => k + 1 := by
  refine pays_get fun s => ?_
  refine (hn.pays_annotationEntries.of_le fun _ => Nat.le_add_right k _).bind fun _ => ?_
  refine pays_get fun _ => .ite (fun _ => ?_) fun _ => ?_
  · exact hn.pays_function.bind fun _ => pays_close
  · exact hn.pays_property.bind fun _ => pays_close

theorem pays_statement : Pays k (statement inner) fun _ => k + 1 := by
  refine pays_get fun s => ?_
  split
  · exact hn.pays_function.of_le fun _ => by omega
  · exact hn.pays_property.of_le fun _ => by omega
  · exact hn.pays_property.of_le fun _ => by omega
  · exact .ite (fun _ => hn.pays_annotatedDeclaration) fun _ => hn.pays_assignment
  · exact hn.pays_assignment

theorem pays_statements {closing : Option TokenKind} :
    Pays k (statements inner closing) fun _ => k :=
  pays_rows hn.pays_statement.forget

theorem pays_blockLevel : Pays k (blockLevel inner) fun _ => k + 8 := by
  refine (pays_symbol .leftBrace).bind fun opening => hn.pays_statements.bind fun body => ?_
  exact (pays_symbol .rightBrace).bind fun closing => pays_make

theorem pays_lambdaParameters : Pays k (lambdaParameters inner) fun _ => k := by
  refine pays_get fun s => .ite (fun _ => ?_) fun _ => pays_pure (Nat.le_refl k)
  refine (pays_items hn.pays_lambdaParameter.forget (by omega) (by omega)).bind fun _ => ?_
  exact (pays_symbol .arrow).discard.bind fun _ => pays_pure (Nat.le_add_right k 5)

/-- The braces of a lambda pay for its three nodes. -/
theorem pays_lambdaLevel : Pays k (lambdaLevel inner) fun _ => k + 4 := by
  refine (pays_symbol .leftBrace).bind fun opening => hn.pays_lambdaParameters.bind fun _ => ?_
  refine hn.pays_statements.bind fun body => (pays_symbol .rightBrace).bind fun closing => ?_
  exact pays_make.bind fun block => pays_make.bind fun literal => pays_make

end Inner.Saves

/-! ## All levels -/

variable {k : Nat} {m : Layout}

theorem pays_tooDeep {α : Type} {Q : α → Nat} : Pays k tooDeep Q := fun _ => paid_error

/-- However deep it is nested, all that is read pays for itself. -/
theorem saves_ofDepth (n : Nat) : (Inner.ofDepth n).Saves := by
  induction n with
  | zero =>
    exact ⟨pays_tooDeep, pays_tooDeep, pays_tooDeep, pays_tooDeep, pays_tooDeep⟩
  | succ n ih =>
    exact ⟨ih.pays_typeLevel, ih.pays_operandLevel, ih.pays_wrappedLambdaLevel,
      ih.pays_lambdaLevel, ih.pays_blockLevel⟩

theorem pays_expression_outermost : Pays k (expression .outermost m) fun _ => k + 1 :=
  (saves_ofDepth maxNesting).pays_expression

/-! ## Files -/

theorem pays_pathFrom (limit : Nat) : Pays k (pathFrom limit) fun _ => k := by
  induction limit generalizing k with
  | zero => exact pays_pure (Nat.le_refl k)
  | succ limit ih =>
    refine pays_bind_accepts ?_ (pays_pure (Nat.le_refl k))
    refine pays_bind_accepts (pays_pure (by omega)) ?_
    exact (pays_identifier _).bind fun _ => ih.bind fun _ => pays_pure (by omega)

theorem pays_directive : Pays k directive fun _ => k := by
  refine pays_next.bind fun _ => (pays_identifier _).bind fun _ => pays_get fun _ => ?_
  exact (pays_pathFrom _).bind fun _ => pays_close.of_le fun _ => by omega

theorem pays_packageDirective : Pays k packageDirective fun _ => k := by
  refine pays_semicolons.bind fun _ => pays_get fun _ => ?_
  refine .ite (fun _ => ?_) fun _ => pays_pure (Nat.le_refl k)
  exact pays_directive.bind fun _ => pays_rowEnd.bind fun _ => pays_pure (Nat.le_refl k)

theorem pays_file : Pays (k + 2) file fun _ => k := by
  refine pays_packageDirective.bind fun _ => (pays_rows pays_directive).bind fun _ => ?_
  refine (saves_ofDepth maxNesting).pays_statements.bind fun _ => pays_get fun _ => ?_
  exact pays_make

end ResultHints
