import ResultHints.Grammar.File
import ResultHints.Proofs.Grammar.Sound
import ResultHints.Proofs.Grammar.Worth.Reader

/-!
# What expressions cost

What types, expressions, arguments and branches leave of the lexemes they take, if what they read
further in pays for itself (`Inner.Saves`). An operand leaves one, and the operator after it five;
so the two operands and the operator of a chain pay for the node above them. A lambda makes three
nodes and leaves four of its braces, which pay for an argument and for a call without any more
lexemes; and an argument needs one more than it leaves, which the comma or the parenthesis before
it has left.
-/

namespace ResultHints

open Reader

/-- What may be read further in pays for itself, and leaves something. -/
structure Inner.Saves (inner : Inner) : Prop where
  type {k : Nat} : Pays k inner.type fun _ => k + 5
  operand {k : Nat} {m : Layout} : Pays k (inner.operand m) fun _ => k + 1
  wrappedLambda {k : Nat} {m : Layout} : Pays k (inner.wrappedLambda m) fun _ => k + 4
  lambda {k : Nat} : Pays k inner.lambda fun _ => k + 4
  block {k : Nat} : Pays k inner.block fun _ => k + 8

namespace Inner.Saves

variable {inner : Inner} {k : Nat} {m : Layout} {s : Cursor} {u : Fragment} (hn : inner.Saves)

include hn

/-! ## Types -/

theorem pays_functionType : Pays k (functionType inner) fun _ => k + 5 := by
  have htypes : Pays k (itemsTo .rightParen inner.type) fun _ => k + 5 :=
    pays_itemsTo hn.type.forget (Nat.le_refl k) (Nat.le_add_right k 5)
  refine htypes.discard.bind fun _ => ?_
  exact (pays_after hn.type).discard.bind fun _ => pays_accepts.discard

theorem pays_typeArguments : Pays k (typeArguments inner) fun _ => k + 5 :=
  (pays_items hn.type.forget (Nat.le_refl k) (Nat.le_add_right k 5)).discard.bind fun _ =>
    (pays_symbol .greater).discard

theorem pays_namedType : Pays k (namedType inner) fun _ => k + 5 := by
  refine (pays_qualifiedName "type").discard.bind fun _ => ?_
  exact (pays_after hn.pays_typeArguments).discard.bind fun _ => pays_accepts.discard

theorem pays_typeLevel : Pays k (typeLevel inner) fun _ => k + 5 := by
  refine pays_bind_accepts (hn.pays_functionType.of_le fun _ => by omega) ?_
  exact pays_bind_accepts (pays_pure (Nat.le_refl _)) hn.pays_namedType

theorem pays_typeReference : Pays k (typeReference inner) fun _ => k + 3 := by
  refine pays_get fun _ => hn.type.bind fun _ => ?_
  exact pays_spanFrom.bind fun _ => pays_get fun _ => pays_make

/-! ## Expressions and assignments -/

/-- The operator and the operand after it pay for the node above them. -/
theorem pays_chain (limit : Nat) (least : Precedence) :
    Pays k (chain inner m limit least u) fun _ => k := by
  induction limit generalizing k least u with
  | zero => exact pays_pure (Nat.le_refl k)
  | succ limit ih =>
    rw [chain]
    refine pays_get fun s => ?_
    cases s.connective? m least with
    | none => exact pays_pure (Nat.le_refl k)
    | some found =>
      obtain ⟨made, level⟩ := found
      refine pays_next.discard.bind fun _ => ?_
      have hrest (v : Fragment) :
          Pays (k + 6) (join made u v >>= chain inner m limit least) fun _ => k :=
        pays_join.bind fun _ => (ih least).of_le fun _ => by omega
      cases made with
      | typeTest | cast =>
        exact hn.pays_typeReference.bind fun v => (hrest v).of_more (by omega)
      | _ => exact (hn.operand.bind fun w => ih level.next).bind hrest

theorem pays_expression : Pays k (expression inner m) fun _ => k + 1 :=
  hn.operand.bind fun _ => pays_get fun _ => hn.pays_chain _ _

theorem pays_assignment : Pays k (assignment inner m) fun _ => k + 1 := by
  refine hn.pays_expression.bind fun u => pays_get fun s => ?_
  cases s.kind? >>= TokenKind.assignment? with
  | none => exact pays_pure (Nat.le_refl _)
  | some op =>
    refine .ite (fun _ => pays_pure (Nat.le_refl _)) fun _ => pays_next.discard.bind fun _ => ?_
    exact hn.pays_expression.bind fun v => pays_join.of_le fun _ => by omega

/-! ## Arguments -/

theorem pays_argument : Pays (k + 1) (argument inner) fun _ => k := by
  have hvalue {name : Option String} {start : Nat} : Pays (k + 1) (do
      let value ← expression inner .free
      close start (.argument name) [value]) fun _ => k :=
    hn.pays_expression.bind fun _ => pays_close
  refine pays_get fun s => .ite (fun _ => ?_) fun _ => hvalue
  exact pays_next.bind fun _ => pays_next.discard.bind fun _ => hvalue.of_more (by omega)

theorem pays_argumentList : Pays k (argumentList inner) fun _ => k + 7 := by
  refine (pays_symbol .leftParen).bind fun opening => ?_
  have harguments : Pays (k + 5) (itemsTo .rightParen (argument inner)) fun _ => k + 9 :=
    pays_itemsTo hn.pays_argument (by omega) (by omega)
  exact harguments.bind fun _ => pays_close

theorem pays_annotationEntriesUpTo (limit : Nat) :
    Pays k (annotationEntriesUpTo inner m limit) fun es => k + 3 * es.length := by
  induction limit generalizing k with
  | zero => exact pays_pure (Nat.le_refl k)
  | succ limit ih =>
    refine pays_bind_accept (fun t => pays_get fun s => ?_) (pays_pure (Nat.le_refl k))
    refine (pays_optionally hn.pays_argumentList).bind fun _ => pays_close.bind fun entry => ?_
    exact ih.bind fun es => pays_pure (by rw [List.length_cons]; omega)

theorem pays_annotationEntries :
    Pays k (annotationEntries inner m) fun es => k + 3 * es.length :=
  pays_get fun _ => hn.pays_annotationEntriesUpTo _

/-- Before an annotation there is an entry to save from. -/
theorem paysAt_annotationEntries (h : s.kind? = some .annotationName) :
    PaysAt s k (annotationEntries inner m) fun _ => k + 3 := by
  refine Paid.of_le (hn.pays_annotationEntries s) (Nat.le_refl _) fun es s' hes => ?_
  have hpos := List.length_pos_of_ne_nil (Inner.Sound.annotationEntries_ne_nil hes h)
  omega

theorem pays_lambdaArgument : Pays k (lambdaArgument inner m) fun _ => k + 2 :=
  pays_get fun _ => hn.wrappedLambda.bind fun _ => pays_close

/-- The arguments or the lambda of a call pay for it. -/
theorem pays_callOf? : Pays k (callOf? inner m u) fun _ => k := by
  refine pays_get fun s => .ite (fun _ => pays_pure (Nat.le_refl k)) fun _ => ?_
  refine (pays_optionally_length hn.pays_argumentList).bind fun us => pays_get fun s => ?_
  refine (pays_optionally_length hn.pays_lambdaArgument).bind fun vs => ?_
  refine .ite (fun _ => pays_pure (by omega)) fun hne => ?_
  have hpos := List.length_pos_of_ne_nil (mt List.isEmpty_iff.2 hne)
  rw [List.length_append] at hpos
  have hcall : Pays (k + 2) (some <$> close u.span.start .call (u :: (us ++ vs))) fun _ => k :=
    pays_close.map
  exact hcall.of_more (by omega)

/-! ## Branches and loops -/

theorem pays_controlBody : Pays k (controlBody inner m) fun _ => k + 1 :=
  pays_get fun _ => .ite (fun _ => hn.block.of_le fun _ => by omega) fun _ => hn.pays_assignment

theorem pays_inParentheses {kind : NodeKind} :
    Pays k (inParentheses inner kind) fun _ => k + 9 := by
  refine (pays_symbol .leftParen).discard.bind fun _ => hn.pays_expression.bind fun e => ?_
  exact (pays_symbol .rightParen).discard.bind fun _ => pays_wrap

theorem pays_elseBranch : Pays k (elseBranch inner m) fun _ => k + 4 := by
  refine pays_accepts.discard.bind fun _ => (pays_keyword .else_).discard.bind fun _ => ?_
  exact hn.pays_controlBody.bind fun _ => pays_wrap

theorem pays_ifElse : Pays k (ifElse inner m) fun _ => k + 11 := by
  refine (pays_keyword .if_).bind fun _ => hn.pays_inParentheses.bind fun condition => ?_
  refine hn.pays_controlBody.bind fun body => pays_wrap.bind fun thenBranch => ?_
  exact pays_get fun _ => (pays_optionally hn.pays_elseBranch).bind fun _ => pays_close

theorem pays_whenCondition : Pays (k + 1) (whenCondition inner) fun _ => k := by
  have htest {test : WhenTest} {start : Nat} : Pays (k + 1) (do
      discard next
      close start (.whenCondition test) [← typeReference inner]) fun _ => k := by
    refine pays_next.discard.bind fun _ => hn.pays_typeReference.bind fun _ => ?_
    exact pays_close.of_le fun _ => by omega
  have hvalue {test : WhenTest} {start : Nat} : Pays (k + 1) (do
      close start (.whenCondition test) [← expression inner .lines]) fun _ => k :=
    hn.pays_expression.bind fun _ => pays_close
  refine pays_get fun s => ?_
  dsimp only
  split
  · exact htest
  · exact htest
  · exact pays_next.discard.bind fun _ => hvalue.of_more (by omega)
  · exact pays_next.discard.bind fun _ => hvalue.of_more (by omega)
  · exact hvalue

theorem pays_whenEntry : Pays (k + 1) (whenEntry inner) fun _ => k + 1 := by
  have hbody {isElse : Bool} {start : Nat} {conditions : List Fragment} : Pays k (do
      discard (symbol .arrow)
      let body ← controlBody inner .lines
      close start (.whenEntry isElse) (conditions ++ [body])) fun _ => k + 1 := by
    refine (pays_symbol .arrow).discard.bind fun _ => hn.pays_controlBody.bind fun _ => ?_
    exact pays_close.of_le fun _ => by omega
  refine pays_get fun s => pays_bind_accept (fun _ => ?_) ?_
  · exact (pays_pure (Q := fun _ => k) (by omega)).bind fun _ => hbody
  · exact (pays_items hn.pays_whenCondition (by omega) (by omega)).bind fun _ => hbody

theorem pays_whenBranches : Pays k (whenBranches inner) fun _ => k + 1 := by
  refine (pays_keyword .when_).bind fun _ => pays_get fun s => ?_
  refine (pays_optionally hn.pays_inParentheses).bind fun subject => ?_
  refine (pays_symbol .leftBrace).discard.bind fun _ => ?_
  refine (pays_rows hn.pays_whenEntry).bind fun entries => ?_
  refine (pays_symbol .rightBrace).discard.bind fun _ => ?_
  exact pays_close.of_le fun _ => by omega

theorem pays_forLoop : Pays k (forLoop inner m) fun _ => k + 1 := by
  refine (pays_keyword .for_).bind fun _ => (pays_symbol .leftParen).discard.bind fun _ => ?_
  refine (pays_identifier _).bind fun name => (pays_keyword .in_).discard.bind fun _ => ?_
  refine hn.pays_expression.bind fun e => (pays_symbol .rightParen).discard.bind fun _ => ?_
  refine pays_wrap.bind fun range => hn.pays_controlBody.bind fun _ => pays_wrap.bind fun body => ?_
  exact pays_close.of_le fun _ => by omega

theorem pays_whileLoop : Pays k (whileLoop inner m) fun _ => k + 1 := by
  refine (pays_keyword .while_).bind fun _ => hn.pays_inParentheses.bind fun condition => ?_
  refine hn.pays_controlBody.bind fun _ => pays_wrap.bind fun body => ?_
  exact pays_close.of_le fun _ => by omega

end Inner.Saves

end ResultHints
