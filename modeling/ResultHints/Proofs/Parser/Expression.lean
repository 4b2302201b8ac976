import ResultHints.Parser.Expression
import ResultHints.Proofs.Parser.Reader

/-!
# Expressions by a parser

The procedures of types, expressions, arguments and branches do what the readers of the same
rules do, if the procedures that open a level do what may be read further in
(`Calls.Follows`).
-/

namespace ResultHints

open Reader

/-- The procedures that open a level do what may be read further in, on a level with `d` more. -/
structure Calls.Follows (calls : Calls) (A : Prop) (d : Nat) (inner : Inner) : Prop where
  type {m : Layout} {s : Session} {us : List Fragment} : s.Stands A m d us →
    Does A m d s (fun _ => us) (calls.type s) (inner.type s.now.cursor)
  operand {m : Layout} {s : Session} {us : List Fragment} : s.Stands A m d us →
    Does A m d s (fun u => us ++ [u]) (calls.operand s) (inner.operand m s.now.cursor)
  wrappedLambda {m : Layout} {s : Session} {us : List Fragment} : s.Stands A m d us →
    Does A m d s (fun u => us ++ [u]) (calls.wrappedLambda s) (inner.wrappedLambda m s.now.cursor)
  lambda {m : Layout} {s : Session} {us : List Fragment} : s.Stands A m d us →
    Does A m d s (fun u => us ++ [u]) (calls.lambda s) (inner.lambda s.now.cursor)
  block {m : Layout} {s : Session} {us : List Fragment} : s.Stands A m d us →
    Does A m d s (fun u => us ++ [u]) (calls.block s) (inner.block s.now.cursor)

/-! ## Parts in a layout of their own -/

namespace Reader

variable (inner : Inner)

/-- An expression up to a closing parenthesis, which is taken. -/
def expressionInParentheses : Reader Fragment := do
  let e ← expression inner .free
  discard (symbol .rightParen)
  return e

/-- The entries of a `when` up to a closing brace, which is taken. -/
def whenEntries : Reader (List Fragment) := do
  let close? : Option TokenKind := some (.symbol .rightBrace)
  let entries ← rows (· == close?) close? (whenEntry inner)
  discard (symbol .rightBrace)
  return entries

/-- The variable of a `for` and what it goes over, up to a closing parenthesis, which is taken. -/
def loopHead : Reader (Lexeme × Fragment) := do
  let name ← identifier "loop variable"
  discard (keyword .in_)
  let iterated ← expression inner .free
  discard (symbol .rightParen)
  let range ← wrap .loopRange iterated
  return (name, range)

theorem inParentheses_eq (kind : NodeKind) : inParentheses inner kind =
    (do
      discard (symbol .leftParen)
      let e ← expressionInParentheses inner
      wrap kind e) := by
  simp only [inParentheses, expressionInParentheses, bind_assoc, pure_bind]

theorem whenBranches_eq : whenBranches inner =
    (do
      let start := (← keyword .when_).start
      let s ← get
      let subject ← optionally (s.isAt (.symbol .leftParen)) (inParentheses inner .whenSubject)
      discard (symbol .leftBrace)
      let entries ← whenEntries inner
      close start .when_ (subject ++ entries)) := by
  simp only [whenBranches, whenEntries, bind_assoc, pure_bind]

theorem forLoop_eq (m : Layout) : forLoop inner m =
    (do
      let start := (← keyword .for_).start
      discard (symbol .leftParen)
      let (name, range) ← loopHead inner
      let body ← wrap .loopBody (← controlBody inner m)
      close start (.forLoop (identifierName name.text)) [range, body]) := by
  simp only [forLoop, loopHead, bind_assoc, pure_bind]

end Reader

namespace Calls.Follows

variable {calls : Calls} {A : Prop} {m : Layout} {d : Nat} {inner : Inner} {s : Session}
  {us : List Fragment} {u : Fragment} (hc : calls.Follows A d inner)

include hc

/-! ## Types -/

theorem does_functionType (h : s.Stands A m d us) :
    Does A m d s (fun _ => us) (Run.functionType calls s) (functionType inner s.now.cursor) := by
  refine .bind (h.does_withLayout fun _ h => h.does_itemsTo hc.type .rightParen).discard
    fun _ _ h => ?_
  exact .bind (h.does_after hc.type .arrow).discard fun _ _ h => (h.does_accepts .question).discard

theorem does_typeArguments (h : s.Stands A m d us) :
    Does A m d s (fun _ => us) (Run.typeArguments calls s) (typeArguments inner s.now.cursor) :=
  .bind (h.does_items hc.type none).discard fun _ _ h => (h.does_symbol .greater).discard

theorem does_namedType (h : s.Stands A m d us) :
    Does A m d s (fun _ => us) (Run.namedType calls s) (namedType inner s.now.cursor) := by
  refine .bind (h.does_qualifiedName "type").discard fun _ _ h => ?_
  refine .bind (h.does_after hc.does_typeArguments .less).discard fun _ _ h => ?_
  exact (h.does_accepts .question).discard

theorem does_typeLevel (h : s.Stands A m d us) :
    Does A m d s (fun _ => us) (Run.typeLevel calls s) (typeLevel inner s.now.cursor) := by
  refine .bind (h.does_accepts .leftParen) fun _ _ h => ?_
  refine .ite (fun _ => rfl) (fun _ => hc.does_functionType h) fun _ => ?_
  refine .bind (h.does_accepts .star) fun _ _ h => ?_
  exact .ite (fun _ => rfl) (fun _ => .pure h) fun _ => hc.does_namedType h

theorem does_typeReference (h : s.Stands A m d us) :
    Does A m d s (fun u => us ++ [u]) (Run.typeReference calls s)
      (typeReference inner s.now.cursor) :=
  .look (.bind (hc.type h) fun _ _ h => h.does_make _ _ (List.append_nil us).symm)

/-! ## Expressions and assignments -/

theorem does_chain (limit : Nat) (least : Precedence) (h : s.Stands A m d (us ++ [u])) :
    Does A m d s (fun w => us ++ [w]) (Run.chain calls limit least u s)
      (chain inner m limit least u s.now.cursor) := by
  induction limit generalizing least u us s with
  | zero => exact .pure h
  | succ limit ih =>
    rw [Run.chain, chain]
    refine .look ?_
    have hfound : A → s.now.cursor.connective? m least =
        s.now.cursor.connective? s.now.layout least := fun hA => by rw [h.layout hA]
    generalize s.now.cursor.connective? m least = found at hfound ⊢
    apply Does.subst found hfound
    cases s.now.cursor.connective? s.now.layout least with
    | none => exact .pure h
    | some made =>
      obtain ⟨made, level⟩ := made
      refine .bind h.does_next.discard fun _ _ h => ?_
      have hrest {v : Fragment} {s : Session} (h : s.Stands A m d (us ++ [u] ++ [v])) :
          Does A m d s (fun w => us ++ [w])
            ((Run.join made u v >>= Run.chain calls limit least) s)
            ((join made u v >>= chain inner m limit least) s.now.cursor) :=
        .bind (h.does_join made) fun _ _ h => ih _ h
      cases made with
      | typeTest | cast => exact .bind (hc.does_typeReference h) fun _ _ h => hrest h
      | _ =>
        exact .bind (.bind (hc.operand h) fun v _ h => ih (u := v) level.next h)
          fun _ _ h => hrest h

theorem does_binary (least : Precedence) (h : s.Stands A m d us) :
    Does A m d s (fun u => us ++ [u]) (Run.binary calls least s)
      ((do
        let first ← inner.operand m
        chain inner m (← get).size least first : Reader _) s.now.cursor) :=
  .bind (hc.operand h) fun _ _ h => .look (hc.does_chain _ _ h)

theorem does_expression (h : s.Stands A m d us) :
    Does A m d s (fun u => us ++ [u]) (Run.expression calls s)
      (expression inner m s.now.cursor) :=
  hc.does_binary .disjunction h

theorem does_assignment (h : s.Stands A m d us) :
    Does A m d s (fun u => us ++ [u]) (Run.assignment calls s)
      (assignment inner m s.now.cursor) := by
  refine .bind (hc.does_expression h) fun u s h => .look ?_
  cases s.now.cursor.kind? >>= TokenKind.assignment? with
  | none => exact .pure h
  | some op =>
    refine .ite h.atBreak (fun _ => .pure h) fun _ => ?_
    refine .bind h.does_next.discard fun _ _ h => ?_
    exact .bind (hc.does_expression h) fun _ _ h => h.does_join _

/-! ## Arguments -/

theorem does_argument (h : s.Stands A .free d us) :
    Does A .free d s (fun u => us ++ [u]) (Run.argument calls s)
      (argument inner s.now.cursor) := by
  refine .look (.ite (fun _ => rfl) (fun _ => ?_) fun _ => ?_)
  · refine .bind h.does_next fun _ _ h => .bind h.does_next.discard fun _ _ h => ?_
    exact .bind (hc.does_expression h) fun _ _ h => h.does_close _ _ rfl
  · exact .bind (hc.does_expression h) fun _ _ h => h.does_close _ _ rfl

theorem does_argumentList (h : s.Stands A m d us) :
    Does A m d s (fun u => us ++ [u]) (Run.argumentList calls s)
      (argumentList inner s.now.cursor) := by
  refine .bind (h.does_symbol .leftParen) fun _ _ h => ?_
  refine .bind (h.does_withLayout fun _ h => h.does_itemsTo hc.does_argument .rightParen)
    fun _ _ h => ?_
  exact h.does_close _ _ rfl

theorem does_annotationEntriesUpTo (limit : Nat) (h : s.Stands A m d us) :
    Does A m d s (fun vs => us ++ vs) (Run.annotationEntriesUpTo calls limit s)
      (annotationEntriesUpTo inner m limit s.now.cursor) := by
  induction limit generalizing s us with
  | zero => exact .pure (h.of_eq (List.append_nil us).symm)
  | succ limit ih =>
    refine .bind (h.does_accept _) fun t _ h => ?_
    cases t with
    | none => exact .pure (h.of_eq (List.append_nil us).symm)
    | some t =>
      refine .look (.bind (h.does_optionally (fun hA => by rw [h.atBreak hA])
        (hc.does_argumentList h)) fun _ _ h => ?_)
      refine .bind (h.does_close _ _ rfl) fun _ _ h => ?_
      exact .bind (ih h) fun _ _ h => .pure (h.of_eq (List.append_cons ..).symm)

theorem does_annotationEntries (h : s.Stands A m d us) :
    Does A m d s (fun vs => us ++ vs) (Run.annotationEntries calls s)
      (annotationEntries inner m s.now.cursor) :=
  .look (hc.does_annotationEntriesUpTo _ h)

theorem does_lambdaArgument (h : s.Stands A m d us) :
    Does A m d s (fun u => us ++ [u]) (Run.lambdaArgument calls s)
      (lambdaArgument inner m s.now.cursor) :=
  .look (.bind (hc.wrappedLambda h) fun _ _ h => h.does_close _ _ rfl)

/-- The call is pending in place of what is called. -/
theorem does_callOf? (h : s.Stands A m d (us ++ [u])) :
    Does A m d s (fun call => us ++ [call.getD u]) (Run.callOf? calls u s)
      (callOf? inner m u s.now.cursor) := by
  refine .look (.ite h.atBreak (fun _ => .pure h) fun _ => ?_)
  refine .bind (h.does_optionally (fun _ => rfl) (hc.does_argumentList h)) fun as _ h => .look ?_
  refine .bind (h.does_optionally (fun hA => by rw [h.atBreak hA]) (hc.does_lambdaArgument h))
    fun ls _ h => ?_
  refine .ite (fun _ => rfl) (fun hnone => .pure (h.of_eq ?_)) fun _ => ?_
  · obtain ⟨rfl, rfl⟩ := List.append_eq_nil_iff.1 (List.isEmpty_iff.1 hnone)
    simp [Yields.allOnto]
  · exact .bind (h.does_close _ _ (by simp [Yields.allOnto])) fun _ _ h => .pure h

/-! ## Branches and loops -/

theorem does_body (h : s.Stands A m d us) :
    Does A m d s (fun u => us ++ [u]) (Run.body calls s) (controlBody inner m s.now.cursor) :=
  .look (.ite (fun _ => rfl) (fun _ => hc.block h) fun _ => hc.does_assignment h)

theorem does_controlBody (kind : NodeKind) (h : s.Stands A m d us) :
    Does A m d s (fun u => us ++ [u]) (Run.controlBody calls kind s)
      ((controlBody inner m >>= wrap kind) s.now.cursor) :=
  .bind (hc.does_body h) fun _ _ h => h.does_wrap kind

theorem does_expressionInParentheses (h : s.Stands A m d us) :
    Does A m d s (fun u => us ++ [u]) (Run.expressionInParentheses calls s)
      (expressionInParentheses inner s.now.cursor) :=
  h.does_withLayout fun _ h => .bind (hc.does_expression h) fun _ _ h =>
    .bind (h.does_symbol .rightParen).discard fun _ _ h => .pure h

theorem does_inParentheses (kind : NodeKind) (h : s.Stands A m d us) :
    Does A m d s (fun u => us ++ [u]) (Run.inParentheses calls kind s)
      (inParentheses inner kind s.now.cursor) := by
  rw [inParentheses_eq]
  refine .bind (h.does_symbol .leftParen).discard fun _ _ h => ?_
  exact .bind (hc.does_expressionInParentheses h) fun _ _ h => h.does_wrap kind

theorem does_elseBranch (h : s.Stands A m d us) :
    Does A m d s (fun u => us ++ [u]) (Run.elseBranch calls s)
      (elseBranch inner m s.now.cursor) := by
  refine .bind (h.does_accepts .semicolon).discard fun _ _ h => ?_
  exact .bind (h.does_keyword .else_).discard fun _ _ h => hc.does_controlBody _ h

theorem does_ifElse (h : s.Stands A m d us) :
    Does A m d s (fun u => us ++ [u]) (Run.ifElse calls s) (ifElse inner m s.now.cursor) := by
  refine .bind (h.does_keyword .if_) fun _ _ h => ?_
  refine .bind (hc.does_inParentheses _ h) fun _ _ h => ?_
  refine .bind_bind (hc.does_controlBody _ h) fun _ _ h => .look ?_
  refine .bind (h.does_optionally (fun _ => rfl) (hc.does_elseBranch h)) fun _ _ h => ?_
  exact h.does_close _ _ (by simp [Yields.allOnto])

/-- A condition stands among the entries of a `when`, in lines. -/
theorem does_whenCondition (h : s.Stands A .lines d us) :
    Does A .lines d s (fun u => us ++ [u]) (Run.whenCondition calls s)
      (whenCondition inner s.now.cursor) := by
  have hclose (kind : NodeKind) {u : Fragment} {s' : Session}
      (h : s'.Stands A .lines d (us ++ [u])) :
      Does A .lines d s' (fun u => us ++ [u]) (Run.close s.now.cursor.position kind [u] s')
        (close s.now.cursor.position kind [u] s'.now.cursor) := h.does_close _ _ rfl
  have hplain : Does A .lines d s (fun u => us ++ [u])
      ((Run.expression calls >>= fun u =>
        Run.close s.now.cursor.position (.whenCondition .expression) [u]) s)
      ((expression inner .lines >>= fun u =>
        close s.now.cursor.position (.whenCondition .expression) [u]) s.now.cursor) :=
    .bind (hc.does_expression h) fun _ _ h => hclose _ h
  refine .look ?_
  cases s.now.cursor.kind? with
  | none => exact hplain
  | some k =>
    cases k with
    | keyword word =>
      cases word with
      | is_ | notIs =>
        refine .bind h.does_next.discard fun _ _ h => ?_
        exact .bind (hc.does_typeReference h) fun _ _ h => hclose _ h
      | in_ | notIn =>
        refine .bind h.does_next.discard fun _ _ h => ?_
        exact .bind (hc.does_expression h) fun _ _ h => hclose _ h
      | _ => exact hplain
    | _ => exact hplain

theorem does_whenEntry (h : s.Stands A .lines d us) :
    Does A .lines d s (fun u => us ++ [u]) (Run.whenEntry calls s)
      (whenEntry inner s.now.cursor) := by
  refine .look (.bind (h.does_accept _) fun o _ h => ?_)
  have hrest {cs : List Fragment} {s' : Session} (h : s'.Stands A .lines d (us ++ cs)) :
      Does A .lines d s' (fun u => us ++ [u])
        ((do
          discard (Run.symbol .arrow)
          let body ← Run.body calls
          Run.close s.now.cursor.position (.whenEntry o.isSome) (cs ++ [body])) s')
        ((do
          discard (symbol .arrow)
          let body ← controlBody inner .lines
          close s.now.cursor.position (.whenEntry o.isSome) (cs ++ [body])) s'.now.cursor) := by
    refine .bind (h.does_symbol .arrow).discard fun _ _ h => ?_
    exact .bind (hc.does_body h) fun _ _ h => h.does_close _ _ (List.append_assoc ..)
  refine .ite (fun _ => rfl) (fun _ => ?_) fun _ => ?_
  · exact hrest (h.of_eq (List.append_nil us).symm)
  · exact .bind (h.does_items hc.does_whenCondition none) fun _ _ h => hrest h

theorem does_whenEntries (h : s.Stands A m d us) :
    Does A m d s (fun vs => us ++ vs) (Run.whenEntries calls s)
      (whenEntries inner s.now.cursor) :=
  h.does_withLayout fun _ h => .bind (h.does_rows hc.does_whenEntry _) fun _ _ h =>
    .bind (h.does_symbol .rightBrace).discard fun _ _ h => .pure h

theorem does_whenBranches (h : s.Stands A m d us) :
    Does A m d s (fun u => us ++ [u]) (Run.whenBranches calls s)
      (whenBranches inner s.now.cursor) := by
  rw [whenBranches_eq]
  refine .bind (h.does_keyword .when_) fun _ _ h => .look ?_
  refine .bind (h.does_optionally (fun _ => rfl) (hc.does_inParentheses _ h)) fun _ _ h => ?_
  refine .bind (h.does_symbol .leftBrace).discard fun _ _ h => ?_
  refine .bind (hc.does_whenEntries h) fun _ _ h => ?_
  exact h.does_close _ _ (List.append_assoc ..)

theorem does_loopHead (h : s.Stands A m d us) :
    Does A m d s (fun head => us ++ [head.2]) (Run.loopHead calls s)
      (loopHead inner s.now.cursor) := by
  refine h.does_withLayout fun _ h => ?_
  refine .bind (h.does_identifier _) fun _ _ h => ?_
  refine .bind (h.does_keyword .in_).discard fun _ _ h => ?_
  refine .bind (hc.does_expression h) fun _ _ h => ?_
  refine .bind (h.does_symbol .rightParen).discard fun _ _ h => ?_
  exact .bind (h.does_wrap _) fun _ _ h => .pure h

theorem does_forLoop (h : s.Stands A m d us) :
    Does A m d s (fun u => us ++ [u]) (Run.forLoop calls s) (forLoop inner m s.now.cursor) := by
  rw [forLoop_eq]
  refine .bind (h.does_keyword .for_) fun _ _ h => ?_
  refine .bind (h.does_symbol .leftParen).discard fun _ _ h => ?_
  refine .bind (hc.does_loopHead h) fun _ _ h => ?_
  refine .bind_bind (hc.does_controlBody _ h) fun _ _ h => ?_
  exact h.does_close _ _ (List.append_assoc ..)

theorem does_whileLoop (h : s.Stands A m d us) :
    Does A m d s (fun u => us ++ [u]) (Run.whileLoop calls s)
      (whileLoop inner m s.now.cursor) := by
  refine .bind (h.does_keyword .while_) fun _ _ h => ?_
  refine .bind (hc.does_inParentheses _ h) fun _ _ h => ?_
  refine .bind_bind (hc.does_controlBody _ h) fun _ _ h => ?_
  exact h.does_close _ _ (List.append_assoc ..)

end Calls.Follows

end ResultHints
