import ResultHints.Parser.Statement
import ResultHints.Proofs.Grammar.FileJoin
import ResultHints.Proofs.Parser.Expression

/-!
# Files by a parser

The procedures of operands, declarations, statements and files do what the readers of the same
rules do. Main statements:

- `Calls.follows_all`: the procedures that open a level do what may be read further in from the
  outermost level;
- `does_file`: at the beginning of a text, the parser reads the file that the reader reads, or
  tells the same fault.
-/

namespace ResultHints

open Reader

variable {calls : Calls} {A : Prop} {m : Layout} {d : Nat} {inner : Inner} {s : Session}
  {us : List Fragment} {u : Fragment}

namespace Reader

/-- Indices up to a closing bracket, which is taken. -/
def indexList (inner : Inner) : Reader (List Fragment) := do
  let es ← items none (expression inner .free)
  discard (symbol .rightBracket)
  return es

theorem parenthesized_eq (inner : Inner) (start : Nat) : parenthesized inner start =
    (do
      let e ← expressionInParentheses inner
      close start .parenthesized [e]) := by
  simp only [parenthesized, expressionInParentheses, bind_assoc, pure_bind]

theorem indices_eq (inner : Inner) (receiver : Fragment) : indices inner receiver =
    (do
      let es ← indexList inner
      close receiver.span.start .arrayAccess (receiver :: es)) := by
  simp only [indices, indexList, bind_assoc, pure_bind]

end Reader

theorem Session.Stands.does_labelReference? (h : s.Stands A m d us) :
    Does A m d s (fun _ => us) (Run.labelReference? s) (labelReference? s.now.cursor) :=
  .bind (h.does_accept _) fun _ _ h => .pure h

namespace Calls.Follows

variable (hc : calls.Follows A d inner)

include hc

/-! ## What stands alone -/

theorem does_returnJump (start : Nat) (h : s.Stands A m d us) :
    Does A m d s (fun u => us ++ [u]) (Run.returnJump calls start s)
      (returnJump inner m start s.now.cursor) := by
  refine .bind h.does_labelReference? fun _ _ h => .look ?_
  refine .bind (h.does_optionally (fun hA => by rw [h.layout hA]) (hc.does_expression h))
    fun _ _ h => ?_
  exact h.does_close _ _ rfl

theorem does_parenthesized (start : Nat) (h : s.Stands A m d us) :
    Does A m d s (fun u => us ++ [u]) (Run.parenthesized calls start s)
      (parenthesized inner start s.now.cursor) := by
  rw [parenthesized_eq]
  exact .bind (hc.does_expressionInParentheses h) fun _ _ h => h.does_close _ _ rfl

theorem does_keywordExpression (t : Lexeme) (word : Keyword) (h : s.Stands A m d us) :
    Does A m d s (fun u => us ++ [u]) (Run.keywordExpression calls t word s)
      (keywordExpression inner m t word s.now.cursor) := by
  cases word with
  | this_ | break_ | continue_ =>
    refine .bind h.does_next.discard fun _ _ h => .bind h.does_labelReference? fun _ _ h => ?_
    exact h.does_close _ _ (List.append_nil us).symm
  | return_ => exact .bind h.does_next.discard fun _ _ h => hc.does_returnJump _ h
  | throw_ =>
    refine .bind h.does_next.discard fun _ _ h => ?_
    exact .bind (hc.does_expression h) fun _ _ h => h.does_close _ _ rfl
  | if_ => exact hc.does_ifElse h
  | when_ => exact hc.does_whenBranches h
  | for_ => exact hc.does_forLoop h
  | while_ => exact hc.does_whileLoop h
  | _ => exact does_unexpected

theorem does_primary (h : s.Stands A m d us) :
    Does A m d s (fun u => us ++ [u]) (Run.primary calls s) (primary inner m s.now.cursor) := by
  refine .look ?_
  cases s.now.cursor.rest with
  | nil => exact does_unexpected
  | cons t ts =>
    dsimp only
    cases t.kind.literal? with
    | some sort => exact .bind h.does_next.discard fun _ _ h => h.does_leaf _ _
    | none =>
      cases t.kind with
      | identifier => exact .bind h.does_next.discard fun _ _ h => h.does_leaf _ _
      | keyword word => exact hc.does_keywordExpression t word h
      | symbol mark =>
        cases mark with
        | leftParen => exact .bind h.does_next.discard fun _ _ h => hc.does_parenthesized _ h
        | leftBrace => exact hc.lambda h
        | _ => exact does_unexpected
      | _ => exact does_unexpected

/-! ## What follows -/

theorem does_member (h : s.Stands A m d us) :
    Does A m d s (fun u => us ++ [u]) (Run.member calls s) (member inner m s.now.cursor) := by
  refine .bind (h.does_identifier _) fun _ _ h => .bind (h.does_leaf _ _) fun _ _ h => ?_
  exact .bind (hc.does_callOf? h) fun _ _ h => .pure h

theorem does_indexList (h : s.Stands A m d us) :
    Does A m d s (fun vs => us ++ vs) (Run.indexList calls s) (indexList inner s.now.cursor) :=
  h.does_withLayout fun _ h => .bind (h.does_items hc.does_expression none) fun _ _ h =>
    .bind (h.does_symbol .rightBracket).discard fun _ _ h => .pure h

theorem does_indices (h : s.Stands A m d (us ++ [u])) :
    Does A m d s (fun w => us ++ [w]) (Run.indices calls u s) (indices inner u s.now.cursor) := by
  rw [indices_eq]
  exact .bind (hc.does_indexList h) fun _ _ h => h.does_close _ _ (List.append_assoc ..)

theorem does_suffixesUpTo (limit : Nat) (h : s.Stands A m d (us ++ [u])) :
    Does A m d s (fun w => us ++ [w]) (Run.suffixesUpTo calls limit u s)
      (suffixesUpTo inner m limit u s.now.cursor) := by
  induction limit generalizing u s with
  | zero => exact .pure h
  | succ limit ih =>
    have hmember (isSafe : Bool) {s : Session} (h : s.Stands A m d (us ++ [u])) :
        Does A m d s (fun w => us ++ [w])
          ((Run.member calls >>= fun v => Run.join (.qualified isSafe) u v >>=
            Run.suffixesUpTo calls limit) s)
          ((member inner m >>= fun v => join (.qualified isSafe) u v >>=
            suffixesUpTo inner m limit) s.now.cursor) :=
      .bind (hc.does_member h) fun _ _ h => .bind (h.does_join _) fun _ _ h => ih h
    have hcall {next : Option Fragment → Run Fragment} {next' : Option Fragment → Reader Fragment}
        (hnext : next none = pure u ∧ ∀ call, next (some call) = Run.suffixesUpTo calls limit call)
        (hnext' : next' none = pure u ∧
          ∀ call, next' (some call) = suffixesUpTo inner m limit call) :
        Does A m d s (fun w => us ++ [w])
          ((if s.now.atBreak = true then pure u else Run.callOf? calls u >>= next) s)
          ((if s.now.cursor.atBreak m = true then pure u else callOf? inner m u >>= next')
            s.now.cursor) := by
      refine .ite h.atBreak (fun _ => .pure h) fun _ => ?_
      refine .bind (hc.does_callOf? h) fun call _ h => ?_
      cases call with
      | none =>
        rw [hnext.1, hnext'.1]
        exact .pure h
      | some call =>
        rw [hnext.2, hnext'.2]
        exact ih h
    rw [Run.suffixesUpTo, suffixesUpTo]
    refine .look ?_
    cases s.now.cursor.kind? with
    | none => exact hcall ⟨rfl, fun _ => rfl⟩ ⟨rfl, fun _ => rfl⟩
    | some k =>
      cases k with
      | symbol mark =>
        cases mark with
        | dot => exact .bind h.does_next.discard fun _ _ h => hmember false h
        | safeAccess => exact .bind h.does_next.discard fun _ _ h => hmember true h
        | plusPlus | minusMinus | bangBang =>
          refine .ite h.atBreak (fun _ => .pure h) fun _ => ?_
          refine .bind h.does_next.discard fun _ _ h => ?_
          exact .bind (h.does_close _ _ rfl) fun _ _ h => ih h
        | leftBracket =>
          refine .ite h.atBreak (fun _ => .pure h) fun _ => ?_
          refine .bind h.does_next.discard fun _ _ h => ?_
          exact .bind (hc.does_indices h) fun _ _ h => ih h
        | _ => exact hcall ⟨rfl, fun _ => rfl⟩ ⟨rfl, fun _ => rfl⟩
      | _ => exact hcall ⟨rfl, fun _ => rfl⟩ ⟨rfl, fun _ => rfl⟩

theorem does_suffixes (h : s.Stands A m d us) :
    Does A m d s (fun u => us ++ [u]) (Run.suffixes calls s) (suffixes inner m s.now.cursor) :=
  .bind (hc.does_primary h) fun _ _ h => .look (hc.does_suffixesUpTo _ h)

/-! ## What stands before -/

theorem does_operandLevel (h : s.Stands A m d us) :
    Does A m d s (fun u => us ++ [u]) (Run.operandLevel calls s)
      (operandLevel inner m s.now.cursor) := by
  have hbase {vs : List Fragment} {s : Session} (h : s.Stands A m d vs) :=
    h.does_optionally (fun _ => rfl) (hc.operand h) (b := !s.now.cursor.atClosing)
  refine .look ?_
  cases s.now.cursor.kind? >>= TokenKind.leading? with
  | some op =>
    refine .bind h.does_next.discard fun _ _ h => ?_
    exact .bind (hc.operand h) fun _ _ h => h.does_close _ _ rfl
  | none =>
    have hplain := hc.does_suffixes h
    cases s.now.cursor.kind? with
    | none => exact hplain
    | some k =>
      cases k with
      | labelDefinition =>
        refine .bind h.does_next fun _ _ h => .look (.bind (hbase h) fun _ _ h => ?_)
        exact h.does_close _ _ rfl
      | annotationName =>
        refine .bind (hc.does_annotationEntries h) fun _ _ h => .look (.bind (hbase h)
          fun _ _ h => ?_)
        exact h.does_close _ _ (List.append_assoc ..)
      | _ => exact hplain

theorem does_wrappedLambdaLevel (h : s.Stands A m d us) :
    Does A m d s (fun u => us ++ [u]) (Run.wrappedLambdaLevel calls s)
      (wrappedLambdaLevel inner m s.now.cursor) := by
  refine .look ?_
  cases s.now.cursor.kind? with
  | none => exact hc.lambda h
  | some k =>
    cases k with
    | labelDefinition =>
      refine .bind h.does_next fun _ _ h => .bind (hc.wrappedLambda h) fun _ _ h => ?_
      exact h.does_close _ _ rfl
    | annotationName =>
      refine .bind (hc.does_annotationEntries h) fun _ _ h => ?_
      exact .bind (hc.wrappedLambda h) fun _ _ h => h.does_close _ _ (List.append_assoc ..)
    | _ => exact hc.lambda h

/-! ## Declarations and statements -/

theorem does_functionParameter (h : s.Stands A .free d us) :
    Does A .free d s (fun u => us ++ [u]) (Run.parameter calls true s)
      (functionParameter inner s.now.cursor) := by
  refine .bind (h.does_identifier _) fun _ _ h => ?_
  refine .bind (h.does_after hc.does_typeReference .colon) fun _ _ h => ?_
  refine .bind (h.does_after hc.does_expression .assign) fun _ _ h => ?_
  exact h.does_close _ _ (List.append_assoc ..)

theorem does_lambdaParameter (h : s.Stands A m d us) :
    Does A m d s (fun u => us ++ [u]) (Run.parameter calls false s)
      (lambdaParameter inner s.now.cursor) := by
  refine .bind (h.does_identifier _) fun name _ h => ?_
  refine .bind (h.does_after hc.does_typeReference .colon) fun type s h => ?_
  change Does A m d s _ (Run.close name.start _ (type ++ []) s) _
  rw [List.append_nil]
  exact h.does_close _ _ rfl

theorem does_functionBody (h : s.Stands A .lines d us) :
    Does A .lines d s (fun vs => us ++ vs) (Run.functionBody calls s)
      (functionBody inner s.now.cursor) := by
  refine .look (.ite (fun _ => rfl) (fun _ => ?_) fun _ => h.does_after hc.does_expression .assign)
  exact .bind (hc.block h) fun _ _ h => .pure h

theorem does_function (h : s.Stands A .lines d us) :
    Does A .lines d s (fun u => us ++ [u]) (Run.function calls s)
      (function inner s.now.cursor) := by
  refine .bind (h.does_keyword .fun_) fun _ _ h => ?_
  refine .bind (h.does_qualifiedName _) fun _ _ h => ?_
  refine .bind (h.does_symbol .leftParen).discard fun _ _ h => ?_
  refine .bind (h.does_withLayout fun _ h => h.does_itemsTo hc.does_functionParameter .rightParen)
    fun _ _ h => ?_
  refine .bind (h.does_after hc.does_typeReference .colon) fun _ _ h => ?_
  refine .bind (hc.does_functionBody h) fun _ _ h => ?_
  exact h.does_close _ _ (by simp [Yields.allOnto])

theorem does_property (h : s.Stands A .lines d us) :
    Does A .lines d s (fun u => us ++ [u]) (Run.property calls s)
      (property inner s.now.cursor) := by
  refine .bind h.does_next fun _ _ h => .bind (h.does_identifier _) fun _ _ h => ?_
  refine .bind (h.does_after hc.does_typeReference .colon) fun _ _ h => ?_
  refine .bind (h.does_after hc.does_expression .assign) fun _ _ h => ?_
  exact h.does_close _ _ (List.append_assoc ..)

theorem does_annotatedDeclaration (h : s.Stands A .lines d us) :
    Does A .lines d s (fun u => us ++ [u]) (Run.annotatedDeclaration calls s)
      (annotatedDeclaration inner s.now.cursor) := by
  refine .look (.bind (hc.does_annotationEntries h) fun _ _ h => .look ?_)
  refine .ite (fun _ => rfl) (fun _ => ?_) fun _ => ?_
  · exact .bind (hc.does_function h) fun _ _ h => h.does_close _ _ (List.append_assoc ..)
  · exact .bind (hc.does_property h) fun _ _ h => h.does_close _ _ (List.append_assoc ..)

theorem does_statement (h : s.Stands A .lines d us) :
    Does A .lines d s (fun u => us ++ [u]) (Run.statement calls s)
      (statement inner s.now.cursor) := by
  have hassignment := hc.does_assignment h
  refine .look ?_
  cases s.now.cursor.kind? with
  | none => exact hassignment
  | some k =>
    cases k with
    | keyword word =>
      cases word with
      | fun_ => exact hc.does_function h
      | val_ | var_ => exact hc.does_property h
      | _ => exact hassignment
    | annotationName =>
      exact .ite (fun _ => rfl) (fun _ => hc.does_annotatedDeclaration h) fun _ => hassignment
    | _ => exact hassignment

theorem does_statements (closing : Option TokenKind) (h : s.Stands A .lines d us) :
    Does A .lines d s (fun vs => us ++ vs) (Run.statements calls closing s)
      (statements inner closing s.now.cursor) :=
  h.does_rows hc.does_statement closing

theorem does_blockLevel (h : s.Stands A m d us) :
    Does A m d s (fun u => us ++ [u]) (Run.blockLevel calls s) (blockLevel inner s.now.cursor) := by
  refine .bind (h.does_symbol .leftBrace) fun _ _ h => h.does_withLayout fun _ h => ?_
  refine .bind (hc.does_statements _ h) fun _ _ h => ?_
  exact .bind (h.does_symbol .rightBrace) fun _ _ h => h.does_make _ _ rfl

theorem does_lambdaParameters (h : s.Stands A m d us) :
    Does A m d s (fun vs => us ++ vs) (Run.lambdaParameters calls s)
      (lambdaParameters inner s.now.cursor) := by
  refine .look (.ite (fun _ => rfl) (fun _ => ?_) fun _ =>
    .pure (h.of_eq (List.append_nil us).symm))
  refine .bind (h.does_items hc.does_lambdaParameter _) fun _ _ h => ?_
  exact .bind (h.does_symbol .arrow).discard fun _ _ h => .pure h

theorem does_lambdaLevel (h : s.Stands A m d us) :
    Does A m d s (fun u => us ++ [u]) (Run.lambdaLevel calls s)
      (lambdaLevel inner s.now.cursor) := by
  refine .bind (h.does_symbol .leftBrace) fun _ _ h => h.does_withLayout fun _ h => ?_
  refine .bind (hc.does_lambdaParameters h) fun _ _ h => ?_
  refine .bind (hc.does_statements _ h) fun _ _ h => ?_
  refine .bind (h.does_symbol .rightBrace) fun _ _ h => ?_
  refine .bind (h.does_make _ _ rfl) fun _ _ h => ?_
  exact .bind (h.does_make _ _ (List.append_assoc ..)) fun _ _ h => h.does_make _ _ rfl

end Calls.Follows

/-! ## All levels -/

/-- With more fuel than levels, the procedures that open a level do what may be read on it. -/
theorem Calls.follows_ofFuel {fuel : Nat} (hfuel : A → d < fuel) :
    (Calls.ofFuel fuel).Follows A d (.ofDepth d) := by
  induction fuel generalizing A d with
  | zero =>
    have hnot {α : Type} {Q : α → List Fragment} {m : Layout} {s : Session}
        {y : EStateM.Result Fault Cursor α} : Does A m d s Q (Run.exhausted s) y :=
      .error (.refl s) fun hA => absurd (hfuel hA) (Nat.not_lt_zero d)
    exact ⟨fun _ => hnot, fun _ => hnot, fun _ => hnot, fun _ => hnot, fun _ => hnot⟩
  | succ fuel ih =>
    cases d with
    | zero =>
      -- On the last level, nothing is read further in, and nothing is said of the reader there.
      have hc := ih (A := False) (d := 0) nofun
      exact
        { type := fun h => h.does_nested_zero fun _ h => hc.does_typeLevel h
          operand := fun h => h.does_nested_zero fun _ h => hc.does_operandLevel h
          wrappedLambda := fun h => h.does_nested_zero fun _ h => hc.does_wrappedLambdaLevel h
          lambda := fun h => h.does_nested_zero fun _ h => hc.does_lambdaLevel h
          block := fun h => h.does_nested_zero fun _ h => hc.does_blockLevel h }
    | succ d =>
      have hc := ih (d := d) fun hA => Nat.lt_of_succ_lt_succ (hfuel hA)
      exact
        { type := fun h => h.does_nested fun _ h => hc.does_typeLevel h
          operand := fun h => h.does_nested fun _ h => hc.does_operandLevel h
          wrappedLambda := fun h => h.does_nested fun _ h => hc.does_wrappedLambdaLevel h
          lambda := fun h => h.does_nested fun _ h => hc.does_lambdaLevel h
          block := fun h => h.does_nested fun _ h => hc.does_blockLevel h }

theorem Calls.follows_all : Calls.all.Follows A maxNesting .outermost :=
  follows_ofFuel fun _ => Nat.lt_succ_self maxNesting

/-! ## Files -/

namespace Session.Stands

theorem does_pathFrom (limit : Nat) (h : s.Stands A m d us) :
    Does A m d s (fun _ => us) (Run.pathFrom limit s) (pathFrom limit s.now.cursor) := by
  induction limit generalizing s with
  | zero => exact .pure h
  | succ limit ih =>
    refine .bind (h.does_accepts _) fun _ _ h => .ite (fun _ => rfl) (fun _ => ?_) fun _ => .pure h
    refine .bind (h.does_accepts _) fun _ _ h => .ite (fun _ => rfl) (fun _ => .pure h) fun _ => ?_
    exact .bind (h.does_identifier _) fun _ _ h => .bind (ih h) fun _ _ h => .pure h

theorem does_directive (h : s.Stands A m d us) :
    Does A m d s (fun u => us ++ [u]) (Run.directive s) (directive s.now.cursor) := by
  refine .bind h.does_next fun _ _ h => .bind (h.does_identifier _) fun _ _ h => .look ?_
  exact .bind (h.does_pathFrom _) fun _ _ h => h.does_close _ _ (List.append_nil us).symm

theorem does_packageDirective (h : s.Stands A .lines d us) :
    Does A .lines d s (fun vs => us ++ vs) (Run.packageDirective s)
      (packageDirective s.now.cursor) := by
  refine .bind h.does_semicolons fun _ _ h => .look (.ite (fun _ => rfl) (fun _ => ?_) fun _ =>
    .pure (h.of_eq (List.append_nil us).symm))
  exact .bind h.does_directive fun _ _ h => .bind (h.does_rowEnd _) fun _ _ h => .pure h

theorem does_file (h : s.Stands A .lines maxNesting us) :
    Does A .lines maxNesting s (fun u => us ++ [u]) (Run.file s) (file s.now.cursor) := by
  refine .bind h.does_packageDirective fun _ _ h => ?_
  refine .bind (h.does_rows does_directive none) fun _ _ h => ?_
  refine .bind_eq (Calls.follows_all.does_statements none h) fun body s hbody h => .look ?_
  split
  · next hmore =>
    -- No lexeme is left after the statements of a text.
    refine does_unexpected.congr fun hA => ?_
    have hrest := rest_of_statements (Inner.sound_ofDepth maxNesting) (hbody hA)
    simp [Cursor.kind?, hrest] at hmore
  · exact h.does_make _ _ (by simp [Yields.allOnto])

end Session.Stands

end ResultHints
