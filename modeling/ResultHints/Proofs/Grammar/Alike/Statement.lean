import ResultHints.Proofs.Grammar.Alike.Expression
import ResultHints.Proofs.Grammar.Sound

/-!
# Files that read alike

The rules of operands, statements and files agree on texts that read alike. Main statement:

- `agree_file`: from cursors that are alike, a file is read on both sides, and the fragments
  correspond to each other; or none is, for the same reason.
-/

namespace ResultHints

open Reader

variable {r r' : Ruler} {opened : List TokenKind} {inner : Inner} {s s' : Cursor} {m : Layout}

theorem agree_labelReference? (h : s.Alike r r' opened s') :
    Agree r r' opened Eq (labelReference? s) (labelReference? s') := by
  refine .bind (h.agree_accept rfl) fun o o' t t' ho ht => .pure ?_ ht
  cases ho with
  | none => rfl
  | some hname => exact congrArg (fun text => some (referredName text)) hname.text.symm

namespace Inner.Agrees

variable (hn : inner.Agrees r r')

include hn

/-! ## What stands alone -/

theorem agree_returnJump (hm : m.Fits opened) {start start' : Nat}
    (hstart : r.mark start = r'.mark start') (h : s.Alike r r' opened s') :
    Agree r r' opened (FragmentAlike r r') (returnJump inner m start s)
      (returnJump inner m start' s') := by
  refine .bind (agree_labelReference? h) fun label label' t t' hlabel ht => .get ?_
  subst hlabel
  refine .bind (ht.agree_optionally (by rw [ht.atValueEnd hm]) fun _ => hn.agree_expression ht hm)
    fun us us' t t' hus ht => ?_
  exact agree_close ht hstart rfl hus

theorem agree_parenthesized {start start' : Nat} (hstart : r.mark start = r'.mark start')
    (h : s.Alike r r' (.symbol .leftParen :: opened) s') :
    Agree r r' opened (FragmentAlike r r') (parenthesized inner start s)
      (parenthesized inner start' s') := by
  refine .bind (hn.agree_expression h (Layout.fits_free _)) fun u u' t t' hu ht => ?_
  refine .bind (ht.agree_symbol .rightParen).discard fun _ _ t t' _ ht => ?_
  exact agree_close ht hstart rfl (.cons hu .nil)

theorem agree_keywordExpression (hm : m.Fits opened) {a a' : Lexeme} (ha : a.Alike r r' a')
    {word : Keyword} (hk : s.kind? = some (.keyword word)) (h : s.Alike r r' opened s') :
    Agree r r' opened (FragmentAlike r r') (keywordExpression inner m a word s)
      (keywordExpression inner m a' word s') := by
  have hnext := (h.agree_next_inside hk rfl).discard
  cases word with
  | this_ | break_ | continue_ =>
    refine .bind hnext fun _ _ t t' _ ht => ?_
    refine .bind (agree_labelReference? ht) fun label label' t t' hlabel ht => ?_
    subst hlabel
    exact agree_close ht ha.start rfl .nil
  | return_ => exact .bind hnext fun _ _ t t' _ ht => hn.agree_returnJump hm ha.start ht
  | throw_ =>
    refine .bind hnext fun _ _ t t' _ ht => ?_
    exact .bind (hn.agree_expression ht hm) fun u u' t t' hu ht =>
      agree_close ht ha.start rfl (.cons hu .nil)
  | if_ => exact hn.agree_ifElse h hm
  | when_ => exact hn.agree_whenBranches h
  | for_ => exact hn.agree_forLoop h hm
  | while_ => exact hn.agree_whileLoop h hm
  | _ => exact h.agree_unexpected

theorem agree_primary (h : s.Alike r r' opened s') (hm : m.Fits opened) :
    Agree r r' opened (FragmentAlike r r') (primary inner m s) (primary inner m s') := by
  refine .get ?_
  obtain ⟨hrest, hrest'⟩ | ⟨a, as, a', as', hrest, hrest', ha, -, -⟩ := h.next_cases
  · rw [hrest, hrest']
    exact h.agree_unexpected
  · have hk : s.kind? = some a.kind := by rw [Cursor.kind?, hrest, List.head?_cons, Option.map_some]
    rw [hrest, hrest']
    dsimp only
    rw [ha.kind]
    cases hl : a.kind.literal? with
    | some sort =>
      have hnext := h.agree_next_inside hk (isBracket_of_literal hl)
      exact .bind hnext.discard fun _ _ t t' _ ht => agree_leaf ht ha rfl
    | none =>
      cases hkind : a.kind with
      | identifier =>
        refine .bind (h.agree_next_inside (hk.trans (congrArg some hkind)) rfl).discard
          fun _ _ t t' _ ht => ?_
        exact agree_leaf ht ha (by rw [ha.text])
      | keyword word =>
        exact hn.agree_keywordExpression hm ha (hk.trans (congrArg some hkind)) h
      | symbol mark =>
        have hk := hk.trans (congrArg some hkind)
        cases mark with
        | leftParen =>
          exact .bind (h.agree_next hk).discard fun _ _ t t' _ ht =>
            hn.agree_parenthesized ha.start ht
        | leftBrace => exact hn.lambda h
        | _ => exact h.agree_unexpected
      | _ => exact h.agree_unexpected

/-! ## What follows -/

theorem agree_member (h : s.Alike r r' opened s') (hm : m.Fits opened) :
    Agree r r' opened (FragmentAlike r r') (member inner m s) (member inner m s') := by
  refine .bind (h.agree_identifier _) fun name name' t t' hname ht => ?_
  refine .bind (agree_leaf ht hname (by rw [hname.text])) fun u u' t t' hu ht => ?_
  refine .bind (hn.agree_callOf? hm hu ht) fun o o' t t' ho ht => .pure ?_ ht
  cases ho with
  | none => exact hu
  | some hcall => exact hcall

theorem agree_indices {u u' : Fragment} (hu : FragmentAlike r r' u u')
    (h : s.Alike r r' (.symbol .leftBracket :: opened) s') :
    Agree r r' opened (FragmentAlike r r') (indices inner u s) (indices inner u' s') := by
  refine .bind (agree_items (fun ht => hn.agree_expression ht (Layout.fits_free _)) none h)
    fun es es' t t' hes ht => ?_
  refine .bind (ht.agree_symbol .rightBracket).discard fun _ _ t t' _ ht => ?_
  exact agree_close ht hu.start rfl (.cons hu hes)

theorem agree_suffixesUpTo (hm : m.Fits opened) (limit : Nat) {u u' : Fragment}
    (hu : FragmentAlike r r' u u') (h : s.Alike r r' opened s') :
    Agree r r' opened (FragmentAlike r r') (suffixesUpTo inner m limit u s)
      (suffixesUpTo inner m limit u' s') := by
  induction limit generalizing u u' s s' with
  | zero => exact .pure hu h
  | succ limit ih =>
    have hmember (isSafe : Bool) {t t' : Cursor} (ht : t.Alike r r' opened t') :
        Agree r r' opened (FragmentAlike r r')
          ((member inner m >>= fun v => join (.qualified isSafe) u v >>= suffixesUpTo inner m limit)
            t)
          ((member inner m >>= fun v => join (.qualified isSafe) u' v >>=
            suffixesUpTo inner m limit) t') :=
      .bind (hn.agree_member ht hm) fun v v' t t' hv ht =>
        .bind (agree_join ht hu hv) fun w w' t t' hw ht => ih hw ht
    have hcall {next next' : Option Fragment → Reader Fragment}
        (hnext : next none = pure u ∧ ∀ call, next (some call) = suffixesUpTo inner m limit call)
        (hnext' : next' none = pure u' ∧
          ∀ call, next' (some call) = suffixesUpTo inner m limit call) :
        Agree r r' opened (FragmentAlike r r')
          ((if s.atBreak m = true then pure u else callOf? inner m u >>= next) s)
          ((if s'.atBreak m = true then pure u' else callOf? inner m u' >>= next') s') := by
      refine .ite (h.atBreak hm) (fun _ => .pure hu h) fun _ => ?_
      refine .bind (hn.agree_callOf? hm hu h) fun o o' t t' ho ht => ?_
      cases ho with
      | none =>
        rw [hnext.1, hnext'.1]
        exact .pure hu ht
      | some hcall =>
        rw [hnext.2, hnext'.2]
        exact ih hcall ht
    rw [suffixesUpTo, suffixesUpTo]
    refine .get ?_
    rw [h.kind?]
    cases hk : s.kind? with
    | none => exact hcall ⟨rfl, fun _ => rfl⟩ ⟨rfl, fun _ => rfl⟩
    | some k =>
      cases k with
      | symbol mark =>
        cases mark with
        | dot =>
          exact .bind (h.agree_next_inside hk rfl).discard fun _ _ t t' _ ht => hmember false ht
        | safeAccess =>
          exact .bind (h.agree_next_inside hk rfl).discard fun _ _ t t' _ ht => hmember true ht
        | plusPlus | minusMinus | bangBang =>
          refine .ite (h.atBreak hm) (fun _ => .pure hu h) fun _ => ?_
          refine .bind (h.agree_next_inside hk rfl).discard fun _ _ t t' _ ht => ?_
          exact .bind (agree_close ht hu.start rfl (.cons hu .nil)) fun w w' t t' hw ht => ih hw ht
        | leftBracket =>
          refine .ite (h.atBreak hm) (fun _ => .pure hu h) fun _ => ?_
          refine .bind (h.agree_next hk).discard fun _ _ t t' _ ht => ?_
          exact .bind (hn.agree_indices hu ht) fun w w' t t' hw ht => ih hw ht
        | _ => exact hcall ⟨rfl, fun _ => rfl⟩ ⟨rfl, fun _ => rfl⟩
      | _ => exact hcall ⟨rfl, fun _ => rfl⟩ ⟨rfl, fun _ => rfl⟩

theorem agree_suffixes (h : s.Alike r r' opened s') (hm : m.Fits opened) :
    Agree r r' opened (FragmentAlike r r') (suffixes inner m s) (suffixes inner m s') := by
  refine .bind (hn.agree_primary h hm) fun u u' t t' hu ht => .get ?_
  rw [ht.size]
  exact hn.agree_suffixesUpTo hm _ hu ht

/-! ## What stands before -/

theorem agree_operandLevel (h : s.Alike r r' opened s') (hm : m.Fits opened) :
    Agree r r' opened (FragmentAlike r r') (operandLevel inner m s) (operandLevel inner m s') := by
  have hbase {t t' : Cursor} (ht : t.Alike r r' opened t') :=
    ht.agree_optionally (congrArg not ht.atClosing) fun _ => hn.operand ht hm
  refine .get ?_
  rw [h.kind?]
  cases hop : s.kind? >>= TokenKind.leading? with
  | some op =>
    obtain ⟨k, hk, hop⟩ := Option.bind_eq_some_iff.1 hop
    refine .bind (h.agree_next_inside hk (isBracket_of_leading hop)).discard fun _ _ t t' _ ht => ?_
    exact .bind (hn.operand ht hm) fun u u' t t' hu ht =>
      agree_close ht h.position rfl (.cons hu .nil)
  | none =>
    have hplain := hn.agree_suffixes h hm
    cases hk : s.kind? with
    | none => exact hplain
    | some k =>
      cases k with
      | labelDefinition =>
        refine .bind (h.agree_next_inside hk rfl) fun a a' t t' ha ht => .get ?_
        refine .bind (hbase ht) fun us us' t t' hus ht => ?_
        exact agree_close ht h.position (by rw [ha.text]) hus
      | annotationName =>
        refine .bind (hn.agree_annotationEntries h hm) fun es es' t t' hes ht => .get ?_
        refine .bind (hbase ht) fun us us' t t' hus ht => ?_
        exact agree_close ht h.position rfl (List.rel_append hes hus)
      | _ => exact hplain

theorem agree_wrappedLambdaLevel (h : s.Alike r r' opened s') (hm : m.Fits opened) :
    Agree r r' opened (FragmentAlike r r') (wrappedLambdaLevel inner m s)
      (wrappedLambdaLevel inner m s') := by
  refine .get ?_
  rw [h.kind?]
  cases hk : s.kind? with
  | none => exact hn.lambda h
  | some k =>
    cases k with
    | labelDefinition =>
      refine .bind (h.agree_next_inside hk rfl) fun a a' t t' ha ht => ?_
      refine .bind (hn.wrappedLambda ht hm) fun u u' t t' hu ht => ?_
      exact agree_close ht h.position (by rw [ha.text]) (.cons hu .nil)
    | annotationName =>
      refine .bind (hn.agree_annotationEntries h hm) fun es es' t t' hes ht => ?_
      refine .bind (hn.wrappedLambda ht hm) fun u u' t t' hu ht => ?_
      exact agree_close ht h.position rfl (List.rel_append hes (.cons hu .nil))
    | _ => exact hn.lambda h

/-! ## Declarations and statements -/

theorem agree_functionParameter (h : s.Alike r r' opened s') :
    Agree r r' opened (FragmentAlike r r') (functionParameter inner s)
      (functionParameter inner s') := by
  refine .bind (h.agree_identifier _) fun a a' t t' ha ht => ?_
  refine .bind (ht.agree_after rfl hn.agree_typeReference) fun us us' t t' hus ht => ?_
  refine .bind (ht.agree_after rfl fun ht => hn.agree_expression ht (Layout.fits_free _))
    fun vs vs' t t' hvs ht => ?_
  exact agree_close ht ha.start (by rw [ha.text]) (List.rel_append hus hvs)

theorem agree_lambdaParameter (h : s.Alike r r' opened s') :
    Agree r r' opened (FragmentAlike r r') (lambdaParameter inner s)
      (lambdaParameter inner s') := by
  refine .bind (h.agree_identifier _) fun a a' t t' ha ht => ?_
  refine .bind (ht.agree_after rfl hn.agree_typeReference) fun us us' t t' hus ht => ?_
  exact agree_close ht ha.start (by rw [ha.text]) hus

section Lines

variable (hcount : breaksCount opened)

include hcount

theorem agree_functionBody (h : s.Alike r r' opened s') :
    Agree r r' opened (FragmentsAlike r r') (functionBody inner s) (functionBody inner s') := by
  refine .get (.ite (h.isAt _) (fun _ => ?_) fun _ => ?_)
  · exact .bind (hn.block h) fun u u' t t' hu ht => .pure (.cons hu .nil) ht
  · exact h.agree_after rfl fun ht => hn.agree_expression ht (Layout.fits_lines hcount)

theorem agree_function (h : s.Alike r r' opened s') :
    Agree r r' opened (FragmentAlike r r') (function inner s) (function inner s') := by
  refine .bind (h.agree_keyword .fun_) fun a a' t t' ha ht => ?_
  refine .bind (agree_qualifiedName _ ht) fun name name' t t' hname ht => ?_
  refine .bind (ht.agree_symbol .leftParen).discard fun _ _ t t' _ ht => ?_
  refine .bind (agree_itemsTo hn.agree_functionParameter .rightParen ht)
    fun ps ps' t t' hps ht => ?_
  refine .bind (ht.agree_after rfl hn.agree_typeReference) fun us us' t t' hus ht => ?_
  refine .bind (hn.agree_functionBody hcount ht) fun vs vs' t t' hvs ht => ?_
  exact agree_close ht ha.start (by rw [hname.text])
    (List.rel_append (List.rel_append hps hus) hvs)

theorem agree_property (h : s.Alike r r' opened s') {k : TokenKind} (hk : s.kind? = some k)
    (hbracket : k.isBracket = false) :
    Agree r r' opened (FragmentAlike r r') (property inner s) (property inner s') := by
  refine .bind (h.agree_next_inside hk hbracket) fun a a' t t' ha ht => ?_
  refine .bind (ht.agree_identifier _) fun name name' t t' hname ht => ?_
  refine .bind (ht.agree_after rfl hn.agree_typeReference) fun us us' t t' hus ht => ?_
  refine .bind (ht.agree_after rfl fun ht => hn.agree_expression ht (Layout.fits_lines hcount))
    fun vs vs' t t' hvs ht => ?_
  exact agree_close ht ha.start (by rw [hname.text, ha.kind]) (List.rel_append hus hvs)

variable {n : Nat} (hsound : inner.Sound n)

include hsound

theorem agree_annotatedDeclaration (h : s.Alike r r' opened s') (hahead : s.declarationAhead) :
    Agree r r' opened (FragmentAlike r r') (annotatedDeclaration inner s)
      (annotatedDeclaration inner s') := by
  refine .get (.bind_eq (hn.agree_annotationEntries h (Layout.fits_lines hcount))
    fun es es' t t' hread hes ht => .get ?_)
  -- The keyword that was seen ahead comes next.
  have hnext := (hsound.declarationAhead_iff hread).1 hahead
  have hclose {v v' : Fragment} {t t' : Cursor} (hv : FragmentAlike r r' v v')
      (ht : t.Alike r r' opened t') : Agree r r' opened (FragmentAlike r r')
        (close s.position .annotated (es ++ [v]) t)
        (close s'.position .annotated (es' ++ [v']) t') :=
    agree_close ht h.position rfl (List.rel_append hes (.cons hv .nil))
  refine .ite (ht.isAt _) (fun _ => ?_) fun hno => ?_
  · exact .bind (hn.agree_function hcount ht) fun v v' t t' hv ht => hclose hv ht
  · have hproperty := hnext.resolve_left fun hk => by
      rw [Cursor.isAt, hk] at hno
      cases hno
    have hv : Agree r r' opened (FragmentAlike r r') (property inner t) (property inner t') := by
      rcases hproperty with hk | hk
      · exact hn.agree_property hcount ht hk rfl
      · exact hn.agree_property hcount ht hk rfl
    exact .bind hv fun v v' t t' hv ht => hclose hv ht

theorem agree_statement (h : s.Alike r r' opened s') :
    Agree r r' opened (FragmentAlike r r') (statement inner s) (statement inner s') := by
  have hassignment := hn.agree_assignment h (Layout.fits_lines hcount)
  refine .get ?_
  rw [h.kind?]
  cases hk : s.kind? with
  | none => exact hassignment
  | some k =>
    cases k with
    | keyword word =>
      cases word with
      | fun_ => exact hn.agree_function hcount h
      | val_ | var_ => exact hn.agree_property hcount h hk rfl
      | _ => exact hassignment
    | annotationName =>
      exact .ite h.declarationAhead
        (fun hahead => hn.agree_annotatedDeclaration hcount hsound h hahead) fun _ => hassignment
    | _ => exact hassignment

theorem agree_statements (closing : Option TokenKind) (h : s.Alike r r' opened s') :
    Agree r r' opened (FragmentsAlike r r') (statements inner closing s)
      (statements inner closing s') :=
  agree_rows (fun ht _ => hn.agree_statement hcount hsound ht) _ h hcount

end Lines

section Braces

variable {n : Nat} (hsound : inner.Sound n)

include hsound

theorem agree_blockLevel (h : s.Alike r r' opened s') :
    Agree r r' opened (FragmentAlike r r') (blockLevel inner s) (blockLevel inner s') := by
  refine .bind (h.agree_symbol .leftBrace) fun a a' t t' ha ht => ?_
  refine .bind (hn.agree_statements rfl hsound _ ht) fun us us' t t' hus ht => ?_
  refine .bind (ht.agree_symbol .rightBrace) fun b b' t t' hb ht => ?_
  exact agree_make ht rfl (congrArg₂ Span.mk ha.start hb.stop) hus

omit hsound in
theorem agree_lambdaParameters (h : s.Alike r r' opened s') :
    Agree r r' opened (FragmentsAlike r r') (lambdaParameters inner s)
      (lambdaParameters inner s') := by
  refine .get (.ite h.parametersAhead (fun _ => ?_) fun _ => .pure .nil h)
  refine .bind (agree_items hn.agree_lambdaParameter _ h) fun ps ps' t t' hps ht => ?_
  exact .bind (ht.agree_symbol .arrow).discard fun _ _ t t' _ ht => .pure hps ht

omit hn hsound in
/-- The statements of a lambda cover corresponding parts, and so does the point before its closing
    brace. -/
theorem span_bodySpan {closing closing' : Lexeme} (hclosing : closing.Alike r r' closing')
    {us us' : List Fragment} (hus : FragmentsAlike r r' us us') :
    r.span (bodySpan closing us) = r'.span (bodySpan closing' us') := by
  have hlast : Option.Rel (FragmentAlike r r') us.getLast? us'.getLast? := by
    induction hus with
    | nil => exact .none
    | cons hu hus ih =>
      cases hus with
      | nil => exact .some hu
      | cons => exact ih
  have hpoint : r.span (.point closing.start) = r'.span (.point closing'.start) :=
    congrArg₂ Span.mk hclosing.start hclosing.start
  rw [bodySpan, bodySpan]
  cases hus with
  | nil => exact hpoint
  | cons hu hus =>
    generalize List.getLast? (_ :: _) = last at hlast
    generalize List.getLast? (_ :: _) = last' at hlast
    cases hlast with
    | none => exact hpoint
    | some hlast => exact congrArg₂ Span.mk hu.start hlast.stop

theorem agree_lambdaLevel (h : s.Alike r r' opened s') :
    Agree r r' opened (FragmentAlike r r') (lambdaLevel inner s) (lambdaLevel inner s') := by
  refine .bind (h.agree_symbol .leftBrace) fun a a' t t' ha ht => ?_
  refine .bind (hn.agree_lambdaParameters ht) fun ps ps' t t' hps ht => ?_
  refine .bind (hn.agree_statements rfl hsound _ ht) fun us us' t t' hus ht => ?_
  refine .bind (ht.agree_symbol .rightBrace) fun b b' t t' hb ht => ?_
  refine .bind (agree_make ht rfl (span_bodySpan hb hus) hus) fun u u' t t' hu ht => ?_
  have hspan : r.span ⟨a.start, b.stop⟩ = r'.span ⟨a'.start, b'.stop⟩ :=
    congrArg₂ Span.mk ha.start hb.stop
  refine .bind (agree_make ht rfl hspan (List.rel_append hps (.cons hu .nil)))
    fun u u' t t' hu ht => ?_
  exact agree_make ht rfl hspan (.cons hu .nil)

end Braces

end Inner.Agrees

/-! ## Files -/

/-- The levels of nesting agree. -/
theorem Inner.agrees_ofDepth (n : Nat) : (Inner.ofDepth n).Agrees r r' := by
  induction n with
  | zero =>
    -- With no level left, the fault is told at corresponding places.
    have hdeep {α β : Type} {Q : α → β → Prop} {opened : List TokenKind} {s s' : Cursor}
        (h : s.Alike r r' opened s') :
        Agree r r' opened Q (tooDeep (α := α) s) (tooDeep (α := β) s') :=
      .error (congrArg Fault.nestingTooDeep h.position)
    exact
      { type := hdeep
        operand := fun h _ => hdeep h
        wrappedLambda := fun h _ => hdeep h
        lambda := hdeep
        block := hdeep }
  | succ n ih =>
    have hsound := Inner.sound_ofDepth n
    exact
      { type := ih.agree_typeLevel
        operand := ih.agree_operandLevel
        wrappedLambda := ih.agree_wrappedLambdaLevel
        lambda := ih.agree_lambdaLevel hsound
        block := ih.agree_blockLevel hsound }

theorem agree_pathFrom (limit : Nat) (h : s.Alike r r' opened s') :
    Agree r r' opened Eq (pathFrom limit s) (pathFrom limit s') := by
  induction limit generalizing s s' with
  | zero => exact .pure rfl h
  | succ limit ih =>
    refine .bind (h.agree_accepts rfl) fun b b' t t' hb ht => .ite hb.symm (fun _ => ?_) fun _ =>
      .pure rfl ht
    refine .bind (ht.agree_accepts rfl) fun b b' t t' hb ht => .ite hb.symm (fun _ =>
      .pure rfl ht) fun _ => ?_
    refine .bind (ht.agree_identifier _) fun name name' t t' hname ht => ?_
    refine .bind (ih ht) fun path path' t t' hpath ht => .pure ?_ ht
    rw [hname.text, hpath]

theorem agree_directive (h : s.Alike r r' opened s') {k : TokenKind} (hk : s.kind? = some k)
    (hbracket : k.isBracket = false) :
    Agree r r' opened (FragmentAlike r r') (directive s) (directive s') := by
  refine .bind (h.agree_next_inside hk hbracket) fun a a' t t' ha ht => ?_
  refine .bind (ht.agree_identifier _) fun name name' t t' hname ht => .get ?_
  rw [ht.size]
  refine .bind (agree_pathFrom _ ht) fun path path' t t' hpath ht => ?_
  exact agree_close ht ha.start (by rw [ha.kind, hname.text, hpath]) .nil

theorem agree_packageDirective (h : s.Alike r r' opened s') (hcount : breaksCount opened) :
    Agree r r' opened (FragmentsAlike r r') (packageDirective s) (packageDirective s') := by
  refine .bind h.agree_semicolons fun _ _ t t' _ ht => .get ?_
  refine .ite (ht.isAt _) (fun hat => ?_) fun _ => .pure .nil ht
  refine .bind (agree_directive ht (beq_iff_eq.1 hat) rfl) fun u u' t t' hu ht => ?_
  exact .bind (agree_rowEnd _ ht hcount) fun _ _ t t' _ ht => .pure (.cons hu .nil) ht

theorem agree_imports (h : s.Alike r r' opened s') (hcount : breaksCount opened) :
    Agree r r' opened (FragmentsAlike r r')
      (rows (· != some (.keyword .import_)) none directive s)
      (rows (· != some (.keyword .import_)) none directive s') :=
  agree_rows (fun ht hstop => agree_directive ht (bne_eq_false_iff_eq.1 hstop) rfl) none h hcount

/-- A file is read from both cursors, and its fragments correspond to each other; or it is read
    from none, for the same reason. -/
theorem agree_file (h : s.Alike r r' [] s') (hzero : r.mark 0 = r'.mark 0) :
    Agree r r' [] (FragmentAlike r r') (file s) (file s') := by
  refine .bind (agree_packageDirective h rfl) fun ps ps' t t' hps ht => ?_
  refine .bind (agree_imports ht rfl) fun is is' t t' his ht => ?_
  refine .bind ((Inner.agrees_ofDepth maxNesting).agree_statements rfl
    (Inner.sound_ofDepth maxNesting) none ht) fun us us' t t' hus ht => .get ?_
  exact agree_make ht rfl (congrArg₂ Span.mk hzero ht.finish)
    (List.rel_append (List.rel_append hps his) hus)

end ResultHints
