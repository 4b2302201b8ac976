import ResultHints.Grammar.File
import ResultHints.Proofs.Grammar.Alike.Reader

/-!
# Expressions of texts that read alike

The rules of types, expressions, arguments and branches agree on texts that read alike, if
what they read further in does (`Inner.Agrees`).
-/

namespace ResultHints

open Reader

/-- What may be read further in agrees on texts that read alike. -/
structure Inner.Agrees (r r' : Ruler) (inner : Inner) : Prop where
  type {opened : List TokenKind} {s s' : Cursor} : s.Alike r r' opened s' →
    Agree r r' opened (fun _ _ => True) (inner.type s) (inner.type s')
  operand {opened : List TokenKind} {s s' : Cursor} {m : Layout} : s.Alike r r' opened s' →
    m.Fits opened →
    Agree r r' opened (FragmentAlike r r') (inner.operand m s) (inner.operand m s')
  wrappedLambda {opened : List TokenKind} {s s' : Cursor} {m : Layout} :
    s.Alike r r' opened s' → m.Fits opened →
    Agree r r' opened (FragmentAlike r r') (inner.wrappedLambda m s) (inner.wrappedLambda m s')
  lambda {opened : List TokenKind} {s s' : Cursor} : s.Alike r r' opened s' →
    Agree r r' opened (FragmentAlike r r') (inner.lambda s) (inner.lambda s')
  block {opened : List TokenKind} {s s' : Cursor} : s.Alike r r' opened s' →
    Agree r r' opened (FragmentAlike r r') (inner.block s) (inner.block s')

namespace Inner.Agrees

variable {r r' : Ruler} {opened : List TokenKind} {inner : Inner} {s s' : Cursor} {m : Layout}
  (hn : inner.Agrees r r')

include hn

/-! ## Types -/

theorem agree_functionType (h : s.Alike r r' (.symbol .leftParen :: opened) s') :
    Agree r r' opened (fun _ _ => True) (functionType inner s) (functionType inner s') := by
  refine .bind (agree_itemsTo hn.type .rightParen h).discard fun _ _ t t' _ ht => ?_
  refine .bind (ht.agree_after rfl hn.type).discard fun _ _ t t' _ ht => ?_
  exact (ht.agree_accepts rfl).discard

theorem agree_typeArguments (h : s.Alike r r' opened s') :
    Agree r r' opened (fun _ _ => True) (typeArguments inner s) (typeArguments inner s') :=
  .bind (agree_items hn.type none h).discard fun _ _ _ _ _ ht => (ht.agree_symbol .greater).discard

theorem agree_namedType (h : s.Alike r r' opened s') :
    Agree r r' opened (fun _ _ => True) (namedType inner s) (namedType inner s') := by
  refine .bind (agree_qualifiedName "type" h).discard fun _ _ t t' _ ht => ?_
  refine .bind (ht.agree_after rfl hn.agree_typeArguments).discard fun _ _ t t' _ ht => ?_
  exact (ht.agree_accepts rfl).discard

theorem agree_typeLevel (h : s.Alike r r' opened s') :
    Agree r r' opened (fun _ _ => True) (typeLevel inner s) (typeLevel inner s') := by
  refine h.agree_ite_accepts hn.agree_functionType ?_
  refine .bind (h.agree_accepts rfl) fun b b' t t' hb ht => ?_
  exact .ite hb.symm (fun _ => .pure trivial ht) fun _ => hn.agree_namedType ht

theorem agree_typeReference (h : s.Alike r r' opened s') :
    Agree r r' opened (FragmentAlike r r') (typeReference inner s) (typeReference inner s') := by
  refine .get (.bind (hn.type h) fun _ _ t t' _ ht => ?_)
  refine .bind (agree_spanFrom ht h.position) fun span span' t t' hspan ht => ?_
  exact .get (agree_make ht rfl hspan .nil)

/-! ## Expressions and assignments -/

omit hn in
/-- No operator between operands is a bracket. -/
theorem isBracket_of_connective? {least : Precedence} {found : NodeKind × Precedence}
    (h : s.connective? m least = some found) :
    ∃ k, s.kind? = some k ∧ k.isBracket = false := by
  simp only [Cursor.connective?, Option.bind_eq_bind, Option.bind_eq_some_iff] at h
  obtain ⟨k, hk, made, hmade, -⟩ := h
  exact ⟨k, hk, isBracket_of_connective hmade⟩

theorem agree_chain (hm : m.Fits opened) (limit : Nat) (least : Precedence) {u u' : Fragment}
    (hu : FragmentAlike r r' u u') (h : s.Alike r r' opened s') :
    Agree r r' opened (FragmentAlike r r') (chain inner m limit least u s)
      (chain inner m limit least u' s') := by
  induction limit generalizing least u u' s s' with
  | zero => exact .pure hu h
  | succ limit ih =>
    rw [chain, chain]
    refine .get ?_
    rw [h.connective? hm]
    cases hc : s.connective? m least with
    | none => exact .pure hu h
    | some found =>
      obtain ⟨made, level⟩ := found
      obtain ⟨k, hk, hbracket⟩ := isBracket_of_connective? hc
      refine .bind (h.agree_next_inside hk hbracket).discard fun _ _ t t' _ ht => ?_
      have hrest {v v' : Fragment} {t t' : Cursor} (hv : FragmentAlike r r' v v')
          (ht : t.Alike r r' opened t') : Agree r r' opened (FragmentAlike r r')
            ((join made u v >>= chain inner m limit least) t)
            ((join made u' v' >>= chain inner m limit least) t') :=
        .bind (agree_join ht hu hv) fun w w' t t' hw ht => ih _ hw ht
      cases made with
      | typeTest | cast =>
        exact .bind (hn.agree_typeReference ht) fun v v' t t' hv ht => hrest hv ht
      | _ =>
        have hright := Agree.bind (hn.operand ht hm) fun w w' t t' hw ht => ih level.next hw ht
        exact .bind hright fun v v' t t' hv ht => hrest hv ht

theorem agree_expression (h : s.Alike r r' opened s') (hm : m.Fits opened) :
    Agree r r' opened (FragmentAlike r r') (expression inner m s) (expression inner m s') := by
  refine .bind (hn.operand h hm) fun u u' t t' hu ht => .get ?_
  rw [ht.size]
  exact hn.agree_chain hm _ _ hu ht

theorem agree_assignment (h : s.Alike r r' opened s') (hm : m.Fits opened) :
    Agree r r' opened (FragmentAlike r r') (assignment inner m s) (assignment inner m s') := by
  refine .bind (hn.agree_expression h hm) fun u u' t t' hu ht => .get ?_
  rw [ht.kind?, ht.atBreak hm]
  cases hop : t.kind? >>= TokenKind.assignment? with
  | none => exact .pure hu ht
  | some op =>
    refine .ite rfl (fun _ => .pure hu ht) fun _ => ?_
    obtain ⟨k, hk, hop⟩ := Option.bind_eq_some_iff.1 hop
    have hnext := ht.agree_next_inside hk (isBracket_of_assignment hop)
    refine .bind hnext.discard fun _ _ t t' _ ht => ?_
    exact .bind (hn.agree_expression ht hm) fun v v' t t' hv ht => agree_join ht hu hv

/-! ## Arguments -/

theorem agree_argument (h : s.Alike r r' opened s') :
    Agree r r' opened (FragmentAlike r r') (argument inner s) (argument inner s') := by
  have hvalue {t t' : Cursor} (ht : t.Alike r r' opened t') :=
    hn.agree_expression ht (Layout.fits_free opened)
  refine .get (.ite (by rw [h.isAt, h.secondKind?]) (fun hnamed => ?_) fun _ => ?_)
  · rw [Bool.and_eq_true] at hnamed
    have hname := h.agree_next_inside (beq_iff_eq.1 hnamed.1) rfl
    refine .bind_eq hname fun name name' t t' hread hname ht => ?_
    -- The lexeme behind the name is the equals sign that was seen.
    have hassign : t.kind? = some (.symbol .assign) := by
      have hsecond := beq_iff_eq.1 hnamed.2
      cases takes_of_next hread with
      | mk source a as =>
        cases as with
        | nil => cases hsecond
        | cons => exact hsecond
    refine .bind (ht.agree_next_inside hassign rfl).discard fun _ _ t t' _ ht => ?_
    refine .bind (hvalue ht) fun u u' t t' hu ht => ?_
    exact agree_close ht h.position (by rw [hname.text]) (.cons hu .nil)
  · exact .bind (hvalue h) fun u u' t t' hu ht => agree_close ht h.position rfl (.cons hu .nil)

theorem agree_argumentList (h : s.Alike r r' opened s') :
    Agree r r' opened (FragmentAlike r r') (argumentList inner s) (argumentList inner s') := by
  refine .bind (h.agree_symbol .leftParen) fun a a' t t' ha ht => ?_
  refine .bind (agree_itemsTo hn.agree_argument .rightParen ht) fun us us' t t' hus ht => ?_
  exact agree_close ht ha.start rfl hus

theorem agree_annotationEntriesUpTo (hm : m.Fits opened) (limit : Nat)
    (h : s.Alike r r' opened s') :
    Agree r r' opened (FragmentsAlike r r') (annotationEntriesUpTo inner m limit s)
      (annotationEntriesUpTo inner m limit s') := by
  induction limit generalizing s s' with
  | zero => exact .pure .nil h
  | succ limit ih =>
    refine .bind (h.agree_accept rfl) fun o o' t t' ho ht => ?_
    cases ho with
    | none => exact .pure .nil ht
    | some hname =>
      refine .get (.bind (ht.agree_optionally (by rw [ht.isAt, ht.atBreak hm]) fun _ =>
        hn.agree_argumentList ht) fun us us' t t' hus ht => ?_)
      refine .bind (agree_close ht hname.start (by rw [hname.text]) hus) fun u u' t t' hu ht => ?_
      exact .bind (ih ht) fun us us' t t' hus ht => .pure (.cons hu hus) ht

theorem agree_annotationEntries (h : s.Alike r r' opened s') (hm : m.Fits opened) :
    Agree r r' opened (FragmentsAlike r r') (annotationEntries inner m s)
      (annotationEntries inner m s') := by
  refine .get ?_
  rw [h.size]
  exact hn.agree_annotationEntriesUpTo hm _ h

theorem agree_lambdaArgument (h : s.Alike r r' opened s') (hm : m.Fits opened) :
    Agree r r' opened (FragmentAlike r r') (lambdaArgument inner m s)
      (lambdaArgument inner m s') :=
  .get (.bind (hn.wrappedLambda h hm) fun _ _ _ _ hu ht =>
    agree_close ht h.position rfl (.cons hu .nil))

omit hn in
theorem isEmpty_eq_of_forall₂ {us us' : List Fragment} (h : FragmentsAlike r r' us us') :
    us'.isEmpty = us.isEmpty := by
  cases h <;> rfl

theorem agree_callOf? (hm : m.Fits opened) {u u' : Fragment} (hu : FragmentAlike r r' u u')
    (h : s.Alike r r' opened s') :
    Agree r r' opened (Option.Rel (FragmentAlike r r')) (callOf? inner m u s)
      (callOf? inner m u' s') := by
  refine .get (.ite (h.atBreak hm) (fun _ => .pure .none h) fun _ => ?_)
  refine .bind (h.agree_optionally (h.isAt _) fun _ => hn.agree_argumentList h)
    fun us us' t t' hus ht => .get ?_
  refine .bind (ht.agree_optionally (by rw [ht.atBreak hm, ht.lambdaAhead]) fun _ =>
    hn.agree_lambdaArgument ht hm) fun vs vs' t t' hvs ht => ?_
  have hall : FragmentsAlike r r' (us ++ vs) (us' ++ vs') := List.rel_append hus hvs
  refine .ite ?_ (fun _ => .pure .none ht) fun _ => ?_
  · rw [isEmpty_eq_of_forall₂ hall]
  · exact .bind (agree_close ht hu.start rfl (.cons hu hall)) fun w w' t t' hw ht =>
      .pure (.some hw) ht

/-! ## Branches and loops -/

theorem agree_controlBody (h : s.Alike r r' opened s') (hm : m.Fits opened) :
    Agree r r' opened (FragmentAlike r r') (controlBody inner m s) (controlBody inner m s') :=
  .get (.ite (h.isAt _) (fun _ => hn.block h) fun _ => hn.agree_assignment h hm)

theorem agree_inParentheses (kind : NodeKind) (h : s.Alike r r' opened s') :
    Agree r r' opened (FragmentAlike r r') (inParentheses inner kind s)
      (inParentheses inner kind s') := by
  refine .bind (h.agree_symbol .leftParen).discard fun _ _ t t' _ ht => ?_
  refine .bind (hn.agree_expression ht (Layout.fits_free _)) fun u u' t t' hu ht => ?_
  exact .bind (ht.agree_symbol .rightParen).discard fun _ _ t t' _ ht => agree_wrap ht hu

theorem agree_elseBranch (h : s.Alike r r' opened s') (hm : m.Fits opened) :
    Agree r r' opened (FragmentAlike r r') (elseBranch inner m s) (elseBranch inner m s') := by
  refine .bind (h.agree_accepts rfl).discard fun _ _ t t' _ ht => ?_
  refine .bind (ht.agree_keyword .else_).discard fun _ _ t t' _ ht => ?_
  exact .bind (hn.agree_controlBody ht hm) fun u u' t t' hu ht => agree_wrap ht hu

theorem agree_ifElse (h : s.Alike r r' opened s') (hm : m.Fits opened) :
    Agree r r' opened (FragmentAlike r r') (ifElse inner m s) (ifElse inner m s') := by
  refine .bind (h.agree_keyword .if_) fun a a' t t' ha ht => ?_
  refine .bind (hn.agree_inParentheses _ ht) fun c c' t t' hc ht => ?_
  refine .bind (hn.agree_controlBody ht hm) fun b b' t t' hb ht => ?_
  refine .bind (agree_wrap ht hb) fun b b' t t' hb ht => .get ?_
  refine .bind (ht.agree_optionally ht.elseAhead fun _ => hn.agree_elseBranch ht hm)
    fun es es' t t' hes ht => ?_
  exact agree_close ht ha.start rfl (.cons hc (.cons hb hes))

/-- The entries of a `when` stand between braces, where line breaks count. -/
theorem agree_whenCondition (h : s.Alike r r' opened s') (hcount : breaksCount opened) :
    Agree r r' opened (FragmentAlike r r') (whenCondition inner s) (whenCondition inner s') := by
  have hvalue {t t' : Cursor} (ht : t.Alike r r' opened t') :=
    hn.agree_expression ht (Layout.fits_lines hcount)
  have hclose {t t' : Cursor} {u u' : Fragment} (kind : NodeKind) (ht : t.Alike r r' opened t')
      (hu : FragmentAlike r r' u u') :
      Agree r r' opened (FragmentAlike r r') (close s.position kind [u] t)
        (close s'.position kind [u'] t') := agree_close ht h.position rfl (.cons hu .nil)
  have hplain : Agree r r' opened (FragmentAlike r r')
      ((expression inner .lines >>= fun u => close s.position (.whenCondition .expression) [u]) s)
      ((expression inner .lines >>= fun u => close s'.position (.whenCondition .expression) [u])
        s') :=
    .bind (hvalue h) fun u u' t t' hu ht => hclose _ ht hu
  refine .get ?_
  rw [h.kind?]
  cases hk : s.kind? with
  | none => exact hplain
  | some k =>
    cases k with
    | keyword word =>
      cases word with
      | is_ | notIs =>
        refine .bind (h.agree_next_inside hk rfl).discard fun _ _ t t' _ ht => ?_
        exact .bind (hn.agree_typeReference ht) fun u u' t t' hu ht => hclose _ ht hu
      | in_ | notIn =>
        refine .bind (h.agree_next_inside hk rfl).discard fun _ _ t t' _ ht => ?_
        exact .bind (hvalue ht) fun u u' t t' hu ht => hclose _ ht hu
      | _ => exact hplain
    | _ => exact hplain

theorem agree_whenEntry (h : s.Alike r r' opened s') (hcount : breaksCount opened) :
    Agree r r' opened (FragmentAlike r r') (whenEntry inner s) (whenEntry inner s') := by
  refine .get (.bind (h.agree_accept rfl) fun o o' t t' ho ht => ?_)
  have helse : o'.isSome = o.isSome := by cases ho <;> rfl
  rw [helse]
  have hrest {cs cs' : List Fragment} {t t' : Cursor} (hcs : FragmentsAlike r r' cs cs')
      (ht : t.Alike r r' opened t') : Agree r r' opened (FragmentAlike r r')
        ((do
          discard (symbol .arrow)
          let body ← controlBody inner .lines
          close s.position (.whenEntry o.isSome) (cs ++ [body])) t)
        ((do
          discard (symbol .arrow)
          let body ← controlBody inner .lines
          close s'.position (.whenEntry o.isSome) (cs' ++ [body])) t') := by
    refine .bind (ht.agree_symbol .arrow).discard fun _ _ t t' _ ht => ?_
    refine .bind (hn.agree_controlBody ht (Layout.fits_lines hcount)) fun b b' t t' hb ht => ?_
    exact agree_close ht h.position rfl (List.rel_append hcs (.cons hb .nil))
  refine .ite rfl (fun _ => hrest .nil ht) fun _ => ?_
  exact .bind (agree_items (fun ht => hn.agree_whenCondition ht hcount) none ht)
    fun cs cs' t t' hcs ht => hrest hcs ht

theorem agree_whenBranches (h : s.Alike r r' opened s') :
    Agree r r' opened (FragmentAlike r r') (whenBranches inner s) (whenBranches inner s') := by
  refine .bind (h.agree_keyword .when_) fun a a' t t' ha ht => .get ?_
  refine .bind (ht.agree_optionally (ht.isAt _) fun _ => hn.agree_inParentheses _ ht)
    fun us us' t t' hus ht => ?_
  refine .bind (ht.agree_symbol .leftBrace).discard fun _ _ t t' _ ht => ?_
  refine .bind (agree_rows (fun ht _ => hn.agree_whenEntry ht rfl) _ ht rfl)
    fun es es' t t' hes ht => ?_
  refine .bind (ht.agree_symbol .rightBrace).discard fun _ _ t t' _ ht => ?_
  exact agree_close ht ha.start rfl (List.rel_append hus hes)

theorem agree_forLoop (h : s.Alike r r' opened s') (hm : m.Fits opened) :
    Agree r r' opened (FragmentAlike r r') (forLoop inner m s) (forLoop inner m s') := by
  refine .bind (h.agree_keyword .for_) fun a a' t t' ha ht => ?_
  refine .bind (ht.agree_symbol .leftParen).discard fun _ _ t t' _ ht => ?_
  refine .bind (ht.agree_identifier _) fun name name' t t' hname ht => ?_
  refine .bind (ht.agree_keyword .in_).discard fun _ _ t t' _ ht => ?_
  refine .bind (hn.agree_expression ht (Layout.fits_free _)) fun u u' t t' hu ht => ?_
  refine .bind (ht.agree_symbol .rightParen).discard fun _ _ t t' _ ht => ?_
  refine .bind (agree_wrap ht hu) fun u u' t t' hu ht => ?_
  refine .bind (hn.agree_controlBody ht hm) fun b b' t t' hb ht => ?_
  refine .bind (agree_wrap ht hb) fun b b' t t' hb ht => ?_
  exact agree_close ht ha.start (by rw [hname.text]) (.cons hu (.cons hb .nil))

theorem agree_whileLoop (h : s.Alike r r' opened s') (hm : m.Fits opened) :
    Agree r r' opened (FragmentAlike r r') (whileLoop inner m s) (whileLoop inner m s') := by
  refine .bind (h.agree_keyword .while_) fun a a' t t' ha ht => ?_
  refine .bind (hn.agree_inParentheses _ ht) fun c c' t t' hc ht => ?_
  refine .bind (hn.agree_controlBody ht hm) fun b b' t t' hb ht => ?_
  refine .bind (agree_wrap ht hb) fun b b' t t' hb ht => ?_
  exact agree_close ht ha.start rfl (.cons hc (.cons hb .nil))

end Inner.Agrees

end ResultHints
