import ResultHints.Proofs.Parser.Gains
import ResultHints.Proofs.Parser.Rule

/-!
# What the bodies of rules depend on

A rule takes as many lexemes as it has to (`Rule.least`), and what it does depends only on the
calls that it may make: those after a lexeme was taken, and those of lower rank. So two ways to do
the rules that it calls lead to the same, if they do on these calls (`Rule.Serves`). There is one
lemma for every turn of a loop and for every body. Main statement:

- `Rule.Serves.concur_body`: both ways the body of a rule does the same, and gets as far as it has
  to.
-/

namespace ResultHints

open Run (Concur Gains)

namespace Rule

variable {α : Type} {k n : Nat} {s s' : Session} {g : Rules}

/-- From `s` on, `g` does what the parser does for the calls after a lexeme was taken and for those
    of a rank below `n`; and these take as many lexemes as they have to. -/
def Serves (n : Nat) (s : Session) (g : Rules) : Prop :=
  ∀ (q : Rule) (s' : Session), s.Onward 0 s' → s.now.pos < s'.now.pos ∨ q.rank < n →
    Concur s' (q.least s'.now) (g q s') (q.run s')

theorem gains_upTo {mark : Symbol} {items items' : Run (List α)}
    (h : Gains s k items items' fun _ => k) :
    Gains s k (upTo mark items) (upTo mark items') fun _ => k :=
  h.bind fun _ => (Gains.symbol mark).discard.bind fun _ => .pure (Nat.le_succ k)

/-! ## Turns of loops

In one turn of a loop a lexeme is taken before the loop goes on. -/

section Turns

variable {item item' : Run α}

theorem gains_semicolonsTurn {rest rest' : Run Unit} (hrest : Gains s 1 rest rest' fun _ => 1) :
    Gains s 0 (semicolonsTurn rest) (semicolonsTurn rest') fun _ => 0 :=
  .bind_accepts (hrest.of_le fun _ => Nat.zero_le 1) (.pure (Nat.le_refl 0))

theorem gains_itemsTurn (stop : Option TokenKind) {rest rest' : Run (List α)}
    (hitem : Gains s 0 item item' fun _ => 1) (hrest : Gains s 1 rest rest' fun _ => 1) :
    Gains s 0 (itemsTurn stop item rest) (itemsTurn stop item' rest') fun _ =>
      if stop.isSome then 0 else 1 := by
  have hle : (if stop.isSome then 0 else 1) ≤ 1 := by split <;> omega
  refine .look fun p => .ite (fun hstop => .pure ?_) fun _ => hitem.bind fun a => ?_
  · rw [if_pos (Bool.and_eq_true_iff.1 hstop).1]
  · refine .bind_accepts ?_ (.pure hle)
    exact (hrest.of_more (Nat.le_succ 1)).bind fun _ => .pure hle

theorem gains_rowsTurn (stop : Option TokenKind → Bool) (closing : Option TokenKind)
    {semicolons semicolons' : Run Unit} {rest rest' : Run (List α)}
    (hsemicolons : Gains s 0 semicolons semicolons' fun _ => 0)
    (hitem : Gains s 0 item item' fun _ => 1) (hrest : Gains s 1 rest rest' fun _ => 1) :
    Gains s 0 (rowsTurn stop closing semicolons item rest)
      (rowsTurn stop closing semicolons' item' rest') fun _ => 0 := by
  refine hsemicolons.bind fun _ => .look fun p => ?_
  refine .ite (fun _ => .pure (Nat.le_refl 0)) fun _ => hitem.bind fun a => ?_
  exact Gains.rowEnd.bind fun _ => hrest.bind fun _ => .pure (Nat.zero_le 1)

theorem gains_segmentTurn {rest rest' : Lexeme → Run Lexeme} (name : Lexeme)
    (hrest : ∀ t, Gains s 1 (rest t) (rest' t) fun _ => 1) :
    Gains s 0 (segmentTurn rest name) (segmentTurn rest' name) fun _ => 0 := by
  refine .look fun p => .ite (fun _ => ?_) fun _ => .pure (Nat.le_refl 0)
  refine Gains.next.discard.bind fun _ => Gains.next.bind fun t => ?_
  exact ((hrest t).of_more (Nat.le_succ 1)).of_le fun _ => Nat.zero_le 1

theorem gains_pathTurn {rest rest' : Run String} (hrest : Gains s 1 rest rest' fun _ => 1) :
    Gains s 0 (pathTurn rest) (pathTurn rest') fun _ => 0 := by
  refine .bind_accepts (.bind_accepts (.pure (Nat.zero_le 2)) ?_) (.pure (Nat.le_refl 0))
  refine (Gains.identifier _).bind fun t => ?_
  exact (hrest.of_more (Nat.le_succ 1)).bind fun _ => .pure (Nat.zero_le 1)

theorem gains_chainTurn {type type' : Run Fragment} {binary binary' : Precedence → Run Fragment}
    {rest rest' : Precedence → Fragment → Run Fragment} (least : Precedence) (left : Fragment)
    (htype : Gains s 1 type type' fun _ => 1)
    (hbinary : ∀ level, Gains s 1 (binary level) (binary' level) fun _ => 1)
    (hrest : ∀ least left, Gains s 1 (rest least left) (rest' least left) fun _ => 1) :
    Gains s 0 (chainTurn type binary rest least left) (chainTurn type' binary' rest' least left)
      fun _ => 0 := by
  refine .look fun p => ?_
  cases p.cursor.connective? p.layout least with
  | none => exact .pure (Nat.le_refl 0)
  | some made =>
    obtain ⟨made, level⟩ := made
    have hjoin (right : Fragment) : Gains s 1 (Run.join made left right >>= rest least)
        (Run.join made left right >>= rest' least) fun _ => 0 :=
      Gains.join.bind fun u => (hrest least u).of_le fun _ => Nat.zero_le 1
    refine Gains.next.discard.bind fun _ => ?_
    cases made with
    | typeTest | cast => exact htype.bind hjoin
    | _ => exact (hbinary _).bind hjoin

theorem concur_entriesTurn {argumentList argumentList' : Run Fragment}
    {rest rest' : Run (List Fragment)}
    (harguments : Gains s 1 argumentList argumentList' fun _ => 1)
    (hrest : Gains s 1 rest rest' fun _ => 1) :
    Concur s (annotationEntries.least s.now) (entriesTurn argumentList rest s)
      (entriesTurn argumentList' rest' s) := by
  have hentry (t : Lexeme) : Gains s 1
      (do
        let p ← Run.look
        let hasArguments := p.cursor.isAt (.symbol .leftParen) && !p.atBreak
        let arguments ← Run.optionally hasArguments argumentList
        let entry ← Run.close t.start (.annotationEntry (referredName t.text)) arguments
        return entry :: (← rest))
      (do
        let p ← Run.look
        let hasArguments := p.cursor.isAt (.symbol .leftParen) && !p.atBreak
        let arguments ← Run.optionally hasArguments argumentList'
        let entry ← Run.close t.start (.annotationEntry (referredName t.text)) arguments
        return entry :: (← rest')) fun _ => 1 := by
    refine .look fun p => (Gains.optionally harguments).bind fun _ => Gains.close.bind fun _ => ?_
    exact hrest.bind fun _ => .pure (Nat.le_refl 1)
  refine .bind_accept (.refl s) (fun hat t => (hentry t).of_le fun _ => ?_) fun hat => .pure ?_
  · rw [least, if_pos hat]
  · rw [least, hat]
    exact Nat.le_refl 0

theorem gains_suffixesTurn {member member' : Run Fragment} {indices indices' : Run (List Fragment)}
    {call call' : Fragment → Run (Option Fragment)} {rest rest' : Fragment → Run Fragment}
    (e : Fragment) (hmember : Gains s 1 member member' fun _ => 1)
    (hindices : Gains s 1 indices indices' fun _ => 1)
    (hcall : ∀ e, Gains s 0 (call e) (call' e) fun call => if call.isSome then 1 else 0)
    (hrest : ∀ e, Gains s 1 (rest e) (rest' e) fun _ => 1) :
    Gains s 0 (suffixesTurn member indices call rest e)
      (suffixesTurn member' indices' call' rest' e) fun _ => 0 := by
  have hgoes (e : Fragment) : Gains s 1 (rest e) (rest' e) fun _ => 0 :=
    (hrest e).of_le fun _ => Nat.zero_le 1
  have hqualified (kind : NodeKind) :
      Gains s 0 (discard Run.next >>= fun _ => member >>= fun u => Run.join kind e u >>= rest)
        (discard Run.next >>= fun _ => member' >>= fun u => Run.join kind e u >>= rest')
        fun _ => 0 :=
    Gains.next.discard.bind fun _ => hmember.bind fun u => Gains.join.bind hgoes
  have hplain (p : Parser) {next next' : Option Fragment → Run Fragment}
      (hnone : next none = pure e ∧ next' none = pure e)
      (hsome : ∀ e, next (some e) = rest e ∧ next' (some e) = rest' e) :
      Gains s 0 (if p.atBreak = true then pure e else call e >>= next)
        (if p.atBreak = true then pure e else call' e >>= next') fun _ => 0 := by
    refine .ite (fun _ => .pure (Nat.le_refl 0)) fun _ => (hcall e).bind fun call => ?_
    cases call with
    | none =>
      rw [hnone.1, hnone.2]
      exact .pure (Nat.le_refl 0)
    | some e =>
      rw [(hsome e).1, (hsome e).2]
      exact hgoes e
  refine .look fun p => ?_
  cases p.cursor.kind? with
  | none => exact hplain p ⟨rfl, rfl⟩ fun _ => ⟨rfl, rfl⟩
  | some kind =>
    cases kind with
    | symbol mark =>
      cases mark with
      | dot | safeAccess => exact hqualified _
      | plusPlus | minusMinus | bangBang =>
        refine .ite (fun _ => .pure (Nat.le_refl 0)) fun _ => Gains.next.discard.bind fun _ => ?_
        exact Gains.close.bind hgoes
      | leftBracket =>
        refine .ite (fun _ => .pure (Nat.le_refl 0)) fun _ => Gains.next.discard.bind fun _ => ?_
        refine Gains.bind ?_ hgoes
        exact ((gains_upTo hindices).withLayout .free).bind fun _ => Gains.close
      | _ => exact hplain p ⟨rfl, rfl⟩ fun _ => ⟨rfl, rfl⟩
    | _ => exact hplain p ⟨rfl, rfl⟩ fun _ => ⟨rfl, rfl⟩

end Turns

/-! ## Bodies -/

namespace Serves

theorem onward (h : Serves n s g) (hs : s.Onward 0 s') : Serves n s' g := fun q s'' hs' hless =>
  h q s'' (hs.trans hs') (hless.imp_left fun hlt => Nat.lt_of_le_of_lt hs.pos hlt)

/-- Calls of lower rank take a lexeme, but for those that need not. -/
theorem lower (h : Serves n s g) (q : Rule) (hrank : decide (q.rank < n) = true)
    (hleast : ∀ p a, q.least p a = 1) : Gains s k (g q) q.run fun _ => k + 1 := by
  intro s' hs
  refine (h q s' (hs.of_le (Nat.zero_le k)) (.inr (of_decide_eq_true hrank))).before hs fun a => ?_
  rw [hleast]

theorem lower_any (h : Serves n s g) (q : Rule) (hrank : decide (q.rank < n) = true) :
    Gains s k (g q) q.run fun _ => k := fun s' hs =>
  (h q s' (hs.of_le (Nat.zero_le k)) (.inr (of_decide_eq_true hrank))).before hs fun _ =>
    Nat.le_add_right k _

/-- After a lexeme was taken, all calls are served. -/
theorem later (h : Serves n s g) (q : Rule) : Gains s (k + 1) (g q) q.run fun _ => k + 1 :=
  fun s' hs => (h q s' (hs.of_le (Nat.zero_le _)) (.inl (Nat.lt_of_lt_of_le
    (Nat.lt_add_of_pos_right (Nat.succ_pos k)) hs.pos))).before hs fun _ => Nat.le_add_right _ _

/-! ### Bodies that begin with a lexeme -/

section Later

variable (h : Serves n s g)

include h

theorem gains_qualified (role : String) :
    Gains s k (qualified g role) (qualified run role) fun _ => k + 1 :=
  (Gains.identifier role).bind fun name => h.later (.lastSegment name)

theorem gains_typeBody : Gains s 0 (typeBody g) (typeBody run) fun _ => 1 := by
  refine .bind_accepts ?_ (.bind_accepts (.pure (Nat.le_refl 1)) ?_)
  · refine ((gains_upTo (h.later .typesInParentheses)).withLayout .free).discard.bind fun _ => ?_
    exact (Gains.after (h.later .type)).discard.bind fun _ => Gains.accepts.discard
  · refine (h.gains_qualified _).discard.bind fun _ => ?_
    refine Gains.bind ?_ fun _ => Gains.accepts.discard
    refine (Gains.after (.bind (h.later .typesInAngles).discard fun _ => ?_)).discard
    exact (Gains.symbol .greater).discard.of_le fun _ => Nat.le_succ 2

theorem gains_argumentListBody : Gains s 0 (argumentListBody g) (argumentListBody run) fun _ => 1 :=
  (Gains.symbol _).bind fun _ =>
    ((gains_upTo (h.later .arguments)).withLayout .free).bind fun _ => Gains.close

theorem gains_branch : Gains s (k + 1) (branch g) (branch run) fun _ => k + 1 :=
  .look fun _ => .ite (fun _ => h.later .block) fun _ => h.later .assignment

theorem gains_parenthesis : Gains s (k + 1) (parenthesis g) (parenthesis run) fun _ => k + 1 :=
  .withLayout .free ((h.later .expression).bind fun _ => (Gains.symbol .rightParen).discard.bind
    fun _ => .pure (Nat.le_succ _))

theorem gains_parenthesesBody (kind : NodeKind) :
    Gains s 0 (parenthesesBody g kind) (parenthesesBody run kind) fun _ => 1 :=
  (Gains.symbol .leftParen).discard.bind fun _ => h.gains_parenthesis.bind fun _ => Gains.wrap

theorem gains_ifBody : Gains s 0 (ifBody g) (ifBody run) fun _ => 1 := by
  refine (Gains.keyword .if_).bind fun _ => (h.later (.inParentheses .condition)).bind fun _ => ?_
  refine (h.later (.controlBody .thenBranch)).bind fun _ => .look fun p => ?_
  refine Gains.bind (.optionally ?_) fun _ => Gains.close
  refine Gains.accepts.discard.bind fun _ => (Gains.keyword .else_).discard.bind fun _ => ?_
  exact (h.later (.controlBody .elseBranch)).of_le fun _ => Nat.le_succ 1

theorem gains_whenBody : Gains s 0 (whenBody g) (whenBody run) fun _ => 1 := by
  refine (Gains.keyword .when_).bind fun _ => .look fun p => ?_
  refine (Gains.optionally (h.later (.inParentheses .whenSubject))).bind fun _ => ?_
  refine (Gains.symbol .leftBrace).discard.bind fun _ => ?_
  refine ((gains_upTo (h.later .whenEntries)).withLayout .lines).bind fun _ => ?_
  exact Gains.close.of_le fun _ => Nat.le_succ 1

theorem gains_forBody : Gains s 0 (forBody g) (forBody run) fun _ => 1 := by
  refine (Gains.keyword .for_).bind fun _ => (Gains.symbol .leftParen).discard.bind fun _ => ?_
  refine Gains.bind (Q := fun _ => 1) (.withLayout .free ?_) fun head => ?_
  · refine (Gains.identifier _).bind fun _ => (Gains.keyword .in_).discard.bind fun _ => ?_
    refine (h.later .expression).bind fun _ => (Gains.symbol .rightParen).discard.bind fun _ => ?_
    exact Gains.wrap.bind fun _ => .pure (Nat.le_add_left 1 4)
  · exact (h.later (.controlBody .loopBody)).bind fun _ => Gains.close

theorem gains_whileBody : Gains s 0 (whileBody g) (whileBody run) fun _ => 1 := by
  refine (Gains.keyword .while_).bind fun _ => ?_
  refine (h.later (.inParentheses .condition)).bind fun _ => ?_
  exact (h.later (.controlBody .loopBody)).bind fun _ => Gains.close

theorem gains_memberBody : Gains s 0 (memberBody g) (memberBody run) fun _ => 1 :=
  (Gains.identifier _).bind fun _ => Gains.leaf.bind fun name =>
    (h.later (.callOf name)).bind fun _ => .pure (Nat.le_refl 1)

/-- What turns out to be a call takes a lexeme. -/
theorem gains_callOf (callee : Fragment) (hrank : decide ((callOf callee).rank < n) = true) :
    Gains s 0 (g (.callOf callee)) (run (.callOf callee)) fun call =>
      if call.isSome then 1 else 0 := fun s' hs =>
  (h (.callOf callee) s' hs (.inr (of_decide_eq_true hrank))).before hs fun _ =>
    Nat.le_add_left _ _

/-- Annotation entries take a lexeme where one comes next. -/
theorem concur_annotationEntries (hrank : decide (annotationEntries.rank < n) = true)
    (hnext : s.now.cursor.isAt .annotationName = true) :
    Concur s (fun _ => 1) (g .annotationEntries s) (run .annotationEntries s) :=
  (h .annotationEntries s (.refl s) (.inr (of_decide_eq_true hrank))).of_le fun _ => by
    rw [least, if_pos hnext]

theorem gains_parameterBody (hasDefault : Bool) :
    Gains s 0 (parameterBody g hasDefault) (parameterBody run hasDefault) fun _ => 1 := by
  have hvalue : Gains s 1 (Run.after .assign (g .expression)) (Run.after .assign (run .expression))
      fun _ => 1 := Gains.after (h.later .expression)
  refine (Gains.identifier _).bind fun _ => (Gains.after (h.later .typeReference)).bind fun _ => ?_
  cases hasDefault with
  | true => exact hvalue.bind fun _ => Gains.close
  | false => exact .bind (.pure (Nat.le_refl 1)) fun _ => Gains.close

theorem gains_valueBody : Gains s (k + 1) (valueBody g) (valueBody run) fun _ => k + 1 :=
  .look fun _ => .ite (fun _ => (h.later .block).bind fun _ => .pure (Nat.le_refl _)) fun _ =>
    Gains.after (h.later .expression)

theorem gains_functionBody : Gains s 0 (functionBody g) (functionBody run) fun _ => 1 := by
  refine (Gains.keyword .fun_).bind fun _ => (h.gains_qualified _).bind fun _ => ?_
  refine (Gains.symbol .leftParen).discard.bind fun _ => ?_
  refine ((gains_upTo (h.later (.parameters .rightParen true))).withLayout .free).bind fun _ => ?_
  refine (Gains.after (h.later .typeReference)).bind fun _ => h.gains_valueBody.bind fun _ => ?_
  exact Gains.close.of_le fun _ => Nat.le_add_left 1 2

theorem gains_propertyBody : Gains s 0 (propertyBody g) (propertyBody run) fun _ => 1 := by
  refine Gains.next.bind fun _ => (Gains.identifier _).bind fun _ => ?_
  refine (Gains.after (h.later .typeReference)).bind fun _ => ?_
  exact (Gains.after (h.later .expression)).bind fun _ => Gains.close.of_le fun _ => Nat.le_succ 1

theorem gains_blockBody : Gains s 0 (blockBody g) (blockBody run) fun _ => 1 := by
  refine (Gains.symbol .leftBrace).bind fun _ => .withLayout .lines ?_
  refine (h.later (.statements _)).bind fun _ => (Gains.symbol .rightBrace).bind fun _ => ?_
  exact Gains.make.of_le fun _ => Nat.le_succ 1

theorem gains_headBody : Gains s (k + 1) (headBody g) (headBody run) fun _ => k + 1 :=
  .look fun _ => .ite (fun _ => gains_upTo (h.later (.parameters .arrow false))) fun _ =>
    .pure (Nat.le_refl _)

theorem gains_lambdaBody : Gains s 0 (lambdaBody g) (lambdaBody run) fun _ => 1 := by
  refine (Gains.symbol .leftBrace).bind fun _ => .withLayout .lines ?_
  refine h.gains_headBody.bind fun _ => ?_
  refine (h.later (.statements _)).bind fun _ => (Gains.symbol .rightBrace).bind fun _ => ?_
  exact Gains.make.bind fun _ => Gains.make.bind fun _ => Gains.make.of_le fun _ => Nat.le_succ 1

theorem gains_directiveBody : Gains s 0 (directiveBody g) (directiveBody run) fun _ => 1 :=
  Gains.next.bind fun _ => (Gains.identifier _).bind fun _ => (h.later .path).bind fun _ =>
    Gains.close.of_le fun _ => Nat.le_succ 1

end Later

/-! ### Bodies that begin with a rule of lower rank -/

theorem gains_typeReferenceBody (h : Serves typeReference.rank s g) :
    Gains s 0 (typeReferenceBody g) (typeReferenceBody run) fun _ => 1 := by
  refine .look fun p => (h.lower .type rfl fun _ _ => rfl).bind fun _ => ?_
  exact Gains.spanFrom.bind fun _ => .look fun p => Gains.make

theorem concur_binaryBody {least : Precedence} (h : Serves (binary least).rank s g) :
    Concur s (fun _ => 1) (body g (binary least) s) (body run (binary least) s) :=
  Gains.concur ((h.lower .operand rfl fun _ _ => rfl).bind fun u => h.later (.chain least u))

theorem gains_assignmentBody (h : Serves assignment.rank s g) :
    Gains s 0 (assignmentBody g) (assignmentBody run) fun _ => 1 := by
  refine (h.lower .expression rfl fun _ _ => rfl).bind fun left => .look fun p => ?_
  cases p.cursor.kind? >>= TokenKind.assignment? with
  | none => exact .pure (Nat.le_refl 1)
  | some op =>
    refine .ite (fun _ => .pure (Nat.le_refl 1)) fun _ => Gains.next.discard.bind fun _ => ?_
    exact (h.later .expression).bind fun _ => Gains.join.of_le fun _ => Nat.le_succ 1

theorem gains_argumentBody (h : Serves argument.rank s g) :
    Gains s 0 (argumentBody g) (argumentBody run) fun _ => 1 := by
  refine .look fun p => .ite (fun _ => ?_) fun _ => ?_
  · refine Gains.next.bind fun _ => Gains.next.discard.bind fun _ => ?_
    exact (h.later .expression).bind fun _ => Gains.close.of_le fun _ => Nat.le_succ 1
  · exact (h.lower .expression rfl fun _ _ => rfl).bind fun _ => Gains.close

theorem gains_lambdaArgumentBody (h : Serves lambdaArgument.rank s g) :
    Gains s 0 (lambdaArgumentBody g) (lambdaArgumentBody run) fun _ => 1 :=
  .look fun _ => (h.lower .wrappedLambda rfl fun _ _ => rfl).bind fun _ => Gains.close

/-- A call has arguments or a lambda, of which each takes a lexeme. -/
theorem gains_callBody {callee : Fragment} (h : Serves (callOf callee).rank s g) :
    Gains s 0 (callBody g callee) (callBody run callee) fun call =>
      if call.isSome then 1 else 0 := by
  refine .look fun p => .ite (fun _ => .pure (Nat.le_refl 0)) fun _ => ?_
  refine (Gains.optionally_length (h.lower .argumentList rfl fun _ _ => rfl)).bind
    fun arguments => .look fun p => ?_
  refine (Gains.optionally_length (h.lower .lambdaArgument rfl fun _ _ => rfl)).bind
    fun lambdas => ?_
  refine .ite (fun _ => .pure (Nat.zero_le _)) fun hsome => Gains.close.bind fun _ => .pure ?_
  have hlength : 0 < (arguments ++ lambdas).length := by
    rwa [List.length_pos_iff_ne_nil, ne_eq, ← List.isEmpty_iff]
  rw [List.length_append] at hlength
  rwa [Nat.zero_add]

theorem concur_controlBody {kind : NodeKind} (h : Serves (controlBody kind).rank s g) :
    Concur s (fun _ => 1) (body g (.controlBody kind) s) (body run (.controlBody kind) s) := by
  have hbranch : Gains s 0 (branch g) (branch run) fun _ => 1 :=
    .look fun _ => .ite (fun _ => h.lower .block rfl fun _ _ => rfl) fun _ =>
      h.lower .assignment rfl fun _ _ => rfl
  exact (hbranch.bind fun _ => Gains.wrap).concur

theorem gains_conditionBody (h : Serves whenCondition.rank s g) :
    Gains s 0 (conditionBody g) (conditionBody run) fun _ => 1 := by
  have hplain {start : Nat} {kind : NodeKind} :
      Gains s 0 (g .expression >>= fun u => Run.close start kind [u])
        (run .expression >>= fun u => Run.close start kind [u]) fun _ => 1 :=
    (h.lower .expression rfl fun _ _ => rfl).bind fun _ => Gains.close
  refine .look fun p => ?_
  dsimp only
  cases p.cursor.kind? with
  | none => exact hplain
  | some kind =>
    cases kind with
    | keyword word =>
      cases word with
      | is_ | notIs =>
        exact Gains.next.discard.bind fun _ => (h.later .typeReference).bind fun _ => Gains.close
      | in_ | notIn =>
        exact Gains.next.discard.bind fun _ => (h.later .expression).bind fun _ => Gains.close
      | _ => exact hplain
    | _ => exact hplain

theorem gains_entryBody (h : Serves whenEntry.rank s g) :
    Gains s 0 (entryBody g) (entryBody run) fun _ => 1 := by
  have hrest {start : Nat} {kind : NodeKind} (conditions : List Fragment) :
      Gains s 0
        (discard (Run.symbol .arrow) >>= fun _ => branch g >>= fun u =>
          Run.close start kind (conditions ++ [u]))
        (discard (Run.symbol .arrow) >>= fun _ => branch run >>= fun u =>
          Run.close start kind (conditions ++ [u])) fun _ => 1 :=
    (Gains.symbol .arrow).discard.bind fun _ => h.gains_branch.bind fun _ => Gains.close
  refine .look fun p => Gains.accept.bind fun isElse => .ite (fun _ => ?_) fun _ => ?_
  · exact .bind (.pure (Nat.le_refl 0)) hrest
  · exact (h.lower_any .whenConditions rfl).bind hrest

theorem gains_keywordBody (h : Serves primary.rank s g) (t : Lexeme) (word : Keyword) :
    Gains s 0 (keywordBody g t word) (keywordBody run t word) fun _ => 1 := by
  cases word with
  | this_ | break_ | continue_ =>
    exact Gains.next.discard.bind fun _ => Gains.labelReference?.bind fun _ => Gains.close
  | return_ =>
    refine Gains.next.discard.bind fun _ => Gains.labelReference?.bind fun _ => .look fun p => ?_
    exact (Gains.optionally (h.later .expression)).bind fun _ => Gains.close
  | throw_ => exact Gains.next.discard.bind fun _ => (h.later .expression).bind fun _ => Gains.close
  | if_ => exact h.lower .ifElse rfl fun _ _ => rfl
  | when_ => exact h.lower .whenBranches rfl fun _ _ => rfl
  | for_ => exact h.lower .forLoop rfl fun _ _ => rfl
  | while_ => exact h.lower .whileLoop rfl fun _ _ => rfl
  | _ => exact Gains.unexpected

theorem gains_primaryBody (h : Serves primary.rank s g) :
    Gains s 0 (primaryBody g) (primaryBody run) fun _ => 1 := by
  refine .look fun p => ?_
  cases p.cursor.rest with
  | nil => exact Gains.unexpected
  | cons t ts =>
    dsimp only
    cases t.kind.literal? with
    | some sort => exact Gains.next.discard.bind fun _ => Gains.leaf
    | none =>
      cases t.kind with
      | identifier => exact Gains.next.discard.bind fun _ => Gains.leaf
      | keyword word => exact h.gains_keywordBody t word
      | symbol mark =>
        cases mark with
        | leftParen =>
          exact Gains.next.discard.bind fun _ => h.gains_parenthesis.bind fun _ => Gains.close
        | leftBrace => exact h.lower .lambda rfl fun _ _ => rfl
        | _ => exact Gains.unexpected
      | _ => exact Gains.unexpected

theorem gains_suffixesBody (h : Serves suffixes.rank s g) :
    Gains s 0 (body g suffixes) (body run suffixes) fun _ => 1 :=
  (h.lower .primary rfl fun _ _ => rfl).bind fun e => h.later (.suffixesOf e)

theorem concur_operandBody (h : Serves operandLevel.rank s g) :
    Concur s (fun _ => 1) (operandBody g s) (operandBody run s) := by
  have hplain := (h.lower .suffixes rfl fun _ _ => rfl).concur
  have hbase {kind : NodeKind} (us : List Fragment) : Gains s 1
      (do
        let base ← Run.optionally (!(← Run.look).cursor.atClosing) (g .operand)
        Run.close s.now.cursor.position kind (us ++ base))
      (do
        let base ← Run.optionally (!(← Run.look).cursor.atClosing) (run .operand)
        Run.close s.now.cursor.position kind (us ++ base)) fun _ => 1 :=
    .look fun _ => (Gains.optionally (h.later .operand)).bind fun _ => Gains.close
  refine .look ?_
  cases s.now.cursor.kind? >>= TokenKind.leading? with
  | some op =>
    exact (Gains.next.discard.bind fun _ => (h.later .operand).bind fun _ => Gains.close).concur
  | none =>
    cases hkind : s.now.cursor.kind? with
    | none => exact hplain
    | some kind =>
      cases kind with
      | labelDefinition => exact (Gains.next.bind fun _ => hbase []).concur
      | annotationName =>
        have hnext : s.now.cursor.isAt .annotationName = true := by rw [Cursor.isAt, hkind]; rfl
        exact (h.concur_annotationEntries rfl hnext).bind hbase
      | _ => exact hplain

theorem concur_wrappedLambdaBody (h : Serves wrappedLambdaLevel.rank s g) :
    Concur s (fun _ => 1) (wrappedLambdaBody g s) (wrappedLambdaBody run s) := by
  have hplain := (h.lower .lambda rfl fun _ _ => rfl).concur
  refine .look ?_
  cases hkind : s.now.cursor.kind? with
  | none => exact hplain
  | some kind =>
    cases kind with
    | labelDefinition =>
      exact (Gains.next.bind fun _ => (h.later .wrappedLambda).bind fun _ => Gains.close).concur
    | annotationName =>
      have hnext : s.now.cursor.isAt .annotationName = true := by rw [Cursor.isAt, hkind]; rfl
      exact (h.concur_annotationEntries rfl hnext).bind fun _ => (h.later .wrappedLambda).bind
        fun _ => Gains.close
    | _ => exact hplain

theorem gains_annotatedBody (h : Serves statement.rank s g) :
    Gains s 0 (annotatedBody g) (annotatedBody run) fun _ => 1 := by
  refine .look fun _ => (h.lower_any .annotationEntries rfl).bind fun _ => .look fun _ => ?_
  refine .ite (fun _ => ?_) fun _ => ?_
  · exact (h.lower .function rfl fun _ _ => rfl).bind fun _ => Gains.close
  · exact (h.lower .property rfl fun _ _ => rfl).bind fun _ => Gains.close

theorem gains_statementBody (h : Serves statement.rank s g) :
    Gains s 0 (statementBody g) (statementBody run) fun _ => 1 := by
  have hplain : Gains s 0 (g .assignment) (run .assignment) fun _ => 1 :=
    h.lower .assignment rfl fun _ _ => rfl
  refine .look fun p => ?_
  dsimp only
  cases p.cursor.kind? with
  | none => exact hplain
  | some kind =>
    cases kind with
    | keyword word =>
      cases word with
      | fun_ => exact h.lower .function rfl fun _ _ => rfl
      | val_ | var_ => exact h.lower .property rfl fun _ _ => rfl
      | _ => exact hplain
    | annotationName =>
      exact .ite (fun _ => h.gains_annotatedBody) fun _ => hplain
    | _ => exact hplain

theorem gains_packageBody (h : Serves file.rank s g) :
    Gains s 0 (packageBody g) (packageBody run) fun _ => 0 := by
  refine (h.lower_any .semicolons rfl).bind fun _ => .look fun _ => ?_
  refine .ite (fun _ => ?_) fun _ => .pure (Nat.le_refl 0)
  refine (h.lower .directive rfl fun _ _ => rfl).bind fun _ => Gains.rowEnd.bind fun _ => ?_
  exact .pure (Nat.zero_le 1)

theorem gains_fileBody (h : Serves file.rank s g) :
    Gains s 0 (fileBody g) (fileBody run) fun _ => 0 := by
  refine (h.gains_packageBody).bind fun _ => (h.lower_any .imports rfl).bind fun _ => ?_
  refine (h.lower_any (.statements none) rfl).bind fun _ => .look fun _ => ?_
  exact .ite (fun _ => Gains.unexpected) fun _ => Gains.make

/-! ### All bodies -/

/-- Whatever does what the parser does for the calls that a rule may make, leads to the same; and
    the rule takes as many lexemes as it has to. -/
theorem concur_body {r : Rule} (hr : r.levels = 0) (h : Serves r.rank s g) :
    Concur s (r.least s.now) (r.body g s) (r.body run s) := by
  cases r with
  | semicolons => exact (gains_semicolonsTurn (h.later .semicolons)).concur
  | lastSegment name => exact (gains_segmentTurn name fun t => h.later (.lastSegment t)).concur
  | path => exact (gains_pathTurn (h.later .path)).concur
  | typeLevel => exact h.gains_typeBody.concur
  | typesInParentheses =>
    exact (gains_itemsTurn (some (.symbol .rightParen)) (h.lower .type rfl fun _ _ => rfl)
      (h.later .typesInParentheses)).concur
  | typesInAngles =>
    exact (gains_itemsTurn none (h.lower .type rfl fun _ _ => rfl) (h.later .typesInAngles)).concur
  | typeReference => exact (h.gains_typeReferenceBody).concur
  | binary least => exact h.concur_binaryBody
  | chain least left =>
    exact (gains_chainTurn least left (h.later .typeReference)
      (fun level => h.later (.binary level)) fun least left => h.later (.chain least left)).concur
  | expression => exact (h.lower (.binary .disjunction) rfl fun _ _ => rfl).concur
  | assignment => exact (h.gains_assignmentBody).concur
  | argument => exact (h.gains_argumentBody).concur
  | arguments =>
    exact (gains_itemsTurn (some (.symbol .rightParen)) (h.lower .argument rfl fun _ _ => rfl)
      (h.later .arguments)).concur
  | argumentList => exact h.gains_argumentListBody.concur
  | annotationEntries =>
    exact concur_entriesTurn (h.later .argumentList) (h.later .annotationEntries)
  | lambdaArgument => exact (h.gains_lambdaArgumentBody).concur
  | callOf callee => exact (h.gains_callBody).concur
  | controlBody kind => exact h.concur_controlBody
  | inParentheses kind => exact (h.gains_parenthesesBody kind).concur
  | ifElse => exact h.gains_ifBody.concur
  | whenCondition => exact (h.gains_conditionBody).concur
  | whenConditions =>
    exact (gains_itemsTurn none (h.lower .whenCondition rfl fun _ _ => rfl)
      (h.later .whenConditions)).concur
  | whenEntry => exact (h.gains_entryBody).concur
  | whenEntries =>
    exact (gains_rowsTurn (· == some (.symbol .rightBrace)) (some (.symbol .rightBrace))
      (h.lower_any .semicolons rfl) (h.lower .whenEntry rfl fun _ _ => rfl)
      (h.later .whenEntries)).concur
  | whenBranches => exact h.gains_whenBody.concur
  | forLoop => exact h.gains_forBody.concur
  | whileLoop => exact h.gains_whileBody.concur
  | primary => exact (h.gains_primaryBody).concur
  | member => exact h.gains_memberBody.concur
  | indices =>
    exact (gains_itemsTurn none (h.lower .expression rfl fun _ _ => rfl) (h.later .indices)).concur
  | suffixes => exact (h.gains_suffixesBody).concur
  | suffixesOf e =>
    exact (gains_suffixesTurn e (h.later .member) (h.later .indices)
      (fun e => h.gains_callOf e rfl) fun e => h.later (.suffixesOf e)).concur
  | operandLevel => exact h.concur_operandBody
  | wrappedLambdaLevel => exact h.concur_wrappedLambdaBody
  | parameter hasDefault => exact (h.gains_parameterBody hasDefault).concur
  | parameters stop hasDefault =>
    exact (gains_itemsTurn (some (.symbol stop))
      (h.lower (.parameter hasDefault) rfl fun _ _ => rfl)
      (h.later (.parameters stop hasDefault))).concur
  | function => exact h.gains_functionBody.concur
  | property => exact h.gains_propertyBody.concur
  | statement => exact (h.gains_statementBody).concur
  | statements closing =>
    exact (gains_rowsTurn (fun k => k.isNone || k == closing) closing (h.lower_any .semicolons rfl)
      (h.lower .statement rfl fun _ _ => rfl) (h.later (.statements closing))).concur
  | blockLevel => exact h.gains_blockBody.concur
  | lambdaLevel => exact h.gains_lambdaBody.concur
  | directive => exact h.gains_directiveBody.concur
  | imports =>
    exact (gains_rowsTurn (· != some (.keyword .import_)) none (h.lower_any .semicolons rfl)
      (h.lower .directive rfl fun _ _ => rfl) (h.later .imports)).concur
  | file => exact h.gains_fileBody.concur
  | type | operand | wrappedLambda | lambda | block => cases hr

end Serves

end Rule

end ResultHints
