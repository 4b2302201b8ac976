import ResultHints.Parser.Procedure
import ResultHints.Proofs.Document.Regular
import ResultHints.Proofs.Parser.Statement

/-!
# The discipline of a parser

A parser may be asked for one expression after the other, and goes on where it stands even if
the last one was none. Main statements:

- `Document.readAfter_eq`: what is read of a source text is what such a parser reads, as nothing
  leaves it in another layout or on another level than those the readers are for;
- `Reachable.disciplined_run`: whatever procedure is run in such a session, and however it ends,
  the parser is back in the layouts and on the level where it was, every state on the way was
  safe and further on than those before, and the nodes that it gives have no node above them.
-/

namespace ResultHints

open Reader

variable {source : List Char} {A : Prop} {m : Layout} {d : Nat} {s s' : Session}
  {us : List Fragment} {α : Type} {Q : α → List Fragment}

/-- A session that is kept goes on in the same layout and on the same level. -/
theorem Session.Keeps.stands (h : s.Keeps s') (hs : s.Stands A m d us) : s'.Stands A m d [] := by
  refine ⟨h.leads.safe hs.safe, .nil, fun hA => ?_, fun hA => ?_⟩
  · rw [Parser.layout, h.layouts]
    exact hs.layout hA
  · rw [h.depth]
    exact hs.depth hA

namespace Does

variable {r : EStateM.Result Fault Session α} {y : EStateM.Result Fault Cursor α}

theorem keeps (h : Does A m d s Q r y) : s.Keeps (.behind r) := by
  cases h with
  | ok hkeeps => exact hkeeps
  | error hkeeps => exact hkeeps

theorem outcome_eq (h : Does A m d s Q r y) (hA : A) : Session.outcome r = y := by
  cases h with
  | ok _ _ heq => exact (heq hA).symm
  | error _ heq => exact (heq hA).symm

end Does

namespace Reachable

/-- The parser is in lines and on the outermost level whenever it is asked for an expression. -/
theorem stands (h : Reachable source s) : s.Stands True .lines maxNesting [] := by
  induction h with
  | @start tokens htokens =>
    have hordered : (Parser.ofTokens source tokens).cursor.IsOrdered :=
      Cursor.isOrdered_ofTokens htokens
    exact ⟨⟨List.cons_ne_nil _ _, Nat.zero_le _, Nat.zero_le _, hordered⟩, .nil, fun _ => rfl,
      fun _ => Nat.zero_add _⟩
  | expression _ ih => exact (Calls.follows_all.does_expression ih).keeps.stands ih

/-- The expression that is read is that of the readers at the cursor of the parser. -/
theorem outcome_expression (h : Reachable source s) :
    Session.outcome (Run.expression .all s) =
      ResultHints.expression .outermost .lines s.now.cursor :=
  (Calls.follows_all.does_expression h.stands).outcome_eq trivial

/-- So is the file that is read in place of one more expression. -/
theorem outcome_file (h : Reachable source s) :
    Session.outcome (Run.file s) = file s.now.cursor :=
  h.stands.does_file.outcome_eq trivial

/-- A parser that is asked for some expressions and then for the file reads what the readers do,
    from wherever it stands. -/
theorem expressionsThenFile_eq (h : Reachable source s) (count : Nat) :
    expressionsThenFile count s.now.cursor =
      ((Run.expressionsThenFile count s).1,
        (Run.expressionsThenFile count s).2.map fun x => (x.1, x.2.now.cursor)) := by
  induction count generalizing s with
  | zero =>
    rw [expressionsThenFile, Run.expressionsThenFile, ← h.outcome_file]
    cases Run.file s <;> rfl
  | succ count ih =>
    rw [expressionsThenFile, Run.expressionsThenFile, ← h.outcome_expression]
    have hnext := h.expression
    generalize Run.expression .all s = r at hnext
    cases r with
    | ok u s =>
      have hrest := ih (s := s) hnext
      simp only [Session.outcome, hrest]
    | error => rfl

end Reachable

/-- A source text is read by a parser that begins with its tokens. -/
theorem Document.readAfter_eq (count : Nat) (source : List Char) :
    Document.readAfter count source = (do
      let tokens ← tokenize source
      let (leading, outcome) := Run.expressionsThenFile count (.ofTokens source tokens)
      return ⟨leading.map fun u => u.label.id, outcome.map fun (file, s) =>
        .ofFragments source tokens leading file s.now.arena.length⟩) := by
  rw [Document.readAfter]
  cases htokens : tokenize source with
  | error => rfl
  | ok tokens =>
    have heq : expressionsThenFile count (.ofTokens source tokens) = _ :=
      (Reachable.start htokens).expressionsThenFile_eq count
    simp only [bind, Except.bind, heq]
    generalize Run.expressionsThenFile count _ = result
    obtain ⟨leading, _ | ⟨u, s⟩⟩ := result <;> rfl

/-! ## All procedures -/

/-- A procedure has kept the session; and the nodes that it gives, if it gives any, are
    pending. -/
inductive Session.Returns (s : Session) : EStateM.Result Fault Session (List Fragment) → Prop
  | ok {us : List Fragment} {s' : Session} : s.Keeps s' → s'.now.Pending us →
    Returns s (.ok us s')
  | error {e : Fault} {s' : Session} : s.Keeps s' → Returns s (.error e s')

theorem Does.returns {nodes : α → List Fragment} {x : Run α}
    {y : EStateM.Result Fault Cursor α} (h : Does A m d s Q (x s) y)
    (hnodes : ∀ a, (nodes a).Sublist (Q a)) : s.Returns (x.giving nodes s) := by
  change s.Returns (EStateM.bind x (fun a => Pure.pure (nodes a)) s)
  unfold EStateM.bind
  generalize x s = r at h
  cases h with
  | ok hkeeps hs => exact .ok hkeeps (hs.pending.sublist (hnodes _))
  | error hkeeps => exact .error hkeeps

namespace Procedure

/-- Whatever procedure is run from a safe state keeps the session. -/
theorem returns_run (p : Procedure) (hsafe : s.now.Safe) (hargs : s.now.Pending p.arguments) :
    s.Returns (p.run s) := by
  -- Nothing is said about the readers, so the parser stands in any layout.
  have hin (m : Layout) : s.Stands False m maxNesting ([] ++ p.arguments) :=
    ⟨hsafe, hargs, nofun, nofun⟩
  have h := hin .lines
  have hc : Calls.all.Follows False maxNesting .outermost := Calls.follows_all
  have hnone {α : Type} (Q : α → List Fragment) (a : α) : [].Sublist (Q a) := List.nil_sublist _
  have hone (u : Fragment) : [u].Sublist ([] ++ [u]) := .refl _
  have hall (us : List Fragment) : us.Sublist ([] ++ us) := .refl _
  cases p with
  | next => exact h.does_next.returns (hnone _)
  | accept k => exact (h.does_accept k).returns (hnone _)
  | expect what => exact (h.does_expect what).returns (hnone _)
  | semicolons => exact h.does_semicolons.returns (hnone _)
  | rowEnd closing => exact (h.does_rowEnd closing).returns (hnone _)
  | leafOfNext kind =>
    have hleaf := Does.bind h.does_next fun t _ h => h.does_leaf kind t
    exact hleaf.returns hone
  | labelReference => exact h.does_labelReference?.returns (hnone _)
  | type => exact (hc.type h).returns (hnone _)
  | typeLevel => exact (hc.does_typeLevel h).returns (hnone _)
  | typeReference => exact (hc.does_typeReference h).returns hone
  | binary least => exact (hc.does_binary least h).returns hone
  | expression => exact (hc.does_expression h).returns hone
  | assignment => exact (hc.does_assignment h).returns hone
  | argument => exact (hc.does_argument (hin .free)).returns hone
  | argumentList => exact (hc.does_argumentList h).returns hone
  | annotationEntries => exact (hc.does_annotationEntries h).returns hall
  | lambdaArgument => exact (hc.does_lambdaArgument h).returns hone
  | callOf callee =>
    refine (hc.does_callOf? h).returns fun call => ?_
    cases call with
    | none => exact List.nil_sublist _
    | some call => exact hone call
  | controlBody kind => exact (hc.does_controlBody kind h).returns hone
  | inParentheses kind => exact (hc.does_inParentheses kind h).returns hone
  | ifElse => exact (hc.does_ifElse h).returns hone
  | whenCondition => exact (hc.does_whenCondition h).returns hone
  | whenEntry => exact (hc.does_whenEntry h).returns hone
  | whenBranches => exact (hc.does_whenBranches h).returns hone
  | forLoop => exact (hc.does_forLoop h).returns hone
  | whileLoop => exact (hc.does_whileLoop h).returns hone
  | primary => exact (hc.does_primary h).returns hone
  | member => exact (hc.does_member h).returns hone
  | suffixes => exact (hc.does_suffixes h).returns hone
  | operand => exact (hc.operand h).returns hone
  | operandLevel => exact (hc.does_operandLevel h).returns hone
  | wrappedLambda => exact (hc.wrappedLambda h).returns hone
  | wrappedLambdaLevel => exact (hc.does_wrappedLambdaLevel h).returns hone
  | parameter hasDefault =>
    cases hasDefault with
    | true => exact (hc.does_functionParameter (hin .free)).returns hone
    | false => exact (hc.does_lambdaParameter h).returns hone
  | function => exact (hc.does_function h).returns hone
  | property => exact (hc.does_property h).returns hone
  | statement => exact (hc.does_statement h).returns hone
  | statements closing => exact (hc.does_statements closing h).returns hall
  | block => exact (hc.block h).returns hone
  | blockLevel => exact (hc.does_blockLevel h).returns hone
  | lambda => exact (hc.lambda h).returns hone
  | lambdaLevel => exact (hc.does_lambdaLevel h).returns hone
  | directive => exact h.does_directive.returns hone
  | file => exact h.does_file.returns hone

end Procedure

/-! ## The discipline -/

/-- The parser is back in its layouts and on its level, and further on; so was every state on the
    way from those before, and all of them were safe. -/
structure Session.Disciplined (s s' : Session) : Prop where
  layouts : s'.now.layouts = s.now.layouts
  depth : s'.now.depth = s.now.depth
  grows : s.now.Grows s'.now
  between : ∃ ps, s'.states = ps ++ s.states ∧ (∀ p ∈ ps, p.Safe) ∧
    (ps ++ [s.now]).Pairwise fun q p => p.Grows q

theorem Session.Keeps.disciplined (h : s.Keeps s') : s.Disciplined s' :=
  ⟨h.layouts, h.depth, h.leads.grows, h.leads.exists_states⟩

/-- Whatever procedure is run where the parser may be asked for one more expression, and however
    it ends: the parser is back in its layouts and on its level; on the way it was always in a
    layout, never in more levels than there are, and never behind the last lexeme or before
    where it was; the nodes before are as they were, but for a node that they get above them if
    they had none; and the nodes that are given have none. -/
theorem Reachable.disciplined_run (h : Reachable source s) (p : Procedure)
    (hargs : s.now.Pending p.arguments) :
    match p.run s with
    | .ok us s' => s.Disciplined s' ∧ ∀ u ∈ us, s'.now.IsFree u.label.id
    | .error _ s' => s.Disciplined s' := by
  have hreturns := p.returns_run h.stands.safe hargs
  generalize p.run s = r at hreturns
  cases hreturns with
  | ok hkeeps hus => exact ⟨hkeeps.disciplined, fun u hu => (hus.holds u hu).isFree⟩
  | error hkeeps => exact hkeeps.disciplined

/-- In `(a b` no expression is read, as the parentheses are not closed; then `b` is one. -/
theorem Reachable.disciplined_run_behind_fault : ∃ tokens e s us s',
    tokenize "(a b".toList = .ok tokens ∧
      Run.expression .all (.ofTokens "(a b".toList tokens) = .error e s ∧
      Procedure.expression.run s = .ok us s' ∧ s.Disciplined s' ∧
      ∀ u ∈ us, s'.now.IsFree u.label.id := by
  have htokens : tokenize "(a b".toList = .ok (tokenStream "(a b".toList).1 := by decide +kernel
  have hreachable := (Reachable.start htokens).expression
  have hfault : Session.succeeds (Run.expression .all
      (.ofTokens "(a b".toList (tokenStream "(a b".toList).1)) = false := by decide +kernel
  have hnext : Session.succeeds (Procedure.expression.run (.behind (Run.expression .all
      (.ofTokens "(a b".toList (tokenStream "(a b".toList).1)))) = true := by decide +kernel
  generalize hfirst : Run.expression .all _ = r at hreachable hfault hnext
  cases r with
  | ok => cases hfault
  | error e s =>
    have hdisciplined := hreachable.disciplined_run .expression .nil
    simp only [Session.behind] at hdisciplined hnext
    generalize hsecond : Procedure.expression.run s = r at hdisciplined hnext
    cases r with
    | ok us s' => exact ⟨_, e, s, us, s', htokens, hfirst, hsecond, hdisciplined⟩
    | error => cases hnext

end ResultHints
