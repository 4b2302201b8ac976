import ResultHints.Proofs.Grammar.Frame
import ResultHints.Proofs.Grammar.Layout

/-!
# Lambdas after calls

A lambda after a call is only read where it is seen ahead: after annotations, and after one
label at the most that comes behind them. So its label, if it has one, stands right before
it. Main statement:

- `passed_of_reads`: this is how the lambdas of all lambda arguments are wrapped.
-/

namespace ResultHints

/-- The lambdas that may follow a call: in annotations, and in one label inside them at the
    most. -/
inductive IsPassedLambda : Tree NodeKind → Prop
  | lambda {ts} : IsPassedLambda (.node .lambda ts)
  | labeled {label t} : t.label = .lambda → IsPassedLambda (.node (.labeled label) [t])
  | annotated {es t} : (∀ e ∈ es, e.label.isAnnotationEntry) → IsPassedLambda t →
    IsPassedLambda (.node .annotated (es ++ [t]))

variable {s s₁ s' : Cursor} {n : Nat} {p : Phrase} {u : Fragment} {us vs es : List Fragment}

/-! ## What is seen ahead -/

theorem Cursor.Takes.kind?_eq {t : Lexeme} (ht : s.Takes t s') : s.kind? = some t.kind := by
  cases ht
  rfl

/-- An entry begins with the name of an annotation. -/
theorem annotationEntry_inv (h : Reads n .annotationEntry s us s') : ∃ t s₁ as s₂,
    s.Takes t s₁ ∧ t.kind = .annotationName ∧ Reads n (.maybe .argumentList) s₁ as s₂ ∧
      s' = s₂.made := by
  cases h with
  | annotationEntry ht hk has => exact ⟨_, _, _, _, ht, hk, has, rfl⟩

theorem kind?_of_entries (h : Reads n (.many .annotationEntry) s es s') (hne : es ≠ []) :
    s.kind? = some .annotationName := by
  cases h with
  | noMore => exact absurd rfl hne
  | more hu _ =>
    obtain ⟨_, _, _, _, ht, hk, -⟩ := annotationEntry_inv hu
    exact ht.kind?_eq.trans (congrArg some hk)

/-- Where a lambda is seen ahead of an entry, its arguments are looked past. -/
theorem lambdaAhead_of_entry (h : Reads n .annotationEntry s us s')
    (hnext : s'.kind? ≠ some (.symbol .leftParen)) (hahead : s.lambdaAhead) : s'.lambdaAhead := by
  obtain ⟨t, s₁, as, s₂, ht, hk, has, rfl⟩ := annotationEntry_inv h
  have hnamed : afterAnnotations .before s.rest = afterAnnotations .named s₁.rest := by
    cases ht
    rw [afterAnnotations, if_pos hk]
  rw [Cursor.lambdaAhead, hnamed] at hahead
  suffices hafter : afterAnnotations .named s₁.rest = afterAnnotations .before s₂.rest by
    rwa [hafter] at hahead
  cases has with
  | absent =>
    obtain ⟨source, _ | ⟨t, ts⟩, stop, i⟩ := s₁
    · rfl
    · have hno : ¬(t.kind = .symbol .leftParen ∧ ¬t.afterBreak) :=
        fun h => hnext (congrArg some h.1)
      rw [afterAnnotations, afterAnnotations, if_neg hno]
  | present hu =>
    obtain ⟨t, ts, hrest, hk, hafter⟩ := afterAnnotations_of_argumentList hu
    rw [hrest, afterAnnotations, if_neg (by rw [hk]; decide)] at hahead ⊢
    by_cases hbreak : t.afterBreak
    · -- No lambda is ahead where a parenthesis is.
      rw [if_neg (by simp [hbreak]), kinds, List.map_cons, hk] at hahead
      cases hahead
    · rw [if_pos ⟨hk, hbreak⟩, hafter]

/-- Where a lambda is seen ahead of some entries, it is ahead behind them too. -/
theorem lambdaAhead_of_entries (h : Reads n (.many .annotationEntry) s es s')
    (hnext : s'.kind? ≠ some (.symbol .leftParen)) (hahead : s.lambdaAhead) : s'.lambdaAhead := by
  induction es generalizing s with
  | nil =>
    cases h
    exact hahead
  | cons e es ih =>
    cases h with
    | more hu hs =>
      refine ih hs (lambdaAhead_of_entry hu ?_ hahead)
      cases es with
      | nil =>
        cases hs
        exact hnext
      | cons => simp [kind?_of_entries hs]

/-- Where a lambda is seen ahead of a label, its brace follows. -/
theorem kind?_of_label {t : Lexeme} (ht : s.Takes t s') (hk : t.kind = .labelDefinition)
    (hahead : s.lambdaAhead) : s'.kind? = some (.symbol .leftBrace) := by
  cases ht with
  | mk source t ts =>
    rw [Frame.lambdaAhead_iff, afterAnnotations, if_neg (by rw [hk]; decide), kinds, List.map_cons,
      hk] at hahead
    cases ts with
    | nil => simp at hahead
    | cons t' ts => simpa [Cursor.kind?, eq_comm] using hahead

/-! ## One lambda -/

theorem kind?_of_wrappedLambda (h : Reads n .wrappedLambda s us s') :
    s.kind? = some (.symbol .leftBrace) ∨ s.kind? = some .labelDefinition ∨
      s.kind? = some .annotationName := by
  cases h with
  | plainLambda h =>
    cases h with
    | lambda ht hk => exact .inl (ht.kind?_eq.trans (congrArg some hk))
  | labeledLambda ht hk => exact .inr (.inl (ht.kind?_eq.trans (congrArg some hk)))
  | annotatedLambda hes hne => exact .inr (.inr (kind?_of_entries hes hne))

/-- Where a brace comes next, the lambda has neither a label nor annotations. -/
theorem label_of_brace (h : Reads n .wrappedLambda s [u] s')
    (hbrace : s.kind? = some (.symbol .leftBrace)) : u.outline.label = .lambda := by
  cases h with
  | plainLambda h =>
    cases h
    rfl
  | labeledLambda ht hk =>
    rw [ht.kind?_eq, hk] at hbrace
    cases hbrace
  | annotatedLambda hes hne =>
    rw [kind?_of_entries hes hne] at hbrace
    cases hbrace

/-- What is read where a lambda is seen ahead is a lambda after at most one label, inside
    annotations. -/
theorem isPassedLambda_of_reads (h : Reads n .wrappedLambda s [u] s') (hahead : s.lambdaAhead) :
    IsPassedLambda u.outline := by
  induction n generalizing s u s' with
  | zero => cases h
  | succ n ih =>
    cases h with
    | plainLambda h =>
      cases h
      rw [outline_make]
      exact .lambda
    | labeledLambda ht hk h =>
      rw [Cursor.node, outline_make]
      exact .labeled (label_of_brace h (kind?_of_label ht hk hahead))
    | annotatedLambda hes _ h =>
      have hnext := kind?_of_wrappedLambda h
      have hahead := lambdaAhead_of_entries hes (by rcases hnext with h | h | h <;> simp [h]) hahead
      rw [Cursor.node, outline_make, List.map_append]
      exact .annotated (laid_of_reads hes).admits (ih h hahead)

/-! ## All lambdas -/

/-- The fragment has the lambda of a lambda argument below it, if it is one. -/
def HoldsPassedLambda (u : Fragment) : Prop :=
  u.label.kind = .lambdaArgument → ∃ v : Fragment, u.children = [v] ∧ IsPassedLambda v.outline

/-- In some fragments, all lambda arguments hold lambdas that are wrapped as they may be. -/
def Passed (us : List Fragment) : Prop := ∀ u ∈ us, u.Each HoldsPassedLambda

namespace Passed

variable {a : Node}

theorem nil : Passed [] := nofun

theorem append (hus : Passed us) (hvs : Passed vs) : Passed (us ++ vs) :=
  List.forall_mem_append.2 ⟨hus, hvs⟩

/-- Nodes that are no lambda arguments. -/
theorem node (h : Passed us) (hk : a.kind ≠ .lambdaArgument) : Passed [.node a us] :=
  List.forall_mem_singleton.2 (.node (fun h => absurd h hk) h)

end Passed

theorem ne_lambdaArgument_of_isTyping {k : NodeKind} (h : k.isTyping) : k ≠ .lambdaArgument := by
  rintro rfl
  cases h

theorem ne_lambdaArgument_of_isEnclosed {k : NodeKind} (h : k.isEnclosed) :
    k ≠ .lambdaArgument := by
  rintro rfl
  cases h

theorem ne_lambdaArgument_of_isDirective {k : NodeKind} (h : k.isDirective) :
    k ≠ .lambdaArgument := by
  rintro rfl
  cases h

/-- All lambdas that are read after calls are wrapped as they may be. -/
theorem passed_of_reads (h : Reads n p s us s') : Passed us := by
  induction h with
  | absent | unmarked | noMore | noItem | noRow | noLambdaHead => exact .nil
  | present _ ih | marked _ _ ih | lastItem _ ih | semicolon _ _ ih => exact ih
  | more _ _ ihu ihs | item _ _ _ ihu ihs | row _ _ _ ihu ihs => exact ihu.append ihs
  | chainStart _ ih | value _ ih | blockBody _ ih | valueBody _ ih | lateElseBranch _ _ ih
  | lambdaAlone _ ih | suffixStart _ ih | plainOperand _ ih | plainLambda _ ih | lambdaHead _ _ ih
  | blockFunctionBody _ ih | valueFunctionBody _ ih | declaration _ ih
  | assignmentStatement _ ih => exact ih
  | lambdaArgument hahead h ih =>
    refine List.forall_mem_singleton.2 (.node (fun _ => ⟨_, rfl, ?_⟩) ih)
    exact isPassedLambda_of_reads h hahead
  -- All other nodes are no lambda arguments.
  | typeReference | literal | name | this | break_ | continue_ | memberName =>
    exact Passed.nil.node nofun
  | directive _ _ hk => exact Passed.nil.node (ne_lambdaArgument_of_isDirective hk)
  | argument _ ih | namedArgument _ _ _ _ ih | argumentList _ _ _ _ ih
  | annotationEntry _ _ _ ih | elseBranch _ _ ih | typeCondition _ _ _ ih
  | membershipCondition _ _ _ ih | valueCondition _ ih | elseEntry _ _ _ ih | trailing _ _ _ ih
  | return_ _ _ _ _ ih | throw_ _ _ _ ih | parenthesized _ _ _ _ ih | leading _ _ _ ih
  | labeled _ _ _ ih | labeledLambda _ _ _ ih | block _ _ _ _ _ ih => exact ih.node nofun
  | enclosed hk _ _ _ ih => exact ih.node (ne_lambdaArgument_of_isEnclosed hk)
  | binary _ _ _ _ _ _ ihu ihv | assignment _ _ _ _ ihu ihv | whenEntry _ _ _ _ ihu ihv
  | parameter _ _ _ _ ihu ihv | property _ _ _ _ _ _ ihu ihv
  | annotatedDeclaration _ _ _ _ ihu ihv | qualified _ _ _ ihu ihv
  | arrayAccess _ _ _ _ _ ihu ihv | annotated _ _ _ ihu ihv | annotatedLambda _ _ _ ihu ihv
  | when_ _ _ _ _ _ _ ihu ihv => exact (ihu.append ihv).node nofun
  | typing _ _ _ hk _ _ _ ihu ihv =>
    exact (ihu.append ihv).node (ne_lambdaArgument_of_isTyping hk)
  | call _ _ _ _ ihu ihus ihvs => exact (ihu.append (ihus.append ihvs)).node nofun
  | function _ _ _ _ _ _ _ _ _ _ ihps ihus ihvs =>
    exact ((ihps.append ihus).append ihvs).node nofun
  | memberCall _ _ _ _ _ ihus ihvs =>
    exact ((Passed.nil.node (a := ⟨⟨.nameReference _, _⟩, _⟩) nofun).append
      (ihus.append ihvs)).node nofun
  | ifElse _ _ _ _ _ _ ihc ihb ihes =>
    exact (ihc.append ((ihb.node (a := ⟨⟨.thenBranch, _⟩, _⟩) nofun).append ihes)).node nofun
  | forLoop _ _ _ _ _ _ _ _ _ ihu ihb =>
    exact ((ihu.node (a := ⟨⟨.loopRange, _⟩, _⟩) nofun).append
      (ihb.node (a := ⟨⟨.loopBody, _⟩, _⟩) nofun)).node nofun
  | whileLoop _ _ _ _ ihc ihb =>
    exact (ihc.append (ihb.node (a := ⟨⟨.loopBody, _⟩, _⟩) nofun)).node nofun
  | lambda _ _ _ _ _ _ ihps ihus =>
    exact .node (.node (ihps.append (.node ihus nofun)) nofun) nofun

theorem passed_of_readsFile (h : ReadsFile n s u s') : Passed [u] := by
  cases h with
  | mk hps his hus =>
    have hall := ((passed_of_reads hps).append (passed_of_reads his)).append (passed_of_reads hus)
    exact hall.node nofun

end ResultHints
