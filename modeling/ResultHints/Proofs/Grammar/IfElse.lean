import ResultHints.Proofs.Grammar.Measured

/-!
# Where branches are read

An `if` takes an `else` wherever one comes, so that no other `if` around it gets that one. Main
statements:

- `ifsRead_of_reads`: every `if` among the nodes that are read was read as such, from some place
  among the lexemes;
- `ReadAlone.branches`: so it has an else branch if and only if an `else` was ahead where its then
  branch ends.
-/

namespace ResultHints

variable {L : List Lexeme} {n : Nat} {p : Phrase} {s s' : Cursor} {us vs : List Fragment}
  {u v : Fragment}

/-- The fragment was read as an expression that stands alone, from a place among the lexemes. -/
def ReadAlone (L : List Lexeme) (u : Fragment) : Prop :=
  ∃ n s s', n ≤ maxNesting ∧ s.On L ∧ Reads n .primary s [u] s'

/-- Every `if` in the fragments was read as such. -/
def IfsRead (L : List Lexeme) (us : List Fragment) : Prop :=
  ∀ u ∈ us, u.Each fun v => v.label.kind = .ifElse → ReadAlone L v

namespace IfsRead

variable {a : Node}

theorem nil : IfsRead L [] := nofun

theorem append (hus : IfsRead L us) (hvs : IfsRead L vs) : IfsRead L (us ++ vs) :=
  List.forall_mem_append.2 ⟨hus, hvs⟩

/-- A node that is no `if`. -/
theorem node (h : IfsRead L us) (hk : a.kind ≠ .ifElse) : IfsRead L [.node a us] :=
  List.forall_mem_singleton.2 (.node (fun hif => absurd hif hk) h)

theorem ifElse (h : IfsRead L us) (ha : ReadAlone L (.node a us)) : IfsRead L [.node a us] :=
  List.forall_mem_singleton.2 (.node (fun _ => ha) h)

end IfsRead

namespace NodeKind

variable {k : NodeKind}

theorem ne_ifElse_of_isDirective (h : k.isDirective) : k ≠ .ifElse := by
  rintro rfl
  cases h

theorem ne_ifElse_of_isEnclosed (h : k.isEnclosed) : k ≠ .ifElse := by
  rintro rfl
  cases h

theorem ne_ifElse_of_isTyping (h : k.isTyping) : k ≠ .ifElse := by
  rintro rfl
  cases h

end NodeKind

/-- Every `if` that is read is read as such. -/
theorem ifsRead_of_reads (h : Reads n p s us s') (hs : s.On L) (hn : n ≤ maxNesting) :
    IfsRead L us := by
  induction h with
  | absent | unmarked | noMore | noItem | noRow | noLambdaHead => exact .nil
  | present _ ih | lastItem _ ih | chainStart _ ih | value _ ih | blockBody _ ih | valueBody _ ih
  | lambdaAlone _ ih | suffixStart _ ih | blockFunctionBody _ ih | valueFunctionBody _ ih
  | lambdaHead _ _ ih | declaration _ ih | assignmentStatement _ ih => exact ih hs hn
  | plainOperand _ ih | plainLambda _ ih => exact ih hs (Nat.le_of_succ_le hn)
  | marked hmark _ ih | semicolon hmark _ ih | lateElseBranch hmark _ ih =>
    exact ih (hs.skips hmark) hn
  | more hu _ ihu ihs | row _ hu _ ihu ihs => exact (ihu hs hn).append (ihs (hs.reads hu) hn)
  | item hu hcomma _ ihu ihs =>
    exact (ihu hs hn).append (ihs ((hs.reads hu).skips hcomma) hn)
  -- An `if`, with its condition and its branches.
  | ifElse ht hk hc hb hes hiff ihc ihb ihes =>
    have hs₁ := hs.takes ht
    have hs₂ := hs₁.reads hc
    exact ((ihc hs₁ hn).append (((ihb hs₂ hn).node (a := ⟨⟨.thenBranch, _⟩, _⟩) nofun).append
      (ihes (hs₂.reads hb).made hn))).ifElse ⟨_, _, _, hn, hs, .ifElse ht hk hc hb hes hiff⟩
  -- All other nodes.
  | typeReference | literal | name | this | break_ | continue_ | memberName =>
    exact IfsRead.nil.node nofun
  | directive _ _ hk => exact IfsRead.nil.node (NodeKind.ne_ifElse_of_isDirective hk)
  | binary hu ht _ _ _ _ ihu ihv | assignment hu ht _ _ ihu ihv =>
    exact ((ihu hs hn).append (ihv ((hs.reads hu).takes ht) hn)).node nofun
  | typing hu ht _ hk _ _ _ ihu ihv =>
    exact ((ihu hs hn).append (ihv ((hs.reads hu).takes ht) hn)).node
      (NodeKind.ne_ifElse_of_isTyping hk)
  | argument _ ih | lambdaArgument _ _ ih | valueCondition _ ih | trailing _ _ _ ih =>
    exact (ih hs hn).node nofun
  | namedArgument ht _ hassign _ ih => exact (ih ((hs.takes ht).skips hassign) hn).node nofun
  | argumentList ht _ _ _ ih | annotationEntry ht _ _ ih | typeCondition ht _ _ ih
  | membershipCondition ht _ _ ih | throw_ ht _ _ ih | parenthesized ht _ _ _ ih =>
    exact (ih (hs.takes ht) hn).node nofun
  | return_ ht _ hr _ ih => exact (ih ((hs.takes ht).took hr.took) hn).node nofun
  | enclosed hk hopen _ _ ih =>
    exact (ih (hs.skips hopen) hn).node (NodeKind.ne_ifElse_of_isEnclosed hk)
  | elseBranch helse _ ih => exact (ih (hs.skips helse) hn).node nofun
  | elseEntry helse harrow _ ih => exact (ih ((hs.skips helse).skips harrow) hn).node nofun
  | whenEntry hcs _ harrow _ ihcs ihb =>
    exact ((ihcs hs hn).append (ihb ((hs.reads hcs).skips harrow) hn)).node nofun
  | when_ ht _ hus hopen _ _ ihus ihes =>
    have hs₁ := hs.takes ht
    exact ((ihus hs₁ hn).append (ihes ((hs₁.reads hus).skips hopen) hn)).node nofun
  | forLoop ht _ hopen hname _ hin hu hclose _ ihu ihb =>
    have hs₁ := (((hs.takes ht).skips hopen).takes hname).skips hin
    exact (((ihu hs₁ hn).node (a := ⟨⟨.loopRange, _⟩, _⟩) nofun).append
      ((ihb ((hs₁.reads hu).skips hclose).made hn).node (a := ⟨⟨.loopBody, _⟩, _⟩) nofun)).node
      nofun
  | whileLoop ht _ hc _ ihc ihb =>
    have hs₁ := hs.takes ht
    exact ((ihc hs₁ hn).append
      ((ihb (hs₁.reads hc) hn).node (a := ⟨⟨.loopBody, _⟩, _⟩) nofun)).node nofun
  | qualified hu hdot _ ihu ihv =>
    exact ((ihu hs hn).append (ihv ((hs.reads hu).skips hdot) hn)).node nofun
  | arrayAccess hu hopen _ _ _ ihu ihus =>
    exact ((ihu hs hn).append (ihus ((hs.reads hu).skips hopen) hn)).node nofun
  | call hu hus _ _ ihu ihus ihvs =>
    have hs₁ := hs.reads hu
    exact ((ihu hs hn).append ((ihus hs₁ hn).append (ihvs (hs₁.reads hus) hn))).node nofun
  | memberCall ht _ hus _ _ ihus ihvs =>
    have hs₁ := (hs.takes ht).made
    exact ((IfsRead.nil.node (a := ⟨⟨.nameReference _, _⟩, _⟩) nofun).append
      ((ihus hs₁ hn).append (ihvs (hs₁.reads hus) hn))).node nofun
  | leading ht _ _ ih | labeled ht _ _ ih | labeledLambda ht _ _ ih =>
    exact (ih (hs.takes ht) (Nat.le_of_succ_le hn)).node nofun
  | annotated hes _ _ ihes ihus | annotatedLambda hes _ _ ihes ihus =>
    have hn' := Nat.le_of_succ_le hn
    exact ((ihes hs hn').append (ihus (hs.reads hes) hn')).node nofun
  | annotatedDeclaration _ hes _ _ ihes ihu =>
    exact ((ihes hs hn).append (ihu (hs.reads hes) hn)).node nofun
  | parameter ht _ hus _ ihus ihvs =>
    have hs₁ := hs.takes ht
    exact ((ihus hs₁ hn).append (ihvs (hs₁.reads hus) hn)).node nofun
  | property ht _ hname _ hus _ ihus ihvs =>
    have hs₁ := (hs.takes ht).takes hname
    exact ((ihus hs₁ hn).append (ihvs (hs₁.reads hus) hn)).node nofun
  | function ht _ hm _ _ hopen hps hclose hus _ ihps ihus ihvs =>
    have hs₁ := ((hs.takes ht).took hm.took).skips hopen
    have hs₂ := (hs₁.reads hps).skips hclose
    exact (((ihps hs₁ hn).append (ihus hs₂ hn)).append (ihvs (hs₂.reads hus) hn)).node nofun
  | block ht _ _ _ _ ih => exact (ih (hs.takes ht) (Nat.le_of_succ_le hn)).node nofun
  | lambda ht _ hps _ _ _ ihps ihus =>
    have hn' := Nat.le_of_succ_le hn
    have hs₁ := hs.takes ht
    exact (((ihps hs₁ hn').append ((ihus (hs₁.reads hps) hn').node (a := ⟨⟨.block, _⟩, _⟩)
      nofun)).node (a := ⟨⟨.functionLiteral, _⟩, _⟩) nofun).node nofun

theorem ifsRead_of_readsFile (h : ReadsFile n s u s') (hs : s.On L) (hn : n ≤ maxNesting) :
    IfsRead L [u] := by
  obtain ⟨hps, his, hus⟩ := h
  have h₁ := hs.reads hps
  exact (((ifsRead_of_reads hps hs hn).append (ifsRead_of_reads his h₁ hn)).append
    (ifsRead_of_reads hus (h₁.reads his) hn)).node nofun

/-- The lexemes ahead of a place are told by how many there are. -/
theorem Cursor.On.rest_eq (hs : s.On L) (hs' : s'.On L) (h : s.rest.length = s'.rest.length) :
    s.rest = s'.rest := by
  obtain ⟨ts, hL, -⟩ := hs.passed
  obtain ⟨ts', hL', -⟩ := hs'.passed
  exact List.append_inj_right' (hL.symm.trans hL') h

theorem Cursor.elseAhead_of_rest_eq (h : s.rest = s'.rest) : s.elseAhead = s'.elseAhead := by
  simp only [elseAhead, isAt, kind?, secondKind?, h]

/-- An `if` has an else branch if and only if an `else` is ahead where its then branch ends. If it
    has none, it ends there as well. -/
theorem ReadAlone.branches (hL : InOrder 0 L) (h : ReadAlone L v) (hk : v.label.kind = .ifElse) :
    ∃ (s : Cursor) (c b : Fragment) (es : List Fragment), s.On L ∧ v.children = c :: b :: es ∧
      lexemesAfter L b.span.stop = s.rest.length ∧ (s.elseAhead ↔ es ≠ []) ∧
      (es = [] → lexemesAfter L v.span.stop = s.rest.length) := by
  obtain ⟨n, s, s', hn, hs, hr⟩ := h
  have hv := measured_of_reads hL hr hs hn v List.mem_cons_self
  cases hr with
  | @ifElse _ _ c s₂ b s₃ es s₄ _ _ ht _ hc hb hes hiff =>
    have hs₂ := (hs.takes ht).reads hc
    have hbody : Stands L s₂ b s₃ := measured_of_reads hL hb hs₂ hn b List.mem_cons_self
    refine ⟨s₃, c, s₃.wrap .thenBranch b, es, hs₂.reads hb, rfl,
      congrArg Span.stop hbody.span, hiff, ?_⟩
    rintro rfl
    have hend : s₄ = s₃.made := by
      cases hes
      rfl
    exact hend ▸ congrArg Span.stop hv.span
  | lambdaAlone hlambda =>
    obtain ⟨⟩ := hlambda
    cases hk
  | _ => cases hk

end ResultHints
