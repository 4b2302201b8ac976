import ResultHints.Proofs.Grammar.Sound
import ResultHints.Proofs.Tree.Each

/-!
# The layout of children

The kind of a node fixes which children it has, and in which order (`Follows`).
A tree in which this holds of every node is *well laid*. Main statement:

- `laid_of_reads`: all that the grammar accepts is well laid, and of the sort that
  the phrase admits;
- `wellLaid_of_readsFile`: so is a file.
-/

namespace ResultHints

/-! ## Classes of kinds -/

namespace NodeKind

/-- An expression that is no block. -/
def isValue (k : NodeKind) : Bool := k.isExpression && k != .block

def isDeclaration : NodeKind → Bool
  | function _ | property _ _ => true
  | _ => false

def isStatement (k : NodeKind) : Bool := k.isValue || k.isDeclaration

def isParameter : NodeKind → Bool
  | parameter _ => true
  | _ => false

def isTypeReference : NodeKind → Bool
  | typeReference _ => true
  | _ => false

def isArgument : NodeKind → Bool
  | argument _ => true
  | _ => false

def isNameReference : NodeKind → Bool
  | nameReference _ => true
  | _ => false

def isWhenCondition : NodeKind → Bool
  | whenCondition _ => true
  | _ => false

/-- The kinds of nodes around just one expression that is no block. -/
def holdsValue : NodeKind → Bool
  | argument _ | whenCondition .expression | whenCondition (.membership _) | whenSubject | condition
  | loopRange | leading _ | trailing _ | parenthesized | jump .throw_ => true
  | _ => false

/-- The kinds of nodes without children. -/
def isLeaf : NodeKind → Bool
  | packageDirective _ | importDirective _ | typeReference _ | nameReference _ | literal _ | this _
  | jump (.break_ _) | jump (.continue_ _) => true
  | _ => false

theorem isExpression_of_isValue {k : NodeKind} (h : k.isValue) : k.isExpression :=
  (Bool.and_eq_true _ _ ▸ h).1

theorem isStatement_of_isValue {k : NodeKind} (h : k.isValue) : k.isStatement := by
  rw [isStatement, h, Bool.true_or]

theorem isStatement_of_isDeclaration {k : NodeKind} (h : k.isDeclaration) : k.isStatement := by
  rw [isStatement, h, Bool.or_true]

theorem isValue_of_isTyping {k : NodeKind} (h : k.isTyping) : k.isValue := by
  cases k <;> first | rfl | cases h

theorem holdsValue_of_isEnclosed {k : NodeKind} (h : k.isEnclosed) : k.holdsValue := by
  cases k <;> first | rfl | cases h

theorem isLeaf_of_isDirective {k : NodeKind} (h : k.isDirective) : k.isLeaf := by
  cases k <;> first | rfl | cases h

theorem isExpression_of_eq_block {k : NodeKind} (h : k = .block) : k.isExpression := by
  subst h
  rfl

end NodeKind

/-- No tree, or one of the sort `p`. -/
def AtMostOne (p : NodeKind → Prop) (ts : List (Tree NodeKind)) : Prop :=
  ts.length ≤ 1 ∧ ∀ t ∈ ts, p t.label

/-- A lambda inside any labels and annotations. -/
inductive IsWrappedLambda : Tree NodeKind → Prop
  | lambda {ts : List (Tree NodeKind)} : IsWrappedLambda (.node .lambda ts)
  | labeled {label : String} {t : Tree NodeKind} : IsWrappedLambda t →
    IsWrappedLambda (.node (.labeled label) [t])
  | annotated {ts : List (Tree NodeKind)} {t : Tree NodeKind} :
    (∀ s ∈ ts, s.label.isAnnotationEntry) → IsWrappedLambda t →
    IsWrappedLambda (.node .annotated (ts ++ [t]))

/-- A name, or the call of one. -/
inductive IsMember : Tree NodeKind → Prop
  | name {name : String} {ts : List (Tree NodeKind)} : IsMember (.node (.nameReference name) ts)
  | call {t : Tree NodeKind} {ts : List (Tree NodeKind)} : t.label.isNameReference →
    IsMember (.node .call (t :: ts))

/-- The children that a node of the given kind may have. -/
inductive Follows : NodeKind → List (Tree NodeKind) → Prop
  | file {ds ts} : (∀ d ∈ ds, d.label.isDirective) → (∀ t ∈ ts, t.label.isStatement) →
    Follows .file (ds ++ ts)
  | function {name ps rs bs} : (∀ p ∈ ps, p.label.isParameter) →
    AtMostOne (·.isTypeReference) rs → AtMostOne (·.isExpression) bs →
    Follows (.function name) (ps ++ rs ++ bs)
  | property {name isMutable rs vs} : AtMostOne (·.isTypeReference) rs →
    AtMostOne (·.isValue) vs → Follows (.property name isMutable) (rs ++ vs)
  | parameter {name rs vs} : AtMostOne (·.isTypeReference) rs →
    AtMostOne (·.isValue) vs → Follows (.parameter name) (rs ++ vs)
  | block {ts} : (∀ t ∈ ts, t.label.isStatement) → Follows .block ts
  | lambda {t} : t.label = .functionLiteral → Follows .lambda [t]
  | functionLiteral {ps b} : (∀ p ∈ ps, p.label.isParameter) → b.label = .block →
    Follows .functionLiteral (ps ++ [b])
  | labeled {label ts} : AtMostOne (·.isValue) ts → Follows (.labeled label) ts
  | annotated {es ts} : es ≠ [] → (∀ e ∈ es, e.label.isAnnotationEntry) →
    AtMostOne (·.isStatement) ts → Follows .annotated (es ++ ts)
  | annotationEntry {name as} : AtMostOne (· = .argumentList) as →
    Follows (.annotationEntry name) as
  | argumentList {as} : (∀ a ∈ as, a.label.isArgument) → Follows .argumentList as
  | call {t as ls} : t.label.isValue → AtMostOne (· = .argumentList) as →
    AtMostOne (· = .lambdaArgument) ls → as ++ ls ≠ [] → Follows .call (t :: (as ++ ls))
  | lambdaArgument {t} : IsWrappedLambda t → Follows .lambdaArgument [t]
  | qualified {isSafe t u} : t.label.isValue → IsMember u → Follows (.qualified isSafe) [t, u]
  | arrayAccess {t ts} : t.label.isValue → ts ≠ [] → (∀ u ∈ ts, u.label.isValue) →
    Follows .arrayAccess (t :: ts)
  | ifElse {c t es} : c.label = .condition → t.label = .thenBranch →
    AtMostOne (· = .elseBranch) es → Follows .ifElse (c :: t :: es)
  | when_ {ss es} : AtMostOne (· = .whenSubject) ss → (∀ e ∈ es, e.label.isWhenEntry) →
    Follows .when_ (ss ++ es)
  | whenEntry {isElse cs b} : (cs = [] ↔ isElse = true) → (∀ c ∈ cs, c.label.isWhenCondition) →
    b.label.isExpression → Follows (.whenEntry isElse) (cs ++ [b])
  | typeCondition {negated t} : t.label.isTypeReference →
    Follows (.whenCondition (.typeTest negated)) [t]
  | controlBody {k t} : k.isControlBody → t.label.isExpression → Follows k [t]
  | whileLoop {c b} : c.label = .condition → b.label = .loopBody → Follows .whileLoop [c, b]
  | forLoop {name r b} : r.label = .loopRange → b.label = .loopBody →
    Follows (.forLoop name) [r, b]
  | binary {op t u} : t.label.isValue → u.label.isValue → Follows (.binary op) [t, u]
  | typing {k t u} : k.isTyping → t.label.isValue → u.label.isTypeReference → Follows k [t, u]
  | return_ {label ts} : AtMostOne (·.isValue) ts → Follows (.jump (.return_ label)) ts
  | value {k t} : k.holdsValue → t.label.isValue → Follows k [t]
  | leaf {k} : k.isLeaf → Follows k []

/-- Every node of the tree has the children that its kind asks for. -/
def WellLaid (t : Tree NodeKind) : Prop := t.Each fun t => Follows t.label t.children

/-- The kinds of the nodes of a fragment. -/
def Fragment.outline (u : Fragment) : Tree NodeKind := u.map fun a => a.kind

/-- What the fragments of a phrase are. -/
def Phrase.Admits : Phrase → Tree NodeKind → Prop
  | maybe p, t | after _ p, t | many p, t | items p, t | rows p, t => p.Admits t
  | typeReference, t => t.label.isTypeReference
  | chain _, t | assignment, t | primary, t | suffixed, t | operand, t => t.label.isValue
  | argument, t => t.label.isArgument
  | argumentList, t => t.label = .argumentList
  | annotationEntry, t => t.label.isAnnotationEntry
  | lambdaArgument, t => t.label = .lambdaArgument
  | body, t | functionBody, t => t.label.isExpression
  | enclosed k, t => t.label = k
  | elseBranch, t => t.label = .elseBranch
  | whenCondition, t => t.label.isWhenCondition
  | whenEntry, t => t.label.isWhenEntry
  | member, t => IsMember t
  | wrappedLambda, t | lambda, t => IsWrappedLambda t
  | parameter, t | lambdaHead, t => t.label.isParameter
  | block, t => t.label = .block
  | declaration, t => t.label.isDeclaration
  | statement, t => t.label.isStatement
  | directive, t => t.label.isDirective

/-- The fragments are well laid, and of the sort that the phrase admits. -/
def Laid (p : Phrase) (us : List Fragment) : Prop :=
  ∀ u ∈ us, WellLaid u.outline ∧ p.Admits u.outline

@[simp]
theorem laid_nil (p : Phrase) : Laid p [] := fun _ h => absurd h List.not_mem_nil

@[simp]
theorem laid_cons {p : Phrase} {u : Fragment} {us : List Fragment} :
    Laid p (u :: us) ↔ (WellLaid u.outline ∧ p.Admits u.outline) ∧ Laid p us :=
  List.forall_mem_cons

@[simp]
theorem outline_node (a : Node) (us : List Fragment) :
    Fragment.outline (.node a us) = .node a.kind (us.map Fragment.outline) :=
  Tree.map_node _ _ _

theorem outline_make (s : Cursor) (k : NodeKind) (span : Span) (us : List Fragment) :
    (s.make k span us).outline = .node k (us.map Fragment.outline) :=
  outline_node ..

theorem laid_singleton {p : Phrase} {u : Fragment} :
    Laid p [u] ↔ WellLaid u.outline ∧ p.Admits u.outline := by
  simp

theorem wellLaid_node {k : NodeKind} {ts : List (Tree NodeKind)} (h : Follows k ts)
    (hts : ∀ t ∈ ts, WellLaid t) : WellLaid (.node k ts) :=
  .node h hts

/-! ## What is accepted -/

variable {n : Nat} {p : Phrase} {s s' : Cursor} {us : List Fragment}

theorem length_le_one_of_maybe (h : Reads n (.maybe p) s us s') : us.length ≤ 1 := by
  cases h <;> simp

theorem length_le_one_of_after {k : TokenKind} (h : Reads n (.after k p) s us s') :
    us.length ≤ 1 := by
  cases h <;> simp

theorem length_le_one_of_functionBody (h : Reads n .functionBody s us s') : us.length ≤ 1 := by
  cases h with
  | blockFunctionBody => simp
  | valueFunctionBody h => exact length_le_one_of_after h

theorem Laid.wellLaid (h : Laid p us) : ∀ u ∈ us, WellLaid u.outline := fun u hu => (h u hu).1

theorem Laid.admits (h : Laid p us) : ∀ t ∈ us.map Fragment.outline, p.Admits t := by
  intro t ht
  obtain ⟨u, hu, rfl⟩ := List.mem_map.1 ht
  exact (h u hu).2

theorem Laid.atMostOne {q : NodeKind → Prop} (h : Laid p us) (hle : us.length ≤ 1)
    (hq : ∀ t, p.Admits t → q t.label) : AtMostOne q (us.map Fragment.outline) :=
  ⟨by rwa [List.length_map], fun t ht => hq t (h.admits t ht)⟩

theorem laid_node {a : Node} (hk : Follows a.kind (us.map Fragment.outline))
    (hus : ∀ u ∈ us, WellLaid u.outline) (hp : p.Admits (.node a.kind (us.map Fragment.outline))) :
    Laid p [.node a us] := by
  rw [laid_cons, outline_node]
  refine ⟨⟨wellLaid_node hk fun t ht => ?_, hp⟩, laid_nil p⟩
  obtain ⟨u, hu, rfl⟩ := List.mem_map.1 ht
  exact hus u hu

theorem laid_leaf {a : Node} (hk : a.kind.isLeaf) (hp : p.Admits (.node a.kind [])) :
    Laid p [.node a []] :=
  laid_node (.leaf hk) (fun _ h => absurd h List.not_mem_nil) hp

theorem laid_one {a : Node} {u : Fragment} (hk : Follows a.kind [u.outline])
    (hu : WellLaid u.outline) (hp : p.Admits (.node a.kind [u.outline])) :
    Laid p [.node a [u]] :=
  laid_node hk (by simpa using hu) hp

theorem laid_two {a : Node} {u v : Fragment} (hk : Follows a.kind [u.outline, v.outline])
    (hu : WellLaid u.outline) (hv : WellLaid v.outline)
    (hp : p.Admits (.node a.kind [u.outline, v.outline])) : Laid p [.node a [u, v]] :=
  laid_node hk (by simpa using ⟨hu, hv⟩) hp

theorem wellLaid_leaf {k : NodeKind} {t : Lexeme} (hk : k.isLeaf) :
    WellLaid (s.leaf k t).outline :=
  wellLaid_node (.leaf hk) (fun _ h => absurd h List.not_mem_nil)

theorem outline_wrap (s : Cursor) (k : NodeKind) (u : Fragment) :
    (s.wrap k u).outline = .node k [u.outline] :=
  outline_make ..

/-- The node around what a branch or a loop evaluates. -/
theorem wellLaid_wrap {k : NodeKind} {u : Fragment} (hk : k.isControlBody) (h : Laid .body [u]) :
    WellLaid (s.wrap k u).outline := by
  obtain ⟨hu, hbody⟩ := laid_singleton.1 h
  rw [outline_wrap]
  exact wellLaid_node (.controlBody hk hbody) (by simpa using hu)

/-- The node around what a loop iterates over, or what a condition tests. -/
theorem wellLaid_wrap_value {k : NodeKind} {u : Fragment} (hk : k.holdsValue)
    (h : Laid .expression [u]) : WellLaid (s.wrap k u).outline := by
  obtain ⟨hu, hvalue⟩ := laid_singleton.1 h
  rw [outline_wrap]
  exact wellLaid_node (.value hk hvalue) (by simpa using hu)

theorem atMostOne_singleton {q : NodeKind → Prop} {t : Tree NodeKind} (h : q t.label) :
    AtMostOne q [t] :=
  ⟨Nat.le_refl 1, by simpa using h⟩

theorem IsWrappedLambda.isValue {t : Tree NodeKind} (h : IsWrappedLambda t) : t.label.isValue := by
  cases h <;> rfl

theorem IsMember.isValue {t : Tree NodeKind} (h : IsMember t) : t.label.isValue := by
  cases h <;> rfl

theorem Laid.append {q : Phrase} {vs : List Fragment} (h : Laid p us) (h' : Laid q vs) :
    ∀ u ∈ us ++ vs, WellLaid u.outline :=
  List.forall_mem_append.2 ⟨h.wellLaid, h'.wellLaid⟩

/-- The node of a call. -/
theorem follows_call {u : Fragment} {vs : List Fragment} {s₁ s₂ : Cursor}
    (hu : u.outline.label.isValue) (hus : Reads n (.maybe .argumentList) s us s₁)
    (ihus : Laid (.maybe .argumentList) us) (hvs : Reads n (.maybe .lambdaArgument) s₁ vs s₂)
    (ihvs : Laid (.maybe .lambdaArgument) vs) (hne : us ++ vs ≠ []) :
    Follows .call ((u :: (us ++ vs)).map Fragment.outline) := by
  rw [List.map_cons, List.map_append]
  refine .call hu (ihus.atMostOne (length_le_one_of_maybe hus) fun _ h => h)
    (ihvs.atMostOne (length_le_one_of_maybe hvs) fun _ h => h) ?_
  simpa using hne

open NodeKind in
/-- All that is accepted is well laid, and of the sort that the phrase admits. -/
theorem laid_of_reads (h : Reads n p s us s') : Laid p us := by
  induction h with
  | absent | unmarked | noMore | noItem | noRow | noLambdaHead => exact laid_nil _
  | present _ ih | marked _ _ ih | lastItem _ ih | semicolon _ _ ih => exact ih
  | more _ _ ihu ihs | item _ _ _ ihu ihs | row _ _ _ ihu ihs =>
    exact laid_cons.2 ⟨(laid_cons.1 ihu).1, ihs⟩
  | typeReference => exact laid_leaf rfl rfl
  -- Expressions and assignments.
  | chainStart _ ih | value _ ih => exact ih
  | binary _ _ _ _ _ _ ihu ihv | assignment _ _ _ _ ihu ihv =>
    obtain ⟨hu, hu'⟩ := laid_singleton.1 ihu
    obtain ⟨hv, hv'⟩ := laid_singleton.1 ihv
    exact laid_two (.binary hu' hv') hu hv rfl
  | typing _ _ _ hmade _ _ _ ihu ihv =>
    obtain ⟨hu, hu'⟩ := laid_singleton.1 ihu
    obtain ⟨hv, hv'⟩ := laid_singleton.1 ihv
    exact laid_two (.typing hmade hu' hv') hu hv (isValue_of_isTyping hmade)
  -- Arguments.
  | argument _ ih | namedArgument _ _ _ _ ih =>
    obtain ⟨hu, hu'⟩ := laid_singleton.1 ih
    exact laid_one (.value rfl hu') hu rfl
  | argumentList _ _ _ _ ih => exact laid_node (.argumentList ih.admits) ih.wellLaid rfl
  | annotationEntry _ _ h ih =>
    exact laid_node (.annotationEntry (ih.atMostOne (length_le_one_of_maybe h) fun _ h => h))
      ih.wellLaid rfl
  | lambdaArgument _ _ ih =>
    obtain ⟨hu, hu'⟩ := laid_singleton.1 ih
    exact laid_one (.lambdaArgument hu') hu rfl
  -- Branches and loops.
  | blockBody _ ih | blockFunctionBody _ ih =>
    obtain ⟨hu, hu'⟩ := laid_singleton.1 ih
    exact laid_singleton.2 ⟨hu, isExpression_of_eq_block hu'⟩
  | valueBody _ ih =>
    obtain ⟨hu, hu'⟩ := laid_singleton.1 ih
    exact laid_singleton.2 ⟨hu, isExpression_of_isValue hu'⟩
  | enclosed hk _ _ _ ih =>
    exact laid_singleton.2 ⟨wellLaid_wrap_value (holdsValue_of_isEnclosed hk) ih, rfl⟩
  | elseBranch _ _ ih => exact laid_singleton.2 ⟨wellLaid_wrap rfl ih, rfl⟩
  | lateElseBranch _ _ ih => exact ih
  | ifElse _ _ _ _ hes _ ihc ihb ihes =>
    obtain ⟨hc, hc'⟩ := laid_singleton.1 ihc
    refine laid_node (.ifElse hc' rfl ?_) ?_ rfl
    · exact ihes.atMostOne (length_le_one_of_maybe hes) fun _ h => h
    · simpa using ⟨hc, wellLaid_wrap rfl ihb, ihes.wellLaid⟩
  | typeCondition _ _ _ ih =>
    obtain ⟨hu, hu'⟩ := laid_singleton.1 ih
    exact laid_one (.typeCondition hu') hu rfl
  | membershipCondition _ _ _ ih | valueCondition _ ih =>
    obtain ⟨hu, hu'⟩ := laid_singleton.1 ih
    exact laid_one (.value rfl hu') hu rfl
  | elseEntry _ _ _ ih =>
    obtain ⟨hu, hu'⟩ := laid_singleton.1 ih
    have hnone : ∀ c ∈ ([] : List (Tree NodeKind)), c.label.isWhenCondition := nofun
    exact laid_one (.whenEntry (by simp) hnone hu') hu rfl
  | whenEntry _ hne _ _ ihcs ihb =>
    obtain ⟨hb, hb'⟩ := laid_singleton.1 ihb
    refine laid_node ?_ (ihcs.append ihb) rfl
    rw [List.map_append]
    exact .whenEntry (by simpa using hne) ihcs.admits hb'
  | when_ _ _ hus _ _ _ ihus ihes =>
    refine laid_node ?_ (ihus.append ihes) rfl
    rw [List.map_append]
    exact .when_ (ihus.atMostOne (length_le_one_of_maybe hus) fun _ h => h) ihes.admits
  | forLoop _ _ _ _ _ _ _ _ _ ihu ihb =>
    exact laid_two (.forLoop rfl rfl) (wellLaid_wrap_value rfl ihu) (wellLaid_wrap rfl ihb) rfl
  | whileLoop _ _ _ _ ihc ihb =>
    obtain ⟨hc, hc'⟩ := laid_singleton.1 ihc
    exact laid_two (.whileLoop hc' rfl) hc (wellLaid_wrap rfl ihb) rfl
  -- What stands alone.
  | literal | name | this | break_ | continue_ => exact laid_leaf rfl rfl
  | return_ _ _ _ h ih =>
    exact laid_node (.return_ (ih.atMostOne (length_le_one_of_maybe h) fun _ h => h)) ih.wellLaid
      rfl
  | throw_ _ _ _ ih | parenthesized _ _ _ _ ih =>
    obtain ⟨hu, hu'⟩ := laid_singleton.1 ih
    exact laid_one (.value rfl hu') hu rfl
  | lambdaAlone _ ih =>
    obtain ⟨hu, hu'⟩ := laid_singleton.1 ih
    exact laid_singleton.2 ⟨hu, hu'.isValue⟩
  -- What follows.
  | suffixStart _ ih => exact ih
  | qualified _ _ _ ihu ihv =>
    obtain ⟨hu, hu'⟩ := laid_singleton.1 ihu
    obtain ⟨hv, hv'⟩ := laid_singleton.1 ihv
    exact laid_two (.qualified hu' hv') hu hv rfl
  | trailing _ _ _ ih =>
    obtain ⟨hu, hu'⟩ := laid_singleton.1 ih
    exact laid_one (.value rfl hu') hu rfl
  | arrayAccess _ _ _ hne _ ihu ihus =>
    obtain ⟨hu, hu'⟩ := laid_singleton.1 ihu
    refine laid_node (.arrayAccess hu' ?_ ihus.admits) ?_ rfl
    · simpa using hne
    · simpa using ⟨hu, ihus.wellLaid⟩
  | call _ hus hvs hne ihu ihus ihvs =>
    obtain ⟨hu, hu'⟩ := laid_singleton.1 ihu
    exact laid_node (follows_call hu' hus ihus hvs ihvs hne)
      (List.forall_mem_cons.2 ⟨hu, ihus.append ihvs⟩) rfl
  | memberName => exact laid_leaf rfl .name
  | memberCall _ _ hus hvs hne ihus ihvs =>
    refine laid_node (follows_call rfl hus ihus hvs ihvs hne) ?_ (.call rfl)
    exact List.forall_mem_cons.2 ⟨wellLaid_leaf rfl, ihus.append ihvs⟩
  -- What stands before.
  | leading _ _ _ ih =>
    obtain ⟨hu, hu'⟩ := laid_singleton.1 ih
    exact laid_one (.value rfl hu') hu rfl
  | labeled _ _ h ih =>
    exact laid_node (.labeled (ih.atMostOne (length_le_one_of_maybe h) fun _ h => h)) ih.wellLaid
      rfl
  | annotated _ hne h ihes ihus =>
    refine laid_node ?_ (ihes.append ihus) rfl
    rw [List.map_append]
    refine .annotated (by simpa using hne) ihes.admits ?_
    exact ihus.atMostOne (length_le_one_of_maybe h) fun _ h => isStatement_of_isValue h
  | plainOperand _ ih => exact ih
  | labeledLambda _ _ _ ih =>
    obtain ⟨hu, hu'⟩ := laid_singleton.1 ih
    exact laid_one (.labeled (atMostOne_singleton hu'.isValue)) hu (.labeled hu')
  | annotatedLambda _ hne _ ihes ihu =>
    obtain ⟨hu, hu'⟩ := laid_singleton.1 ihu
    refine laid_node ?_ (ihes.append ihu) ?_
    · rw [List.map_append]
      exact .annotated (by simpa using hne) ihes.admits
        (atMostOne_singleton (isStatement_of_isValue hu'.isValue))
    · rw [List.map_append]
      exact .annotated ihes.admits hu'
  | plainLambda _ ih => exact ih
  -- Declarations and statements.
  | parameter _ _ hus hvs ihus ihvs =>
    refine laid_node ?_ (ihus.append ihvs) rfl
    rw [List.map_append]
    exact .parameter (ihus.atMostOne (length_le_one_of_after hus) fun _ h => h)
      (ihvs.atMostOne (length_le_one_of_after hvs) fun _ h => h)
  | lambdaHead _ _ ih => exact ih
  | lambda _ _ _ _ _ _ ihps ihus =>
    -- The block lies below the function literal, and that below the lambda.
    refine laid_one (.lambda rfl) ?_ .lambda
    rw [outline_make, List.map_append, List.map_singleton, outline_make]
    refine wellLaid_node (.functionLiteral ihps.admits rfl) ?_
    refine List.forall_mem_append.2 ⟨List.forall_mem_map.2 ihps.wellLaid, ?_⟩
    rw [List.forall_mem_singleton]
    exact wellLaid_node (.block ihus.admits) (List.forall_mem_map.2 ihus.wellLaid)
  | block _ _ _ _ _ ih => exact laid_node (.block ih.admits) ih.wellLaid rfl
  | valueFunctionBody _ ih =>
    exact fun u hu => ⟨(ih u hu).1, isExpression_of_isValue (ih u hu).2⟩
  | function _ _ _ _ _ _ _ _ hus hvs ihps ihus ihvs =>
    refine laid_node ?_ ?_ rfl
    · rw [List.map_append, List.map_append]
      exact .function ihps.admits (ihus.atMostOne (length_le_one_of_after hus) fun _ h => h)
        (ihvs.atMostOne (length_le_one_of_functionBody hvs) fun _ h => h)
    · exact List.forall_mem_append.2 ⟨ihps.append ihus, ihvs.wellLaid⟩
  | property _ _ _ _ hus hvs ihus ihvs =>
    refine laid_node ?_ (ihus.append ihvs) rfl
    rw [List.map_append]
    exact .property (ihus.atMostOne (length_le_one_of_after hus) fun _ h => h)
      (ihvs.atMostOne (length_le_one_of_after hvs) fun _ h => h)
  | annotatedDeclaration _ _ hne _ ihes ihu =>
    obtain ⟨hu, hu'⟩ := laid_singleton.1 ihu
    refine laid_node ?_ (ihes.append ihu) rfl
    rw [List.map_append]
    exact .annotated (by simpa using hne) ihes.admits
      (atMostOne_singleton (isStatement_of_isDeclaration hu'))
  | declaration _ ih =>
    obtain ⟨hu, hu'⟩ := laid_singleton.1 ih
    exact laid_singleton.2 ⟨hu, isStatement_of_isDeclaration hu'⟩
  | assignmentStatement _ ih =>
    obtain ⟨hu, hu'⟩ := laid_singleton.1 ih
    exact laid_singleton.2 ⟨hu, isStatement_of_isValue hu'⟩
  | directive _ _ hk => exact laid_leaf (isLeaf_of_isDirective hk) hk

/-- A file that is read is well laid. -/
theorem wellLaid_of_readsFile {u : Fragment} (h : ReadsFile n s u s') : WellLaid u.outline := by
  obtain ⟨hps, his, hus⟩ := h
  have ihus := laid_of_reads hus
  have hds : Laid (.rows .directive) (_ ++ _) :=
    List.forall_mem_append.2 ⟨laid_of_reads hps, laid_of_reads his⟩
  rw [outline_make, List.map_append]
  exact wellLaid_node (.file hds.admits ihus.admits)
    (by simpa only [List.map_append] using List.forall_mem_map.2 (hds.append ihus))

end ResultHints
