import ResultHints.Proofs.Document.Regular

/-!
# How deep nodes are nested

The levels of nesting are counted while a text is read, and forgotten when it has been read. They
show in the tree: the nodes that are only read one level further in lie below each other at
most as often as there are levels, however long the text is. Main statement:

- `length_levels_le`: on the path from the root to a node, at most `maxNesting` nodes open a level.
-/

namespace ResultHints

/-- The kinds of nodes that open a level of nesting. -/
def NodeKind.opensLevel : NodeKind → Bool
  | leading _ | labeled _ | parenthesized | ifElse | when_ | forLoop _ | whileLoop | lambda | block
  | jump (.return_ _) | jump .throw_ => true
  | _ => false

namespace NodeKind

theorem opensLevel_of_isDirective {k : NodeKind} (h : k.isDirective) : k.opensLevel = false := by
  cases k <;> first | rfl | cases h

theorem opensLevel_of_isEnclosed {k : NodeKind} (h : k.isEnclosed) : k.opensLevel = false := by
  cases k <;> first | rfl | cases h

theorem opensLevel_of_isTyping {k : NodeKind} (h : k.isTyping) : k.opensLevel = false := by
  cases k <;> first | rfl | cases h

end NodeKind

namespace Location

/-- Whether a node is right in a function literal. -/
def isInLiteral (x : Place) : Bool := x.parent?.any fun y => y.kind == .functionLiteral

/-- Whether a node opens a level of nesting; the body of a lambda is at the level of the lambda. -/
def opensLevel (x : Place) : Bool := x.kind.opensLevel && !(x.isInLiteral && x.kind == .block)

/-- The nodes on the path from the root to a node, itself included, that open a level. -/
def levels (x : Place) : List Place := (x :: x.ancestors).filter opensLevel

end Location

/-! ## Levels of fragments -/

/-- In a fragment at most `n` nodes that open a level lie below each other. If the fragment is in
    a function literal, and a block, its root opens none. -/
inductive Nests : (inLiteral : Bool) → (n : Nat) → Fragment → Prop
  | same : (a.kind.opensLevel = true → inLiteral = true ∧ a.kind = .block) →
    (∀ u ∈ us, Nests (a.kind == .functionLiteral) n u) → Nests inLiteral n (.node a us)
  | deeper : (∀ u ∈ us, Nests (a.kind == .functionLiteral) n u) →
    Nests inLiteral (n + 1) (.node a us)

theorem Nests.mono {b c : Bool} {m n : Nat} {u : Fragment} (h : Nests b n u) (hbc : b → c)
    (hnm : n ≤ m) : Nests c m u := by
  induction h generalizing c m with
  | same hk _ ih =>
    exact .same (fun ho => (hk ho).imp_left hbc) fun u hu => ih u hu id hnm
  | deeper _ ih =>
    obtain ⟨m, rfl⟩ : ∃ m', m = m' + 1 := ⟨m - 1, by omega⟩
    exact .deeper fun u hu => ih u hu id (Nat.le_of_succ_le_succ hnm)

/-- In each of the fragments at most `n` nodes that open a level lie below each other. -/
def NestsAll (n : Nat) (us : List Fragment) : Prop := ∀ u ∈ us, Nests false n u

namespace NestsAll

variable {m n : Nat} {a : Node} {u : Fragment} {us vs : List Fragment}

theorem nil : NestsAll n [] := nofun

theorem append (hus : NestsAll n us) (hvs : NestsAll n vs) : NestsAll n (us ++ vs) :=
  List.forall_mem_append.2 ⟨hus, hvs⟩

theorem mono (h : NestsAll n us) (hnm : n ≤ m) : NestsAll m us :=
  fun u hu => (h u hu).mono id hnm

theorem succ (h : NestsAll n us) : NestsAll (n + 1) us := h.mono (Nat.le_succ n)

/-- A node that opens no level is nested as its children are. -/
theorem same (h : NestsAll n us) (hk : a.kind.opensLevel = false) : NestsAll n [.node a us] :=
  List.forall_mem_singleton.2 <| .same (fun ho => absurd (hk.symm.trans ho) nofun)
    fun u hu => (h u hu).mono nofun (Nat.le_refl n)

/-- A node that opens a level is nested one level deeper than its children. -/
theorem deeper (h : NestsAll n us) : NestsAll (n + 1) [.node a us] :=
  List.forall_mem_singleton.2 <| .deeper fun u hu => (h u hu).mono nofun (Nat.le_refl n)

/-- A lambda opens a level, and the block that is its body opens none. -/
theorem lambda {a b c : Node} (hb : b.kind = .functionLiteral) (hc : c.kind = .block)
    (hus : NestsAll n us) (hvs : NestsAll n vs) :
    NestsAll (n + 1) [.node a [.node b (us ++ [.node c vs])]] := by
  refine List.forall_mem_singleton.2 (.deeper (List.forall_mem_singleton.2 (.same ?_ ?_)))
  · exact fun ho => absurd ho (by rw [hb]; nofun)
  · rw [hb]
    refine List.forall_mem_append.2 ⟨fun u hu => (hus u hu).mono nofun (Nat.le_refl n), ?_⟩
    exact List.forall_mem_singleton.2 <| .same (fun _ => ⟨rfl, hc⟩)
      fun u hu => (hvs u hu).mono nofun (Nat.le_refl n)

end NestsAll

/-! ## What is read -/

/-- How many levels a phrase may open that was entered by the one around it. What follows an
    operand, and what stands alone, are read at the level of the operand. -/
def Phrase.entered : Phrase → Nat
  | maybe p | after _ p | many p | items p | rows p => p.entered
  | primary | suffixed => 1
  | _ => 0

variable {n : Nat} {p : Phrase} {s s' : Cursor} {us : List Fragment} {u : Fragment}

/-- What is read with `n` levels left opens no more of them. -/
theorem nestsAll_of_reads (h : Reads n p s us s') : NestsAll (n + p.entered) us := by
  induction h with
  | absent | unmarked | noMore | noItem | noRow | noLambdaHead => exact .nil
  | present _ ih | marked _ _ ih | lastItem _ ih | semicolon _ _ ih => exact ih
  | more _ _ ihu ihs | item _ _ _ ihu ihs | row _ _ _ ihu ihs => exact ihu.append ihs
  | chainStart _ ih | value _ ih | blockBody _ ih | valueBody _ ih | lateElseBranch _ _ ih
  | suffixStart _ ih | plainOperand _ ih | lambdaHead _ _ ih | blockFunctionBody _ ih
  | valueFunctionBody _ ih | declaration _ ih | assignmentStatement _ ih => exact ih
  | lambdaAlone _ ih | plainLambda _ ih => exact ih.succ
  -- Nodes that open no level.
  | typeReference | literal | name | this | break_ | continue_ | memberName =>
    exact NestsAll.nil.same rfl
  | directive _ _ hk => exact NestsAll.nil.same (NodeKind.opensLevel_of_isDirective hk)
  | argument _ ih | namedArgument _ _ _ _ ih | argumentList _ _ _ _ ih
  | annotationEntry _ _ _ ih | lambdaArgument _ _ ih | elseBranch _ _ ih
  | typeCondition _ _ _ ih | membershipCondition _ _ _ ih | valueCondition _ ih
  | elseEntry _ _ _ ih | trailing _ _ _ ih => exact ih.same rfl
  | enclosed hk _ _ _ ih => exact ih.same (NodeKind.opensLevel_of_isEnclosed hk)
  | binary _ _ _ _ _ _ ihu ihv | assignment _ _ _ _ ihu ihv | whenEntry _ _ _ _ ihu ihv
  | parameter _ _ _ _ ihu ihv | property _ _ _ _ _ _ ihu ihv
  | annotatedDeclaration _ _ _ _ ihu ihv => exact (ihu.append ihv).same rfl
  | typing _ _ _ hk _ _ _ ihu ihv =>
    exact (ihu.append ihv).same (NodeKind.opensLevel_of_isTyping hk)
  | qualified _ _ _ ihu ihv | arrayAccess _ _ _ _ _ ihu ihv =>
    exact (ihu.append ihv.succ).same rfl
  | call _ _ _ _ ihu ihus ihvs => exact (ihu.append (ihus.append ihvs).succ).same rfl
  | memberCall _ _ _ _ _ ihus ihvs =>
    exact ((NestsAll.nil.same rfl).append (ihus.append ihvs)).same rfl
  | annotated _ _ _ ihes ihus => exact ((ihes.append ihus).same rfl).succ
  | annotatedLambda _ _ _ ihes ihus => exact ((ihes.append ihus).same rfl).succ
  | function _ _ _ _ _ _ _ _ _ _ ihps ihus ihvs => exact ((ihps.append ihus).append ihvs).same rfl
  -- Nodes that open a level.
  | leading _ _ _ ih | labeled _ _ _ ih | labeledLambda _ _ _ ih | parenthesized _ _ _ _ ih
  | return_ _ _ _ _ ih | throw_ _ _ _ ih | block _ _ _ _ _ ih => exact ih.deeper
  | ifElse _ _ _ _ _ _ ihc ihb ihes => exact (ihc.append ((ihb.same rfl).append ihes)).deeper
  | when_ _ _ _ _ _ _ ihus ihes => exact (ihus.append ihes).deeper
  | forLoop _ _ _ _ _ _ _ _ _ ihu ihb => exact ((ihu.same rfl).append (ihb.same rfl)).deeper
  | whileLoop _ _ _ _ ihc ihb => exact (ihc.append (ihb.same rfl)).deeper
  | lambda _ _ _ _ _ _ ihps ihus => exact .lambda rfl rfl ihps ihus

/-- A file that is read with `n` levels opens no more of them. -/
theorem nestsAll_of_readsFile (h : ReadsFile n s u s') : NestsAll n [u] := by
  obtain ⟨hps, his, hus⟩ := h
  have hdirectives : NestsAll n (_ ++ _) := (nestsAll_of_reads hps).append (nestsAll_of_reads his)
  exact (hdirectives.append (nestsAll_of_reads hus)).same rfl

/-! ## Places -/

namespace Location

variable {m : Nat} {x y : Place}

/-- The children of a node are left the levels that the node leaves them. -/
theorem exists_nests_children (h : Nests x.isInLiteral m x.tree) :
    ∃ m', m' + (if x.opensLevel then 1 else 0) ≤ m ∧
      ∀ y ∈ x.children, Nests y.isInLiteral m' y.tree := by
  obtain ⟨⟨a, us⟩, above⟩ := x
  have hflag : ∀ y ∈ (⟨.node a us, above⟩ : Place).children,
      y.isInLiteral = (a.kind == .functionLiteral) := fun y hy => by
    rw [isInLiteral, parent?_of_mem_children hy]
    rfl
  have htree : ∀ y ∈ (⟨.node a us, above⟩ : Place).children, y.tree ∈ us :=
    fun y => tree_mem_of_mem_children
  cases h with
  | same hk hus =>
    have hopens : opensLevel ⟨.node a us, above⟩ = false := by
      rw [opensLevel, Bool.and_eq_false_imp]
      intro ho
      obtain ⟨hin, hblock⟩ := hk ho
      have hkind : (⟨.node a us, above⟩ : Place).kind = .block := hblock
      rw [hin, hkind]
      rfl
    refine ⟨m, by rw [hopens]; rfl, fun y hy => ?_⟩
    rw [hflag y hy]
    exact hus _ (htree y hy)
  | deeper hus =>
    have hone : (if opensLevel ⟨.node a us, above⟩ then 1 else 0) ≤ 1 := by split <;> decide
    refine ⟨_, Nat.add_le_add_left hone _, fun y hy => ?_⟩
    rw [hflag y hy]
    exact hus _ (htree y hy)

theorem length_levels (x : Place) :
    x.levels.length = (x.ancestors.filter opensLevel).length + if x.opensLevel then 1 else 0 := by
  rw [levels, List.filter_cons]
  split <;> rfl

/-- From a node down that opens at most `m` levels, no path opens more. -/
theorem length_levels_le_of_nests {r : Place} (hr : r.above = []) (h : Nests false m r.tree)
    (hx : x ∈ r.walk) : x.levels.length ≤ m := by
  have hpath : ∃ m', Nests x.isInLiteral m' x.tree ∧
      (x.ancestors.filter opensLevel).length + m' ≤ m := by
    refine walk_induction (P := fun x => ∃ m', Nests x.isInLiteral m' x.tree ∧
      (x.ancestors.filter opensLevel).length + m' ≤ m) ?_ (fun x hx y hy => ?_) hx
    · obtain ⟨t, above⟩ := r
      subst hr
      exact ⟨m, h, Nat.le_of_eq (Nat.zero_add m)⟩
    · obtain ⟨m', hnests, hle⟩ := hx
      obtain ⟨m'', hle', hchildren⟩ := exists_nests_children hnests
      have hlevels := length_levels x
      rw [levels, ← ancestors_of_mem_children hy] at hlevels
      exact ⟨m'', hchildren y hy, by omega⟩
  obtain ⟨m', hnests, hle⟩ := hpath
  obtain ⟨m'', hle', -⟩ := exists_nests_children hnests
  rw [length_levels]
  omega

/-- On the path from the root of a source text to a node, at most `maxNesting` nodes open a level
    of nesting. -/
theorem length_levels_le {source : List Char} {d : Document} (h : Document.parse source = .ok d)
    (hx : x ∈ d.nodes) : x.levels.length ≤ maxNesting := by
  obtain ⟨tokens, u, s', -, hfile, rfl⟩ := exists_of_parse h
  have hnests := nestsAll_of_readsFile (readsFile_of_file hfile)
  exact length_levels_le_of_nests rfl (hnests u List.mem_cons_self) hx

/-- In `f{-(a)}` three nodes open a level around `a`: the lambda, the minus and the parentheses. -/
theorem length_levels_le_of_lambda : ∃ d, Document.parse "f{-(a)}".toList = .ok d ∧
    ∃ x ∈ d.nodes, x.levels.map kind = [.parenthesized, .leading .minus, .lambda] ∧
      x.levels.length ≤ maxNesting := by
  have hparse : (Document.parse "f{-(a)}".toList).toOption.any (fun d =>
      d.nodes.any fun x => x.levels.map kind == [.parenthesized, .leading .minus, .lambda]) := by
    decide +kernel
  obtain ⟨d, h, hp⟩ := exists_of_parse_any hparse
  obtain ⟨x, hx, hkinds⟩ := List.any_eq_true.1 hp
  exact ⟨d, h, x, hx, beq_iff_eq.1 hkinds, length_levels_le h hx⟩

end Location

end ResultHints
