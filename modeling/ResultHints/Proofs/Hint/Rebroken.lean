import ResultHints.Proofs.Document.Twin
import ResultHints.Proofs.Flow.Wrapper
import ResultHints.Proofs.Hint.Chain
import ResultHints.Proofs.Hint.Part

/-!
# Other line breaks

Texts with the same tokens and the same tree may still have other line breaks
(`Document.Rebroken`). All that is looked for to find a hint is the same in both, but for which
bases begin a line. Main statements:

- `Rebroken.isOneLine_eq`, `Rebroken.beginsLine_eq`: the lines of nodes are told by the line
  breaks before lexemes;
- `isTarget_iff_isFree`: what is left for a target besides bases that begin lines;
- `isFree_iff_of_base?`, `isFree_base_iff`: when a statement and when its base is free.
-/

namespace ResultHints

open Location Relation

namespace Document

variable {d d' : Document} {x x' y y' : Place} {mode : ResolveMode}

/-! ## Pairs of nodes -/

namespace Twins

/-- Nodes that are found in the same way from twins are twins. -/
theorem of_map_count {o o' : Option Place} (h : o'.map d'.count = o.map d.count)
    (ho : ∀ y ∈ o, y ∈ d.nodes ∧ y ≠ d.root) (ho' : ∀ y ∈ o', y ∈ d'.nodes ∧ y ≠ d'.root) :
    Option.Rel (d.Twins d') o o' := by
  cases o with
  | none => cases o' with
    | none => exact .none
    | some => cases h
  | some y => cases o' with
    | none => cases h
    | some y' =>
      obtain ⟨hy, hne⟩ := ho y rfl
      obtain ⟨hy', hne'⟩ := ho' y' rfl
      exact .some ⟨hy, hy', hne, hne', Option.some.inj h⟩

variable (hs : d.SameTree d') (h : d.Twins d' x x')

include hs h

theorem base? : Option.Rel (d.Twins d') x.base? x'.base? := by
  have hx : (d.count x).base? = x.base?.map d.count :=
    base?_inside (Regular.above_ne_nil h.mem h.ne)
  have hx' : (d'.count x').base? = x'.base?.map d'.count :=
    base?_inside (Regular.above_ne_nil h.mem' h.ne')
  refine of_map_count (by rw [← hx, ← hx', h.count]) (fun y hy => ?_) fun y hy => ?_
  · have hmem := mem_children_of_base? hy
    exact ⟨mem_walk_of_mem_children h.mem hmem, hs.regular.child_ne_root hmem⟩
  · have hmem := mem_children_of_base? hy
    exact ⟨mem_walk_of_mem_children h.mem' hmem, hs.regular'.child_ne_root hmem⟩

theorem nearest? {k : NodeKind} (hk : k ≠ .file) (htype : ∀ s, k ≠ .typeReference s) :
    Option.Rel (d.Twins d') (x.nearest? fun n => n.kind == k)
      (x'.nearest? fun n => n.kind == k) := by
  have hx : (d.count x).nearest? (fun n => n.kind == k) =
      (x.nearest? fun n => n.kind == k).map d.count :=
    nearest?_inside htype hs.regular (kind_counted hs.regular) h.mem
  have hx' : (d'.count x').nearest? (fun n => n.kind == k) =
      (x'.nearest? fun n => n.kind == k).map d'.count :=
    nearest?_inside htype hs.regular' (kind_counted hs.regular') h.mem'
  refine of_map_count (by rw [← hx, ← hx', h.count]) (fun y hy => ?_) fun y hy => ?_
  · exact hs.regular.mem_of_nearest? h.mem hy hk
  · exact hs.regular'.mem_of_nearest? h.mem' hy hk

theorem exists_wrapper {p : Place} (hp : p ∈ d.nodes) (hx : p.base? = some x) :
    ∃ p' ∈ d'.nodes, p'.base? = some x' := by
  have hparent : (d.count x).parent? = some (d.count p) := by
    have hinside : (d.count x).parent? = x.parent?.map d.count := parent?_inside x
    rw [hinside, parent?_of_mem_children (mem_children_of_base? hx), Option.map_some]
  have hparent' : (d'.count x').parent? = x'.parent?.map d'.count := parent?_inside x'
  rw [h.count, hparent] at hparent'
  obtain ⟨p', hp', hcount⟩ := Option.map_eq_some_iff.1 hparent'.symm
  have hpmem' := hs.regular'.mem_of_parent? h.mem' hp'
  have hfile : p.kind ≠ .file := by
    intro hk
    rw [Location.base?, hk] at hx
    cases hx
  have hfile' : p'.kind ≠ .file := by
    intro hk
    have huntyped := congrArg Location.kind hcount
    rw [kind_count hs.regular hp, kind_count hs.regular' hpmem', hk] at huntyped
    obtain hk' | ⟨s, s', -, hk'⟩ := NodeKind.eq_or_typeReference huntyped
    · exact hfile hk'.symm
    · cases hk'
  have hwrappers : d.Twins d' p p' :=
    ⟨hp, hpmem', hs.regular.ne_root hfile, hs.regular'.ne_root hfile', hcount⟩
  have hbases := hwrappers.base? hs
  rw [hx] at hbases
  generalize hbase : p'.base? = o at hbases
  obtain hy | _ := hbases
  refine ⟨p', hpmem', hbase.trans (congrArg some ?_)⟩
  exact hs.regular'.eq_of_id_eq hy.mem' h.mem' (hy.id.trans h.id.symm)

theorem isStatement : x'.isStatement = x.isStatement := by
  have hx : (d.count x).isStatement = x.isStatement :=
    isStatement_inside hs.regular (kind_counted hs.regular) h.mem
  have hx' : (d'.count x').isStatement = x'.isStatement :=
    isStatement_inside hs.regular' (kind_counted hs.regular') h.mem'
  rw [← hx, ← hx', h.count]

theorem literalObstacle? : literalObstacle? x' = literalObstacle? x := by
  have hx : Document.literalObstacle? (d.count x) = Document.literalObstacle? x :=
    literalObstacle?_inside hs.regular (kind_counted hs.regular) h.mem h.ne
  have hx' : Document.literalObstacle? (d'.count x') = Document.literalObstacle? x' :=
    literalObstacle?_inside hs.regular' (kind_counted hs.regular') h.mem' h.ne'
  rw [← hx, ← hx', h.count]

theorem isResult : isResult x' = isResult x := by
  have hx : Document.isResult (d.count x) = Document.isResult x :=
    isResult_inside hs.regular (kind_counted hs.regular) h.mem h.ne
  have hx' : Document.isResult (d'.count x') = Document.isResult x' :=
    isResult_inside hs.regular' (kind_counted hs.regular') h.mem' h.ne'
  rw [← hx, ← hx', h.count]

/-- The hints are the same, but for offsets: behind the same lexeme. -/
theorem hintOfResult? : (hintOfResult? x').map (Hint.relabel (.counting d'.lexemes)) =
    (hintOfResult? x).map (Hint.relabel (.counting d.lexemes)) := by
  have hx : Document.hintOfResult? (d.count x) =
      (Document.hintOfResult? x).map (Hint.relabel (.counting d.lexemes)) :=
    hintOfResult?_inside hs.regular (kind_counted hs.regular) h.mem h.ne
  have hx' : Document.hintOfResult? (d'.count x') =
      (Document.hintOfResult? x').map (Hint.relabel (.counting d'.lexemes)) :=
    hintOfResult?_inside hs.regular' (kind_counted hs.regular') h.mem' h.ne'
  rw [← hx, ← hx', h.count]

end Twins

/-! ## Other line breaks -/

/-- A lexeme begins on a line of its own: white space with a line break stands right before it. -/
def startsLine (d : Document) (t : Lexeme) : Bool :=
  (d.triviaBefore? t.start).any (·.isBlankBreak)

/-- The lexemes are the same, and a line break stands before both or before none, unless the first
    one begins at `n`. -/
structure SameLexeme (n : Nat) (t t' : Lexeme) : Prop where
  kind : t'.kind = t.kind
  text : t'.text = t.text
  afterBreak : t.start ≠ n → t'.afterBreak = t.afterBreak

/-- The documents have the same tree, but for spans and the texts of types, and the same lexemes.
    Line breaks only differ before the lexeme that begins at `n`. -/
structure Rebroken (n : Nat) (d d' : Document) : Prop where
  tree : d'.root.tree.map Node.bare = d.root.tree.map Node.bare
  lexemes : List.Forall₂ (SameLexeme n) d.lexemes d'.lexemes

/-- The same lexemes begin a line, but for the one at `n`. -/
def SameStarts (n : Nat) (d d' : Document) : Prop :=
  List.Forall₂ (fun t t' => t.start ≠ n → d'.startsLine t' = d.startsLine t) d.lexemes d'.lexemes

instance (n : Nat) (t t' : Lexeme) : Decidable (SameLexeme n t t') :=
  decidable_of_iff (t'.kind = t.kind ∧ t'.text = t.text ∧
    (t.start ≠ n → t'.afterBreak = t.afterBreak))
    ⟨fun ⟨hk, htext, hbreak⟩ => ⟨hk, htext, hbreak⟩, fun h => ⟨h.kind, h.text, h.afterBreak⟩⟩

instance {α β : Type} {R : α → β → Prop} [∀ a b, Decidable (R a b)] (as : List α) (bs : List β) :
    Decidable (List.Forall₂ R as bs) :=
  decidable_of_iff (as.length = bs.length ∧ ∀ p ∈ as.zip bs, R p.1 p.2) <| by
    rw [List.forall₂_iff_zip, Prod.forall]

instance (n : Nat) (d d' : Document) : Decidable (d.Rebroken n d') :=
  decidable_of_iff (d'.root.tree.map Node.bare = d.root.tree.map Node.bare ∧
    List.Forall₂ (SameLexeme n) d.lexemes d'.lexemes)
    ⟨fun ⟨htree, hlexemes⟩ => ⟨htree, hlexemes⟩, fun h => ⟨h.tree, h.lexemes⟩⟩

instance (n : Nat) (d d' : Document) : Decidable (d.SameStarts n d') :=
  inferInstanceAs (Decidable (List.Forall₂ _ _ _))

theorem getElem?_of_forall₂ {α β : Type} {R : α → β → Prop} {as : List α} {bs : List β} {i : Nat}
    {a : α} {b : β} (h : List.Forall₂ R as bs) (ha : as[i]? = some a) (hb : bs[i]? = some b) :
    R a b := by
  obtain ⟨hi, rfl⟩ := List.getElem?_eq_some_iff.1 ha
  obtain ⟨hi', rfl⟩ := List.getElem?_eq_some_iff.1 hb
  exact (List.forall₂_iff_get.1 h).2 i hi hi'

namespace Rebroken

variable {source source' : List Char} {n : Nat} (h : Document.parse source = .ok d)
  (h' : Document.parse source' = .ok d') (hr : d.Rebroken n d')

include h h' hr

theorem sameTree : d.SameTree d' where
  regular := regular_of_parse h
  regular' := regular_of_parse h'
  counted := by
    refine counted_eq h h' ?_ hr.tree
    rw [← List.forall₂_eq_eq_eq, kinds, kinds, List.forall₂_map_left_iff, List.forall₂_map_right_iff]
    exact (hr.lexemes.imp fun _ _ ht => ht.kind).flip

variable (hx : d.Twins d' x x')

include hx

/-- White space with a line break stands before both twins or before none. -/
theorem beginsLine_eq (hstarts : d.SameStarts n d') (hn : x.span.start ≠ n) :
    d'.beginsLine x' = d.beginsLine x := by
  have hs := hr.sameTree h h'
  obtain ⟨t, ht, hstart⟩ := hs.regular.exists_lexeme hx.mem hx.ne
  obtain ⟨t', ht', hstart'⟩ := hs.regular'.exists_lexeme hx.mem' hx.ne'
  rw [hx.start] at ht'
  have hline := getElem?_of_forall₂ hstarts ht ht' (hstart ▸ hn)
  rwa [startsLine, startsLine, hstart, hstart'] at hline

/-- Both twins are on one line or none. -/
theorem isOneLine_eq (hk : x.kind = .ifElse) (hn : x.span.start < n → x.span.stop ≤ n) :
    d'.isOneLine x' = d.isOneLine x := by
  have hs := hr.sameTree h h'
  have hne : x.kind ≠ .block := by simp [hk]
  have hne' : x'.kind ≠ .block := by
    have hblock : (x'.kind == .block) = (x.kind == .block) :=
      hx.apply_kind (F := (· == .block)) fun _ _ => rfl
    rwa [← beq_eq_false_iff_ne, hblock, beq_eq_false_iff_ne]
  have hdelimited := hs.regular.delimited hx.mem hx.ne hne
  have hin : List.Forall₂ (SameLexeme n) (lexemesIn d.lexemes x.span)
      (lexemesIn d'.lexemes x'.span) := by
    rw [lexemesIn, lexemesIn, hx.start, hx.stop]
    exact List.forall₂_drop _ (List.forall₂_take _ hr.lexemes)
  have htail : ∀ t ∈ (lexemesIn d.lexemes x.span).tail, t.start ≠ n := by
    obtain ⟨t, M, hcovered, -, hM⟩ := exists_lexemesIn hs.regular.ordered hdelimited
    rw [hcovered, List.tail_cons]
    rintro u hu rfl
    obtain ⟨-, hlt, hlt'⟩ := hM u hu
    exact absurd (hn hlt) (Nat.not_le.2 hlt')
  rw [ResultHints.isOneLine_eq h hdelimited,
    ResultHints.isOneLine_eq h' (hs.regular'.delimited hx.mem' hx.ne' hne'),
    breaksIn_congr (hin.imp fun _ _ ht => ⟨ht.text, ht.afterBreak⟩) htail]

end Rebroken

/-! ## Nodes that other nodes do not keep from a hint -/

/-- Nothing stands in the way of a hint behind the node but the lines that bases begin. -/
structure IsFree (d : Document) (x : Place) : Prop where
  isExpression : x.kind.isExpression
  ne_when : x.kind ≠ .when_
  ne_block : x.kind ≠ .block
  isOneLine : x.kind = .ifElse → d.isOneLine x
  outside : d.isInsideOneLineIf x = false
  several : literalObstacle? x = none

theorem isTarget_iff_isFree : d.IsTarget x ↔ d.IsFree x ∧
    (x.isStatement = false → d.isStatementPart x) ∧
    (x.isStatement → d.statementPart? x = none) :=
  ⟨fun h => ⟨⟨h.isExpression, h.ne_when, h.ne_block, h.isOneLine, h.outside, h.several⟩, h.part,
    h.whole⟩, fun ⟨h, hpart, hwhole⟩ => ⟨h.isExpression, h.ne_when, h.ne_block, h.isOneLine,
    h.outside, hpart, hwhole, h.several⟩⟩

/-- A part is a base that begins a line. -/
theorem isStatementPart_iff_base? (hd : d.Regular) (hx : x ∈ d.nodes) :
    d.isStatementPart x ↔ (∃ p ∈ d.nodes, p.base? = some x) ∧ d.beginsLine x := by
  constructor
  · intro hpart
    have hne : x ≠ d.root := by
      rintro rfl
      rw [isStatementPart, parent?, ancestors, hd.above] at hpart
      cases hpart
    obtain ⟨p, hp, hxp⟩ := Regular.exists_parent_of_ne hx hne
    obtain ⟨hbase, hline⟩ := statementPart?_eq_some.1 ((isStatementPart_iff hd hp hxp).1 hpart)
    exact ⟨⟨p, hp, hbase⟩, hline⟩
  · rintro ⟨⟨p, hp, hbase⟩, hline⟩
    exact (isStatementPart_iff hd hp (mem_children_of_base? hbase)).2
      (statementPart?_eq_some.2 ⟨hbase, hline⟩)

/-- A node has no part if its base does not begin a line. -/
theorem statementPart?_eq_none_iff : d.statementPart? x = none ↔
    ∀ y, x.base? = some y → d.beginsLine y = false := by
  simp [statementPart?, Option.filter_eq_none_iff]

/-! ## Hints by lexemes -/

/-- The hint of a node, by the number of the lexeme that it stands behind. -/
def shown? (d : Document) (mode : ResolveMode) (x : Place) : Option Hint :=
  (d.ownHint? mode x).map (Hint.relabel (.counting d.lexemes))

/-- The hint that a result has if nothing stands in its way. -/
def due? (d : Document) (x : Place) : Option Hint :=
  (hintOfResult? x).map (Hint.relabel (.counting d.lexemes))

/-- Whether a node is to have a hint if nothing stands in its way. -/
def isDue (mode : ResolveMode) (x : Place) : Prop := mode.includesFlow ∧ isResult x

theorem ownHint?_eq_hintOfResult? (hd : d.Regular) (hx : x ∈ d.nodes) : d.ownHint? mode x =
    if d.obstacle? x = none ∧ mode.includesFlow ∧ isResult x then hintOfResult? x else none := by
  rw [ownHint?, (run_hintAt? hd Analyzer.faithful_empty hx mode).1]
  cases d.obstacle? x with
  | some => simp
  | none =>
    simp only [get?_factsOf_iff hd hx, true_and]
    rfl

theorem shown?_eq_due? (hd : d.Regular) (hx : x ∈ d.nodes) (htarget : d.IsTarget x)
    (hdue : isDue mode x) : d.shown? mode x = d.due? x := by
  rw [shown?, ownHint?_eq_hintOfResult? hd hx, if_pos ⟨obstacle?_eq_none.2 htarget, hdue⟩, due?]

theorem shown?_eq_none (hd : d.Regular) (hx : x ∈ d.nodes)
    (h : ¬(d.IsTarget x ∧ isDue mode x)) : d.shown? mode x = none := by
  rw [shown?, ownHint?_eq_hintOfResult? hd hx, if_neg fun ⟨hno, hdue⟩ => h ⟨obstacle?_eq_none.1 hno, hdue⟩]
  rfl

/-- What is shown of twins that both are targets, or both none, is the same. -/
theorem Twins.shown?_eq (hs : d.SameTree d') (h : d.Twins d' x x')
    (htarget : d'.IsTarget x' ↔ d.IsTarget x) : d'.shown? mode x' = d.shown? mode x := by
  have hdue : isDue mode x' ↔ isDue mode x := by
    rw [isDue, isDue, h.isResult hs]
  by_cases hboth : d.IsTarget x ∧ isDue mode x
  · rw [shown?_eq_due? hs.regular h.mem hboth.1 hboth.2,
      shown?_eq_due? hs.regular' h.mem' (htarget.2 hboth.1) (hdue.2 hboth.2)]
    exact h.hintOfResult? hs
  · rw [shown?_eq_none hs.regular h.mem hboth,
      shown?_eq_none hs.regular' h.mem' (by rwa [htarget, hdue])]

/-! ## A statement and its base -/

/-- A base and what stands before it would have the same hint. -/
theorem due?_of_base? {source : List Char} (h : Document.parse source = .ok d) (hx : x ∈ d.nodes)
    (hbase : x.base? = some y) : d.due? y = d.due? x := by
  have hnearest := nearest?_of_base? (k := .lambda) hbase (by decide)
  rw [due?, due?, Document.hintOfResult?, Document.hintOfResult?, hnearest]
  cases x.nearest? fun n => n.kind == .lambda with
  | none => rfl
  | some scope =>
    cases hlabel : scope.lambdaLabel? with
    | none => simp [hlabel]
    | some label =>
      simp [hlabel, Hint.ofLabel, Hint.relabel, Relabeling.counting,
        lexemesUpTo_stop_of_base? h hx hbase]

/-- Only expressions are results. -/
theorem isExpression_of_isResult (hd : d.Regular) (hx : x ∈ d.nodes) (h : isResult x) :
    x.kind.isExpression := by
  obtain ⟨literal, hliteral, hmem⟩ := (Option.any_eq_true _ _).1 h
  obtain ⟨hl, -⟩ := hd.mem_of_nearest? hx hliteral (by nofun)
  obtain ⟨-, -, -, hyields⟩ := (mem_results_iff hd hl hx).1 (List.contains_iff_mem.1 hmem)
  exact isExpression_of_yields hyields

/-- A base is a result just if what stands before it is, and it has a value. -/
theorem isResult_base_iff (hd : d.Regular) (hx : x ∈ d.nodes) (hbase : x.base? = some y) :
    isResult y ↔ isResult x ∧ y.isValueless = false := by
  have hwrapped := wrapped?_of_base? hbase
  have hy := mem_walk_of_mem_children hx (mem_children_of_base? hbase)
  rw [isResult, isResult, nearest?_of_base? hbase (by decide)]
  cases hliteral : x.nearest? fun n => n.kind == .functionLiteral with
  | none => simp
  | some literal =>
    obtain ⟨hl, -⟩ := hd.mem_of_nearest? hx hliteral (by simp)
    obtain ⟨body, hbody⟩ := hd.exists_body hl (beq_iff_eq.1 (List.find?_some hliteral :))
    simp only [Option.any_some, List.contains_iff_mem]
    -- The only way to the base is by what stands before it.
    have hpath (hy' : TransGen ResultStep body y) : TransGen ResultStep body x := by
      obtain ⟨w, hbw, hstep⟩ := TransGen.tail'_iff.1 hy'
      obtain rfl := hstep.eq_of_wrapped? hwrapped
      refine (reflTransGen_iff_eq_or_transGen.1 hbw).resolve_left ?_
      rintro rfl
      have hrole := role_of_wrapped? hwrapped
      rw [(body?_eq_some hbody).2.2] at hrole
      cases hrole
    constructor
    · intro hmem
      obtain ⟨body', hbody', hy', -⟩ := (mem_results_iff hd hl hy).1 hmem
      obtain rfl := Option.some.inj (hbody.symm.trans hbody')
      exact (wrapped_mem_results hd hl hbody (hpath hy') hwrapped).1 hmem
    · intro hmem
      obtain ⟨body', hbody', hx', -⟩ := (mem_results_iff hd hl hx).1 hmem.1
      obtain rfl := Option.some.inj (hbody.symm.trans hbody')
      exact (wrapped_mem_results hd hl hbody hx' hwrapped).2 hmem

/-- A statement is a target if it is free and its base does not begin a line. -/
theorem isTarget_iff_of_isStatement (hstatement : x.isStatement) (hbase : x.base? = some y) :
    d.IsTarget x ↔ d.IsFree x ∧ d.beginsLine y = false := by
  rw [isTarget_iff_isFree, statementPart?_eq_none_iff, hbase]
  simp [hstatement]

/-- A base is a target if it is free and begins a line. -/
theorem isTarget_base_iff (hd : d.Regular) (hx : x ∈ d.nodes) (hbase : x.base? = some y) :
    d.IsTarget y ↔ d.IsFree y ∧ d.beginsLine y := by
  have hy := mem_walk_of_mem_children hx (mem_children_of_base? hbase)
  have hwrapper : ∃ p ∈ d.nodes, p.base? = some y := ⟨x, hx, hbase⟩
  rw [isTarget_iff_isFree, isStatementPart_iff_base? hd hy]
  simp [isStatement_of_wrapped (wrapped?_of_base? hbase), hwrapper]

/-- What a label or annotations stand around can have a hint in their place: it has a value, and it
    is no `when` and no `if` of several lines. -/
structure MayStandIn (d : Document) (y : Place) : Prop where
  value : y.isValueless = false
  ne_when : y.kind ≠ .when_
  isOneLine : y.kind = .ifElse → d.isOneLine y

section

variable (hd : d.Regular) (hx : x ∈ d.nodes) (hbase : x.base? = some y)
  (houtside : d.isInsideOneLineIf x = false) (hresult : isResult x)

include hd hx hbase houtside hresult

/-- A label or annotations that are a result are free unless they are the only statement. -/
theorem isFree_iff_of_base? : d.IsFree x ↔ ¬x.IsSoleStatement := by
  have hliteral : (x.nearest? fun n => n.kind == .functionLiteral).isSome :=
    Option.isSome_of_any hresult
  have hsimple := NodeKind.isSimple_of_wrapper (role_of_wrapped? (wrapped?_of_base? hbase))
  simp only [NodeKind.isSimple, Bool.and_eq_true, bne_iff_ne] at hsimple
  obtain ⟨⟨⟨hexpression, hblock⟩, hif⟩, hwhen⟩ := hsimple
  constructor
  · exact fun hfree => ((literalObstacle?_eq_none_iff hd hx).1 hfree.several).2
  · intro hsole
    exact ⟨hexpression, hwhen, hblock, fun hk => absurd hk hif, houtside,
      (literalObstacle?_eq_none_iff hd hx).2 ⟨hliteral, hsole⟩⟩

/-- The base of a result is a free result itself just if it may stand in. -/
theorem isFree_base_iff : d.IsFree y ∧ isResult y ↔ d.MayStandIn y := by
  have hliteral : (x.nearest? fun n => n.kind == .functionLiteral).isSome :=
    Option.isSome_of_any hresult
  have hy := mem_walk_of_mem_children hx (mem_children_of_base? hbase)
  rw [isResult_base_iff hd hx hbase, and_iff_right hresult]
  constructor
  · exact fun ⟨hfree, hvalue⟩ => ⟨hvalue, hfree.ne_when, hfree.isOneLine⟩
  · intro hstand
    have hresult' := (isResult_base_iff hd hx hbase).2 ⟨hresult, hstand.value⟩
    have hstatement := hd.isStatement_of_base? hx hbase
    refine ⟨⟨isExpression_of_isResult hd hy hresult', hstand.ne_when, ?_, hstand.isOneLine, ?_, ?_⟩,
      hstand.value⟩
    · intro hk
      rw [hk] at hstatement
      cases hstatement
    · rw [isInsideOneLineIf, nearest?_of_base? hbase (by decide)]
      exact houtside
    · rw [literalObstacle?_eq_none_iff hd hy, nearest?_of_base? hbase (by decide)]
      exact ⟨hliteral, not_isSoleStatement_of_base? hd hx hbase⟩

end

end Document

end ResultHints
