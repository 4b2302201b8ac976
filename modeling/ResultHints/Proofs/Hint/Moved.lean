import ResultHints.Proofs.Hint.Rebroken
import ResultHints.Proofs.Hint.Respace

/-!
# Moving a base to another line

Put on a line of its own, the base of a statement with a label or annotations has the hint in
the place of the statement (`Document.OneShows`). Both end with the same token, and what lies
between them ends before, so that the hints of a text stay the same. Main statements:

- `alike_of_movesBase`: when the hints stay the same;
- `hints_differ_of_base`: when they do not.
-/

namespace ResultHints

open Location

namespace Document

variable {d d' : Document} {x x' y y' z : Place} {mode : ResolveMode} {o : Option Hint}
  {source source' : List Char}

/-! ## One hint of two nodes -/

/-- Of a statement and its base one shows what is told, and the other nothing. -/
def OneShows (d : Document) (mode : ResolveMode) (x y : Place) (o : Option Hint) : Prop :=
  (d.shown? mode x = o ∧ d.shown? mode y = none) ∨ (d.shown? mode x = none ∧ d.shown? mode y = o)

/-- What is shown of a node is shown behind its last lexeme. -/
theorem anchor_of_shown? (hd : d.Regular) (hx : x ∈ d.nodes) {a : Hint}
    (ha : d.shown? mode x = some a) : a.anchor = lexemesUpTo d.lexemes x.span.stop := by
  obtain ⟨b, hb, rfl⟩ := Option.map_eq_some_iff.1 ha
  obtain ⟨-, -, scope, -, -, -, -, label, -, rfl⟩ := (ownHint?_eq_some_iff hd hx).1 hb
  rfl

theorem eq_none_of_due? (hd : d.Regular) (hx : x ∈ d.nodes) (hno : d.due? x = none) :
    d.shown? mode x = none := by
  by_cases hboth : d.IsTarget x ∧ isDue mode x
  · rw [shown?_eq_due? hd hx hboth.1 hboth.2, hno]
  · exact shown?_eq_none hd hx hboth

section

variable (h : Document.parse source = .ok d) (hx : x ∈ d.nodes) (hstatement : x.isStatement)
  (hbase : x.base? = some y)
  (hboth : isResult x → (d.due? x).isSome → (d.IsFree x ↔ d.IsFree y ∧ isResult y))

include h hx hstatement hbase hboth

/-- A free result is shown to be one, or its base is. -/
theorem oneShows_due? (hfree : d.IsFree x) (hdue : isDue mode x) :
    d.OneShows mode x y (d.due? x) := by
  have hd := regular_of_parse h
  have hy := mem_walk_of_mem_children hx (mem_children_of_base? hbase)
  have hsame := due?_of_base? h hx hbase
  cases hhint : d.due? x with
  | none =>
    exact .inl ⟨eq_none_of_due? hd hx hhint, eq_none_of_due? hd hy (hsame.trans hhint)⟩
  | some a =>
    obtain ⟨hfreey, hresulty⟩ := (hboth hdue.2 (by rw [hhint]; rfl)).1 hfree
    have htarget := isTarget_iff_of_isStatement hstatement hbase (d := d)
    have htargety := isTarget_base_iff hd hx hbase
    cases hline : d.beginsLine y with
    | false =>
      refine .inl ⟨?_, shown?_eq_none hd hy fun ht => ?_⟩
      · rw [shown?_eq_due? hd hx (htarget.2 ⟨hfree, hline⟩) hdue, hhint]
      · simp [htargety, hline] at ht
    | true =>
      refine .inr ⟨shown?_eq_none hd hx fun ht => ?_, ?_⟩
      · simp [htarget, hline] at ht
      · rw [shown?_eq_due? hd hy (htargety.2 ⟨hfreey, hline⟩) ⟨hdue.1, hresulty⟩, hsame, hhint]

omit hstatement in
/-- Of what is no free result nothing is shown, nor of its base. -/
theorem oneShows_none (hno : ¬(d.IsFree x ∧ isDue mode x)) : d.OneShows mode x y none := by
  have hd := regular_of_parse h
  have hy := mem_walk_of_mem_children hx (mem_children_of_base? hbase)
  have hsame := due?_of_base? h hx hbase
  refine .inl ⟨shown?_eq_none hd hx fun ⟨htarget, hdue⟩ => ?_, ?_⟩
  · exact hno ⟨(isTarget_iff_isFree.1 htarget).1, hdue⟩
  · cases hhint : d.due? x with
    | none => exact eq_none_of_due? hd hy (hsame.trans hhint)
    | some a =>
      refine shown?_eq_none hd hy fun ⟨htarget, hdue⟩ => hno ?_
      have hresult := ((isResult_base_iff hd hx hbase).1 hdue.2).1
      have hfreey := ((isTarget_base_iff hd hx hbase).1 htarget).1
      exact ⟨(hboth hresult (by rw [hhint]; rfl)).2 ⟨hfreey, hdue.2⟩, hdue.1, hresult⟩

end

/-! ## All nodes -/

theorem exists_of_mem_right {α β : Type} {R : α → β → Prop} {as : List α} {bs : List β}
    (h : List.Forall₂ R as bs) {b : β} (hb : b ∈ bs) : ∃ a ∈ as, R a b := by
  induction h with
  | nil => cases hb
  | cons hab _ ih =>
    rcases List.mem_cons.1 hb with rfl | hb
    · exact ⟨_, List.mem_cons_self, hab⟩
    · obtain ⟨a, ha, hR⟩ := ih hb
      exact ⟨a, List.mem_cons_of_mem _ ha, hR⟩

theorem exists_of_forall₂_append {α β : Type} {R : α → β → Prop} {as bs : List α} {cs : List β}
    (h : List.Forall₂ R (as ++ bs) cs) :
    ∃ as' bs', cs = as' ++ bs' ∧ List.Forall₂ R as as' ∧ List.Forall₂ R bs bs' := by
  refine ⟨cs.take as.length, cs.drop as.length, (List.take_append_drop _ _).symm, ?_, ?_⟩
  · exact (List.forall₂_take_append _ _ _ h.flip).flip
  · exact (List.forall₂_drop_append _ _ _ h.flip).flip

/-- The nodes below the root are some nodes before a statement, the statement, those between it and
    its base, which end before the base does, the base, and some nodes behind it. -/
structure Splits (d : Document) (x y : Place) (xs ys zs : List Place) : Prop where
  descendants : d.root.descendants = xs ++ x :: (ys ++ y :: zs)
  between : ∀ z ∈ ys, lexemesUpTo d.lexemes z.span.stop < lexemesUpTo d.lexemes y.span.stop
  stop : lexemesUpTo d.lexemes x.span.stop = lexemesUpTo d.lexemes y.span.stop

theorem exists_splits (h : Document.parse source = .ok d) (hx : x ∈ d.nodes)
    (hbase : x.base? = some y) : ∃ xs ys zs, d.Splits x y xs ys zs := by
  have hd := regular_of_parse h
  have hne : x ≠ d.root := hd.ne_root fun hk => by simp [base?, hk] at hbase
  obtain ⟨xs, zs, hall⟩ := (walk_infix_descendants hx).resolve_left hne
  obtain ⟨es, hchildren, -⟩ := hd.children_of_base? hx hbase
  refine ⟨xs, es.flatMap walk, y.descendants ++ zs, ?_, fun z hz => ?_,
    lexemesUpTo_stop_of_base? h hx hbase⟩
  · rw [← hall, walk_eq x, descendants_eq_flatMap x, hchildren, List.flatMap_append,
      List.flatMap_singleton, walk_eq y]
    simp
  · -- What is between them is below other children, all of which end where the base begins.
    obtain ⟨e, he, hze⟩ := List.mem_flatMap.1 hz
    have hordered := hd.pairwise_children hx
    rw [hchildren, List.pairwise_append] at hordered
    have hmem : e ∈ x.children := by simp [hchildren, he]
    have hle := (hd.span_of_mem_walk (mem_walk_of_mem_children hx hmem) hze).2
    exact (lexemesUpTo_mono (hle.trans (hordered.2.2 e he y (List.mem_singleton_self y)))).trans_lt
      (lexemesUpTo_lt_of_delimited hd.ordered (hd.delimited_of_base? hx hbase))

theorem nodup_descendants (hd : d.Regular) : d.root.descendants.Nodup := by
  have hsub : d.root.descendants.Sublist d.nodes := by
    rw [nodes, walk_eq]
    exact List.sublist_cons_self _ _
  have hall := walk_sublist_allIn_nil (hd.mem_places (self_mem_walk d.root))
  exact (hd.hasDistinctIds.sublist ((hsub.trans hall).map _)).of_map _

theorem map_relabel_hints (hd : d.Regular) :
    (d.hints mode none).map (Hint.relabel (.counting d.lexemes)) =
      (d.root.descendants.filterMap (d.shown? mode)).mergeSort Hint.le := by
  have hbelow : d.root.descendants.filterMap (d.shown? mode) =
      (d.hintsBelow mode).map (Hint.relabel (.counting d.lexemes)) := by
    rw [hintsBelow, List.map_filterMap]
    rfl
  rw [hints_eq_hintsBelow hd, hbelow]
  refine List.map_mergeSort fun a ha b hb => ?_
  obtain ⟨t, ht, hstop⟩ := exists_lexeme_of_mem_hintsBelow hd ha
  rw [significant_eq] at ht
  obtain ⟨t, hlexeme, rfl⟩ := List.mem_map.1 ht
  have hle : lexemesUpTo d.lexemes a.anchor ≤ lexemesUpTo d.lexemes b.anchor ↔
      a.anchor ≤ b.anchor := hstop ▸ lexemesUpTo_le_iff hd.ordered hlexeme
  exact decide_eq_decide.2 hle.symm

/-- A hint is shown where a lexeme ends, as many lexemes as its number tells from the first. -/
theorem exists_lexeme_of_mem_hints (hd : d.Regular) {a : Hint} (ha : a ∈ d.hints mode none) :
    ∃ i t, d.significant[i]? = some t ∧ t.stop = a.anchor ∧
      lexemesUpTo d.lexemes a.anchor = i + 1 := by
  rw [hints_eq_hintsBelow hd, List.mem_mergeSort] at ha
  obtain ⟨t, ht, hstop⟩ := exists_lexeme_of_mem_hintsBelow hd ha
  rw [significant_eq] at ht ⊢
  obtain ⟨t, hlexeme, rfl⟩ := List.mem_map.1 ht
  obtain ⟨i, hi, hcount⟩ := exists_getElem?_lexemesUpTo_stop hd.ordered hlexeme
  exact ⟨i, t.toToken, by rw [List.getElem?_map, hi]; rfl, hstop, hstop ▸ hcount⟩

namespace Splits

variable {xs ys zs : List Place} (hsplits : d.Splits x y xs ys zs)

include hsplits

/-- No node comes twice. -/
theorem ne (hd : d.Regular) (hz : z ∈ xs ∨ z ∈ ys ∨ z ∈ zs) : z ≠ x ∧ z ≠ y := by
  have hnodup := nodup_descendants hd
  rw [hsplits.descendants] at hnodup
  grind

/-- The nodes of a document with the same tree are so too. -/
theorem exists_twins (hs : d.SameTree d') : ∃ x' y' xs' ys' zs', d'.Splits x' y' xs' ys' zs' ∧
    d.Twins d' x x' ∧ d.Twins d' y y' ∧ List.Forall₂ (d.Twins d') xs xs' ∧
      List.Forall₂ (d.Twins d') ys ys' ∧ List.Forall₂ (d.Twins d') zs zs' := by
  have htwins := hs.forall₂_descendants
  rw [hsplits.descendants] at htwins
  obtain ⟨xs', below, hall, hxs, hbelow⟩ := exists_of_forall₂_append htwins
  obtain ⟨x', below, hx, hrest, rfl⟩ := List.forall₂_cons_left_iff.1 hbelow
  obtain ⟨ys', behind, rfl, hys, hbehind⟩ := exists_of_forall₂_append hrest
  obtain ⟨y', zs', hy, hzs, rfl⟩ := List.forall₂_cons_left_iff.1 hbehind
  refine ⟨x', y', xs', ys', zs', ⟨hall, ?_, ?_⟩, hx, hy, hxs, hys, hzs⟩
  · intro z' hz'
    obtain ⟨z, hz, htwins⟩ := exists_of_mem_right hys hz'
    rw [htwins.stop, hy.stop]
    exact hsplits.between z hz
  · rw [hx.stop, hy.stop]
    exact hsplits.stop

/-- What is shown is the same whether the statement shows it or its base. -/
theorem map_relabel_hints (h : Document.parse source = .ok d) (hone : d.OneShows mode x y o) :
    (d.hints mode none).map (Hint.relabel (.counting d.lexemes)) =
      (xs.filterMap (d.shown? mode) ++ (ys.filterMap (d.shown? mode) ++
        (o.toList ++ zs.filterMap (d.shown? mode)))).mergeSort Hint.le := by
  have hd := regular_of_parse h
  have hnode {z : Place} (hz : z ∈ xs ++ x :: (ys ++ y :: zs)) : z ∈ d.nodes :=
    (mem_descendants hd (hsplits.descendants ▸ hz)).1
  rw [Document.map_relabel_hints hd, hsplits.descendants, List.filterMap_append,
    List.filterMap_cons, List.filterMap_append, List.filterMap_cons]
  refine mergeSort_append_congr Hint.le_trans Hint.le_total ?_ _
  obtain ⟨hshown, hno⟩ | ⟨hno, hshown⟩ := hone
  · rw [hshown, hno]
    cases o with
    | none => rfl
    | some a =>
      -- All that is shown between the statement and the base is shown before what they show.
      refine mergeSort_cons_append Hint.le_trans Hint.le_total (fun b hb => ?_) _
      obtain ⟨z, hz, hzb⟩ := List.mem_filterMap.1 hb
      have hlt := hsplits.between z hz
      rw [← hsplits.stop, ← anchor_of_shown? hd (hnode (by simp)) hshown,
        ← anchor_of_shown? hd (hnode (by simp [hz])) hzb] at hlt
      simp only [Hint.le, decide_eq_true_eq]
      omega
  · rw [hshown, hno]
    cases o <;> rfl

end Splits

/-! ## A base on a line of its own -/

/-- The label or the annotations `x` are a statement in no `if`. A line break may stand before their
    base `y` in one of the documents and not in the other; all else is the same. -/
structure MovesBase (d : Document) (x y : Place) (d' : Document) : Prop where
  mem : x ∈ d.nodes
  isStatement : x.isStatement
  base : x.base? = some y
  outside : ∀ z ∈ x.ancestors, z.kind ≠ .ifElse
  rebroken : d.Rebroken y.span.start d'

namespace MovesBase

variable {z' : Place} (h : Document.parse source = .ok d)
  (h' : Document.parse source' = .ok d') (hm : d.MovesBase x y d')

include h h' hm

theorem sameTree : d.SameTree d' := hm.rebroken.sameTree h h'

omit h h' in
theorem ancestors_ne {a : Place} (ha : a ∈ y.ancestors) : a.kind ≠ .ifElse := by
  rw [ancestors_of_mem_children (mem_children_of_base? hm.base), List.mem_cons] at ha
  rcases ha with rfl | ha
  · intro hk
    have hrole := role_of_wrapped? (wrapped?_of_base? hm.base)
    rw [hk] at hrole
    cases hrole
  · exact hm.outside a ha

variable (hz : d.Twins d' z z')

include hz

theorem isOneLine_eq (hk : z.kind = .ifElse) : d'.isOneLine z' = d.isOneLine z :=
  hm.rebroken.isOneLine_eq h h' hz hk fun hlt => (regular_of_parse h).stop_le_of_base? hm.mem
    hm.base (fun _ => hm.ancestors_ne) hz.mem hk hlt

/-- Whether a node is free does not depend on line breaks before the base. -/
theorem isFree_iff : d'.IsFree z' ↔ d.IsFree z := by
  have hs := hm.sameTree h h'
  have hexpression : z'.kind.isExpression = z.kind.isExpression := hz.apply_kind fun _ _ => rfl
  have hwhen : z'.kind = .when_ ↔ z.kind = .when_ := hz.kind_eq_iff nofun
  have hblock : z'.kind = .block ↔ z.kind = .block := hz.kind_eq_iff nofun
  have hif : z'.kind = .ifElse ↔ z.kind = .ifElse := hz.kind_eq_iff nofun
  have hline : (z'.kind = .ifElse → d'.isOneLine z') ↔ (z.kind = .ifElse → d.isOneLine z) := by
    rw [hif]
    exact forall_congr' fun hk => by rw [hm.isOneLine_eq h h' hz hk]
  have houtside : d'.isInsideOneLineIf z' = d.isInsideOneLineIf z := by
    have hifs := hz.nearest? hs (k := .ifElse) nofun nofun
    rw [isInsideOneLineIf, isInsideOneLineIf]
    generalize hnearest : z.nearest? (fun n => n.kind == .ifElse) = o at hifs
    generalize z'.nearest? (fun n => n.kind == .ifElse) = o' at hifs
    obtain ha | _ := hifs
    · exact hm.isOneLine_eq h h' ha (beq_iff_eq.1 (List.find?_some hnearest :))
    · rfl
  have hliteral := hz.literalObstacle? hs
  constructor
  · intro hfree
    exact ⟨hexpression ▸ hfree.isExpression, mt hwhen.2 hfree.ne_when, mt hblock.2 hfree.ne_block,
      hline.1 hfree.isOneLine, houtside ▸ hfree.outside, hliteral ▸ hfree.several⟩
  · intro hfree
    exact ⟨hexpression ▸ hfree.isExpression, mt hwhen.1 hfree.ne_when, mt hblock.1 hfree.ne_block,
      hline.2 hfree.isOneLine, houtside ▸ hfree.outside, hliteral ▸ hfree.several⟩

/-- Of all other nodes the same are targets. -/
theorem isTarget_iff (hstarts : d.SameStarts y.span.start d') (hx : z ≠ x) (hy : z ≠ y) : d'.IsTarget z' ↔ d.IsTarget z := by
  have hs := hm.sameTree h h'
  have hstart {p c c' : Place} (hp : p ∈ d.nodes) (hc : p.base? = some c) (hne : c ≠ y)
      (hcc : d.Twins d' c c') : d'.beginsLine c' = d.beginsLine c :=
    hm.rebroken.beginsLine_eq h h' hcc hstarts
      (hs.regular.start_ne_of_base? hm.mem hm.base hp hc hne)
  have hpart : d'.isStatementPart z' ↔ d.isStatementPart z := by
    rw [isStatementPart_iff_base? hs.regular hz.mem, isStatementPart_iff_base? hs.regular' hz.mem']
    constructor
    · rintro ⟨⟨p', hp', hbase'⟩, hline⟩
      obtain ⟨p, hp, hbase⟩ := hz.symm.exists_wrapper hs.symm hp' hbase'
      exact ⟨⟨p, hp, hbase⟩, hstart hp hbase hy hz ▸ hline⟩
    · rintro ⟨⟨p, hp, hbase⟩, hline⟩
      exact ⟨hz.exists_wrapper hs hp hbase, (hstart hp hbase hy hz).trans hline⟩
  have hwhole : d'.statementPart? z' = none ↔ d.statementPart? z = none := by
    rw [statementPart?_eq_none_iff, statementPart?_eq_none_iff]
    have hbases := hz.base? hs
    generalize hbase : z.base? = o at hbases
    generalize z'.base? = o' at hbases
    obtain hc | _ := hbases
    · have hne : ∀ c, z.base? = some c → c ≠ y := by
        rintro c hc rfl
        have hparent := parent?_of_mem_children (mem_children_of_base? hc)
        rw [parent?_of_mem_children (mem_children_of_base? hm.base)] at hparent
        exact hx (Option.some.inj hparent).symm
      simp [hstart hz.mem hbase (hne _ hbase) hc]
    · simp
  rw [isTarget_iff_isFree, isTarget_iff_isFree, hm.isFree_iff h h' hz, hz.isStatement hs, hpart,
    hwhole]

/-- What is shown of other nodes is the same. -/
theorem shown?_eq (hstarts : d.SameStarts y.span.start d') (hx : z ≠ x) (hy : z ≠ y) :
    d'.shown? mode z' = d.shown? mode z :=
  hz.shown?_eq (hm.sameTree h h') (hm.isTarget_iff h h' hz hstarts hx hy)

omit hz

theorem filterMap_shown? {zs zs' : List Place} (hstarts : d.SameStarts y.span.start d')
    (hzs : List.Forall₂ (d.Twins d') zs zs') (hne : ∀ z ∈ zs, z ≠ x ∧ z ≠ y) :
    zs'.filterMap (d'.shown? mode) = zs.filterMap (d.shown? mode) := by
  induction hzs with
  | nil => rfl
  | cons hz _ ih =>
    obtain ⟨⟨hx, hy⟩, hne⟩ := List.forall_mem_cons.1 hne
    rw [List.filterMap_cons, List.filterMap_cons, hm.shown?_eq h h' hz hstarts hx hy, ih hne]

section

variable (hx : d.Twins d' x x') (hy : d.Twins d' y y')

include hx hy

theorem base?_eq : x'.base? = some y' := by
  have hs := hm.sameTree h h'
  have hbases := hx.base? hs
  rw [hm.base] at hbases
  generalize hbase : x'.base? = o at hbases
  obtain hc | _ := hbases
  exact congrArg some (hs.regular'.eq_of_id_eq hc.mem' hy.mem' (hc.id.trans hy.id.symm))

/-- In both documents one of the statement and its base shows the same. -/
theorem exists_oneShows
    (hboth : isResult x → (d.due? x).isSome → (d.IsFree x ↔ d.IsFree y ∧ isResult y)) :
    ∃ o, d.OneShows mode x y o ∧ d'.OneShows mode x' y' o := by
  have hs := hm.sameTree h h'
  have hstatement : x'.isStatement := (hx.isStatement hs).trans hm.isStatement
  have hbase := hm.base?_eq h h' hx hy
  have hresult := hx.isResult hs
  have hdue : d'.due? x' = d.due? x := hx.hintOfResult? hs
  have hfree := hm.isFree_iff h h' hx
  have hboth' : isResult x' → (d'.due? x').isSome → (d'.IsFree x' ↔ d'.IsFree y' ∧ isResult y') := by
    rwa [hresult, hdue, hfree, hm.isFree_iff h h' hy, hy.isResult hs]
  by_cases hshows : d.IsFree x ∧ isDue mode x
  · refine ⟨d.due? x, oneShows_due? h hm.mem hm.isStatement hm.base hboth hshows.1 hshows.2, ?_⟩
    rw [← hdue]
    refine oneShows_due? h' hx.mem' hstatement hbase hboth' (hfree.2 hshows.1) ?_
    rw [isDue, hresult]
    exact hshows.2
  · refine ⟨none, oneShows_none h hm.mem hm.base hboth hshows,
      oneShows_none h' hx.mem' hbase hboth' ?_⟩
    rwa [hfree, isDue, hresult]

end

/-- The hints are the same, but for offsets: behind the same lexemes. -/
theorem map_relabel_hints_eq (hstarts : d.SameStarts y.span.start d')
    (hboth : isResult x → (d.due? x).isSome → (d.IsFree x ↔ d.IsFree y ∧ isResult y)) :
    (d'.hints mode none).map (Hint.relabel (.counting d'.lexemes)) =
      (d.hints mode none).map (Hint.relabel (.counting d.lexemes)) := by
  have hs := hm.sameTree h h'
  obtain ⟨xs, ys, zs, hsplits⟩ := exists_splits h hm.mem hm.base
  obtain ⟨x', y', xs', ys', zs', hsplits', hx, hy, hxs, hys, hzs⟩ := hsplits.exists_twins hs
  obtain ⟨o, hone, hone'⟩ := hm.exists_oneShows h h' hx hy hboth
  rw [hsplits.map_relabel_hints h hone, hsplits'.map_relabel_hints h' hone',
    hm.filterMap_shown? h h' hstarts hxs fun z hz => hsplits.ne hs.regular (.inl hz),
    hm.filterMap_shown? h h' hstarts hys fun z hz => hsplits.ne hs.regular (.inr (.inl hz)),
    hm.filterMap_shown? h h' hstarts hzs fun z hz => hsplits.ne hs.regular (.inr (.inr hz))]

/-- The hints show the same, about the same lambdas, behind the same lexemes. -/
theorem forall₂_hints (hstarts : d.SameStarts y.span.start d')
    (hboth : isResult x → (d.due? x).isSome → (d.IsFree x ↔ d.IsFree y ∧ isResult y)) :
    List.Forall₂ (Hint.Alike d.significant d'.significant) (d.hints mode none)
      (d'.hints mode none) := by
  have hs := hm.sameTree h h'
  have hmap : (d'.hints mode none).map (Hint.relabel (.counting d'.lexemes)) =
      (d.hints mode none).map (Hint.relabel (.counting d.lexemes)) :=
    hm.map_relabel_hints_eq h h' hstarts hboth
  rw [← List.forall₂_eq_eq_eq, List.forall₂_map_left_iff, List.forall₂_map_right_iff] at hmap
  obtain ⟨hlength, hzip⟩ := List.forall₂_iff_zip.1 hmap.flip
  refine List.forall₂_iff_zip.2 ⟨hlength, fun {a b} hab => ?_⟩
  have hsame : b.relabel (.counting d'.lexemes) = a.relabel (.counting d.lexemes) := hzip hab
  obtain ⟨ha, hb⟩ := List.of_mem_zip hab
  obtain ⟨i, t, ht, hstop, hi⟩ := exists_lexeme_of_mem_hints hs.regular ha
  obtain ⟨j, u, hu, hstop', hj⟩ := exists_lexeme_of_mem_hints hs.regular' hb
  have hcount : lexemesUpTo d'.lexemes b.anchor = lexemesUpTo d.lexemes a.anchor :=
    congrArg Hint.anchor hsame
  obtain rfl : i = j := by omega
  exact ⟨(congrArg Hint.display hsame :), (congrArg Hint.scope hsame :), i, t, u, ht, hu, hstop, hstop'⟩

end MovesBase

/-! ## Texts -/

variable {source source' : List Char}

/-- Let a statement with a label or annotations be in no `if`, and let its base begin a line in one
    of two texts and not in the other; let all else be the same. Then the same hints are shown of
    both, behind the same tokens. But if the statement is the result of a lambda with a label,
    the base has to be able to stand in for it if it is not the only statement, and only then. -/
theorem alike_of_movesBase (h : Document.parse source = .ok d) (h' : Document.parse source' = .ok d')
    (hm : d.MovesBase x y d') (hstarts : d.SameStarts y.span.start d')
    (hstand : isResult x → (hintOfResult? x).isSome → (d.MayStandIn y ↔ ¬x.IsSoleStatement)) :
    ∃ hints hints', analyzeSource ⟨true, .enclosing⟩ none source = .ok hints ∧
      analyzeSource ⟨true, .enclosing⟩ none source' = .ok hints' ∧
      List.Forall₂ (Hint.Alike d.significant d'.significant) hints hints' := by
  have hd := regular_of_parse h
  have houtside : d.isInsideOneLineIf x = false :=
    (isInsideOneLineIf_eq_false hd hm.mem).2 fun z hz hk => absurd hk (hm.outside z hz)
  refine ⟨_, _, analyzeSource_eq_ok rfl rfl h none, analyzeSource_eq_ok rfl rfl h' none,
    hm.forall₂_hints h h' hstarts fun hresult hdue => ?_⟩
  rw [isFree_iff_of_base? hd hm.mem hm.base houtside hresult,
    isFree_base_iff hd hm.mem hm.base houtside hresult]
  exact (hstand hresult (by rwa [due?, Option.isSome_map] at hdue)).symm

/-- From `f{a;l@ b}` to a `b` on a line of its own the hint goes from the label to `b`, and stays
    behind the same token. -/
theorem alike_of_movesBase_of_name : ∃ d d' x y hints hints',
    Document.parse "f\x7ba;l@ b\x7d".toList = .ok d ∧
      Document.parse "f\x7ba;l@\nb\x7d".toList = .ok d' ∧
      d.MovesBase x y d' ∧ d.SameStarts y.span.start d' ∧ isResult x ∧ (hintOfResult? x).isSome ∧
      d.MayStandIn y ∧ ¬x.IsSoleStatement ∧ d.obstacle? y ≠ none ∧
      analyzeSource ⟨true, .enclosing⟩ none "f\x7ba;l@ b\x7d".toList = .ok hints ∧
      analyzeSource ⟨true, .enclosing⟩ none "f\x7ba;l@\nb\x7d".toList = .ok hints' ∧
      List.Forall₂ (Hint.Alike d.significant d'.significant) hints hints' := by
  have hparse : (Document.parse "f\x7ba;l@ b\x7d".toList).toOption.any (fun d =>
      (Document.parse "f\x7ba;l@\nb\x7d".toList).toOption.any fun d' =>
        d.nodes.any fun x => x.isStatement && x.base?.any fun y =>
          (x.ancestors.all fun z => z.kind != .ifElse) && decide (d.Rebroken y.span.start d') &&
            decide (d.SameStarts y.span.start d') && isResult x && (hintOfResult? x).isSome &&
              y.kind == .nameReference "b" && literalObstacle? x == none &&
                d.obstacle? y != none) = true := by
    decide +kernel
  obtain ⟨d, h, hp⟩ := exists_of_parse_any hparse
  obtain ⟨d', h', hp⟩ := exists_of_parse_any hp
  simp only [List.any_eq_true, Option.any_eq_true, Bool.and_eq_true, List.all_eq_true, bne_iff_ne,
    beq_iff_eq, decide_eq_true_eq] at hp
  obtain ⟨x, hx, hstatement, y, hbase, ⟨⟨⟨⟨⟨⟨houtside, hrebroken⟩, hstarts⟩, hresult⟩, hlabel⟩, hk⟩,
    hsome⟩, hno⟩ := hp
  have hm : d.MovesBase x y d' := ⟨hx, hstatement, hbase, houtside, hrebroken⟩
  have hsole := ((literalObstacle?_eq_none_iff (regular_of_parse h) hx).1 hsome).2
  have hstand : d.MayStandIn y := ⟨by rw [isValueless, hk], by simp [hk], by simp [hk]⟩
  obtain ⟨hints, hints', hhints, hhints', halike⟩ :=
    alike_of_movesBase h h' hm hstarts fun _ _ => ⟨fun _ => hsole, fun _ => hstand⟩
  exact ⟨d, d', x, y, hints, hints', h, h', hm, hstarts, hresult, hlabel, hstand, hsole, hno, hhints,
    hhints', halike⟩

/-- In the two texts a line break stands before the base of one statement of a lambda or does not,
    and other hints are shown. -/
def HintsDiffer (source source' : List Char) : Prop :=
  ∃ d d' hints hints', Document.parse source = .ok d ∧ Document.parse source' = .ok d' ∧
    (∃ literal ∈ d.nodes, ∃ body, literal.body? = some body ∧
      ∃ x ∈ body.children, ∃ y, d.MovesBase x y d') ∧
    analyzeSource ⟨true, .enclosing⟩ none source = .ok hints ∧
    analyzeSource ⟨true, .enclosing⟩ none source' = .ok hints' ∧
    ¬List.Forall₂ (Hint.Alike d.significant d'.significant) hints hints'

theorem hintsDiffer_of_any (hparse : (Document.parse source).toOption.any (fun d =>
    (Document.parse source').toOption.any fun d' =>
      (d.nodes.any fun literal => literal.body?.any fun body => body.children.any fun x =>
        x.isStatement && x.base?.any fun y => (x.ancestors.all fun z => z.kind != .ifElse) &&
          decide (d.Rebroken y.span.start d')) &&
        (d.hintsBelow .enclosing).length != (d'.hintsBelow .enclosing).length) = true) :
    HintsDiffer source source' := by
  obtain ⟨d, h, hp⟩ := exists_of_parse_any hparse
  obtain ⟨d', h', hp⟩ := exists_of_parse_any hp
  simp only [List.any_eq_true, Option.any_eq_true, Bool.and_eq_true, List.all_eq_true, bne_iff_ne,
    decide_eq_true_eq] at hp
  obtain ⟨⟨literal, hl, body, hbody, x, hx, hstatement, y, hbase, houtside, hrebroken⟩, hlength⟩ := hp
  have hnode := mem_walk_of_mem_children (mem_walk_of_mem_children hl (body?_eq_some hbody).2.1) hx
  refine ⟨d, d', _, _, h, h',
    ⟨literal, hl, body, hbody, x, hx, y, hnode, hstatement, hbase, houtside, hrebroken⟩,
    analyzeSource_eq_ok rfl rfl h none, analyzeSource_eq_ok rfl rfl h' none,
    fun hall => hlength ?_⟩
  have hlengths := hall.length_eq
  rwa [hints_eq_hintsBelow (regular_of_parse h), hints_eq_hintsBelow (regular_of_parse h'),
    List.length_mergeSort, List.length_mergeSort] at hlengths

/-- Moving a base changes the hints of a lambda with one statement only, and where the base cannot
    stand in for the statement: a `return`, a `when`, an `if` of several lines. It does as well
    where white space and a comment before another base change places. -/
theorem hints_differ_of_base : HintsDiffer "f\x7bl@ x\x7d".toList "f\x7bl@\nx\x7d".toList ∧
    HintsDiffer "f\x7ba;l@ return\x7d".toList "f\x7ba;l@\nreturn\x7d".toList ∧
    HintsDiffer "f\x7ba;l@ when\x7belse->b\x7d\x7d".toList
      "f\x7ba;l@\nwhen\x7belse->b\x7d\x7d".toList ∧
    HintsDiffer "f\x7ba;l@ if(b)c\nelse e\x7d".toList "f\x7ba;l@\nif(b)c\nelse e\x7d".toList ∧
    HintsDiffer "f\x7ba;l@ m@/**/\nb\x7d".toList "f\x7ba;l@\nm@\n/**/b\x7d".toList := by
  refine ⟨?_, ?_, ?_, ?_, ?_⟩ <;> exact hintsDiffer_of_any (by decide +kernel)

end Document

end ResultHints
