import ResultHints.Proofs.Hint.Own

/-!
# Hints in a range

Hints may be asked for in a range only. The walk then leaves out every node that does not
overlap the range, with all that is below it; as nodes lie inside the nodes above them,
nothing that overlaps is lost on the way. Main statement:

- `hints_in_range`: the hints in a range are those of the expressions that overlap it, and
  come in the order they have without a range.
-/

namespace ResultHints

open Location

/-! ## Sorting -/

section

variable {α : Type} {le : α → α → Bool} (htrans : ∀ a b c, le a b → le b c → le a c)
  (htotal : ∀ a b, le a b || le b a)

include htrans htotal

/-- What is put in front of a list goes, after sorting, behind all that it is not to stand
    before. -/
theorem mergeSort_cons_eq (a : α) (l : List α) : (a :: l).mergeSort le =
    (l.mergeSort le).filter (fun b => !le a b) ++
      a :: (l.mergeSort le).filter (fun b => le a b) := by
  obtain ⟨l₁, l₂, hcons, hrest, hbefore⟩ := List.mergeSort_cons htrans htotal a l
  have hsorted := List.pairwise_mergeSort htrans htotal (a :: l)
  rw [hcons, List.pairwise_append] at hsorted
  have hafter := (List.pairwise_cons.1 hsorted.2.1).1
  rw [hcons, hrest, List.filter_append, List.filter_append, List.filter_eq_self.2 hbefore,
    List.filter_eq_nil_iff.2 (fun b hb => by simp [hafter b hb]), List.append_nil,
    List.filter_eq_nil_iff.2 (fun b hb => by simpa using hbefore b hb), List.nil_append,
    List.filter_eq_self.2 hafter]

/-- Of two things in front of a list, one of which is to stand before the other, it does not matter
    which one comes first. -/
theorem mergeSort_swap {a b : α} (hba : le b a) (hab : ¬le a b) (l : List α) :
    (a :: b :: l).mergeSort le = (b :: a :: l).mergeSort le := by
  -- What `a` is to stand before, `b` is to stand before as well.
  have hafter (c : α) : (le a c && le b c) = le a c := by
    cases hac : le a c with
    | false => rfl
    | true => exact htrans _ _ _ hba hac
  have hbefore (c : α) : (!le a c && !le b c) = !le b c := by
    rw [← hafter c]
    cases le a c <;> cases le b c <;> rfl
  have hnone (c : α) : (le a c && !le b c) = false := by
    rw [← hafter c]
    cases le a c <;> cases le b c <;> rfl
  have hcomm (p q : α → Bool) : (l.mergeSort le).filter (fun c => p c && q c) =
      (l.mergeSort le).filter fun c => q c && p c := by
    simp only [Bool.and_comm]
  have hab' : le a b = false := by simpa using hab
  rw [mergeSort_cons_eq htrans htotal a, mergeSort_cons_eq htrans htotal b,
    mergeSort_cons_eq htrans htotal b, mergeSort_cons_eq htrans htotal a]
  simp only [List.filter_append, List.filter_cons, List.filter_filter, hba, hab',
    hcomm (fun c => !le b c), hcomm (le b), hafter, hbefore, hnone]
  simp

/-- What stands in front of a list goes, after sorting, behind all that is to stand before it, and
    so it does if it stands behind. -/
theorem mergeSort_cons_append {a : α} {as : List α} (h : ∀ b ∈ as, le b a ∧ ¬le a b) (l : List α) :
    (a :: (as ++ l)).mergeSort le = (as ++ a :: l).mergeSort le := by
  induction as with
  | nil => rfl
  | cons b as ih =>
    obtain ⟨⟨hba, hab⟩, h⟩ := List.forall_mem_cons.1 h
    rw [List.cons_append, mergeSort_swap htrans htotal hba hab, mergeSort_cons_eq htrans htotal b,
      ih h, ← mergeSort_cons_eq htrans htotal b, List.cons_append]

/-- What is sorted in the same way is so behind the same list. -/
theorem mergeSort_append_congr {l l' : List α} (h : l.mergeSort le = l'.mergeSort le)
    (as : List α) : (as ++ l).mergeSort le = (as ++ l').mergeSort le := by
  induction as with
  | nil => exact h
  | cons a as ih =>
    rw [List.cons_append, List.cons_append, mergeSort_cons_eq htrans htotal, ih,
      ← mergeSort_cons_eq htrans htotal]

/-- What is left of a list before sorting is left, in its order, after sorting. -/
theorem sublist_mergeSort_mergeSort {as bs : List α} (h : as.Sublist bs) :
    (as.mergeSort le).Sublist (bs.mergeSort le) := by
  induction h with
  | slnil => exact List.Sublist.refl _
  | @cons as bs b _ ih =>
    obtain ⟨l₁, l₂, hcons, hrest, -⟩ := List.mergeSort_cons htrans htotal b bs
    rw [hcons]
    rw [hrest] at ih
    exact ih.middle b
  | @cons_cons as bs a _ ih =>
    rw [mergeSort_cons_eq htrans htotal, mergeSort_cons_eq htrans htotal]
    exact (ih.filter _).append ((ih.filter _).cons_cons a)

/-- Where all of one list may stand before all of another, they are sorted one after the other. -/
theorem mergeSort_append {as bs : List α} (h : ∀ a ∈ as, ∀ b ∈ bs, le a b) :
    (as ++ bs).mergeSort le = as.mergeSort le ++ bs.mergeSort le := by
  induction as with
  | nil => rw [List.mergeSort_nil, List.nil_append, List.nil_append]
  | cons a as ih =>
    have hafter : ∀ b ∈ bs.mergeSort le, le a b := fun b hb =>
      h a List.mem_cons_self b (List.mem_mergeSort.1 hb)
    have hnone : (bs.mergeSort le).filter (fun b => !le a b) = [] :=
      List.filter_eq_nil_iff.2 fun b hb => by simp [hafter b hb]
    rw [List.cons_append, mergeSort_cons_eq htrans htotal, mergeSort_cons_eq htrans htotal,
      ih fun c hc => h c (List.mem_cons_of_mem _ hc), List.filter_append, List.filter_append,
      hnone, List.filter_eq_self.2 hafter, List.append_nil, List.append_assoc, List.cons_append]

end

/-- One hint is shown before another one, or at the same place. -/
def Hint.le (a b : Hint) : Bool := a.anchor ≤ b.anchor

theorem Hint.le_trans (a b c : Hint) (hab : a.le b) (hbc : b.le c) : a.le c := by
  simp only [Hint.le, decide_eq_true_eq] at *
  exact Nat.le_trans hab hbc

theorem Hint.le_total (a b : Hint) : a.le b || b.le a := by
  simp only [Hint.le, Bool.or_eq_true, decide_eq_true_eq]
  exact Nat.le_total a.anchor b.anchor

namespace Document

variable {d : Document} {mode : ResolveMode} {r : Span} {x : Place}

/-! ## The walk -/

theorem placesInAll_eq_flatMap (range : Option Span) (above ts : List (Tree Node)) :
    placesInAll range above ts = ts.flatMap (placesIn range above) := by
  induction ts with
  | nil => rfl
  | cons t ts ih => rw [placesInAll, ih, List.flatMap_cons]

/-- The walk goes on from a node that is in the range, and from no other. -/
theorem placesIn_eq (range : Option Span) (x : Place) : placesIn range x.above x.tree =
    if inRange range x then x :: x.children.flatMap fun c => placesIn range c.above c.tree
    else [] := by
  obtain ⟨⟨n, ts⟩, above⟩ := x
  rw [placesIn, placesInAll_eq_flatMap, children, List.flatMap_map]
  rfl

/-- What is below a node that is not in the range is not in the range. -/
theorem inRange_of_mem_walk (hd : d.Regular) (hx : x ∈ d.nodes) {y : Place} (hy : y ∈ x.walk)
    (h : inRange (some r) y) : inRange (some r) x := by
  obtain ⟨hlo, hhi⟩ := hd.span_of_mem_walk hx hy
  have hcontains : x.span.contains y.span := by
    rw [Span.contains, Bool.and_eq_true, decide_eq_true_eq, decide_eq_true_eq]
    exact ⟨hlo, hhi⟩
  exact Span.overlaps_of_contains hcontains h

/-- The walk reaches all nodes that are in the range. -/
theorem placesIn_eq_filter (hd : d.Regular) (r : Span) (hx : x ∈ d.nodes) :
    placesIn (some r) x.above x.tree = x.walk.filter (inRange (some r)) := by
  refine descent (P := fun x => x ∈ d.nodes →
    placesIn (some r) x.above x.tree = x.walk.filter (inRange (some r))) (fun x ih hx => ?_) x hx
  rw [placesIn_eq]
  split
  · next hrange =>
    rw [walk_eq_flatMap, List.filter_cons_of_pos hrange, List.filter_flatMap]
    congr 1
    exact List.flatMap_congr fun c hc =>
      ih c (mem_descendants_of_mem_children hc) (mem_walk_of_mem_children hx hc)
  · next hrange =>
    refine (List.filter_eq_nil_iff.2 fun y hy h => ?_).symm
    exact hrange (inRange_of_mem_walk hd hx hy h)

/-! ## The hints -/

/-- The hints in a range are those that the expressions which overlap the range have, in the
    order of the offsets, and in preorder where these are the same. They are some of the hints of
    the whole document, in the same order. All this does not depend on what was analyzed
    before. -/
theorem hints_in_range {source : List Char} (h : Document.parse source = .ok d) {a : Analyzer}
    (ha : a.Reached d) (mode : ResolveMode) (r : Span) :
    d.hintsFrom a mode (some r) =
      ((d.nodes.filter fun x => x.kind.isExpression && x.span.overlaps r).filterMap
        (d.ownHint? mode)).mergeSort (fun a b => a.anchor ≤ b.anchor) ∧
    (d.hintsFrom a mode (some r)).Sublist (d.hintsFrom a mode none) := by
  have hd := regular_of_parse h
  have hfaithful := ha.faithful hd.hasDistinctIds
  have hall := hintsFrom_eq hd hfaithful mode none
  rw [placesIn_none] at hall
  have hsome := hintsFrom_eq hd hfaithful mode (some r)
  rw [placesIn_eq_filter hd r (self_mem_walk d.root), List.filter_filter] at hsome
  refine ⟨hsome, ?_⟩
  rw [hsome, hall]
  have hsub : ((d.nodes.filter fun x => x.kind.isExpression && x.span.overlaps r).filterMap
      (d.ownHint? mode)).Sublist
        ((d.nodes.filter fun x => x.kind.isExpression).filterMap (d.ownHint? mode)) := by
    rw [← List.filter_filter]
    exact (List.filter_sublist.filter _).filterMap _
  exact sublist_mergeSort_mergeSort Hint.le_trans Hint.le_total hsub

/-- In `f{a;b};g{c;d}`, the hint behind `d` is among those in the range of `d`. -/
theorem hints_in_range_of_last : ∃ d, Document.parse "f{a;b};g{c;d}".toList = .ok d ∧
    ∃ h ∈ d.hints .enclosing (some ⟨11, 12⟩), h.anchor = 12 ∧ h ∈ d.hints .enclosing none := by
  have hparse : (Document.parse "f{a;b};g{c;d}".toList).toOption.any (fun d =>
      d.nodes.any fun scope => scope.lambdaLabel? == some "g" &&
        scope.children.any fun literal => d.nodes.any fun x => x.span == ⟨11, 12⟩ &&
          (d.obstacle? x == none && literal.results.contains x.id)) = true := by
    decide +kernel
  obtain ⟨d, h, hp⟩ := exists_of_parse_any hparse
  simp only [List.any_eq_true, Bool.and_eq_true, beq_iff_eq, List.contains_iff_mem] at hp
  obtain ⟨scope, hscope, hlabel, literal, hliteral, x, hx, hspan, hno, hresult⟩ := hp
  have hd := regular_of_parse h
  have hmode : ResolveMode.enclosing.includesFlow := rfl
  have hown := ownHint?_of_mem_results hd hx hmode hno hscope hlabel hliteral hresult
  have hk := (obstacle?_eq_none.1 hno).isExpression
  obtain ⟨heq, hsub⟩ := hints_in_range h .empty .enclosing ⟨11, 12⟩
  have hmem : Hint.ofLabel "g" x.span.stop scope.id ∈
      d.hintsFrom .empty .enclosing (some ⟨11, 12⟩) := by
    rw [heq, List.mem_mergeSort, List.mem_filterMap]
    refine ⟨x, List.mem_filter.2 ⟨hx, ?_⟩, hown⟩
    rw [hk, hspan]
    rfl
  exact ⟨d, h, _, hmem, congrArg Span.stop hspan, hsub.subset hmem⟩

end Document

end ResultHints
