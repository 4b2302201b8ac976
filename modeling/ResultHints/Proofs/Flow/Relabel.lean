import ResultHints.Proofs.Flow.Below
import ResultHints.Proofs.Syntax.Relabel

/-!
# Results under other labels

Which nodes of a tree have its value depends on the kinds of the nodes alone: where the nodes
of a tree get other labels, the same nodes are its results, with their new ids
(`resultNodes_map`, `liveResults_mapAll`).
-/

namespace ResultHints

variable (f : Relabeling)

theorem any_kind_mapAll (p : NodeKind → Bool)
    (hp : ∀ s s', p (.typeReference s) = p (.typeReference s')) (ts : List (Tree Node)) :
    (Tree.mapAll f.node ts).any (fun t => p t.label.kind) = ts.any fun t => p t.label.kind := by
  rw [Tree.mapAll_eq_map, List.any_map]
  refine congrArg (ts.any ·) (funext fun t => ?_)
  rw [Function.comp_apply, Tree.label_map, f.apply_kind hp]

/-! ## Jumps -/

mutual
theorem alwaysJumps_map (t : Tree Node) :
    alwaysJumps (t.map f.node) = alwaysJumps t := by
  obtain ⟨n, ts⟩ := t
  rw [Tree.map, alwaysJumps.eq_def, alwaysJumps.eq_def (.node n ts)]
  dsimp only
  obtain hk | ⟨s, s', hk, hk'⟩ := f.kind_node n
  swap
  · rw [hk, hk']
  rw [hk]
  cases n.kind with
  | block => exact someJumps_mapAll ts
  | ifElse =>
    match ts with
    | [] | [_] | [_, _] | _ :: _ :: _ :: _ :: _ => rfl
    | [_, t, e] =>
      simp only [Tree.mapAll]
      rw [alwaysJumps_map t, alwaysJumps_map e]
  | when_ =>
    dsimp only
    rw [any_kind_mapAll f (· == .whenEntry true) (fun _ _ => rfl), entriesJump_mapAll]
  | thenBranch | elseBranch | parenthesized | labeled => exact firstJumps_mapAll ts
  | annotated => exact baseJumps_mapAll ts
  | _ => rfl

theorem someJumps_mapAll (ts : List (Tree Node)) :
    someJumps (Tree.mapAll f.node ts) = someJumps ts := by
  match ts with
  | [] => rfl
  | t :: ts =>
    rw [Tree.mapAll, someJumps, someJumps, alwaysJumps_map, someJumps_mapAll]

theorem firstJumps_mapAll (ts : List (Tree Node)) :
    firstJumps (Tree.mapAll f.node ts) = firstJumps ts := by
  match ts with
  | [] => rfl
  | t :: ts => rw [Tree.mapAll, firstJumps, firstJumps, alwaysJumps_map]

theorem lastJumps_mapAll (ts : List (Tree Node)) :
    lastJumps (Tree.mapAll f.node ts) = lastJumps ts := by
  match ts with
  | [] => rfl
  | [t] => exact alwaysJumps_map t
  | t :: u :: ts => exact lastJumps_mapAll (u :: ts)

theorem baseJumps_mapAll (ts : List (Tree Node)) :
    baseJumps (Tree.mapAll f.node ts) = baseJumps ts := by
  match ts with
  | [] => rfl
  | t :: ts =>
    rw [Tree.mapAll, baseJumps, baseJumps, Tree.label_map, f.isAnnotationEntry_node,
      alwaysJumps_map, baseJumps_mapAll]

theorem entriesJump_mapAll (ts : List (Tree Node)) :
    entriesJump (Tree.mapAll f.node ts) = entriesJump ts := by
  match ts with
  | [] => rfl
  | .node n cs :: ts =>
    rw [Tree.mapAll, Tree.map, entriesJump, entriesJump, f.isWhenEntry_node, lastJumps_mapAll,
      entriesJump_mapAll]
end

/-! ## Results -/

mutual
theorem resultNodes_map (t : Tree Node) :
    resultNodes (t.map f.node) = (resultNodes t).map f.number := by
  obtain ⟨n, ts⟩ := t
  rw [Tree.map, resultNodes.eq_def, resultNodes.eq_def (.node n ts)]
  dsimp only
  obtain hk | ⟨s, s', hk, hk'⟩ := f.kind_node n
  swap
  · rw [hk, hk']
    rfl
  rw [hk, f.id_node]
  cases n.kind with
  | binary op =>
    dsimp only
    rw [apply_ite (List.map f.number), List.map_cons, List.map_nil]
  | block => exact congrArg (f.number n.id :: ·) (liveResults_mapAll ts)
  | ifElse =>
    match ts with
    | [] | [_] | [_, _] | _ :: _ :: _ :: _ :: _ => rfl
    | [_, t, e] =>
      simp only [Tree.mapAll]
      rw [branchResults_map t, branchResults_map e, List.map_cons, List.map_append]
  | when_ =>
    dsimp only
    rw [any_kind_mapAll f (· == .whenEntry true) (fun _ _ => rfl), entryResults_mapAll,
      apply_ite (List.map f.number), List.map_cons, List.map_nil]
  | labeled => exact wrappedResults_mapAll _ (fun _ _ => rfl) n.id ts
  | annotated => exact wrappedResults_mapAll _ (fun _ _ => rfl) n.id ts
  | parenthesized => exact congrArg (f.number n.id :: ·) (firstResults_mapAll ts)
  | _ => rfl

theorem liveResults_mapAll (ts : List (Tree Node)) :
    liveResults (Tree.mapAll f.node ts) = (liveResults ts).map f.number := by
  match ts with
  | [] => rfl
  | [t] => exact resultNodes_map t
  | t :: u :: ts =>
    have hrest := liveResults_mapAll (u :: ts)
    simp only [Tree.mapAll, liveResults] at hrest ⊢
    rw [alwaysJumps_map f, hrest, apply_ite (List.map f.number), List.map_nil]

theorem firstResults_mapAll (ts : List (Tree Node)) :
    firstResults (Tree.mapAll f.node ts) = (firstResults ts).map f.number := by
  match ts with
  | [] => rfl
  | t :: _ => exact resultNodes_map t

theorem lastResults_mapAll (ts : List (Tree Node)) :
    lastResults (Tree.mapAll f.node ts) = (lastResults ts).map f.number := by
  match ts with
  | [] => rfl
  | [t] => exact resultNodes_map t
  | _ :: u :: ts => exact lastResults_mapAll (u :: ts)

theorem branchResults_map (t : Tree Node) :
    branchResults (t.map f.node) = (branchResults t).map f.number := by
  obtain ⟨n, ts⟩ := t
  exact firstResults_mapAll ts

theorem entryResults_mapAll (ts : List (Tree Node)) :
    entryResults (Tree.mapAll f.node ts) = (entryResults ts).map f.number := by
  match ts with
  | [] => rfl
  | .node n cs :: ts =>
    rw [Tree.mapAll, Tree.map, entryResults, entryResults, f.isWhenEntry_node, lastResults_mapAll,
      entryResults_mapAll, List.map_append, apply_ite (List.map f.number), List.map_nil]

theorem wrappedResults_mapAll (p : NodeKind → Bool)
    (hp : ∀ s s', p (.typeReference s) = p (.typeReference s')) (i : NodeId)
    (ts : List (Tree Node)) : wrappedResults p (f.number i) (Tree.mapAll f.node ts) =
      (wrappedResults p i ts).map f.number := by
  match ts with
  | [] => rfl
  | t :: ts =>
    rw [Tree.mapAll, wrappedResults, wrappedResults, Tree.label_map, f.apply_kind hp,
      f.isExpression_node, resultNodes_map, wrappedResults_mapAll p hp,
      apply_ite (List.map f.number), apply_ite (List.map f.number), List.map_cons, List.map_nil]
end

end ResultHints
