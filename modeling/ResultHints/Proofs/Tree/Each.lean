import Mathlib.Data.List.Perm.Basic
import ResultHints.Tree.Basic

/-!
# Trees as a whole

Laws of the maps on trees, of what holds of every subtree, and of traversals.

* `Tree.Each`: a property of a tree and of every tree below it;
* `Tree.postorder_perm_preorder`: both orders give the same labels.
-/

namespace ResultHints

namespace Tree

variable {α β : Type}

/-! ## Maps -/

theorem mapAll_eq_map (f : α → β) (ts : List (Tree α)) : mapAll f ts = ts.map (map f) := by
  induction ts with
  | nil => rfl
  | cons t ts ih => rw [mapAll, ih, List.map_cons]

@[simp] theorem map_node (f : α → β) (a : α) (ts : List (Tree α)) :
    (node a ts).map f = node (f a) (ts.map (map f)) := by
  rw [map, mapAll_eq_map]

@[simp] theorem label_map (f : α → β) (t : Tree α) : (t.map f).label = f t.label := by
  cases t with
  | node a ts => rw [map_node, label_node, label_node]

@[simp] theorem children_map (f : α → β) (t : Tree α) :
    (t.map f).children = t.children.map (map f) := by
  cases t with
  | node a ts => rw [map_node, children_node, children_node]

theorem map_id (t : Tree α) : t.map id = t := by
  induction t using ind with
  | node a ts ih =>
    rw [map_node]
    exact congrArg (node a) ((List.map_congr_left ih).trans (List.map_id' ts))

theorem map_map {γ : Type} (g : β → γ) (f : α → β) (t : Tree α) :
    (t.map f).map g = t.map (g ∘ f) := by
  induction t using ind with
  | node a ts ih =>
    simp only [map_node, List.map_map]
    exact congrArg (node _) (List.map_congr_left ih)

/-- Trees whose labels agree in two respects agree in both together. -/
theorem map_eq_map_of_both {γ δ ε : Type} {p : α → γ} {q : α → δ} {p' : β → γ} {q' : β → δ}
    (g : γ → δ → ε) {t : Tree α} {t' : Tree β} (hp : t.map p = t'.map p')
    (hq : t.map q = t'.map q') :
    t.map (fun a => g (p a) (q a)) = t'.map fun b => g (p' b) (q' b) := by
  induction t using ind generalizing t' with
  | node a ts ih =>
    obtain ⟨b, us⟩ := t'
    simp only [map_node, node.injEq] at hp hq ⊢
    obtain ⟨hpa, hp⟩ := hp
    obtain ⟨hqa, hq⟩ := hq
    refine ⟨by rw [hpa, hqa], ?_⟩
    induction ts generalizing us with
    | nil => cases us with
      | nil => rfl
      | cons => cases hp
    | cons t ts ihs => cases us with
      | nil => cases hp
      | cons u us =>
        simp only [List.map_cons, List.cons.injEq] at hp hq ⊢
        obtain ⟨iht, ih⟩ := List.forall_mem_cons.1 ih
        exact ⟨iht hp.1 hq.1, ihs ih us hp.2 hq.2⟩

/-! ## Every subtree -/

/-- `P` holds of a tree and of every tree below it. -/
inductive Each (P : Tree α → Prop) : Tree α → Prop
  | node {a : α} {ts : List (Tree α)} : P (.node a ts) → (∀ t ∈ ts, Each P t) → Each P (.node a ts)

theorem Each.self {P : Tree α → Prop} {t : Tree α} (h : Each P t) : P t := by
  cases h with
  | node h _ => exact h

theorem Each.child {P : Tree α → Prop} {t s : Tree α} (h : Each P t) (hs : s ∈ t.children) :
    Each P s := by
  cases h with
  | node _ h => exact h s hs

/-- Maps that agree on all labels of a tree give the same tree. -/
theorem Each.map_congr {f g : α → β} {t : Tree α} (h : t.Each fun s => f s.label = g s.label) :
    t.map f = t.map g := by
  induction h with
  | node h _ ih =>
    rw [map_node, map_node]
    exact congrArg₂ Tree.node h (List.map_congr_left ih)

theorem Each.imp {P Q : Tree α → Prop} (hPQ : ∀ t, P t → Q t) {t : Tree α} (h : Each P t) :
    Each Q t := by
  induction h with
  | node h _ ih => exact .node (hPQ _ h) ih

theorem Each.and {P Q : Tree α → Prop} {t : Tree α} (hP : Each P t) (hQ : Each Q t) :
    Each (fun t => P t ∧ Q t) t := by
  induction hP with
  | node h _ ih =>
    cases hQ with
    | node h' hQ => exact .node ⟨h, h'⟩ fun s hs => ih s hs (hQ s hs)

/-! ## Preorder -/

theorem preorderAll_eq_flatMap (ts : List (Tree α)) : preorderAll ts = ts.flatMap preorder := by
  induction ts with
  | nil => rfl
  | cons t ts ih => rw [preorderAll, ih, List.flatMap_cons]

theorem preorder_node (a : α) (ts : List (Tree α)) :
    (node a ts).preorder = a :: ts.flatMap preorder := by
  rw [preorder, preorderAll_eq_flatMap]

theorem map_label_sublist_preorderAll (ts : List (Tree α)) :
    (ts.map label).Sublist (preorderAll ts) := by
  induction ts with
  | nil => exact .slnil
  | cons t ts ih =>
    obtain ⟨a, us⟩ := t
    rw [preorderAll, preorder_node, List.map_cons, label_node]
    exact (ih.trans (List.sublist_append_right _ _)).cons_cons a

/-! ## Equality -/

section

variable [DecidableEq α]

mutual
/-- Whether two trees are the same. -/
def decEq : (t u : Tree α) → Decidable (t = u)
  | .node a ts, .node b us =>
    have := decEqAll ts us
    decidable_of_iff (a = b ∧ ts = us) (by rw [Tree.node.injEq])

/-- Whether two lists of trees are the same. -/
def decEqAll : (ts us : List (Tree α)) → Decidable (ts = us)
  | [], [] => isTrue rfl
  | [], _ :: _ | _ :: _, [] => isFalse nofun
  | t :: ts, u :: us =>
    have := decEq t u
    have := decEqAll ts us
    decidable_of_iff (t = u ∧ ts = us) (by rw [List.cons.injEq])
end

instance : DecidableEq (Tree α) := decEq

end

/-! ## Size -/

theorem sizeAll_append (ts us : List (Tree α)) : sizeAll (ts ++ us) = sizeAll ts + sizeAll us := by
  induction ts with
  | nil => exact (Nat.zero_add _).symm
  | cons t ts ih => rw [List.cons_append, sizeAll, sizeAll, ih, Nat.add_assoc]

/-! ## Postorder -/

theorem postorderAll_eq_flatMap (ts : List (Tree α)) : postorderAll ts = ts.flatMap postorder := by
  induction ts with
  | nil => rfl
  | cons t ts ih => rw [postorderAll, ih, List.flatMap_cons]

theorem postorderAll_append (ts us : List (Tree α)) :
    postorderAll (ts ++ us) = postorderAll ts ++ postorderAll us := by
  simp only [postorderAll_eq_flatMap, List.flatMap_append]

theorem postorder_node (a : α) (ts : List (Tree α)) :
    (node a ts).postorder = ts.flatMap postorder ++ [a] := by
  rw [postorder, postorderAll_eq_flatMap]

/-- A tree has as many labels as nodes. -/
theorem length_postorder (t : Tree α) : t.postorder.length = t.size := by
  induction t using Tree.ind with
  | node a ts ih =>
    have hall : (postorderAll ts).length = sizeAll ts := by
      induction ts with
      | nil => rfl
      | cons t ts ihs =>
        rw [postorderAll, sizeAll, List.length_append, ih t List.mem_cons_self,
          ihs fun s hs => ih s (List.mem_cons_of_mem _ hs)]
    rw [postorder, size, List.length_append, hall, List.length_singleton]

theorem length_postorderAll (ts : List (Tree α)) : (postorderAll ts).length = sizeAll ts := by
  induction ts with
  | nil => rfl
  | cons t ts ih => rw [postorderAll, sizeAll, List.length_append, t.length_postorder, ih]

/-- Both orders give the same labels. -/
theorem postorder_perm_preorder (t : Tree α) : t.postorder.Perm t.preorder := by
  induction t using Tree.ind with
  | node a ts ih =>
    rw [postorder_node, preorder_node]
    exact List.perm_append_singleton a _ |>.trans ((List.Perm.flatMap_left ts ih).cons a)

theorem postorderAll_perm_preorderAll (ts : List (Tree α)) :
    (postorderAll ts).Perm (preorderAll ts) := by
  rw [postorderAll_eq_flatMap, preorderAll_eq_flatMap]
  exact List.Perm.flatMap_left ts fun t _ => t.postorder_perm_preorder

end Tree

end ResultHints
