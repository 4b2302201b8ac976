import Mathlib.Data.List.Find
import ResultHints.Proofs.Tree.Place

/-!
# Places under another root

The trees below the root of one tree may stand below the root of another, with other
labels. A place below the one root is then *grafted* below the other (`Location.graft`),
and what is below it and above it is grafted with it (`children_graft`, `ancestors_graft`).
-/

namespace ResultHints

namespace Location

variable {α : Type} (f : α → α) (top : Tree α)

/-- The place of a tree below `above`, with `top` for the outermost tree and with the labels of all
    others replaced. -/
def graftAt : Tree α → List (Tree α) → Location α
  | _, [] => ⟨top, []⟩
  | t, u :: us => ⟨t.map f, (graftAt u us).tree :: (graftAt u us).above⟩

/-- The place under the root `top`. -/
def graft (x : Location α) : Location α := graftAt f top x.tree x.above

variable {f top} {r x y : Location α}

theorem above_ne_nil (h : y ∈ x.children) : y.above ≠ [] := by
  obtain ⟨t, -, rfl⟩ := mem_children.1 h
  exact List.cons_ne_nil _ _

theorem graft_of_above_eq_nil (h : x.above = []) : x.graft f top = ⟨top, []⟩ := by
  rw [graft, h]
  rfl

theorem tree_graft (h : x.above ≠ []) : (x.graft f top).tree = x.tree.map f := by
  obtain ⟨t, _ | ⟨u, us⟩⟩ := x
  · exact absurd rfl h
  · rfl

theorem label_graft (h : x.above ≠ []) : (x.graft f top).label = f x.label := by
  rw [label, tree_graft h, Tree.label_map]
  rfl

/-! ## Upwards -/

theorem ancestors_graft (x : Location α) :
    (x.graft f top).ancestors = x.ancestors.map (graft f top) := by
  obtain ⟨t, above⟩ := x
  induction above generalizing t with
  | nil => rfl
  | cons u us ih => exact congrArg (_ :: ·) (ih u)

theorem parent?_graft (x : Location α) :
    (x.graft f top).parent? = x.parent?.map (graft f top) := by
  rw [parent?, ancestors_graft, List.head?_map]
  rfl

theorem nearest?_graft {p : α → Bool}
    (hp : ∀ z ∈ x.ancestors, p (z.graft f top).label = p z.label) :
    (x.graft f top).nearest? p = (x.nearest? p).map (graft f top) := by
  rw [nearest?, ancestors_graft, List.find?_map]
  exact congrArg _ (List.find?_congr hp)

/-! ## Downwards -/

theorem children_graft (h : x.above ≠ []) :
    (x.graft f top).children = x.children.map (graft f top) := by
  obtain ⟨t, _ | ⟨u, us⟩⟩ := x
  · exact absurd rfl h
  · simp only [children, graft, graftAt, Tree.children_map, List.map_map]
    rfl

theorem walk_graft (h : x.above ≠ []) :
    (x.graft f top).walk = x.walk.map (graft f top) := by
  refine descent (P := fun x => x.above ≠ [] →
    (x.graft f top).walk = x.walk.map (graft f top)) (fun x ih h => ?_) x h
  rw [walk_eq_flatMap, walk_eq_flatMap x, children_graft h, List.map_cons, List.flatMap_map,
    List.map_flatMap]
  exact congrArg _ (List.flatMap_congr fun c hc =>
    ih c (mem_descendants_of_mem_children hc) (above_ne_nil hc))

theorem flatMap_walk_graft {xs : List (Location α)} (h : ∀ x ∈ xs, x.above ≠ []) :
    (xs.map (graft f top)).flatMap walk = (xs.flatMap walk).map (graft f top) := by
  rw [List.flatMap_map, List.map_flatMap]
  exact List.flatMap_congr fun x hx => walk_graft (h x hx)

/-- What is right below the one root is right below the other. -/
theorem map_graft_children (hr : r.above = []) : r.children.map (graft f top) =
    (r.tree.children.map (Tree.map f)).map fun t => ⟨t, [top]⟩ := by
  rw [children, hr, List.map_map, List.map_map]
  rfl

/-- If the trees below the one root stand below the other, so do the places in them. -/
theorem graft_mem_walk (hr : r.above = []) (htop : ∀ t ∈ r.tree.children, t.map f ∈ top.children)
    (hx : x ∈ r.walk) : x.graft f top ∈ (⟨top, []⟩ : Location α).walk := by
  have hall : (x.above = [] → x = r) ∧ x.graft f top ∈ (⟨top, []⟩ : Location α).walk := by
    refine walk_induction (P := fun x => (x.above = [] → x = r) ∧
      x.graft f top ∈ (⟨top, []⟩ : Location α).walk) ⟨fun _ => rfl, ?_⟩ ?_ hx
    · rw [graft_of_above_eq_nil hr]
      exact self_mem_walk _
    · rintro p ⟨hroot, hp⟩ y hy
      refine ⟨fun h => absurd h (above_ne_nil hy), mem_walk_of_mem_children hp ?_⟩
      by_cases habove : p.above = []
      · obtain rfl := hroot habove
        rw [graft_of_above_eq_nil habove]
        obtain ⟨t, ht, rfl⟩ := mem_children.1 hy
        refine mem_children.2 ⟨t.map f, htop t ht, ?_⟩
        rw [habove]
        rfl
      · rw [children_graft habove]
        exact List.mem_map_of_mem hy
  exact hall.2

end Location

end ResultHints
