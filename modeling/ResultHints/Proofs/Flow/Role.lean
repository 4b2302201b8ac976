import ResultHints.Flow.Results
import ResultHints.Proofs.Document.Children

/-!
# Roles

What evaluating a node comes to depends on its kind only by a few roles (`Role`): it
jumps, or evaluates its children in turn, or one of several branches, or what it
stands around, or has a value of its own, or none. The analysis of jumps is told here
role by role (`Location.alwaysJumps_of_choice` and its like).
-/

namespace ResultHints

/-! ## Roles -/

/-- What evaluating a node comes to. -/
inductive Role
  /-- It ends with a jump. -/
  | jump
  /-- It evaluates its children one after the other. -/
  | sequence
  /-- It evaluates one of several branches. -/
  | choice
  /-- It is a branch of an `if`. -/
  | branch
  /-- It evaluates what it stands around. -/
  | wrapper
  /-- It has a value of its own. -/
  | value
  /-- It has no value. -/
  | nothing
  deriving DecidableEq

/-- The role of the nodes of a kind. -/
def NodeKind.role : NodeKind → Role
  | jump _ => .jump
  | block => .sequence
  | ifElse | when_ => .choice
  | thenBranch | elseBranch => .branch
  | labeled _ | annotated | parenthesized => .wrapper
  | binary op => if op.isAssignment then .nothing else .value
  | lambda | call | nameReference _ | qualified _ | arrayAccess | leading _ | trailing _
  | typeTest _ | cast _ | literal _ | this _ => .value
  | _ => .nothing

namespace NodeKind

variable {k : NodeKind}

theorem eq_block_of_role (h : k.role = .sequence) : k = .block := by
  cases k with
  | block => rfl
  | binary op => cases op <;> cases h
  | _ => cases h

theorem ifElse_or_when_of_role (h : k.role = .choice) : k = .ifElse ∨ k = .when_ := by
  cases k with
  | ifElse | when_ => simp
  | binary op => cases op <;> cases h
  | _ => cases h

theorem thenBranch_or_elseBranch_of_role (h : k.role = .branch) :
    k = .thenBranch ∨ k = .elseBranch := by
  cases k with
  | thenBranch | elseBranch => simp
  | binary op => cases op <;> cases h
  | _ => cases h

theorem wrapper_of_role (h : k.role = .wrapper) :
    (∃ label, k = .labeled label) ∨ k = .annotated ∨ k = .parenthesized := by
  cases k with
  | labeled | annotated | parenthesized => simp
  | binary op => cases op <;> cases h
  | _ => cases h

end NodeKind

namespace Location

variable {x y z : Place}

/-- The branches of an `if` and the entries of a `when`. -/
def branches (x : Place) : List Place :=
  match x.kind with
  | .ifElse => x.children.filter fun b => b.kind == .thenBranch || b.kind == .elseBranch
  | .when_ => x.children.filter fun b => b.kind.isWhenEntry
  | _ => []

/-- What a branch of an `if` or an entry of a `when` evaluates. -/
def content? (b : Place) : Option Place :=
  if b.kind.isWhenEntry then b.children.getLast? else b.children.head?

/-- What an `if` or a `when` evaluates one of. -/
def alternatives (x : Place) : List Place := x.branches.filterMap content?

/-- Whether an `if` or a `when` has a branch for every case: an else branch, or an else
    entry. -/
def isExhaustive (x : Place) : Bool :=
  match x.kind with
  | .ifElse => x.children.any fun b => b.kind == .elseBranch
  | .when_ => x.children.any fun b => b.kind == .whenEntry true
  | _ => false

/-- What a label, annotations or parentheses stand around. -/
def wrapped? (x : Place) : Option Place :=
  if x.kind = .parenthesized then x.children.head? else x.base?

/-- Whether the value of a node may be the result of a function literal. -/
def yields (x : Place) : Bool :=
  match x.kind.role with
  | .value | .sequence => true
  | .choice => x.isExhaustive
  | .wrapper => x.wrapped?.any fun y => y.kind.isExpression
  | .jump | .branch | .nothing => false

end Location

/-! ## Jumps in lists of trees -/

section Lists

variable (ts : List (Tree Node))

theorem someJumps_eq_any : someJumps ts = ts.any alwaysJumps := by
  induction ts with
  | nil => rfl
  | cons t ts ih => rw [someJumps, ih, List.any_cons]

theorem firstJumps_eq_any : firstJumps ts = ts.head?.any alwaysJumps := by
  cases ts with
  | nil => rfl
  | cons t ts => rfl

theorem lastJumps_eq_any : lastJumps ts = ts.getLast?.any alwaysJumps := by
  induction ts with
  | nil => rfl
  | cons t ts ih =>
    cases ts with
    | nil => rfl
    | cons u us => rw [lastJumps, ih, List.getLast?_cons_cons]; nofun

theorem baseJumps_eq_any :
    baseJumps ts = (ts.find? fun t => !t.label.kind.isAnnotationEntry).any alwaysJumps := by
  induction ts with
  | nil => rfl
  | cons t ts ih =>
    rw [baseJumps, List.find?_cons]
    cases t.label.kind.isAnnotationEntry
    · rfl
    · exact ih

theorem entriesJump_eq_all : entriesJump ts =
    ts.all fun e => !e.label.kind.isWhenEntry || e.children.getLast?.any alwaysJumps := by
  induction ts with
  | nil => rfl
  | cons t ts ih =>
    obtain ⟨n, cs⟩ := t
    rw [entriesJump, ih, List.all_cons, lastJumps_eq_any]
    rfl

end Lists

/-! ## Jumps by role -/

namespace Location

variable {x y : Place}

theorem any_children (x : Place) (p : Tree Node → Bool) :
    x.children.any (fun y => p y.tree) = x.tree.children.any p := by
  rw [← map_tree_children, List.any_map]
  rfl

theorem all_children (x : Place) (p : Tree Node → Bool) :
    x.children.all (fun y => p y.tree) = x.tree.children.all p := by
  rw [← map_tree_children, List.all_map]
  rfl

theorem head?_children_any (x : Place) (p : Tree Node → Bool) :
    x.children.head?.any (fun y => p y.tree) = x.tree.children.head?.any p := by
  rw [← map_tree_children, List.head?_map, Option.any_map]

theorem getLast?_children_any (x : Place) (p : Tree Node → Bool) :
    x.children.getLast?.any (fun y => p y.tree) = x.tree.children.getLast?.any p := by
  rw [← map_tree_children, List.getLast?_map, Option.any_map]

theorem find?_children_any (x : Place) (q p : Tree Node → Bool) :
    (x.children.find? fun y => q y.tree).any (fun y => p y.tree) =
      (x.tree.children.find? q).any p := by
  rw [← map_tree_children, List.find?_map, Option.any_map]
  rfl

theorem mem_alternatives : y ∈ x.alternatives ↔ ∃ b ∈ x.branches, b.content? = some y :=
  List.mem_filterMap

/-- Which places always jump, by their kinds and children. -/
theorem alwaysJumps_tree (x : Place) : alwaysJumps x.tree =
    match x.kind, x.children with
    | .jump _, _ => true
    | .block, ys => ys.any fun y => alwaysJumps y.tree
    | .ifElse, [_, t, e] => alwaysJumps t.tree && alwaysJumps e.tree
    | .when_, ys => ys.any (fun y => y.kind == .whenEntry true) &&
        ys.all fun y => !y.kind.isWhenEntry || y.children.getLast?.any fun z => alwaysJumps z.tree
    | .thenBranch, ys | .elseBranch, ys | .parenthesized, ys | .labeled _, ys =>
      ys.head?.any fun y => alwaysJumps y.tree
    | .annotated, ys =>
      (ys.find? fun y => !y.kind.isAnnotationEntry).any fun y => alwaysJumps y.tree
    | _, _ => false := by
  obtain ⟨⟨⟨⟨k, span⟩, id⟩, ts⟩, above⟩ := x
  have hany := any_children ⟨.node ⟨⟨k, span⟩, id⟩ ts, above⟩
  have hall := all_children ⟨.node ⟨⟨k, span⟩, id⟩ ts, above⟩
  have hhead := head?_children_any ⟨.node ⟨⟨k, span⟩, id⟩ ts, above⟩ alwaysJumps
  have hfind := find?_children_any ⟨.node ⟨⟨k, span⟩, id⟩ ts, above⟩
  cases k with
  | block => exact (someJumps_eq_any ts).trans (hany _).symm
  | ifElse =>
    match ts with
    | [] | [_] | [_, _] | [_, _, _] | _ :: _ :: _ :: _ :: _ => rfl
  | when_ =>
    have hlast (y : Place) := getLast?_children_any y alwaysJumps
    change (ts.any _ && entriesJump ts) = (List.any _ _ && List.all _ _)
    rw [entriesJump_eq_all]
    simp only [hlast]
    exact congrArg₂ (· && ·) (hany _).symm (hall _).symm
  | annotated => exact (baseJumps_eq_any ts).trans (hfind _ _).symm
  | thenBranch | elseBranch | parenthesized | labeled =>
    exact (firstJumps_eq_any ts).trans hhead.symm
  | _ => rfl

theorem alwaysJumps_of_jump (h : x.kind.role = .jump) : alwaysJumps x.tree = true := by
  rw [alwaysJumps_tree]
  cases hk : x.kind with
  | jump => rfl
  | binary op => rw [hk] at h; cases op <;> cases h
  | _ => rw [hk] at h; cases h

theorem alwaysJumps_of_sequence (h : x.kind.role = .sequence) :
    alwaysJumps x.tree = x.children.any fun y => alwaysJumps y.tree := by
  rw [alwaysJumps_tree, NodeKind.eq_block_of_role h]

theorem alwaysJumps_of_branch (h : x.kind.role = .branch) :
    alwaysJumps x.tree = x.children.head?.any fun y => alwaysJumps y.tree := by
  rw [alwaysJumps_tree]
  rcases NodeKind.thenBranch_or_elseBranch_of_role h with hk | hk <;> rw [hk]

theorem alwaysJumps_of_wrapper (h : x.kind.role = .wrapper) :
    alwaysJumps x.tree = x.wrapped?.any fun y => alwaysJumps y.tree := by
  rw [alwaysJumps_tree, wrapped?, base?]
  rcases NodeKind.wrapper_of_role h with ⟨label, hk⟩ | hk | hk <;> rw [hk] <;> rfl

theorem alwaysJumps_of_value (h : x.kind.role = .value ∨ x.kind.role = .nothing) :
    alwaysJumps x.tree = false := by
  rw [alwaysJumps_tree]
  cases hk : x.kind with
  | block | ifElse | when_ | labeled | annotated | parenthesized | thenBranch | elseBranch | jump =>
    rw [hk] at h
    rcases h with h | h <;> cases h
  | _ => rfl

theorem role_of_isExhaustive (h : x.isExhaustive) : x.kind.role = .choice := by
  unfold isExhaustive at h
  split at h
  · next hk => rw [hk]; rfl
  · next hk => rw [hk]; rfl
  · cases h

theorem role_of_wrapped? (h : x.wrapped? = some y) : x.kind.role = .wrapper := by
  unfold wrapped? base? at h
  split at h
  · next hk => rw [hk]; rfl
  · split at h
    · next hk => rw [hk]; rfl
    · next hk => rw [hk]; rfl
    · cases h

theorem branches_of_ifElse (hk : x.kind = .ifElse) :
    x.branches = x.children.filter fun b => b.kind == .thenBranch || b.kind == .elseBranch := by
  rw [branches, hk]

theorem branches_of_when (hk : x.kind = .when_) :
    x.branches = x.children.filter fun b => b.kind.isWhenEntry := by
  rw [branches, hk]

variable {d : Document} (hd : d.Regular)

include hd

/-- Every branch of an `if` and every entry of a `when` evaluates something. -/
theorem exists_content (hx : x ∈ d.nodes) {b : Place} (hb : b ∈ x.branches) :
    ∃ y, b.content? = some y ∧ y ∈ b.children ∧ y.kind.isExpression := by
  have hmem : b ∈ x.children ∧ (b.kind.isControlBody ∨ b.kind.isWhenEntry) := by
    unfold branches at hb
    split at hb
    · rw [List.mem_filter, Bool.or_eq_true, beq_iff_eq, beq_iff_eq] at hb
      obtain ⟨hb, hk | hk⟩ := hb <;> exact ⟨hb, .inl (by rw [hk]; rfl)⟩
    · rw [List.mem_filter] at hb
      exact ⟨hb.1, .inr hb.2⟩
    · cases hb
  have hnode := mem_walk_of_mem_children hx hmem.1
  rcases hmem.2 with hk | hk
  · obtain ⟨y, hchildren, hy⟩ := hd.children_of_controlBody hnode hk
    have hentry : b.kind.isWhenEntry = false := by
      cases hbk : b.kind <;> rw [hbk] at hk <;> first | rfl | cases hk
    exact ⟨y, by simp [content?, hentry, hchildren], by simp [hchildren], hy⟩
  · obtain ⟨cs, y, hchildren, hy⟩ := hd.children_of_whenEntry hnode hk
    exact ⟨y, by simp [content?, hk, hchildren], by simp [hchildren], hy⟩

theorem all_alternatives (hx : x ∈ d.nodes) (p : Place → Bool) :
    x.alternatives.all p = x.branches.all fun b => b.content?.any p := by
  rw [alternatives, List.all_filterMap, Bool.eq_iff_iff, List.all_eq_true, List.all_eq_true]
  refine forall₂_congr fun b hb => ?_
  obtain ⟨y, hy, -⟩ := exists_content hd hx hb
  rw [hy]
  rfl

/-- An `if` or a `when` always jumps if it has a branch for every case and what each evaluates
    always jumps. -/
theorem alwaysJumps_of_choice (hx : x ∈ d.nodes) (h : x.kind.role = .choice) :
    alwaysJumps x.tree = (x.isExhaustive && x.alternatives.all fun y => alwaysJumps y.tree) := by
  rw [all_alternatives hd hx]
  rcases NodeKind.ifElse_or_when_of_role h with hk | hk
  · obtain ⟨c, t, hc, ht, hchildren⟩ := hd.children_of_ifElse hx hk
    have hjumps (b : Place) (hb : b.kind = .thenBranch ∨ b.kind = .elseBranch) :
        alwaysJumps b.tree = b.content?.any fun y => alwaysJumps y.tree := by
      rw [alwaysJumps_tree, content?]
      rcases hb with hb | hb <;> rw [hb] <;> rfl
    rw [alwaysJumps_tree, branches_of_ifElse hk, isExhaustive, hk]
    rcases hchildren with hchildren | ⟨e, he, hchildren⟩
    · simp [hchildren, hc, ht]
    · simp [hchildren, hc, ht, he, hjumps]
  · rw [alwaysJumps_tree, branches_of_when hk, isExhaustive, hk, List.all_filter]
    refine congrArg (List.any _ _ && ·) (List.all_congr rfl fun b => ?_)
    cases hb : b.kind.isWhenEntry
    · rfl
    · simp [content?, hb]

end Location

end ResultHints
