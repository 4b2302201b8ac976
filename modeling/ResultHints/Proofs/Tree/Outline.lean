import ResultHints.Tree.Basic

/-!
# Outlines of trees

The labels of a tree in preorder, each with its depth. A tree can be told from its outline
(`Tree.outline_injective`): below a node stands what follows it in the outline, up to the
next label that is no deeper.
-/

namespace ResultHints

namespace Tree

variable {α : Type} {n : Nat} {xs ys : List (Nat × α)}

mutual
/-- The labels of a tree in preorder, each with its depth; that of the root is `n`. -/
def outline (n : Nat) : Tree α → List (Nat × α)
  | node a ts => (n, a) :: outlineAll (n + 1) ts

/-- The outlines of some trees, one after the other. -/
def outlineAll (n : Nat) : List (Tree α) → List (Nat × α)
  | [] => []
  | t :: ts => t.outline n ++ outlineAll n ts
end

theorem outlineAll_eq_flatMap (n : Nat) (ts : List (Tree α)) :
    outlineAll n ts = ts.flatMap (outline n) := by
  induction ts with
  | nil => rfl
  | cons t ts ih => rw [outlineAll, ih, List.flatMap_cons]

/-- No label of the depth `n` or deeper comes first. -/
def EndsBelow (n : Nat) (xs : List (Nat × α)) : Prop := ∀ x ∈ xs.head?, x.1 < n

theorem EndsBelow.mono {m : Nat} (h : EndsBelow n xs) (hle : n ≤ m) : EndsBelow m xs :=
  fun x hx => Nat.lt_of_lt_of_le (h x hx) hle

/-- What comes after a tree among others is no deeper than its root. -/
theorem EndsBelow.outlineAll_append (h : EndsBelow n xs) (ts : List (Tree α)) :
    EndsBelow (n + 1) (outlineAll n ts ++ xs) := by
  cases ts with
  | nil => exact h.mono (Nat.le_succ n)
  | cons t ts =>
    obtain ⟨a, us⟩ := t
    intro x hx
    obtain rfl := Option.some.inj hx
    exact Nat.lt_succ_self n

/-- Trees can be told from their outlines, up to where these end, if each of them can. -/
theorem outlineAll_append_inj {ts us : List (Tree α)}
    (hts : ∀ t ∈ ts, ∀ (u : Tree α) (xs ys : List (Nat × α)), EndsBelow (n + 1) xs →
      EndsBelow (n + 1) ys → t.outline n ++ xs = u.outline n ++ ys → t = u ∧ xs = ys)
    (hxs : EndsBelow n xs) (hys : EndsBelow n ys)
    (h : outlineAll n ts ++ xs = outlineAll n us ++ ys) : ts = us ∧ xs = ys := by
  induction ts generalizing us with
  | nil =>
    cases us with
    | nil => exact ⟨rfl, h⟩
    | cons u us =>
      -- The rest on the left would begin with the root of a tree on the right.
      obtain ⟨a, vs⟩ := u
      obtain rfl : xs = outlineAll n (node a vs :: us) ++ ys := h
      exact absurd (hxs (n, a) rfl) (Nat.lt_irrefl n)
  | cons t ts ih =>
    obtain ⟨ht, hts⟩ := List.forall_mem_cons.1 hts
    cases us with
    | nil =>
      obtain ⟨a, vs⟩ := t
      obtain rfl : outlineAll n (node a vs :: ts) ++ xs = ys := h
      exact absurd (hys (n, a) rfl) (Nat.lt_irrefl n)
    | cons u us =>
      rw [outlineAll, outlineAll, List.append_assoc, List.append_assoc] at h
      obtain ⟨rfl, hrest⟩ :=
        ht u _ _ (hxs.outlineAll_append ts) (hys.outlineAll_append us) h
      obtain ⟨rfl, rfl⟩ := ih hts hrest
      exact ⟨rfl, rfl⟩

/-- A tree can be told from its outline, up to where it ends. -/
theorem outline_append_inj {t u : Tree α} (hxs : EndsBelow (n + 1) xs)
    (hys : EndsBelow (n + 1) ys) (h : t.outline n ++ xs = u.outline n ++ ys) :
    t = u ∧ xs = ys := by
  induction t using Tree.ind generalizing n u xs ys with
  | node a ts ih =>
    obtain ⟨b, us⟩ := u
    obtain ⟨hlabel, hchildren⟩ := List.cons.inj h
    obtain rfl : a = b := congrArg Prod.snd hlabel
    obtain ⟨rfl, rfl⟩ := outlineAll_append_inj
      (fun t ht u xs ys hxs hys h => ih t ht hxs hys h) hxs hys hchildren
    exact ⟨rfl, rfl⟩

/-- A tree can be told from its outline. -/
theorem outline_injective (n : Nat) : Function.Injective (outline (α := α) n) := by
  intro t u h
  have hnil : EndsBelow (α := α) (n + 1) [] := nofun
  exact (outline_append_inj hnil hnil (congrArg (· ++ []) h)).1

end Tree

end ResultHints
