import ResultHints.Document.Basic

/-!
# Facts

What is known of the nodes of a document: for some of them, whether their value
is the result of a function literal around them. Facts are kept in the order of
the ids, so that equal facts are the same list.

* `Facts.get?`: what is known of a node;
* `Facts.record`: the facts with one more, in the place of what was known before.
-/

namespace ResultHints

namespace Facts

/-- Some facts by node, with the fact `value` for the node `id`. -/
def put (id : NodeId) (value : Bool) : List (NodeId × Bool) → List (NodeId × Bool)
  | [] => [(id, value)]
  | (i, v) :: es =>
    if id < i then (id, value) :: (i, v) :: es
    else if id = i then (id, value) :: es
    else (i, v) :: put id value es

theorem fst_of_mem_put {id : NodeId} {value : Bool} {es : List (NodeId × Bool)}
    {e : NodeId × Bool} (h : e ∈ put id value es) : e.1 = id ∨ ∃ e' ∈ es, e.1 = e'.1 := by
  induction es with
  | nil => exact .inl (by rw [List.mem_singleton.1 h])
  | cons a es ih =>
    rw [put] at h
    split at h
    · rcases List.mem_cons.1 h with rfl | h
      · exact .inl rfl
      · exact .inr ⟨e, h, rfl⟩
    · split at h
      · rcases List.mem_cons.1 h with rfl | h
        · exact .inl rfl
        · exact .inr ⟨e, List.mem_cons_of_mem _ h, rfl⟩
      · rcases List.mem_cons.1 h with rfl | h
        · exact .inr ⟨_, List.mem_cons_self, rfl⟩
        · rcases ih h with h | ⟨e', he', h⟩
          · exact .inl h
          · exact .inr ⟨e', List.mem_cons_of_mem _ he', h⟩

/-- A fact that is put among others is found there, and changes no other one. -/
theorem lookup_put (id : NodeId) (value : Bool) (es : List (NodeId × Bool)) (i : NodeId) :
    (put id value es).lookup i = if i = id then some value else es.lookup i := by
  induction es with
  | nil =>
    rw [put, List.lookup_cons]
    by_cases h : i = id
    · rw [beq_iff_eq.2 h, if_pos h]
    · rw [beq_eq_false_iff_ne.2 h, if_neg h]
  | cons a es ih =>
    rw [put]
    by_cases h : i = id
    · subst h
      rw [if_pos rfl]
      split
      · exact List.lookup_cons_self
      · split
        · exact List.lookup_cons_self
        · rw [List.lookup_cons, beq_eq_false_iff_ne.2 ‹_›, ih, if_pos rfl]
    · have hi : (i == id) = false := beq_eq_false_iff_ne.2 h
      rw [if_neg h]
      split
      · rw [List.lookup_cons, hi]
      · split
        · subst_vars
          rw [List.lookup_cons, hi, List.lookup_cons, hi]
        · rw [List.lookup_cons, List.lookup_cons, ih, if_neg h]

/-- A fact put among facts in order leaves them in order. -/
theorem pairwise_put (id : NodeId) (value : Bool) {es : List (NodeId × Bool)}
    (h : es.Pairwise fun a b => a.1 < b.1) : (put id value es).Pairwise fun a b => a.1 < b.1 := by
  induction es with
  | nil => exact List.pairwise_singleton _ _
  | cons a es ih =>
    rw [List.pairwise_cons] at h
    rw [put]
    split
    · refine List.pairwise_cons.2 ⟨fun b hb => ?_, List.pairwise_cons.2 h⟩
      rcases List.mem_cons.1 hb with rfl | hb
      · assumption
      · exact Nat.lt_trans ‹_› (h.1 b hb)
    · split
      · subst_vars
        exact List.pairwise_cons.2 h
      · refine List.pairwise_cons.2 ⟨fun b hb => ?_, ih h.2⟩
        rcases fst_of_mem_put hb with hb | ⟨e, he, hb⟩
        · rw [hb]
          exact Nat.lt_of_le_of_ne (Nat.le_of_not_lt ‹_›) (Ne.symm ‹_›)
        · rw [hb]
          exact h.1 e he

end Facts

/-- Facts by node, in the order of the ids, at most one for each node. -/
structure Facts where
  entries : List (NodeId × Bool)
  sorted : entries.Pairwise fun a b => a.1 < b.1
  deriving DecidableEq

namespace Facts

/-- Nothing is known. -/
def empty : Facts := ⟨[], .nil⟩

/-- What is known of a node. -/
def get? (f : Facts) (id : NodeId) : Option Bool := f.entries.lookup id

/-- The facts with `value` known of a node. -/
def record (f : Facts) (id : NodeId) (value : Bool) : Facts :=
  ⟨put id value f.entries, pairwise_put id value f.sorted⟩

/-- What was recorded last of a node is known of it. -/
theorem get?_record (f : Facts) (id : NodeId) (value : Bool) (i : NodeId) :
    (f.record id value).get? i = if i = id then some value else f.get? i :=
  lookup_put id value f.entries i

/-- The number of nodes of which something is known. -/
def size (f : Facts) : Nat := f.entries.length

/-- The nodes of which the fact is true. -/
def holding (f : Facts) : List NodeId := (f.entries.filter fun e => e.2).map fun e => e.1

/-- The facts with the fact true of some more nodes. -/
def recordAll (f : Facts) (ids : List NodeId) : Facts := ids.foldl (fun f id => f.record id true) f

end Facts

end ResultHints
