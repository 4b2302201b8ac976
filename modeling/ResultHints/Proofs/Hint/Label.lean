import ResultHints.Hint.Label
import ResultHints.Proofs.Grammar.Passed
import ResultHints.Proofs.Hint.Chain

/-!
# Labels of lambdas that are passed

Which lambdas have labels, by the structure of the tree. Main statement:

- `lambdaLabel?_of_parse`: a lambda that a call takes after its arguments has the innermost
  label between the two, or else the name of what is called; other lambdas have none.
-/

namespace ResultHints

open Location Relation

variable {d : Document} {a c l t x y : Place}

/-! ## Lambda arguments -/

theorem passed_of_parse {source : List Char} (h : Document.parse source = .ok d) (ha : a ∈ d.nodes)
    (hk : a.kind = .lambdaArgument) : ∃ t, a.children = [t] ∧ IsPassedLambda t.outline := by
  obtain ⟨tokens, u, s', -, hfile, rfl⟩ := exists_of_parse h
  have hroot := List.forall_mem_singleton.1 (passed_of_readsFile (readsFile_of_file hfile))
  have hall : a.tree.Each HoldsPassedLambda :=
    walk_induction (P := fun x => x.tree.Each HoldsPassedLambda) hroot
      (fun p hp y hy => hp.child (tree_mem_of_mem_children hy)) ha
  obtain ⟨v, hv, hpassed⟩ := hall.self hk
  rw [← map_tree_children] at hv
  obtain ⟨t, ht, rfl⟩ := List.map_eq_singleton_iff.1 hv
  exact ⟨t, ht, hpassed⟩

/-- Labels and annotations of the one node stand around the other. -/
abbrev Location.Wraps : Place → Place → Prop := ReflTransGen fun x y => x.base? = some y

/-- The one node is a lambda argument, and the other is what it holds, inside labels and
    annotations. -/
def Location.Holds (a l : Place) : Prop := a.kind = .lambdaArgument ∧ ∃ t ∈ a.children, t.Wraps l

theorem Location.Holds.mem_nodes (h : a.Holds l) (ha : a ∈ d.nodes) : l ∈ d.nodes := by
  obtain ⟨-, t, ht, hwraps⟩ := h
  induction hwraps with
  | refl => exact mem_walk_of_mem_children ha ht
  | tail _ hbase ih => exact mem_walk_of_mem_children ih (mem_children_of_base? hbase)

theorem unwrappedFirst?_eq (p : NodeKind → Bool) (above ts : List (Tree Node)) :
    unwrappedFirst? p above ts = (ts.find? fun t => p t.label.kind).bind (unwrapped? above) := by
  induction ts with
  | nil => rfl
  | cons t ts ih =>
    rw [unwrappedFirst?, List.find?_cons]
    cases p t.label.kind with
    | true => rfl
    | false => exact ih

/-- What a node is inside its labels and annotations, it is inside its base. -/
theorem unwrapped?_eq (x : Place) : unwrapped? x.above x.tree =
    if x.kind = .lambda then some x else x.base?.bind fun y => unwrapped? y.above y.tree := by
  obtain ⟨⟨⟨⟨k, span⟩, i⟩, ts⟩, above⟩ := x
  rw [unwrapped?.eq_def]
  cases k with
  | lambda => rfl
  | labeled =>
    cases ts <;> rfl
  | annotated =>
    change unwrappedFirst? _ _ ts = Option.bind (List.find? _ (ts.map _)) _
    rw [unwrappedFirst?_eq, List.find?_map, Option.bind_map]
    rfl
  | _ => rfl

theorem not_lambda_of_base? (h : x.base? = some y) : x.kind ≠ .lambda := by
  intro hk
  rw [base?, hk] at h
  cases h

theorem unwrapped?_eq_some :
    unwrapped? x.above x.tree = some l ↔ x.Wraps l ∧ l.kind = .lambda := by
  constructor
  · intro h
    induction x using descent with
    | h x ih =>
      rw [unwrapped?_eq] at h
      split at h
      · next hk =>
        obtain rfl := Option.some.inj h
        exact ⟨.refl, hk⟩
      · obtain ⟨y, hbase, hy⟩ := Option.bind_eq_some_iff.1 h
        have hbelow := mem_descendants_of_mem_children (mem_children_of_base? hbase)
        exact (ih y hbelow hy).imp_left (.head hbase)
  · rintro ⟨hwraps, hk⟩
    induction hwraps using ReflTransGen.head_induction_on with
    | refl => rw [unwrapped?_eq, if_pos hk]
    | head hbase _ ih =>
      rw [unwrapped?_eq, if_neg (not_lambda_of_base? hbase), hbase, Option.bind_some, ih]

/-- The lambda that is found in a lambda argument is the one it holds. -/
theorem passedLambda?_eq_some (ht : a.children = [t]) :
    a.passedLambda? = some l ↔ a.Holds l ∧ l.kind = .lambda := by
  have hfirst : unwrappedFirst? (fun _ => true) (a.tree :: a.above) a.tree.children =
      unwrapped? t.above t.tree := by
    obtain ⟨⟨n, ts⟩, above⟩ := a
    obtain ⟨u, rfl, rfl⟩ := List.map_eq_singleton_iff.1 ht
    rw [unwrappedFirst?_eq]
    rfl
  rw [passedLambda?, hfirst, Location.Holds]
  split
  · next hk => simp [unwrapped?_eq_some, hk, ht]
  · next hk => simp [hk]

theorem passedLambda?_of_parse {source : List Char} (h : Document.parse source = .ok d)
    (ha : a ∈ d.nodes) : a.passedLambda? = some l ↔ a.Holds l ∧ l.kind = .lambda := by
  by_cases hk : a.kind = .lambdaArgument
  · obtain ⟨t, hchildren, -⟩ := passed_of_parse h ha hk
    exact passedLambda?_eq_some hchildren
  · simp [passedLambda?, Location.Holds, hk]

/-! ## Labels -/

namespace Location

/-- The name of a label. -/
def labelName? (x : Place) : Option String :=
  match x.kind with
  | .labeled label => some label
  | _ => none

/-- The innermost label around a node that is inside another node. -/
def labelBetween? (c l : Place) : Option String :=
  (l.ancestors.takeWhile fun x => x.id != c.id).findSome? labelName?

/-- The name that a node refers to. -/
def referenceName? (x : Place) : Option String :=
  match x.kind with
  | .nameReference name => some name
  | _ => none

theorem ownLabel?_eq (x : Place) : x.ownLabel? = x.ancestors.head?.bind labelName? := rfl

theorem calleeName?_of_call (hk : x.kind = .call) :
    x.calleeName? = x.children.head?.bind referenceName? := by
  rw [calleeName?, callee?, if_pos hk]
  rfl

end Location

theorem kind_of_outline {k : NodeKind} {ts : List (Tree NodeKind)} (h : x.outline = .node k ts) :
    x.kind = k ∧ x.children.map outline = ts := by
  rw [← label_outline, ← children_outline, h]
  exact ⟨rfl, rfl⟩

/-- Between a lambda argument and its lambda there are labels and annotations only, and only the
    innermost of them may be a label. -/
theorem ancestors_of_passed (ht : IsPassedLambda t.outline) (hwraps : t.Wraps l)
    (hk : l.kind = .lambda) : ∃ ws, l.ancestors = ws ++ t.ancestors ∧
      (∀ w ∈ ws, w.kind.role = .wrapper) ∧ ws.findSome? labelName? = ws.head?.bind labelName? := by
  generalize ho : t.outline = o at ht
  -- The lambda is not what it is wrapped in, so that there is a base to go on with.
  have hbase {k : NodeKind} {t : Place} (hkind : t.kind = k) (hne : k ≠ .lambda)
      (hwraps : t.Wraps l) : ∃ y, t.base? = some y ∧ y.Wraps l := by
    rcases hwraps.cases_head with rfl | ⟨y, hy, hwraps⟩
    · exact absurd (hkind.symm.trans hk) hne
    · exact ⟨y, hy, hwraps⟩
  induction ht generalizing t with
  | lambda =>
    obtain ⟨hkind, -⟩ := kind_of_outline ho
    rcases hwraps.cases_head with rfl | ⟨y, hy, -⟩
    · exact ⟨[], rfl, by simp, rfl⟩
    · exact absurd hkind (not_lambda_of_base? hy)
  | @labeled label u hu =>
    obtain ⟨hkind, hchildren⟩ := kind_of_outline ho
    obtain ⟨y, hy, hwraps⟩ := hbase hkind nofun hwraps
    have hmem := mem_children_of_base? hy
    have hylambda : y.kind = .lambda := by
      have hy' := List.mem_map_of_mem (f := outline) hmem
      rw [hchildren, List.mem_singleton] at hy'
      rw [← label_outline, hy', hu]
    rcases hwraps.cases_head with rfl | ⟨z, hz, -⟩
    · refine ⟨[t], ancestors_of_mem_children hmem, ?_, by simp⟩
      rw [List.forall_mem_singleton, hkind]
      rfl
    · exact absurd hylambda (not_lambda_of_base? hz)
  | @annotated es u hes _ ih =>
    obtain ⟨hkind, hchildren⟩ := kind_of_outline ho
    obtain ⟨y, hy, hwraps⟩ := hbase hkind nofun hwraps
    have hmem := mem_children_of_base? hy
    have hyu : y.outline = u := by
      have hy' := List.mem_map_of_mem (f := outline) hmem
      rw [hchildren, List.mem_append, List.mem_singleton] at hy'
      refine hy'.resolve_left fun hentry => ?_
      -- The base is no annotation entry.
      have hyes := hes _ hentry
      rw [base?, hkind] at hy
      have hno := List.find?_some hy
      rw [label_outline] at hyes
      simp [hyes] at hno
    obtain ⟨ws, hws, hrole, hlabel⟩ := ih hwraps hyu
    have hlabelName : t.labelName? = none := by rw [labelName?, hkind]
    refine ⟨ws ++ [t], ?_, ?_, ?_⟩
    · rw [hws, ancestors_of_mem_children hmem, List.append_assoc, List.singleton_append]
    · rw [List.forall_mem_append, List.forall_mem_singleton, hkind]
      exact ⟨hrole, rfl⟩
    · rw [List.findSome?_append, hlabel]
      cases ws <;> simp [hlabelName]

/-- Nothing between a lambda that is passed and its call is a call, and only the innermost node
    between the two may be a label. -/
theorem ancestors_of_holds (ha : a ∈ c.children) (hchildren : a.children = [t])
    (hpassed : IsPassedLambda t.outline) (hholds : a.Holds l) (hk : l.kind = .lambda) :
    ∃ ws, l.ancestors = ws ++ c :: c.ancestors ∧ (∀ w ∈ ws, w.kind ≠ .call) ∧
      ws.findSome? labelName? = ws.head?.bind labelName? := by
  obtain ⟨hak, t', ht', hwraps⟩ := hholds
  have htmem : t ∈ a.children := by simp [hchildren]
  obtain rfl : t' = t := by
    rw [hchildren] at ht'
    exact List.mem_singleton.1 ht'
  obtain ⟨ws, hws, hrole, hlabel⟩ := ancestors_of_passed hpassed hwraps hk
  have hlast : a.labelName? = none := by rw [labelName?, hak]
  refine ⟨ws ++ [a], ?_, fun y hy hyk => ?_, ?_⟩
  · rw [hws, ancestors_of_mem_children htmem, ancestors_of_mem_children ha, List.append_assoc]
    rfl
  · -- The labels, the annotations and the lambda argument are no calls.
    rcases List.mem_append.1 hy with hy | hy
    · have hyrole := hrole y hy
      rw [hyk] at hyrole
      cases hyrole
    · obtain rfl := List.mem_singleton.1 hy
      rw [hak] at hyk
      cases hyk
  · rw [List.findSome?_append, hlabel]
    cases ws <;> simp [hlast]

theorem passes_of_holds (hck : c.kind = .call) (ha : a ∈ c.children) (hchildren : a.children = [t])
    (hholds : a.Holds l) (hk : l.kind = .lambda) : c.passes l := by
  rw [passes, List.any_eq_true, lambdaArguments, if_pos hck]
  refine ⟨a, List.mem_filter.2 ⟨ha, beq_iff_eq.2 hholds.1⟩, ?_⟩
  rw [(passedLambda?_eq_some hchildren).2 ⟨hholds, hk⟩, Option.any_some, beq_self_eq_true]

/-- A call passes a lambda in a lambda argument that holds it. -/
theorem exists_holds_of_passes {source : List Char} (h : Document.parse source = .ok d)
    (hc : c ∈ d.nodes) (hl : l ∈ d.nodes) (hpasses : c.passes l) : ∃ a ∈ d.nodes, a.Holds l := by
  rw [passes, List.any_eq_true] at hpasses
  obtain ⟨a, ha, hpasses⟩ := hpasses
  obtain ⟨l', hl', hi⟩ := (Option.any_eq_true ..).1 hpasses
  have hanode : a ∈ d.nodes := by
    rw [lambdaArguments] at ha
    split at ha
    · exact mem_walk_of_mem_children hc (List.mem_of_mem_filter ha)
    · cases ha
  obtain ⟨hholds, -⟩ := (passedLambda?_of_parse h hanode).1 hl'
  obtain rfl := (regular_of_parse h).eq_of_id_eq (hholds.mem_nodes hanode) hl (beq_iff_eq.1 hi)
  exact ⟨a, hanode, hholds⟩

/-- A lambda that is passed has the innermost label between it and its call, or else the name that
    the first part of the call refers to. -/
theorem lambdaLabel?_of_holds (hd : d.Regular) (hl : l ∈ d.nodes) (hc : c ∈ d.nodes)
    (hck : c.kind = .call) (ha : a ∈ c.children) (hchildren : a.children = [t])
    (hpassed : IsPassedLambda t.outline) (hholds : a.Holds l) (hk : l.kind = .lambda) :
    l.lambdaLabel? = (labelBetween? c l <|> c.children.head?.bind referenceName?) := by
  obtain ⟨ws, hws, hbetween, hlabel⟩ := ancestors_of_holds ha hchildren hpassed hholds hk
  have hnearest : l.nearest? (fun n => n.kind == .call) = some c := by
    rw [Location.nearest?, hws, List.find?_append, List.find?_eq_none.2, Option.none_or]
    · exact List.find?_cons_of_pos (beq_iff_eq.2 hck)
    · exact fun y hy hyk => hbetween y hy (beq_iff_eq.1 hyk)
  have hown : l.ownLabel? = labelBetween? c l := by
    have hids : ∀ y ∈ ws, (y.id != c.id) = true := by
      intro y hy
      rw [bne_iff_ne]
      intro hi
      have hnode := hd.mem_of_mem_ancestors hl (hws ▸ List.mem_append_left _ hy)
      exact hbetween y hy (hd.eq_of_id_eq hnode hc hi ▸ hck)
    have hcall : c.labelName? = none := by rw [labelName?, hck]
    rw [ownLabel?_eq, labelBetween?, hws, List.takeWhile_append_of_pos hids,
      List.takeWhile_cons_of_neg (by simp), List.append_nil, hlabel]
    cases ws <;> simp [hcall]
  rw [lambdaLabel?, hnearest]
  simp [passes_of_holds hck ha hchildren hholds hk, hown, calleeName?_of_call hck]

/-- A lambda that a call takes after its arguments has the innermost label between the call and
    the lambda, or else the name of what is called, which is the first part of the call, if that
    is a name. A lambda that no lambda argument holds has none. -/
theorem lambdaLabel?_of_parse {source : List Char} (h : Document.parse source = .ok d)
    (hl : l ∈ d.nodes) (hk : l.kind = .lambda) :
    (∀ c ∈ d.nodes, c.kind = .call → ∀ a ∈ c.children, a.Holds l →
      l.lambdaLabel? = (labelBetween? c l <|> c.children.head?.bind referenceName?)) ∧
    ((∀ a ∈ d.nodes, ¬a.Holds l) → l.lambdaLabel? = none) := by
  have hd := regular_of_parse h
  constructor
  · intro c hc hck a ha hholds
    obtain ⟨t, hchildren, hpassed⟩ := passed_of_parse h (mem_walk_of_mem_children hc ha) hholds.1
    exact lambdaLabel?_of_holds hd hl hc hck ha hchildren hpassed hholds hk
  · -- A label is that of a call that passes the lambda.
    intro hno
    unfold lambdaLabel?
    cases hnearest : l.nearest? fun n => n.kind == .call with
    | none => rfl
    | some c =>
      have hc := hd.mem_of_mem_ancestors hl (List.mem_of_find?_eq_some hnearest)
      have hpasses : c.passes l = false := by
        rw [Bool.eq_false_iff]
        intro hpasses
        obtain ⟨a, ha, hholds⟩ := exists_holds_of_passes h hc hl hpasses
        exact hno a ha hholds
      simp [hpasses]

/-- Whether a call takes a lambda after its arguments that has the given label, or none, by the
    structure of the tree. -/
def Document.hasPassedLambda (d : Document) (label : Option String) : Bool :=
  d.nodes.any fun c => c.kind == .call && c.children.any fun a => a.passedLambda?.any fun l =>
    (labelBetween? c l <|> c.children.head?.bind referenceName?) == label

theorem exists_of_hasPassedLambda {source : List Char} {label : Option String}
    (h : Document.parse source = .ok d) (hp : d.hasPassedLambda label) :
    ∃ l ∈ d.nodes, l.kind = .lambda ∧ ∃ c ∈ d.nodes, c.kind = .call ∧ ∃ a ∈ c.children,
      a.Holds l ∧ (labelBetween? c l <|> c.children.head?.bind referenceName?) = label := by
  simp only [Document.hasPassedLambda, List.any_eq_true, Option.any_eq_true, Bool.and_eq_true,
    beq_iff_eq] at hp
  obtain ⟨c, hc, hck, a, ha, l, hpassed, hlabel⟩ := hp
  have hanode := mem_walk_of_mem_children hc ha
  obtain ⟨hholds, hk⟩ := (passedLambda?_of_parse h hanode).1 hpassed
  exact ⟨l, hholds.mem_nodes hanode, hk, c, hc, hck, a, ha, hholds, hlabel⟩

/-- Whether there is a lambda that no lambda argument holds. -/
def Document.hasUnpassedLambda (d : Document) : Bool :=
  d.nodes.any fun l => l.kind == .lambda &&
    d.nodes.all fun a => a.passedLambda?.all fun l' => l'.id != l.id

theorem exists_of_hasUnpassedLambda {source : List Char} (h : Document.parse source = .ok d)
    (hp : d.hasUnpassedLambda) : ∃ l ∈ d.nodes, l.kind = .lambda ∧ ∀ a ∈ d.nodes, ¬a.Holds l := by
  simp only [Document.hasUnpassedLambda, List.any_eq_true, List.all_eq_true, Option.all_eq_true,
    Bool.and_eq_true, beq_iff_eq, bne_iff_ne] at hp
  obtain ⟨l, hl, hk, hall⟩ := hp
  exact ⟨l, hl, hk, fun a ha hholds =>
    hall a ha l ((passedLambda?_of_parse h ha).2 ⟨hholds, hk⟩) rfl⟩

/-- In `g{f({a})@A l@{b};(h){c}}` calls take three lambdas after their arguments: the one behind
    the label has this label, the one after `g` has the name of what is called, and the one after
    `(h)` has none, for there is no name. The lambda between parentheses has none either. -/
theorem lambdaLabel?_of_four_lambdas :
    ∃ d, Document.parse "g{f({a})@A l@{b};(h){c}}".toList = .ok d ∧
      (∀ label ∈ [some "l", some "g", none], ∃ l ∈ d.nodes, l.kind = .lambda ∧
        (∃ c ∈ d.nodes, c.kind = .call ∧ ∃ a ∈ c.children, a.Holds l) ∧
          l.lambdaLabel? = label) ∧
      ∃ l ∈ d.nodes, l.kind = .lambda ∧ (∀ a ∈ d.nodes, ¬a.Holds l) ∧ l.lambdaLabel? = none := by
  have hparse : (Document.parse "g{f({a})@A l@{b};(h){c}}".toList).toOption.any (fun d =>
      [some "l", some "g", none].all d.hasPassedLambda && d.hasUnpassedLambda) = true := by
    decide +kernel
  obtain ⟨d, h, hp⟩ := exists_of_parse_any hparse
  rw [Bool.and_eq_true, List.all_eq_true] at hp
  obtain ⟨hpassed, hunpassed⟩ := hp
  refine ⟨d, h, fun label hlabel => ?_, ?_⟩
  · obtain ⟨l, hl, hk, c, hc, hck, a, ha, hholds, hname⟩ :=
      exists_of_hasPassedLambda h (hpassed label hlabel)
    have heq := (lambdaLabel?_of_parse h hl hk).1 c hc hck a ha hholds
    exact ⟨l, hl, hk, ⟨c, hc, hck, a, ha, hholds⟩, heq.trans hname⟩
  · obtain ⟨l, hl, hk, hno⟩ := exists_of_hasUnpassedLambda h hunpassed
    exact ⟨l, hl, hk, hno, (lambdaLabel?_of_parse h hl hk).2 hno⟩

end ResultHints
