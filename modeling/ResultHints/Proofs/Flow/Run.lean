import ResultHints.Proofs.Flow.Path

/-!
# Abstract runs

What can come of evaluating a node, if nothing is known of its conditions (`Runs`): it
aborts, or it completes with the value of some node or with none. The analyses of
jumps and of results say just what the runs do:

- `alwaysJumps_iff_runs`: a node always jumps if all its runs abort;
- `runs_completes_iff_path`: a run completes with the value of a node if steps lead to
  it.
-/

namespace ResultHints

open Location Relation

/-- What comes of a run: a jump out of the node, or the value of a node, or nothing. -/
inductive Outcome
  | aborts
  | completes (value : Option NodeId)

/-- The same, without a value. -/
def Outcome.withoutValue : Outcome → Outcome
  | aborts => aborts
  | completes _ => completes none

mutual
/-- A run of a node, with its outcome. -/
inductive Runs : Place → Outcome → Prop
  | jump {x : Place} : x.kind.role = .jump → Runs x .aborts
  | sequence {x : Place} {o : Outcome} : x.kind.role = .sequence → RunsThrough x.children o →
    Runs x o
  /-- One of several branches, if they are for every case. -/
  | chosen {x y : Place} {o : Outcome} : x.isExhaustive → y ∈ x.alternatives → Runs y o → Runs x o
  /-- No branch, if none is for the rest of the cases. -/
  | skipped {x : Place} : x.kind.role = .choice → x.isExhaustive = false → Runs x (.completes none)
  /-- A branch of a choice that may be skipped gives no value. -/
  | entered {x y : Place} {o : Outcome} : x.kind.role = .choice → x.isExhaustive = false →
    y ∈ x.alternatives → Runs y o → Runs x o.withoutValue
  | branch {x y : Place} {o : Outcome} : x.kind.role = .branch → x.children.head? = some y →
    Runs y o → Runs x o
  | wrapped {x y : Place} {o : Outcome} : x.wrapped? = some y → Runs y o → Runs x o
  | bare {x : Place} : x.kind.role = .wrapper → x.wrapped? = none → Runs x (.completes none)
  | value {x : Place} : x.kind.role = .value → Runs x (.completes (some x.id))
  | nothing {x : Place} : x.kind.role = .nothing → Runs x (.completes none)

/-- A run of some nodes one after the other, up to the first that aborts. -/
inductive RunsThrough : List Place → Outcome → Prop
  | nil : RunsThrough [] (.completes none)
  | last {y : Place} {o : Outcome} : Runs y o → RunsThrough [y] o
  | stop {y : Place} {ys : List Place} : Runs y .aborts → RunsThrough (y :: ys) .aborts
  | next {y z : Place} {ys : List Place} {v : Option NodeId} {o : Outcome} :
    Runs y (.completes v) → RunsThrough (z :: ys) o → RunsThrough (y :: z :: ys) o
end

variable {d : Document} {x y : Place} {i : NodeId}

/-- The runs of a node, by the role of its kind. -/
theorem runs_cases {o : Outcome} (h : Runs x o) :
    match x.kind.role with
    | .jump => o = .aborts
    | .sequence => RunsThrough x.children o
    | .choice => (x.isExhaustive ∧ ∃ y ∈ x.alternatives, Runs y o) ∨ (x.isExhaustive = false ∧
        (o = .completes none ∨ ∃ y ∈ x.alternatives, ∃ o', Runs y o' ∧ o = o'.withoutValue))
    | .branch => ∃ y, x.children.head? = some y ∧ Runs y o
    | .wrapper => (∃ y, x.wrapped? = some y ∧ Runs y o) ∨ (x.wrapped? = none ∧ o = .completes none)
    | .value => o = .completes (some x.id)
    | .nothing => o = .completes none := by
  cases h with
  | jump hrole => rw [hrole]
  | sequence hrole h => rw [hrole]; exact h
  | chosen hall hy h => rw [role_of_isExhaustive hall]; exact .inl ⟨hall, _, hy, h⟩
  | skipped hrole hall => rw [hrole]; exact .inr ⟨hall, .inl rfl⟩
  | entered hrole hall hy h => rw [hrole]; exact .inr ⟨hall, .inr ⟨_, hy, _, h, rfl⟩⟩
  | branch hrole hy h => rw [hrole]; exact ⟨_, hy, h⟩
  | wrapped hy h => rw [role_of_wrapped? hy]; exact .inl ⟨_, hy, h⟩
  | bare hrole hnone => rw [hrole]; exact .inr ⟨hnone, rfl⟩
  | value hrole => rw [hrole]
  | nothing hrole => rw [hrole]

/-! ## Jumps -/

/-- The analysis of jumps says of a node what its runs do. -/
structure JumpsAsRuns (x : Place) : Prop where
  aborts : alwaysJumps x.tree = true → Runs x .aborts ∧ ∀ o, Runs x o → o = .aborts
  completes : alwaysJumps x.tree = false → ∃ v, Runs x (.completes v)

theorem JumpsAsRuns.of_same (h : JumpsAsRuns y) (hjumps : alwaysJumps x.tree = alwaysJumps y.tree)
    (hruns : ∀ o, Runs x o ↔ Runs y o) : JumpsAsRuns x := by
  constructor
  · intro hx
    obtain ⟨habort, hall⟩ := h.aborts (hjumps ▸ hx)
    exact ⟨(hruns _).2 habort, fun o ho => hall o ((hruns o).1 ho)⟩
  · intro hx
    obtain ⟨v, hv⟩ := h.completes (hjumps ▸ hx)
    exact ⟨v, (hruns _).2 hv⟩

theorem JumpsAsRuns.of_completes {v : Option NodeId} (hjumps : alwaysJumps x.tree = false)
    (hruns : Runs x (.completes v)) : JumpsAsRuns x :=
  ⟨fun h => absurd (hjumps.symm.trans h) nofun, fun _ => ⟨v, hruns⟩⟩

/-- So it does of nodes one after the other, if it does of each. -/
theorem runsThrough_of_jumpsAsRuns {ys : List Place} (h : ∀ y ∈ ys, JumpsAsRuns y) :
    (ys.any (fun y => alwaysJumps y.tree) = true →
      RunsThrough ys .aborts ∧ ∀ o, RunsThrough ys o → o = .aborts) ∧
    (ys.any (fun y => alwaysJumps y.tree) = false → ∃ v, RunsThrough ys (.completes v)) := by
  induction ys with
  | nil => exact ⟨nofun, fun _ => ⟨none, .nil⟩⟩
  | cons y ys ih =>
    obtain ⟨ihaborts, ihcompletes⟩ := ih fun z hz => h z (List.mem_cons_of_mem _ hz)
    have hy := h y List.mem_cons_self
    rw [List.any_cons]
    cases hjump : alwaysJumps y.tree with
    | true =>
      -- The first node is never passed, whatever comes after it.
      obtain ⟨habort, hall⟩ := hy.aborts hjump
      refine ⟨fun _ => ⟨.stop habort, fun o ho => ?_⟩, nofun⟩
      cases ho with
      | last ho => exact hall _ ho
      | stop => rfl
      | next ho => exact absurd (hall _ ho) nofun
    | false =>
      obtain ⟨v, hv⟩ := hy.completes hjump
      rw [Bool.false_or]
      cases ys with
      | nil => exact ⟨nofun, fun _ => ⟨v, .last hv⟩⟩
      | cons z zs =>
        constructor
        · intro hany
          obtain ⟨habort, hall⟩ := ihaborts hany
          refine ⟨.next hv habort, fun o ho => ?_⟩
          cases ho with
          | stop => rfl
          | next _ ho => exact hall _ ho
        · intro hany
          obtain ⟨w, hw⟩ := ihcompletes hany
          exact ⟨w, .next hv hw⟩

theorem Location.mem_descendants_of_mem_alternatives (h : y ∈ x.alternatives) :
    y ∈ x.descendants := by
  obtain ⟨b, hb, hy⟩ := mem_alternatives.1 h
  exact mem_descendants_of_mem_children_children (mem_children_of_mem_branches hb)
    (mem_children_of_content? hy)

/-- What is for every case has something to choose from. -/
theorem exists_mem_alternatives (hd : d.Regular) (hx : x ∈ d.nodes) (h : x.isExhaustive) :
    ∃ y, y ∈ x.alternatives := by
  have hbranch : ∃ b, b ∈ x.branches := by
    unfold isExhaustive at h
    split at h
    · next hk =>
      obtain ⟨b, hb, hbk⟩ := List.any_eq_true.1 h
      exact ⟨b, by simp [branches_of_ifElse hk, hb, hbk]⟩
    · next hk =>
      obtain ⟨b, hb, hbk⟩ := List.any_eq_true.1 h
      exact ⟨b, by simp [branches_of_when hk, hb, beq_iff_eq.1 hbk, NodeKind.isWhenEntry]⟩
    · cases h
  obtain ⟨b, hb⟩ := hbranch
  obtain ⟨y, hy, -⟩ := exists_content hd hx hb
  exact ⟨y, mem_alternatives.2 ⟨b, hb, hy⟩⟩

/-- A choice always jumps if it is for every case and all that it chooses from always jumps. -/
theorem jumpsAsRuns_of_choice (hd : d.Regular) (hx : x ∈ d.nodes) (hrole : x.kind.role = .choice)
    (h : ∀ y ∈ x.alternatives, JumpsAsRuns y) (hne : x.isExhaustive → ∃ y, y ∈ x.alternatives) :
    JumpsAsRuns x := by
  have hjumps := alwaysJumps_of_choice hd hx hrole
  have hruns {o : Outcome} (ho : Runs x o) := runs_cases ho
  simp only [hrole] at hruns
  constructor
  · intro hx
    rw [hjumps, Bool.and_eq_true, List.all_eq_true] at hx
    obtain ⟨hall, hevery⟩ := hx
    constructor
    · obtain ⟨y, hy⟩ := hne hall
      exact .chosen hall hy ((h y hy).aborts (hevery y hy)).1
    · intro o ho
      rcases hruns ho with ⟨-, y, hy, ho⟩ | ⟨hnot, -⟩
      · exact ((h y hy).aborts (hevery y hy)).2 o ho
      · rw [hall] at hnot
        cases hnot
  · intro hx
    rw [hjumps] at hx
    cases hall : x.isExhaustive with
    | false =>
      -- What may be skipped completes without a value.
      exact ⟨none, .skipped hrole hall⟩
    | true =>
      rw [hall, Bool.true_and, List.all_eq_false] at hx
      obtain ⟨y, hy, hnot⟩ := hx
      obtain ⟨v, hv⟩ := (h y hy).completes (by simpa using hnot)
      exact ⟨v, .chosen hall hy hv⟩

/-- A branch has one child, and runs as that does. -/
theorem jumpsAsRuns_of_branch (hd : d.Regular) (hx : x ∈ d.nodes) (hrole : x.kind.role = .branch)
    (h : ∀ y ∈ x.children, JumpsAsRuns y) : JumpsAsRuns x := by
  have hruns {o : Outcome} (ho : Runs x o) := runs_cases ho
  simp only [hrole] at hruns
  have hk : x.kind.isControlBody := by
    rcases NodeKind.thenBranch_or_elseBranch_of_role hrole with hk | hk <;> rw [hk] <;> rfl
  obtain ⟨y, hchildren, -⟩ := hd.children_of_controlBody hx hk
  refine (h y (by simp [hchildren])).of_same ?_ fun o => ?_
  · rw [alwaysJumps_of_branch hrole, hchildren]
    rfl
  · refine ⟨fun ho => ?_, .branch hrole (by rw [hchildren]; rfl)⟩
    obtain ⟨z, hz, hzo⟩ := hruns ho
    rw [hchildren, List.head?_cons, Option.some.injEq] at hz
    rwa [hz]

/-- A label, annotations or parentheses run as what is inside, if there is something. -/
theorem jumpsAsRuns_of_wrapper (hrole : x.kind.role = .wrapper)
    (h : ∀ y, x.wrapped? = some y → JumpsAsRuns y) : JumpsAsRuns x := by
  have hruns {o : Outcome} (ho : Runs x o) := runs_cases ho
  simp only [hrole] at hruns
  have hjumps := alwaysJumps_of_wrapper hrole
  cases hw : x.wrapped? with
  | none =>
    rw [hw] at hjumps
    exact .of_completes hjumps (.bare hrole hw)
  | some y =>
    refine (h y hw).of_same ?_ fun o => ⟨fun ho => ?_, .wrapped hw⟩
    · rw [hjumps, hw]
      rfl
    · rcases hruns ho with ⟨z, hz, hzo⟩ | ⟨hnone, -⟩
      · rw [hw, Option.some.injEq] at hz
        rwa [hz]
      · rw [hw] at hnone
        cases hnone

/-- The analysis of jumps says of every node what its runs do. -/
theorem jumpsAsRuns (hd : d.Regular) (hx : x ∈ d.nodes) : JumpsAsRuns x := by
  induction x using descent with
  | h x ih =>
    have below : ∀ y ∈ x.descendants, JumpsAsRuns y := fun y hy =>
      ih y hy (mem_walk_of_mem_descendants hx hy)
    have hruns {o : Outcome} (ho : Runs x o) := runs_cases ho
    cases hrole : x.kind.role with
    | jump =>
      simp only [hrole] at hruns
      refine ⟨fun _ => ⟨.jump hrole, fun o => hruns⟩, ?_⟩
      rw [alwaysJumps_of_jump hrole]
      nofun
    | sequence =>
      simp only [hrole] at hruns
      have hchildren : ∀ y ∈ x.children, JumpsAsRuns y := fun y hy =>
        below y (mem_descendants_of_mem_children hy)
      obtain ⟨haborts, hcompletes⟩ := runsThrough_of_jumpsAsRuns hchildren
      rw [← alwaysJumps_of_sequence hrole] at haborts hcompletes
      constructor
      · intro h
        obtain ⟨habort, hall⟩ := haborts h
        exact ⟨.sequence hrole habort, fun o ho => hall o (hruns ho)⟩
      · intro h
        obtain ⟨v, hv⟩ := hcompletes h
        exact ⟨v, .sequence hrole hv⟩
    | choice =>
      refine jumpsAsRuns_of_choice hd hx hrole (fun y hy => ?_) (exists_mem_alternatives hd hx)
      exact below y (mem_descendants_of_mem_alternatives hy)
    | branch =>
      refine jumpsAsRuns_of_branch hd hx hrole fun y hy => ?_
      exact below y (mem_descendants_of_mem_children hy)
    | wrapper =>
      refine jumpsAsRuns_of_wrapper hrole fun y hy => ?_
      exact below y (mem_descendants_of_mem_children (mem_children_of_wrapped? hy))
    | value => exact .of_completes (alwaysJumps_of_value (.inl hrole)) (.value hrole)
    | nothing => exact .of_completes (alwaysJumps_of_value (.inr hrole)) (.nothing hrole)

/-- A node always jumps if all its runs abort; and every node has a run. -/
theorem alwaysJumps_iff_runs (hd : d.Regular) (hx : x ∈ d.nodes) :
    (∃ o, Runs x o) ∧ (alwaysJumps x.tree = true ↔ ∀ o, Runs x o → o = .aborts) := by
  obtain ⟨haborts, hcompletes⟩ := jumpsAsRuns hd hx
  cases hjump : alwaysJumps x.tree with
  | true =>
    obtain ⟨habort, hall⟩ := haborts hjump
    exact ⟨⟨_, habort⟩, fun _ => hall, fun _ => rfl⟩
  | false =>
    obtain ⟨v, hv⟩ := hcompletes hjump
    exact ⟨⟨_, hv⟩, nofun, fun hall => absurd (hall _ hv) nofun⟩

/-! ## Values -/

/-- A run through nodes that completes with the value of a node does so in the last of them, and
    completes all before. -/
theorem runsThrough_completes_some {ys : List Place} :
    RunsThrough ys (.completes (some i)) ↔ ∃ zs y, ys = zs ++ [y] ∧
      (∀ z ∈ zs, ∃ v, Runs z (.completes v)) ∧ Runs y (.completes (some i)) := by
  induction ys with
  | nil =>
    constructor
    · nofun
    · rintro ⟨zs, y, h, -⟩
      cases zs <;> cases h
  | cons y ys ih =>
    constructor
    · intro h
      cases h with
      | last h => exact ⟨[], y, rfl, by simp, h⟩
      | next hv h =>
        obtain ⟨zs, w, heq, hzs, hw⟩ := ih.1 h
        refine ⟨y :: zs, w, by rw [heq]; rfl, ?_, hw⟩
        exact List.forall_mem_cons.2 ⟨⟨_, hv⟩, hzs⟩
    · rintro ⟨zs, w, heq, hzs, hw⟩
      cases zs with
      | nil =>
        obtain ⟨rfl, rfl⟩ := List.cons.inj heq
        exact .last hw
      | cons z zs =>
        obtain ⟨rfl, rfl⟩ := List.cons.inj heq
        obtain ⟨⟨v, hv⟩, hzs⟩ := List.forall_mem_cons.1 hzs
        have hrest := ih.2 ⟨zs, w, rfl, hzs, hw⟩
        cases zs with
        | nil => exact .next hv hrest
        | cons => exact .next hv hrest

/-- A step leads to an expression or a declaration, never to a branch. -/
theorem ResultStep.role_ne_branch (hd : d.Regular) (hx : x ∈ d.nodes) (h : ResultStep x y) :
    y.kind.role ≠ .branch := by
  have hk : y.kind.isExpression ∨ y.kind.isDeclaration := by
    rcases h.kind hd hx with hk | hk
    · exact .inl hk
    · rw [NodeKind.isStatement, Bool.or_eq_true] at hk
      exact hk.imp_left NodeKind.isExpression_of_isValue
  intro hrole
  rcases NodeKind.thenBranch_or_elseBranch_of_role hrole with h | h <;> rw [h] at hk <;>
    rcases hk with hk | hk <;> cases hk

/-- A run that completes with the value of a node has it from a run one step further on, or the
    value is that of the node itself. -/
theorem step_of_runs (hd : d.Regular) (hx : x ∈ d.nodes) (hbranch : x.kind.role ≠ .branch)
    (hrun : Runs x (.completes (some i))) : (x.kind.role = .value ∧ x.id = i) ∨
      ∃ y, ResultStep x y ∧ Runs y (.completes (some i)) := by
  have hruns := runs_cases hrun
  cases hrole : x.kind.role with
  | sequence =>
    simp only [hrole] at hruns
    obtain ⟨zs, y, hchildren, hzs, hy⟩ := runsThrough_completes_some.1 hruns
    refine .inr ⟨y, .last (NodeKind.eq_block_of_role hrole) hchildren fun z hz => ?_, hy⟩
    obtain ⟨v, hv⟩ := hzs z hz
    have hz : z ∈ d.nodes := mem_walk_of_mem_children hx (by simp [hchildren, hz])
    cases hjump : alwaysJumps z.tree with
    | true => exact absurd (((jumpsAsRuns hd hz).aborts hjump).2 _ hv) nofun
    | false => rfl
  | choice =>
    simp only [hrole] at hruns
    rcases hruns with ⟨hall, y, hy, hrun⟩ | ⟨-, heq | ⟨y, hy, o, ho, heq⟩⟩
    · exact .inr ⟨y, .alternative hall hy, hrun⟩
    · cases heq
    · cases o <;> cases heq
  | wrapper =>
    simp only [hrole] at hruns
    rcases hruns with ⟨y, hy, hrun⟩ | ⟨-, heq⟩
    · exact .inr ⟨y, .wrapped hy, hrun⟩
    · cases heq
  | branch => exact absurd hrole hbranch
  | value =>
    simp only [hrole, Outcome.completes.injEq, Option.some.injEq] at hruns
    exact .inl ⟨rfl, hruns.symm⟩
  | jump | nothing =>
    simp only [hrole] at hruns
    cases hruns

/-- A value that is reached one step further on is a value of the node. -/
theorem ResultStep.runs (hd : d.Regular) (hx : x ∈ d.nodes) (hstep : ResultStep x y)
    (hrun : Runs y (.completes (some i))) : Runs x (.completes (some i)) := by
  cases hstep with
  | last hk hchildren hys =>
    refine .sequence (by rw [hk]; rfl) ?_
    rw [hchildren]
    refine runsThrough_completes_some.2 ⟨_, y, rfl, fun w hw => ?_, hrun⟩
    have hmem : w ∈ d.nodes := mem_walk_of_mem_children hx (by simp [hchildren, hw])
    exact (jumpsAsRuns hd hmem).completes (hys w hw)
  | alternative hall hy => exact .chosen hall hy hrun
  | wrapped hy => exact .wrapped hy hrun

/-- Some run completes with the value of a node if steps lead to that node, and it has a value of
    its own. -/
theorem runs_completes_iff_path (hd : d.Regular) (hx : x ∈ d.nodes)
    (hbranch : x.kind.role ≠ .branch) : Runs x (.completes (some i)) ↔
    ∃ y, ReflTransGen ResultStep x y ∧ y.kind.role = .value ∧ y.id = i := by
  induction x using descent with
  | h x ih =>
    have further {y : Place} (h : ResultStep x y) : Runs y (.completes (some i)) ↔
        ∃ z, ReflTransGen ResultStep y z ∧ z.kind.role = .value ∧ z.id = i :=
      ih y h.mem_descendants (h.mem_nodes hx) (h.role_ne_branch hd hx)
    constructor
    · intro hrun
      rcases step_of_runs hd hx hbranch hrun with ⟨hrole, hi⟩ | ⟨y, hstep, hrun⟩
      · exact ⟨x, .refl, hrole, hi⟩
      · obtain ⟨z, hpath, hz⟩ := (further hstep).1 hrun
        exact ⟨z, hpath.head hstep, hz⟩
    · rintro ⟨z, hpath, hrole, rfl⟩
      rcases hpath.cases_head with rfl | ⟨y, hstep, hpath⟩
      · exact .value hrole
      · exact hstep.runs hd hx ((further hstep).2 ⟨z, hpath, hrole, rfl⟩)

/-- The analyses are adequate: a node always jumps if and only if all its runs abort, and a node
    with a value of its own is a result of a function literal if and only if some run of its body
    completes with it. -/
theorem flow_adequate {source : List Char} (h : Document.parse source = .ok d) :
    (∀ x ∈ d.nodes, (∃ o, Runs x o) ∧ (alwaysJumps x.tree = true ↔ ∀ o, Runs x o → o = .aborts)) ∧
    ∀ x ∈ d.nodes, x.kind = .functionLiteral → ∃ body, x.body? = some body ∧
      ∀ y ∈ d.nodes, y.kind.role = .value →
        (y.id ∈ x.results ↔ Runs body (.completes (some y.id))) := by
  have hd := regular_of_parse h
  refine ⟨fun x hx => alwaysJumps_iff_runs hd hx, fun x hx hk => ?_⟩
  obtain ⟨body, hbody⟩ := hd.exists_body hx hk
  refine ⟨body, hbody, fun y hy hrole => ?_⟩
  obtain ⟨-, hmem, hblock⟩ := body?_eq_some hbody
  have hnode := mem_walk_of_mem_children hx hmem
  have hsequence : body.kind.role = .sequence := by rw [hblock]; rfl
  rw [mem_results_iff_path hd hx, runs_completes_iff_path hd hnode (by rw [hsequence]; nofun)]
  constructor
  · rintro ⟨b, hb, z, hpath, -, hz⟩
    obtain rfl : body = b := Option.some.inj (hbody.symm.trans hb)
    obtain rfl := hd.eq_of_id_eq (mem_nodes_of_path hpath.to_reflTransGen hnode) hy hz
    exact ⟨z, hpath.to_reflTransGen, hrole, rfl⟩
  · rintro ⟨z, hpath, hz, hi⟩
    refine ⟨body, hbody, z, ?_, by rw [Location.yields, hz], hi⟩
    rcases reflTransGen_iff_eq_or_transGen.1 hpath with rfl | hpath
    · rw [hsequence] at hz
      cases hz
    · exact hpath

/-- In `f{if(c){return 1;2}else 3}` a block always jumps, and the lambda has a result. -/
theorem flow_adequate_of_jump_and_value : ∃ d,
    Document.parse "f{if(c){return 1;2}else 3}".toList = .ok d ∧
    (∃ x ∈ d.nodes, x.kind = .block ∧ ∀ o, Runs x o → o = .aborts) ∧
    ∃ x ∈ d.nodes, ∃ body, x.body? = some body ∧
      ∃ y ∈ d.nodes, y.kind.role = .value ∧ Runs body (.completes (some y.id)) := by
  have hparse : (Document.parse "f{if(c){return 1;2}else 3}".toList).toOption.any (fun d =>
      (d.nodes.any fun x => x.kind == .block && alwaysJumps x.tree) &&
        d.nodes.any fun x => x.kind == .functionLiteral && d.nodes.any fun y =>
          y.kind.role == .value && x.results.contains y.id) = true := by
    decide +kernel
  obtain ⟨d, h, hp⟩ := exists_of_parse_any hparse
  obtain ⟨hjumps, hresults⟩ := flow_adequate h
  simp only [Bool.and_eq_true, List.any_eq_true, beq_iff_eq, List.contains_iff_mem] at hp
  obtain ⟨⟨x, hx, hk, hjump⟩, z, hz, hliteral, y, hy, hrole, hi⟩ := hp
  obtain ⟨body, hbody, hvalues⟩ := hresults z hz hliteral
  refine ⟨d, h, ⟨x, hx, hk, (hjumps x hx).2.1 hjump⟩, z, hz, body, hbody, y, hy, hrole, ?_⟩
  exact (hvalues y hy hrole).1 hi

end ResultHints
