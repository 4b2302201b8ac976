import Mathlib.Data.Finset.Card
import Mathlib.Data.Finset.Dedup
import Mathlib.Data.Finset.Insert
import ResultHints.Proofs.Document.Builder
import ResultHints.Proofs.Facts.Kept

/-!
# Runs of an analyzer

An analyzer is asked for analyses, one after the other, and to forget what it found in
between. What it keeps shows in its size only: every answer is the one that an analyzer
gives that was asked for nothing before, and what it keeps are the facts for the keys that
were asked for since it last forgot, each key once. Main statement:

- `Analyzer.serve_as_fresh`: the answers to any requests, and the size after them.
-/

namespace ResultHints

open Location

/-! ## Requests -/

/-- What is asked of an analyzer: an analysis, or to forget what it found. -/
inductive Request
  | analyze (x : Place) (mode : ResolveMode)
  | clear

namespace Request

/-- Whether the node that is asked for, if any, is one of the document. -/
def IsIn (d : Document) : Request → Prop
  | analyze x _ => x ∈ d.places
  | clear => True

def isClear : Request → Bool
  | analyze _ _ => false
  | clear => true

/-- What the facts that are asked for are kept under: the innermost function literal around
    the node, or the top of its tree if all of it is analyzed. No facts are kept of
    declarations, nor of what is around a node outside of all literals. -/
def key? : Request → Option FactKey
  | analyze _ .declarations => none
  | analyze x .enclosing =>
    (x.nearest? fun n => n.kind == .functionLiteral).map fun y => ⟨y.id, .enclosing⟩
  | analyze x .everything => some ⟨x.top.id, .everything⟩
  | clear => none

/-- The answer to a request; to forget is not answered. -/
def serve : Request → StateM Analyzer (Option Facts)
  | analyze x mode => do return some (← Analyzer.analyze x mode).facts
  | clear => do
    modify Analyzer.clear
    return none

end Request

/-- The answers to requests that come one after the other. -/
def Analyzer.serve (rs : List Request) : StateM Analyzer (List (Option Facts)) :=
  rs.mapM Request.serve

/-- The requests after the last one to forget, the latest first. -/
def sinceClear (rs : List Request) : List Request := rs.reverse.takeWhile fun r => !r.isClear

/-- The keys that were asked for since the last request to forget. -/
def keysSinceClear (rs : List Request) : Finset FactKey :=
  ((sinceClear rs).filterMap Request.key?).toFinset

@[simp] theorem keysSinceClear_concat_clear (rs : List Request) :
    keysSinceClear (rs ++ [.clear]) = ∅ := by
  simp [keysSinceClear, sinceClear, Request.isClear]

/-- One more analysis adds its key, if it has one. -/
theorem keysSinceClear_concat_analyze (rs : List Request) (x : Place) (mode : ResolveMode) :
    keysSinceClear (rs ++ [.analyze x mode]) =
      (Request.analyze x mode).key?.elim (keysSinceClear rs) fun key =>
        insert key (keysSinceClear rs) := by
  cases hkey : (Request.analyze x mode).key? <;>
    simp [keysSinceClear, sinceClear, Request.isClear, hkey]

variable {d : Document} {a : Analyzer} {rs : List Request} {r : Request}

/-- The innermost of the literals around a node is the nearest one above it. -/
theorem head?_enclosingLiterals (x : Place) :
    x.enclosingLiterals.head? = x.nearest? fun n => n.kind == .functionLiteral :=
  List.head?_filter ..

/-- An analysis looks its facts up under the key of the request. -/
theorem map_fst_analysisOf? (x : Place) (mode : ResolveMode) :
    (analysisOf? x mode).map Prod.fst = (Request.analyze x mode).key? := by
  cases mode with
  | declarations => rfl
  | enclosing =>
    rw [Request.key?, ← head?_enclosingLiterals, analysisOf?]
    cases x.enclosingLiterals <;> rfl
  | everything => rfl

namespace Analyzer

/-! ## One request -/

/-- The keys of what an analyzer keeps. -/
def keys (a : Analyzer) : List FactKey := a.kept.keys

/-- An analysis adds its key, if it has one that is new. -/
theorem keys_analyze (x : Place) (mode : ResolveMode) (a : Analyzer) :
    (analyze x mode a).2.keys =
      (Request.analyze x mode).key?.elim a.keys fun key => a.keys.insert key := by
  rw [← map_fst_analysisOf?]
  unfold analyze
  cases analysisOf? x mode with
  | none => rfl
  | some found => exact Pool.keys_getOrCompute ..

/-- After the requests `rs`, an analyzer keeps the facts of the document for the keys that were
    asked for, each once. -/
structure Follows (d : Document) (rs : List Request) (a : Analyzer) : Prop where
  reached : a.Reached d
  nodup_keys : a.keys.Nodup
  toFinset_keys : a.keys.toFinset = keysSinceClear rs

theorem follows_empty : Follows d [] .empty where
  reached := .empty
  nodup_keys := List.nodup_nil
  toFinset_keys := rfl

/-- One request is answered as if nothing had been kept. -/
theorem Follows.serve_eq (hd : d.HasDistinctIds) (h : Follows d rs a) (hr : r.IsIn d) :
    (r.serve a).1 = (r.serve .empty).1 := by
  cases r with
  | analyze x mode =>
    have hanswer : (analyze x mode a).1.facts = (analyze x mode .empty).1.facts :=
      (h.reached.facts_analyze hd hr mode).trans (Reached.empty.facts_analyze hd hr mode).symm
    exact congrArg some hanswer
  | clear => rfl

/-- One request makes the keys those with its own. -/
theorem Follows.concat (h : Follows d rs a) (hr : r.IsIn d) :
    Follows d (rs ++ [r]) (r.serve a).2 := by
  cases r with
  | analyze x mode =>
    have hkeys : (Request.serve (.analyze x mode) a).2.keys = _ := keys_analyze x mode a
    refine ⟨.analyze mode h.reached hr, ?_, ?_⟩
    · rw [hkeys]
      cases (Request.analyze x mode).key? with
      | none => exact h.nodup_keys
      | some key => exact h.nodup_keys.insert
    · rw [hkeys, keysSinceClear_concat_analyze]
      cases (Request.analyze x mode).key? with
      | none => exact h.toFinset_keys
      | some key =>
        rw [Option.elim_some, Option.elim_some, ← h.toFinset_keys]
        ext k
        simp
  | clear => exact ⟨.clear h.reached, List.nodup_nil, (keysSinceClear_concat_clear rs).symm⟩

/-! ## Requests one after the other -/

theorem serve_concat (rs : List Request) (r : Request) (a : Analyzer) :
    serve (rs ++ [r]) a =
      ((serve rs a).1 ++ [(r.serve (serve rs a).2).1], (r.serve (serve rs a).2).2) := by
  simp only [serve, List.mapM_append, List.mapM_cons, List.mapM_nil]
  rfl

theorem follows_serve (hrs : ∀ r ∈ rs, r.IsIn d) : Follows d rs (serve rs .empty).2 := by
  induction rs using List.reverseRecOn with
  | nil => exact follows_empty
  | append_singleton rs r ih =>
    rw [serve_concat]
    exact (ih fun r hr => hrs r (List.mem_append_left _ hr)).concat
      (hrs r (List.mem_append_right _ List.mem_cons_self))

theorem answers_serve (hd : d.HasDistinctIds) (hrs : ∀ r ∈ rs, r.IsIn d) :
    (serve rs .empty).1 = rs.map fun r => (r.serve .empty).1 := by
  induction rs using List.reverseRecOn with
  | nil => rfl
  | append_singleton rs r ih =>
    have hinit : ∀ r ∈ rs, r.IsIn d := fun r hr => hrs r (List.mem_append_left _ hr)
    have hlast : r.IsIn d := hrs r (List.mem_append_right _ List.mem_cons_self)
    rw [serve_concat, ih hinit, (follows_serve hinit).serve_eq hd hlast, List.map_append]
    rfl

theorem size_serve (hrs : ∀ r ∈ rs, r.IsIn d) :
    (serve rs .empty).2.size = (keysSinceClear rs).card := by
  have h : Follows d rs (serve rs .empty).2 := follows_serve hrs
  rw [← h.toFinset_keys, List.toFinset_card_of_nodup h.nodup_keys]
  exact (Pool.length_keys _).symm

end Analyzer

/-- In any document that is built, whatever is asked of an analyzer and in whatever order: the
    answers are those of an analyzer that was asked for nothing before, each of them the facts of
    its node and mode; and as many facts are kept as different keys were asked for since what was
    found was last forgotten. -/
theorem Analyzer.serve_as_fresh {b : Builder} (hb : b.Built) {source : List Char}
    {tokens : Array Token} {root : NodeId} {d : Document}
    (hfinish : b.finish? source tokens root = some d) {rs : List Request}
    (hrs : ∀ r ∈ rs, r.IsIn d) :
    (serve rs .empty).1 = rs.map (fun r => (r.serve .empty).1) ∧
    (∀ x mode, .analyze x mode ∈ rs →
      (Request.serve (.analyze x mode) .empty).1 = some (factsOf x mode)) ∧
    (serve rs .empty).2.size = (keysSinceClear rs).card := by
  have hd : d.HasDistinctIds := hb.hasDistinctIds hfinish
  refine ⟨answers_serve hd hrs, fun x mode hx => ?_, size_serve hrs⟩
  exact congrArg some (Reached.empty.facts_analyze hd (hrs _ hx) mode)

/-- Asked for the nodes of a function literal over a block with one name, an analyzer keeps two
    facts: what is around the name and around the block is the same literal. -/
theorem Analyzer.serve_as_fresh_of_name : ∃ b : Builder, b.Built ∧
    ∃ d, b.finish? [] #[] 2 = some d ∧ ∃ x ∈ d.places, ∃ y ∈ d.places,
      x.kind = .nameReference "a" ∧ y.kind = .block ∧
      (serve [.analyze x .everything, .clear, .analyze x .enclosing, .analyze y .declarations,
        .analyze y .enclosing, .analyze y .everything] .empty).2.size = 2 := by
  let name : Tree Node := .node ⟨⟨.nameReference "a", ⟨1, 2⟩⟩, 0⟩ []
  let block : Tree Node := .node ⟨⟨.block, ⟨1, 2⟩⟩, 1⟩ [name]
  let literal : Tree Node := .node ⟨⟨.functionLiteral, ⟨0, 3⟩⟩, 2⟩ [block]
  have hblock : (Builder.mk [block] 2).Built :=
    (Builder.Built.empty.leaf ⟨.nameReference "a", ⟨1, 2⟩⟩).over (t := name) ⟨.block, ⟨1, 2⟩⟩
      List.mem_cons_self
  have hliteral : (Builder.mk [literal] 3).Built :=
    hblock.over (t := block) ⟨.functionLiteral, ⟨0, 3⟩⟩ List.mem_cons_self
  let d : Document := ⟨[], #[], [literal], 3, ⟨literal, []⟩⟩
  have hfinish : (Builder.mk [literal] 3).finish? [] #[] 2 = some d := rfl
  let x : Place := ⟨name, [block, literal]⟩
  let y : Place := ⟨block, [literal]⟩
  have hx : x ∈ d.places := List.mem_cons_of_mem _ (List.mem_cons_of_mem _ List.mem_cons_self)
  have hy : y ∈ d.places := List.mem_cons_of_mem _ List.mem_cons_self
  have hrs : ∀ r ∈ [.analyze x .everything, .clear, .analyze x .enclosing,
      .analyze y .declarations, .analyze y .enclosing, .analyze y .everything],
      Request.IsIn d r := by
    simp [Request.IsIn, hx, hy]
  have hsize := (serve_as_fresh hliteral hfinish hrs).2.2
  exact ⟨_, hliteral, d, hfinish, x, hx, y, hy, rfl, rfl, hsize.trans (by decide)⟩

end ResultHints
