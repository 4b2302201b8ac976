import ResultHints.Facts.Analysis
import ResultHints.Proofs.Facts.Counted

/-!
# Handles of facts

Facts are held by variables, and by the entries of a cache. They are copied from one to the
other, and recorded through variables, and nobody sees that storages are shared: at any time
each holds what it would hold if every one had facts of its own. Main statement:

- `FactStep.runAll_independent`: counted storages against facts of one's own, after any steps.
-/

namespace ResultHints

/-- What holds facts: a variable, or an entry of a cache. -/
inductive Handle (σ : Type)
  | slot (name : σ)
  | entry (key : FactKey)
  deriving DecidableEq

/-- Facts that a cache asks for because it does not have them: they are made, or what a
    variable holds is copied. -/
inductive FactSource (σ : Type)
  | made (f : Facts)
  | copied (name : σ)

/-- What is done with variables and a cache. -/
inductive FactStep (σ : Type)
  | new (a : σ)
  | clone (a b : σ)
  | record (a : σ) (id : NodeId) (value : Bool)
  | drop (h : Handle σ)
  | insert (key : FactKey) (a : σ)
  | get (key : FactKey) (a : σ)
  | getOrCompute (key : FactKey) (source : FactSource σ) (a : σ)

/-- Facts of one's own for what holds some. -/
abbrev OwnFacts (κ : Type) := κ → Option (NodeId → Option Bool)

variable {σ : Type} [DecidableEq σ]

namespace OwnFacts

variable {κ : Type} [DecidableEq κ]

/-- Gives facts to `k`, in place of those it has. -/
def give (m : OwnFacts κ) (k : κ) (f : NodeId → Option Bool) : OwnFacts κ :=
  Function.update m k (some f)

/-- Gives the facts of `a`, if it has some, to `b`. -/
def copy (m : OwnFacts κ) (a b : κ) : OwnFacts κ := (m a).elim m (m.give b)

/-- Adds a fact to those of `k`, if it has some, in place of what they have of the node. -/
def record (m : OwnFacts κ) (k : κ) (id : NodeId) (value : Bool) : OwnFacts κ :=
  (m k).elim m fun f => m.give k (Function.update f id (some value))

end OwnFacts

namespace FactStep

open Handle

/-- A step where all have facts of their own. -/
def own (m : OwnFacts (Handle σ)) : FactStep σ → OwnFacts (Handle σ)
  | new a => m.give (slot a) fun _ => none
  | clone a b => m.copy (slot a) (slot b)
  | record a id value => m.record (slot a) id value
  | drop h => Function.update m h none
  | insert key a => m.copy (slot a) (entry key)
  | get key a => m.copy (entry key) (slot a)
  | getOrCompute key (.made f) a =>
    (m (entry key)).elim ((m.give (entry key) f.get?).give (slot a) f.get?) (m.give (slot a))
  | getOrCompute key (.copied b) a =>
    (m (entry key)).elim ((m.copy (slot b) (entry key)).copy (slot b) (slot a)) (m.give (slot a))

/-- A step with shared storages. -/
def shared (p : Pool (Handle σ)) : FactStep σ → Pool (Handle σ)
  | new a => p.create (slot a) .empty
  | clone a b => p.share (slot a) (slot b)
  | record a id value => p.record (slot a) id value
  | drop h => p.release h
  | insert key a => p.share (slot a) (entry key)
  | get key a => p.share (entry key) (slot a)
  | getOrCompute key (.made f) a =>
    let (p, s) := p.getOrCompute (entry key) fun _ => f
    p.hold (slot a) s
  | getOrCompute key (.copied b) a =>
    match p.storage? (entry key) with
    | some s => p.hold (slot a) s
    | none => (p.share (slot b) (entry key)).share (slot b) (slot a)

/-- A step with counted storages. -/
def run (c : CountedPool (Handle σ)) : FactStep σ → CountedPool (Handle σ)
  | new a => c.create (slot a) .empty
  | clone a b => c.share (slot a) (slot b)
  | record a id value => c.record (slot a) id value
  | drop h => c.release h
  | insert key a => c.share (slot a) (entry key)
  | get key a => c.share (entry key) (slot a)
  | getOrCompute key (.made f) a =>
    let (c, s) := c.getOrCompute (entry key) fun _ => f
    c.hold (slot a) s
  | getOrCompute key (.copied b) a =>
    match c.storage? (entry key) with
    | some _ => c.share (entry key) (slot a)
    | none => (c.share (slot b) (entry key)).share (slot b) (slot a)

/-- What is there after some steps, with counted storages. -/
def runAll (steps : List (FactStep σ)) : CountedPool (Handle σ) := steps.foldl run .empty

/-- What is there after some steps, with shared storages. -/
def sharedAll (steps : List (FactStep σ)) : Pool (Handle σ) := steps.foldl shared .empty

/-- What is there after some steps, where all have facts of their own. -/
def ownAll (steps : List (FactStep σ)) : OwnFacts (Handle σ) := steps.foldl own fun _ => none

end FactStep

/-! ## What holders know -/

/-- What each holder of a pool knows. -/
def Pool.own {κ : Type} [DecidableEq κ] (p : Pool κ) : OwnFacts κ :=
  fun k => (p.facts? k).map Facts.get?

namespace Pool

variable {κ : Type} [DecidableEq κ] {p : Pool κ}

theorem own_eq_none_iff {k : κ} : p.own k = none ↔ p.storage? k = none :=
  Option.map_eq_none_iff.trans facts?_eq_none_iff

theorem own_of_storage? {k : κ} {s : StorageId} (h : p.storage? k = some s) :
    p.own k = some (p.facts s).get? := by
  rw [own, facts?_of_storage? h, Option.map_some]

theorem own_hold (p : Pool κ) (k : κ) (s : StorageId) :
    (p.hold k s).own = p.own.give k (p.facts s).get? := by
  funext k'
  rw [own, facts?_hold, OwnFacts.give, Function.update_apply]
  split <;> rfl

theorem own_create (h : p.Valid) (k : κ) (f : Facts) :
    (p.create k f).own = p.own.give k f.get? := by
  funext k'
  rw [own, facts?_create h, OwnFacts.give, Function.update_apply]
  split <;> rfl

theorem own_release (p : Pool κ) (k : κ) :
    (p.release k).own = Function.update p.own k none := by
  funext k'
  rw [own, facts?_release, Function.update_apply]
  split <;> rfl

theorem own_share (p : Pool κ) (a b : κ) : (p.share a b).own = p.own.copy a b := by
  unfold share OwnFacts.copy
  cases hs : p.storage? a with
  | none => rw [own_eq_none_iff.2 hs, Option.elim_none]
  | some s => rw [own_of_storage? hs, Option.elim_some, own_hold]

theorem own_record (h : p.Valid) (k : κ) (id : NodeId) (value : Bool) :
    (p.record k id value).own = p.own.record k id value := by
  funext k'
  have hown : p.own k = (p.facts? k).map Facts.get? := rfl
  rw [own, facts?_record h, OwnFacts.record, hown]
  cases hf : p.facts? k with
  | none =>
    rw [Option.map_none, Option.map_none, Option.elim_none, own]
    split
    · next hk => rw [hk, hf]
    · rfl
  | some f =>
    have hget : (f.record id value).get? = Function.update f.get? id (some value) := by
      funext i
      rw [Facts.get?_record, Function.update_apply]
    rw [Option.map_some, Option.map_some, Option.elim_some, OwnFacts.give, Function.update_apply]
    split
    · rw [Option.map_some, hget]
    · rfl

theorem own_getOrCompute_hold (h : p.Valid) (k k' : κ) (f : Facts) :
    ((p.getOrCompute k fun _ => f).1.hold k' (p.getOrCompute k fun _ => f).2).own =
      (p.own k).elim ((p.own.give k f.get?).give k' f.get?) (p.own.give k') := by
  unfold getOrCompute
  cases hs : p.storage? k with
  | some s => rw [own_of_storage? hs, Option.elim_some, own_hold]
  | none =>
    have hnew : ((p.alloc f).1.hold k (p.alloc f).2).facts (p.alloc f).2 = f :=
      facts_alloc_self p f
    rw [own_eq_none_iff.2 hs, Option.elim_none]
    change (((p.alloc f).1.hold k (p.alloc f).2).hold k' (p.alloc f).2).own = _
    rw [own_hold, hnew]
    exact congrArg (fun m => m.give k' f.get?) (own_create h k f)

end Pool

/-! ## Steps -/

namespace FactStep

open Handle

variable {c : CountedPool (Handle σ)}

/-- A step keeps the counts exact. -/
theorem exact_run (h : c.Exact []) (step : FactStep σ) : (run c step).Exact [] := by
  cases step with
  | new a => exact h.create _ _
  | clone a b => exact h.share _ _
  | record a id value => exact h.record _ _ _
  | drop a => exact h.release _
  | insert key a => exact h.share _ _
  | get key a => exact h.share _ _
  | getOrCompute key source a =>
    cases source with
    | made f => exact (h.getOrCompute (entry key) fun _ => f).hold (slot a)
    | copied b =>
      rw [run]
      cases c.storage? (entry key) with
      | some s => exact h.share _ _
      | none => exact (h.share _ _).share _ _

/-- With exact counts, a step does what it does without counts. -/
theorem toPool_run (h : c.Exact []) (step : FactStep σ) :
    (run c step).toPool = shared c.toPool step := by
  cases step with
  | new a => exact c.toPool_create _ _
  | clone a b => exact c.toPool_share _ _
  | record a id value => exact h.toPool_record _ _ _
  | drop a => exact c.toPool_release _
  | insert key a => exact c.toPool_share _ _
  | get key a => exact c.toPool_share _ _
  | getOrCompute key source a =>
    cases source with
    | made f =>
      rw [shared, ← CountedPool.getOrCompute_toPool]
      rfl
    | copied b =>
      rw [run, shared]
      cases hs : c.storage? (entry key) with
      | some s => rw [CountedPool.toPool_share, Pool.share, hs]
      | none => rw [CountedPool.toPool_share, CountedPool.toPool_share]

/-- A step with shared storages does to what is known what it does where all have facts of
    their own. -/
theorem own_shared {p : Pool (Handle σ)} (h : p.Valid) (step : FactStep σ) :
    (shared p step).own = own p.own step := by
  cases step with
  | new a => exact Pool.own_create h _ _
  | clone a b => exact p.own_share _ _
  | record a id value => exact Pool.own_record h _ _ _
  | drop a => exact p.own_release _
  | insert key a => exact p.own_share _ _
  | get key a => exact p.own_share _ _
  | getOrCompute key source a =>
    cases source with
    | made f => exact Pool.own_getOrCompute_hold h (entry key) (slot a) f
    | copied b =>
      rw [shared, own]
      cases hs : p.storage? (entry key) with
      | some s => rw [Pool.own_of_storage? hs, Option.elim_some, Pool.own_hold]
      | none => rw [Pool.own_eq_none_iff.2 hs, Option.elim_none, Pool.own_share, Pool.own_share]

/-- After any steps the counts are exact, the storages are those of a pool that counts
    nothing, and all know what they would with facts of their own. -/
theorem foldl_run (h : c.Exact []) (steps : List (FactStep σ)) :
    (steps.foldl run c).Exact [] ∧
      (steps.foldl run c).toPool = steps.foldl shared c.toPool ∧
      (steps.foldl run c).toPool.own = steps.foldl own c.toPool.own := by
  induction steps generalizing c with
  | nil => exact ⟨h, rfl, rfl⟩
  | cons step steps ih =>
    obtain ⟨hexact, hpool, hown⟩ := ih (exact_run h step)
    rw [toPool_run h] at hpool hown
    rw [own_shared h.valid] at hown
    exact ⟨hexact, hpool, hown⟩

/-- After any steps with variables and a cache, what each of them knows is what it would know
    if all had facts of their own, and each storage is counted once for each of its holders.
    Those who hold the same storage know the same. A variable that then records a fact changes
    what it knows itself, and nothing else, and shares its storage with no other one. -/
theorem runAll_independent (steps : List (FactStep σ)) :
    (runAll steps).toPool = sharedAll steps ∧
    (∀ s, (runAll steps).count s = (runAll steps).holders.countP fun e => e.2 = s) ∧
    (∀ h, ((runAll steps).facts? h).map Facts.get? = ownAll steps h) ∧
    (∀ h h', (runAll steps).sameStorage h h' → (runAll steps).facts? h = (runAll steps).facts? h') ∧
    ∀ a id value,
      (runAll (steps ++ [record a id value])).facts? (slot a) =
        ((runAll steps).facts? (slot a)).map (·.record id value) ∧
      ∀ h, h ≠ slot a →
        (runAll (steps ++ [record a id value])).facts? h = (runAll steps).facts? h ∧
        ¬ (runAll (steps ++ [record a id value])).sameStorage (slot a) h := by
  obtain ⟨hexact, hpool, hown⟩ := foldl_run (σ := σ) CountedPool.exact_empty steps
  refine ⟨hpool, fun s => hexact.count_eq s, fun h => congrFun hown h,
    fun h h' => Pool.facts?_eq_of_sameStorage, fun a id value => ?_⟩
  have hrecord : (runAll (steps ++ [record a id value])).toPool =
      (runAll steps).toPool.record (slot a) id value := by
    rw [runAll, List.foldl_append]
    exact hexact.toPool_record _ _ _
  rw [hrecord]
  have hfacts := Pool.facts?_record hexact.valid (slot a) id value
  refine ⟨(hfacts _).trans (if_pos rfl), fun h hne => ⟨(hfacts h).trans (if_neg hne), ?_⟩⟩
  exact Pool.not_sameStorage_record hexact.valid id value hne

/-- A variable and its copy share a storage until the first records a fact, which the other
    does not know. -/
theorem runAll_independent_of_clone :
    (runAll [new 0, clone 0 1]).sameStorage (slot 0) (slot 1) ∧
    (runAll [new 0, clone 0 1]).facts? (slot 0) = (runAll [new 0, clone 0 1]).facts? (slot 1) ∧
    (runAll [new 0, clone 0 1, record 0 7 true]).facts? (slot 1) =
      (runAll [new 0, clone 0 1]).facts? (slot 1) ∧
    ¬ (runAll [new 0, clone 0 1, record 0 7 true]).sameStorage (slot 0) (slot 1) := by
  obtain ⟨-, -, -, hequal, hrecord⟩ := runAll_independent [new 0, clone 0 1]
  have hsame : (runAll [new 0, clone 0 1]).sameStorage (slot 0) (slot 1) := by decide
  have hne : slot 1 ≠ slot 0 := by decide
  exact ⟨hsame, hequal _ _ hsame, (hrecord 0 7 true).2 _ hne⟩

end FactStep

end ResultHints
