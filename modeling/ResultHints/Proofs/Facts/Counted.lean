import Mathlib.Logic.Function.Basic
import ResultHints.Proofs.Facts.Sharing

/-!
# Counted storages

Nobody looks for the holders of a storage to tell whether it is shared: with each storage
a count is kept. It is raised when the storage is given to one more holder, it is lowered
when a holder lets it go, and a fact is recorded in place just if the count is one. The
counts are right at any time (`CountedPool.Exact`): they count the holders, and what is in
hand, on the way to a holder. So a counted pool does to its holders and storages what a
pool does (`toPool_record` and its like).
-/

namespace ResultHints

/-- A pool with a count for each storage. -/
structure CountedPool (κ : Type) extends Pool κ where
  count : StorageId → Nat

namespace CountedPool

variable {κ : Type}

/-- No storage, and no holder. -/
def empty : CountedPool κ := ⟨.empty, fun _ => 0⟩

/-- A new storage, counted for who asked for it. -/
def alloc (c : CountedPool κ) (f : Facts) : CountedPool κ × StorageId :=
  (⟨(c.toPool.alloc f).1, Function.update c.count c.contents.length 1⟩, c.contents.length)

/-- Counts a storage once more. -/
def retain (c : CountedPool κ) (s : StorageId) : CountedPool κ :=
  ⟨c.toPool, Function.update c.count s (c.count s + 1)⟩

variable [DecidableEq κ]

/-- Lets a holder go, and counts its storage once less. -/
def release (c : CountedPool κ) (k : κ) : CountedPool κ :=
  match c.storage? k with
  | none => c
  | some s => ⟨c.toPool.release k, Function.update c.count s (c.count s - 1)⟩

/-- Lets a holder hold a storage that is counted for it already, and nothing else. -/
def hold (c : CountedPool κ) (k : κ) (s : StorageId) : CountedPool κ :=
  ⟨c.toPool.hold k s, (c.release k).count⟩

/-- Lets a holder hold a new storage with the given facts. -/
def create (c : CountedPool κ) (k : κ) (f : Facts) : CountedPool κ :=
  let (c, s) := c.alloc f
  c.hold k s

/-- Lets `b` hold what `a` holds. -/
def share (c : CountedPool κ) (a b : κ) : CountedPool κ :=
  match c.storage? a with
  | none => c
  | some s => (c.retain s).hold b s

/-- Records a fact in what a holder holds: in place if its storage is counted once, or
    in a storage of its own. -/
def record (c : CountedPool κ) (k : κ) (id : NodeId) (value : Bool) : CountedPool κ :=
  match c.storage? k with
  | none => c
  | some s =>
    let f := (c.facts s).record id value
    if c.count s = 1 then ⟨⟨c.holders, c.contents.set s f⟩, c.count⟩ else c.create k f

/-- The storage that a holder holds; if it holds none, a new one for it, with the facts
    that are then computed. It is counted for who asked for it. -/
def getOrCompute (c : CountedPool κ) (k : κ) (compute : Unit → Facts) :
    CountedPool κ × StorageId :=
  match c.storage? k with
  | some s => (c.retain s, s)
  | none =>
    let (c, s) := c.alloc (compute ())
    ((c.retain s).hold k s, s)

@[simp] theorem toPool_release (c : CountedPool κ) (k : κ) :
    (c.release k).toPool = c.toPool.release k := by
  unfold release
  cases hs : c.storage? k with
  | none => exact (Pool.release_of_not_mem (Pool.storage?_eq_none_iff.1 hs)).symm
  | some s => rfl

/-! ## Exact counts -/

/-- Each storage is counted once for each of its holders, and for each time it is in hand. -/
structure Exact (c : CountedPool κ) (inHand : List StorageId) : Prop where
  valid : c.toPool.Valid
  lt : ∀ s ∈ inHand, s < c.contents.length
  count_eq : ∀ s, c.count s = (c.holders.countP fun e => e.2 = s) + inHand.count s

variable {c : CountedPool κ} {inHand : List StorageId} {s : StorageId} {k : κ}

omit [DecidableEq κ] in
theorem exact_empty : (empty : CountedPool κ).Exact [] := ⟨.empty, nofun, fun _ => rfl⟩

namespace Exact

omit [DecidableEq κ] in
theorem alloc (h : c.Exact inHand) (f : Facts) :
    (c.alloc f).1.Exact ((c.alloc f).2 :: inHand) := by
  refine ⟨h.valid.alloc f, ?_, fun t => ?_⟩
  · intro t ht
    change t < (c.toPool.alloc f).1.contents.length
    rw [Pool.length_alloc]
    rcases List.mem_cons.1 ht with rfl | ht
    · exact Nat.lt_succ_self _
    · exact Nat.lt_succ_of_lt (h.lt t ht)
  · change Function.update c.count c.contents.length 1 t =
      (c.holders.countP fun e => e.2 = t) + (c.contents.length :: inHand).count t
    by_cases ht : t = c.contents.length
    · -- The new storage is neither held nor in hand.
      have hheld : (c.holders.countP fun e => e.2 = t) = 0 :=
        List.countP_eq_zero.2 fun e he => by
          simpa using fun heq => Nat.ne_of_lt (h.valid.lt e he) (heq.trans ht)
      have hhand : inHand.count t = 0 :=
        List.count_eq_zero.2 fun hmem => Nat.ne_of_lt (h.lt t hmem) ht
      rw [hheld, ← ht, Function.update_self, List.count_cons_self, hhand]
    · rw [Function.update_of_ne ht, List.count_cons_of_ne (Ne.symm ht), h.count_eq]

omit [DecidableEq κ] in
theorem retain (h : c.Exact inHand) (hs : s < c.contents.length) :
    (c.retain s).Exact (s :: inHand) := by
  refine ⟨h.valid, List.forall_mem_cons.2 ⟨hs, h.lt⟩, fun t => ?_⟩
  change Function.update c.count s (c.count s + 1) t = _
  by_cases ht : t = s
  · subst ht
    rw [Function.update_self, List.count_cons_self, h.count_eq, Nat.add_assoc]
    rfl
  · rw [Function.update_of_ne ht, List.count_cons_of_ne (Ne.symm ht), h.count_eq]
    rfl

theorem release (h : c.Exact inHand) (k : κ) : (c.release k).Exact inHand := by
  unfold CountedPool.release
  cases hs : c.storage? k with
  | none => exact h
  | some s =>
    refine ⟨h.valid.release k, h.lt, fun t => ?_⟩
    have hheld := h.valid.countP_release hs t
    change Function.update c.count s (c.count s - 1) t =
      ((c.toPool.release k).holders.countP fun e => e.2 = t) + inHand.count t
    by_cases ht : t = s
    · subst ht
      rw [if_pos rfl] at hheld
      rw [Function.update_self, h.count_eq, hheld]
      omega
    · rw [if_neg ht, Nat.add_zero] at hheld
      rw [Function.update_of_ne ht, h.count_eq, hheld]

/-- What is in hand and counted comes to a holder, which lets go what it held. -/
theorem hold (h : c.Exact (s :: inHand)) (k : κ) : (c.hold k s).Exact inHand := by
  have hs : s < c.contents.length := h.lt s List.mem_cons_self
  refine ⟨h.valid.hold k hs, fun t ht => h.lt t (List.mem_cons_of_mem _ ht), fun t => ?_⟩
  have hrelease := h.release k
  have hcount : (c.hold k s).count t = (c.release k).count t := rfl
  have hholders : (c.hold k s).holders = (k, s) :: (c.release k).holders := by
    rw [toPool_release]
    rfl
  rw [hcount, hholders, hrelease.count_eq, List.countP_cons, List.count_cons]
  simp only [decide_eq_true_eq, beq_iff_eq]
  omega

theorem create (h : c.Exact inHand) (k : κ) (f : Facts) : (c.create k f).Exact inHand :=
  (h.alloc f).hold k

theorem share (h : c.Exact inHand) (a b : κ) : (c.share a b).Exact inHand := by
  unfold CountedPool.share
  cases hs : c.storage? a with
  | none => exact h
  | some s => exact (h.retain (h.valid.storage?_lt hs)).hold b

theorem record (h : c.Exact inHand) (k : κ) (id : NodeId) (value : Bool) :
    (c.record k id value).Exact inHand := by
  unfold CountedPool.record
  cases c.storage? k with
  | none => exact h
  | some s =>
    dsimp only
    split
    · exact ⟨h.valid.set s _, fun t ht => List.length_set.symm ▸ h.lt t ht, h.count_eq⟩
    · exact h.create k _

theorem getOrCompute (h : c.Exact inHand) (k : κ) (compute : Unit → Facts) :
    (c.getOrCompute k compute).1.Exact ((c.getOrCompute k compute).2 :: inHand) := by
  unfold CountedPool.getOrCompute
  cases hs : c.storage? k with
  | some s => exact h.retain (h.valid.storage?_lt hs)
  | none =>
    have hnew := h.alloc (compute ())
    exact (hnew.retain (hnew.lt _ List.mem_cons_self)).hold k

end Exact

/-! ## Counted pools as pools -/

@[simp] theorem toPool_create (c : CountedPool κ) (k : κ) (f : Facts) :
    (c.create k f).toPool = c.toPool.create k f := rfl

@[simp] theorem toPool_share (c : CountedPool κ) (a b : κ) :
    (c.share a b).toPool = c.toPool.share a b := by
  unfold share Pool.share
  cases c.storage? a <;> rfl

/-- The storage of a holder is shared just if it is not counted once. -/
theorem Exact.count_eq_one_iff (h : c.Exact []) (hs : c.storage? k = some s) :
    c.count s = 1 ↔ ¬ c.isShared s := by
  have hpos : 0 < c.holders.countP fun e => e.2 = s :=
    List.countP_pos_iff.2 ⟨_, Pool.mem_holders_of_storage? hs, decide_eq_true rfl⟩
  rw [h.count_eq, List.count_nil, Pool.isShared, decide_eq_true_eq]
  omega

/-- Where the counts are exact, a fact is recorded in place just if no other holder shares
    the storage. -/
theorem Exact.toPool_record (h : c.Exact []) (k : κ) (id : NodeId) (value : Bool) :
    (c.record k id value).toPool = c.toPool.record k id value := by
  unfold CountedPool.record Pool.record
  cases hs : c.storage? k with
  | none => rfl
  | some s =>
    dsimp only
    by_cases hcount : c.count s = 1
    · rw [if_pos hcount, if_neg ((h.count_eq_one_iff hs).1 hcount)]
    · rw [if_neg hcount, if_pos (by simpa using (h.count_eq_one_iff hs).not.1 hcount)]
      rfl

@[simp] theorem getOrCompute_toPool (c : CountedPool κ) (k : κ) (compute : Unit → Facts) :
    ((c.getOrCompute k compute).1.toPool, (c.getOrCompute k compute).2) =
      c.toPool.getOrCompute k compute := by
  unfold getOrCompute Pool.getOrCompute
  cases c.storage? k <;> rfl

end CountedPool

end ResultHints
