import ResultHints.Facts.Basic

/-!
# Shared facts

Facts are passed around without being copied. What holds facts, a variable or an
entry of a cache, holds a *storage* of them; a copy of what it holds is another
holder of the same storage. Facts are only copied when one of several holders of
a storage records a fact: it gets a storage of its own, and the others keep
theirs. A holder that shares its storage with none records in place.
-/

namespace ResultHints

/-- The number of a storage. -/
abbrev StorageId := Nat

/-- Storages of facts, and the holders of them, which are named by `κ`. -/
structure Pool (κ : Type) where
  holders : List (κ × StorageId)
  contents : List Facts

namespace Pool

variable {κ : Type}

/-- No storage, and no holder. -/
def empty : Pool κ := ⟨[], []⟩

/-- The facts in a storage. -/
def facts (p : Pool κ) (s : StorageId) : Facts := p.contents.getD s .empty

/-- A new storage with the given facts, which nothing holds. -/
def alloc (p : Pool κ) (f : Facts) : Pool κ × StorageId :=
  (⟨p.holders, p.contents ++ [f]⟩, p.contents.length)

variable [DecidableEq κ]

/-- The storage that a holder holds. -/
def storage? (p : Pool κ) (k : κ) : Option StorageId := p.holders.lookup k

/-- The facts that a holder holds. -/
def facts? (p : Pool κ) (k : κ) : Option Facts := (p.storage? k).map p.facts

/-- The number of holders. -/
def size (p : Pool κ) : Nat := p.holders.length

/-- Lets a holder go. -/
def release (p : Pool κ) (k : κ) : Pool κ :=
  ⟨p.holders.filter fun h => h.1 ≠ k, p.contents⟩

/-- Lets a holder hold a storage, and nothing else. -/
def hold (p : Pool κ) (k : κ) (s : StorageId) : Pool κ :=
  ⟨(k, s) :: (p.release k).holders, p.contents⟩

/-- Lets a holder hold a new storage with the given facts. -/
def create (p : Pool κ) (k : κ) (f : Facts) : Pool κ :=
  let (p, s) := p.alloc f
  p.hold k s

/-- Lets `b` hold what `a` holds. -/
def share (p : Pool κ) (a b : κ) : Pool κ :=
  match p.storage? a with
  | none => p
  | some s => p.hold b s

/-- Whether a storage has more than one holder. -/
def isShared (p : Pool κ) (s : StorageId) : Bool := 1 < p.holders.countP fun h => h.2 = s

/-- Records a fact in what a holder holds: in place, or in a storage of its own if
    other holders share it. -/
def record (p : Pool κ) (k : κ) (id : NodeId) (value : Bool) : Pool κ :=
  match p.storage? k with
  | none => p
  | some s =>
    let f := (p.facts s).record id value
    if p.isShared s then p.create k f else ⟨p.holders, p.contents.set s f⟩

/-- Whether two holders hold the same storage. -/
def sameStorage (p : Pool κ) (a b : κ) : Bool :=
  match p.storage? a, p.storage? b with
  | some s, some t => s == t
  | _, _ => false

/-- The storage that a holder holds; if it holds none, a new one for it, with the
    facts that are then computed. -/
def getOrCompute (p : Pool κ) (k : κ) (compute : Unit → Facts) : Pool κ × StorageId :=
  match p.storage? k with
  | some s => (p, s)
  | none =>
    let (p, s) := p.alloc (compute ())
    (p.hold k s, s)

/-- Lets all holders go. -/
def clear (p : Pool κ) : Pool κ := ⟨[], p.contents⟩

end Pool

end ResultHints
