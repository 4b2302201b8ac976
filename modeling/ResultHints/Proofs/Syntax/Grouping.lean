import ResultHints.Proofs.Token.Name
import ResultHints.Syntax.Kind
import ResultHints.Tree.Basic

/-!
# Chains of operators

A *chain* is a name and some *links*, which are an operator and a name each. How it is grouped
is told from the outside in: the last of its loosest operators splits it, and both parts are
grouped likewise (`grouped`). Main statements:

- `splitAtLoosest_eq_some_iff`: which operator splits a chain;
- `grouped_nil` and `grouped_split`: the groups.
-/

namespace ResultHints

/-- A name that is a word. -/
abbrev WordName := {name : List Char // isWordName name}

/-- An operator with a level, and the name right of it. -/
structure ChainLink where
  op : BinaryOperator
  level : Precedence
  name : WordName
  precedence : op.precedence? = some level

/-- How a link is written behind what it goes on with. -/
def ChainLink.text (l : ChainLink) : List Char := ' ' :: (l.op.spelling.toList ++ ' ' :: l.name.1)

/-- How a chain is written. -/
def chainText (first : WordName) (links : List ChainLink) : List Char :=
  first.1 ++ links.flatMap ChainLink.text

example : chainText ⟨['a'], by decide⟩ [⟨.notIn, .namedCheck, ⟨['b'], by decide⟩, rfl⟩] =
    "a !in b".toList := by
  decide

/-! ## Splitting -/

/-- The last link with an operator that no other is looser than, and the links around it. -/
def splitAtLoosest : List ChainLink → Option (List ChainLink × ChainLink × List ChainLink)
  | [] => none
  | l :: ls => match splitAtLoosest ls with
    | none => some ([], l, ls)
    | some (before, mid, after) =>
      if mid.level.rank ≤ l.level.rank then some (l :: before, mid, after) else some ([], l, ls)

variable {links before after : List ChainLink} {l mid : ChainLink} {first : WordName}

theorem splitAtLoosest_eq_none_iff : splitAtLoosest links = none ↔ links = [] := by
  cases links with
  | nil => exact iff_of_true rfl rfl
  | cons l ls =>
    rw [splitAtLoosest]
    split <;> (try split) <;> simp

theorem of_splitAtLoosest (h : splitAtLoosest links = some (before, mid, after)) :
    links = before ++ mid :: after ∧ (∀ l ∈ before, mid.level.rank ≤ l.level.rank) ∧
      ∀ l ∈ after, mid.level.rank < l.level.rank := by
  induction links generalizing before mid after with
  | nil => cases h
  | cons l ls ih =>
    rw [splitAtLoosest] at h
    split at h
    · rename_i hnone
      cases h
      obtain rfl := splitAtLoosest_eq_none_iff.1 hnone
      simp
    · rename_i before' mid' after' hsome
      obtain ⟨rfl, hbefore, hafter⟩ := ih hsome
      split at h
      · rename_i hle
        cases h
        exact ⟨rfl, List.forall_mem_cons.2 ⟨hle, hbefore⟩, hafter⟩
      · -- The first operator is looser than the loosest of the others.
        rename_i hlt
        cases h
        refine ⟨rfl, by simp, fun l' hl' => ?_⟩
        rw [Nat.not_le] at hlt
        rcases List.mem_append.1 hl' with hl' | hl'
        · exact Nat.lt_of_lt_of_le hlt (hbefore l' hl')
        · rcases List.mem_cons.1 hl' with rfl | hl'
          · exact hlt
          · exact Nat.lt_trans hlt (hafter l' hl')

theorem splitAtLoosest_append (hbefore : ∀ l ∈ before, mid.level.rank ≤ l.level.rank)
    (hafter : ∀ l ∈ after, mid.level.rank < l.level.rank) :
    splitAtLoosest (before ++ mid :: after) = some (before, mid, after) := by
  induction before with
  | nil =>
    rw [List.nil_append, splitAtLoosest]
    split
    · rfl
    · rename_i before' mid' after' hsome
      obtain ⟨rfl, -, -⟩ := of_splitAtLoosest hsome
      have hlt := hafter mid' (List.mem_append_right _ List.mem_cons_self)
      rw [if_neg (Nat.not_le.2 hlt)]
  | cons l before ih =>
    obtain ⟨hl, hbefore⟩ := List.forall_mem_cons.1 hbefore
    rw [List.cons_append, splitAtLoosest, ih hbefore]
    exact if_pos hl

/-- A chain is split where the links before are as tight or tighter, and those after are tighter. -/
theorem splitAtLoosest_eq_some_iff :
    splitAtLoosest links = some (before, mid, after) ↔ links = before ++ mid :: after ∧
      (∀ l ∈ before, mid.level.rank ≤ l.level.rank) ∧
      ∀ l ∈ after, mid.level.rank < l.level.rank := by
  constructor
  · exact of_splitAtLoosest
  · rintro ⟨rfl, hbefore, hafter⟩
    exact splitAtLoosest_append hbefore hafter

/-! ## Levels -/

variable {least : Precedence} {ls : List ChainLink}

/-- Whether an operator of a link is of the level `least` or tighter. -/
def Precedence.admits (least : Precedence) (l : ChainLink) : Bool := least.rank ≤ l.level.rank

/-- No operator of a link is of the tightest level. -/
theorem ChainLink.rank_next (l : ChainLink) : l.level.next.rank = l.level.rank + 1 := by
  obtain ⟨op, level, name, h⟩ := l
  cases op <;> cases h <;> rfl

theorem ChainLink.admits_disjunction (l : ChainLink) : Precedence.disjunction.admits l := by
  obtain ⟨op, level, name, h⟩ := l
  cases level <;> rfl

theorem ChainLink.admits_next_iff (l : ChainLink) {l' : ChainLink} :
    l.level.next.admits l' ↔ l.level.rank < l'.level.rank := by
  rw [Precedence.admits, decide_eq_true_iff, l.rank_next]
  exact Iff.rfl

theorem admits_of_mem_takeWhile (hl : least.admits l) :
    ∀ l' ∈ ls.takeWhile l.level.next.admits, least.admits l' := by
  intro l' hl'
  have hlt := l.admits_next_iff.1 (List.mem_takeWhile_imp hl')
  exact decide_eq_true (Nat.le_trans (of_decide_eq_true hl) (Nat.le_of_lt hlt))

/-- The links of a level or tighter that come first: one, those after it that are tighter than this
    one, and the others. -/
theorem takeWhile_admits_cons (hl : least.admits l) (ls : List ChainLink) :
    (l :: ls).takeWhile least.admits = l :: (ls.takeWhile l.level.next.admits ++
      (ls.dropWhile l.level.next.admits).takeWhile least.admits) := by
  calc (l :: ls).takeWhile least.admits
      = l :: (ls.takeWhile l.level.next.admits ++ ls.dropWhile l.level.next.admits).takeWhile
          least.admits := by
        rw [List.takeWhile_append_dropWhile, List.takeWhile_cons_of_pos hl]
    _ = _ := by rw [List.takeWhile_append_of_pos (admits_of_mem_takeWhile hl)]

theorem dropWhile_admits_cons (hl : least.admits l) (ls : List ChainLink) :
    (l :: ls).dropWhile least.admits =
      (ls.dropWhile l.level.next.admits).dropWhile least.admits := by
  calc (l :: ls).dropWhile least.admits
      = (ls.takeWhile l.level.next.admits ++ ls.dropWhile l.level.next.admits).dropWhile
          least.admits := by
        rw [List.takeWhile_append_dropWhile, List.dropWhile_cons_of_pos hl]
    _ = _ := List.dropWhile_append_of_pos (admits_of_mem_takeWhile hl)

/-- No operator of some links is looser than the first one behind them. -/
def NoneLooser (before links : List ChainLink) : Prop :=
  ∀ l ∈ before, ∀ l' ∈ links.head?, l'.level.rank ≤ l.level.rank

theorem NoneLooser.nil : NoneLooser [] links := fun _ hl => absurd hl List.not_mem_nil

/-- Behind a link and those after it that are tighter, no tighter one comes. -/
theorem NoneLooser.step (h : NoneLooser before (l :: ls)) :
    NoneLooser (before ++ l :: ls.takeWhile l.level.next.admits)
      (ls.dropWhile l.level.next.admits) := by
  intro l₁ hl₁ l₂ hl₂
  have hle : l₂.level.rank ≤ l.level.rank := by
    have hstop := List.head?_dropWhile_not l.level.next.admits ls
    rw [Option.mem_def.1 hl₂] at hstop
    rw [← Nat.not_lt, ← l.admits_next_iff]
    simpa using hstop
  refine Nat.le_trans hle ?_
  rcases List.mem_append.1 hl₁ with hl₁ | hl₁
  · exact h l₁ hl₁ l rfl
  · rcases List.mem_cons.1 hl₁ with rfl | hl₁
    · exact Nat.le_refl _
    · exact Nat.le_of_lt (l.admits_next_iff.1 (List.mem_takeWhile_imp hl₁))

/-! ## Groups -/

/-- The tree of a chain: both sides of its last loosest operator are grouped likewise. -/
def grouped (first : WordName) (links : List ChainLink) : Tree NodeKind :=
  match _h : splitAtLoosest links with
  | none => .node (.nameReference (String.ofList first.1)) []
  | some (before, mid, after) =>
    .node (.binary mid.op) [grouped first before, grouped mid.name after]
  termination_by links.length
  decreasing_by
    all_goals
      obtain ⟨rfl, -⟩ := splitAtLoosest_eq_some_iff.1 _h
      rw [List.length_append, List.length_cons]
      omega

/-- A name alone is its own group. -/
theorem grouped_nil (first : WordName) :
    grouped first [] = .node (.nameReference (String.ofList first.1)) [] := by
  rw [grouped]
  rfl

/-- The groups on both sides of the last loosest operator. -/
theorem grouped_split (hbefore : ∀ l ∈ before, mid.level.rank ≤ l.level.rank)
    (hafter : ∀ l ∈ after, mid.level.rank < l.level.rank) :
    grouped first (before ++ mid :: after) =
      .node (.binary mid.op) [grouped first before, grouped mid.name after] := by
  have hsplit := splitAtLoosest_eq_some_iff.2 ⟨rfl, hbefore, hafter⟩
  rw [grouped]
  split
  · rename_i hnone
    cases hnone.symm.trans hsplit
  · rename_i hsome
    cases hsome.symm.trans hsplit
    rfl

/-- In `a - b * c - d` the last `-` splits the chain, and the first what stands before it. -/
example : grouped ⟨['a'], by decide⟩
    [⟨.minus, .additive, ⟨['b'], by decide⟩, rfl⟩,
      ⟨.times, .multiplicative, ⟨['c'], by decide⟩, rfl⟩,
      ⟨.minus, .additive, ⟨['d'], by decide⟩, rfl⟩] =
    .node (.binary .minus) [
      .node (.binary .minus) [.node (.nameReference "a") [],
        .node (.binary .times) [.node (.nameReference "b") [], .node (.nameReference "c") []]],
      .node (.nameReference "d") []] := by
  cbv

/-- A link that none before is looser than splits what stands before it from those after it that are
    tighter. -/
theorem grouped_step (h : NoneLooser before (l :: ls)) :
    grouped first (before ++ l :: ls.takeWhile l.level.next.admits) =
      .node (.binary l.op)
        [grouped first before, grouped l.name (ls.takeWhile l.level.next.admits)] :=
  grouped_split (fun l' hl' => h l' hl' l rfl)
    fun _ hl' => l.admits_next_iff.1 (List.mem_takeWhile_imp hl')

end ResultHints
