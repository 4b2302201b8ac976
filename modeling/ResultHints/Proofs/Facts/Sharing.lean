import Mathlib.Data.List.GetD
import Mathlib.Data.List.Nodup
import ResultHints.Facts.Sharing

/-!
# Holders and storages

What the operations of a pool do to holders and to storages, each in one statement:
a holder that takes a storage leaves the others what they have (`storage?_hold`), and
a new storage leaves the old ones their facts (`facts_alloc_of_lt`). In a pool as they are
made (`Pool.Valid`), each operation changes the facts of one holder only (`facts?_record`
and its like).
-/

namespace ResultHints.Pool

variable {κ : Type} {p : Pool κ} {k k' : κ} {s : StorageId} {f : Facts}

/-! ## Storages -/

@[simp] theorem length_alloc (p : Pool κ) (f : Facts) :
    (p.alloc f).1.contents.length = p.contents.length + 1 := List.length_append

/-- A new storage has the facts it was made for. -/
@[simp] theorem facts_alloc_self (p : Pool κ) (f : Facts) :
    (p.alloc f).1.facts (p.alloc f).2 = f := by
  rw [facts, alloc, List.getD_append_right _ _ _ _ (Nat.le_refl _), Nat.sub_self]
  rfl

/-- The storages that there were keep their facts. -/
theorem facts_alloc_of_lt (h : s < p.contents.length) : (p.alloc f).1.facts s = p.facts s :=
  List.getD_append _ _ _ _ h

/-- A storage that is written over leaves the others their facts. -/
theorem facts_set (h : s < p.contents.length) (f : Facts) (t : StorageId) :
    (⟨p.holders, p.contents.set s f⟩ : Pool κ).facts t = if t = s then f else p.facts t := by
  simp only [facts, List.getD_eq_getElem?_getD, List.getElem?_set]
  by_cases ht : t = s
  · rw [if_pos ht.symm, if_pos h, if_pos ht, Option.getD_some]
  · rw [if_neg (Ne.symm ht), if_neg ht]

/-! ## Holders -/

/-- The holders of a pool. -/
def keys (p : Pool κ) : List κ := p.holders.map Prod.fst

theorem length_keys (p : Pool κ) : p.keys.length = p.holders.length := List.length_map _

/-- No key holds two storages, and every storage that is held is there. -/
structure Valid (p : Pool κ) : Prop where
  nodup : p.keys.Nodup
  lt : ∀ e ∈ p.holders, e.2 < p.contents.length

namespace Valid

theorem empty : (Pool.empty : Pool κ).Valid := ⟨.nil, nofun⟩

theorem alloc (h : p.Valid) (f : Facts) : (p.alloc f).1.Valid :=
  ⟨h.nodup, fun e he => (length_alloc p f).symm ▸ Nat.lt_succ_of_lt (h.lt e he)⟩

theorem set (h : p.Valid) (s : StorageId) (f : Facts) :
    (⟨p.holders, p.contents.set s f⟩ : Pool κ).Valid :=
  ⟨h.nodup, fun e he => List.length_set.symm ▸ h.lt e he⟩

end Valid

variable [DecidableEq κ]

theorem storage?_eq_none_iff : p.storage? k = none ↔ k ∉ p.keys := by
  obtain ⟨holders, contents⟩ := p
  change holders.lookup k = none ↔ k ∉ holders.map Prod.fst
  rw [List.lookup_eq_none_iff]
  simp only [List.mem_map, not_exists, not_and, bne_iff_ne, ne_eq]
  exact forall₂_congr fun e _ => not_congr eq_comm

/-- What is not a holder need not be let go. -/
theorem release_of_not_mem (h : k ∉ p.keys) : p.release k = p := by
  have hall : ∀ e ∈ p.holders, decide (e.1 ≠ k) = true := fun e he =>
    decide_eq_true fun hk => h (hk ▸ List.mem_map_of_mem he)
  rw [release, List.filter_eq_self.2 hall]

/-- To let a holder go changes nothing for the others. -/
theorem storage?_release (p : Pool κ) (k k' : κ) :
    (p.release k).storage? k' = if k' = k then none else p.storage? k' := by
  obtain ⟨holders, contents⟩ := p
  change (holders.filter _).lookup k' = if _ then _ else holders.lookup k'
  induction holders with
  | nil => exact (ite_self _).symm
  | cons e es ih =>
    rw [List.filter_cons]
    by_cases he : e.1 = k
    · rw [if_neg (by simpa using he), ih]
      split
      · rfl
      · next hk => rw [List.lookup_cons, beq_eq_false_iff_ne.2 (he ▸ hk)]
    · rw [if_pos (by simpa using he), List.lookup_cons, List.lookup_cons, ih]
      by_cases hk : k' = e.1
      · rw [if_neg (hk ▸ he), if_neg (hk ▸ he)]
      · rw [beq_eq_false_iff_ne.2 hk]

/-- A holder that takes a storage has it, and the others have what they had. -/
theorem storage?_hold (p : Pool κ) (k : κ) (s : StorageId) (k' : κ) :
    (p.hold k s).storage? k' = if k' = k then some s else p.storage? k' := by
  change ((k, s) :: (p.release k).holders).lookup k' = _
  rw [List.lookup_cons]
  by_cases hk : k' = k
  · rw [beq_iff_eq.2 hk, if_pos hk]
  · rw [beq_eq_false_iff_ne.2 hk, if_neg hk]
    exact (storage?_release p k k').trans (if_neg hk)

theorem mem_holders_of_storage? (h : p.storage? k = some s) : (k, s) ∈ p.holders := by
  obtain ⟨before, after, heq, -⟩ := List.lookup_eq_some_iff.1 h
  exact heq ▸ List.mem_append_right _ List.mem_cons_self

theorem storage?_create (p : Pool κ) (k : κ) (f : Facts) (k' : κ) :
    (p.create k f).storage? k' = if k' = k then some p.contents.length else p.storage? k' :=
  storage?_hold (p.alloc f).1 k (p.alloc f).2 k'

/-- To find or compute facts for a key makes it a holder, if it was none. -/
theorem keys_getOrCompute (p : Pool κ) (k : κ) (compute : Unit → Facts) :
    (p.getOrCompute k compute).1.keys = p.keys.insert k := by
  unfold getOrCompute
  cases hs : p.storage? k with
  | some s =>
    have hk : k ∈ p.keys := List.mem_map_of_mem (mem_holders_of_storage? hs)
    exact (List.insert_of_mem hk).symm
  | none =>
    have hk : k ∉ p.keys := storage?_eq_none_iff.1 hs
    have hkeys : (p.alloc (compute ())).1.keys = p.keys := rfl
    rw [List.insert_of_not_mem hk]
    change k :: ((p.alloc (compute ())).1.release k).keys = k :: p.keys
    rw [release_of_not_mem (hkeys ▸ hk), hkeys]

/-! ## Valid pools -/

namespace Valid

theorem storage?_lt (h : p.Valid) (hs : p.storage? k = some s) : s < p.contents.length :=
  h.lt _ (mem_holders_of_storage? hs)

theorem release (h : p.Valid) (k : κ) : (p.release k).Valid :=
  ⟨h.nodup.sublist (List.filter_sublist.map _), fun e he => h.lt e (List.mem_of_mem_filter he)⟩

theorem hold (h : p.Valid) (k : κ) (hs : s < p.contents.length) : (p.hold k s).Valid := by
  refine ⟨List.nodup_cons.2 ⟨fun hk => ?_, (h.release k).nodup⟩, fun e he => ?_⟩
  · have hnone : (p.release k).storage? k = none := by rw [storage?_release, if_pos rfl]
    exact storage?_eq_none_iff.1 hnone hk
  · rcases List.mem_cons.1 he with rfl | he
    · exact hs
    · exact (h.release k).lt e he

theorem create (h : p.Valid) (k : κ) (f : Facts) : (p.create k f).Valid :=
  (h.alloc f).hold k ((length_alloc p f).symm ▸ Nat.lt_succ_self _)

theorem share (h : p.Valid) (a b : κ) : (p.share a b).Valid := by
  unfold Pool.share
  cases hs : p.storage? a with
  | none => exact h
  | some s => exact h.hold b (h.storage?_lt hs)

theorem record (h : p.Valid) (k : κ) (id : NodeId) (value : Bool) :
    (p.record k id value).Valid := by
  unfold Pool.record
  cases p.storage? k with
  | none => exact h
  | some s =>
    dsimp only
    split
    · exact h.create k _
    · exact h.set s _

/-- To let a holder go leaves its storage one holder less. -/
theorem countP_release (h : p.Valid) (hs : p.storage? k = some s) (t : StorageId) :
    (p.holders.countP fun e => e.2 = t) =
      ((p.release k).holders.countP fun e => e.2 = t) + if t = s then 1 else 0 := by
  obtain ⟨before, after, heq, hbefore⟩ := List.lookup_eq_some_iff.1 hs
  have hnodup : (before ++ (k, s) :: after).Pairwise fun e e' => e.1 ≠ e'.1 :=
    heq ▸ List.pairwise_map.1 h.nodup
  obtain ⟨-, hafter, -⟩ := List.pairwise_append.1 hnodup
  have hrelease : (p.release k).holders = before ++ after := by
    rw [Pool.release, heq, List.filter_append, List.filter_cons_of_neg (by simp)]
    have hkept : ∀ es : List (κ × StorageId), (∀ e ∈ es, e.1 ≠ k) →
        (es.filter fun e => e.1 ≠ k) = es :=
      fun es hes => List.filter_eq_self.2 fun e he => decide_eq_true (hes e he)
    rw [hkept before fun e he => Ne.symm (bne_iff_ne.1 (hbefore e he)),
      hkept after fun e he => Ne.symm ((List.pairwise_cons.1 hafter).1 e he)]
  rw [heq, hrelease, List.countP_append, List.countP_append, List.countP_cons]
  simp only [decide_eq_true_eq, eq_comm (a := s)]
  omega

end Valid

/-! ## What holders know -/

theorem facts?_eq_none_iff : p.facts? k = none ↔ p.storage? k = none := Option.map_eq_none_iff

theorem facts?_of_storage? (h : p.storage? k = some s) : p.facts? k = some (p.facts s) := by
  rw [facts?, h, Option.map_some]

theorem sameStorage_iff {a b : κ} :
    p.sameStorage a b ↔ ∃ s, p.storage? a = some s ∧ p.storage? b = some s := by
  unfold sameStorage
  cases p.storage? a with
  | none => simp
  | some s =>
    cases p.storage? b with
    | none => simp
    | some t => simpa using eq_comm

/-- Holders of one storage know the same. -/
theorem facts?_eq_of_sameStorage {a b : κ} (h : p.sameStorage a b) : p.facts? a = p.facts? b := by
  obtain ⟨s, ha, hb⟩ := sameStorage_iff.1 h
  rw [facts?_of_storage? ha, facts?_of_storage? hb]

theorem facts?_release (p : Pool κ) (k k' : κ) :
    (p.release k).facts? k' = if k' = k then none else p.facts? k' := by
  rw [facts?, storage?_release]
  split <;> rfl

theorem facts?_hold (p : Pool κ) (k : κ) (s : StorageId) (k' : κ) :
    (p.hold k s).facts? k' = if k' = k then some (p.facts s) else p.facts? k' := by
  rw [facts?, storage?_hold]
  split <;> rfl

theorem facts?_alloc (h : p.Valid) (f : Facts) (k : κ) :
    (p.alloc f).1.facts? k = p.facts? k := by
  change (p.storage? k).map _ = (p.storage? k).map _
  exact Option.map_congr fun s hs => facts_alloc_of_lt (h.storage?_lt hs)

theorem facts?_create (h : p.Valid) (k : κ) (f : Facts) (k' : κ) :
    (p.create k f).facts? k' = if k' = k then some f else p.facts? k' := by
  change ((p.alloc f).1.hold k (p.alloc f).2).facts? k' = _
  rw [facts?_hold, facts_alloc_self, facts?_alloc h]

theorem facts?_share (p : Pool κ) (a b k : κ) :
    (p.share a b).facts? k = if k = b then (p.facts? a).or (p.facts? b) else p.facts? k := by
  unfold share
  cases hs : p.storage? a with
  | none =>
    rw [facts?_eq_none_iff.2 hs, Option.none_or]
    exact (ite_eq_right_iff.2 fun hk => hk ▸ rfl).symm
  | some s => rw [facts?_of_storage? hs, Option.some_or, facts?_hold]

/-- Two holders of a storage make it a shared one. -/
theorem isShared_of_ne {s : StorageId} (hk : k ≠ k') (h : p.storage? k = some s)
    (h' : p.storage? k' = some s) : p.isShared s := by
  have hmem : (k, s) ∈ p.holders.filter fun e => e.2 = s :=
    List.mem_filter.2 ⟨mem_holders_of_storage? h, decide_eq_true rfl⟩
  have hmem' : (k', s) ∈ p.holders.filter fun e => e.2 = s :=
    List.mem_filter.2 ⟨mem_holders_of_storage? h', decide_eq_true rfl⟩
  rw [isShared, List.countP_eq_length_filter, decide_eq_true_iff]
  by_contra hle
  match hf : p.holders.filter fun e => e.2 = s with
  | [] => rw [hf] at hmem; cases hmem
  | [e] =>
    rw [hf, List.mem_singleton] at hmem hmem'
    exact hk (congrArg Prod.fst (hmem.trans hmem'.symm))
  | _ :: _ :: _ => rw [hf] at hle; simp at hle

/-- A fact that is recorded is known to its holder, and to no other one. -/
theorem facts?_record (h : p.Valid) (k : κ) (id : NodeId) (value : Bool) (k' : κ) :
    (p.record k id value).facts? k' =
      if k' = k then (p.facts? k).map (·.record id value) else p.facts? k' := by
  unfold record
  cases hs : p.storage? k with
  | none =>
    have hnone := facts?_eq_none_iff.2 hs
    rw [hnone, Option.map_none]
    by_cases hk : k' = k
    · rw [if_pos hk, hk]
      exact hnone
    · rw [if_neg hk]
  | some s =>
    rw [facts?_of_storage? hs, Option.map_some]
    dsimp only
    split
    · exact facts?_create h k _ k'
    · next hshared =>
      change (p.storage? k').map (Pool.facts ⟨p.holders, p.contents.set s _⟩) = _
      by_cases hk : k' = k
      · rw [if_pos hk, hk, hs, Option.map_some, facts_set (h.storage?_lt hs), if_pos rfl]
      · -- What another holder holds is another storage, as this one is not shared.
        rw [if_neg hk]
        refine Option.map_congr fun t ht => ?_
        have hne : t ≠ s := fun hts => hshared (isShared_of_ne hk (hts ▸ ht) hs)
        rw [facts_set (h.storage?_lt hs), if_neg hne]

/-- After a fact was recorded by a holder, no other one has its storage. -/
theorem not_sameStorage_record (h : p.Valid) (id : NodeId) (value : Bool) (hk : k' ≠ k) :
    ¬ (p.record k id value).sameStorage k k' := by
  rw [sameStorage_iff]
  rintro ⟨t, ht, ht'⟩
  unfold record at ht ht'
  cases hs : p.storage? k with
  | none =>
    rw [hs] at ht
    exact Option.some_ne_none t (ht.symm.trans hs)
  | some s =>
    rw [hs] at ht ht'
    dsimp only at ht ht'
    split at ht
    · next hshared =>
      -- The storage is a new one, which nothing held before.
      rw [if_pos hshared] at ht'
      rw [storage?_create, if_pos rfl] at ht
      rw [storage?_create, if_neg hk] at ht'
      exact Nat.ne_of_lt (h.storage?_lt ht') (Option.some.inj ht).symm
    · next hshared =>
      rw [if_neg hshared] at ht'
      have hst : s = t := Option.some.inj (hs.symm.trans ht)
      exact hshared (isShared_of_ne hk (hst ▸ ht') hs)

end ResultHints.Pool
