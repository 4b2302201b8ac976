import Mathlib.Algebra.Group.Nat.Defs
import ResultHints.Proofs.Document.Extent
import ResultHints.Proofs.Document.Ids
import ResultHints.Proofs.Grammar.Worth.Statement
import ResultHints.Proofs.Parser.Discipline

/-!
# How many nodes are made

The lexemes of a text pay for the nodes that are made for it (`Cursor.worth`), in the document of
the text as in all states of a parser of it, also where it stops at a fault. A lexeme takes a byte
at least, so the ids of the nodes of a text that is not too long fit into 32 bits. Main statement:

- `Document.count_of_source`: the number of the nodes of a source text.
-/

namespace ResultHints

open Reader

variable {source : List Char} {s s' : Session}

/-- Every lexeme takes a byte at least. -/
theorem length_lexemes_le {tokens : List Token} (h : tokenize source = .ok tokens) :
    (lexemes false tokens).length ≤ byteLength source := by
  have hfilter : (lexemes false tokens).length ≤ tokens.length := by
    rw [← List.length_map (f := Lexeme.toToken), map_toToken_lexemes]
    exact List.length_filter_le ..
  exact Nat.le_trans hfilter (tiling_of_tokenize h).length_le

/-! ## States of a parser -/

theorem Parser.Grows.length_arena_le {p q : Parser} (h : p.Grows q) :
    p.arena.length ≤ q.arena.length := by
  rcases Nat.eq_zero_or_pos p.arena.length with hnone | hpos
  · omega
  · obtain ⟨_, hlast, -⟩ := h.cells _ _ (List.getElem?_eq_getElem (Nat.sub_one_lt_of_lt hpos))
    have := (List.getElem?_eq_some_iff.1 hlast).1
    omega

namespace Session

/-- The state that a session has come to is further on than all others. -/
theorem Leads.grows_of_mem_states (h : s.Leads s') (hs : ∀ p ∈ s.states, p.Grows s.now) :
    ∀ p ∈ s'.states, p.Grows s'.now := by
  induction h with
  | refl => exact hs
  | tail _ hstep ih =>
    rw [states, hstep.before]
    exact List.forall_mem_cons.2 ⟨.refl _, fun p hp => (ih p hp).trans hstep.grows⟩

/-- A parser pays for its nodes like a reader. -/
theorem worth_behind_le {α : Type} {r : EStateM.Result Fault Session α} {budget : Nat}
    {Q : α → Nat} (h : Paid budget Q (outcome r)) : (behind r).now.cursor.worth ≤ budget := by
  cases r with
  | ok a s =>
    obtain hle | - := h
    exact Nat.le_of_add_right_le hle
  | error e s =>
    obtain - | hle := h
    exact hle

end Session

namespace Reachable

theorem keeps_expression (h : Reachable source s) :
    s.Keeps (.behind (Run.expression .all s)) :=
  (Calls.follows_all.does_expression h.stands).keeps

theorem keeps_file (h : Reachable source s) : s.Keeps (.behind (Run.file s)) :=
  h.stands.does_file.keeps

theorem grows_of_mem_states (h : Reachable source s) : ∀ p ∈ s.states, p.Grows s.now := by
  induction h with
  | start => exact List.forall_mem_cons.2 ⟨.refl _, nofun⟩
  | expression h ih => exact h.keeps_expression.leads.grows_of_mem_states ih

theorem length_lexemes_le (h : Reachable source s) : s.now.lexemes.length ≤ byteLength source := by
  induction h with
  | start htokens => exact ResultHints.length_lexemes_le htokens
  | expression h ih => rwa [h.keeps_expression.leads.grows.lexemes]

/-- All nodes are paid for by the lexemes that were taken. -/
theorem worth_le (h : Reachable source s) : s.now.cursor.worth ≤ 5 * s.now.lexemes.length := by
  induction h with
  | start htokens => exact Nat.le_refl _
  | @expression s h ih =>
    rw [h.keeps_expression.leads.grows.lexemes]
    refine Nat.le_trans (Session.worth_behind_le (Q := fun _ => 0) ?_) ih
    rw [h.outcome_expression]
    exact (pays_expression_outermost (k := 0)).of_le (fun _ => Nat.zero_le _) s.now.cursor

/-- However the file is read, at no time are there more nodes than the lexemes pay for and the file
    itself. -/
theorem length_arena_le (h : Reachable source s) :
    ∀ p ∈ (Session.behind (Run.file s)).states,
      2 * p.arena.length ≤ 5 * s.now.lexemes.length + 2 := by
  have hworth : (Session.behind (Run.file s)).now.cursor.worth ≤ s.now.cursor.worth + 2 := by
    refine Session.worth_behind_le (Q := fun _ => 0) ?_
    rw [h.outcome_file]
    exact pays_file s.now.cursor
  intro p hp
  have hgrows := h.keeps_file.leads.grows_of_mem_states h.grows_of_mem_states p hp
  calc 2 * p.arena.length
    _ ≤ 2 * (Session.behind (Run.file s)).now.arena.length :=
        Nat.mul_le_mul_left 2 hgrows.length_arena_le
    _ ≤ (Session.behind (Run.file s)).now.cursor.worth := Nat.le_add_left _ _
    _ ≤ s.now.cursor.worth + 2 := hworth
    _ ≤ 5 * s.now.lexemes.length + 2 := Nat.add_le_add_right h.worth_le 2

end Reachable

/-! ## Nodes of a document -/

namespace Document

variable {d : Document}

theorem size_le (h : Document.parse source = .ok d) :
    2 * d.size ≤ 5 * d.significant.length + 2 := by
  obtain ⟨tokens, u, s', -, hfile, rfl⟩ := exists_of_parse h
  have hpaid : Paid _ _ (file (.ofTokens source tokens)) := pays_file (k := 0) _
  rw [hfile] at hpaid
  obtain hle | - := hpaid
  rw [significant_eq, List.length_map]
  exact Nat.le_trans (Nat.le_add_left _ _) hle

theorem length_significant_le (h : Document.parse source = .ok d) :
    d.significant.length ≤ byteLength source := by
  obtain ⟨tokens, u, s', htokens, -, rfl⟩ := exists_of_parse h
  rw [significant_eq, List.length_map]
  exact length_lexemes_le htokens

/-- The ids of the nodes are just those below their number. -/
theorem ids_perm (h : Document.parse source = .ok d) :
    (d.nodes.map (·.id)).Perm (List.range d.size) := by
  have hnumbered : Numbered 0 d.trees d.size := by
    obtain ⟨tokens, u, s', -, hfile, rfl⟩ := exists_of_parse h
    exact numbered_of_readsFile (readsFile_of_file hfile)
  rw [← (regular_of_parse h).places_eq_nodes]
  exact hnumbered.places_perm

/-- A source text of `n` significant tokens has at most `(5 * n + 2) / 2` nodes. If it has less
    than a gibibyte, then the number of nodes fits into 32 bits at any time it is read, also if
    reading fails; and no two nodes have the same id of 32 bits. -/
theorem count_of_source (source : List Char) :
    (∀ d, Document.parse source = .ok d →
      d.nodes.length = d.size ∧ 2 * d.size ≤ 5 * d.significant.length + 2) ∧
    (byteLength source < 2 ^ 30 →
      (∀ s, Reachable source s → ∀ p ∈ (Session.behind (Run.file s)).states,
        (UInt32.ofNat p.arena.length).toNat = p.arena.length) ∧
      ∀ d, Document.parse source = .ok d → (d.nodes.map fun x => UInt32.ofNat x.id).Nodup) := by
  refine ⟨fun d hd => ⟨?_, size_le hd⟩, fun hshort => ⟨fun s hs p hp => ?_, fun d hd => ?_⟩⟩
  · rw [← List.length_map (f := (·.id)), (ids_perm hd).length_eq, List.length_range]
  · have := hs.length_arena_le p hp
    have := hs.length_lexemes_le
    exact UInt32.toNat_ofNat_of_lt' (by rw [UInt32.size]; omega)
  · have hperm := ids_perm hd
    have hfits : ∀ i ∈ d.nodes.map (·.id), (UInt32.ofNat i).toNat = i := fun i hi => by
      have hlt := List.mem_range.1 (hperm.mem_iff.1 hi)
      have := size_le hd
      have := length_significant_le hd
      exact UInt32.toNat_ofNat_of_lt' (by rw [UInt32.size]; omega)
    have hnodup : ((d.nodes.map (·.id)).map UInt32.ofNat).Nodup := by
      refine (hperm.nodup_iff.2 List.nodup_range).map_on fun i hi j hj heq => ?_
      rw [← hfits i hi, heq, hfits j hj]
    rwa [List.map_map] at hnodup

/-- The three tokens of `f{}` have seven nodes: the lambda after the call makes five of two. -/
theorem count_of_trailing_lambda : ∃ d tokens, Document.parse "f{}".toList = .ok d ∧
    tokenize "f{}".toList = .ok tokens ∧ d.significant.length = 3 ∧ d.size = 7 ∧
    d.nodes.length = d.size ∧ 2 * d.size ≤ 5 * d.significant.length + 2 ∧
    (∀ p ∈ (Session.behind (Run.file (.ofTokens "f{}".toList tokens))).states,
      (UInt32.ofNat p.arena.length).toNat = p.arena.length) ∧
    (d.nodes.map fun x => UInt32.ofNat x.id).Nodup := by
  have hany : ((parse "f{}".toList).toOption.any fun d =>
      d.significant.length == 3 && d.size == 7) = true := by decide +kernel
  obtain ⟨d, hd, hcount⟩ := exists_of_parse_any hany
  obtain ⟨tokens, -, -, htokens, -⟩ := exists_of_parse hd
  obtain ⟨hsignificant, hsize⟩ := by simpa using hcount
  have hlength : byteLength "f{}".toList < 2 ^ 30 := by decide +kernel
  obtain ⟨hall, hfits⟩ := count_of_source "f{}".toList
  exact ⟨d, tokens, hd, htokens, hsignificant, hsize, (hall d hd).1, (hall d hd).2,
    (hfits hlength).1 _ (.start htokens), (hfits hlength).2 d hd⟩

end Document

end ResultHints
