import ResultHints.Proofs.Grammar.Passing
import ResultHints.Proofs.Grammar.Taken

/-!
# Soundness of the grammar

Whatever the readers accept is related by `Reads`: one theorem for each rule of
the grammar, over a level further in that is sound itself (`Inner.Sound`). Main
statements:

- `Inner.sound_ofDepth`: the levels of nesting are sound at every depth.
- `readsFile_of_file` and `reads_expression`: what is read as a file or an expression is one.
-/

namespace ResultHints

open Reader

/-- The lexemes of a type, at least one, are between two cursors. -/
def Cursor.Spells (s s' : Cursor) : Prop :=
  ∃ ts, s.Moves ts s' ∧ ts ≠ [] ∧ ∀ t ∈ ts, t.kind.isTypePart

/-- What may be read further in is what is accepted with `n` levels left. -/
structure Inner.Sound (n : Nat) (inner : Inner) : Prop where
  type {s s' : Cursor} {u : Unit} : inner.type s = .ok u s' → s.Spells s'
  level {s s' : Cursor} {u : Unit} : inner.type s = .ok u s' → s.Level s'
  past {s s' : Cursor} {u : Unit} {limit : Nat} : n ≤ limit → inner.type s = .ok u s' →
    kinds s'.rest = pastType limit (kinds s.rest)
  operand {m : Layout} {s s' : Cursor} {u : Fragment} :
    inner.operand m s = .ok u s' → Reads n .operand s [u] s'
  wrappedLambda {m : Layout} {s s' : Cursor} {u : Fragment} :
    inner.wrappedLambda m s = .ok u s' → Reads n .wrappedLambda s [u] s'
  lambda {s s' : Cursor} {u : Fragment} : inner.lambda s = .ok u s' → Reads n .lambda s [u] s'
  block {s s' : Cursor} {u : Fragment} : inner.block s = .ok u s' → Reads n .block s [u] s'

/-- What stands right of an operator: a type, or a chain of operators that bind tighter. -/
def rightOperand (inner : Inner) (m : Layout) (limit : Nat) (made : NodeKind) (level : Precedence) :
    Reader Fragment :=
  if made.isTyping then typeReference inner
  else inner.operand m >>= chain inner m limit level.next

variable {inner : Inner} {n : Nat} {m : Layout} {s s₀ s₁ s₂ s' : Cursor} {u : Fragment}
  {us : List Fragment}

/-! ## Several phrases -/

section Several

variable {p : Phrase} {item : Reader Fragment}
  (hitem : ∀ s u s', item s = .ok u s' → Reads n p s [u] s')

include hitem

theorem reads_optionally {b : Bool} (h : optionally b item s = .ok us s') :
    Reads n (.maybe p) s us s' := by
  obtain ⟨-, rfl, rfl⟩ | ⟨-, u, rfl, hu⟩ := of_optionally h
  · exact .absent
  · exact .present (hitem _ _ _ hu)

theorem reads_after {mark : Symbol} (h : after mark item s = .ok us s') :
    Reads n (.after (.symbol mark) p) s us s' := by
  obtain ⟨rfl, rfl⟩ | ⟨u, s₁, rfl, hs, hu⟩ := of_after h
  · exact .unmarked
  · exact .marked hs (hitem _ _ _ hu)

theorem reads_items {stop : Option TokenKind} (h : items stop item s = .ok us s') :
    Reads n (.items p) s us s' ∧ (stop = none → us ≠ []) := by
  exact of_items (P := Reads n (.items p)) (fun _ => .noItem)
    (fun _ _ _ hu => .lastItem (hitem _ _ _ hu))
    (fun _ _ _ _ _ _ hu hs hus => .item (hitem _ _ _ hu) hs hus) h

theorem reads_itemsTo {mark : Symbol} (h : itemsTo mark item s = .ok us s') :
    ∃ s₁, Reads n (.items p) s us s₁ ∧ s₁.Skips (.symbol mark) s' := by
  obtain ⟨s₁, _, hus, hmark⟩ := of_itemsTo h
  exact ⟨s₁, (reads_items hitem hus).1, skips_of_symbol hmark⟩

theorem reads_rowsUpTo {stop : Option TokenKind → Bool} {closing : Option TokenKind} {limit : Nat}
    (h : rowsUpTo stop closing item limit s = .ok us s') : Reads n (.rows p) s us s' :=
  of_rowsUpTo (P := Reads n (.rows p)) (fun _ => .noRow) (fun _ _ _ _ hs hus => .semicolon hs hus)
    (fun _ _ _ _ _ _ hno hu hus => .row hno (hitem _ _ _ hu) hus) h

theorem reads_rows {stop : Option TokenKind → Bool} {closing : Option TokenKind}
    (h : rows stop closing item s = .ok us s') : Reads n (.rows p) s us s' := by
  rw [rows_apply] at h
  exact reads_rowsUpTo hitem h

end Several

/-! ## Types -/

theorem Cursor.Spells.trans (h : s.Spells s₁) (h' : s₁.Spells s') : s.Spells s' := by
  obtain ⟨ts, hts, hne, hall⟩ := h
  obtain ⟨us, hus, -, hall'⟩ := h'
  refine ⟨ts ++ us, hts.append hus, by simp [hne], ?_⟩
  intro t ht
  exact (List.mem_append.1 ht).elim (hall t) (hall' t)

theorem Cursor.Skips.spells {k : TokenKind} (h : s.Skips k s') (hk : k.isTypePart) :
    s.Spells s' := by
  obtain ⟨t, ht, rfl⟩ := h
  exact ⟨[t], ht.moves, by simp, by simpa using hk⟩

theorem spells_qualifiedName {role : String} {t : Lexeme}
    (h : qualifiedName role s = .ok t s') : s.Spells s' := by
  obtain ⟨names, hmoves, hnames, ht⟩ := moves_of_qualifiedName h
  exact ⟨_, hmoves, by simp, forall_mem_segments hnames ht rfl rfl⟩

/-- A reader goes on with a type: what it reads is part of it, or nothing is. -/
def GoesOn {α : Type} (r : Reader α) : Prop :=
  ∀ {s₀ s : Cursor} {a : α} {s' : Cursor}, s₀.Spells s → r s = .ok a s' → s₀.Spells s'

theorem goesOn_accepts {mark : Symbol} (hk : (TokenKind.symbol mark).isTypePart) :
    GoesOn (accepts mark) := by
  intro s₀ s b s' h₀ h
  obtain ⟨-, rfl⟩ | ⟨-, hs⟩ := skips_of_accepts h
  · exact h₀
  · exact h₀.trans (hs.spells hk)

theorem goesOn_symbol {mark : Symbol} (hk : (TokenKind.symbol mark).isTypePart) :
    GoesOn (symbol mark) :=
  fun h₀ h => h₀.trans ((skips_of_symbol h).spells hk)

theorem goesOn_items {item : Reader Unit} (hitem : GoesOn item) {stop : Option TokenKind} :
    GoesOn (items stop item) := by
  intro s₀ s as s' h₀ h
  refine (of_items (P := fun s _ s' => s₀.Spells s → s₀.Spells s') ?_ ?_ ?_ h).1 h₀
  · exact fun _ h => h
  · exact fun _ _ _ ha h => hitem h ha
  · exact fun _ _ _ _ _ _ ha hs hrest h => hrest ((hitem h ha).trans (hs.spells rfl))

theorem goesOn_after {item : Reader Unit} (hitem : GoesOn item) {mark : Symbol}
    (hk : (TokenKind.symbol mark).isTypePart) : GoesOn (after mark item) := by
  intro s₀ s as s' h₀ h
  obtain ⟨-, rfl⟩ | ⟨a, s₁, -, hs, ha⟩ := of_after h
  · exact h₀
  · exact hitem (h₀.trans (hs.spells hk)) ha

theorem level_accepts {mark : Symbol} {b : Bool} (hk : (TokenKind.symbol mark).isBracket = false)
    (h : accepts mark s = .ok b s') : s.Level s' :=
  along_accepts (fun _ => .refl) (fun _ _ hs => hs.level hk) h

theorem level_after {item : Reader Unit} {as : List Unit}
    (hitem : ∀ s a s', item s = .ok a s' → s.Level s') {mark : Symbol}
    (hk : (TokenKind.symbol mark).isBracket = false) (h : after mark item s = .ok as s') :
    s.Level s' :=
  along_after (fun _ => .refl) .trans (fun _ _ hs => hs.level hk) hitem h

theorem level_items {item : Reader Unit} {as : List Unit}
    (hitem : ∀ s a s', item s = .ok a s' → s.Level s') {stop : Option TokenKind}
    (h : items stop item s = .ok as s') : s.Level s' :=
  along_items (fun _ => .refl) .trans (fun _ _ hs => hs.level rfl) hitem h

theorem level_qualifiedName {role : String} {t : Lexeme} (h : qualifiedName role s = .ok t s') :
    s.Level s' := by
  obtain ⟨names, hmoves, hnames, ht⟩ := moves_of_qualifiedName h
  exact hmoves.level (forall_mem_segments hnames ht rfl rfl)

namespace Inner.Sound

variable (hn : inner.Sound n)

include hn

theorem goesOn_type : GoesOn inner.type := fun h₀ h => h₀.trans (hn.type h)

theorem goesOn_typeArguments : GoesOn (typeArguments inner) := by
  intro s₀ s _ s' h₀ h
  obtain ⟨_, _, _, hargs, hclose⟩ := of_typeArguments h
  exact goesOn_symbol rfl (goesOn_items hn.goesOn_type h₀ hargs) hclose

theorem goesOn_functionType : GoesOn (functionType inner) := by
  intro s₀ s _ s' h₀ h
  obtain ⟨_, _, _, _, _, _, _, hps, hclose, hresult, hmark⟩ := of_functionType h
  have hparens := goesOn_symbol rfl (goesOn_items hn.goesOn_type h₀ hps) hclose
  exact goesOn_accepts rfl (goesOn_after hn.goesOn_type rfl hparens hresult) hmark

theorem spells_namedType {u : Unit} (h : namedType inner s = .ok u s') : s.Spells s' := by
  obtain ⟨_, _, _, _, _, hname, hargs, hmark⟩ := of_namedType h
  exact goesOn_accepts rfl
    (goesOn_after hn.goesOn_typeArguments rfl (spells_qualifiedName hname) hargs) hmark

theorem spells_typeLevel {u : Unit} (h : typeLevel inner s = .ok u s') : s.Spells s' := by
  obtain ⟨_, hs, h⟩ | hs | h := of_typeLevel h
  · exact hn.goesOn_functionType (hs.spells rfl) h
  · exact hs.spells rfl
  · exact hn.spells_namedType h

theorem level_typeArguments {u : Unit} (h : typeArguments inner s = .ok u s') : s.Level s' := by
  obtain ⟨_, _, _, hargs, hclose⟩ := of_typeArguments h
  exact (level_items (fun _ _ _ => hn.level) hargs).trans ((skips_of_symbol hclose).level rfl)

theorem level_functionType {t : Lexeme} {u : Unit} (ht : s₀.Takes t s)
    (hk : t.kind = .symbol .leftParen) (h : functionType inner s = .ok u s') : s₀.Level s' := by
  obtain ⟨_, _, _, _, _, _, _, hps, hclose, hresult, hmark⟩ := of_functionType h
  obtain ⟨hclose, hkclose⟩ := takes_of_symbol hclose
  have hparens := (level_items (fun _ _ _ => hn.level) hps).enclosed ht (by rw [hk]; rfl) hclose
    (by rw [hkclose]; rfl)
  exact hparens.trans ((level_after (fun _ _ _ => hn.level) rfl hresult).trans
    (level_accepts rfl hmark))

theorem level_namedType {u : Unit} (h : namedType inner s = .ok u s') : s.Level s' := by
  obtain ⟨_, _, _, _, _, hname, hargs, hmark⟩ := of_namedType h
  exact (level_qualifiedName hname).trans
    ((level_after (fun _ _ _ => hn.level_typeArguments) rfl hargs).trans (level_accepts rfl hmark))

/-- The brackets in a type come in pairs. -/
theorem level_typeLevel {u : Unit} (h : typeLevel inner s = .ok u s') : s.Level s' := by
  obtain ⟨_, ⟨t, ht, hk⟩, h⟩ | hs | h := of_typeLevel h
  · exact hn.level_functionType ht hk h
  · exact hs.level rfl
  · exact hn.level_namedType h

theorem reads_typeReference (h : typeReference inner s = .ok u s') :
    Reads n .typeReference s [u] s' := by
  obtain ⟨s₁, htype, rfl, rfl⟩ := of_typeReference h
  obtain ⟨ts, hts, hne, hall⟩ := hn.type htype
  exact .typeReference hts hne hall (hn.level htype) fun _ hlimit => hn.past hlimit htype

/-! ## Expressions and assignments -/

omit hn in
/-- The operator that a chain of level `least` goes on with. -/
theorem connective?_eq_some {least level : Precedence} {made : NodeKind} :
    s.connective? m least = some (made, level) ↔ ∃ k, s.kind? = some k ∧
      k.connective? = some made ∧ made.precedence? = some level ∧ least.rank ≤ level.rank ∧
      (k.continuesLine || !s.atBreak m) = true := by
  simp only [Cursor.connective?, Option.bind_eq_bind, Option.bind_eq_some_iff,
    Option.ite_none_right_eq_some, Option.some.injEq, Prod.mk.injEq, Bool.and_eq_true,
    decide_eq_true_eq]
  constructor
  · rintro ⟨k, hk, _, hmade, _, hlevel, ⟨hle, hline⟩, rfl, rfl⟩
    exact ⟨k, hk, hmade, hlevel, hle, hline⟩
  · rintro ⟨k, hk, hmade, hlevel, hle, hline⟩
    exact ⟨k, hk, made, hmade, level, hlevel, ⟨hle, hline⟩, rfl, rfl⟩

omit hn in
theorem rank_le_of_connective? {least level : Precedence} {made : NodeKind}
    (h : s.connective? m least = some (made, level)) : least.rank ≤ level.rank := by
  obtain ⟨k, -, -, -, hle, -⟩ := connective?_eq_some.1 h
  exact hle

omit hn in
theorem connective_of_takes {least level : Precedence} {made : NodeKind} {t : Lexeme}
    (h : s.connective? m least = some (made, level)) (ht : s.Takes t s') :
    t.kind.connective? = some made ∧ made.precedence? = some level ∧ least.rank ≤ level.rank := by
  obtain ⟨k, hk, hmade, hlevel, hle, -⟩ := connective?_eq_some.1 h
  obtain rfl := Option.some.inj (ht.kind?.symm.trans hk)
  exact ⟨hmade, hlevel, hle⟩

omit hn in
/-- An operator that a chain of the one level goes on with, and a chain of the other does not, is
    looser than the other. -/
theorem rank_lt_of_connective? {least other level : Precedence} {made : NodeKind}
    (h : s.connective? m least = some (made, level)) (hnone : s.connective? m other = none) :
    level.rank < other.rank := by
  obtain ⟨k, hk, hmade, hlevel, -, hline⟩ := connective?_eq_some.1 h
  by_contra hge
  have hsome := connective?_eq_some.2 ⟨k, hk, hmade, hlevel, Nat.not_lt.1 hge, hline⟩
  cases hnone.symm.trans hsome

omit hn in
/-- A chain with an operator in it: the operator, what stands right of it, and the chain that goes
    on behind both. -/
theorem chain_eq_ok {limit : Nat} {least level : Precedence} {made : NodeKind} {left : Fragment}
    (hc : s.connective? m least = some (made, level)) :
    chain inner m (limit + 1) least left s = .ok u s' ↔ ∃ t s₁ right s₂, next s = .ok t s₁ ∧
      rightOperand inner m limit made level s₁ = .ok right s₂ ∧
      chain inner m limit least (s₂.join made left right) s₂.made = .ok u s' := by
  have hget (g : Cursor → Reader Fragment) : (get >>= g) s = g s s := rfl
  have hstep : chain inner m (limit + 1) least left s = (do
      discard next
      let right ← rightOperand inner m limit made level
      chain inner m limit least (← join made left right)) s := by
    rw [chain, hget, hc]
    cases made <;> rfl
  rw [hstep]
  simp only [bind_eq_ok, discard_eq_ok]
  constructor
  · rintro ⟨_, s₁, ⟨t, ht⟩, right, s₂, hright, both, s₃, hjoin, h⟩
    obtain ⟨rfl, rfl⟩ := eq_of_join hjoin
    exact ⟨t, s₁, right, s₂, ht, hright, h⟩
  · rintro ⟨t, s₁, right, s₂, ht, hright, h⟩
    exact ⟨(), s₁, ⟨t, ht⟩, right, s₂, hright, _, _, rfl, h⟩

omit hn in
/-- At the end of a chain there is no operator; before it there are its operands. -/
theorem chain_of_none {limit : Nat} {least : Precedence} {left : Fragment}
    (hc : s.connective? m least = none) : chain inner m limit least left s = .ok left s := by
  cases limit with
  | zero => rfl
  | succ limit =>
    simp only [chain, bind_eq_ok, get_eq_ok]
    refine ⟨_, _, ⟨rfl, rfl⟩, ?_⟩
    rw [hc]
    rfl

theorem length_le_of_rightOperand {limit : Nat} {made : NodeKind} {level : Precedence}
    (hchain : ∀ {least left s u s'}, chain inner m limit least left s = .ok u s' →
      s'.rest.length ≤ s.rest.length)
    (h : rightOperand inner m limit made level s = .ok u s') :
    s'.rest.length ≤ s.rest.length := by
  rw [rightOperand] at h
  split at h
  · exact length_le_of_reads (hn.reads_typeReference h)
  · obtain ⟨first, s₁, hfirst, h⟩ := bind_eq_ok.1 h
    exact Nat.le_trans (hchain h) (length_le_of_reads (hn.operand hfirst))

theorem length_le_of_chain {limit : Nat} {least : Precedence} {left : Fragment}
    (h : chain inner m limit least left s = .ok u s') : s'.rest.length ≤ s.rest.length := by
  induction limit generalizing least left s u s' with
  | zero =>
    obtain ⟨-, rfl⟩ := pure_eq_ok.1 h
    exact Nat.le_refl _
  | succ limit ih =>
    cases hc : s.connective? m least with
    | none =>
      rw [chain_of_none hc] at h
      cases h
      exact Nat.le_refl _
    | some c =>
      obtain ⟨made, level⟩ := c
      obtain ⟨t, s₁, right, s₂, ht, hright, h⟩ := (chain_eq_ok hc).1 h
      have hlt := (takes_of_next ht).length_lt
      have hright := hn.length_le_of_rightOperand ih hright
      have hrest : s'.rest.length ≤ s₂.rest.length := ih (s := s₂.made) h
      omega

/-- A chain that takes as many operators as there are lexemes ends before no operator that it could
    go on with. -/
theorem connective?_of_chain {limit : Nat} {least : Precedence} {left : Fragment}
    (hlimit : s.size ≤ limit) (h : chain inner m limit least left s = .ok u s') :
    s'.connective? m least = none := by
  induction limit generalizing left s with
  | zero =>
    obtain ⟨-, rfl⟩ := pure_eq_ok.1 h
    have hrest := List.eq_nil_of_length_eq_zero (Nat.le_zero.1 hlimit)
    simp [Cursor.connective?, Cursor.kind?, hrest]
  | succ limit ih =>
    cases hc : s.connective? m least with
    | none =>
      rw [chain_of_none hc] at h
      cases h
      exact hc
    | some c =>
      obtain ⟨made, level⟩ := c
      obtain ⟨t, s₁, right, s₂, ht, hright, h⟩ := (chain_eq_ok hc).1 h
      have hlt := (takes_of_next ht).length_lt
      have hright := hn.length_le_of_rightOperand hn.length_le_of_chain hright
      exact ih (by simp only [Cursor.size, Cursor.made] at hlimit ⊢; omega) h

omit hn in
/-- An operand is no operator between operands. -/
theorem precedence?_of_operand (h : Reads n .operand s [u] s') :
    u.label.kind.precedence? = none := by
  cases h with
  | plainOperand h =>
    cases h with
    | suffixStart h =>
      cases h with
      | lambdaAlone h => cases h; rfl
      | _ => rfl
    | _ => rfl
  | _ => rfl

omit hn in
/-- Behind an operand, any operator may come. -/
theorem follows_of_operand {least level : Precedence} {made : NodeKind}
    (h : Reads n .operand s₀ [u] s) (hc : s.connective? m least = some (made, level)) :
    least.Follows level u := by
  refine ⟨rank_le_of_connective? hc, fun hother => ?_⟩
  rw [precedence?_of_operand h] at hother
  cases hother

/-- What is read of a chain is one, if the next operator may come behind what was read of it. -/
theorem reads_chain {limit : Nat} {least : Precedence} {left : Fragment} (hlimit : s.size ≤ limit)
    (hleft : Reads n (.chain least) s₀ [left] s)
    (hnext : ∀ made level, s.connective? m least = some (made, level) → least.Follows level left)
    (h : chain inner m limit least left s = .ok u s') : Reads n (.chain least) s₀ [u] s' := by
  induction limit generalizing least left s₀ s u s' with
  | zero =>
    obtain ⟨rfl, rfl⟩ := pure_eq_ok.1 h
    exact hleft
  | succ limit ih =>
    cases hc : s.connective? m least with
    | none =>
      rw [chain_of_none hc] at h
      cases h
      exact hleft
    | some c =>
      obtain ⟨made, level⟩ := c
      obtain ⟨t, s₁, right, s₂, ht, hright, h⟩ := (chain_eq_ok hc).1 h
      have ht := takes_of_next ht
      have hlt := ht.length_lt
      have hroom := hn.length_le_of_rightOperand hn.length_le_of_chain hright
      obtain ⟨hmade, hlevel, -⟩ := connective_of_takes hc ht
      have hfollows := hnext _ _ hc
      simp only [Cursor.size] at hlimit
      have hlimit' : s₂.made.size ≤ limit := by
        simp only [Cursor.size, Cursor.made]
        omega
      cases made with
      | typeTest =>
        have hchain := Reads.typing hleft ht hmade rfl hlevel hfollows (hn.reads_typeReference hright)
        exact ih hlimit' hchain
          (fun _ _ hc' => ⟨rank_le_of_connective? hc', fun _ htest => nomatch htest⟩) h
      | cast =>
        have hchain := Reads.typing hleft ht hmade rfl hlevel hfollows (hn.reads_typeReference hright)
        refine ih hlimit' hchain
          (fun _ other hc' => ⟨rank_le_of_connective? hc', fun hcast _ => ?_⟩) h
        cases hcast
        exact other.rank_le_cast
      | binary op =>
        -- The right operand is a chain itself, of operators that bind tighter; so it ends before
        -- one that does not.
        obtain ⟨first, s₃, hfirst, hright⟩ := bind_eq_ok.1 hright
        have hfirst := hn.operand hfirst
        have hroom' := length_le_of_reads hfirst
        have hlimit'' : s₃.size ≤ limit := by
          simp only [Cursor.size]
          omega
        have hend := hn.connective?_of_chain hlimit'' hright
        have hchain := ih hlimit'' (.chainStart hfirst) (fun _ _ => follows_of_operand hfirst) hright
        refine ih hlimit' (.binary hleft ht hmade hlevel hfollows hchain)
          (fun _ other hc' => ⟨rank_le_of_connective? hc', fun hop _ => ?_⟩) h
        obtain rfl := Option.some.inj (hlevel.symm.trans hop)
        have hloose := rank_lt_of_connective? hc' hend
        have hstep := level.rank_next_le
        omega
      | _ => simp [NodeKind.precedence?] at hlevel

theorem reads_expression (h : expression inner m s = .ok u s') : Reads n .expression s [u] s' := by
  simp only [expression, bind_eq_ok, get_eq_ok] at h
  obtain ⟨first, s₁, hfirst, _, _, ⟨rfl, rfl⟩, h⟩ := h
  have hfirst := hn.operand hfirst
  exact hn.reads_chain (Nat.le_refl _) (.chainStart hfirst) (fun _ _ => follows_of_operand hfirst) h

theorem reads_assignment (h : assignment inner m s = .ok u s') : Reads n .assignment s [u] s' := by
  simp only [assignment, bind_eq_ok, get_eq_ok] at h
  obtain ⟨left, s₁, hleft, _, _, ⟨rfl, rfl⟩, h⟩ := h
  have hleft := hn.reads_expression hleft
  cases hop : s₁.kind? >>= TokenKind.assignment? with
  | none =>
    rw [hop] at h
    obtain ⟨rfl, rfl⟩ := pure_eq_ok.1 h
    exact .value hleft
  | some op =>
    rw [hop] at h
    dsimp only at h
    split at h
    · obtain ⟨rfl, rfl⟩ := pure_eq_ok.1 h
      exact .value hleft
    · simp only [bind_eq_ok, discard_eq_ok] at h
      obtain ⟨_, s₂, ⟨t, ht⟩, right, s₃, hright, h⟩ := h
      obtain ⟨rfl, rfl⟩ := eq_of_join h
      have ht := takes_of_next ht
      rw [ht.kind?] at hop
      exact .assignment hleft ht hop (hn.reads_expression hright)

/-! ## Arguments -/

theorem reads_argument (h : argument inner s = .ok u s') : Reads n .argument s [u] s' := by
  simp only [argument, bind_eq_ok, get_eq_ok] at h
  obtain ⟨_, _, ⟨rfl, rfl⟩, h⟩ := h
  split at h
  · rename_i hahead
    simp only [Bool.and_eq_true] at hahead
    simp only [bind_eq_ok, discard_eq_ok] at h
    obtain ⟨t, s₁, ht, _, s₂, ⟨t', ht'⟩, value, s₃, hvalue, h⟩ := h
    have ht := takes_of_next ht
    have ht' := takes_of_next ht'
    have hassign : t'.kind = .symbol .assign := by
      cases ht
      cases ht'
      simpa [Cursor.secondKind?] using hahead.2
    obtain ⟨rfl, rfl⟩ := eq_of_close h
    exact .namedArgument ht (ht.isAt.1 hahead.1) ⟨t', ht', hassign⟩ (hn.reads_expression hvalue)
  · simp only [bind_eq_ok] at h
    obtain ⟨value, s₃, hvalue, h⟩ := h
    obtain ⟨rfl, rfl⟩ := eq_of_close h
    exact .argument (hn.reads_expression hvalue)

theorem reads_argumentList (h : argumentList inner s = .ok u s') :
    Reads n .argumentList s [u] s' := by
  simp only [argumentList, bind_eq_ok] at h
  obtain ⟨t, s₁, hopen, us, s₂, hto, h⟩ := h
  obtain ⟨ht, hk⟩ := takes_of_symbol hopen
  obtain ⟨s₃, hus, hclose⟩ := reads_itemsTo (fun _ _ _ => hn.reads_argument) hto
  obtain ⟨rfl, rfl⟩ := eq_of_close h
  exact .argumentList ht hk hus hclose

theorem reads_annotationEntriesUpTo {limit : Nat}
    (h : annotationEntriesUpTo inner m limit s = .ok us s') :
    Reads n (.many .annotationEntry) s us s' := by
  induction limit generalizing s us with
  | zero =>
    obtain ⟨rfl, rfl⟩ := pure_eq_ok.1 h
    exact .noMore
  | succ limit ih =>
    simp only [annotationEntriesUpTo, bind_eq_ok] at h
    obtain ⟨o, s₁, ho, h⟩ := h
    obtain ⟨rfl, rfl, -⟩ | ⟨t, rfl, ht, hk⟩ := takes_of_accept ho
    · obtain ⟨rfl, rfl⟩ := pure_eq_ok.1 h
      exact .noMore
    · simp only [bind_eq_ok, get_eq_ok, pure_eq_ok] at h
      obtain ⟨_, _, ⟨rfl, rfl⟩, as, s₂, has, entry, s₃, hentry, rest, s₄, hrest, rfl, rfl⟩ := h
      obtain ⟨rfl, rfl⟩ := eq_of_close hentry
      exact .more
        (.annotationEntry ht hk (reads_optionally (fun _ _ _ => hn.reads_argumentList) has))
        (ih hrest)

theorem reads_annotationEntries (h : annotationEntries inner m s = .ok us s') :
    Reads n (.many .annotationEntry) s us s' := by
  rw [annotationEntries_apply] at h
  exact hn.reads_annotationEntriesUpTo h

omit hn in
/-- Before an annotation there is an entry to read. -/
theorem annotationEntries_ne_nil (h : annotationEntries inner m s = .ok us s')
    (hk : s.kind? = some .annotationName) : us ≠ [] := by
  rw [annotationEntries_apply] at h
  obtain ⟨source, _ | ⟨t, ts⟩, stop⟩ := s
  · simp [Cursor.kind?] at hk
  · simp only [Cursor.size, List.length_cons, annotationEntriesUpTo, bind_eq_ok] at h
    obtain ⟨o, s₁, ho, h⟩ := h
    obtain ⟨-, -, hno⟩ | ⟨t, rfl, -⟩ := takes_of_accept ho
    · simp [Cursor.isAt, hk] at hno
    · simp only [bind_eq_ok, pure_eq_ok] at h
      obtain ⟨_, _, -, _, _, -, _, _, -, _, _, -, rfl, -⟩ := h
      simp

omit hn in
theorem afterAnnotations_of_not_isAt (h : ¬s.isAt .annotationName) :
    afterAnnotations .before s.rest = s.rest := by
  obtain ⟨source, _ | ⟨t, ts⟩, stop, i⟩ := s
  · rfl
  · exact if_neg fun hk => h (by simp [Cursor.isAt, Cursor.kind?, hk])

/-- After the name of an entry, its arguments are looked past if they are read. -/
theorem afterAnnotations_of_arguments
    (h : optionally (s.isAt (.symbol .leftParen) && !s.atBreak .lines) (argumentList inner) s =
      .ok us s') : afterAnnotations .named s.rest = afterAnnotations .before s'.rest := by
  obtain ⟨hno, -, rfl⟩ | ⟨hahead, u, -, hu⟩ := of_optionally h
  · obtain ⟨source, _ | ⟨t, ts⟩, stop, i⟩ := s'
    · rfl
    · have hnone : ¬(t.kind = .symbol .leftParen ∧ ¬t.afterBreak) := by
        rintro ⟨hk, hbreak⟩
        simp [Cursor.isAt, Cursor.kind?, Cursor.atBreak, hk, hbreak] at hno
      rw [afterAnnotations, afterAnnotations, if_neg hnone]
  · obtain ⟨t, ts, hrest, hk, hafter⟩ := afterAnnotations_of_argumentList (hn.reads_argumentList hu)
    rw [Bool.and_eq_true, Bool.not_eq_true'] at hahead
    rw [hrest, afterAnnotations, if_neg (by rw [hk]; decide),
      if_pos ⟨hk, by simpa [Cursor.atBreak, hrest] using hahead.2⟩, hafter]

/-- Where annotation entries in lines end is seen from their beginning. -/
theorem afterAnnotations_of_entriesUpTo {limit : Nat}
    (h : annotationEntriesUpTo inner .lines limit s = .ok us s') (hlimit : s.size ≤ limit) :
    afterAnnotations .before s.rest = s'.rest := by
  induction limit generalizing s us with
  | zero =>
    obtain ⟨-, rfl⟩ := pure_eq_ok.1 h
    rw [List.eq_nil_of_length_eq_zero (Nat.le_zero.1 hlimit)]
    rfl
  | succ limit ih =>
    simp only [annotationEntriesUpTo, bind_eq_ok] at h
    obtain ⟨o, s₁, ho, h⟩ := h
    obtain ⟨rfl, rfl, hno⟩ | ⟨t, rfl, ht, hk⟩ := takes_of_accept ho
    · obtain ⟨-, rfl⟩ := pure_eq_ok.1 h
      exact afterAnnotations_of_not_isAt hno
    · simp only [bind_eq_ok, get_eq_ok, pure_eq_ok] at h
      obtain ⟨_, _, ⟨rfl, rfl⟩, as, s₂, has, entry, s₃, hentry, rest, s₄, hrest, rfl, rfl⟩ := h
      obtain ⟨rfl, rfl⟩ := eq_of_close hentry
      have hlt := ht.length_lt
      have hle := (took_of_reads
        (reads_optionally (fun _ _ _ => hn.reads_argumentList) has)).length_le
      have hsize : s₂.made.size ≤ limit := by
        simp only [Cursor.size, Cursor.made] at hlimit ⊢
        omega
      rw [← ih hrest hsize]
      have hnamed : afterAnnotations .before s.rest = afterAnnotations .named s₁.rest := by
        cases ht
        rw [afterAnnotations, if_pos hk]
      rw [hnamed, hn.afterAnnotations_of_arguments has]
      rfl

/-- A declaration is ahead of annotations in lines if one comes after them. -/
theorem declarationAhead_iff (h : annotationEntries inner .lines s = .ok us s') :
    s.declarationAhead ↔ s'.kind? = some (.keyword .fun_) ∨
      s'.kind? = some (.keyword .val_) ∨ s'.kind? = some (.keyword .var_) := by
  rw [annotationEntries_apply] at h
  rw [Cursor.declarationAhead, hn.afterAnnotations_of_entriesUpTo h (Nat.le_refl _), Cursor.kind?]
  obtain ⟨source, _ | ⟨t, ts⟩, stop, i⟩ := s'
  · simp [kinds]
  · simp only [kinds, List.map_cons, List.head?_cons, Option.map_some, Option.some.injEq]
    constructor
    · intro hahead
      split at hahead
      · next heq => exact .inl (List.cons.inj heq).1
      · next heq => exact .inr (.inl (List.cons.inj heq).1)
      · next heq => exact .inr (.inr (List.cons.inj heq).1)
      · cases hahead
    · rintro (hk | hk | hk) <;> rw [hk]

theorem reads_lambdaArgument (hahead : s.lambdaAhead) (h : lambdaArgument inner m s = .ok u s') :
    Reads n .lambdaArgument s [u] s' := by
  simp only [lambdaArgument, bind_eq_ok, get_eq_ok] at h
  obtain ⟨_, _, ⟨rfl, rfl⟩, v, s₁, hv, h⟩ := h
  obtain ⟨rfl, rfl⟩ := eq_of_close h
  exact .lambdaArgument hahead (hn.wrappedLambda hv)

/-- A call has arguments or a lambda; without them nothing is read. -/
theorem reads_callOf? {callee : Fragment} {o : Option Fragment}
    (h : callOf? inner m callee s = .ok o s') :
    (o = none ∧ s' = s) ∨ ∃ us vs s₁ s₂, Reads n (.maybe .argumentList) s us s₁ ∧
      Reads n (.maybe .lambdaArgument) s₁ vs s₂ ∧ us ++ vs ≠ [] ∧
      o = some (s₂.node callee.span.start .call (callee :: (us ++ vs))) ∧ s' = s₂.made := by
  obtain ⟨-, rfl, rfl⟩ | ⟨-, us, s₁, vs, s₂, hus, hvs, h⟩ := callOf?_eq_ok.1 h
  · exact .inl ⟨rfl, rfl⟩
  · have hus := reads_optionally (fun _ _ _ => hn.reads_argumentList) hus
    have hvs : Reads n (.maybe .lambdaArgument) s₁ vs s₂ := by
      obtain ⟨-, rfl, rfl⟩ | ⟨hahead, v, rfl, hv⟩ := of_optionally hvs
      · exact .absent
      · exact .present (hn.reads_lambdaArgument (Bool.and_eq_true_iff.1 hahead).2 hv)
    obtain ⟨hempty, rfl, rfl⟩ | ⟨hne, rfl, rfl⟩ := h
    · -- With neither arguments nor a lambda, the cursor has not moved.
      obtain ⟨rfl, rfl⟩ := List.append_eq_nil_iff.1 hempty
      cases hus
      cases hvs
      exact .inl ⟨rfl, rfl⟩
    · exact .inr ⟨us, vs, s₁, s₂, hus, hvs, hne, rfl, rfl⟩

/-! ## Branches and loops -/

theorem reads_controlBody (h : controlBody inner m s = .ok u s') : Reads n .body s [u] s' := by
  simp only [controlBody, bind_eq_ok, get_eq_ok] at h
  obtain ⟨_, _, ⟨rfl, rfl⟩, h⟩ := h
  split at h
  · exact .blockBody (hn.block h)
  · exact .valueBody (hn.reads_assignment h)

theorem reads_inParentheses {kind : NodeKind} (hkind : kind.isEnclosed)
    (h : inParentheses inner kind s = .ok u s') : Reads n (.enclosed kind) s [u] s' := by
  simp only [inParentheses, bind_eq_ok, discard_eq_ok] at h
  obtain ⟨_, s₁, ⟨_, hopen⟩, e, s₂, he, _, s₃, ⟨_, hclose⟩, h⟩ := h
  obtain ⟨rfl, rfl⟩ := eq_of_wrap h
  exact .enclosed hkind (skips_of_symbol hopen) (hn.reads_expression he) (skips_of_symbol hclose)

theorem reads_elseBranch (h : elseBranch inner m s = .ok u s') : Reads n .elseBranch s [u] s' := by
  simp only [elseBranch, bind_eq_ok, discard_eq_ok] at h
  obtain ⟨_, s₁, ⟨b, hsemi⟩, _, s₂, ⟨_, helse⟩, body, s₃, hbody, h⟩ := h
  obtain ⟨rfl, rfl⟩ := eq_of_wrap h
  have hbranch := Reads.elseBranch (skips_of_keyword helse) (hn.reads_controlBody hbody)
  obtain ⟨-, rfl⟩ | ⟨-, hsemi⟩ := skips_of_accepts hsemi
  · exact hbranch
  · exact .lateElseBranch hsemi hbranch

theorem reads_ifElse (h : ifElse inner m s = .ok u s') : Reads n .primary s [u] s' := by
  simp only [ifElse, bind_eq_ok, get_eq_ok] at h
  obtain ⟨t, s₁, ht, c, s₂, hc, b, s₃, hb, branch, s₄, hwrap, _, _, ⟨rfl, rfl⟩, es, s₅, hes,
    h⟩ := h
  obtain ⟨ht, hk⟩ := takes_of_keyword ht
  obtain ⟨rfl, rfl⟩ := eq_of_wrap hwrap
  obtain ⟨rfl, rfl⟩ := eq_of_close h
  refine .ifElse ht hk (hn.reads_inParentheses rfl hc) (hn.reads_controlBody hb)
    (reads_optionally (fun _ _ _ => hn.reads_elseBranch) hes) ?_
  -- A branch is read just where one is ahead.
  obtain ⟨hahead, rfl, -⟩ | ⟨hahead, _, rfl, -⟩ := of_optionally hes
  · exact iff_of_false (Bool.eq_false_iff.1 hahead) (by simp)
  · exact iff_of_true hahead (by simp)

theorem reads_whenCondition (h : whenCondition inner s = .ok u s') :
    Reads n .whenCondition s [u] s' := by
  simp only [whenCondition, bind_eq_ok, get_eq_ok] at h
  obtain ⟨_, _, ⟨rfl, rfl⟩, h⟩ := h
  obtain ⟨r, hr, h⟩ := exists_eq_of_ok h
  split at hr <;> subst hr
  -- The test of a type and its negation, then those of membership.
  iterate 2
    · rename_i hk
      simp only [bind_eq_ok, discard_eq_ok] at h
      obtain ⟨_, s₁, ⟨t, ht⟩, v, s₂, hv, h⟩ := h
      obtain ⟨ht, hk⟩ := takes_of_next_of_kind? ht hk
      obtain ⟨rfl, rfl⟩ := eq_of_close h
      exact .typeCondition ht hk (hn.reads_typeReference hv)
  iterate 2
    · rename_i hk
      simp only [bind_eq_ok, discard_eq_ok] at h
      obtain ⟨_, s₁, ⟨t, ht⟩, v, s₂, hv, h⟩ := h
      obtain ⟨ht, hk⟩ := takes_of_next_of_kind? ht hk
      obtain ⟨rfl, rfl⟩ := eq_of_close h
      exact .membershipCondition ht hk (hn.reads_expression hv)
  · simp only [bind_eq_ok] at h
    obtain ⟨v, s₂, hv, h⟩ := h
    obtain ⟨rfl, rfl⟩ := eq_of_close h
    exact .valueCondition (hn.reads_expression hv)

theorem reads_whenEntry (h : whenEntry inner s = .ok u s') : Reads n .whenEntry s [u] s' := by
  simp only [whenEntry, bind_eq_ok, get_eq_ok] at h
  obtain ⟨_, _, ⟨rfl, rfl⟩, o, s₁, ho, h⟩ := h
  obtain ⟨rfl, rfl, -⟩ | ⟨t, rfl, ht, hk⟩ := takes_of_accept ho
  · simp only [Option.isSome_none, Bool.false_eq_true, if_false, bind_eq_ok, discard_eq_ok] at h
    obtain ⟨cs, s₂, hcs, _, s₃, ⟨_, harrow⟩, b, s₄, hb, h⟩ := h
    obtain ⟨hcs, hne⟩ := reads_items (fun _ _ _ => hn.reads_whenCondition) hcs
    obtain ⟨rfl, rfl⟩ := eq_of_close h
    exact .whenEntry hcs (hne rfl) (skips_of_symbol harrow) (hn.reads_controlBody hb)
  · simp only [Option.isSome_some, if_true, bind_eq_ok, discard_eq_ok, pure_eq_ok] at h
    obtain ⟨_, _, ⟨rfl, rfl⟩, _, s₃, ⟨_, harrow⟩, b, s₄, hb, h⟩ := h
    obtain ⟨rfl, rfl⟩ := eq_of_close h
    exact .elseEntry ⟨t, ht, hk⟩ (skips_of_symbol harrow) (hn.reads_controlBody hb)

theorem reads_whenBranches (h : whenBranches inner s = .ok u s') : Reads n .primary s [u] s' := by
  simp only [whenBranches, bind_eq_ok, get_eq_ok, discard_eq_ok] at h
  obtain ⟨t, s₁, ht, _, _, ⟨rfl, rfl⟩, us, s₂, hus, _, s₃, ⟨_, hopen⟩, es, s₄, hes, _, s₅,
    ⟨_, hclose⟩, h⟩ := h
  obtain ⟨ht, hk⟩ := takes_of_keyword ht
  obtain ⟨rfl, rfl⟩ := eq_of_close h
  exact .when_ ht hk (reads_optionally (fun _ _ _ => hn.reads_inParentheses rfl) hus)
    (skips_of_symbol hopen) (reads_rows (fun _ _ _ => hn.reads_whenEntry) hes)
    (skips_of_symbol hclose)

theorem reads_forLoop (h : forLoop inner m s = .ok u s') : Reads n .primary s [u] s' := by
  simp only [forLoop, bind_eq_ok, discard_eq_ok] at h
  obtain ⟨t, s₁, ht, _, s₂, ⟨_, hopen⟩, name, s₃, hname, _, s₄, ⟨_, hin⟩, e, s₅, he, _, s₆,
    ⟨_, hclose⟩, range, s₇, hrange, b, s₈, hb, body, s₉, hbody, h⟩ := h
  obtain ⟨ht, hk⟩ := takes_of_keyword ht
  obtain ⟨hname, hkname⟩ := takes_of_identifier hname
  obtain ⟨rfl, rfl⟩ := eq_of_wrap hrange
  obtain ⟨rfl, rfl⟩ := eq_of_wrap hbody
  obtain ⟨rfl, rfl⟩ := eq_of_close h
  exact .forLoop ht hk (skips_of_symbol hopen) hname hkname (skips_of_keyword hin)
    (hn.reads_expression he) (skips_of_symbol hclose) (hn.reads_controlBody hb)

theorem reads_whileLoop (h : whileLoop inner m s = .ok u s') : Reads n .primary s [u] s' := by
  simp only [whileLoop, bind_eq_ok] at h
  obtain ⟨t, s₁, ht, c, s₂, hc, b, s₃, hb, body, s₄, hbody, h⟩ := h
  obtain ⟨ht, hk⟩ := takes_of_keyword ht
  obtain ⟨rfl, rfl⟩ := eq_of_wrap hbody
  obtain ⟨rfl, rfl⟩ := eq_of_close h
  exact .whileLoop ht hk (hn.reads_inParentheses rfl hc) (hn.reads_controlBody hb)

/-! ## Operands -/

omit hn in
theorem refers_of_labelReference? {label : Option String}
    (h : labelReference? s = .ok label s') : s.Refers label s' := by
  simp only [labelReference?, bind_eq_ok, pure_eq_ok] at h
  obtain ⟨o, s₁, ho, rfl, rfl⟩ := h
  obtain ⟨rfl, rfl, -⟩ | ⟨t, rfl, ht, hk⟩ := takes_of_accept ho
  · exact .none
  · exact .some ht hk

omit hn in
/-- A keyword with the label that it may refer to. -/
theorem of_referring {t : Lexeme} {kind : Option String → NodeKind} (ht : s.rest.head? = some t)
    (h : (do discard next; close t.start (kind (← labelReference?)) [] : Reader Fragment) s =
      .ok u s') :
    ∃ s₁ label s₂, s.Takes t s₁ ∧ s₁.Refers label s₂ ∧ u = s₂.node t.start (kind label) [] ∧
      s' = s₂.made := by
  simp only [bind_eq_ok, discard_eq_ok] at h
  obtain ⟨_, s₁, ⟨_, hnext⟩, label, s₂, hlabel, h⟩ := h
  obtain ⟨rfl, rfl⟩ := eq_of_close h
  exact ⟨s₁, label, s₂, takes_of_next_of_head? hnext ht, refers_of_labelReference? hlabel, rfl, rfl⟩

omit hn in
/-- A lexeme that is a node of its own. -/
theorem of_nextLeaf {t : Lexeme} {kind : NodeKind} (ht : s.rest.head? = some t)
    (h : (do discard next; leaf kind t : Reader Fragment) s = .ok u s') :
    ∃ s₁, s.Takes t s₁ ∧ u = s₁.leaf kind t ∧ s' = s₁.made := by
  simp only [bind_eq_ok, discard_eq_ok] at h
  obtain ⟨_, s₁, ⟨_, hnext⟩, h⟩ := h
  obtain ⟨rfl, rfl⟩ := eq_of_leaf h
  exact ⟨s₁, takes_of_next_of_head? hnext ht, rfl, rfl⟩

theorem reads_returnJump {t : Lexeme} (ht : s₀.Takes t s) (hk : t.kind = .keyword .return_)
    (h : returnJump inner m t.start s = .ok u s') : Reads n .primary s₀ [u] s' := by
  simp only [returnJump, bind_eq_ok, get_eq_ok] at h
  obtain ⟨label, s₁, hlabel, _, _, ⟨rfl, rfl⟩, us, s₂, hus, h⟩ := h
  obtain ⟨rfl, rfl⟩ := eq_of_close h
  exact .return_ ht hk (refers_of_labelReference? hlabel)
    (reads_optionally (fun _ _ _ => hn.reads_expression) hus)

theorem reads_parenthesized {t : Lexeme} (ht : s₀.Takes t s) (hk : t.kind = .symbol .leftParen)
    (h : parenthesized inner t.start s = .ok u s') : Reads n .primary s₀ [u] s' := by
  simp only [parenthesized, bind_eq_ok, discard_eq_ok] at h
  obtain ⟨e, s₁, he, _, s₂, ⟨_, hclose⟩, h⟩ := h
  obtain ⟨rfl, rfl⟩ := eq_of_close h
  exact .parenthesized ht hk (hn.reads_expression he) (skips_of_symbol hclose)

theorem reads_keywordExpression {t : Lexeme} {word : Keyword} (ht : s.rest.head? = some t)
    (hk : t.kind = .keyword word) (h : keywordExpression inner m t word s = .ok u s') :
    Reads n .primary s [u] s' := by
  unfold keywordExpression at h
  split at h
  · obtain ⟨_, _, _, ht, hr, rfl, rfl⟩ := of_referring ht h
    exact .this ht hk hr
  · exact hn.reads_ifElse h
  · exact hn.reads_whenBranches h
  · exact hn.reads_forLoop h
  · exact hn.reads_whileLoop h
  · simp only [bind_eq_ok, discard_eq_ok] at h
    obtain ⟨_, s₁, ⟨_, hnext⟩, h⟩ := h
    exact hn.reads_returnJump (takes_of_next_of_head? hnext ht) hk h
  · simp only [bind_eq_ok, discard_eq_ok] at h
    obtain ⟨_, s₁, ⟨_, hnext⟩, e, s₂, he, h⟩ := h
    obtain ⟨rfl, rfl⟩ := eq_of_close h
    exact .throw_ (takes_of_next_of_head? hnext ht) hk (hn.reads_expression he)
  · obtain ⟨_, _, _, ht, hr, rfl, rfl⟩ := of_referring ht h
    exact .break_ ht hk hr
  · obtain ⟨_, _, _, ht, hr, rfl, rfl⟩ := of_referring ht h
    exact .continue_ ht hk hr
  · cases h

theorem reads_primary (h : primary inner m s = .ok u s') : Reads n .primary s [u] s' := by
  simp only [primary, bind_eq_ok, get_eq_ok] at h
  obtain ⟨_, _, ⟨rfl, rfl⟩, h⟩ := h
  obtain ⟨r, hr, h⟩ := exists_eq_of_ok h
  split at hr
  · subst hr
    cases h
  · rename_i t ts hrest
    have ht : s.rest.head? = some t := by rw [hrest]; rfl
    split at hr <;> subst hr
    · rename_i hk
      obtain ⟨_, ht, rfl, rfl⟩ := of_nextLeaf ht h
      exact .literal ht hk
    · rename_i hk
      obtain ⟨_, ht, rfl, rfl⟩ := of_nextLeaf ht h
      exact .name ht hk
    · rename_i hk
      simp only [bind_eq_ok, discard_eq_ok] at h
      obtain ⟨_, s₁, ⟨_, hnext⟩, h⟩ := h
      exact hn.reads_parenthesized (takes_of_next_of_head? hnext ht) hk h
    · exact .lambdaAlone (hn.lambda h)
    · rename_i hk
      exact hn.reads_keywordExpression ht hk h
    · cases h

theorem reads_member (h : member inner m s = .ok u s') : Reads n .member s [u] s' := by
  simp only [member, bind_eq_ok, pure_eq_ok] at h
  obtain ⟨t, s₁, ht, name, s₂, hname, o, s₃, ho, rfl, rfl⟩ := h
  obtain ⟨ht, hk⟩ := takes_of_identifier ht
  obtain ⟨rfl, rfl⟩ := eq_of_leaf hname
  obtain ⟨rfl, rfl⟩ | ⟨us, vs, s₄, s₅, hus, hvs, hne, rfl, rfl⟩ := hn.reads_callOf? ho
  · exact .memberName ht hk
  · exact .memberCall ht hk hus hvs hne

theorem reads_indices {receiver : Fragment} (hreceiver : Reads n .suffixed s₀ [receiver] s₁)
    (hopen : s₁.Skips (.symbol .leftBracket) s) (h : indices inner receiver s = .ok u s') :
    Reads n .suffixed s₀ [u] s' := by
  simp only [indices, bind_eq_ok, discard_eq_ok] at h
  obtain ⟨es, s₂, hes, _, s₃, ⟨_, hclose⟩, h⟩ := h
  obtain ⟨hes, hne⟩ := reads_items (fun _ _ _ => hn.reads_expression) hes
  obtain ⟨rfl, rfl⟩ := eq_of_close h
  exact .arrayAccess hreceiver hopen hes (hne rfl) (skips_of_symbol hclose)

theorem reads_suffix {e e' : Fragment} (he : Reads n .suffixed s₀ [e] s)
    (h : Suffix inner m e s e' s') : Reads n .suffixed s₀ [e'] s' := by
  cases h with
  | dot hdot hv => exact .qualified he hdot (hn.reads_member hv)
  | safeAccess hmark hv => exact .qualified he hmark (hn.reads_member hv)
  | trailing ht hop => exact .trailing he ht hop
  | indices hopen hv => exact hn.reads_indices he hopen hv
  | call ho =>
    obtain ⟨hno, -⟩ | ⟨us, vs, s₁, s₂, hus, hvs, hne, heq, rfl⟩ := hn.reads_callOf? ho
    · cases hno
    · cases heq
      exact .call he hus hvs hne

theorem reads_suffixesUpTo {limit : Nat} {e : Fragment} (he : Reads n .suffixed s₀ [e] s)
    (h : suffixesUpTo inner m limit e s = .ok u s') : Reads n .suffixed s₀ [u] s' := by
  induction limit generalizing e s with
  | zero =>
    obtain ⟨rfl, rfl⟩ := pure_eq_ok.1 h
    exact he
  | succ limit ih =>
    obtain ⟨rfl, rfl⟩ | ⟨e', s₁, hsuffix, h⟩ := of_suffixesUpTo h
    · exact he
    · exact ih (hn.reads_suffix he hsuffix) h

theorem reads_suffixes (h : suffixes inner m s = .ok u s') : Reads n .suffixed s [u] s' := by
  simp only [suffixes, bind_eq_ok, get_eq_ok] at h
  obtain ⟨e, s₁, he, _, _, ⟨rfl, rfl⟩, h⟩ := h
  exact hn.reads_suffixesUpTo (.suffixStart (hn.reads_primary he)) h

theorem reads_operandLevel (h : operandLevel inner m s = .ok u s') :
    Reads (n + 1) .operand s [u] s' := by
  simp only [operandLevel, bind_eq_ok, get_eq_ok] at h
  obtain ⟨_, _, ⟨rfl, rfl⟩, h⟩ := h
  obtain ⟨r, hr, h⟩ := exists_eq_of_ok h
  split at hr <;> subst hr
  · rename_i hop
    simp only [bind_eq_ok, discard_eq_ok] at h
    obtain ⟨_, s₁, ⟨t, hnext⟩, v, s₂, hv, h⟩ := h
    have ht := takes_of_next hnext
    rw [ht.kind?] at hop
    obtain ⟨rfl, rfl⟩ := eq_of_close h
    rw [ht.position]
    exact .leading ht hop (hn.operand hv)
  · rename_i hk
    simp only [bind_eq_ok, get_eq_ok] at h
    obtain ⟨t, s₁, hnext, _, _, ⟨rfl, rfl⟩, us, s₂, hus, h⟩ := h
    obtain ⟨ht, hk⟩ := takes_of_next_of_kind? hnext hk
    obtain ⟨rfl, rfl⟩ := eq_of_close h
    rw [ht.position]
    exact .labeled ht hk (reads_optionally (fun _ _ _ => hn.operand) hus)
  · rename_i hk
    simp only [bind_eq_ok, get_eq_ok] at h
    obtain ⟨es, s₁, hes, _, _, ⟨rfl, rfl⟩, us, s₂, hus, h⟩ := h
    obtain ⟨rfl, rfl⟩ := eq_of_close h
    exact .annotated (hn.reads_annotationEntries hes) (annotationEntries_ne_nil hes hk)
      (reads_optionally (fun _ _ _ => hn.operand) hus)
  · exact .plainOperand (hn.reads_suffixes h)

theorem reads_wrappedLambdaLevel (h : wrappedLambdaLevel inner m s = .ok u s') :
    Reads (n + 1) .wrappedLambda s [u] s' := by
  simp only [wrappedLambdaLevel, bind_eq_ok, get_eq_ok] at h
  obtain ⟨_, _, ⟨rfl, rfl⟩, h⟩ := h
  obtain ⟨r, hr, h⟩ := exists_eq_of_ok h
  split at hr <;> subst hr
  · rename_i hk
    simp only [bind_eq_ok] at h
    obtain ⟨es, s₁, hes, v, s₂, hv, h⟩ := h
    obtain ⟨rfl, rfl⟩ := eq_of_close h
    exact .annotatedLambda (hn.reads_annotationEntries hes) (annotationEntries_ne_nil hes hk)
      (hn.wrappedLambda hv)
  · rename_i hk
    simp only [bind_eq_ok] at h
    obtain ⟨t, s₁, hnext, v, s₂, hv, h⟩ := h
    obtain ⟨ht, hk⟩ := takes_of_next_of_kind? hnext hk
    obtain ⟨rfl, rfl⟩ := eq_of_close h
    rw [ht.position]
    exact .labeledLambda ht hk (hn.wrappedLambda hv)
  · exact .plainLambda (hn.lambda h)

/-! ## Declarations and statements -/

theorem reads_functionParameter (h : functionParameter inner s = .ok u s') :
    Reads n .parameter s [u] s' := by
  simp only [functionParameter, bind_eq_ok] at h
  obtain ⟨t, s₁, ht, us, s₂, hus, vs, s₃, hvs, h⟩ := h
  obtain ⟨ht, hk⟩ := takes_of_identifier ht
  obtain ⟨rfl, rfl⟩ := eq_of_close h
  exact .parameter ht hk (reads_after (fun _ _ _ => hn.reads_typeReference) hus)
    (reads_after (fun _ _ _ => hn.reads_expression) hvs)

theorem reads_lambdaParameter (h : lambdaParameter inner s = .ok u s') :
    Reads n .parameter s [u] s' := by
  obtain ⟨t, s₁, us, s₂, ht, hk, hus, rfl, rfl⟩ := of_lambdaParameter h
  have hparameter :=
    Reads.parameter ht hk (reads_after (fun _ _ _ => hn.reads_typeReference) hus) .unmarked
  rwa [List.append_nil] at hparameter

theorem reads_functionBody (h : functionBody inner s = .ok us s') :
    Reads n .functionBody s us s' := by
  simp only [functionBody, bind_eq_ok, get_eq_ok] at h
  obtain ⟨_, _, ⟨rfl, rfl⟩, h⟩ := h
  split at h
  · simp only [bind_eq_ok, pure_eq_ok] at h
    obtain ⟨u, s₁, hu, rfl, rfl⟩ := h
    exact .blockFunctionBody (hn.block hu)
  · exact .valueFunctionBody (reads_after (fun _ _ _ => hn.reads_expression) h)

theorem reads_function (h : function inner s = .ok u s') : Reads n .declaration s [u] s' := by
  simp only [function, bind_eq_ok, discard_eq_ok] at h
  obtain ⟨t, s₁, ht, name, s₂, hname, _, s₃, ⟨_, hopen⟩, ps, s₄, hto, us, s₅, hus, vs, s₆, hvs,
    h⟩ := h
  obtain ⟨ht, hk⟩ := takes_of_keyword ht
  obtain ⟨names, hmoves, hnames, hkname⟩ := moves_of_qualifiedName hname
  obtain ⟨s₇, hps, hclose⟩ := reads_itemsTo (fun _ _ _ => hn.reads_functionParameter) hto
  obtain ⟨rfl, rfl⟩ := eq_of_close h
  exact .function ht hk hmoves hnames hkname (skips_of_symbol hopen) hps hclose
    (reads_after (fun _ _ _ => hn.reads_typeReference) hus) (hn.reads_functionBody hvs)

theorem reads_property (hk : s.kind? = some (.keyword .val_) ∨ s.kind? = some (.keyword .var_))
    (h : property inner s = .ok u s') : Reads n .declaration s [u] s' := by
  simp only [property, bind_eq_ok] at h
  obtain ⟨t, s₁, ht, name, s₂, hname, us, s₃, hus, vs, s₄, hvs, h⟩ := h
  have ht := takes_of_next ht
  rw [ht.kind?, Option.some.injEq, Option.some.injEq] at hk
  obtain ⟨hname, hkname⟩ := takes_of_identifier hname
  obtain ⟨rfl, rfl⟩ := eq_of_close h
  exact .property ht hk hname hkname
    (reads_after (fun _ _ _ => hn.reads_typeReference) hus)
    (reads_after (fun _ _ _ => hn.reads_expression) hvs)

theorem reads_annotatedDeclaration (hahead : s.declarationAhead)
    (hk : s.kind? = some .annotationName) (h : annotatedDeclaration inner s = .ok u s') :
    Reads n .statement s [u] s' := by
  simp only [annotatedDeclaration, bind_eq_ok, get_eq_ok] at h
  obtain ⟨_, _, ⟨rfl, rfl⟩, es, s₁, hes, _, _, ⟨rfl, rfl⟩, h⟩ := h
  have hentries := hn.reads_annotationEntries hes
  have hne := annotationEntries_ne_nil hes hk
  have hdeclaration := (hn.declarationAhead_iff hes).1 hahead
  split at h
  · simp only [bind_eq_ok] at h
    obtain ⟨v, s₂, hv, h⟩ := h
    obtain ⟨rfl, rfl⟩ := eq_of_close h
    exact .annotatedDeclaration hahead hentries hne (hn.reads_function hv)
  · simp only [bind_eq_ok] at h
    obtain ⟨v, s₂, hv, h⟩ := h
    obtain ⟨rfl, rfl⟩ := eq_of_close h
    rename_i hfun
    have hproperty := hdeclaration.resolve_left fun hk => hfun (by rw [Cursor.isAt, hk]; rfl)
    exact .annotatedDeclaration hahead hentries hne (hn.reads_property hproperty hv)

theorem reads_statement (h : statement inner s = .ok u s') : Reads n .statement s [u] s' := by
  simp only [statement, bind_eq_ok, get_eq_ok] at h
  obtain ⟨_, _, ⟨rfl, rfl⟩, h⟩ := h
  obtain ⟨r, hr, h⟩ := exists_eq_of_ok h
  split at hr
  · subst hr
    exact .declaration (hn.reads_function h)
  · rename_i hk
    subst hr
    exact .declaration (hn.reads_property (.inl hk) h)
  · rename_i hk
    subst hr
    exact .declaration (hn.reads_property (.inr hk) h)
  · rename_i hk
    split at hr <;> subst hr
    · rename_i hahead
      exact hn.reads_annotatedDeclaration hahead hk h
    · exact .assignmentStatement (hn.reads_assignment h)
  · subst hr
    exact .assignmentStatement (hn.reads_assignment h)

theorem reads_statements {closing : Option TokenKind} (h : statements inner closing s = .ok us s') :
    Reads n (.rows .statement) s us s' :=
  reads_rows (fun _ _ _ => hn.reads_statement) h

theorem reads_blockLevel (h : blockLevel inner s = .ok u s') : Reads (n + 1) .block s [u] s' := by
  simp only [blockLevel, statementsInBraces, bind_eq_ok] at h
  obtain ⟨opening, s₁, hopen, us, s₂, hus, closing, s₃, hclose, h⟩ := h
  obtain ⟨hopen, hkopen⟩ := takes_of_symbol hopen
  obtain ⟨hclose, hkclose⟩ := takes_of_symbol hclose
  obtain ⟨rfl, rfl⟩ := eq_of_make h
  exact .block hopen hkopen (hn.reads_statements hus) hclose hkclose

theorem reads_lambdaParameters (h : lambdaParameters inner s = .ok us s') :
    Reads n .lambdaHead s us s' := by
  simp only [lambdaParameters, bind_eq_ok, get_eq_ok] at h
  obtain ⟨_, _, ⟨rfl, rfl⟩, h⟩ := h
  split at h
  · simp only [bind_eq_ok, discard_eq_ok, pure_eq_ok] at h
    obtain ⟨ps, s₁, hps, _, s₂, ⟨_, harrow⟩, rfl, rfl⟩ := h
    exact .lambdaHead (reads_items (fun _ _ _ => hn.reads_lambdaParameter) hps).1
      (skips_of_symbol harrow)
  · obtain ⟨rfl, rfl⟩ := pure_eq_ok.1 h
    exact .noLambdaHead

theorem reads_lambdaLevel (h : lambdaLevel inner s = .ok u s') :
    Reads (n + 1) .lambda s [u] s' := by
  simp only [lambdaLevel, statementsInBraces, bind_eq_ok] at h
  obtain ⟨opening, s₁, hopen, ps, s₂, hps, us, s₃, hus, closing, s₄, hclose, body, s₅, hbody,
    literal, s₆, hliteral, h⟩ := h
  obtain ⟨hopen, hkopen⟩ := takes_of_symbol hopen
  obtain ⟨hclose, hkclose⟩ := takes_of_symbol hclose
  obtain ⟨rfl, rfl⟩ := eq_of_make hbody
  obtain ⟨rfl, rfl⟩ := eq_of_make hliteral
  obtain ⟨rfl, rfl⟩ := eq_of_make h
  exact .lambda hopen hkopen (hn.reads_lambdaParameters hps) (hn.reads_statements hus) hclose
    hkclose

end Inner.Sound

/-! ## Files -/

/-- The levels of nesting are sound. -/
theorem Inner.sound_ofDepth (n : Nat) : (Inner.ofDepth n).Sound n := by
  induction n with
  | zero =>
    -- With no level left, nothing is read.
    constructor <;> (intros; rename_i h; cases h)
  | succ n ih =>
    exact
      { type := ih.spells_typeLevel
        level := ih.level_typeLevel
        past := fun hlimit h => kinds_of_type hlimit h
        operand := ih.reads_operandLevel
        wrappedLambda := ih.reads_wrappedLambdaLevel
        lambda := ih.reads_lambdaLevel
        block := ih.reads_blockLevel }

/-- The lexemes of a dotted path. -/
def TokenKind.isPathPart : TokenKind → Bool
  | identifier | symbol .dot | symbol .star => true
  | _ => false

theorem moves_of_pathFrom {limit : Nat} {path : String} (h : pathFrom limit s = .ok path s') :
    ∃ ts, s.Moves ts s' ∧ ∀ t ∈ ts, t.kind.isPathPart := by
  induction limit generalizing s path with
  | zero =>
    obtain ⟨-, rfl⟩ := pure_eq_ok.1 h
    exact ⟨[], .nil, by simp⟩
  | succ limit ih =>
    simp only [pathFrom, bind_eq_ok] at h
    obtain ⟨b, s₁, hdot, h⟩ := h
    obtain ⟨rfl, rfl⟩ | ⟨rfl, hskip⟩ := skips_of_accepts hdot
    · obtain ⟨-, rfl⟩ := pure_eq_ok.1 h
      exact ⟨[], .nil, by simp⟩
    · simp only [if_true, bind_eq_ok] at h
      obtain ⟨dot, hdot, hkdot⟩ := hskip.moves
      obtain ⟨b, s₂, hstar, h⟩ := h
      obtain ⟨rfl, rfl⟩ | ⟨rfl, hskip⟩ := skips_of_accepts hstar
      · simp only [Bool.false_eq_true, if_false, bind_eq_ok, pure_eq_ok] at h
        obtain ⟨t, s₃, ht, path, s₄, hpath, -, rfl⟩ := h
        obtain ⟨ts, hts, hall⟩ := ih hpath
        obtain ⟨ht, hkt⟩ := takes_of_identifier ht
        refine ⟨_, hdot.append (.cons ht hts), ?_⟩
        simpa [hkdot, hkt, TokenKind.isPathPart] using hall
      · obtain ⟨-, rfl⟩ := pure_eq_ok.1 h
        obtain ⟨star, hstar, hkstar⟩ := hskip.moves
        exact ⟨_, hdot.append hstar, by simp [hkdot, hkstar, TokenKind.isPathPart]⟩

theorem reads_directive (h : directive s = .ok u s') : Reads n .directive s [u] s' := by
  simp only [directive, bind_eq_ok, get_eq_ok] at h
  obtain ⟨first, s₁, hfirst, t, s₂, ht, _, _, ⟨rfl, rfl⟩, path, s₃, hpath, h⟩ := h
  obtain ⟨ts, hts, -⟩ := moves_of_pathFrom hpath
  obtain ⟨rfl, rfl⟩ := eq_of_close h
  refine .directive (takes_of_next hfirst) (.cons (takes_of_identifier ht).1 hts) ?_ ?_
  · split <;> rfl
  · rw [(takes_of_next hfirst).kinds_rest, (takes_of_identifier ht).1.kinds_rest]
    exact kinds_of_pathFrom (Nat.le_refl _) hpath

theorem reads_packageDirective (h : packageDirective s = .ok us s') :
    Reads n (.rows .directive) s us s' := by
  simp only [packageDirective, bind_eq_ok, get_eq_ok] at h
  obtain ⟨_, s₁, hsemi, _, _, ⟨rfl, rfl⟩, h⟩ := h
  refine of_semicolons (P := fun s => Reads n (.rows .directive) s us s')
    (fun _ _ => .semicolon) hsemi ?_
  split at h
  · simp only [bind_eq_ok, pure_eq_ok] at h
    obtain ⟨d, s₂, hd, _, s₃, hend, rfl, rfl⟩ := h
    obtain rfl := eq_of_rowEnd hend
    exact .row (not_isAt_of_semicolons hsemi) (reads_directive hd) .noRow
  · obtain ⟨rfl, rfl⟩ := pure_eq_ok.1 h
    exact .noRow

theorem readsFile_of_file (h : file s = .ok u s') : ReadsFile maxNesting s u s' := by
  simp only [file, bind_eq_ok, get_eq_ok] at h
  obtain ⟨ps, s₁, hps, is, s₂, his, us, s₃, hus, _, _, ⟨rfl, rfl⟩, h⟩ := h
  obtain ⟨rfl, rfl⟩ := eq_of_make h
  exact .mk (reads_packageDirective hps) (reads_rows (fun _ _ _ => reads_directive) his)
    ((Inner.sound_ofDepth maxNesting).reads_statements hus)

theorem reads_expression (h : expression .outermost m s = .ok u s') :
    Reads maxNesting .expression s [u] s' :=
  (Inner.sound_ofDepth maxNesting).reads_expression h

end ResultHints
