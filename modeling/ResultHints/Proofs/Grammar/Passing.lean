import ResultHints.Proofs.Grammar.Reader

/-!
# What readers pass

The readers of names, of several items and of types leave the lexemes that the kinds of those
ahead tell to be left. Main statement:

- `kinds_of_type`: the end of a type is told by the kinds of the lexemes ahead.
-/

namespace ResultHints

open Reader

variable {α : Type} {s s₁ s' : Cursor} {t : Lexeme} {ts : List Lexeme} {k : TokenKind} {mark : Symbol}
  {past : List TokenKind → List TokenKind}

/-! ## The cursor -/

namespace Cursor

theorem Takes.kinds_rest (h : s.Takes t s') : kinds s.rest = t.kind :: kinds s'.rest := by
  cases h
  rfl

theorem Skips.kinds_rest (h : s.Skips k s') : kinds s.rest = k :: kinds s'.rest := by
  obtain ⟨t, ht, rfl⟩ := h
  exact ht.kinds_rest

theorem Moves.kinds_rest (h : s.Moves ts s') : kinds s.rest = kinds ts ++ kinds s'.rest := by
  induction h with
  | nil => rfl
  | cons ht _ ih => exact ht.kinds_rest.trans (congrArg _ ih)

end Cursor

theorem pastAfter_of_skips (hs : s.Skips (.symbol mark) s') :
    pastAfter mark past (kinds s.rest) = past (kinds s'.rest) := by
  rw [hs.kinds_rest, pastAfter, if_pos rfl]

theorem pastAfter_of_kind?_ne (hk : s.kind? ≠ some (.symbol mark)) :
    pastAfter mark past (kinds s.rest) = kinds s.rest := by
  cases hrest : s.rest with
  | nil => rfl
  | cons t ts =>
    refine if_neg fun (h : t.kind = .symbol mark) => hk ?_
    rw [Cursor.kind?, hrest, List.head?_cons, Option.map_some, h]

/-! ## One symbol -/

/-- A symbol that is only accepted is taken if it comes next. -/
theorem cases_of_accepts {b : Bool} (h : accepts mark s = .ok b s') :
    (b = false ∧ s' = s ∧ s.kind? ≠ some (.symbol mark)) ∨
      (b = true ∧ s.Skips (.symbol mark) s') := by
  simp only [accepts, bind_eq_ok, pure_eq_ok] at h
  obtain ⟨o, s₁, ho, rfl, rfl⟩ := h
  obtain ⟨rfl, rfl, hno⟩ | ⟨t, rfl, ht, hk⟩ := takes_of_accept ho
  · exact .inl ⟨rfl, rfl, by simpa [Cursor.isAt] using hno⟩
  · exact .inr ⟨rfl, t, ht, hk⟩

theorem kinds_of_accepts {b : Bool} (h : accepts mark s = .ok b s') :
    kinds s'.rest = pastMark mark (kinds s.rest) := by
  obtain ⟨-, rfl, hk⟩ | ⟨-, hs⟩ := cases_of_accepts h
  · exact (pastAfter_of_kind?_ne hk).symm
  · have hpast : pastAfter mark id (kinds s.rest) = kinds s'.rest := pastAfter_of_skips hs
    exact hpast.symm

/-! ## Several lexemes -/

section Items

variable {item : Reader α}
  (hitem : ∀ s a s', item s = .ok a s' → kinds s'.rest = past (kinds s.rest))

include hitem

theorem kinds_of_after {as : List α} (h : after mark item s = .ok as s') :
    kinds s'.rest = pastAfter mark past (kinds s.rest) := by
  simp only [after, bind_eq_ok] at h
  obtain ⟨b, s₁, hb, h⟩ := h
  obtain ⟨rfl, rfl, hk⟩ | ⟨rfl, hs⟩ := cases_of_accepts hb
  · obtain ⟨-, -, rfl⟩ | ⟨⟨⟩, -⟩ := of_optionally h
    exact (pastAfter_of_kind?_ne hk).symm
  · obtain ⟨⟨⟩, -⟩ | ⟨-, a, -, ha⟩ := of_optionally h
    rw [pastAfter_of_skips hs]
    exact hitem _ _ _ ha

theorem kinds_of_itemsUpTo {stop : Option TokenKind} {limit : Nat} {as : List α}
    (h : itemsUpTo stop item limit s = .ok as s') :
    kinds s'.rest = pastItems stop past limit (kinds s.rest) := by
  induction limit generalizing s as with
  | zero =>
    obtain ⟨-, rfl⟩ := pure_eq_ok.1 h
    rfl
  | succ limit ih =>
    simp only [itemsUpTo, bind_eq_ok, get_eq_ok] at h
    obtain ⟨_, _, ⟨rfl, rfl⟩, h⟩ := h
    have hhead : (kinds s.rest).head? = s.kind? := by rw [kinds, List.head?_map, Cursor.kind?]
    rw [pastItems, hhead]
    split at h
    · next hstop =>
      obtain ⟨-, rfl⟩ := pure_eq_ok.1 h
      rw [if_pos hstop]
    · next hstop =>
      simp only [bind_eq_ok] at h
      obtain ⟨a, s₁, ha, b, s₂, hb, h⟩ := h
      rw [if_neg hstop, ← hitem _ _ _ ha]
      obtain ⟨rfl, rfl, hk⟩ | ⟨rfl, hs⟩ := cases_of_accepts hb
      · obtain ⟨-, rfl⟩ := pure_eq_ok.1 h
        exact (pastAfter_of_kind?_ne hk).symm
      · simp only [if_pos, bind_eq_ok, pure_eq_ok] at h
        obtain ⟨as', s₃, has, -, rfl⟩ := h
        rw [pastAfter_of_skips hs]
        exact ih has

theorem kinds_of_items {stop : Option TokenKind} {as : List α}
    (h : items stop item s = .ok as s') :
    kinds s'.rest = pastItems stop past ((kinds s.rest).length + 1) (kinds s.rest) := by
  rw [items_apply] at h
  rw [kinds, kinds, List.length_map]
  exact kinds_of_itemsUpTo hitem h

end Items

theorem kinds_lastSegment (name : Lexeme) (ts : List Lexeme) :
    kinds (lastSegment name ts).2 = pastSegments (kinds ts) := by
  fun_induction lastSegment name ts with
  | case1 name dot t ts hk ih =>
    rw [ih, kinds, kinds, List.map_cons, List.map_cons, hk.1, hk.2, pastSegments]
  | case2 name dot t ts hk =>
    rw [pastSegments]
    simp only [kinds, List.map_cons, List.cons.injEq]
    rintro ks ⟨hdot, ht, -⟩
    exact hk ⟨hdot, ht⟩
  | case3 name ts hshort =>
    rw [pastSegments]
    intro ks hks
    obtain ⟨dot, ts, rfl, -, hts⟩ := List.map_eq_cons_iff.1 hks
    obtain ⟨t, ts, rfl, -⟩ := List.map_eq_cons_iff.1 hts
    exact hshort dot t ts rfl

theorem kinds_of_qualifiedName {role : String} (h : qualifiedName role s = .ok t s') :
    kinds s'.rest = pastSegments (kinds s.rest).tail := by
  obtain ⟨name, s₁, hname, h⟩ := bind_eq_ok.1 h
  obtain ⟨-, rfl⟩ : _ ∧ _ := by simpa using h
  rw [(takes_of_identifier hname).1.kinds_rest]
  exact kinds_lastSegment name s₁.rest

theorem kinds_of_symbol (h : symbol mark s = .ok t s') : kinds s'.rest = (kinds s.rest).tail := by
  rw [(takes_of_symbol h).1.kinds_rest, List.tail_cons]

/-- The limit of segments is not reached, as each takes two lexemes. -/
theorem kinds_of_pathFrom {limit : Nat} {path : String} (hlimit : s.rest.length ≤ limit)
    (h : pathFrom limit s = .ok path s') : kinds s'.rest = pastPath (kinds s.rest) := by
  induction limit generalizing s path with
  | zero =>
    obtain ⟨-, rfl⟩ := pure_eq_ok.1 h
    rw [List.eq_nil_of_length_eq_zero (Nat.le_zero.1 hlimit)]
    rfl
  | succ limit ih =>
    simp only [pathFrom, bind_eq_ok] at h
    obtain ⟨b, s₁, hdot, h⟩ := h
    obtain ⟨rfl, rfl, hk⟩ | ⟨rfl, hs⟩ := cases_of_accepts hdot
    · obtain ⟨-, rfl⟩ := pure_eq_ok.1 h
      rw [pastPath]
      all_goals
        intro ks hks
        exact hk (by rw [Cursor.kind?, ← List.head?_map]; exact congrArg List.head? hks)
    · simp only [if_true, bind_eq_ok] at h
      obtain ⟨b, s₂, hstar, h⟩ := h
      obtain ⟨rfl, rfl, hk⟩ | ⟨rfl, hs'⟩ := cases_of_accepts hstar
      · simp only [Bool.false_eq_true, if_false, bind_eq_ok, pure_eq_ok] at h
        obtain ⟨t, s₃, ht, path, s₄, hpath, -, rfl⟩ := h
        obtain ⟨ht, hkt⟩ := takes_of_identifier ht
        have hlength : s₃.rest.length ≤ limit := by
          have hdot := congrArg List.length hs.kinds_rest
          have hname := congrArg List.length ht.kinds_rest
          simp only [kinds, List.length_map, List.length_cons] at hdot hname
          omega
        rw [hs.kinds_rest, ht.kinds_rest, hkt, pastPath]
        exact ih hlength hpath
      · obtain ⟨-, rfl⟩ := pure_eq_ok.1 h
        rw [hs.kinds_rest, hs'.kinds_rest, pastPath]

/-! ## Types -/

section Types

variable {inner : Inner} {n : Nat}
  (hn : ∀ s u s', inner.type s = .ok u s' → kinds s'.rest = pastType n (kinds s.rest))

include hn

theorem kinds_of_functionType {u : Unit} (h : functionType inner s = .ok u s') :
    kinds s'.rest = pastType (n + 1) (.symbol .leftParen :: kinds s.rest) := by
  obtain ⟨_, _, _, _, _, _, _, hps, hclose, hresult, hmark⟩ := of_functionType h
  rw [pastType, ← kinds_of_items hn hps, ← kinds_of_symbol hclose, ← kinds_of_after hn hresult,
    ← kinds_of_accepts hmark]

theorem kinds_of_typeArguments {u : Unit} (h : typeArguments inner s = .ok u s') :
    kinds s'.rest =
      (pastItems none (pastType n) ((kinds s.rest).length + 1) (kinds s.rest)).tail := by
  obtain ⟨_, _, _, hargs, hclose⟩ := of_typeArguments h
  rw [← kinds_of_items hn hargs, ← kinds_of_symbol hclose]

theorem kinds_of_namedType {u : Unit} (h : namedType inner s = .ok u s') :
    kinds s'.rest = pastType (n + 1) (kinds s.rest) := by
  obtain ⟨_, _, _, _, _, hname, hargs, hmark⟩ := of_namedType h
  have hpast := kinds_of_qualifiedName hname
  obtain ⟨name, s₀, hname, -⟩ := bind_eq_ok.1 hname
  obtain ⟨ht, hk⟩ := takes_of_identifier hname
  rw [ht.kinds_rest, hk, List.tail_cons] at hpast
  rw [ht.kinds_rest, hk, pastType, List.tail_cons, ← hpast,
    ← kinds_of_after (fun _ _ _ => kinds_of_typeArguments hn) hargs, ← kinds_of_accepts hmark]
  · simp
  · simp

theorem kinds_of_typeLevel {u : Unit} (h : typeLevel inner s = .ok u s') :
    kinds s'.rest = pastType (n + 1) (kinds s.rest) := by
  obtain ⟨_, hs, h⟩ | hs | h := of_typeLevel h
  · rw [hs.kinds_rest]
    exact kinds_of_functionType hn h
  · rw [hs.kinds_rest, pastType]
  · exact kinds_of_namedType hn h

end Types

/-- The end of a type is told by the kinds of the lexemes ahead, whatever the number of levels
    left, if it could be read at all. -/
theorem kinds_of_type {n limit : Nat} (hlimit : n ≤ limit) {u : Unit}
    (h : (Inner.ofDepth n).type s = .ok u s') : kinds s'.rest = pastType limit (kinds s.rest) := by
  induction n generalizing limit s u s' with
  | zero => cases h
  | succ n ih =>
    obtain ⟨limit, rfl⟩ : ∃ m, limit = m + 1 := ⟨limit - 1, by omega⟩
    exact kinds_of_typeLevel (fun _ _ _ => ih (by omega)) h

end ResultHints
