import ResultHints.Proofs.Grammar.Sound

/-!
# Where declarations are read

Before annotations are read, it is seen whether a declaration comes after them: brackets are
counted up to where the annotations end, while the readers go through all rules of expressions
between these brackets. Main statements:

- `statement_of_annotations`: if the annotations can be read, the place that is looked at is the
  place where the readers are then; so a declaration is seen ahead if and only if one comes, and
  a property is read only at a `val` or a `var`.
-/

namespace ResultHints

open Reader

variable {inner : Inner} {s : Cursor} {n : Nat}

/-- A declaration with annotations, where a property is read by the given reader. -/
def annotatedDeclarationWith (inner : Inner) (property : Reader Fragment) : Reader Fragment := do
  let start := (← get).position
  let entries ← annotationEntries inner .lines
  let declaration ← if (← get).isAt (.keyword .fun_) then function inner else property
  close start .annotated (entries ++ [declaration])

/-- A statement, where a property is read by the given reader. -/
def statementWith (inner : Inner) (property : Reader Fragment) : Reader Fragment := do
  let s ← get
  match s.kind? with
  | some (.keyword .fun_) => function inner
  | some (.keyword .val_) | some (.keyword .var_) => property
  | some .annotationName =>
    if s.declarationAhead then annotatedDeclarationWith inner property
    else assignment inner .lines
  | _ => assignment inner .lines

/-- What is read after a first reader depends on what is read where that one ends. -/
theorem bind_congr_of_ok {α β : Type} {r : Reader α} {f g : α → Reader β}
    (h : ∀ a s', r s = .ok a s' → f a s' = g a s') : (r >>= f) s = (r >>= g) s := by
  change EStateM.bind r f s = EStateM.bind r g s
  unfold EStateM.bind
  cases hr : r s with
  | ok a s' => exact h a s' hr
  | error => rfl

theorem bind_congr_left {α β : Type} {r r' : Reader α} (h : r s = r' s) (f : α → Reader β) :
    (r >>= f) s = (r' >>= f) s := by
  change EStateM.bind r f s = EStateM.bind r' f s
  unfold EStateM.bind
  rw [h]

/-- Whether a property may be read at the cursor. -/
def Cursor.atProperty (s : Cursor) : Prop :=
  s.kind? = some (.keyword .val_) ∨ s.kind? = some (.keyword .var_)

/-- After annotations that are seen to end before a declaration, a property is read only where one
    begins. -/
theorem annotatedDeclarationWith_eq (hn : inner.Sound n) {property' : Reader Fragment}
    (h : ∀ s : Cursor, s.atProperty → property' s = property inner s)
    (hahead : s.declarationAhead) :
    annotatedDeclarationWith inner property' s = annotatedDeclaration inner s := by
  rw [annotatedDeclarationWith, annotatedDeclaration]
  refine bind_congr_of_ok fun _ s₁ h₁ => bind_congr_of_ok fun es s₂ hes => ?_
  obtain ⟨rfl, rfl⟩ := get_eq_ok.1 h₁
  refine bind_congr_of_ok fun _ s₃ h₃ => ?_
  obtain ⟨rfl, rfl⟩ := get_eq_ok.1 h₃
  have hnext := (hn.declarationAhead_iff hes).1 hahead
  by_cases hfun : s₂.isAt (.keyword .fun_)
  · rw [if_pos hfun, if_pos hfun]
  · rw [if_neg hfun, if_neg hfun]
    have hproperty := hnext.resolve_left fun hk => hfun (by simp [Cursor.isAt, hk])
    exact bind_congr_left (h s₂ hproperty) _

/-- A statement reads a property only where one begins. -/
theorem statementWith_eq (hn : inner.Sound n) {property' : Reader Fragment}
    (h : ∀ s : Cursor, s.atProperty → property' s = property inner s) :
    statementWith inner property' s = statement inner s := by
  rw [statementWith, statement]
  refine bind_congr_of_ok fun s₀ s₁ h₀ => ?_
  obtain ⟨rfl, rfl⟩ := get_eq_ok.1 h₀
  have hannotated : (if s.declarationAhead then annotatedDeclarationWith inner property'
        else assignment inner .lines) s =
      (if s.declarationAhead then annotatedDeclaration inner else assignment inner .lines) s := by
    by_cases hahead : s.declarationAhead
    · rw [if_pos hahead, if_pos hahead, annotatedDeclarationWith_eq hn h hahead]
    · rw [if_neg hahead, if_neg hahead]
  cases hk : s.kind? with
  | none => rfl
  | some k =>
    cases k with
    | keyword word =>
      cases word with
      | val_ => exact h s (.inl hk)
      | var_ => exact h s (.inr hk)
      | _ => rfl
    | annotationName => exact hannotated
    | _ => rfl

/-- The look ahead agrees with the readers, wherever a statement is read: if the annotations there
    can be read, they end at the place up to which they are looked past, and a declaration is seen
    ahead if and only if one comes there; and whatever comes, a property is read only at a `val`
    or a `var`, so that the statement is the same if properties are read otherwise elsewhere. -/
theorem statement_of_annotations (n : Nat) (s : Cursor) :
    (∀ es s', annotationEntries (.ofDepth n) .lines s = .ok es s' →
      afterAnnotations .before s.rest = s'.rest ∧
      (s.declarationAhead ↔ s'.kind? = some (.keyword .fun_) ∨ s'.atProperty)) ∧
    ∀ property' : Reader Fragment,
      (∀ s : Cursor, s.atProperty → property' s = property (.ofDepth n) s) →
      statementWith (.ofDepth n) property' s = statement (.ofDepth n) s := by
  have hn := Inner.sound_ofDepth n
  refine ⟨fun es s' hes => ⟨?_, hn.declarationAhead_iff hes⟩, fun _ => statementWith_eq hn⟩
  rw [annotationEntries_apply] at hes
  exact hn.afterAnnotations_of_entriesUpTo hes (Nat.le_refl _)

/-- The arguments of an annotation are looked past up to the bracket that closes them, with the
    brackets inside; then the property is seen. -/
theorem statement_of_annotations_before_property : ∃ tokens s es s',
    tokenize "@a(b[c]) val d".toList = .ok tokens ∧
    s = Cursor.ofTokens "@a(b[c]) val d".toList tokens ∧
    annotationEntries (.ofDepth 3) .lines s = .ok es s' ∧ s'.rest.length = 2 ∧
    afterAnnotations .before s.rest = s'.rest ∧ s.declarationAhead := by
  have hread : (match annotationEntries (.ofDepth 3) .lines (.ofTokens "@a(b[c]) val d".toList
        (tokenStream "@a(b[c]) val d".toList).1) with
      | .ok _ s' => s'.rest.length == 2 && s'.kind? == some (.keyword .val_)
      | .error _ _ => false) = true := by decide +kernel
  split at hread
  · next es s' hes =>
    rw [Bool.and_eq_true, beq_iff_eq, beq_iff_eq] at hread
    obtain ⟨hafter, hahead⟩ := (statement_of_annotations 3 _).1 es s' hes
    exact ⟨_, _, es, s', by decide +kernel, rfl, hes, hread.1, hafter,
      hahead.2 (.inr (.inl hread.2))⟩
  · cases hread

end ResultHints
