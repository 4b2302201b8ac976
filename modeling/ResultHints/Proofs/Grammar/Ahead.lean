import ResultHints.Document.Basic
import ResultHints.Proofs.Grammar.Sound

/-!
# Parameters of a lambda that are seen ahead

Whether a lambda begins with parameters is seen before they are read, by the lexemes up to
the first arrow. Parentheses, which function types begin with, are not looked over; so of
all parameters that can be read before an arrow, those are seen ahead that are without.
Main statements:

- `parametersAhead_iff`: where they are, and what the lambda then has for parameters;
- `not_parametersAhead_of_function_type`: parameters that are not seen ahead.
-/

namespace ResultHints

open Reader

variable {s s₁ s' : Cursor} {t : Lexeme} {ts us : List Lexeme} {n : Nat}

/-! ## What is looked over -/

/-- The lexemes of parameters that are looked over. -/
def TokenKind.isParameterPart : TokenKind → Bool
  | identifier | symbol .comma | symbol .colon | symbol .dot | symbol .less | symbol .greater
  | symbol .question | symbol .star => true
  | _ => false

/-- The first of some lexemes that is not looked over. -/
def stopsAhead? (ts : List Lexeme) : Option Lexeme := ts.find? fun t => !t.kind.isParameterPart

/-- Parameters are ahead if the first lexeme that is not looked over is an arrow. -/
theorem parametersAhead_eq (ts : List Lexeme) :
    parametersAhead ts = (stopsAhead? ts).any fun t => t.kind == .symbol .arrow := by
  induction ts with
  | nil => rfl
  | cons t ts ih =>
    rw [parametersAhead, stopsAhead?, List.find?_cons]
    cases hk : t.kind with
    | identifier => exact ih
    | symbol mark => cases mark <;> first | exact ih | simp [TokenKind.isParameterPart, hk]
    | _ => simp [TokenKind.isParameterPart, hk]

theorem stopsAhead?_append (ts us : List Lexeme) :
    stopsAhead? (ts ++ us) = (stopsAhead? ts).or (stopsAhead? us) := List.find?_append

/-- The cursor moves over lexemes of which the first that is not looked over, if there is one,
    opens a parenthesis. -/
def Cursor.LooksOver (s s' : Cursor) : Prop :=
  ∃ ts, s.rest = ts ++ s'.rest ∧ ∀ t, stopsAhead? ts = some t → t.kind = .symbol .leftParen

namespace Cursor.LooksOver

theorem refl (s : Cursor) : s.LooksOver s := ⟨[], rfl, nofun⟩

theorem trans (h : s.LooksOver s₁) (h' : s₁.LooksOver s') : s.LooksOver s' := by
  obtain ⟨ts, hrest, hts⟩ := h
  obtain ⟨us, hrest', hus⟩ := h'
  refine ⟨ts ++ us, by rw [hrest, hrest', List.append_assoc], fun t ht => ?_⟩
  rw [stopsAhead?_append, Option.or_eq_some_iff] at ht
  exact ht.elim (hts t) fun ht => hus t ht.2

theorem made (h : s.LooksOver s') : s.LooksOver s'.made := h

theorem moves (hm : s.Moves ts s') (hts : ∀ t ∈ ts, t.kind.isParameterPart) :
    s.LooksOver s' := by
  refine ⟨ts, hm.rest_eq, fun t ht => ?_⟩
  have hpart := hts t (List.mem_of_find?_eq_some ht)
  simpa [hpart] using List.find?_some ht

theorem skips {k : TokenKind} (hs : s.Skips k s') (hk : k.isParameterPart) : s.LooksOver s' := by
  obtain ⟨t, hm, rfl⟩ := hs.moves
  exact moves hm (List.forall_mem_singleton.2 hk)

/-- Behind a parenthesis nothing is looked at. -/
theorem paren (h : s.Spells s') (hk : s.kind? = some (.symbol .leftParen)) : s.LooksOver s' := by
  obtain ⟨ts, hm, hne, -⟩ := h
  refine ⟨ts, hm.rest_eq, fun t ht => ?_⟩
  obtain ⟨t', ts, rfl⟩ := List.exists_cons_of_ne_nil hne
  rw [Cursor.kind?, hm.rest_eq, List.cons_append, List.head?_cons, Option.map_some,
    Option.some.injEq] at hk
  rw [stopsAhead?, List.find?_cons_of_pos (by rw [hk]; rfl)] at ht
  exact Option.some.inj ht ▸ hk

theorem qualifiedName {role : String} (h : Reader.qualifiedName role s = .ok t s') :
    s.LooksOver s' := by
  obtain ⟨names, hmoves, hnames, ht⟩ := moves_of_qualifiedName h
  exact moves hmoves (forall_mem_segments hnames ht rfl rfl)

end Cursor.LooksOver

/-! ## Types and parameters -/

section Readers

variable {inner : Inner}
  (htype : ∀ s u s', inner.type s = .ok u s' → s.LooksOver s')

include htype

theorem looksOver_typeArguments {u : Unit} (h : typeArguments inner s = .ok u s') :
    s.LooksOver s' := by
  obtain ⟨_, _, _, hargs, hclose⟩ := of_typeArguments h
  exact (along_items .refl .trans (fun _ _ hs => .skips hs rfl) htype hargs).trans
    (.skips (skips_of_symbol hclose) rfl)

theorem looksOver_namedType {u : Unit} (h : namedType inner s = .ok u s') : s.LooksOver s' := by
  obtain ⟨_, _, _, _, _, hname, hargs, hmark⟩ := of_namedType h
  have hargs := along_after .refl .trans (fun _ _ hs => .skips hs rfl)
    (fun _ _ _ => looksOver_typeArguments htype) hargs
  exact (Cursor.LooksOver.qualifiedName hname).trans
    (hargs.trans (along_accepts .refl (fun _ _ hs => .skips hs rfl) hmark))

theorem looksOver_typeLevel {u : Unit} (hspells : s.Spells s')
    (h : typeLevel inner s = .ok u s') : s.LooksOver s' := by
  obtain ⟨_, ⟨t, ht, hk⟩, -⟩ | hs | h := of_typeLevel h
  · exact .paren hspells (ht.kind?.trans (congrArg some hk))
  · exact .skips hs rfl
  · exact looksOver_namedType htype h

theorem looksOver_typeReference {u : Fragment} (h : typeReference inner s = .ok u s') :
    s.LooksOver s' := by
  obtain ⟨_, ht, rfl, -⟩ := of_typeReference h
  exact (htype _ _ _ ht).made

theorem looksOver_lambdaParameter {u : Fragment} (h : lambdaParameter inner s = .ok u s') :
    s.LooksOver s' := by
  obtain ⟨t, s₁, us, s₂, ht, hk, hus, rfl, -⟩ := of_lambdaParameter h
  have hus := along_after .refl .trans (fun _ _ hs => .skips hs rfl)
    (fun _ _ _ => looksOver_typeReference htype) hus
  exact ((Cursor.LooksOver.skips ⟨t, ht, hk⟩ rfl).trans hus).made

end Readers

/-- All of a type is looked over, up to its first parenthesis. -/
theorem looksOver_type {u : Unit} (h : (Inner.ofDepth n).type s = .ok u s') : s.LooksOver s' := by
  induction n generalizing s u s' with
  | zero => cases h
  | succ n ih =>
    exact looksOver_typeLevel (fun _ _ _ => ih) ((Inner.sound_ofDepth (n + 1)).type h) h

/-- All of some parameters is looked over, up to the first parenthesis. -/
theorem looksOver_parameters {ps : List Fragment} {stop : Option TokenKind}
    (h : items stop (lambdaParameter (.ofDepth n)) s = .ok ps s') : s.LooksOver s' :=
  along_items .refl .trans (fun _ _ hs => .skips hs rfl)
    (fun _ _ _ => looksOver_lambdaParameter fun _ _ _ => looksOver_type) h

/-! ## What is seen ahead -/

theorem parametersAhead_of_arrow (harrow : s.isAt (.symbol .arrow)) : parametersAhead s.rest := by
  obtain ⟨source, _ | ⟨t, ts⟩, stop, i⟩ := s
  · cases harrow
  · have hk : t.kind = .symbol .arrow := by simpa [Cursor.isAt, Cursor.kind?] using harrow
    simp [parametersAhead, hk]

/-- Before an arrow, lexemes are parameters if no parenthesis opens among them. -/
theorem parametersAhead_iff_of_looksOver (h : s.LooksOver s') (harrow : s'.isAt (.symbol .arrow)) :
    ∃ ts, s.rest = ts ++ s'.rest ∧
      (parametersAhead s.rest ↔ ∀ t ∈ ts, t.kind ≠ .symbol .leftParen) := by
  obtain ⟨ts, hrest, hts⟩ := h
  refine ⟨ts, hrest, ?_⟩
  rw [parametersAhead_eq, hrest, stopsAhead?_append]
  cases hstop : stopsAhead? ts with
  | none =>
    rw [Option.none_or, ← parametersAhead_eq]
    refine iff_of_true (parametersAhead_of_arrow harrow) fun t ht hk => ?_
    have hpart := List.find?_eq_none.1 hstop t ht
    rw [hk] at hpart
    exact hpart rfl
  | some t =>
    have hk := hts t hstop
    refine iff_of_false ?_ fun hno => hno t (List.mem_of_find?_eq_some hstop) hk
    simp [hk]

/-- The children of the literal of a lambda are its parameters and its block. -/
theorem children_of_lambdaLevel {inner : Inner} {brace : Lexeme} {u : Fragment}
    (hbrace : s.Takes brace s₁) (h : lambdaLevel inner s = .ok u s') :
    ∃ ps s₂ literal block, lambdaParameters inner s₁ = .ok ps s₂ ∧ u.children = [literal] ∧
      literal.label.kind = .functionLiteral ∧ block.label.kind = .block ∧
      literal.children = ps ++ [block] := by
  simp only [lambdaLevel, bind_eq_ok] at h
  obtain ⟨opening, s₁', hopen, ps, s₂, hps, us, s₃, hus, closing, s₄, hclose, block, s₅, hblock,
    literal, s₆, hliteral, h⟩ := h
  obtain rfl : s₁' = s₁ := by
    cases hbrace
    cases (takes_of_symbol hopen).1
    rfl
  obtain ⟨rfl, rfl⟩ := eq_of_make hblock
  obtain ⟨rfl, rfl⟩ := eq_of_make hliteral
  obtain ⟨rfl, rfl⟩ := eq_of_make h
  exact ⟨ps, s₂, _, _, hps, rfl, rfl, rfl, rfl⟩

/-- Parameters that can be read before an arrow are those of the lambda if they are seen ahead. -/
theorem lambdaParameters_eq {inner : Inner} {ps us : List Fragment}
    (hps : items (some (.symbol .arrow)) (lambdaParameter inner) s = .ok ps s₁)
    (h : lambdaParameters inner s = .ok us s') :
    us = if parametersAhead s.rest then ps else [] := by
  simp only [lambdaParameters, bind_eq_ok, get_eq_ok] at h
  obtain ⟨_, _, ⟨rfl, rfl⟩, h⟩ := h
  split at h
  · rename_i hahead
    simp only [bind_eq_ok, pure_eq_ok] at h
    obtain ⟨ps', s₂, hps', _, _, -, rfl, -⟩ := h
    cases hps.symm.trans hps'
    rw [if_pos hahead]
  · rename_i hahead
    rw [if_neg hahead]
    exact (pure_eq_ok.1 h).1.symm

/-- Where parameters can be read and an arrow follows, they are seen ahead if no parenthesis opens
    among them. They are the parameters of the lambda then; else it has none. -/
theorem parametersAhead_iff {ps : List Fragment}
    (hps : items (some (.symbol .arrow)) (lambdaParameter (.ofDepth n)) s = .ok ps s')
    (harrow : s'.isAt (.symbol .arrow)) :
    ∃ ts, s.rest = ts ++ s'.rest ∧
      (parametersAhead s.rest ↔ ∀ t ∈ ts, t.kind ≠ .symbol .leftParen) ∧
      ∀ s₀ brace u s'', s₀.Takes brace s → lambdaLevel (.ofDepth n) s₀ = .ok u s'' →
        ∃ literal block : Fragment, u.children = [literal] ∧
          literal.label.kind = .functionLiteral ∧ block.label.kind = .block ∧
          literal.children = (if parametersAhead s.rest then ps else []) ++ [block] := by
  obtain ⟨ts, hrest, hahead⟩ := parametersAhead_iff_of_looksOver (looksOver_parameters hps) harrow
  refine ⟨ts, hrest, hahead, fun s₀ brace u s'' hbrace h => ?_⟩
  obtain ⟨us, s₂, literal, block, hus, hu, hliteral, hblock, hchildren⟩ :=
    children_of_lambdaLevel hbrace h
  rw [lambdaParameters_eq hps hus] at hchildren
  exact ⟨literal, block, hu, hliteral, hblock, hchildren⟩

/-- A text whose parameters behind its opening brace pass a test has such parameters. -/
theorem exists_parameters_of_any (source : List Char) {p : Cursor → List Fragment → Cursor → Bool}
    (h : (tokenize source).toOption.any fun tokens =>
      match symbol .leftBrace (.ofTokens source tokens) with
      | .error .. => false
      | .ok _ s => match items (some (.symbol .arrow)) (lambdaParameter (.ofDepth 3)) s with
        | .error .. => false
        | .ok ps s' => p s ps s') :
    ∃ tokens brace s ps s', tokenize source = .ok tokens ∧
      (Cursor.ofTokens source tokens).Takes brace s ∧ brace.kind = .symbol .leftBrace ∧
      items (some (.symbol .arrow)) (lambdaParameter (.ofDepth 3)) s = .ok ps s' ∧ p s ps s' := by
  cases htokens : tokenize source with
  | error e => simp [htokens, Except.toOption] at h
  | ok tokens =>
    rw [htokens, Except.toOption, Option.any_some] at h
    split at h
    · cases h
    · rename_i brace s hbrace
      obtain ⟨hbrace, hk⟩ := takes_of_symbol hbrace
      split at h
      · cases h
      · rename_i ps s' hps
        exact ⟨tokens, brace, s, ps, s', rfl, hbrace, hk, hps, h⟩

/-- In `{a,b:L<T>?->c}` two parameters are seen ahead. -/
theorem parametersAhead_of_generic_type :
    ∃ tokens brace s ps s', tokenize "{a,b:L<T>?->c}".toList = .ok tokens ∧
      (Cursor.ofTokens "{a,b:L<T>?->c}".toList tokens).Takes brace s ∧
      items (some (.symbol .arrow)) (lambdaParameter (.ofDepth 3)) s = .ok ps s' ∧
      s'.isAt (.symbol .arrow) ∧ ps.length = 2 ∧ parametersAhead s.rest := by
  obtain ⟨tokens, brace, s, ps, s', htokens, hbrace, -, hps, hp⟩ :=
    exists_parameters_of_any (p := fun s ps s' => s'.isAt (.symbol .arrow) && ps.length == 2 &&
      s.rest.all fun t => t.kind != .symbol .leftParen) "{a,b:L<T>?->c}".toList (by decide +kernel)
  simp only [Bool.and_eq_true, beq_iff_eq, List.all_eq_true, bne_iff_ne] at hp
  obtain ⟨⟨harrow, hlength⟩, hno⟩ := hp
  obtain ⟨ts, hrest, hahead, -⟩ := parametersAhead_iff hps harrow
  refine ⟨tokens, brace, s, ps, s', htokens, hbrace, hps, harrow, hlength, hahead.2 fun t ht => ?_⟩
  exact hno t (hrest ▸ List.mem_append_left _ ht)

/-- In `{g:(A)->B->g}` a parameter can be read before an arrow, but it is not seen ahead: the lambda
    is read without parameters, and its body cannot be. -/
theorem not_parametersAhead_of_function_type :
    (∃ tokens brace s ps s', tokenize "{g:(A)->B->g}".toList = .ok tokens ∧
      (Cursor.ofTokens "{g:(A)->B->g}".toList tokens).Takes brace s ∧
      brace.kind = .symbol .leftBrace ∧
      items (some (.symbol .arrow)) (lambdaParameter (.ofDepth 3)) s = .ok ps s' ∧
      s'.isAt (.symbol .arrow) ∧ ps.length = 1 ∧ parametersAhead s.rest = false) ∧
    Document.parse "{g:(A)->B->g}".toList = .error (.unexpectedToken ":" 2) := by
  obtain ⟨tokens, brace, s, ps, s', htokens, hbrace, hk, hps, hp⟩ :=
    exists_parameters_of_any (p := fun s ps s' => s'.isAt (.symbol .arrow) && ps.length == 1 &&
      !parametersAhead s.rest) "{g:(A)->B->g}".toList (by decide +kernel)
  simp only [Bool.and_eq_true, beq_iff_eq, Bool.not_eq_true'] at hp
  refine ⟨⟨tokens, brace, s, ps, s', htokens, hbrace, hk, hps, hp.1.1, hp.1.2, hp.2⟩, ?_⟩
  have hparse : (match Document.parse "{g:(A)->B->g}".toList with
      | .error fault => decide (fault = .unexpectedToken ":" 2)
      | .ok _ => false) = true := by decide +kernel
  split at hparse
  · rename_i fault h
    rw [h, of_decide_eq_true hparse]
  · cases hparse

end ResultHints
