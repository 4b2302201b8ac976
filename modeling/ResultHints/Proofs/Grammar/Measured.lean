import ResultHints.Proofs.Grammar.Measure
import ResultHints.Proofs.Grammar.Spans

/-!
# Where what is read stands

What is read stands where its outline and the kinds of the lexemes ahead tell (`measure`), by
whatever rules of the grammar and with whatever line breaks it was read. Main statements:

- `measured_of_reads`: all that the grammar accepts has the spans that are told so;
- `measured_of_readsFile`: so have the children of a file.
-/

namespace ResultHints

/-! ## Lexemes that are left -/

/-- How many of the lexemes end behind an offset. -/
def lexemesAfter (L : List Lexeme) (n : Nat) : Nat := L.countP fun t => n < t.stop

/-- The span by the numbers of lexemes that end behind its ends. -/
def spanAfter (L : List Lexeme) (s : Span) : Span :=
  ⟨lexemesAfter L s.start, lexemesAfter L s.stop⟩

/-- The spans of a fragment by the numbers of lexemes that end behind their ends. -/
def Fragment.measured (L : List Lexeme) (u : Fragment) : Tree Span :=
  u.map fun a => spanAfter L a.span

/-- The cursor stands among the lexemes, and the text does not end before them. -/
structure Cursor.On (L : List Lexeme) (s : Cursor) : Prop where
  passed : ∃ ts, L = ts ++ s.rest ∧ s.lastStop = (ts.getLast?.map fun t => t.stop).getD 0
  finish : ∀ t ∈ L, t.stop ≤ byteLength s.source

variable {L ts : List Lexeme} {s s₁ s₂ s' : Cursor} {t : Lexeme} {p : Phrase} {n : Nat}
  {u v : Fragment} {us vs : List Fragment} {k : NodeKind} {ks ks' : List TokenKind}

theorem lexemesAfter_anti {a b : Nat} (h : a ≤ b) : lexemesAfter L b ≤ lexemesAfter L a :=
  List.countP_mono_left fun _ _ hlt => by
    simp only [decide_eq_true_eq] at hlt ⊢
    omega

/-- Lexemes in order end one before the other. -/
theorem InOrder.split {lo : Nat} {rest : List Lexeme} (h : InOrder lo (ts ++ rest)) :
    (∀ t ∈ ts, t.stop ≤ (ts.getLast?.map fun t => t.stop).getD lo) ∧
      InOrder ((ts.getLast?.map fun t => t.stop).getD lo) rest := by
  induction ts generalizing lo with
  | nil => exact ⟨nofun, h⟩
  | cons t ts ih =>
    obtain ⟨hstops, hrest⟩ := ih h.2.2
    rw [List.getLast?_cons, Option.map_some, Option.getD_some]
    cases hlast : ts.getLast? with
    | none =>
      rw [List.getLast?_eq_none_iff.1 hlast] at hrest ⊢
      exact ⟨by simp, hrest⟩
    | some u =>
      rw [hlast] at hstops hrest
      refine ⟨List.forall_mem_cons.2 ⟨?_, hstops⟩, hrest⟩
      have hu := List.mem_of_getLast? hlast
      have hle := h.2.2.le_start (List.mem_append_left _ hu)
      have hlt := h.2.2.start_lt_stop (List.mem_append_left _ hu)
      exact Nat.le_trans hle (Nat.le_of_lt hlt)

namespace Cursor.On

theorem took (h : s.On L) (ht : Took s us s') : s'.On L := by
  obtain ⟨ts, hL, hstop⟩ := h.passed
  obtain ⟨ts', hrest, -, hstop'⟩ := ht.taken
  refine ⟨⟨ts ++ ts', ?_, ?_⟩, ht.source ▸ h.finish⟩
  · rw [hL, hrest, List.append_assoc]
  · rw [hstop', hstop, List.getLast?_append]
    cases ts'.getLast? <;> rfl

theorem takes (h : s.On L) (ht : s.Takes t s') : s'.On L := h.took ht.took

theorem skips {k : TokenKind} (h : s.On L) (hs : s.Skips k s') : s'.On L := h.took hs.took

theorem reads (h : s.On L) (hr : Reads n p s us s') : s'.On L := h.took (took_of_reads hr)

theorem made (h : s.On L) : s.made.On L := ⟨h.passed, h.finish⟩

variable (hL : InOrder 0 L) (h : s.On L)

include hL h

/-- As many lexemes are left behind an offset as behind the cursor, if none of them ends before it
    and all that were passed do. -/
theorem lexemesAfter_eq {a : Nat} (hle : s.lastStop ≤ a) (hlt : ∀ t ∈ s.rest, a < t.stop) :
    lexemesAfter L a = s.rest.length := by
  obtain ⟨ts, rfl, hstop⟩ := h.passed
  have hpassed : ts.countP (fun t => a < t.stop) = 0 := List.countP_eq_zero.2 fun t ht => by
    have := hL.split.1 t ht
    simp only [decide_eq_true_eq]
    omega
  rw [lexemesAfter, List.countP_append, hpassed, Nat.zero_add, List.countP_eq_length]
  exact fun t ht => by simpa using hlt t ht

theorem isOrdered : s.IsOrdered := by
  obtain ⟨ts, rfl, hstop⟩ := h.passed
  rw [IsOrdered, hstop]
  exact hL.split.2

theorem lexemesAfter_lastStop : lexemesAfter L s.lastStop = s.rest.length := by
  have ho := h.isOrdered hL
  refine h.lexemesAfter_eq hL (Nat.le_refl _) fun t ht => ?_
  exact Nat.lt_of_le_of_lt (ho.le_start ht) (ho.start_lt_stop ht)

theorem lexemesAfter_position : lexemesAfter L s.position = s.rest.length := by
  have ho := h.isOrdered hL
  cases hrest : s.rest with
  | nil =>
    rw [position, hrest]
    refine List.countP_eq_zero.2 fun t ht => ?_
    have := h.finish t ht
    rw [decide_eq_true_eq]
    exact Nat.not_lt.2 this
  | cons t ts =>
    rw [← hrest]
    refine h.lexemesAfter_eq hL ?_ fun u hu => ?_
    · rw [position, hrest]
      exact ho.le_start (hrest ▸ List.mem_cons_self)
    · exact Nat.lt_of_le_of_lt (ho.position_le hu) (ho.start_lt_stop hu)

theorem lexemesAfter_start (ht : s.Takes t s') : lexemesAfter L t.start = s.rest.length := by
  rw [← ht.position]
  exact h.lexemesAfter_position hL

theorem lexemesAfter_stop (ht : s.Takes t s') : lexemesAfter L t.stop = s'.rest.length := by
  have hlast := (h.takes ht).lexemesAfter_lastStop hL
  cases ht
  exact hlast

omit h in
/-- What was read from an offset on. -/
theorem spanAfter_from {start : Nat} (hs' : s'.On L) (hle : s'.rest.length ≤ s.rest.length)
    (hstart : lexemesAfter L start = s.rest.length) :
    spanAfter L (s'.spanFrom start) = ⟨s.rest.length, s'.rest.length⟩ := by
  have hstop : lexemesAfter L (max s'.lastStop start) = s'.rest.length := by
    rw [← hs'.lexemesAfter_lastStop hL]
    rcases Nat.le_total s'.lastStop start with h | h
    · have := hs'.lexemesAfter_lastStop hL
      have := lexemesAfter_anti (L := L) h
      rw [Nat.max_eq_right h]
      omega
    · rw [Nat.max_eq_left h]
  exact congrArg₂ Span.mk hstart hstop

end Cursor.On

/-! ## Several fragments -/

/-- Braces are left to no node but a block. -/
theorem measure_bare {b b' : Bool} {x : Tree NodeKind} (h : x.label.isBlock = false)
    (ks : List TokenKind) : measure b x ks = measure b' x ks := by
  obtain ⟨k, ts⟩ := x
  have hhead : k.pastHead b = k.pastHead b' := by
    funext ks
    cases k <;> first | rfl | (rename_i sort; cases sort <;> rfl) | cases h
  have htail : k.pastTail b = k.pastTail b' := by
    funext last ks
    cases k <;> first | rfl | cases h
  have hhugs : k.hugs b = k.hugs b' := by
    cases k <;> first | rfl | cases h
  rw [measure, measure, hhead, htail, hhugs]

/-- Ways to pass the lexemes before a child, behind the child `last` or none. -/
abbrev Link := (last : Option NodeKind) → (child : NodeKind) → List TokenKind → List TokenKind

/-- The fragments stand where they are told to, one behind the other. -/
inductive Strung (L : List Lexeme) (bare : Bool) (link : Link) :
    Option NodeKind → List TokenKind → List Fragment → List TokenKind → Prop
  | nil {last : Option NodeKind} {ks : List TokenKind} : Strung L bare link last ks [] ks
  | cons {last : Option NodeKind} {ks ks₁ ks' : List TokenKind} {u : Fragment}
    {us : List Fragment} :
    measure bare u.outline (link last u.label.kind ks) = (u.measured L, ks₁) →
    Strung L bare link (some u.label.kind) ks₁ us ks' → Strung L bare link last ks (u :: us) ks'

namespace Strung

variable {bare bare' : Bool} {link link' : Link} {last last' : Option NodeKind}
  {ks₁ : List TokenKind}

theorem one (h : measure bare u.outline (link last u.label.kind ks) = (u.measured L, ks')) :
    Strung L bare link last ks [u] ks' := .cons h .nil

theorem nil_inv (h : Strung L bare link last ks [] ks') : ks = ks' := by
  cases h
  rfl

theorem one_inv (h : Strung L bare link last ks [u] ks') :
    measure bare u.outline (link last u.label.kind ks) = (u.measured L, ks') := by
  obtain _ | ⟨hu, hus⟩ := h
  exact hus.nil_inv ▸ hu

theorem append (h : Strung L bare link last ks us ks₁)
    (h' : Strung L bare link ((us.getLast?.map fun u => u.label.kind).or last) ks₁ vs ks') :
    Strung L bare link last ks (us ++ vs) ks' := by
  induction h with
  | nil => exact h'
  | @cons last ks ks₁ ks' u us hu _ ih =>
    refine .cons hu (ih ?_)
    rw [List.getLast?_cons] at h'
    cases hlast : us.getLast? <;> rw [hlast] at h' <;> exact h'

/-- What is passed before the first of the fragments and between them may be told otherwise. -/
theorem congr (h : Strung L bare link last ks us ks') {ks₀ : List TokenKind}
    (hfirst : ∀ u ∈ us.head?, link' last' u.label.kind ks₀ = link last u.label.kind ks)
    (hnext : ∀ u ∈ us, ∀ v ∈ us,
      link' (some u.label.kind) v.label.kind = link (some u.label.kind) v.label.kind)
    (hne : us = [] → ks₀ = ks) : Strung L bare link' last' ks₀ us ks' := by
  induction h generalizing last' ks₀ with
  | nil => exact hne rfl ▸ .nil
  | @cons last ks ks₁ ks' u us hu hus ih =>
    have hall : ∀ v ∈ us, ∀ w ∈ us,
        link' (some v.label.kind) w.label.kind = link (some v.label.kind) w.label.kind :=
      fun v hv w hw => hnext v (List.mem_cons_of_mem _ hv) w (List.mem_cons_of_mem _ hw)
    refine .cons (by rw [hfirst u rfl]; exact hu) (ih (fun v hv => ?_) hall fun _ => rfl)
    rw [hnext u List.mem_cons_self v (List.mem_cons_of_mem _ (List.mem_of_mem_head? hv))]

/-- Where the last fragment stood does not matter to what is passed. -/
theorem restart (h : Strung L bare link last ks us ks')
    (hlink : ∀ u ∈ us.head?, link last' u.label.kind ks = link last u.label.kind ks) :
    Strung L bare link last' ks us ks' :=
  h.congr hlink (fun _ _ _ _ => rfl) fun _ => rfl

/-- As `append`, if what is passed between two fragments does not tell behind which. -/
theorem followed (h : Strung L bare link last ks us ks₁) (h' : Strung L bare link last' ks₁ vs ks')
    (hlink : ∀ (last last' : Option NodeKind) (k : NodeKind), link last k = link last' k) :
    Strung L bare link last ks (us ++ vs) ks' :=
  h.append (h'.restart fun u _ => congrFun (hlink _ _ u.label.kind) _)

/-- No node but a block is left without its braces. -/
theorem unbraced (h : Strung L bare link last ks us ks')
    (hus : ∀ u ∈ us, u.label.kind.isBlock = false) : Strung L bare' link last ks us ks' := by
  induction h with
  | nil => exact .nil
  | @cons last ks ks₁ ks' u us hu _ ih =>
    obtain ⟨hblock, hus⟩ := List.forall_mem_cons.1 hus
    refine .cons ?_ (ih hus)
    rw [← hu]
    exact measure_bare (by rwa [Fragment.outline, Tree.label_map]) _

theorem measureAll_eq (h : Strung L k.hasBraces k.pastLink last ks us ks') :
    measureAll k last (us.map Fragment.outline) ks = (us.map (Fragment.measured L), ks') := by
  induction h with
  | nil => rfl
  | cons hu _ ih =>
    rw [List.map_cons, measureAll, Fragment.outline, Tree.label_map]
    dsimp only
    rw [← Fragment.outline, hu]
    dsimp only
    rw [ih]
    rfl

end Strung

/-! ## One fragment -/

/-- The fragment stands between the cursors, and its nodes where they are told to. -/
structure Stands (L : List Lexeme) (s : Cursor) (u : Fragment) (s' : Cursor) : Prop where
  span : spanAfter L u.span = ⟨s.rest.length, s'.rest.length⟩
  measure : measure false u.outline (kinds s.rest) = (u.measured L, kinds s'.rest)

theorem length_kinds (ts : List Lexeme) : (kinds ts).length = ts.length := List.length_map _

theorem measure_node {bare : Bool} {a : Node} {before behind : List TokenKind}
    (hus : Strung L a.kind.hasBraces a.kind.pastLink none (a.kind.pastHead bare before) us ks)
    (htail : a.kind.pastTail bare (us.getLast?.map fun u => u.label.kind) ks = behind)
    (hspan : spanAfter L a.span =
      spanOver (a.kind.hugs bare) before (us.map (Fragment.measured L)) behind) :
    measure bare (Fragment.outline (.node a us)) before =
      (Fragment.measured L (.node a us), behind) := by
  have hlast : ((us.map Fragment.outline).getLast?.map Tree.label) =
      us.getLast?.map fun u => u.label.kind := by
    rw [List.getLast?_map, Option.map_map]
    refine congrArg (Option.map · _) (funext fun u => ?_)
    exact Tree.label_map _ u
  rw [outline_node, measure, hus.measureAll_eq]
  dsimp only
  rw [hlast, htail, ← hspan, Fragment.measured, Tree.map_node]
  rfl

/-- A node that covers what is between the cursors. -/
theorem stands_node {span : Span} {i : NodeId} (hk : k.hugs false = false)
    (hspan : spanAfter L span = ⟨s.rest.length, s'.rest.length⟩)
    (hus : Strung L k.hasBraces k.pastLink none (k.pastHead false (kinds s.rest)) us ks)
    (htail : k.pastTail false (us.getLast?.map fun u => u.label.kind) ks = kinds s'.rest) :
    Stands L s (.node ⟨⟨k, span⟩, i⟩ us) s'.made := by
  refine ⟨hspan, measure_node hus htail ?_⟩
  dsimp only
  rw [hk, hspan, spanOver, if_neg (by simp), length_kinds, length_kinds]
  rfl

/-- A node over what was read from an offset on. -/
theorem stands_from {start : Nat} {before : List TokenKind} (hL : InOrder 0 L) (hs : s.On L)
    (htook : Took s vs s') (hk : k.hugs false = false)
    (hstart : lexemesAfter L start = s.rest.length)
    (hhead : k.pastHead false (kinds s.rest) = before)
    (hus : Strung L k.hasBraces k.pastLink none before us ks)
    (htail : k.pastTail false (us.getLast?.map fun u => u.label.kind) ks = kinds s'.rest) :
    Stands L s (s'.node start k us) s'.made := by
  refine stands_node hk ?_ (hhead ▸ hus) htail
  exact Cursor.On.spanAfter_from hL (hs.took htook) (by have := htook.length_le; omega) hstart

/-- A node that begins with the lexeme that is next. -/
theorem stands_takes {before : List TokenKind} (hL : InOrder 0 L) (hs : s.On L) (ht : s.Takes t s₁)
    (htook : Took s₁ vs s') (hk : k.hugs false = false)
    (hhead : k.pastHead false (kinds s.rest) = before)
    (hus : Strung L k.hasBraces k.pastLink none before us ks)
    (htail : k.pastTail false (us.getLast?.map fun u => u.label.kind) ks = kinds s'.rest) :
    Stands L s (s'.node t.start k us) s'.made :=
  stands_from hL hs (ht.took.append htook) hk (hs.lexemesAfter_start hL ht) hhead hus htail

/-- A node that begins where the cursor stands. -/
theorem stands_position {before : List TokenKind} (hL : InOrder 0 L) (hs : s.On L)
    (htook : Took s vs s') (hk : k.hugs false = false)
    (hhead : k.pastHead false (kinds s.rest) = before)
    (hus : Strung L k.hasBraces k.pastLink none before us ks)
    (htail : k.pastTail false (us.getLast?.map fun u => u.label.kind) ks = kinds s'.rest) :
    Stands L s (s'.node s.position k us) s'.made :=
  stands_from hL hs htook hk (hs.lexemesAfter_position hL) hhead hus htail

/-- A node that begins with another, which is read first. -/
theorem stands_behind {before : List TokenKind} (hL : InOrder 0 L) (hs : s.On L)
    (hu : Reads n p s [u] s₁) (hu' : Stands L s u s₁) (htook : Took s₁ vs s')
    (hk : k.hugs false = false) (hhead : k.pastHead false (kinds s.rest) = before)
    (hus : Strung L k.hasBraces k.pastLink none before us ks)
    (htail : k.pastTail false (us.getLast?.map fun u => u.label.kind) ks = kinds s'.rest) :
    Stands L s (s'.node u.span.start k us) s'.made :=
  stands_from hL hs ((took_of_reads hu).append htook) hk (congrArg Span.start hu'.span) hhead hus
    htail

/-- A node over one lexeme. -/
theorem stands_leaf (hL : InOrder 0 L) (hs : s.On L) (ht : s.Takes t s') (hk : k.hugs false = false)
    (hhead : k.pastHead false (kinds s.rest) = kinds s'.rest)
    (htail : k.pastTail false none (kinds s'.rest) = kinds s'.rest) :
    Stands L s (s'.leaf k t) s'.made := by
  refine stands_node hk ?_ (hhead ▸ .nil) htail
  exact congrArg₂ Span.mk (hs.lexemesAfter_start hL ht) (hs.lexemesAfter_stop hL ht)

/-- A node over two others. -/
theorem stands_join (hk : k.hugs false = false) (hu : Stands L s u s₁) (hv : Stands L s₂ v s')
    (hhead : k.pastHead false (kinds s.rest) = kinds s.rest)
    (hfirst : k.pastLink none u.label.kind (kinds s.rest) = kinds s.rest)
    (hnext : k.pastLink (some u.label.kind) v.label.kind (kinds s₁.rest) = kinds s₂.rest)
    (hbraces : k.hasBraces = false)
    (htail : k.pastTail false (some v.label.kind) (kinds s'.rest) = kinds s'.rest) :
    Stands L s (s'.join k u v) s'.made := by
  have hu' : measure k.hasBraces u.outline (k.pastLink none u.label.kind (kinds s.rest)) =
      (u.measured L, kinds s₁.rest) := by
    rw [hfirst, hbraces]
    exact hu.measure
  have hv' : measure k.hasBraces v.outline
      (k.pastLink (some u.label.kind) v.label.kind (kinds s₁.rest)) =
        (v.measured L, kinds s'.rest) := by
    rw [hnext, hbraces]
    exact hv.measure
  refine stands_node hk ?_ (hhead.symm ▸ .cons hu' (.one hv')) htail
  exact congrArg₂ Span.mk (congrArg Span.start hu.span) (congrArg Span.stop hv.span)

theorem Cursor.Takes.tail_kinds (ht : s.Takes t s') : (kinds s.rest).tail = kinds s'.rest := by
  rw [ht.kinds_rest, List.tail_cons]

theorem Cursor.Skips.tail_kinds {k : TokenKind} (hs : s.Skips k s') :
    (kinds s.rest).tail = kinds s'.rest := by
  rw [hs.kinds_rest, List.tail_cons]

/-- A node over an expression and a type. -/
theorem stands_typing (hk : k.isTyping) (hu : Stands L s u s₁) (ht : s₁.Takes t s₂)
    (hv : Stands L s₂ v s') : Stands L s (s'.join k u v) s'.made := by
  cases k with
  | typeTest | cast => exact stands_join rfl hu hv rfl rfl ht.tail_kinds rfl rfl
  | _ => cases hk

/-- A node that covers just what its child does, without lexemes of its own. -/
theorem stands_wrap (hu : Stands L s u s') (hk : k.hugs false = false)
    (hhead : k.pastHead false (kinds s.rest) = kinds s.rest)
    (hlink : k.pastLink none u.label.kind (kinds s.rest) = kinds s.rest)
    (hbraces : k.hasBraces = false)
    (htail : k.pastTail false (some u.label.kind) (kinds s'.rest) = kinds s'.rest) :
    Stands L s (s'.wrap k u) s'.made := by
  have hu' : measure k.hasBraces u.outline (k.pastLink none u.label.kind (kinds s.rest)) =
      (u.measured L, kinds s'.rest) := by
    rw [hlink, hbraces]
    exact hu.measure
  exact stands_node hk hu.span (hhead.symm ▸ .one hu') htail

/-- A node that covers just what its child does, between lexemes of its own. -/
theorem measure_wrap (hu : measure false u.outline (kinds s₁.rest) = (u.measured L, kinds s₂.rest))
    (hk : k.hugs false) (hhead : k.pastHead false (kinds s.rest) = kinds s₁.rest)
    (hlink : k.pastLink none u.label.kind (kinds s₁.rest) = kinds s₁.rest)
    (hbraces : k.hasBraces = false)
    (htail : k.pastTail false (some u.label.kind) (kinds s₂.rest) = kinds s'.rest) :
    measure false (s'.wrap k u).outline (kinds s.rest) =
      ((s'.wrap k u).measured L, kinds s'.made.rest) := by
  have hu' : measure k.hasBraces u.outline (k.pastLink none u.label.kind (kinds s₁.rest)) =
      (u.measured L, kinds s₂.rest) := by
    rw [hlink, hbraces]
    exact hu
  refine measure_node (hhead.symm ▸ .one hu') htail ?_
  have hspan : (u.measured L).label = spanAfter L u.span := Tree.label_map _ u
  rw [spanOver, if_pos hk]
  exact hspan.symm

/-! ## Phrases -/

/-- The phrases of one fragment. -/
def Phrase.isSingle : Phrase → Bool
  | maybe _ | after _ _ | many _ | items _ | rows _ | lambdaHead | functionBody => false
  | _ => true

/-- Commas are passed between items. -/
def itemLink : Link := fun last _ ks => if last.isSome then ks.tail else ks

/-- What is read as a phrase stands where it is told to. -/
def Phrase.Told (L : List Lexeme) : Phrase → Cursor → List Fragment → Cursor → Prop
  | .maybe p, s, us, s' | .many p, s, us, s' => p.isSingle →
    Strung L false (fun _ _ ks => ks) none (kinds s.rest) us (kinds s'.rest)
  | .after _ p, s, us, s' => p.isSingle →
    Strung L false (fun _ _ => List.tail) none (kinds s.rest) us (kinds s'.rest)
  | .items p, s, us, s' => p.isSingle → ∃ ks, Strung L false itemLink none (kinds s.rest) us ks ∧
    (ks = kinds s'.rest ∨ us ≠ [] ∧ ks = .symbol .comma :: kinds s'.rest)
  | .rows p, s, us, s' => p.isSingle → ∃ ks,
    Strung L false (fun _ _ => pastSemicolons) none (kinds s.rest) us ks ∧
      pastSemicolons ks = pastSemicolons (kinds s'.rest)
  | .lambdaHead, s, us, s' => ∃ ks, Strung L false itemLink none (kinds s.rest) us ks ∧
    (s'.kind? ≠ some (.symbol .arrow) →
      (if us = [] then pastMark .arrow ks else (pastMark .comma ks).tail) = kinds s'.rest)
  | .functionBody, s, us, s' =>
    Strung L false (fun _ k ks => if k.isBlock then ks else ks.tail) none (kinds s.rest) us
      (kinds s'.rest)
  | .enclosed _, s, us, s' | .elseBranch, s, us, s' =>
    ∀ u ∈ us, measure false u.outline (kinds s.rest) = (u.measured L, kinds s'.rest)
  | _, s, us, s' => ∀ u ∈ us, Stands L s u s'

theorem Phrase.Told.measure (h : p.Told L s [u] s') (hp : p.isSingle) :
    measure false u.outline (kinds s.rest) = (u.measured L, kinds s'.rest) := by
  cases p with
  | enclosed | elseBranch => exact h u List.mem_cons_self
  | maybe | after | many | items | rows | lambdaHead | functionBody => cases hp
  | _ => exact (h u List.mem_cons_self).measure

theorem stands_singleton : (∀ v ∈ [u], Stands L s v s') ↔ Stands L s u s' :=
  List.forall_mem_singleton

theorem told_item (hu : p.Told L s [u] s₁) (hs : s₁.Skips (.symbol .comma) s₂)
    (hus : (Phrase.items p).Told L s₂ us s') : (Phrase.items p).Told L s (u :: us) s' := by
  intro hp
  obtain ⟨ks, hus, hks⟩ := hus hp
  cases us with
  | nil =>
    -- The comma behind the last item.
    cases hus
    obtain hks | ⟨hne, -⟩ := hks
    · exact ⟨_, .one (hu.measure hp), .inr ⟨by simp, hks ▸ hs.kinds_rest⟩⟩
    · exact absurd rfl hne
  | cons v vs =>
    refine ⟨ks, .cons (hu.measure hp) (hus.congr ?_ (fun _ _ _ _ => rfl) nofun), ?_⟩
    · exact fun w _ => hs.tail_kinds
    · exact hks.imp_right fun hks => ⟨by simp, hks.2⟩

theorem pastSemicolons_of_skips (hs : s.Skips (.symbol .semicolon) s') :
    pastSemicolons (kinds s.rest) = pastSemicolons (kinds s'.rest) := by
  rw [hs.kinds_rest]
  rfl

theorem pastSemicolons_of_kind?_ne (hk : s.kind? ≠ some (.symbol .semicolon)) :
    pastSemicolons (kinds s.rest) = kinds s.rest := by
  cases hrest : s.rest with
  | nil => rfl
  | cons t ts =>
    refine List.dropWhile_cons_of_neg fun h => hk ?_
    rw [Cursor.kind?, hrest, List.head?_cons, Option.map_some, ← beq_iff_eq.1 h]

theorem told_semicolon (hs : s.Skips (.symbol .semicolon) s₁)
    (hus : (Phrase.rows p).Told L s₁ us s') : (Phrase.rows p).Told L s us s' := by
  intro hp
  obtain ⟨ks, hus, hks⟩ := hus hp
  cases us with
  | nil =>
    cases hus
    exact ⟨_, .nil, (pastSemicolons_of_skips hs).trans hks⟩
  | cons u us =>
    exact ⟨ks, hus.congr (fun _ _ => pastSemicolons_of_skips hs) (fun _ _ _ _ => rfl) nofun, hks⟩

theorem told_row (hno : ¬s.isAt (.symbol .semicolon)) (hu : p.Told L s [u] s₁)
    (hus : (Phrase.rows p).Told L s₁ us s') : (Phrase.rows p).Told L s (u :: us) s' := by
  intro hp
  obtain ⟨ks, hus, hks⟩ := hus hp
  refine ⟨ks, .cons ?_ (hus.restart fun _ _ => rfl), hks⟩
  rw [pastSemicolons_of_kind?_ne (by simpa [Cursor.isAt] using hno)]
  exact hu.measure hp

/-- Behind the comma that may follow the last item. -/
theorem pastMark_comma {k : TokenKind} (hks : ks = kinds s.rest ∨ us ≠ [] ∧
    ks = .symbol .comma :: kinds s.rest) (hs : s.Skips k s') (hk : k ≠ .symbol .comma) :
    (pastMark .comma ks).tail = kinds s'.rest := by
  obtain rfl | ⟨-, rfl⟩ := hks
  · rw [pastMark, hs.kinds_rest, pastAfter, if_neg hk, List.tail_cons]
  · rw [pastMark, pastAfter, if_pos rfl]
    exact hs.tail_kinds

/-- Behind a keyword and the label that it may refer to. -/
theorem drop_kinds_of_refers {label : Option String} (ht : s.Takes t s₁)
    (h : s₁.Refers label s') :
    (kinds s.rest).drop (label.toList.length + 1) = kinds s'.rest := by
  rw [ht.kinds_rest, List.drop_succ_cons]
  cases h with
  | none => rfl
  | some ht =>
    rw [ht.kinds_rest]
    rfl

theorem kind?_ne_arrow (h : Reads n (.rows .statement) s us s') (hs : s'.kind? ≠ some (.symbol .arrow)) :
    s.kind? ≠ some (.symbol .arrow) := by
  cases h with
  | noRow => exact hs
  | semicolon hsemi =>
    obtain ⟨t, ht, hk⟩ := hsemi
    rw [ht.kind?, hk]
    nofun
  | row _ hu =>
    obtain ⟨t, ts, hrest, hk⟩ := begins_of_reads hu rfl
    rw [Cursor.kind?, hrest, List.head?_cons, Option.map_some]
    intro harrow
    rw [Option.some.inj harrow] at hk
    cases hk

/-- What is between parentheses. -/
theorem measure_enclosed (hk : k.isEnclosed) (hopen : s.Skips (.symbol .leftParen) s₁)
    (hu : measure false u.outline (kinds s₁.rest) = (u.measured L, kinds s₂.rest))
    (hclose : s₂.Skips (.symbol .rightParen) s') :
    measure false (s'.wrap k u).outline (kinds s.rest) =
      ((s'.wrap k u).measured L, kinds s'.made.rest) := by
  cases k with
  | condition | whenSubject =>
    exact measure_wrap hu rfl hopen.tail_kinds rfl rfl hclose.tail_kinds
  | _ => cases hk

/-- Semicolons before an else branch do not matter. -/
theorem measure_elseBranch {x : Tree NodeKind} (hx : x.label = .elseBranch)
    (hks : pastSemicolons ks = pastSemicolons ks') : measure false x ks = measure false x ks' := by
  obtain ⟨k, ts⟩ := x
  obtain rfl : k = .elseBranch := hx
  rw [measure, measure, NodeKind.pastHead, NodeKind.pastHead, hks]
  rfl

/-- Commas between items are passed. -/
theorem Strung.items {bare : Bool} {link : Link} {last : Option NodeKind}
    (h : Strung L false itemLink last ks us ks')
    (hlink : ∀ u ∈ us, ∀ last, link last u.label.kind = itemLink last u.label.kind)
    (hus : ∀ u ∈ us, u.label.kind.isBlock = false) : Strung L bare link last ks us ks' := by
  have hfirst : ∀ u ∈ us.head?, link last u.label.kind ks = itemLink last u.label.kind ks :=
    fun u hu => congrFun (hlink u (List.mem_of_mem_head? hu) last) ks
  have hnext : ∀ u ∈ us, ∀ v ∈ us,
      link (some u.label.kind) v.label.kind = itemLink (some u.label.kind) v.label.kind :=
    fun u _ v hv => hlink v hv _
  exact (h.congr hfirst hnext fun _ => rfl).unbraced hus

theorem kind_of_reads {q : NodeKind → Prop} (h : Reads n p s us s')
    (hp : ∀ x : Tree NodeKind, p.Admits x → q x.label) : ∀ u ∈ us, q u.label.kind := by
  intro u hu
  have hq := hp _ (laid_of_reads h u hu).2
  rwa [Fragment.outline, Tree.label_map] at hq

theorem isBlock_of_isParameter (h : k.isParameter) : k.isBlock = false := by
  cases k <;> first | rfl | cases h

theorem isBlock_of_isValue (h : k.isValue) : k.isBlock = false := by
  cases k <;> first | rfl | cases h

theorem isBlock_of_isTypeReference (h : k.isTypeReference) : k.isBlock = false := by
  cases k <;> first | rfl | cases h

theorem isParameter_of_isExpression (h : k.isExpression) : k.isParameter = false := by
  cases k <;> first | rfl | cases h

theorem isParameter_of_isTypeReference (h : k.isTypeReference) : k.isParameter = false := by
  cases k <;> first | rfl | cases h

theorem isTypeReference_of_isParameter (h : k.isParameter) : k.isTypeReference = false := by
  cases k <;> first | rfl | cases h

theorem stands_whenEntry {cs : List Fragment} (hL : InOrder 0 L) (hs : s.On L)
    (hcs : Reads n (.items .whenCondition) s cs s₁)
    (hcs' : (Phrase.items .whenCondition).Told L s cs s₁)
    (harrow : s₁.Skips (.symbol .arrow) s₂) (hb : Reads n .body s₂ [u] s')
    (hb' : Stands L s₂ u s') :
    Stands L s (s'.node s.position (.whenEntry false) (cs ++ [u])) s'.made := by
  obtain ⟨ks, hcs', hks⟩ := hcs' rfl
  have hkinds : ∀ c ∈ cs, c.label.kind.isWhenCondition := kind_of_reads (q := (·.isWhenCondition)) hcs fun _ h => h
  have hvalue : u.label.kind.isWhenCondition = false := by
    have hexpression : u.label.kind.isExpression :=
      kind_of_reads (q := (·.isExpression)) hb (fun _ h => h) u List.mem_cons_self
    cases hk : u.label.kind <;> first | rfl | (rw [hk] at hexpression; cases hexpression)
  have hconditions : Strung L (NodeKind.whenEntry false).hasBraces (NodeKind.whenEntry false).pastLink
      none (kinds s.rest) cs ks := by
    refine hcs'.items (fun c hc last => ?_) fun c hc => ?_
    · funext ks
      rw [NodeKind.pastLink, if_pos (hkinds c hc), itemLink]
    · have hc := hkinds c hc
      cases hk : c.label.kind <;> first | rfl | (rw [hk] at hc; cases hc)
  refine stands_position hL hs
    ((took_of_reads hcs).append (harrow.took.append (took_of_reads hb))) rfl rfl
    (hconditions.append (.one ?_)) rfl
  rw [NodeKind.pastLink, if_neg (by simp [hvalue]), pastMark_comma hks harrow (by decide)]
  exact hb'.measure

theorem stands_when {es : List Fragment} {s₃ s₄ : Cursor} (hL : InOrder 0 L) (hs : s.On L)
    (ht : s.Takes t s₁) (hus : Reads n (.maybe (.enclosed .whenSubject)) s₁ us s₂)
    (hus' : (Phrase.maybe (.enclosed .whenSubject)).Told L s₁ us s₂)
    (hopen : s₂.Skips (.symbol .leftBrace) s₃) (hes : Reads n (.rows .whenEntry) s₃ es s₄)
    (hes' : (Phrase.rows .whenEntry).Told L s₃ es s₄) (hclose : s₄.Skips (.symbol .rightBrace) s') :
    Stands L s (s'.node t.start .when_ (us ++ es)) s'.made := by
  obtain ⟨ks, hes', hks⟩ := hes' rfl
  have hsubjects : ∀ u ∈ us, u.label.kind = .whenSubject := kind_of_reads (q := (· = .whenSubject)) hus fun _ h => h
  have hentries : ∀ e ∈ es, e.label.kind.isWhenEntry := kind_of_reads (q := (·.isWhenEntry)) hes fun _ h => h
  have hlast : ((us.getLast?.map fun u => u.label.kind).or none).any NodeKind.isWhenEntry = false := by
    cases hlast : us.getLast? with
    | none => rfl
    | some u => simp [hsubjects u (List.mem_of_getLast? hlast), NodeKind.isWhenEntry]
  have hsubject : Strung L NodeKind.when_.hasBraces NodeKind.when_.pastLink none (kinds s₁.rest) us
      (kinds s₂.rest) := by
    refine (hus' rfl).congr (fun u hu => ?_) (fun u _ v hv => ?_) fun _ => rfl
    · rw [NodeKind.pastLink, hsubjects u (List.mem_of_mem_head? hu)]
      rfl
    · rw [hsubjects v hv]
      rfl
  have hend : pastSemicolons (kinds s₄.rest) = kinds s₄.rest :=
    pastSemicolons_of_kind?_ne (by obtain ⟨u, hu, hk⟩ := hclose; rw [hu.kind?, hk]; decide)
  have htook := (took_of_reads hus).append (hopen.took.append
    ((took_of_reads hes).append hclose.took))
  cases es with
  | nil =>
    cases hes'
    refine stands_takes hL hs ht htook rfl ht.tail_kinds
      (by rw [List.append_nil]; exact hsubject) ?_
    rw [List.append_nil, NodeKind.pastTail, if_neg (by simpa using hlast), hopen.tail_kinds, hks,
      hend, hclose.tail_kinds]
  | cons e es =>
    have hall : Strung L NodeKind.when_.hasBraces NodeKind.when_.pastLink
        ((us.getLast?.map fun u => u.label.kind).or none) (kinds s₂.rest) (e :: es) ks := by
      refine hes'.congr (fun u hu => ?_) (fun u hu v hv => ?_) (by simp)
      · obtain rfl := Option.some.inj hu
        rw [NodeKind.pastLink, if_pos (hentries _ List.mem_cons_self), hlast, hopen.tail_kinds]
        rfl
      · funext ks
        rw [NodeKind.pastLink, if_pos (hentries v hv), Option.any_some, if_pos (hentries u hu)]
    refine stands_takes hL hs ht htook rfl ht.tail_kinds (hsubject.append hall) ?_
    obtain ⟨v, hv⟩ : ∃ v, (e :: es).getLast? = some v := ⟨_, List.getLast?_eq_some_getLast (by simp)⟩
    rw [List.getLast?_append, hv, Option.some_or, Option.map_some, NodeKind.pastTail,
      Option.any_some, if_pos (hentries v (List.mem_of_getLast? hv)), hks, hend, hclose.tail_kinds]

theorem kind?_ne_of_skips {k k' : TokenKind} (hs : s.Skips k s') (hk : k ≠ k') :
    s.kind? ≠ some k' := by
  obtain ⟨t, ht, rfl⟩ := hs
  rw [ht.kind?]
  exact fun h => hk (Option.some.inj h)

/-- The rows before a closing brace. -/
theorem pastSemicolons_of_rows (hclose : s.Skips (.symbol .rightBrace) s')
    (hks : pastSemicolons ks = pastSemicolons (kinds s.rest)) :
    pastSemicolons ks = kinds s.rest := by
  rw [hks, pastSemicolons_of_kind?_ne (kind?_ne_of_skips hclose nofun)]

theorem stands_block {opening closing : Lexeme} (hL : InOrder 0 L) (hs : s.On L)
    (hopen : s.Takes opening s₁) (hus : Reads n (.rows .statement) s₁ us s₂)
    (hus' : (Phrase.rows .statement).Told L s₁ us s₂) (hclose : s₂.Takes closing s')
    (hk : closing.kind = .symbol .rightBrace) :
    Stands L s (s'.make .block ⟨opening.start, closing.stop⟩ us) s'.made := by
  obtain ⟨ks, hus', hks⟩ := hus' rfl
  have h₂ := (hs.takes hopen).reads hus
  refine stands_node rfl ?_ (hopen.tail_kinds.symm ▸ hus') ?_
  · exact congrArg₂ Span.mk (hs.lexemesAfter_start hL hopen) (h₂.lexemesAfter_stop hL hclose)
  · rw [NodeKind.pastTail, if_neg nofun, pastSemicolons_of_rows ⟨_, hclose, hk⟩ hks,
      hclose.tail_kinds]

/-- The block of a lambda leaves the braces to the function literal. -/
theorem measure_body {closing : Lexeme} {i : NodeId} (hL : InOrder 0 L) (hs : s₁.On L)
    (hus : (Phrase.rows .statement).Told L s us s₁) (hclose : s₁.Takes closing s')
    (hk : closing.kind = .symbol .rightBrace) :
    measure true (Fragment.outline (.node ⟨⟨.block, bodySpan closing us⟩, i⟩ us)) (kinds s.rest) =
      (Fragment.measured L (.node ⟨⟨.block, bodySpan closing us⟩, i⟩ us), kinds s₁.rest) := by
  obtain ⟨ks, hus, hks⟩ := hus rfl
  refine measure_node hus ?_ ?_
  · exact pastSemicolons_of_rows ⟨_, hclose, hk⟩ hks
  · have hlabel (v : Fragment) : (v.measured L).label = spanAfter L v.span := Tree.label_map _ v
    cases us with
    | nil =>
      have hstart := hs.lexemesAfter_start hL hclose
      exact congrArg₂ Span.mk (hstart.trans (length_kinds _).symm)
        (hstart.trans (length_kinds _).symm)
    | cons u us =>
      obtain ⟨v, hv⟩ : ∃ v, (u :: us).getLast? = some v :=
        ⟨_, List.getLast?_eq_some_getLast (by simp)⟩
      have hends : spanOver true (kinds s.rest) ((u :: us).map (Fragment.measured L))
          (kinds s₁.rest) = ⟨(u.measured L).label.start, (v.measured L).label.stop⟩ := by
        rw [spanOver, if_pos rfl, List.getLast?_map, hv]
        rfl
      refine Eq.trans ?_ hends.symm
      rw [bodySpan, hv, hlabel, hlabel]
      rfl

/-- Parameters and the arrow behind them, which a comma may come before. -/
theorem told_lambdaHead (hus : (Phrase.items .parameter).Told L s us s₁)
    (harrow : s₁.Skips (.symbol .arrow) s') : Phrase.lambdaHead.Told L s us s' := by
  obtain ⟨ks, hus, hks⟩ := hus rfl
  refine ⟨ks, hus, fun _ => ?_⟩
  split
  · next hnil =>
    subst hnil
    cases hus
    obtain hks | ⟨hne, -⟩ := hks
    · rw [hks, pastMark, pastAfter_of_skips harrow, id]
    · exact absurd rfl hne
  · exact pastMark_comma hks harrow (by decide)

theorem stands_lambda {opening closing : Lexeme} {ps : List Fragment} {s₃ : Cursor}
    (hL : InOrder 0 L) (hs : s.On L) (hopen : s.Takes opening s₁)
    (hps : Reads n .lambdaHead s₁ ps s₂) (hps' : Phrase.lambdaHead.Told L s₁ ps s₂)
    (hus : Reads n (.rows .statement) s₂ us s₃)
    (hus' : (Phrase.rows .statement).Told L s₂ us s₃) (hclose : s₃.Takes closing s')
    (hk : closing.kind = .symbol .rightBrace) :
    Stands L s (s'.made.made.make .lambda ⟨opening.start, closing.stop⟩
      [s'.made.make .functionLiteral ⟨opening.start, closing.stop⟩
        (ps ++ [s'.make .block (bodySpan closing us) us])]) s'.made.made.made := by
  have h₃ := ((hs.takes hopen).reads hps).reads hus
  have hspan : spanAfter L ⟨opening.start, closing.stop⟩ = ⟨s.rest.length, s'.rest.length⟩ :=
    congrArg₂ Span.mk (hs.lexemesAfter_start hL hopen) (h₃.lexemesAfter_stop hL hclose)
  obtain ⟨ks, hps', hks⟩ := hps'
  have hparameters : ∀ p ∈ ps, p.label.kind.isParameter :=
    kind_of_reads (q := (·.isParameter)) hps fun _ h => h
  have hhead : Strung L NodeKind.functionLiteral.hasBraces NodeKind.functionLiteral.pastLink none
      (kinds s₁.rest) ps ks := by
    refine hps'.items (fun p hp last => ?_) fun p hp => isBlock_of_isParameter (hparameters p hp)
    funext ks
    rw [NodeKind.pastLink, if_pos (hparameters p hp), itemLink]
  -- The statements begin behind the arrow, if there is one.
  have harrow : s₂.kind? ≠ some (.symbol .arrow) :=
    kind?_ne_arrow hus (kind?_ne_of_skips ⟨_, hclose, hk⟩ (by decide))
  have hlink : NodeKind.functionLiteral.pastLink ((ps.getLast?.map fun u => u.label.kind).or none)
      .block ks = kinds s₂.rest := by
    rw [← hks harrow, NodeKind.pastLink, if_neg (by decide)]
    cases ps with
    | nil => rfl
    | cons p ps =>
      rw [if_neg (List.cons_ne_nil p ps), List.getLast?_cons]
      rfl
  have hliteral : Stands L s (s'.made.make .functionLiteral ⟨opening.start, closing.stop⟩
      (ps ++ [s'.make .block (bodySpan closing us) us])) s'.made.made := by
    refine stands_node rfl hspan ?_ hclose.tail_kinds
    rw [NodeKind.pastHead, hopen.tail_kinds]
    refine hhead.append (.one ?_)
    exact Eq.trans (congrArg _ hlink) (measure_body hL h₃ hus' hclose hk)
  exact stands_node rfl hspan (.one hliteral.measure) rfl

theorem pastHead_function {names : List Lexeme} {last : Lexeme} (name : String)
    (ht : s.Takes t s₁) (hm : s₁.Moves (names ++ [last]) s₂)
    (hnames : ∀ t ∈ names, t.kind = .identifier ∨ t.kind = .symbol .dot)
    (hlast : last.kind = .identifier) (hopen : s₂.Skips (.symbol .leftParen) s') :
    (NodeKind.function name).pastHead false (kinds s.rest) = kinds s'.rest := by
  have hparts : ∀ k ∈ kinds (names ++ [last]), k.isNamePart := by
    intro k hk
    obtain ⟨u, hu, rfl⟩ : ∃ u ∈ names ++ [last], u.kind = k := List.mem_map.1 hk
    exact Reader.forall_mem_segments hnames hlast rfl rfl u hu
  rw [NodeKind.pastHead, ht.tail_kinds, hm.kinds_rest, List.dropWhile_append_of_pos hparts,
    hopen.kinds_rest, List.dropWhile_cons_of_neg (by decide), List.tail_cons]

theorem pastLink_function {name : String} {last : Option NodeKind} (hk : k.isParameter = false) :
    (NodeKind.function name).pastLink last k ks =
      if k.isBlock then NodeKind.pastSignature last ks
      else (NodeKind.pastSignature last ks).tail := by
  rw [NodeKind.pastLink, if_neg (by simp [hk])]

/-- The parameters of a function and the type of its result. -/
theorem strung_signature {ps : List Fragment} {s₃ : Cursor} (name : String)
    (hps : Reads n (.items .parameter) s ps s₁) (hps' : (Phrase.items .parameter).Told L s ps s₁)
    (hclose : s₁.Skips (.symbol .rightParen) s₂)
    (hus : Reads n (.after (.symbol .colon) .typeReference) s₂ us s₃)
    (hus' : (Phrase.after (.symbol .colon) .typeReference).Told L s₂ us s₃) :
    ∃ ks last, last = ((ps ++ us).getLast?.map fun u => u.label.kind) ∧
      Strung L false (NodeKind.function name).pastLink none (kinds s.rest) (ps ++ us) ks ∧
      NodeKind.pastSignature last ks = kinds s₃.rest ∧
      last.all NodeKind.isParameter = !last.any NodeKind.isTypeReference := by
  obtain ⟨ks, hps', hks⟩ := hps' rfl
  have hparameters : ∀ p ∈ ps, p.label.kind.isParameter :=
    kind_of_reads (q := (·.isParameter)) hps fun _ h => h
  have htypes : ∀ u ∈ us, u.label.kind.isTypeReference :=
    kind_of_reads (q := (·.isTypeReference)) hus fun _ h => h
  have hlist : Strung L false (NodeKind.function name).pastLink none (kinds s.rest) ps ks := by
    refine hps'.items (fun p hp last => ?_) fun p hp => isBlock_of_isParameter (hparameters p hp)
    funext ks
    rw [NodeKind.pastLink, if_pos (hparameters p hp), itemLink]
  have hlast : ((ps.getLast?.map fun u => u.label.kind).or none).any NodeKind.isTypeReference = false
      ∧ ((ps.getLast?.map fun u => u.label.kind).or none).all NodeKind.isParameter := by
    cases hlast : ps.getLast? with
    | none => exact ⟨rfl, rfl⟩
    | some p =>
      have hp := hparameters p (List.mem_of_getLast? hlast)
      exact ⟨isTypeReference_of_isParameter hp, hp⟩
  rw [Option.or_none] at hlast
  have hpast := pastMark_comma hks hclose (by decide)
  cases us with
  | nil =>
    have hrest := (hus' rfl).nil_inv
    refine ⟨ks, _, rfl, by rwa [List.append_nil], ?_⟩
    rw [List.append_nil, NodeKind.pastSignature, if_neg (by simp [hlast.1]), hpast, hrest, hlast.1, hlast.2]
    exact ⟨rfl, rfl⟩
  | cons u us =>
    obtain rfl : us = [] := by simpa using length_le_one_of_after hus
    have hu := htypes u List.mem_cons_self
    have hlink : (NodeKind.function name).pastLink ((ps.getLast?.map fun u => u.label.kind).or none)
        u.label.kind ks = (kinds s₂.rest).tail := by
      rw [pastLink_function (isParameter_of_isTypeReference hu), isBlock_of_isTypeReference hu,
        if_neg (by decide), NodeKind.pastSignature, Option.or_none, if_neg (by simp [hlast.1]), hpast]
    refine ⟨kinds s₃.rest, some u.label.kind, by simp, hlist.append ?_, if_pos hu, ?_⟩
    · exact .one (hlink ▸ (hus' rfl).one_inv)
    · rw [Option.all_some, Option.any_some, hu, isParameter_of_isTypeReference hu]
      rfl

theorem stands_function {names : List Lexeme} {name : Lexeme} {ps vs : List Fragment}
    {s₃ s₄ s₅ s₆ : Cursor} (hL : InOrder 0 L) (hs : s.On L) (ht : s.Takes t s₁)
    (hm : s₁.Moves (names ++ [name]) s₂)
    (hnames : ∀ t ∈ names, t.kind = .identifier ∨ t.kind = .symbol .dot)
    (hname : name.kind = .identifier) (hopen : s₂.Skips (.symbol .leftParen) s₃)
    (hps : Reads n (.items .parameter) s₃ ps s₄) (hps' : (Phrase.items .parameter).Told L s₃ ps s₄)
    (hclose : s₄.Skips (.symbol .rightParen) s₅)
    (hus : Reads n (.after (.symbol .colon) .typeReference) s₅ us s₆)
    (hus' : (Phrase.after (.symbol .colon) .typeReference).Told L s₅ us s₆)
    (hvs : Reads n .functionBody s₆ vs s') (hvs' : Phrase.functionBody.Told L s₆ vs s') :
    Stands L s (s'.node t.start (.function (identifierName name.text)) (ps ++ us ++ vs)) s'.made := by
  obtain ⟨ks, last, hlast, hlist, hks, hall⟩ :=
    strung_signature (identifierName name.text) hps hps' hclose hus hus'
  have hhead := pastHead_function (identifierName name.text) ht hm hnames hname hopen
  have htook : Took s₁ (ps ++ (us ++ vs)) s' :=
    hm.took.append (hopen.took.append ((took_of_reads hps).append (hclose.took.append
      ((took_of_reads hus).append (took_of_reads hvs)))))
  rw [← List.append_assoc] at htook
  cases vs with
  | nil =>
    rw [List.append_nil] at htook ⊢
    refine stands_takes hL hs ht htook rfl hhead hlist ?_
    rw [← hlast, NodeKind.pastTail, hall, ← (hvs' :).nil_inv, ← hks, NodeKind.pastSignature]
    cases last.any NodeKind.isTypeReference <;> rfl
  | cons v vs =>
    obtain rfl : vs = [] := by simpa using length_le_one_of_functionBody hvs
    have hv : v.label.kind.isParameter = false := isParameter_of_isExpression
      (kind_of_reads (q := (·.isExpression)) hvs (fun _ h => h) v List.mem_cons_self)
    have hbody : Strung L false (NodeKind.function (identifierName name.text)).pastLink last ks [v]
        (kinds s'.rest) := by
      refine .one ?_
      rw [pastLink_function hv, hks]
      exact (hvs' :).one_inv
    rw [← Option.or_none (o := last), hlast] at hbody
    refine stands_takes hL hs ht htook rfl hhead (hlist.append hbody) ?_
    · rw [List.getLast?_append]
      exact if_neg (by simp [hv])

theorem stands_directive (hL : InOrder 0 L) (hs : s.On L) (ht : s.Takes t s₁) (hm : s₁.Moves ts s')
    (hk : k.isDirective) (hpast : kinds s'.rest = pastPath ((kinds s.rest).drop 2)) :
    Stands L s (s'.node t.start k []) s'.made := by
  have hhugs : k.hugs false = false := by cases k <;> first | rfl | cases hk
  have hhead : k.pastHead false (kinds s.rest) = kinds s'.rest := by
    rw [hpast]
    cases k <;> first | rfl | cases hk
  have htail : k.pastTail false none (kinds s'.rest) = kinds s'.rest := by
    cases k <;> first | rfl | cases hk
  exact stands_takes hL hs ht hm.took hhugs hhead .nil htail

/-- All that is accepted has the spans that its outline and the kinds of the lexemes tell. -/
theorem measured_of_reads (hL : InOrder 0 L) (h : Reads n p s us s') (hs : s.On L)
    (hn : n ≤ maxNesting) : p.Told L s us s' := by
  induction h with
  | absent | noMore | unmarked => exact fun _ => .nil
  | noItem => exact fun _ => ⟨_, .nil, .inl rfl⟩
  | noRow => exact fun _ => ⟨_, .nil, rfl⟩
  | present _ ih => exact fun hp => .one ((ih hs hn).measure hp)
  | marked hmark _ ih =>
    exact fun hp => .one (hmark.tail_kinds ▸ (ih (hs.skips hmark) hn).measure hp)
  | more hu _ ihu ihus =>
    exact fun hp => .cons ((ihu hs hn).measure hp)
      ((ihus (hs.reads hu) hn hp).restart fun _ _ => rfl)
  | lastItem _ ih => exact fun hp => ⟨_, .one ((ih hs hn).measure hp), .inl rfl⟩
  | item hu hcomma _ ihu ihus =>
    exact told_item (ihu hs hn) hcomma (ihus ((hs.reads hu).skips hcomma) hn)
  | semicolon hsemi _ ih => exact told_semicolon hsemi (ih (hs.skips hsemi) hn)
  | row hno hu _ ihu ihus => exact told_row hno (ihu hs hn) (ihus (hs.reads hu) hn)
  | typeReference hm _ _ _ hpast =>
    exact stands_singleton.2 (stands_position hL hs hm.took rfl (hpast _ hn).symm .nil rfl)
  -- Expressions and assignments.
  | chainStart _ ih | value _ ih | blockBody _ ih | valueBody _ ih | lambdaAlone _ ih
  | suffixStart _ ih | declaration _ ih | assignmentStatement _ ih => exact ih hs hn
  | plainOperand _ ih | plainLambda _ ih => exact ih hs (Nat.le_of_succ_le hn)
  | binary hu ht _ _ _ _ ihu ihv | assignment hu ht _ _ ihu ihv =>
    have hu' := stands_singleton.1 (ihu hs hn)
    have hv' := stands_singleton.1 (ihv ((hs.reads hu).takes ht) hn)
    exact stands_singleton.2 (stands_join rfl hu' hv' rfl rfl ht.tail_kinds rfl rfl)
  | typing hu ht _ hmade _ _ _ ihu ihv =>
    have hu' := stands_singleton.1 (ihu hs hn)
    have hv' := stands_singleton.1 (ihv ((hs.reads hu).takes ht) hn)
    exact stands_singleton.2 (stands_typing hmade hu' ht hv')
  -- Arguments.
  | argument hu ih | lambdaArgument _ hu ih | valueCondition hu ih =>
    have hu' := stands_singleton.1 (ih hs hn)
    exact stands_singleton.2 (stands_position hL hs (took_of_reads hu) rfl rfl (.one hu'.measure)
      rfl)
  | namedArgument ht _ hassign hu ih =>
    have hu' := stands_singleton.1 (ih ((hs.takes ht).skips hassign) hn)
    refine stands_singleton.2 (stands_position hL hs
      (ht.took.append (hassign.took.append (took_of_reads hu))) rfl ?_ (.one hu'.measure) rfl)
    rw [ht.kinds_rest, hassign.kinds_rest]
    rfl
  | argumentList ht _ hus hclose ih =>
    obtain ⟨ks, hus', hks⟩ := ih (hs.takes ht) hn rfl
    exact stands_singleton.2 (stands_takes hL hs ht ((took_of_reads hus).append hclose.took) rfl
      ht.tail_kinds hus' (pastMark_comma hks hclose (by decide)))
  | annotationEntry ht _ hus ih =>
    exact stands_singleton.2 (stands_takes hL hs ht (took_of_reads hus) rfl ht.tail_kinds
      (ih (hs.takes ht) hn rfl) rfl)
  -- Branches and loops.
  | enclosed hk hopen _ hclose ih =>
    have hu' := stands_singleton.1 (ih (hs.skips hopen) hn)
    exact List.forall_mem_singleton.2 (measure_enclosed hk hopen hu'.measure hclose)
  | elseBranch helse _ ih =>
    have hu' := stands_singleton.1 (ih (hs.skips helse) hn)
    refine List.forall_mem_singleton.2 (measure_wrap hu'.measure rfl ?_ rfl rfl rfl)
    rw [NodeKind.pastHead, helse.kinds_rest]
    rfl
  | lateElseBranch hsemi hu ih =>
    refine List.forall_mem_singleton.2 ?_
    rw [measure_elseBranch (laid_singleton.1 (laid_of_reads hu)).2 (pastSemicolons_of_skips hsemi)]
    exact (ih (hs.skips hsemi) hn).measure rfl
  | ifElse ht _ hc hb hes _ ihc ihb ihes =>
    have h₁ := hs.takes ht
    have h₂ := h₁.reads hc
    have hb' := stands_singleton.1 (ihb h₂ hn)
    have hes' := ihes (h₂.reads hb).made hn rfl
    have hthen : Stands L _ (Cursor.wrap _ .thenBranch _) _ := stands_wrap hb' rfl rfl rfl rfl rfl
    exact stands_singleton.2 (stands_takes hL hs ht
      ((took_of_reads hc).append ((took_of_reads hb).made.append (took_of_reads hes))) rfl
      ht.tail_kinds (.cons ((ihc h₁ hn).measure rfl)
        (.cons hthen.measure (hes'.restart fun _ _ => rfl))) rfl)
  | typeCondition ht _ hu ih | membershipCondition ht _ hu ih =>
    have hu' := stands_singleton.1 (ih (hs.takes ht) hn)
    exact stands_singleton.2 (stands_position hL hs (ht.took.append (took_of_reads hu)) rfl
      ht.tail_kinds (.one hu'.measure) rfl)
  | elseEntry helse harrow hb ih =>
    have hb' := stands_singleton.1 (ih ((hs.skips helse).skips harrow) hn)
    refine stands_singleton.2 (stands_position hL hs
      (helse.took.append (harrow.took.append (took_of_reads hb))) rfl ?_ (.one hb'.measure) rfl)
    rw [NodeKind.pastHead, helse.kinds_rest, harrow.kinds_rest]
    rfl
  | whenEntry hcs _ harrow hb ihcs ihb =>
    have h₁ := hs.reads hcs
    have hb' := stands_singleton.1 (ihb (h₁.skips harrow) hn)
    exact stands_singleton.2 (stands_whenEntry hL hs hcs (ihcs hs hn) harrow hb hb')
  | when_ ht _ hus hopen hes hclose ihus ihes =>
    have h₁ := hs.takes ht
    have h₂ := h₁.reads hus
    exact stands_singleton.2 (stands_when hL hs ht hus (ihus h₁ hn) hopen hes
      (ihes (h₂.skips hopen) hn) hclose)
  | forLoop ht _ hopen hname _ hin hu hclose hb ihu ihb =>
    have h₄ := (((hs.takes ht).skips hopen).takes hname).skips hin
    have hu' := stands_singleton.1 (ihu h₄ hn)
    have hb' := stands_singleton.1 (ihb ((h₄.reads hu).skips hclose).made hn)
    have hrange : Stands L _ (Cursor.wrap _ .loopRange _) _ := stands_wrap hu' rfl rfl rfl rfl rfl
    have hbody : Stands L _ (Cursor.wrap _ .loopBody _) _ := stands_wrap hb' rfl rfl rfl rfl rfl
    refine stands_singleton.2 (stands_takes hL hs ht (hopen.took.append (hname.took.append
      (hin.took.append ((took_of_reads hu).append (hclose.took.made.append
        (took_of_reads hb)))))).made rfl ?_ (.cons hrange.measure (.one ?_)) rfl)
    · rw [NodeKind.pastHead, ht.kinds_rest, hopen.kinds_rest, hname.kinds_rest, hin.kinds_rest]
      rfl
    · rw [NodeKind.pastLink, Option.isSome_some, if_pos rfl]
      exact hclose.tail_kinds ▸ hbody.measure
  | whileLoop ht _ hc hb ihc ihb =>
    have h₁ := hs.takes ht
    have hb' := stands_singleton.1 (ihb (h₁.reads hc) hn)
    have hbody : Stands L _ (Cursor.wrap _ .loopBody _) _ := stands_wrap hb' rfl rfl rfl rfl rfl
    exact stands_singleton.2 (stands_takes hL hs ht
      ((took_of_reads hc).append (took_of_reads hb)).made rfl ht.tail_kinds
      (.cons ((ihc h₁ hn).measure rfl) (.one hbody.measure)) rfl)
  -- What stands alone.
  | literal ht | name ht | memberName ht =>
    exact stands_singleton.2 (stands_leaf hL hs ht rfl ht.tail_kinds rfl)
  | this ht _ hr | break_ ht _ hr | continue_ ht _ hr =>
    exact stands_singleton.2 (stands_takes hL hs ht hr.took rfl (drop_kinds_of_refers ht hr) .nil
      rfl)
  | return_ ht _ hr hus ih =>
    have h₂ := (hs.takes ht).took hr.took
    exact stands_singleton.2 (stands_takes hL hs ht (hr.took.append (took_of_reads hus)) rfl
      (drop_kinds_of_refers ht hr) (ih h₂ hn rfl) rfl)
  | throw_ ht _ hu ih =>
    have hu' := stands_singleton.1 (ih (hs.takes ht) hn)
    exact stands_singleton.2 (stands_takes hL hs ht (took_of_reads hu) rfl ht.tail_kinds
      (.one hu'.measure) rfl)
  | parenthesized ht _ hu hclose ih =>
    have hu' := stands_singleton.1 (ih (hs.takes ht) hn)
    exact stands_singleton.2 (stands_takes hL hs ht ((took_of_reads hu).append hclose.took) rfl
      ht.tail_kinds (.one hu'.measure) hclose.tail_kinds)
  -- What follows.
  | qualified hu hdot _ ihu ihv =>
    have hu' := stands_singleton.1 (ihu hs hn)
    have hv' := stands_singleton.1 (ihv ((hs.reads hu).skips hdot) hn)
    exact stands_singleton.2 (stands_join rfl hu' hv' rfl rfl hdot.tail_kinds rfl rfl)
  | trailing hu ht _ ih =>
    have hu' := stands_singleton.1 (ih hs hn)
    exact stands_singleton.2 (stands_behind hL hs hu hu' ht.took rfl rfl (.one hu'.measure)
      ht.tail_kinds)
  | arrayAccess hu hopen hus hne hclose ihu ihus =>
    have hu' := stands_singleton.1 (ihu hs hn)
    obtain ⟨ks, hus', hks⟩ := ihus ((hs.reads hu).skips hopen) hn rfl
    refine stands_singleton.2 (stands_behind hL hs hu hu'
      (hopen.took.append ((took_of_reads hus).append hclose.took)) rfl rfl
      (.cons hu'.measure (hus'.congr ?_ (fun _ _ _ _ => rfl) fun hnil => absurd hnil hne))
      (pastMark_comma hks hclose (by decide)))
    exact fun _ _ => hopen.tail_kinds
  | call hu hus hvs _ ihu ihus ihvs =>
    have h₁ := hs.reads hu
    have hu' := stands_singleton.1 (ihu hs hn)
    have hus' := (ihus h₁ hn rfl).followed (ihvs (h₁.reads hus) hn rfl) fun _ _ _ => rfl
    exact stands_singleton.2 (stands_behind hL hs hu hu'
      ((took_of_reads hus).append (took_of_reads hvs)) rfl rfl
      (.cons hu'.measure (hus'.restart fun _ _ => rfl)) rfl)
  | memberCall ht _ hus hvs _ ihus ihvs =>
    have h₁ := (hs.takes ht).made
    have hname (name : String) :=
      stands_leaf (k := .nameReference name) hL hs ht rfl ht.tail_kinds rfl
    have hus' := (ihus h₁ hn rfl).followed (ihvs (h₁.reads hus) hn rfl) fun _ _ _ => rfl
    exact stands_singleton.2 (stands_from hL hs (ht.took.made.append
      ((took_of_reads hus).append (took_of_reads hvs))) rfl (hs.lexemesAfter_start hL ht) rfl
      (.cons (hname _).measure (hus'.restart fun _ _ => rfl)) rfl)
  -- What stands before.
  | leading ht _ hu ih | labeledLambda ht _ hu ih =>
    have hu' := stands_singleton.1 (ih (hs.takes ht) (Nat.le_of_succ_le hn))
    exact stands_singleton.2 (stands_takes hL hs ht (took_of_reads hu) rfl ht.tail_kinds
      (.one hu'.measure) rfl)
  | labeled ht _ hus ih =>
    exact stands_singleton.2 (stands_takes hL hs ht (took_of_reads hus) rfl ht.tail_kinds
      (ih (hs.takes ht) (Nat.le_of_succ_le hn) rfl) rfl)
  | annotated hes _ hus ihes ihus =>
    have hn := Nat.le_of_succ_le hn
    exact stands_singleton.2 (stands_position hL hs
      ((took_of_reads hes).append (took_of_reads hus)) rfl rfl
      ((ihes hs hn rfl).followed (ihus (hs.reads hes) hn rfl) fun _ _ _ => rfl) rfl)
  | annotatedLambda hes _ hu ihes ihu =>
    have hn := Nat.le_of_succ_le hn
    have hu' := stands_singleton.1 (ihu (hs.reads hes) hn)
    exact stands_singleton.2 (stands_position hL hs
      ((took_of_reads hes).append (took_of_reads hu)) rfl rfl
      ((ihes hs hn rfl).append (.one hu'.measure)) rfl)
  | annotatedDeclaration _ hes _ hu ihes ihu =>
    have hu' := stands_singleton.1 (ihu (hs.reads hes) hn)
    exact stands_singleton.2 (stands_position hL hs
      ((took_of_reads hes).append (took_of_reads hu)) rfl rfl
      ((ihes hs hn rfl).append (.one hu'.measure)) rfl)
  -- Declarations and statements.
  | parameter ht _ hus hvs ihus ihvs =>
    have h₁ := hs.takes ht
    have hus' := (ihus h₁ hn rfl).followed (ihvs (h₁.reads hus) hn rfl) fun _ _ _ => rfl
    exact stands_singleton.2 (stands_takes hL hs ht
      ((took_of_reads hus).append (took_of_reads hvs)) rfl ht.tail_kinds hus' rfl)
  | property ht _ hname _ hus hvs ihus ihvs =>
    have h₂ := (hs.takes ht).takes hname
    have hus' := (ihus h₂ hn rfl).followed (ihvs (h₂.reads hus) hn rfl) fun _ _ _ => rfl
    refine stands_singleton.2 (stands_takes hL hs ht
      (hname.took.append ((took_of_reads hus).append (took_of_reads hvs))) rfl ?_ hus' rfl)
    rw [NodeKind.pastHead, ht.kinds_rest, hname.kinds_rest]
    rfl
  | noLambdaHead => exact ⟨_, .nil, fun hk => by rw [if_pos rfl]; exact pastAfter_of_kind?_ne hk⟩
  | lambdaHead _ harrow ih => exact told_lambdaHead (ih hs hn) harrow
  | lambda hopen _ hps hus hclose hk ihps ihus =>
    have hn := Nat.le_of_succ_le hn
    have h₁ := hs.takes hopen
    exact stands_singleton.2 (stands_lambda hL hs hopen hps (ihps h₁ hn) hus
      (ihus (h₁.reads hps) hn) hclose hk)
  | block hopen _ hus hclose hk ih =>
    have hus' := ih (hs.takes hopen) (Nat.le_of_succ_le hn)
    exact stands_singleton.2 (stands_block hL hs hopen hus hus' hclose hk)
  | blockFunctionBody hu ih =>
    have hblock := kind_of_reads (q := (· = .block)) hu fun _ h => h
    refine .one ?_
    rw [hblock _ List.mem_cons_self]
    exact (stands_singleton.1 (ih hs hn)).measure
  | valueFunctionBody hus ih =>
    have hvalues := kind_of_reads (q := (·.isValue)) hus fun _ h => h
    refine (ih hs hn rfl).congr (fun u hu => ?_) (fun _ _ v hv => ?_) fun _ => rfl
    · exact if_neg (by simp [isBlock_of_isValue (hvalues u (List.mem_of_mem_head? hu))])
    · exact funext fun _ => if_neg (by simp [isBlock_of_isValue (hvalues v hv)])
  | function ht _ hm hnames hname hopen hps hclose hus hvs ihps ihus ihvs =>
    have h₃ := ((hs.takes ht).took hm.took).skips hopen
    have h₅ := (h₃.reads hps).skips hclose
    exact stands_singleton.2 (stands_function hL hs ht hm hnames hname hopen hps (ihps h₃ hn) hclose
      hus (ihus h₅ hn) hvs (ihvs (h₅.reads hus) hn))
  | directive ht hm hk hpast => exact stands_singleton.2 (stands_directive hL hs ht hm hk hpast)

/-! ## Files -/

theorem told_append {q : Phrase} (hq : q.isSingle) (hus : (Phrase.rows p).Told L s us s₁)
    (hvs : (Phrase.rows q).Told L s₁ vs s') : (Phrase.rows p).Told L s (us ++ vs) s' := by
  intro hp
  obtain ⟨ks₁, hus, hks₁⟩ := hus hp
  obtain ⟨ks₂, hvs, hks₂⟩ := hvs hq
  cases vs with
  | nil =>
    rw [← hvs.nil_inv] at hks₂
    exact ⟨ks₁, by rwa [List.append_nil], hks₁.trans hks₂⟩
  | cons v vs =>
    refine ⟨ks₂, hus.append (hvs.congr ?_ (fun _ _ _ _ => rfl) nofun), hks₂⟩
    exact fun _ _ => hks₁

/-- The children of a file have the spans that their outlines and the kinds of the lexemes tell. -/
theorem measured_of_readsFile (hL : InOrder 0 L) (h : ReadsFile n s u s') (hs : s.On L)
    (hn : n ≤ maxNesting) :
    (measureAll .file none (u.children.map Fragment.outline) (kinds s.rest)).1 =
      u.children.map (Fragment.measured L) := by
  obtain ⟨hps, his, hus⟩ := h
  have h₁ := hs.reads hps
  have h₂ := h₁.reads his
  have hheads := told_append rfl (measured_of_reads hL hps hs hn) (measured_of_reads hL his h₁ hn)
  obtain ⟨ks, hstrung, -⟩ := told_append rfl hheads (measured_of_reads hL hus h₂ hn) rfl
  exact congrArg Prod.fst (Strung.measureAll_eq (k := .file) hstrung)

end ResultHints
