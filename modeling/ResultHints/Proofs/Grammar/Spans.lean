import Mathlib.Data.List.Chain
import ResultHints.Proofs.Grammar.Layout
import ResultHints.Proofs.Grammar.Sound
import ResultHints.Proofs.Token.Tiling
import ResultHints.Proofs.Tree.Each

/-!
# The spans of what is read

A node covers lexemes: its span begins where one of them begins and ends where one
ends, and its children lie inside it one after the other (`Covers`). Only the
block of a lambda without statements covers none. Main statements:

- `spanned_of_reads`: of all that the grammar accepts, the nodes cover lexemes that
  were ahead, and lie one after the other;
- `covers_of_readsFile`: so do those of a file, which itself covers the whole text.
-/

namespace ResultHints

/-! ## One after the other -/

/-- The fragments lie one after the other between two offsets. -/
def Between : (lo hi : Nat) → List Fragment → Prop
  | lo, hi, [] => lo ≤ hi
  | lo, hi, u :: us => lo ≤ u.span.start ∧ u.span.start ≤ u.span.stop ∧ Between u.span.stop hi us

theorem Between.le {lo hi : Nat} {us : List Fragment} (h : Between lo hi us) : lo ≤ hi := by
  induction us generalizing lo with
  | nil => exact h
  | cons u us ih =>
    have := ih h.2.2
    have := h.1
    have := h.2.1
    omega

theorem Between.mono {lo lo' hi hi' : Nat} {us : List Fragment} (hlo : lo' ≤ lo) (hhi : hi ≤ hi')
    (h : Between lo hi us) : Between lo' hi' us := by
  induction us generalizing lo lo' with
  | nil => exact Nat.le_trans hlo (Nat.le_trans h hhi)
  | cons u us ih => exact ⟨Nat.le_trans hlo h.1, h.2.1, ih (Nat.le_refl _) h.2.2⟩

theorem Between.append {lo mid hi : Nat} {us vs : List Fragment} (h : Between lo mid us)
    (h' : Between mid hi vs) : Between lo hi (us ++ vs) := by
  induction us generalizing lo with
  | nil => exact h'.mono h (Nat.le_refl _)
  | cons u us ih => exact ⟨h.1, h.2.1, ih h.2.2⟩

/-- Each of the fragments lies between the offsets. -/
theorem Between.of_mem {lo hi : Nat} {us : List Fragment} (h : Between lo hi us) {u : Fragment}
    (hu : u ∈ us) : lo ≤ u.span.start ∧ u.span.stop ≤ hi := by
  induction us generalizing lo with
  | nil => exact absurd hu List.not_mem_nil
  | cons v vs ih =>
    have htail := h.2.2.le
    rcases List.mem_cons.1 hu with rfl | hu
    · exact ⟨h.1, htail⟩
    · have := ih h.2.2 hu
      exact ⟨Nat.le_trans (Nat.le_trans h.1 h.2.1) this.1, this.2⟩

theorem Between.pairwise {lo hi : Nat} {us : List Fragment} (h : Between lo hi us) :
    us.Pairwise fun u v => u.span.stop ≤ v.span.start := by
  induction us generalizing lo with
  | nil => exact .nil
  | cons u us ih => exact .cons (fun v hv => (h.2.2.of_mem hv).1) (ih h.2.2)

/-! ## Kinds -/

namespace NodeKind

/-- The kinds of the nodes that a lambda consists of, but for its block. -/
def isLambdaPart : NodeKind → Bool
  | lambda | functionLiteral => true
  | _ => false

/-- The kinds of the nodes that begin with a label. -/
def isLabel : NodeKind → Bool
  | labeled _ => true
  | _ => false

/-- The kinds of the nodes of which more is told than that they lie about their children. -/
def isPlaced (k : NodeKind) : Bool := k.isLambdaPart || k.isLabel

variable {k : NodeKind}

theorem isPlaced_of_isTyping (h : k.isTyping) : k.isPlaced = false := by
  cases k <;> first | rfl | cases h

theorem isPlaced_of_isEnclosed (h : k.isEnclosed) : k.isPlaced = false := by
  cases k <;> first | rfl | cases h

theorem isLambdaPart_of_isDirective (h : k.isDirective) : k.isLambdaPart = false := by
  cases k <;> first | rfl | cases h

end NodeKind

/-! ## Nodes over lexemes -/

/-- The span begins where a lexeme begins and ends where a later one ends, or the same one. -/
def Span.Delimited (ts : List Lexeme) (s : Span) : Prop :=
  (∃ t ∈ ts, t.start = s.start) ∧ (∃ t ∈ ts, t.stop = s.stop) ∧ s.start < s.stop

/-- In a function literal, the block without statements. -/
def IsEmptyBody (u v : Fragment) : Prop :=
  u.label.kind = .functionLiteral ∧ v.label.kind = .block ∧ v.children = []

/-- The children of a node lie inside it, one after the other, and cover lexemes. -/
structure Covers (ts : List Lexeme) (u : Fragment) : Prop where
  inside : Between u.span.start u.span.stop u.children
  delimited : ∀ v : Fragment, v ∈ u.children → ¬IsEmptyBody u v → v.span.Delimited ts
  /-- The block of a lambda without statements is the point before the closing brace. -/
  emptyBody : ∀ v : Fragment, v ∈ u.children → IsEmptyBody u v →
    ∃ t ∈ ts, t.kind = .symbol .rightBrace ∧ v.span = .point t.start ∧ t.stop = u.span.stop
  /-- A lambda covers the same as its function literal. -/
  literal : u.label.kind = .lambda → ∀ v : Fragment, v ∈ u.children → v.span = u.span
  /-- What is in a lambda lies strictly inside. -/
  strict : u.label.kind = .lambda → ∀ v ∈ u.children, ∀ w ∈ v.children,
    u.span.start < w.label.span.start ∧ w.label.span.stop < u.span.stop
  /-- A label stands before what it labels. -/
  labeled : u.label.kind.isLabel → ∀ v : Fragment, v ∈ u.children → u.span.start < v.span.start

theorem Span.Delimited.mono {ts ts' : List Lexeme} (hts : ts ⊆ ts') {r : Span}
    (h : r.Delimited ts) : r.Delimited ts' := by
  obtain ⟨⟨a, ha, ha'⟩, ⟨b, hb, hb'⟩, hlt⟩ := h
  exact ⟨⟨a, hts ha, ha'⟩, ⟨b, hts hb, hb'⟩, hlt⟩

theorem Covers.mono {ts ts' : List Lexeme} (hts : ts ⊆ ts') {u : Fragment} (h : Covers ts u) :
    Covers ts' u := by
  refine ⟨h.inside, fun v hv hne => (h.delimited v hv hne).mono hts, fun v hv he => ?_, h.literal,
    h.strict, h.labeled⟩
  obtain ⟨t, ht, hbrace⟩ := h.emptyBody v hv he
  exact ⟨t, hts ht, hbrace⟩

/-- A node that is no part of a lambda, over fragments that cover lexemes. -/
theorem covers_node {ts : List Lexeme} {a : Node} {us : List Fragment}
    (hk : a.kind.isLambdaPart = false) (hus : Between a.span.start a.span.stop us)
    (hts : ∀ u ∈ us, u.span.Delimited ts)
    (hlabel : a.kind.isLabel → ∀ u ∈ us, a.span.start < u.span.start) : Covers ts (.node a us) := by
  have hlambda : a.kind ≠ .lambda := fun h => by simp [h, NodeKind.isLambdaPart] at hk
  have hliteral : a.kind ≠ .functionLiteral := fun h => by simp [h, NodeKind.isLambdaPart] at hk
  exact ⟨hus, fun v hv _ => hts v hv, fun _ _ he => absurd he.1 hliteral,
    fun h => absurd h hlambda, fun h => absurd h hlambda, hlabel⟩

/-- A node of which nothing more is to be told. -/
theorem covers_plain {ts : List Lexeme} {a : Node} {us : List Fragment}
    (hk : a.kind.isPlaced = false) (hus : Between a.span.start a.span.stop us)
    (hts : ∀ u ∈ us, u.span.Delimited ts) : Covers ts (.node a us) := by
  obtain ⟨hpart, hlabel⟩ := Bool.or_eq_false_iff.1 hk
  exact covers_node hpart hus hts fun h => Bool.noConfusion (hlabel.symm.trans h)

/-! ## Between two cursors -/

namespace Cursor

variable {s s₁ s' : Cursor} {t : Lexeme} {ts : List Lexeme}

/-- The lexemes ahead come in order, after the last one taken. -/
def IsOrdered (s : Cursor) : Prop := InOrder s.lastStop s.rest

/-- The cursors stand at the same place. -/
structure SamePlace (s s' : Cursor) : Prop where
  rest : s'.rest = s.rest
  lastStop : s'.lastStop = s.lastStop

/-- The cursor only went forward. -/
structure Forward (s s' : Cursor) : Prop where
  source : s'.source = s.source
  ordered : s'.IsOrdered
  le : s.lastStop ≤ s'.lastStop
  subset : s'.rest ⊆ s.rest
  /-- Where it went on, it went past what was next. -/
  past : s.SamePlace s' ∨ s.position < s'.lastStop ∧ (∃ t ∈ s.rest, t.start = s.position) ∧
    ∃ t ∈ s.rest, t.stop = s'.lastStop

theorem Forward.refl (h : s.IsOrdered) : s.Forward s :=
  ⟨rfl, h, Nat.le_refl _, fun _ h => h, .inl ⟨rfl, rfl⟩⟩

/-- To make a node does not move the cursor. -/
theorem Forward.made (h : s.Forward s') : s.Forward s'.made :=
  ⟨h.source, h.ordered, h.le, h.subset, h.past.imp_left fun h => ⟨h.rest, h.lastStop⟩⟩

theorem Takes.forward (ht : s.Takes t s') (h : s.IsOrdered) : s.Forward s' := by
  cases ht with
  | mk source t ts n i =>
    obtain ⟨hle, hlt, hrest⟩ := h
    refine ⟨rfl, hrest, Nat.le_trans hle (Nat.le_of_lt hlt), List.subset_cons_self t ts,
      .inr ⟨hlt, ?_, ?_⟩⟩
    · exact ⟨t, List.mem_cons_self, rfl⟩
    · exact ⟨t, List.mem_cons_self, rfl⟩

theorem Forward.trans (h : s.Forward s₁) (h' : s₁.Forward s') : s.Forward s' := by
  refine ⟨h'.source.trans h.source, h'.ordered, Nat.le_trans h.le h'.le,
    fun _ ha => h.subset (h'.subset ha), ?_⟩
  obtain hsame | ⟨hlt, hstart, hstop⟩ := h.past
  · -- The second way begins at the place where the first one began.
    have hposition : s₁.position = s.position := by
      rw [position, position, hsame.rest, h.source]
    obtain hsame' | hpast := h'.past
    · exact .inl ⟨hsame'.rest.trans hsame.rest, hsame'.lastStop.trans hsame.lastStop⟩
    · rw [hposition, hsame.rest] at hpast
      exact .inr hpast
  · obtain hsame | ⟨-, -, t, ht, ht'⟩ := h'.past
    · rw [hsame.lastStop]
      exact .inr ⟨hlt, hstart, hstop⟩
    · exact .inr ⟨Nat.lt_of_lt_of_le hlt h'.le, hstart, t, h.subset ht, ht'⟩

theorem Moves.forward (hm : s.Moves ts s') (h : s.IsOrdered) : s.Forward s' := by
  induction hm with
  | nil => exact .refl h
  | cons ht _ ih => exact (ht.forward h).trans (ih (ht.forward h).ordered)

/-- Every lexeme ahead begins at the position of the cursor or after it. -/
theorem IsOrdered.position_le (h : s.IsOrdered) (ht : t ∈ s.rest) : s.position ≤ t.start := by
  obtain ⟨source, _ | ⟨u, us⟩, n, i⟩ := s
  · exact absurd ht List.not_mem_nil
  · obtain ⟨-, hlt, hrest⟩ := h
    rcases List.mem_cons.1 ht with rfl | ht
    · exact Nat.le_refl _
    · exact Nat.le_trans (Nat.le_of_lt hlt) (hrest.le_start ht)

end Cursor

/-- Some fragments lie between two cursors, and each of their nodes covers lexemes there. -/
structure Spanned (s : Cursor) (us : List Fragment) (s' : Cursor) : Prop where
  forward : s.Forward s'
  between : Between s.lastStop s'.lastStop us
  delimited : ∀ u ∈ us, u.span.Delimited s.rest
  covers : ∀ u ∈ us, u.Each (Covers s.rest)

/-- So they do if the lexemes ahead are in order. -/
def Spans (s : Cursor) (us : List Fragment) (s' : Cursor) : Prop := s.IsOrdered → Spanned s us s'

variable {s s₁ s₂ s' : Cursor} {t : Lexeme} {ts : List Lexeme} {k : NodeKind} {u v : Fragment}
  {us vs : List Fragment}

theorem spans_nil : Spans s [] s := fun ho => ⟨.refl ho, Nat.le_refl _, by simp, by simp⟩

theorem Cursor.Moves.spans (hm : s.Moves ts s') : Spans s [] s' :=
  fun ho => ⟨hm.forward ho, (hm.forward ho).le, by simp, by simp⟩

theorem Cursor.Takes.spans (ht : s.Takes t s') : Spans s [] s' := ht.moves.spans

theorem Cursor.Skips.spans {k : TokenKind} (hs : s.Skips k s') : Spans s [] s' := by
  obtain ⟨t, ht, -⟩ := hs
  exact ht.spans

theorem Cursor.Refers.spans {label : Option String} (h : s.Refers label s') : Spans s [] s' := by
  cases h with
  | none => exact spans_nil
  | some ht => exact ht.spans

theorem Spans.append (h : Spans s us s₁) (h' : Spans s₁ vs s') : Spans s (us ++ vs) s' := by
  intro ho
  have hu := h ho
  have hv := h' hu.forward.ordered
  refine ⟨hu.forward.trans hv.forward, hu.between.append hv.between, ?_, ?_⟩
  · refine List.forall_mem_append.2 ⟨hu.delimited, fun v hv' => ?_⟩
    exact (hv.delimited v hv').mono hu.forward.subset
  · refine List.forall_mem_append.2 ⟨hu.covers, fun v hv' => ?_⟩
    exact (hv.covers v hv').imp fun _ hc => hc.mono hu.forward.subset

theorem Spans.before (h : Spans s us s₁) (h' : Spans s₁ [] s') : Spans s us s' := by
  have := h.append h'
  rwa [List.append_nil] at this

/-- To make a node changes nothing for what was read. -/
theorem Spans.made (h : Spans s us s') : Spans s us s'.made := fun ho =>
  ⟨(h ho).forward.made, (h ho).between, (h ho).delimited, (h ho).covers⟩

/-! ## Nodes over what is read -/

theorem Spanned.position_le (h : Spanned s (u :: us) s') (ho : s.IsOrdered) :
    s.position ≤ u.span.start := by
  obtain ⟨⟨t, ht, hstart⟩, -, -⟩ := h.delimited u List.mem_cons_self
  exact hstart ▸ ho.position_le ht

/-- A node over fragments between two cursors, from where a lexeme ahead begins. -/
theorem spanned_node {a : Node} (h : Spanned s us s') (ho : s.IsOrdered)
    (hk : a.kind.isLambdaPart = false) (hstart : ∃ t ∈ s.rest, t.start = a.span.start)
    (hlt : a.span.start < s'.lastStop) (hus : Between a.span.start s'.lastStop us)
    (hlabel : a.kind.isLabel → ∀ u ∈ us, a.span.start < u.span.start)
    (hstop : a.span.stop = s'.lastStop) : Spanned s [.node a us] s' := by
  obtain ⟨t, ht, hstart⟩ := hstart
  have hle : s.lastStop ≤ a.span.start := hstart ▸ ho.le_start ht
  -- The cursor has gone on, as the node begins before its end and with a lexeme ahead.
  have hpast : ∃ t ∈ s.rest, t.stop = s'.lastStop := by
    obtain hsame | ⟨-, -, hstop⟩ := h.forward.past
    · rw [hsame.lastStop] at hlt
      exact absurd hlt (Nat.not_lt.2 hle)
    · exact hstop
  rw [← hstop] at hlt hpast hus
  have hspan : a.span.Delimited s.rest := ⟨⟨t, ht, hstart⟩, hpast, hlt⟩
  refine ⟨h.forward, ⟨hle, Nat.le_of_lt hlt, Nat.le_of_eq hstop⟩, ?_, ?_⟩
  · rw [List.forall_mem_singleton]
    exact hspan
  · rw [List.forall_mem_singleton]
    exact .node (covers_node hk hus h.delimited hlabel) h.covers

/-- A node from the offset of the lexeme that is taken first. -/
theorem Spans.node_takes (ht : s.Takes t s₁) (h : Spans s₁ us s')
    (hk : k.isLambdaPart = false) : Spans s [s'.node t.start k us] s'.made := by
  refine Spans.made fun ho => ?_
  have htake := ht.forward ho
  have hu := h htake.ordered
  have hstop : t.start < s₁.lastStop := by
    cases ht
    exact ho.2.1
  have hlt := Nat.lt_of_lt_of_le hstop hu.forward.le
  refine spanned_node ((ht.spans.append h) ho) ho hk ⟨t, ?_, rfl⟩ hlt
    (hu.between.mono (Nat.le_of_lt hstop) (Nat.le_refl _))
    (fun _ u hmem => Nat.lt_of_lt_of_le hstop (hu.between.of_mem hmem).1)
    (Nat.max_eq_left (Nat.le_of_lt hlt))
  cases ht
  exact List.mem_cons_self

/-- A node from the position of the cursor. -/
theorem Spans.node_position (h : Spans s us s') (hne : us ≠ []) (hk : k.isPlaced = false) :
    Spans s [s'.node s.position k us] s'.made := by
  obtain ⟨hpart, hlabel⟩ := Bool.or_eq_false_iff.1 hk
  refine Spans.made fun ho => ?_
  have hu := h ho
  obtain ⟨v, vs, rfl⟩ := List.exists_cons_of_ne_nil hne
  have hposition := hu.position_le ho
  obtain ⟨-, -, hlt⟩ := hu.delimited v List.mem_cons_self
  obtain ⟨hle, hv, hvs⟩ := hu.between
  have hlt : s.position < s'.lastStop := by
    have := hvs.le
    omega
  refine spanned_node hu ho hpart ?_ hlt ⟨hposition, hv, hvs⟩
    (fun h => Bool.noConfusion (hlabel.symm.trans h)) (Nat.max_eq_left (Nat.le_of_lt hlt))
  obtain hsame | ⟨-, hstart, -⟩ := hu.forward.past
  · have := hvs.le
    have := hsame.lastStop
    omega
  · exact hstart

/-- A node from the beginning of the first fragment in it. -/
theorem Spans.node_start (hu : Spans s [u] s₁) (h : Spans s₁ us s')
    (hk : k.isPlaced = false) : Spans s [s'.node u.span.start k (u :: us)] s'.made := by
  obtain ⟨hpart, hlabel⟩ := Bool.or_eq_false_iff.1 hk
  refine Spans.made fun ho => ?_
  have hall := (hu.append h) ho
  obtain ⟨hstart, -, hlt⟩ := (hu ho).delimited u List.mem_cons_self
  obtain ⟨-, hle, hus⟩ := hall.between
  have hlt := Nat.lt_of_lt_of_le hlt hus.le
  exact spanned_node hall ho hpart hstart hlt ⟨Nat.le_refl _, hle, hus⟩
    (fun h => Bool.noConfusion (hlabel.symm.trans h)) (Nat.max_eq_left (Nat.le_of_lt hlt))

theorem spans_join (hu : Spans s [u] s₁) (hv : Spans s₁ [v] s') (hk : k.isPlaced = false) :
    Spans s [s'.join k u v] s'.made := by
  refine Spans.made fun ho => ?_
  have hall := (hu.append hv) ho
  obtain ⟨hlo, hle, hmid, hle', hhi⟩ := hall.between
  obtain ⟨hstart, -, hlt⟩ := hall.delimited u (by simp)
  obtain ⟨-, hstop, -⟩ := hall.delimited v (by simp)
  have hspan : Span.Delimited s.rest ⟨u.span.start, v.span.stop⟩ :=
    ⟨hstart, hstop, Nat.lt_of_lt_of_le hlt (Nat.le_trans hmid hle')⟩
  refine ⟨hall.forward, ⟨hlo, Nat.le_of_lt hspan.2.2, hhi⟩, ?_, ?_⟩
  · rw [List.forall_mem_singleton]
    exact hspan
  · rw [List.forall_mem_singleton]
    refine .node (covers_plain hk ?_ hall.delimited) hall.covers
    exact ⟨Nat.le_refl _, hle, hmid, hle', Nat.le_refl _⟩

theorem spans_wrap (hu : Spans s [u] s') (hk : k.isPlaced = false) :
    Spans s [s'.wrap k u] s'.made := by
  refine Spans.made fun ho => ?_
  have hall := hu ho
  have hspan := hall.delimited u List.mem_cons_self
  refine ⟨hall.forward, hall.between, ?_, ?_⟩
  · rw [List.forall_mem_singleton]
    exact hspan
  · rw [List.forall_mem_singleton]
    refine .node (covers_plain hk ?_ hall.delimited) hall.covers
    exact ⟨Nat.le_refl _, Nat.le_of_lt hspan.2.2, Nat.le_refl _⟩

theorem spans_leaf (ht : s.Takes t s') (hk : k.isLambdaPart = false) :
    Spans s [s'.leaf k t] s'.made := by
  intro ho
  have hnode := Spans.node_takes ht spans_nil hk ho
  have hspan : s'.spanFrom t.start = t.span := by
    cases ht
    exact congrArg (Span.mk _) (Nat.max_eq_left (Nat.le_of_lt ho.2.1))
  rwa [Cursor.node, hspan] at hnode

/-! ## Lambdas -/

/-- Fragments lie between the beginning of the first and the end of the last. -/
theorem Between.shrink {lo hi : Nat} (h : Between lo hi us) (hlast : us.getLast? = some v) :
    Between lo v.span.stop us ∧ v.span.stop ≤ hi := by
  induction us generalizing lo with
  | nil => cases hlast
  | cons u us ih =>
    cases us with
    | nil =>
      obtain rfl : u = v := by simpa using hlast
      exact ⟨⟨h.1, h.2.1, Nat.le_refl _⟩, h.2.2⟩
    | cons w ws =>
      rw [List.getLast?_cons_cons] at hlast
      obtain ⟨hbetween, hle⟩ := ih h.2.2 hlast
      exact ⟨⟨h.1, h.2.1, hbetween⟩, hle⟩

/-- The block in a lambda lies before the closing brace, and covers its statements. -/
structure IsBody (ts : List Lexeme) (lo hi : Nat) (u : Fragment) : Prop where
  between : Between lo hi [u]
  covers : u.Each (Covers ts)
  isBlock : u.label.kind = .block
  delimited : u.children ≠ [] → u.span.Delimited ts
  point : u.children = [] → u.span = .point hi

theorem isBody_of_takes {closing : Lexeme} {i : NodeId} (h : Spans s us s₁)
    (ht : s₁.Takes closing s') (ho : s.IsOrdered) :
    IsBody s.rest s.lastStop closing.start (.node ⟨⟨.block, bodySpan closing us⟩, i⟩ us) := by
  have hus := h ho
  have hclosing : s₁.lastStop ≤ closing.start := by
    have := hus.forward.ordered
    cases ht
    exact this.1
  cases us with
  | nil =>
    -- Without statements the block is a point, and covers no lexeme.
    refine ⟨⟨Nat.le_trans hus.forward.le hclosing, Nat.le_refl _, Nat.le_refl _⟩, ?_, rfl,
      fun h => absurd rfl h, fun _ => rfl⟩
    exact .node (covers_plain rfl (Nat.le_refl _) (by simp)) (by simp)
  | cons u us =>
    obtain ⟨v, hv⟩ : ∃ v, (u :: us).getLast? = some v :=
      ⟨_, List.getLast?_eq_some_getLast (by simp)⟩
    have hspan : bodySpan closing (u :: us) = ⟨u.span.start, v.span.stop⟩ := by
      rw [bodySpan, hv]
      rfl
    have hmem := List.mem_of_getLast? hv
    obtain ⟨hbetween, hle⟩ := hus.between.shrink hv
    obtain ⟨hstart, -, hlt⟩ := hus.delimited u List.mem_cons_self
    obtain ⟨-, hstop, -⟩ := hus.delimited v hmem
    have hlt : u.span.start < v.span.stop := Nat.lt_of_lt_of_le hlt hbetween.2.2.le
    rw [hspan]
    refine ⟨⟨hbetween.1, Nat.le_of_lt hlt, Nat.le_trans hle hclosing⟩, ?_, rfl,
      fun _ => ⟨hstart, hstop, hlt⟩, nofun⟩
    exact .node (covers_plain rfl ⟨Nat.le_refl _, hbetween.2⟩ hus.delimited) hus.covers

theorem IsBody.mono {ts' : List Lexeme} {lo hi : Nat} (hts : ts ⊆ ts') (h : IsBody ts lo hi u) :
    IsBody ts' lo hi u :=
  ⟨h.between, h.covers.imp fun _ hc => hc.mono hts, h.isBlock,
    fun hne => (h.delimited hne).mono hts, h.point⟩

/-- A function literal over parameters and a block, up to the closing brace. -/
theorem covers_literal {closing : Lexeme} {lo : Nat} {a : Node} {ps : List Fragment}
    (hk : a.kind = .functionLiteral) (hclosing : closing ∈ ts)
    (hbrace : closing.kind = .symbol .rightBrace) (hstop : a.span.stop = closing.stop)
    (hle : closing.start ≤ closing.stop) (hps : Between a.span.start lo ps)
    (hdelimited : ∀ p ∈ ps, p.span.Delimited ts) (hblock : ∀ p ∈ ps, p.label.kind ≠ .block)
    (hbody : IsBody ts lo closing.start u) : Covers ts (.node a (ps ++ [u])) := by
  have hlambda : a.kind ≠ .lambda := fun h => NodeKind.noConfusion (hk.symm.trans h)
  have hlabel : a.kind.isLabel = false := by
    rw [hk]
    rfl
  refine ⟨?_, ?_, ?_, fun h => absurd h hlambda, fun h => absurd h hlambda,
    fun h => Bool.noConfusion (hlabel.symm.trans h)⟩
  · exact (hps.append hbody.between).mono (Nat.le_refl _) (hstop ▸ hle)
  · refine List.forall_mem_append.2 ⟨fun p hp _ => hdelimited p hp, ?_⟩
    rw [List.forall_mem_singleton]
    exact fun hne => hbody.delimited fun hnil => hne ⟨hk, hbody.isBlock, hnil⟩
  · refine List.forall_mem_append.2 ⟨fun p hp he => absurd he.2.1 (hblock p hp), ?_⟩
    rw [List.forall_mem_singleton]
    exact fun he => ⟨closing, hclosing, hbrace, hbody.point he.2.2, hstop.symm⟩

theorem spans_lambda {opening closing : Lexeme} {ps : List Fragment} (hopen : s.Takes opening s₁)
    (hps : Spans s₁ ps s₂) {s₃ : Cursor} (hus : Spans s₂ us s₃) (hclose : s₃.Takes closing s')
    (hk : closing.kind = .symbol .rightBrace) (hblock : ∀ p ∈ ps, p.label.kind ≠ .block) :
    Spans s [s'.made.made.make .lambda ⟨opening.start, closing.stop⟩
      [s'.made.make .functionLiteral ⟨opening.start, closing.stop⟩
        (ps ++ [s'.make .block (bodySpan closing us) us])]] s'.made.made.made := by
  refine Spans.made <| Spans.made <| Spans.made fun ho => ?_
  have hps' := hps (hopen.forward ho).ordered
  have hus' := hus hps'.forward.ordered
  have hall := (((hopen.spans.append hps).append hus).before hclose.spans) ho
  have hsub₁ := (hopen.forward ho).subset
  have hsub₂ : s₂.rest ⊆ s.rest := fun _ h => hsub₁ (hps'.forward.subset h)
  have hbody : IsBody s.rest s₂.lastStop closing.start (s'.make .block (bodySpan closing us) us) :=
    (isBody_of_takes hus hclose hps'.forward.ordered).mono hsub₂
  have hinside := hps'.between.append hbody.between
  have hopening : opening ∈ s.rest ∧ opening.start < s₁.lastStop := by
    cases hopen
    exact ⟨List.mem_cons_self, ho.2.1⟩
  have hclosing :
      closing ∈ s₃.rest ∧ closing.start < closing.stop ∧ s'.lastStop = closing.stop := by
    have := hus'.forward.ordered
    cases hclose
    exact ⟨List.mem_cons_self, this.2.1, rfl⟩
  have hmem : closing ∈ s.rest := hsub₂ (hus'.forward.subset hclosing.1)
  have hlt : opening.start < closing.stop := by
    have := hinside.le
    omega
  have hspan : Span.Delimited s.rest ⟨opening.start, closing.stop⟩ :=
    ⟨⟨opening, hopening.1, rfl⟩, ⟨closing, hmem, rfl⟩, hlt⟩
  have hliteral : (s'.made.make .functionLiteral ⟨opening.start, closing.stop⟩
      (ps ++ [s'.make .block (bodySpan closing us) us])).Each (Covers s.rest) := by
    refine .node (covers_literal rfl hmem hk rfl (Nat.le_of_lt hclosing.2.1)
      (hps'.between.mono (Nat.le_of_lt hopening.2) (Nat.le_refl _))
      (fun p hp => (hps'.delimited p hp).mono hsub₁) hblock hbody) ?_
    refine List.forall_mem_append.2 ⟨fun v hv => ?_, ?_⟩
    · exact (hps'.covers v hv).imp fun _ hc => hc.mono hsub₁
    · rw [List.forall_mem_singleton]
      exact hbody.covers
  refine ⟨hall.forward, ⟨ho.le_start hopening.1, Nat.le_of_lt hlt, ?_⟩, ?_, ?_⟩
  · exact Nat.le_of_eq hclosing.2.2.symm
  · rw [List.forall_mem_singleton]
    exact hspan
  · rw [List.forall_mem_singleton]
    refine .node ⟨⟨Nat.le_refl _, Nat.le_of_lt hlt, Nat.le_refl _⟩, ?_, ?_, ?_, ?_,
      fun h => Bool.noConfusion h⟩ ?_
    · intro v hv _
      rw [List.mem_singleton.1 hv]
      exact hspan
    · exact fun v _ he => NodeKind.noConfusion he.1
    · intro _ v hv
      rw [List.mem_singleton.1 hv]
      rfl
    · -- What is in the literal lies between the braces.
      intro _ v hv w hw
      obtain rfl := List.mem_singleton.1 hv
      obtain ⟨hle, hge⟩ := hinside.of_mem hw
      exact ⟨Nat.lt_of_lt_of_le hopening.2 hle, Nat.lt_of_le_of_lt hge hclosing.2.1⟩
    · rw [List.forall_mem_singleton]
      exact hliteral

theorem spans_block {opening closing : Lexeme} (hopen : s.Takes opening s₁) (hus : Spans s₁ us s₂)
    (hclose : s₂.Takes closing s') :
    Spans s [s'.make .block ⟨opening.start, closing.stop⟩ us] s'.made := by
  intro ho
  have hnode := Spans.node_takes hopen (hus.before hclose.spans) (k := .block) rfl ho
  have hspan : s'.spanFrom opening.start = ⟨opening.start, closing.stop⟩ := by
    have hlt := (hnode.delimited _ List.mem_cons_self).2.2
    have hstop : s'.lastStop = closing.stop := by
      cases hclose
      rfl
    change opening.start < max s'.lastStop opening.start at hlt
    rw [Cursor.spanFrom, ← hstop]
    congr 1
    omega
  rwa [Cursor.node, hspan] at hnode

/-! ## All that is accepted -/

/-- The parameters of a lambda are no blocks. -/
theorem ne_block_of_lambdaHead {n : Nat} (h : Reads n .lambdaHead s us s') :
    ∀ u ∈ us, u.label.kind ≠ .block := by
  intro u hu hk
  have hparameter : u.outline.label.isParameter := (laid_of_reads h u hu).2
  rw [Fragment.outline, Tree.label_map, hk] at hparameter
  cases hparameter

/-- Of all that is accepted, the nodes cover lexemes that were ahead, and lie one after the
    other. -/
theorem spanned_of_reads {n : Nat} {p : Phrase} (h : Reads n p s us s') : Spans s us s' := by
  induction h with
  | absent | unmarked | noMore | noItem | noRow | noLambdaHead => exact spans_nil
  | present _ ih | lastItem _ ih | chainStart _ ih | value _ ih | blockBody _ ih | valueBody _ ih
  | lambdaAlone _ ih | suffixStart _ ih | plainOperand _ ih | plainLambda _ ih
  | blockFunctionBody _ ih | valueFunctionBody _ ih | declaration _ ih
  | assignmentStatement _ ih => exact ih
  | marked hs _ ih | semicolon hs _ ih | lateElseBranch hs _ ih => exact hs.spans.append ih
  | more _ _ ihu ihs | row _ _ _ ihu ihs => exact ihu.append ihs
  | item _ hs _ ihu ihs => exact (ihu.before hs.spans).append ihs
  | typeReference hm hne =>
    cases hm with
    | nil => exact absurd rfl hne
    | cons ht hm =>
      rw [ht.position]
      exact Spans.node_takes ht hm.spans rfl
  -- Expressions and assignments.
  | binary _ ht _ _ _ _ ihu ihv | assignment _ ht _ _ ihu ihv =>
    exact spans_join ihu (ht.spans.append ihv) rfl
  | typing _ ht _ hmade _ _ _ ihu ihv =>
    exact spans_join ihu (ht.spans.append ihv) (NodeKind.isPlaced_of_isTyping hmade)
  -- Arguments.
  | argument _ ih | lambdaArgument _ _ ih | valueCondition _ ih =>
    exact ih.node_position (by simp) rfl
  | namedArgument ht _ hs _ ih =>
    rw [ht.position]
    exact Spans.node_takes ht (hs.spans.append ih) rfl
  | argumentList ht _ _ hs ih => exact Spans.node_takes ht (ih.before hs.spans) rfl
  | annotationEntry ht _ _ ih => exact Spans.node_takes ht ih rfl
  -- Branches and loops.
  | enclosed hk hs _ hs' ih =>
    have hwrap := spans_wrap (ih.before hs'.spans) (NodeKind.isPlaced_of_isEnclosed hk)
    exact hs.spans.append hwrap
  | elseBranch hs _ ih => exact hs.spans.append (spans_wrap ih rfl)
  | ifElse ht _ _ _ _ _ ihc ihb ihes =>
    have hthen := spans_wrap ihb (k := .thenBranch) rfl
    exact Spans.node_takes ht (ihc.append (hthen.append ihes)) rfl
  | typeCondition ht _ _ ih | membershipCondition ht _ _ ih =>
    rw [ht.position]
    exact Spans.node_takes ht ih rfl
  | elseEntry hs hs' _ ih =>
    obtain ⟨t, ht, -⟩ := hs
    rw [ht.position]
    exact Spans.node_takes ht (hs'.spans.append ih) rfl
  | whenEntry _ _ hs _ ihcs ihb =>
    exact (ihcs.append (hs.spans.append ihb)).node_position (by simp) rfl
  | when_ ht _ _ hs _ hs' ihus ihes =>
    exact Spans.node_takes ht (ihus.append (hs.spans.append (ihes.before hs'.spans))) rfl
  | forLoop ht _ hopen hname _ hin _ hclose _ ihu ihb =>
    have hrange := spans_wrap (ihu.before hclose.spans) (k := .loopRange) rfl
    have hbody := spans_wrap ihb (k := .loopBody) rfl
    have hhead := hopen.spans.append (hname.spans.append (hin.spans.append hrange))
    exact Spans.node_takes ht (hhead.append hbody) rfl
  | whileLoop ht _ _ _ ihc ihb =>
    have hbody := spans_wrap ihb (k := .loopBody) rfl
    exact Spans.node_takes ht (ihc.append hbody) rfl
  -- What stands alone.
  | literal ht | name ht | memberName ht => exact spans_leaf ht rfl
  | this ht _ hr | break_ ht _ hr | continue_ ht _ hr => exact Spans.node_takes ht hr.spans rfl
  | return_ ht _ hr _ ih => exact Spans.node_takes ht (hr.spans.append ih) rfl
  | throw_ ht _ _ ih => exact Spans.node_takes ht ih rfl
  | parenthesized ht _ _ hs ih => exact Spans.node_takes ht (ih.before hs.spans) rfl
  -- What follows.
  | qualified _ hs _ ihu ihv => exact spans_join ihu (hs.spans.append ihv) rfl
  | trailing _ ht _ ih => exact ih.node_start ht.spans rfl
  | arrayAccess _ hs _ _ hs' ihu ihus =>
    exact ihu.node_start (hs.spans.append (ihus.before hs'.spans)) rfl
  | call _ _ _ _ ihu ihus ihvs => exact ihu.node_start (ihus.append ihvs) rfl
  | memberCall ht _ _ _ _ ihus ihvs =>
    exact (spans_leaf ht rfl).node_start (ihus.append ihvs) rfl
  -- What stands before.
  | leading ht _ _ ih | labeled ht _ _ ih | labeledLambda ht _ _ ih =>
    exact Spans.node_takes ht ih rfl
  | annotated _ hne _ ihes ihus =>
    exact (ihes.append ihus).node_position (by simp [hne]) rfl
  | annotatedLambda _ _ _ ihes ihu | annotatedDeclaration _ _ _ _ ihes ihu =>
    exact (ihes.append ihu).node_position (by simp) rfl
  -- Declarations and statements.
  | parameter ht _ _ _ ihus ihvs => exact Spans.node_takes ht (ihus.append ihvs) rfl
  | lambdaHead _ hs ih => exact ih.before hs.spans
  | lambda hopen _ hps _ hclose hk ihps ihus =>
    exact spans_lambda hopen ihps ihus hclose hk (ne_block_of_lambdaHead hps)
  | block hopen _ _ hclose _ ih => exact spans_block hopen ih hclose
  | function ht _ hm _ _ hopen _ hclose _ _ ihps ihus ihvs =>
    rw [List.append_assoc]
    have hps := hm.spans.append (hopen.spans.append ihps)
    exact Spans.node_takes ht (hps.append (hclose.spans.append (ihus.append ihvs))) rfl
  | property ht _ hname _ _ _ ihus ihvs =>
    exact Spans.node_takes ht (hname.spans.append (ihus.append ihvs)) rfl
  | directive ht hm hk =>
    exact Spans.node_takes ht hm.spans (NodeKind.isLambdaPart_of_isDirective hk)

/-- What was read and the lexemes ahead lie in the text. -/
structure Cursor.IsInside (s : Cursor) : Prop where
  lastStop : s.lastStop ≤ byteLength s.source
  rest : ∀ t ∈ s.rest, t.stop ≤ byteLength s.source

theorem Cursor.Forward.lastStop_le (h : s.Forward s') (hs : s.IsInside) :
    s'.lastStop ≤ byteLength s'.source := by
  rw [h.source]
  obtain hsame | ⟨-, -, t, ht, hstop⟩ := h.past
  · rw [hsame.lastStop]
    exact hs.lastStop
  · rw [← hstop]
    exact hs.rest t ht

/-- The nodes of a file cover lexemes, and the file itself the whole text. -/
theorem covers_of_readsFile {n : Nat} (h : ReadsFile n s u s') (ho : s.IsOrdered)
    (hs : s.IsInside) : u.Each (Covers s.rest) ∧ u.span = ⟨0, byteLength s.source⟩ := by
  obtain ⟨hps, his, hus⟩ := h
  have hall :=
    ((spanned_of_reads hps).append (spanned_of_reads his)).append (spanned_of_reads hus) ho
  refine ⟨.node (covers_plain rfl ?_ hall.delimited) hall.covers, ?_⟩
  · exact hall.between.mono (Nat.zero_le _) (hall.forward.lastStop_le hs)
  · exact congrArg (fun text => Span.mk 0 (byteLength text)) hall.forward.source

end ResultHints
