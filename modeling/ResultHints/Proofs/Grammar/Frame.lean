import ResultHints.Proofs.Grammar.Layout
import ResultHints.Proofs.Token.Join

/-!
# A text in a longer one

A *frame* is a longer text around a text: what stands before the text, and the lexemes
after it, which begin on a line of their own and with what may stand behind a statement.
What is seen ahead of a cursor in the text is mostly what is seen ahead of the cursor at the
same place in the longer text (`Frame.cursor`). It may be different where the text ends, or
only one of its lexemes is left; the conditions under which it does not matter there are
those of `Frame.Ends` on the place, and of `Frame.Fit` on the nodes.
-/

namespace ResultHints

namespace TokenKind

/-- The kinds of lexemes that may come first behind a statement and any semicolons after it: those
    that another one begins with, a brace that closes what is around both, and an `else`. -/
def follows : TokenKind → Bool
  | symbol .rightBrace | keyword .else_ => true
  | k => k.begins

/-- The kinds of lexemes that come inside of statements only. -/
def isInner (k : TokenKind) : Bool := !k.follows && k != .symbol .semicolon

/-- The kinds of lexemes that tell by themselves what they are: no dot, which takes a name along,
    no semicolon, which may take an `else` along, and no label or annotation, which may stand before
    a lambda. -/
def isPlain (k : TokenKind) : Bool :=
  k != .symbol .dot && k != .symbol .semicolon && k != .annotationName && k != .labelDefinition

theorem follows_of_begins {k : TokenKind} (h : k.begins) : k.follows := by
  unfold follows
  split <;> first | rfl | exact h

end TokenKind

namespace Cursor

variable {s : Cursor}

theorem rest_eq_nil_of_size (h : s.size ≤ 0) : s.rest = [] :=
  List.eq_nil_of_length_eq_zero (Nat.le_zero.1 h)

theorem kind?_of_nil (h : s.rest = []) : s.kind? = none := by
  rw [kind?, h]
  rfl

theorem isAt_of_nil (h : s.rest = []) (k : TokenKind) : s.isAt k = false := by
  rw [isAt, kind?_of_nil h]
  rfl

theorem atClosing_of_nil (h : s.rest = []) : s.atClosing := by
  rw [atClosing, kind?_of_nil h]

theorem connective?_of_nil (h : s.rest = []) (m : Layout) (least : Precedence) :
    s.connective? m least = none := by
  rw [connective?, kind?_of_nil h]
  rfl

end Cursor

namespace Fragment

/-- A label or annotations before nothing. -/
def isBare (u : Fragment) : Bool :=
  match u.label.kind with
  | .labeled _ => u.children.isEmpty
  | .annotated => u.children.all fun v => v.label.kind.isAnnotationEntry
  | _ => false

/-- A function without a body. -/
def isBodiless (u : Fragment) : Bool :=
  match u.label.kind with
  | .function _ => u.children.all fun v => !v.label.kind.isExpression
  | _ => false

/-- An `if` without an else branch. -/
def isOpenIf (u : Fragment) : Bool :=
  match u.label.kind with
  | .ifElse => u.children.all fun v => v.label.kind != .elseBranch
  | _ => false

end Fragment

/-- A longer text around a text. -/
structure Frame where
  /-- The longer text. -/
  source : List Char
  /-- The offset where the text begins. -/
  offset : Nat
  /-- The number of nodes that are made before those of the text. -/
  ids : Nat
  /-- The lexemes after the text. -/
  tail : List Lexeme
  /-- The offset in the text where its last lexeme ends. -/
  stop : Nat
  afterBreak : ∀ t ∈ tail.head?, t.afterBreak
  /-- After any semicolons, what follows the text may stand behind a statement. -/
  follows : ∀ t ∈ (tail.dropWhile fun t => t.kind == .symbol .semicolon).head?, t.kind.follows

namespace Frame

variable (f : Frame)

/-- What follows the text, if anything does, is cut off from it by a semicolon. -/
def Closes : Prop := ∀ t ∈ f.tail.head?, t.kind = .symbol .semicolon

/-- What follows the text is an `else`, maybe after a semicolon. -/
def ElseFollows : Prop := Cursor.elseAhead ⟨f.source, f.tail, 0, 0⟩

/-- The cursor in the longer text. -/
def cursor (s : Cursor) : Cursor :=
  ⟨f.source, s.rest.map (Lexeme.shift f.offset) ++ f.tail, s.lastStop + f.offset, s.nextId + f.ids⟩

/-- The node in the longer text. -/
def node (a : Node) : Node := ⟨⟨a.kind, a.span.shift f.offset⟩, a.id + f.ids⟩

/-- The fragment in the longer text. -/
def fragment (u : Fragment) : Fragment := u.map f.node

/-- A node that is read in the longer text as well. -/
structure Fit (u : Fragment) : Prop where
  text : ∀ text, u.label.kind = .typeReference text →
    text = String.ofList (slice f.source (u.span.shift f.offset))
  /-- What could stand before the lexemes after the text does not, or they are cut off. -/
  bare : u.isBare → f.Closes ∨ u.span.stop < f.stop
  /-- An `else` after the text is not that of an `if` at its end. -/
  openIf : u.isOpenIf → ¬f.ElseFollows ∨ u.span.stop < f.stop

/-- A function without a body does not end where the text does, or the text is cut off. -/
def Bodied (u : Fragment) : Prop := u.isBodiless → f.Closes ∨ u.span.stop < f.stop

/-- Fragments that are read in the longer text as well. -/
def Fits (us : List Fragment) : Prop := ∀ u ∈ us, u.Each f.Fit

/-- Where a phrase ends, the longer text does not go on with it. -/
structure Ends (m : Layout) (s : Cursor) : Prop where
  /-- At the end of the text, a line break counts. -/
  layout : s.rest = [] → m = .lines ∧ f.stop ≤ s.lastStop
  /-- A dot is not the last lexeme. -/
  dot : kinds s.rest ≠ [.symbol .dot]
  /-- Nor is a semicolon that an `else` follows. -/
  semicolon : kinds s.rest = [.symbol .semicolon] → ¬f.ElseFollows
  /-- A label or an annotation on the same line stands before a lambda. -/
  wrapper : s.atBreak m = false → s.isAt .annotationName ∨ s.isAt .labelDefinition →
    s.lambdaAhead

variable {f} {m : Layout} {s s' : Cursor} {t : Lexeme} {ts : List Lexeme} {k : TokenKind}
  {u v : Fragment} {us vs : List Fragment}

/-! ## Nodes -/

@[simp] theorem fits_nil : f.Fits [] := by simp [Fits]

theorem Fits.of_mem (h : f.Fits us) (hu : u ∈ us) : f.Fits [u] :=
  List.forall_mem_singleton.2 (h u hu)

theorem fits_cons : f.Fits (u :: us) ↔ f.Fits [u] ∧ f.Fits us := by simp [Fits]

theorem fits_append : f.Fits (us ++ vs) ↔ f.Fits us ∧ f.Fits vs := List.forall_mem_append

theorem fits_node {a : Node} : f.Fits [.node a us] ↔ f.Fit (.node a us) ∧ f.Fits us := by
  rw [Fits, List.forall_mem_singleton]
  exact ⟨fun h => ⟨h.self, fun v hv => h.child hv⟩, fun h => .node h.1 h.2⟩

@[simp] theorem span_fragment : (f.fragment u).span = u.span.shift f.offset := by
  rw [Fragment.span, fragment, Tree.label_map]
  rfl

theorem fragment_make (k : NodeKind) (span : Span) (us : List Fragment) :
    f.fragment (s.make k span us) =
      (f.cursor s).make k (span.shift f.offset) (us.map f.fragment) := by
  rw [fragment, Cursor.make, Tree.map_node]
  rfl

theorem cursor_made : f.cursor s.made = (f.cursor s).made := by
  simp only [cursor, Cursor.made, Nat.add_right_comm]

theorem spanFrom_cursor (start : Nat) :
    (f.cursor s).spanFrom (start + f.offset) = (s.spanFrom start).shift f.offset := by
  simp only [Cursor.spanFrom, cursor, Span.shift, Nat.add_max_add_right]

/-! ## The next lexeme -/

theorem rest_cursor (h : s.rest = t :: ts) :
    (f.cursor s).rest = t.shift f.offset :: (ts.map (Lexeme.shift f.offset) ++ f.tail) := by
  rw [cursor, h]
  rfl

/-- At the end of the text, one sees what follows it. -/
theorem rest_cursor_nil (h : s.rest = []) : (f.cursor s).rest = f.tail := by
  rw [cursor, h]
  rfl

theorem follows_of_tail (ht : t ∈ f.tail.head?) :
    t.kind = .symbol .semicolon ∨ t.kind.follows := by
  have hbegins := f.follows
  cases htail : f.tail with
  | nil =>
    rw [htail] at ht
    cases ht
  | cons u us =>
    rw [htail] at ht hbegins
    cases ht
    by_cases hk : t.kind = .symbol .semicolon
    · exact .inl hk
    · rw [List.dropWhile_cons_of_neg (by simpa using hk)] at hbegins
      exact .inr (hbegins t rfl)

theorem isInner_of_tail (ht : t ∈ f.tail.head?) : ¬t.kind.isInner := by
  intro hk
  rw [TokenKind.isInner, Bool.and_eq_true, Bool.not_eq_true', bne_iff_ne] at hk
  obtain h | h := follows_of_tail ht
  · exact hk.2 h
  · rw [hk.1] at h
    cases h

theorem kind?_cursor (h : s.rest ≠ []) : (f.cursor s).kind? = s.kind? := by
  obtain ⟨t, ts, hrest⟩ := List.exists_cons_of_ne_nil h
  rw [Cursor.kind?, Cursor.kind?, rest_cursor hrest, hrest]
  rfl

theorem isAt_cursor (h : s.rest ≠ []) (k : TokenKind) : (f.cursor s).isAt k = s.isAt k := by
  rw [Cursor.isAt, Cursor.isAt, kind?_cursor h]

/-- No lexeme of an inner kind comes right after the text. -/
theorem kind?_cursor_ne (h : s.rest = []) (hk : k.isInner) : (f.cursor s).kind? ≠ some k := by
  rw [Cursor.kind?, rest_cursor_nil h]
  intro heq
  obtain ⟨t, ht, rfl⟩ := Option.map_eq_some_iff.1 heq
  exact isInner_of_tail ht hk

/-- After the text cut off by a semicolon, nothing else is seen. -/
theorem isAt_cursor_of_closes (h : s.rest = [] → f.Closes) (hk : k ≠ .symbol .semicolon) :
    (f.cursor s).isAt k = s.isAt k := by
  by_cases hrest : s.rest = []
  · rw [Cursor.isAt_of_nil hrest, Cursor.isAt, Cursor.kind?, rest_cursor_nil hrest]
    refine beq_false_of_ne fun heq => ?_
    obtain ⟨t, ht, rfl⟩ := Option.map_eq_some_iff.1 heq
    exact hk (h hrest t ht)
  · exact isAt_cursor hrest k

theorem isAt_cursor_of_isInner (hk : k.isInner) : (f.cursor s).isAt k = s.isAt k := by
  by_cases h : s.rest = []
  · rw [Cursor.isAt_of_nil h, Cursor.isAt]
    exact beq_false_of_ne (kind?_cursor_ne h hk)
  · exact isAt_cursor h k

theorem position_cursor (h : s.rest ≠ []) : (f.cursor s).position = s.position + f.offset := by
  obtain ⟨t, ts, hrest⟩ := List.exists_cons_of_ne_nil h
  rw [Cursor.position, Cursor.position, rest_cursor hrest, hrest]
  rfl

theorem atBreak_cursor (h : s.rest ≠ []) (m : Layout) :
    (f.cursor s).atBreak m = s.atBreak m := by
  obtain ⟨t, ts, hrest⟩ := List.exists_cons_of_ne_nil h
  rw [Cursor.atBreak, Cursor.atBreak, rest_cursor hrest, hrest]
  rfl

/-- The lexemes after the text come after a line break. -/
theorem atBreak_cursor_nil (h : s.rest = []) (htail : f.tail ≠ []) :
    (f.cursor s).atBreak .lines := by
  obtain ⟨t, ts, hrest⟩ := List.exists_cons_of_ne_nil htail
  rw [Cursor.atBreak, rest_cursor_nil h, hrest]
  exact f.afterBreak t (by rw [hrest]; rfl)

/-! ## What decides how a phrase goes on -/

/-- Where something is seen only in inner kinds of lexemes, it is not seen after the text. -/
theorem bind_kind?_cursor {α : Type} {g : TokenKind → Option α}
    (hg : ∀ k : TokenKind, k.isInner = false → g k = none) :
    (f.cursor s).kind? >>= g = s.kind? >>= g := by
  by_cases h : s.rest = []
  · rw [Cursor.kind?_of_nil h, Cursor.kind?, rest_cursor_nil h]
    cases htail : f.tail.head? with
    | none => rfl
    | some t => exact hg t.kind (Bool.eq_false_iff.2 (isInner_of_tail htail))
  · rw [kind?_cursor h]

theorem assignment?_cursor :
    (f.cursor s).kind? >>= TokenKind.assignment? = s.kind? >>= TokenKind.assignment? := by
  refine bind_kind?_cursor fun k hk => ?_
  cases k with
  | symbol mark => cases mark <;> first | rfl | cases hk
  | _ => rfl

/-- An operator that may begin a statement does not go on with the line before. -/
theorem connective?_cursor (h : s.rest = [] → m = .lines) (least : Precedence) :
    (f.cursor s).connective? m least = s.connective? m least := by
  by_cases hrest : s.rest = []
  · rw [Cursor.connective?_of_nil hrest, Cursor.connective?, h hrest]
    by_cases htail : f.tail = []
    · simp [Cursor.kind?, rest_cursor_nil hrest, htail]
    · obtain ⟨t, ts, htail'⟩ := List.exists_cons_of_ne_nil htail
      rw [atBreak_cursor_nil hrest htail, Cursor.kind?, rest_cursor_nil hrest, htail']
      have hinner := isInner_of_tail (f := f) (t := t) (by rw [htail']; rfl)
      have hline : t.kind.continuesLine = false := by
        generalize t.kind = k at hinner
        cases k with
        | symbol mark => cases mark <;> first | rfl | exact absurd rfl hinner
        | _ => rfl
      simp [hline]
  · rw [Cursor.connective?, Cursor.connective?, kind?_cursor hrest, atBreak_cursor hrest]

theorem atClosing_cursor (h : s.rest ≠ [] ∨ f.Closes) :
    (f.cursor s).atClosing = s.atClosing := by
  by_cases hrest : s.rest = []
  · rw [Cursor.atClosing_of_nil hrest, Cursor.atClosing, Cursor.kind?, rest_cursor_nil hrest]
    have hcloses := h.resolve_left (not_not_intro hrest)
    cases htail : f.tail.head? with
    | none => rfl
    | some t =>
      rw [Option.map_some, hcloses t htail]
  · rw [Cursor.atClosing, Cursor.atClosing, kind?_cursor hrest]

theorem atValueEnd_cursor (h : s.rest = [] → m = .lines) :
    (f.cursor s).atValueEnd m = s.atValueEnd m := by
  by_cases hrest : s.rest = []
  · have hyes : s.atValueEnd m = true := by
      simp [Cursor.atValueEnd, Cursor.atClosing_of_nil hrest]
    rw [hyes, h hrest]
    by_cases htail : f.tail = []
    · simp [Cursor.atValueEnd, Cursor.atClosing, Cursor.kind?, rest_cursor_nil hrest, htail]
    · rw [Cursor.atValueEnd, atBreak_cursor_nil hrest htail, Bool.true_or, Bool.true_or,
        Bool.true_or]
  · rw [Cursor.atValueEnd, Cursor.atValueEnd, atBreak_cursor hrest, isAt_cursor hrest,
      isAt_cursor hrest, atClosing_cursor (.inl hrest)]

/-- No lexeme of an inner kind is the second one where the first is the last of the text. -/
theorem secondKind?_cursor (h : s.rest ≠ []) (hk : k.isInner) :
    ((f.cursor s).secondKind? == some k) = (s.secondKind? == some k) := by
  obtain ⟨t, _ | ⟨t', ts⟩, hrest⟩ := List.exists_cons_of_ne_nil h
  · have hno : ∀ t' ∈ f.tail.head?, t'.kind ≠ k := by
      rintro t' ht' rfl
      exact isInner_of_tail ht' hk
    rw [List.head?_eq_getElem?] at hno
    simpa [Cursor.secondKind?, rest_cursor hrest, hrest, Option.map_eq_some_iff] using hno
  · simp [Cursor.secondKind?, rest_cursor hrest, hrest]

theorem elseAhead_of_rest {c : Cursor} (h : c.rest = f.tail) : c.elseAhead ↔ f.ElseFollows := by
  rw [ElseFollows, Cursor.elseAhead, Cursor.elseAhead, Cursor.isAt, Cursor.isAt, Cursor.kind?,
    Cursor.secondKind?, h]
  rfl

/-- An `else` is ahead in the longer text where it is in the text, unless one follows the text. -/
theorem elseAhead_cursor (hnil : s.rest = [] → ¬f.ElseFollows)
    (hsemi : kinds s.rest = [.symbol .semicolon] → ¬f.ElseFollows) :
    (f.cursor s).elseAhead = s.elseAhead := by
  obtain ⟨source, _ | ⟨t, _ | ⟨u, ts⟩⟩, stop, i⟩ := s
  · exact Bool.eq_false_iff.2 (mt (elseAhead_of_rest (rest_cursor_nil rfl)).1 (hnil rfl))
  · rw [Cursor.elseAhead, Cursor.elseAhead, isAt_cursor (by simp), isAt_cursor (by simp)]
    refine congrArg _ (Bool.eq_iff_iff.2 ⟨fun h => ?_, fun h => ?_⟩)
    · -- Behind the semicolon there is what follows the text.
      rw [Bool.and_eq_true, Cursor.isAt, beq_iff_eq, beq_iff_eq] at h
      refine absurd ?_ (hsemi (congrArg (fun k => [k]) (Option.some.inj h.1)))
      rw [ElseFollows, Cursor.elseAhead, Cursor.isAt, Cursor.kind?, List.head?_eq_getElem?]
      exact Bool.or_eq_true_iff.2 (.inl (beq_iff_eq.2 h.2))
    · simp [Cursor.secondKind?] at h
  · rw [Cursor.elseAhead, Cursor.elseAhead, isAt_cursor (by simp), isAt_cursor (by simp)]
    rfl

/-! ## Looking further ahead -/

theorem afterAnnotations_append {place : EntryPlace} (h : afterAnnotations place ts ≠ [])
    (us : List Lexeme) :
    afterAnnotations place (ts.map (Lexeme.shift f.offset) ++ us) =
      (afterAnnotations place ts).map (Lexeme.shift f.offset) ++ us := by
  fun_induction afterAnnotations place ts <;> simp_all [afterAnnotations]

/-- The kinds that are seen after annotations are seen there in the longer text. -/
theorem prefix_afterAnnotations_cursor {ks : List TokenKind} (hne : ks ≠ [])
    (h : ks <+: kinds (afterAnnotations .before s.rest)) :
    ks <+: kinds (afterAnnotations .before (f.cursor s).rest) := by
  have hrest : afterAnnotations .before s.rest ≠ [] := by
    intro hnil
    rw [hnil] at h
    exact hne (List.prefix_nil.1 h)
  rw [cursor, afterAnnotations_append hrest, kinds, List.map_append, List.map_map]
  exact h.trans (List.prefix_append _ _)

theorem lambdaAhead_iff : s.lambdaAhead ↔
    [.symbol .leftBrace] <+: kinds (afterAnnotations .before s.rest) ∨
      [.labelDefinition, .symbol .leftBrace] <+: kinds (afterAnnotations .before s.rest) := by
  rw [Cursor.lambdaAhead]
  generalize kinds (afterAnnotations .before s.rest) = ks
  constructor
  · intro h
    split at h
    · exact .inr ⟨_, rfl⟩
    · exact .inl ⟨_, rfl⟩
    · cases h
  · rintro (⟨ks, rfl⟩ | ⟨ks, rfl⟩) <;> rfl

theorem lambdaAhead_cursor_of_lambdaAhead (h : s.lambdaAhead) : (f.cursor s).lambdaAhead := by
  rw [lambdaAhead_iff] at h ⊢
  exact h.imp (prefix_afterAnnotations_cursor (by simp)) (prefix_afterAnnotations_cursor (by simp))

theorem rest_ne_nil_of_lambdaAhead (h : s.lambdaAhead) : s.rest ≠ [] := by
  intro hnil
  simp [Cursor.lambdaAhead, hnil, afterAnnotations, kinds] at h

/-- Before neither a label nor an annotation, a lambda is ahead if its brace comes next. -/
theorem lambdaAhead_of_plain (ha : ¬s.isAt .annotationName) (hl : ¬s.isAt .labelDefinition) :
    s.lambdaAhead = s.isAt (.symbol .leftBrace) := by
  rw [Bool.eq_iff_iff, lambdaAhead_iff, Inner.Sound.afterAnnotations_of_not_isAt ha]
  obtain ⟨source, _ | ⟨t, ts⟩, stop, i⟩ := s
  · simp [kinds, Cursor.isAt, Cursor.kind?]
  · simp only [Cursor.isAt, Cursor.kind?, List.head?_cons, Option.map_some, beq_iff_eq,
      Option.some.injEq] at hl
    simp only [kinds, Cursor.isAt, Cursor.kind?, List.map_cons, List.head?_cons, Option.map_some,
      List.cons_prefix_cons, List.nil_prefix, and_true, Ne.symm hl, false_and, or_false,
      beq_iff_eq, Option.some.injEq]
    exact eq_comm

theorem lambdaAhead_cursor (h : f.Ends m s) :
    (!(f.cursor s).atBreak m && (f.cursor s).lambdaAhead) = (!s.atBreak m && s.lambdaAhead) := by
  by_cases hrest : s.rest = []
  · have hno : s.lambdaAhead = false :=
      Bool.eq_false_iff.2 fun hyes => rest_ne_nil_of_lambdaAhead hyes hrest
    rw [hno, Bool.and_false, (h.layout hrest).1]
    by_cases htail : f.tail = []
    · have hno : (f.cursor s).lambdaAhead = false :=
        Bool.eq_false_iff.2 fun hyes =>
          rest_ne_nil_of_lambdaAhead hyes (by rw [rest_cursor_nil hrest, htail])
      rw [hno, Bool.and_false]
    · rw [atBreak_cursor_nil hrest htail]
      rfl
  · rw [atBreak_cursor hrest]
    cases hbreak : s.atBreak m with
    | true => rfl
    | false =>
      rw [Bool.not_false, Bool.true_and, Bool.true_and]
      by_cases hahead : s.lambdaAhead
      · rw [hahead, lambdaAhead_cursor_of_lambdaAhead hahead]
      · have hplain := mt (h.wrapper hbreak) hahead
        rw [not_or] at hplain
        rw [lambdaAhead_of_plain hplain.1 hplain.2, lambdaAhead_of_plain, isAt_cursor hrest]
        · rw [isAt_cursor hrest]
          exact hplain.1
        · rw [isAt_cursor hrest]
          exact hplain.2

theorem declarationAhead_iff : s.declarationAhead ↔
    ∃ k : Keyword, (k = .fun_ ∨ k = .val_ ∨ k = .var_) ∧
      [.keyword k] <+: kinds (afterAnnotations .before s.rest) := by
  rw [Cursor.declarationAhead]
  generalize kinds (afterAnnotations .before s.rest) = ks
  constructor
  · intro h
    split at h
    · exact ⟨.fun_, .inl rfl, _, rfl⟩
    · exact ⟨.val_, .inr (.inl rfl), _, rfl⟩
    · exact ⟨.var_, .inr (.inr rfl), _, rfl⟩
    · cases h
  · rintro ⟨k, rfl | rfl | rfl, ks, rfl⟩ <;> rfl

theorem declarationAhead_cursor_of_declarationAhead (h : s.declarationAhead) :
    (f.cursor s).declarationAhead := by
  rw [declarationAhead_iff] at h ⊢
  obtain ⟨k, hk, h⟩ := h
  exact ⟨k, hk, prefix_afterAnnotations_cursor (by simp) h⟩

/-- Parameters are not looked for behind a closing brace. -/
theorem parametersAhead_append (h : ∃ t ∈ ts, t.kind = .symbol .rightBrace) (us : List Lexeme) :
    parametersAhead (ts.map (Lexeme.shift f.offset) ++ us) = parametersAhead ts := by
  induction ts with
  | nil => simp at h
  | cons t ts ih =>
    rw [List.map_cons, List.cons_append, parametersAhead.eq_def, parametersAhead.eq_def (t :: ts)]
    dsimp only [Lexeme.shift_kind]
    by_cases hk : t.kind = .symbol .rightBrace
    · rw [hk]
    · have hts : ∃ t ∈ ts, t.kind = .symbol .rightBrace := by simpa [hk] using h
      rw [ih hts]

theorem lastSegment_append (name : Lexeme)
    (hdot : kinds (Reader.lastSegment name ts).2 ≠ [.symbol .dot]) :
    Reader.lastSegment (name.shift f.offset) (ts.map (Lexeme.shift f.offset) ++ f.tail) =
      ((Reader.lastSegment name ts).1.shift f.offset,
        (Reader.lastSegment name ts).2.map (Lexeme.shift f.offset) ++ f.tail) := by
  fun_induction Reader.lastSegment name ts with
  | case1 name dot t ts hk ih =>
    rw [List.map_cons, List.map_cons, List.cons_append, List.cons_append,
      Reader.lastSegment.eq_def]
    exact (if_pos hk).trans (ih hdot)
  | case2 name dot t ts hk =>
    rw [List.map_cons, List.map_cons, List.cons_append, List.cons_append,
      Reader.lastSegment.eq_def]
    exact if_neg hk
  | case3 name ts hts =>
    -- What is left is no name after a dot, nor is it with what follows the text.
    rw [Reader.lastSegment.eq_def]
    split
    · rename_i dot t us heq
      have hne : dot.kind ≠ .symbol .dot := by
        intro hk
        obtain _ | ⟨last, _ | ⟨t, ts⟩⟩ := ts
        · exact isInner_of_tail (f := f) (t := dot) (by rw [show f.tail = _ from heq]; rfl)
            (by rw [hk]; rfl)
        · obtain ⟨rfl, -⟩ := List.cons.inj heq
          exact hdot (by rw [kinds, List.map_singleton]; exact congrArg (fun k => [k]) hk)
        · exact hts _ _ _ rfl
      rw [if_neg fun hk => hne hk.1, ← heq]
    · rfl

/-! ## The ends of phrases -/

/-- To make a node does not move the cursor. -/
theorem ends_made : f.Ends m s.made ↔ f.Ends m s :=
  ⟨fun h => ⟨h.layout, h.dot, h.semicolon, h.wrapper⟩,
    fun h => ⟨h.layout, h.dot, h.semicolon, h.wrapper⟩⟩

/-- A phrase ends before a lexeme of a plain kind. -/
theorem ends_of_isPlain (h : s.rest = t :: ts) (hk : t.kind.isPlain) : f.Ends m s := by
  simp only [TokenKind.isPlain, Bool.and_eq_true, bne_iff_ne] at hk
  obtain ⟨⟨⟨hdot, hsemi⟩, hannotation⟩, hlabel⟩ := hk
  refine ⟨?_, ?_, ?_, ?_⟩
  · intro hnil
    rw [h] at hnil
    cases hnil
  · intro hkinds
    rw [h] at hkinds
    exact hdot (List.cons.inj hkinds).1
  · intro hkinds
    rw [h] at hkinds
    exact absurd (List.cons.inj hkinds).1 hsemi
  · rintro - (hat | hat) <;>
      simp only [Cursor.isAt, Cursor.kind?, h, List.head?_cons, Option.map_some, beq_iff_eq,
        Option.some.injEq] at hat
    · exact absurd hat hannotation
    · exact absurd hat hlabel

end Frame

end ResultHints
