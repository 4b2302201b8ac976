import ResultHints.Proofs.Document.Branch
import ResultHints.Proofs.Grammar.Entries

/-!
# The entries of a `when` line by line

The entries of a `when`, each in a line of its own, are read one by one (`exists_entriesRead`): the
branch of each is read as the document of its text alone. Main statement:

- `parse_whenText`: what is read of a `when` with names as conditions and an else entry at the end.
-/

namespace ResultHints

open Reader

/-- The lines of some entries, and the brace behind them. -/
def entriesText (es : List EntryText) : List Char := es.flatMap EntryText.text ++ ['}']

theorem entriesText_cons (e : EntryText) (es : List EntryText) :
    entriesText (e :: es) = e.text ++ entriesText es := by
  simp [entriesText]

/-- A `when` without a subject, with each entry in a line of its own. -/
def whenText (es : List EntryText) : List Char := "when \x7b".toList ++ '\n' :: entriesText es

/-- The tree is that of the entry, which begins at the given offset: the branch is that of its text
    alone, further behind. -/
structure EntryText.IsAt (e : EntryText) (offset : Nat) (t : Tree Shape) : Prop where
  kind : t.label.kind = .whenEntry e.name?.isNone
  children : ∃ d, Document.parse e.branch = .ok d ∧ t.children = e.conditions offset ++
    d.contents.map (Tree.map (Shape.shift (offset + byteLength e.front)))

/-- The trees are those of the entries, which begin at the given offset one below the other. -/
inductive EntriesAt : (offset : Nat) → List EntryText → List (Tree Shape) → Prop
  | nil (offset : Nat) : EntriesAt offset [] []
  | cons {offset : Nat} {e : EntryText} {es : List EntryText} {t : Tree Shape}
    {ts : List (Tree Shape)} : e.IsAt offset t →
    EntriesAt (offset + byteLength e.text) es ts → EntriesAt offset (e :: es) (t :: ts)

/-- The text can be read as a branch, with `n` levels of nesting. -/
def IsBranchText (n : Nat) (text : List Char) : Prop :=
  ∃ d, Document.parse text = .ok d ∧ d.IsBranch ∧ d.NestsWithin n

/-- At the end of the text stands no `if` that would take an `else` in the next line. -/
def HasNoOpenIf (text : List Char) : Prop := ∀ d, Document.parse text = .ok d → d.HasNoOpenIf

variable {es : List EntryText} {e : EntryText} {k n : Nat} {text : List Char} {d : Document}

theorem tokenize_of_parse (h : Document.parse text = .ok d) :
    tokenize text = .ok d.tokens.toList := by
  obtain ⟨tokens, us, y, htokens, -, rfl⟩ := parse_eq_ok.1 h
  exact htokens

/-- An entry that is one of several in lines is read. -/
theorem whenEntry_of_isBranch (before more : List Char) {tail : List Lexeme} (broken : Bool)
    (m i : Nat) (hd : Document.parse e.branch = .ok d) (hbranch : d.IsBranch)
    (hnests : d.NestsWithin k) (hle : k ≤ maxNesting) (hn : k ≤ n + 1)
    (htail : ∀ t ∈ tail.head?, t.afterBreak ∧ t.kind.follows)
    (helse : (∀ t ∈ tail.head?, t.kind ≠ .keyword .else_) ∨ d.HasNoOpenIf) :
    ∃ w y, whenEntry (.ofDepth (n + 1)) ⟨before ++ (e.text ++ more),
        e.first (byteLength before) broken :: e.arrow (byteLength before) ::
          (d.lexemes.map (Lexeme.shift (byteLength (before ++ e.front))) ++ tail), m, i⟩ = .ok w y ∧
      y.source = before ++ (e.text ++ more) ∧ y.rest = tail ∧
      e.IsAt (byteLength before) w.shapes := by
  have hsource : before ++ (e.text ++ more) = before ++ e.front ++ e.branch ++ '\n' :: more := by
    simp [EntryText.text]
  rw [hsource]
  obtain ⟨w, u, y, hread, ⟨hy, hrest, hshapes⟩, hkind, hchildren⟩ :=
    whenEntry_of_front (m := m) (i := i) e (byteLength before) broken fun i =>
      Document.controlBody_of_isBranch _ i hd hbranch hnests hle hn htail helse
  refine ⟨w, y.made, hread, hy, hrest, ?_, d, hd, ?_⟩
  · rw [Fragment.shapes, Tree.label_map]
    exact hkind
  · rw [Fragment.shapes, Tree.children_map, ← byteLength_append, ← hshapes]
    exact hchildren

/-- Entries one below the other are read where their lexemes stand behind other text, up to the
    brace behind them. -/
structure EntriesRead (n : Nat) (es : List EntryText) (L : List Lexeme) : Prop where
  head : ∀ t ∈ L.head?, t.afterBreak ∧ t.kind.follows ∧
    (t.kind = .keyword .else_ → ∃ e ∈ es.head?, e.name? = none)
  rows : ∀ before limit m i, L.length < limit → ∃ us y,
    rowsUpTo (· == some (.symbol .rightBrace)) (some (.symbol .rightBrace))
      (whenEntry (.ofDepth (n + 1))) limit
      ⟨before ++ entriesText es, L.map (Lexeme.shift (byteLength before)), m, i⟩ = .ok us y ∧
    y.source = before ++ entriesText es ∧
    (∃ t, y.rest = [t] ∧ t.kind = .symbol .rightBrace ∧ t.stop = byteLength y.source) ∧
    EntriesAt (byteLength before) es (us.map Fragment.shapes)

namespace EntriesRead

theorem nil : EntriesRead n [] [⟨⟨.symbol .rightBrace, 0, ['}']⟩, true⟩] where
  head := by
    rintro _ ⟨⟩
    exact ⟨rfl, rfl, nofun⟩
  rows before limit m i hlimit := by
    obtain ⟨limit, rfl⟩ : ∃ l, limit = l + 1 := ⟨limit - 1, by omega⟩
    refine ⟨[], _, rfl, rfl, ⟨_, rfl, rfl, ?_⟩, .nil _⟩
    rw [byteLength_append, Nat.add_comm]
    exact Lexeme.shift_stop (byteLength before) _

theorem cons {L : List Lexeme} (h : EntriesRead n es L) (hd : Document.parse e.branch = .ok d)
    (hbranch : d.IsBranch) (hnests : d.NestsWithin k) (hle : k ≤ maxNesting) (hn : k ≤ n + 1)
    (helse : ∀ e' ∈ es.head?, e'.name? = none → d.HasNoOpenIf) :
    EntriesRead n (e :: es) (e.first 0 true :: e.arrow 0 ::
      (d.lexemes.map (Lexeme.shift (byteLength e.front)) ++
        L.map (Lexeme.shift (byteLength e.text)))) where
  head := by
    rintro _ ⟨⟩
    exact ⟨rfl, e.follows_headKind, fun hk => ⟨e, rfl, e.name?_of_headKind hk⟩⟩
  rows before limit m i hlimit := by
    obtain ⟨limit, rfl⟩ : ∃ l, limit = l + 1 := ⟨limit - 1, by omega⟩
    simp only [List.length_cons, List.length_append, List.length_map] at hlimit
    have hnext : ∀ t ∈ (L.map (Lexeme.shift (byteLength (before ++ e.text)))).head?,
        t.afterBreak ∧ t.kind.follows ∧
          (t.kind = .keyword .else_ → ∃ e ∈ es.head?, e.name? = none) := by
      rw [List.head?_map]
      intro t ht
      obtain ⟨t', ht', rfl⟩ := Option.map_eq_some_iff.1 ht
      exact h.head t' ht'
    have hif : (∀ t ∈ (L.map (Lexeme.shift (byteLength (before ++ e.text)))).head?,
        t.kind ≠ .keyword .else_) ∨ d.HasNoOpenIf := by
      by_cases hnone : ∃ e' ∈ es.head?, e'.name? = none
      · obtain ⟨e', he', hname⟩ := hnone
        exact .inr (helse e' he' hname)
      · exact .inl fun t ht hk => hnone ((hnext t ht).2.2 hk)
    obtain ⟨w, y, hread, hsource, hrest, hentry⟩ := whenEntry_of_isBranch (n := n) before
      (entriesText es) true m i hd hbranch hnests hle hn
      (fun t ht => ⟨(hnext t ht).1, (hnext t ht).2.1⟩) hif
    have hy : y = ⟨before ++ e.text ++ entriesText es,
        L.map (Lexeme.shift (byteLength (before ++ e.text))), y.lastStop, y.nextId⟩ := by
      rw [List.append_assoc, ← hsource, ← hrest]
    obtain ⟨us, z, hus, hz, hbrace, hentries⟩ :=
      h.rows (before ++ e.text) limit y.lastStop y.nextId (by omega)
    rw [map_shift_entry, entriesText_cons]
    refine ⟨w :: us, z, ?_, by rw [hz, List.append_assoc], hbrace, .cons hentry ?_⟩
    · rw [← hy] at hus
      refine rowsUpTo_of_item (fun hk => ?_) (fun hk => ?_) hread
        (fun t ht => (hnext t (hrest ▸ ht)).1) hus <;>
      exact e.headKind_ne_symbol _ (Option.some.inj (beq_iff_eq.1 hk))
    · rwa [← byteLength_append]

end EntriesRead

/-- The entries one below the other are read, up to the brace behind them. -/
theorem exists_entriesRead (hle : k ≤ maxNesting) (hn : k ≤ n + 1)
    (hes : ∀ e ∈ es, IsBranchText k e.branch)
    (helse : es.IsChain fun e e' => e'.name? = none → HasNoOpenIf e.branch) :
    ∃ ts, tokenize (entriesText es) = .ok ts ∧ EntriesRead n es (lexemes true ts) := by
  induction es with
  | nil => exact ⟨[⟨.symbol .rightBrace, 0, ['}']⟩], rfl, .nil⟩
  | cons e es ih =>
    obtain ⟨tail, htail, hread⟩ := ih (fun e he => hes e (List.mem_cons_of_mem _ he)) helse.tail
    obtain ⟨d, hd, hbranch, hnests⟩ := hes e List.mem_cons_self
    obtain ⟨all, hall, hlexemes⟩ := tokenize_entry (tokenize_of_parse hd) htail
    refine ⟨all, entriesText_cons e es ▸ hall, hlexemes true ▸ hread.cons hd hbranch hnests hle hn ?_⟩
    exact fun e' he' hname => (List.isChain_cons.1 helse).1 e' he' hname d hd

/-! ## The `when` -/

/-- A `when` is read with the entries behind its opening brace. -/
theorem whenBranches_of_entriesRead {L : List Lexeme} (h : EntriesRead n es L) : ∃ u y,
    whenBranches (.ofDepth (n + 1)) ⟨whenText es,
      ⟨⟨.keyword .when_, 0, "when".toList⟩, false⟩ :: ⟨⟨.symbol .leftBrace, 5, ['{']⟩, false⟩ ::
        L.map (Lexeme.shift 7), 0, 0⟩ = .ok u y ∧ y.rest = [] ∧
    ∃ ts, u.shapes = .node ⟨.when_, ⟨0, byteLength (whenText es)⟩⟩ ts ∧ EntriesAt 7 es ts := by
  obtain ⟨us, z, hus, hz, ⟨t, hrest, hk, hstop⟩, hentries⟩ :=
    h.rows "when \x7b\n".toList (L.length + 1) 6 0 (Nat.lt_succ_self _)
  obtain ⟨source, rest, m, i⟩ := z
  obtain rfl : source = whenText es := hz
  obtain rfl : rest = [t] := hrest
  refine ⟨Cursor.node ⟨whenText es, [], t.stop, i⟩ 0 .when_ us, ⟨whenText es, [], t.stop, i + 1⟩,
    ?_, rfl, us.map Fragment.shapes, ?_, hentries⟩
  · have hrows : rows (· == some (.symbol .rightBrace)) (some (.symbol .rightBrace))
        (whenEntry (.ofDepth (n + 1))) ⟨whenText es, L.map (Lexeme.shift 7), 6, 0⟩ =
          .ok us ⟨whenText es, [t], m, i⟩ := by
      rw [rows_apply, Cursor.size, List.length_map]
      exact hus
    simp only [whenBranches, bind_eq_ok, get_eq_ok, discard_eq_ok]
    exact ⟨_, _, expect_of_takes (.mk ..) rfl, _, _, ⟨rfl, rfl⟩, _, _, rfl, (), _,
      ⟨_, expect_of_takes (.mk ..) rfl⟩, us, _, hrows, (), _, ⟨_, expect_of_takes (.mk ..) hk⟩, rfl⟩
  · have hspan : Cursor.spanFrom ⟨whenText es, [], t.stop, i⟩ 0 =
        ⟨0, byteLength (whenText es)⟩ :=
      congrArg (Span.mk 0) ((Nat.max_eq_left (Nat.zero_le _)).trans hstop)
    rw [Cursor.node, hspan, Fragment.shapes, Cursor.make, Tree.map_node]
    rfl

section File

variable {s y : Cursor} {u : Fragment}

/-- A text with a `when` up to its end is one statement. -/
theorem statement_of_whenBranches (hk : s.kind? = some (.keyword .when_))
    (h : whenBranches (.ofDepth (maxNesting - 1)) s = .ok u y) (hrest : y.rest = []) :
    statement .outermost s = .ok u y := by
  have hprimary : primary (.ofDepth (maxNesting - 1)) .lines s = .ok u y := by
    obtain ⟨source, _ | ⟨t, ts⟩, m, i⟩ := s
    · cases hk
    · simp only [primary, bind_eq_ok, get_eq_ok]
      refine ⟨_, _, ⟨rfl, rfl⟩, ?_⟩
      dsimp only
      rw [show t.kind = .keyword .when_ from Option.some.inj hk]
      exact h
  have hoperand : Inner.outermost.operand .lines s = .ok u y := by
    change operandLevel (.ofDepth (maxNesting - 1)) .lines _ = _
    simp only [operandLevel, bind_eq_ok, get_eq_ok]
    refine ⟨_, _, ⟨rfl, rfl⟩, ?_⟩
    rw [hk]
    simp only [suffixes, bind_eq_ok, get_eq_ok, Option.bind_eq_bind, Option.bind_some,
      TokenKind.leading?]
    exact ⟨_, _, hprimary, _, _, ⟨rfl, rfl⟩, suffixesUpTo_of_nil hrest _ _⟩
  simp only [statement, bind_eq_ok, get_eq_ok]
  refine ⟨_, _, ⟨rfl, rfl⟩, ?_⟩
  rw [hk]
  simp only [assignment, expression, bind_eq_ok, get_eq_ok]
  refine ⟨u, y, ⟨_, _, hoperand, _, _, ⟨rfl, rfl⟩, Inner.Sound.chain_of_none
    (Cursor.connective?_of_nil hrest _ _)⟩, _, _, ⟨rfl, rfl⟩, ?_⟩
  rw [Cursor.kind?_of_nil hrest]
  rfl

/-- A text with one statement that begins with a `when` holds that. -/
theorem fileContents_of_statement (hk : s.kind? = some (.keyword .when_))
    (h : statement .outermost s = .ok u y) (hrest : y.rest = []) :
    fileContents s = .ok [u] y := by
  have hno : ¬s.isAt (.symbol .semicolon) := by simp [Cursor.isAt, hk]
  have hsemi := semicolons_of_not_isAt hno
  have hpackage : packageDirective s = .ok [] s := by
    simp only [packageDirective, bind_eq_ok, get_eq_ok]
    refine ⟨_, _, hsemi, _, _, ⟨rfl, rfl⟩, ?_⟩
    rw [if_neg (by simp [Cursor.isAt, hk])]
    rfl
  have himports : rows (· != some (.keyword .import_)) none directive s = .ok [] s := by
    rw [rows_apply]
    exact rowsUpTo_of_stop hno (by simp [hk])
  have hsize : ∃ limit, s.size = limit + 1 := by
    obtain ⟨source, _ | ⟨t, ts⟩, m, i⟩ := s
    · cases hk
    · exact ⟨ts.length, rfl⟩
  have hbody : statements .outermost none s = .ok [u] y := by
    obtain ⟨limit, hsize⟩ := hsize
    rw [statements, rows_apply, hsize]
    refine rowsUpTo_of_item hno (by simp [hk]) h (by simp [hrest]) ?_
    exact rowsUpTo_of_stop (by simp [Cursor.isAt_of_nil hrest])
      (by simp [Cursor.kind?_of_nil hrest])
  simp only [fileContents, bind_eq_ok, pure_eq_ok]
  exact ⟨_, _, hpackage, _, _, himports, _, _, hbody, rfl, rfl⟩

end File

/-- A `when` is read entry by entry, if every branch can be read as one, and no `if` at its end
    would take the `else` of an entry in the next line. -/
theorem exists_parse_whenText (hk : k < maxNesting) (hes : ∀ e ∈ es, IsBranchText k e.branch)
    (helse : es.IsChain fun e e' => e'.name? = none → HasNoOpenIf e.branch) :
    ∃ d ts, Document.parse (whenText es) = .ok d ∧
      d.contents = [.node ⟨.when_, ⟨0, byteLength (whenText es)⟩⟩ ts] ∧ EntriesAt 7 es ts := by
  obtain ⟨tail, htail, hread⟩ := exists_entriesRead (n := maxNesting - 2) hk.le
    (Nat.le_of_lt_succ hk) hes helse
  obtain ⟨all, hall, hjoined⟩ :=
    tokenize_break (show tokenize "when \x7b".toList = .ok _ from rfl) htail
  obtain ⟨u, y, hwhen, hrest, ts, hshapes, hentries⟩ := whenBranches_of_entriesRead hread
  have hs : Cursor.ofTokens (whenText es) all = ⟨whenText es,
      ⟨⟨.keyword .when_, 0, "when".toList⟩, false⟩ :: ⟨⟨.symbol .leftBrace, 5, ['{']⟩, false⟩ ::
        (lexemes true tail).map (Lexeme.shift 7), 0, 0⟩ := by
    rw [Cursor.ofTokens, hjoined.lexemes_eq]
    rfl
  have hcontents : fileContents (.ofTokens (whenText es) all) = .ok [u] y := by
    rw [hs]
    exact fileContents_of_statement rfl (statement_of_whenBranches rfl hwhen hrest) hrest
  refine ⟨_, ts, parse_eq_ok.2 ⟨all, [u], y, hall, hcontents, rfl⟩, ?_, hentries⟩
  exact congrArg (fun t => [t]) hshapes

/-- The entries with the given names as conditions, and the else entry behind them. -/
def entriesOf (entries : List (WordName × List Char)) (last : List Char) : List EntryText :=
  entries.map (fun e => ⟨some e.1, e.2⟩) ++ [⟨none, last⟩]

/-- Of a `when` with a name, an arrow and a branch in each line, and an else entry in the last, the
    entries are read in this order: each holds its name as the condition and the tree of the text of
    its branch, which lies further behind. Every branch is one expression that needs fewer levels of
    nesting than there are; it does not begin with a brace, and ends with no label or annotation
    that would go on. An `if` at the end of the branch before the else entry has an else branch. -/
theorem parse_whenText {entries : List (WordName × List Char)} {last : List Char}
    (hk : k < maxNesting) (hentries : ∀ e ∈ entries, IsBranchText k e.2)
    (hlast : IsBranchText k last) (helse : ∀ e ∈ entries.getLast?, HasNoOpenIf e.2) :
    ∃ d ts, Document.parse (whenText (entriesOf entries last)) = .ok d ∧ d.contents =
        [.node ⟨.when_, ⟨0, byteLength (whenText (entriesOf entries last))⟩⟩ ts] ∧
      EntriesAt 7 (entriesOf entries last) ts := by
  refine exists_parse_whenText hk ?_ ?_
  · rw [entriesOf, List.forall_mem_append, List.forall_mem_map, List.forall_mem_singleton]
    exact ⟨hentries, hlast⟩
  · rw [entriesOf, List.isChain_append]
    refine ⟨?_, .singleton _, fun e he e' he' _ => ?_⟩
    · -- No entry with a condition is the else entry.
      rw [List.isChain_map]
      exact (List.pairwise_of_forall fun _ _ => nofun).isChain
    · rw [List.getLast?_map] at he
      obtain ⟨e₀, he₀, rfl⟩ := Option.map_eq_some_iff.1 he
      exact helse e₀ he₀

theorem isBranchText_of_any (h : (Document.parse text).toOption.any
    (fun d => decide (d.IsBranch ∧ d.NestsWithin k)) = true) : IsBranchText k text := by
  obtain ⟨d, hd, hp⟩ := exists_of_parse_any h
  exact ⟨d, hd, of_decide_eq_true hp⟩

theorem hasNoOpenIf_of_any (h : (Document.parse text).toOption.any
    (fun d => decide d.HasNoOpenIf) = true) : HasNoOpenIf text := by
  obtain ⟨d, hd, hp⟩ := exists_of_parse_any h
  intro d' hd'
  obtain rfl := Except.ok.inj (hd.symm.trans hd')
  exact of_decide_eq_true hp

/-- A sum and an `if` with both branches are branches of a `when`. -/
theorem parse_whenText_of_if :
    let entries : List (WordName × List Char) := [(⟨['c'], by decide⟩, "a + b".toList),
      (⟨['e'], by decide⟩, "if (b) f \x7b\x7d else z".toList)]
    (∀ e ∈ entries, IsBranchText 40 e.2) ∧ IsBranchText 40 "-w".toList ∧
      (∀ e ∈ entries.getLast?, HasNoOpenIf e.2) ∧
      whenText (entriesOf entries "-w".toList) =
        "when \x7b\nc -> a + b\ne -> if (b) f \x7b\x7d else z\nelse -> -w\n\x7d".toList ∧
      ∃ d ts, Document.parse (whenText (entriesOf entries "-w".toList)) = .ok d ∧
        d.contents = [.node ⟨.when_,
          ⟨0, byteLength (whenText (entriesOf entries "-w".toList))⟩⟩ ts] ∧
        EntriesAt 7 (entriesOf entries "-w".toList) ts := by
  intro entries
  have hentries : ∀ e ∈ entries, IsBranchText 40 e.2 := by
    refine List.forall_mem_cons.2 ⟨isBranchText_of_any (by decide +kernel),
      List.forall_mem_singleton.2 (isBranchText_of_any (by decide +kernel))⟩
  have hlast : IsBranchText 40 "-w".toList := isBranchText_of_any (by decide +kernel)
  have helse : ∀ e ∈ entries.getLast?, HasNoOpenIf e.2 := by
    rintro _ ⟨⟩
    exact hasNoOpenIf_of_any (by decide +kernel)
  exact ⟨hentries, hlast, helse, by decide +kernel,
    parse_whenText (by decide) hentries hlast helse⟩

/-- Behind `if (a) b` in the line before it, the `else` of the last entry is taken by the `if`, so
    that the arrow is not expected. -/
theorem parse_whenText_of_open_if :
    let entries : List (WordName × List Char) := [(⟨['c'], by decide⟩, "if (a) b".toList)]
    (∀ e ∈ entries, IsBranchText 40 e.2) ∧ IsBranchText 40 ['d'] ∧
      whenText (entriesOf entries ['d']) = "when \x7b\nc -> if (a) b\nelse -> d\n\x7d".toList ∧
      Document.parse (whenText (entriesOf entries ['d'])) = .error (.unexpectedToken "->" 26) := by
  intro entries
  refine ⟨List.forall_mem_singleton.2 (isBranchText_of_any (by decide +kernel)),
    isBranchText_of_any (by decide +kernel), by decide +kernel, ?_⟩
  have hparse : (match Document.parse (whenText (entriesOf entries ['d'])) with
      | .error fault => decide (fault = .unexpectedToken "->" 26)
      | .ok _ => false) = true := by decide +kernel
  split at hparse
  · rename_i fault h
    rw [h, of_decide_eq_true hparse]
  · cases hparse

end ResultHints
