import Mathlib.Order.Basic
import ResultHints.Proofs.Document.Regular
import ResultHints.Proofs.Parser.Body
import ResultHints.Proofs.Parser.Discipline

/-!
# Parsing terminates

The loops of the parser have limits, and the procedures that open a level have fuel. Neither is
ever used up: what the parser does for a rule is what the body of the rule says, which knows of
none of them (`Rule.run_eq_body`). As a rule only makes calls after a lexeme was taken, or calls
of lower rank, this determines what the parser does. Main statement:

- `Rule.terminates`: the procedures take lexemes, the calls come to an end, and so does the parser
  on every source text, all lexemes of which are taken if it gives a document.
-/

namespace ResultHints

open Run (Concur Gains look)

namespace Rule

variable {n : Nat} {r : Rule} {s s' : Session} {g : Rules} {c : Calls}

/-! ## Limits of loops -/

/-- The limit of a loop is not used up if a turn takes a lexeme before the loop goes on: with as
    many turns as there are lexemes ahead, or one more, it does one turn and goes on as it likes. -/
theorem eq_turn {ι β : Type} (up : Nat → ι → Run β) (loop : ι → Run β)
    (turn : (ι → Run β) → ι → Run β) (extra : Nat)
    (hloop : ∀ i s', loop i s' = up (s'.now.cursor.size + extra) i s')
    (hstep : ∀ n i, up (n + 1) i = turn (up n) i)
    (hend : extra = 0 → ∀ i s', s'.now.cursor.size = 0 → up 0 i s' = turn loop i s')
    (hturn : ∀ rest rest' i s', s.Onward 0 s' →
      (∀ i, Gains s' 1 (rest i) (rest' i) fun _ => 1) →
      Concur s' (fun _ => 0) (turn rest i s') (turn rest' i s')) (i : ι) :
    loop i s = turn loop i s := by
  have hall (n : Nat) : ∀ i s', s.Onward 0 s' → s'.now.cursor.size + extra ≤ n →
      Concur s' (fun _ => 0) (up n i s') (turn loop i s') := by
    induction n using Nat.strong_induction_on with
    | _ n ih =>
      intro i s' hs' hn
      cases n with
      | zero =>
        rw [hend (by omega) i s' (by omega)]
        refine hturn _ _ i s' hs' fun i s'' hs'' => ?_
        -- Nothing is ahead, so no turn goes on.
        have := hs''.size_add_le
        omega
      | succ n =>
        rw [hstep]
        refine hturn _ _ i s' hs' fun i s'' hs'' => ?_
        have hsize := hs''.size_add_le
        have honward : s.Onward 0 s'' := hs'.trans (hs''.of_le (Nat.zero_le 1))
        have hlimited := ih n (Nat.lt_succ_self n) i s'' honward (by omega)
        have hagain := ih _ (by omega) i s'' honward (Nat.le_refl (s''.now.cursor.size + extra))
        rw [hloop, hagain.eq, ← hlimited.eq]
        exact hlimited.left.before hs'' fun _ => Nat.le_refl 1
  rw [hloop]
  exact (hall _ i s (.refl s) (Nat.le_refl _)).eq

/-! ### Loops at the end of a text -/

section AtEnd

variable {α β : Type} {kind : TokenKind} {mark : Symbol}

theorem rest_eq_nil (h : s.now.cursor.size = 0) : s.now.cursor.rest = [] :=
  List.length_eq_zero_iff.1 h

theorem kind?_of_end (h : s.now.cursor.size = 0) : s.now.cursor.kind? = none := by
  rw [Cursor.kind?, rest_eq_nil h]
  rfl

theorem isAt_of_end (kind : TokenKind) (h : s.now.cursor.size = 0) :
    s.now.cursor.isAt kind = false := by
  rw [Cursor.isAt, kind?_of_end h]
  rfl

theorem accept_bind_of_end {f : Option Lexeme → Run β} (h : s.now.cursor.size = 0) :
    (Run.accept kind >>= f) s = f none s := by
  rw [Run.accept, bind_assoc]
  change ((if s.now.cursor.isAt kind = true then _ else _ : Run (Option Lexeme)) >>= f) s = _
  rw [isAt_of_end kind h, if_neg Bool.false_ne_true, pure_bind]

theorem accepts_bind_of_end {f : Bool → Run β} (h : s.now.cursor.size = 0) :
    (Run.accepts mark >>= f) s = f false s := by
  rw [Run.accepts, bind_assoc, accept_bind_of_end h]
  rfl

theorem semicolonsTurn_of_end {rest : Run Unit} (h : s.now.cursor.size = 0) :
    semicolonsTurn rest s = (pure () : Run Unit) s :=
  accepts_bind_of_end h

theorem pathTurn_of_end {rest : Run String} (h : s.now.cursor.size = 0) :
    pathTurn rest s = (pure "" : Run String) s :=
  accepts_bind_of_end h

theorem entriesTurn_of_end {argumentList : Run Fragment} {rest : Run (List Fragment)}
    (h : s.now.cursor.size = 0) :
    entriesTurn argumentList rest s = (pure [] : Run (List Fragment)) s :=
  accept_bind_of_end h

theorem segmentTurn_of_end {rest : Lexeme → Run Lexeme} (name : Lexeme)
    (h : s.now.cursor.size = 0) : segmentTurn rest name s = (pure name : Run Lexeme) s := by
  change (if s.now.cursor.isAt (.symbol .dot) && _ then _ else _ : Run Lexeme) s = _
  rw [isAt_of_end _ h]
  rfl

theorem chainTurn_of_end {type : Run Fragment} {binary : Precedence → Run Fragment}
    {rest : Precedence → Fragment → Run Fragment} (least : Precedence) (left : Fragment)
    (h : s.now.cursor.size = 0) :
    chainTurn type binary rest least left s = (pure left : Run Fragment) s := by
  have hnone : s.now.cursor.connective? s.now.layout least = none := by
    rw [Cursor.connective?, kind?_of_end h]
    rfl
  simp [chainTurn, look, bind, EStateM.bind, hnone]

theorem atBreak_of_end (h : s.now.cursor.size = 0) : s.now.atBreak = false := by
  simp [Parser.atBreak, Cursor.atBreak, rest_eq_nil h]

theorem callOf_of_end (callee : Fragment) (h : s.now.cursor.size = 0) :
    Run.callOf? c callee s = (pure none : Run (Option Fragment)) s := by
  have hlambda : s.now.cursor.lambdaAhead = false := by
    simp [Cursor.lambdaAhead, rest_eq_nil h, afterAnnotations, kinds]
  simp [Run.callOf?, Run.optionally, look, bind, EStateM.bind, pure, EStateM.pure, atBreak_of_end h,
    isAt_of_end _ h, hlambda]

theorem suffixesTurn_of_end {member : Run Fragment} {indices : Run (List Fragment)}
    {rest : Fragment → Run Fragment} (e : Fragment) (h : s.now.cursor.size = 0) :
    suffixesTurn member indices (Run.callOf? c) rest e s = (pure e : Run Fragment) s := by
  simp [suffixesTurn, look, bind, EStateM.bind, pure, EStateM.pure, atBreak_of_end h,
    kind?_of_end h, callOf_of_end e h]

end AtEnd

/-! ### Loops as their turns -/

section Loops

variable {α : Type} {item : Run α}

theorem items_eq_turn (stop : Option TokenKind)
    (hitem : ∀ s', s.Onward 0 s' → Gains s' 0 item item fun _ => 1) :
    Run.items stop item s = itemsTurn stop item (Run.items stop item) s :=
  eq_turn (fun n (_ : Unit) => Run.itemsUpTo stop item n) (fun _ => Run.items stop item)
    (fun rest _ => itemsTurn stop item (rest ())) 1 (fun _ _ => rfl) (fun _ _ => rfl) nofun
    (fun _ _ _ s' hs' hrest => ((gains_itemsTurn stop (hitem s' hs') (hrest ())).of_le fun _ =>
      Nat.zero_le _).concur) ()

theorem rows_eq_turn (stop : Option TokenKind → Bool) (closing : Option TokenKind)
    (hsemicolons : ∀ s', s.Onward 0 s' → Gains s' 0 Run.semicolons Run.semicolons fun _ => 0)
    (hitem : ∀ s', s.Onward 0 s' → Gains s' 0 item item fun _ => 1) :
    Run.rows stop closing item s =
      rowsTurn stop closing Run.semicolons item (Run.rows stop closing item) s :=
  eq_turn (fun n (_ : Unit) => Run.rowsUpTo stop closing item n)
    (fun _ => Run.rows stop closing item)
    (fun rest _ => rowsTurn stop closing Run.semicolons item (rest ())) 1 (fun _ _ => rfl)
    (fun _ _ => rfl) nofun
    (fun _ _ _ s' hs' hrest =>
      (gains_rowsTurn stop closing (hsemicolons s' hs') (hitem s' hs') (hrest ())).concur) ()

theorem semicolons_eq_turn : Run.semicolons s = semicolonsTurn Run.semicolons s :=
  eq_turn (fun n (_ : Unit) => Run.semicolonsUpTo n) (fun _ => Run.semicolons)
    (fun rest _ => semicolonsTurn (rest ())) 0 (fun _ _ => rfl) (fun _ _ => rfl)
    (fun _ _ _ hend => (semicolonsTurn_of_end hend).symm)
    (fun _ _ _ _ _ hrest => (gains_semicolonsTurn (hrest ())).concur) ()

theorem lastSegment_eq_turn (name : Lexeme) :
    runOver c (.lastSegment name) s =
      segmentTurn (fun name => runOver c (.lastSegment name)) name s :=
  eq_turn Run.lastSegmentUpTo (fun name => runOver c (.lastSegment name)) segmentTurn 0
    (fun _ _ => rfl) (fun _ _ => rfl) (fun _ name _ hend => (segmentTurn_of_end name hend).symm)
    (fun _ _ name _ _ hrest => (gains_segmentTurn name hrest).concur) name

theorem path_eq_turn : runOver c .path s = pathTurn (runOver c .path) s :=
  eq_turn (fun n (_ : Unit) => Run.pathFrom n) (fun _ => runOver c .path)
    (fun rest _ => pathTurn (rest ())) 0 (fun _ _ => rfl) (fun _ _ => rfl)
    (fun _ _ _ hend => (pathTurn_of_end hend).symm)
    (fun _ _ _ _ _ hrest => (gains_pathTurn (hrest ())).concur) ()

variable (h : Serves n s (runOver c))

include h

/-- The loop over operators goes on also in the operand on the right. -/
theorem chain_eq_body (least : Precedence) (left : Fragment) :
    runOver c (.chain least left) s = body (runOver c) (.chain least left) s :=
  eq_turn (fun n (i : Precedence × Fragment) => Run.chain c n i.1 i.2)
    (fun i => runOver c (.chain i.1 i.2))
    (fun rest i => chainTurn (Run.typeReference c)
      (fun level => c.operand >>= fun u => rest (level, u)) (fun least left => rest (least, left))
      i.1 i.2) 0 (fun _ _ => rfl) (fun _ _ => rfl)
    (fun _ i _ hend => (chainTurn_of_end i.1 i.2 hend).symm)
    (fun _ _ i _ hs' hrest => (gains_chainTurn i.1 i.2 ((h.onward hs').later .typeReference).left
      (fun level => ((h.onward hs').later .operand).left.bind fun u => hrest (level, u))
      fun least left => hrest (least, left)).concur) (least, left)

theorem annotationEntries_eq_body :
    runOver c .annotationEntries s = body (runOver c) .annotationEntries s :=
  eq_turn (fun n (_ : Unit) => Run.annotationEntriesUpTo c n)
    (fun _ => runOver c .annotationEntries)
    (fun rest _ => entriesTurn (Run.argumentList c) (rest ())) 0 (fun _ _ => rfl) (fun _ _ => rfl)
    (fun _ _ _ hend => (entriesTurn_of_end hend).symm)
    (fun _ _ _ _ hs' hrest => (concur_entriesTurn ((h.onward hs').later .argumentList).left
      (hrest ())).of_le fun _ => Nat.zero_le _) ()

omit h in
theorem suffixesOf_eq_body {e : Fragment} (h : Serves (suffixesOf e).rank s (runOver c)) :
    runOver c (.suffixesOf e) s = body (runOver c) (.suffixesOf e) s :=
  eq_turn (Run.suffixesUpTo c) (fun e => runOver c (.suffixesOf e))
    (suffixesTurn (Run.member c) (runOver c .indices) (Run.callOf? c)) 0 (fun _ _ => rfl)
    (fun _ _ => rfl) (fun _ e _ hend => (suffixesTurn_of_end e hend).symm)
    (fun _ _ e _ hs' hrest => (gains_suffixesTurn e ((h.onward hs').later .member).left
      ((h.onward hs').later .indices).left
      (fun e => ((h.onward hs').gains_callOf e rfl).left) hrest).concur) e

end Loops

/-- What the parser does for a rule is the body of the rule: the limits do not matter. -/
theorem runOver_eq_body (hlevels : r.levels = 0) (hfile : r ≠ file)
    (h : Serves r.rank s (runOver c)) : runOver c r s = r.body (runOver c) s := by
  have hitem (q : Rule) (hrank : decide (q.rank < r.rank) = true) (hleast : ∀ p a, q.least p a = 1)
      (s' : Session) (hs' : s.Onward 0 s') :
      Gains s' 0 (runOver c q) (runOver c q) fun _ => 1 :=
    ((h.onward hs').lower q hrank hleast).left
  have hsemicolons (hrank : decide (semicolons.rank < r.rank) = true) (s' : Session)
      (hs' : s.Onward 0 s') : Gains s' 0 Run.semicolons Run.semicolons fun _ => 0 :=
    ((h.onward hs').lower_any .semicolons hrank).left
  cases r with
  | semicolons => exact semicolons_eq_turn
  | lastSegment name => exact lastSegment_eq_turn name
  | path => exact path_eq_turn
  | typesInParentheses | typesInAngles => exact items_eq_turn _ (hitem .type rfl fun _ _ => rfl)
  | chain least left => exact chain_eq_body h least left
  | arguments => exact items_eq_turn _ (hitem .argument rfl fun _ _ => rfl)
  | annotationEntries => exact annotationEntries_eq_body h
  | whenConditions => exact items_eq_turn _ (hitem .whenCondition rfl fun _ _ => rfl)
  | whenEntries =>
    exact rows_eq_turn _ _ (hsemicolons rfl) (hitem .whenEntry rfl fun _ _ => rfl)
  | indices => exact items_eq_turn _ (hitem .expression rfl fun _ _ => rfl)
  | suffixesOf e => exact suffixesOf_eq_body h
  | parameters stop hasDefault =>
    exact items_eq_turn _ (hitem (.parameter hasDefault) rfl fun _ _ => rfl)
  | statements closing =>
    exact rows_eq_turn _ _ (hsemicolons rfl) (hitem .statement rfl fun _ _ => rfl)
  | imports => exact rows_eq_turn _ _ (hsemicolons rfl) (hitem .directive rfl fun _ _ => rfl)
  | file => exact absurd rfl hfile
  | type | operand | wrappedLambda | lambda | block => cases hlevels
  | _ => rfl

/-! ## Fuel -/

/-- What serves all calls that a rule may make, serves a rule that opens no level. -/
theorem serves_of_mayCall (hlevels : r.levels = 0)
    (h : ∀ q s', r.MayCall s q s' → Concur s' (q.least s'.now) (g q s') (q.run s')) :
    Serves r.rank s g := by
  intro q s' hs' hless
  refine h q s' ⟨?_, hs'.total, ?_, .inl hs'.depth⟩
  · rcases Nat.eq_or_lt_of_le hs'.pos with heq | hlt
    · exact hless.imp_right fun hrank => ⟨heq.symm, hrank⟩
    · exact .inl hlt
  · rw [hlevels]
    exact hs'.depth

/-- Whatever does what the parser does for all calls that a rule may make, leads to the same. -/
theorem concur_body_of_mayCall
    (h : ∀ q s', r.MayCall s q s' → Concur s' (q.least s'.now) (g q s') (q.run s')) :
    Concur s (r.least s.now) (r.body g s) (r.body run s) := by
  have hlevel (q : Rule) (hr : r.levels = 1) (hrank : decide (q.rank < r.rank) = true)
      (hleast : ∀ p a, q.least p a = 1) :
      Concur s (fun _ => 1) (Run.nested (g q) s) (Run.nested (q.run) s) := by
    refine Run.concur_nested fun hdepth => ?_
    have hcall : r.MayCall s q (s.to s.now.enter) :=
      ⟨.inr ⟨rfl, of_decide_eq_true hrank⟩, rfl, by rw [hr]; rfl, .inr hdepth⟩
    exact (h q _ hcall).of_le fun a => (hleast _ a).ge
  cases r with
  | type => exact hlevel .typeLevel rfl rfl fun _ _ => rfl
  | operand => exact hlevel .operandLevel rfl rfl fun _ _ => rfl
  | wrappedLambda => exact hlevel .wrappedLambdaLevel rfl rfl fun _ _ => rfl
  | lambda => exact hlevel .lambdaLevel rfl rfl fun _ _ => rfl
  | block => exact hlevel .blockLevel rfl rfl fun _ _ => rfl
  | _ => exact (serves_of_mayCall rfl h).concur_body rfl

/-- With fuel for the levels that are left, the parser does what the body of a rule says; and it
    takes as many lexemes as it has to. -/
structure Settled (r : Rule) (s : Session) : Prop where
  eq : ∀ fuel, 0 < fuel → maxNesting < fuel + s.now.depth →
    runOver (.ofFuel fuel) r s = r.body run s
  concur : Concur s (r.least s.now) (r.body run s) (r.body run s)

theorem Settled.run_eq (h : r.Settled s) : r.run s = r.body run s :=
  h.eq (maxNesting + 1) (Nat.succ_pos _) (Nat.lt_of_lt_of_le (Nat.lt_succ_self _)
    (Nat.le_add_right _ _))

/-- A rule that opens a level has one unit of fuel less for what is on that level. -/
theorem runOver_ofFuel_succ (hlevels : r.levels ≠ 0) (fuel : Nat) :
    runOver (.ofFuel (fuel + 1)) r = r.body (runOver (.ofFuel fuel)) := by
  cases r with
  | type | operand | wrappedLambda | lambda | block => rfl
  | _ => exact absurd rfl hlevels

/-- If the calls of a rule are settled, then so is the rule. -/
theorem settled_of_mayCall (h : ∀ q s', r.MayCall s q s' → q.Settled s') : r.Settled s := by
  have hserved (fuel : Nat) (hlevel : r.levels = 0 → 0 < fuel)
      (hfuel : maxNesting < fuel + r.levels + s.now.depth) (q : Rule) (s' : Session)
      (hcall : r.MayCall s q s') :
      Concur s' (q.least s'.now) (runOver (.ofFuel fuel) q s') (q.run s') := by
    have hdepth := hcall.depth
    have hpos : 0 < fuel := by
      rcases hcall.level with hsame | hle
      · exact hlevel (by omega)
      · omega
    rw [(h q s' hcall).eq fuel hpos (by omega), (h q s' hcall).run_eq]
    exact (h q s' hcall).concur
  have hconcur := concur_body_of_mayCall (hserved (maxNesting + 1) (fun _ => Nat.succ_pos _)
    (by omega))
  refine ⟨fun fuel hpos hfuel => ?_, hconcur.right⟩
  by_cases hfile : r = file
  · subst hfile
    rfl
  by_cases hlevels : r.levels = 0
  · have hfollows := hserved fuel (fun _ => hpos) (by omega)
    rw [runOver_eq_body hlevels hfile (serves_of_mayCall hlevels hfollows)]
    exact (concur_body_of_mayCall hfollows).eq
  · obtain ⟨fuel, rfl⟩ := Nat.exists_eq_succ_of_ne_zero hpos.ne'
    have hone : 1 ≤ r.levels := Nat.one_le_iff_ne_zero.2 hlevels
    rw [runOver_ofFuel_succ hlevels]
    exact (concur_body_of_mayCall (hserved fuel (absurd · hlevels) (by omega))).eq

/-! ## Progress -/

theorem rank_lt (r : Rule) : r.rank < 12 := by
  unfold rank
  split <;> decide

/-- Calls are less high than the rule that makes them. -/
theorem MayCall.height_lt {q : Rule} (h : r.MayCall s q s') : q.height s' < r.height s := by
  have htotal := h.total
  have := q.rank_lt
  unfold height
  rcases h.less with hpos | ⟨hpos, hrank⟩ <;> omega

theorem settled (r : Rule) (s : Session) : r.Settled s := by
  induction hheight : r.height s using Nat.strong_induction_on generalizing r s with
  | _ n ih =>
    subst hheight
    exact settled_of_mayCall fun q s' hcall => ih _ hcall.height_lt q s' rfl

/-- The parser does what the bodies of the rules say, without limits and fuel. -/
theorem run_eq_body (r : Rule) : r.run = r.body run := funext fun s => (settled r s).run_eq

theorem concur_run (r : Rule) (s : Session) : Concur s (r.least s.now) (r.run s) (r.run s) := by
  rw [(settled r s).run_eq]
  exact (settled r s).concur

/-- A rule takes as many lexemes as it has to. -/
theorem onward_of_run {a : r.Result} (h : r.run s = .ok a s') : s.Onward (r.least s.now a) s' := by
  have hconcur := r.concur_run s
  rw [h] at hconcur
  exact hconcur.onward

/-- What a rule does depends only on the calls that it may make. -/
theorem body_eq_run (h : ∀ q s', r.MayCall s q s' → g q s' = q.run s') : r.body g s = r.run s := by
  rw [run_eq_body]
  refine (concur_body_of_mayCall fun q s' hcall => ?_).eq
  rw [h q s' hcall]
  exact q.concur_run s'

/-- Rules that call each other deeper than they are high do what the parser does, whatever is done
    below. -/
theorem iterate_body_eq_run {n : Nat} (hn : r.height s < n) : (body^[n] g) r s = r.run s := by
  induction n generalizing r s with
  | zero => exact absurd hn (Nat.not_lt_zero _)
  | succ n ih =>
    rw [Function.iterate_succ_apply']
    refine body_eq_run fun q s' hcall => ih ?_
    exact Nat.lt_of_lt_of_le hcall.height_lt (Nat.le_of_lt_succ hn)

/-! ## Files -/

/-- A file ends where no lexeme is left. -/
theorem size_of_file {u : Fragment} (h : Run.file s = .ok u s') : s'.now.cursor.size = 0 := by
  obtain ⟨package, s₁, -, h⟩ := Run.exists_of_bind h
  obtain ⟨imports, s₂, -, h⟩ := Run.exists_of_bind h
  obtain ⟨statements, s₃, -, h⟩ := Run.exists_of_bind h
  change (if s₃.now.cursor.kind?.isSome = true then Run.unexpected else Run.make _ _ _ : Run _) s₃ =
    _ at h
  split at h
  · cases h
  · next hnone =>
    obtain ⟨-, rfl⟩ := EStateM.Result.ok.inj h
    have hrest : s₃.now.cursor.rest = [] := by simpa [Cursor.kind?] using hnone
    exact congrArg List.length hrest

/-- A file takes all lexemes that are ahead. -/
theorem pos_of_file {u : Fragment} (h : Run.file s = .ok u s') :
    s'.now.pos = s.now.pos + s.now.cursor.size := by
  have htotal := (onward_of_run (r := file) h).total
  rwa [size_of_file h] at htotal

end Rule

/-- The document of a source text is that of the file which the parser reads in it. -/
theorem Document.parse_eq {source : List Char} {tokens : List Token}
    (h : tokenize source = .ok tokens) :
    Document.parse source = match Run.file (.ofTokens source tokens) with
      | .ok t s => .ok (.ofFragments source tokens [] t s.now.arena.length)
      | .error fault _ => .error fault := by
  rw [Document.parse, Document.readAfter_eq, h]
  simp only [bind, Except.bind, Run.expressionsThenFile]
  cases Run.file (.ofTokens source tokens) <;> rfl

namespace Rule

/-- Of every list of lexemes and from every state of a parser: statements, expressions, operands,
    types, parameters, arguments, entries of a `when`, lambdas, blocks and what a branch or a loop
    evaluates take a lexeme. What a rule does depends only on calls after a lexeme was taken, as
    all turns of loops but the first are, and on calls of lower rank: any other call could as well
    fail. So calls that are at most as deep as a rule is high are enough for it, whatever is done
    below them. Hence the parser comes to an end on every source text, with the document of the
    text or its fault; and if it gives a document, then all lexemes were taken. -/
theorem terminates :
    (∀ (hasDefault : Bool) (kind : NodeKind),
      ∀ r ∈ [statement, expression, operand, type, parameter hasDefault, argument, whenEntry,
        lambda, block, controlBody kind],
      ∀ (s s' : Session) (a : r.Result), r.run s = .ok a s' → s.now.pos < s'.now.pos) ∧
    (∀ (r : Rule) (s : Session) (g : Rules),
      (∀ q s', r.MayCall s q s' → g q s' = q.run s') → r.body g s = r.run s) ∧
    (∀ (r : Rule) (s : Session) (g : Rules), (body^[r.height s + 1] g) r s = r.run s) ∧
    ∀ (source : List Char) (g : Rules), match tokenize source with
      | .error fault => Document.parse source = .error fault
      | .ok tokens =>
        let bound := 12 * (lexemes false tokens).length + 12
        match (body^[bound] g) file (.ofTokens source tokens) with
        | .ok t s => s.now.pos = (lexemes false tokens).length ∧
          Document.parse source = .ok (.ofFragments source tokens [] t s.now.arena.length)
        | .error fault _ => Document.parse source = .error fault := by
  refine ⟨fun hasDefault kind r hr s s' a h => ?_, fun r s g => body_eq_run,
    fun r s g => iterate_body_eq_run (Nat.lt_succ_self _), fun source g => ?_⟩
  · have hleast : r.least s.now a = 1 := by
      simp only [List.mem_cons, List.not_mem_nil, or_false] at hr
      rcases hr with rfl | rfl | rfl | rfl | rfl | rfl | rfl | rfl | rfl | rfl <;> rfl
    have hpos := (onward_of_run h).pos
    rwa [hleast] at hpos
  · cases htokens : tokenize source with
    | error fault => rw [Document.parse, Document.readAfter, htokens]; rfl
    | ok tokens =>
      have hheight : file.height (.ofTokens source tokens) <
          12 * (lexemes false tokens).length + 12 := Nat.lt_succ_self _
      have hrun := iterate_body_eq_run (g := g) hheight
      dsimp only
      rw [hrun, Document.parse_eq htokens]
      change match Run.file (.ofTokens source tokens) with
        | .ok t s => _
        | .error fault _ => _
      cases hfile : Run.file (.ofTokens source tokens) with
      | error fault => rfl
      | ok t s => exact ⟨(pos_of_file hfile).trans (Nat.zero_add _), rfl⟩

/-- The four lexemes of `f(1)` are taken by calls that are at most sixty deep. -/
theorem terminates_on_call : ∃ tokens, tokenize "f(1)".toList = .ok tokens ∧
    (lexemes false tokens).length = 4 ∧ ∀ g : Rules, ∃ t s,
      (body^[60] g) file (.ofTokens "f(1)".toList tokens) = .ok t s ∧ s.now.pos = 4 := by
  have htokens : tokenize "f(1)".toList = .ok (tokenStream "f(1)".toList).1 := rfl
  have hlength : (lexemes false (tokenStream "f(1)".toList).1).length = 4 := rfl
  have hparses : (Document.parse "f(1)".toList).toBool = true := by decide +kernel
  generalize "f(1)".toList = source, (tokenStream "f(1)".toList).1 = tokens
    at htokens hlength hparses ⊢
  refine ⟨tokens, htokens, hlength, fun g => ?_⟩
  obtain ⟨-, -, hiterate, hparse⟩ := terminates
  have hheight : file.height (.ofTokens source tokens) = 59 := congrArg (12 * · + 11) hlength
  have hrun := hiterate file (.ofTokens source tokens) g
  have hend := hparse source g
  rw [hheight] at hrun
  rw [htokens] at hend
  dsimp only at hend
  rw [hlength, hrun] at hend
  rw [hrun]
  change match Run.file _ with | .ok t s => _ | .error fault _ => _ at hend
  change ∃ t s, Run.file _ = .ok t s ∧ _
  cases hfile : Run.file (.ofTokens source tokens) with
  | ok t s =>
    rw [hfile] at hend
    exact ⟨t, s, rfl, hend.1⟩
  | error fault s =>
    rw [hfile] at hend
    rw [hend] at hparses
    cases hparses

end Rule

end ResultHints
