import ResultHints.Proofs.Grammar.Reader

/-!
# What nodes cost

The nodes that a reader makes are paid for by the lexemes it takes: a lexeme is worth five, a
node costs two (`Cursor.worth`). Some readers make more nodes than their own lexemes pay for, and
live on what was saved before them; so the savings that a reader needs are told, and those that
it leaves to what comes after it (`Reader.Pays`). They are never overdrawn, also where reading
stops at a fault. Here are the rules for readers one after another, and what readers of single
lexemes, of items and of rows leave.
-/

namespace ResultHints

/-- Five for every lexeme ahead, and two for every node that was made. -/
def Cursor.worth (s : Cursor) : Nat := 5 * s.rest.length + 2 * s.nextId

namespace Reader

variable {α β : Type} {k k' l budget budget' : Nat} {s : Cursor} {r : Reader α} {f : α → Reader β}
  {Q Q' : α → Nat} {P : β → Nat}

/-- The outcome is within the budget, and after a result `a` so much as `Q a` is left of it. -/
inductive Paid (budget : Nat) (Q : α → Nat) : EStateM.Result Fault Cursor α → Prop
  | ok {a : α} {s : Cursor} : s.worth + Q a ≤ budget → Paid budget Q (.ok a s)
  | error {e : Fault} {s : Cursor} : s.worth ≤ budget → Paid budget Q (.error e s)

/-- From the cursor on, the reader pays for its nodes by lexemes and by the savings `k`, and after
    a result `a` it leaves the savings `Q a`. -/
def PaysAt (s : Cursor) (k : Nat) (r : Reader α) (Q : α → Nat) : Prop :=
  Paid (s.worth + k) Q (r s)

/-- The reader pays for its nodes wherever it reads from. -/
def Pays (k : Nat) (r : Reader α) (Q : α → Nat) : Prop := ∀ s, PaysAt s k r Q

/-! ## One reader after another -/

theorem Paid.of_le {y : EStateM.Result Fault Cursor α} (h : Paid budget Q y)
    (hbudget : budget ≤ budget') (hQ : ∀ a s, y = .ok a s → Q' a ≤ Q a) : Paid budget' Q' y := by
  cases h with
  | @ok a s hle =>
    exact .ok (Nat.le_trans (Nat.add_le_add_left (hQ a s rfl) _) (Nat.le_trans hle hbudget))
  | error hle => exact .error (Nat.le_trans hle hbudget)

theorem Pays.of_le (h : Pays k r Q) (hQ : ∀ a, Q' a ≤ Q a) : Pays k r Q' := fun s =>
  Paid.of_le (h s) (Nat.le_refl _) fun a _ _ => hQ a

/-- Nobody has to count on what is left. -/
theorem Pays.forget (h : Pays k r fun _ => k + l) : Pays k r fun _ => k :=
  h.of_le fun _ => Nat.le_add_right k l

/-- A reader may have more savings than it needs. -/
theorem Pays.of_more (h : Pays k r Q) (hk : k ≤ k') : Pays k' r Q := fun s =>
  Paid.of_le (h s) (Nat.add_le_add_left hk _) fun _ _ _ => Nat.le_refl _

theorem pays_pure {a : α} (h : Q a ≤ k) : Pays k (pure a) Q := fun s =>
  .ok (Nat.add_le_add_left h s.worth)

/-- What the second reader needs, the first one leaves. -/
theorem PaysAt.bind (hr : PaysAt s k r Q) (hf : ∀ a, Pays (Q a) (f a) P) :
    PaysAt s k (r >>= f) P := by
  change Paid _ _ (EStateM.bind r f s)
  rw [PaysAt] at hr
  unfold EStateM.bind
  generalize r s = y at hr
  cases hr with
  | @ok a s' hle =>
    have hrest : Paid _ _ (f a s') := hf a s'
    dsimp only
    generalize f a s' = z at hrest
    cases hrest with
    | ok hle' => exact .ok (Nat.le_trans hle' hle)
    | error hle' => exact .error (Nat.le_trans hle' hle)
  | error hle => exact .error hle

theorem Pays.bind (hr : Pays k r Q) (hf : ∀ a, Pays (Q a) (f a) P) : Pays k (r >>= f) P := fun s =>
  (hr s).bind hf

/-- What follows may look at the cursor. -/
theorem paysAt_get {f : Cursor → Reader β} (hf : PaysAt s k (f s) P) :
    PaysAt s k (get >>= f) P :=
  hf

theorem pays_get {f : Cursor → Reader β} (hf : ∀ s, Pays k (f s) P) : Pays k (get >>= f) P :=
  fun s => hf s s

theorem Pays.map {g : α → β} (h : Pays k r fun _ => l) : Pays k (g <$> r) fun _ => l := by
  intro s
  have hs : Paid _ _ (r s) := h s
  change Paid _ _ (EStateM.map g r s)
  unfold EStateM.map
  generalize r s = y at hs
  cases hs with
  | ok hle => exact .ok hle
  | error hle => exact .error hle

theorem Pays.discard (h : Pays k r fun _ => l) : Pays k (discard r) fun _ => l := h.map

theorem Pays.ite {b : Prop} [Decidable b] {r' : Reader α} (h : b → Pays k r Q)
    (h' : ¬b → Pays k r' Q) : Pays k (if b then r else r') Q := by
  split
  · next hb => exact h hb
  · next hb => exact h' hb

/-! ## One lexeme -/

variable {kind : TokenKind} {mark : Symbol}

/-- A lexeme that is taken is saved. -/
theorem paid_take {source : List Char} {t : Lexeme} {ts : List Lexeme} {stop stop' : Nat}
    {i : NodeId} {a : α} (h : Q a ≤ k + 5) :
    Paid ((Cursor.mk source (t :: ts) stop i).worth + k) Q (.ok a ⟨source, ts, stop', i⟩) := by
  refine .ok ?_
  simp only [Cursor.worth, List.length_cons]
  omega

theorem paid_error {e : Fault} : Paid (s.worth + k) Q (.error e s) := .error (Nat.le_add_right _ _)

theorem pays_unexpected : Pays k (unexpected (α := α)) Q := fun _ => paid_error

theorem pays_next : Pays k next fun _ => k + 5 := by
  rintro ⟨source, _ | ⟨t, ts⟩, stop, i⟩
  · exact paid_error
  · exact paid_take (Nat.le_refl _)

theorem pays_expect (what : Expectation) : Pays k (expect what) fun _ => k + 5 := by
  rintro ⟨source, _ | ⟨t, ts⟩, stop, i⟩
  · exact paid_error
  · simp only [PaysAt, expect]
    split
    · exact paid_take (Nat.le_refl _)
    · exact paid_error

theorem pays_symbol (mark : Symbol) : Pays k (symbol mark) fun _ => k + 5 := pays_expect _

theorem pays_keyword (word : Keyword) : Pays k (keyword word) fun _ => k + 5 := pays_expect _

theorem pays_identifier (role : String) : Pays k (identifier role) fun _ => k + 5 := pays_expect _

theorem pays_bind_accept {f : Option Lexeme → Reader β} (hsome : ∀ t, Pays (k + 5) (f (some t)) P)
    (hnone : Pays k (f none) P) : Pays k (accept kind >>= f) P := by
  have haccept : Pays k (accept kind) fun o => if o.isSome then k + 5 else k := by
    rintro ⟨source, _ | ⟨t, ts⟩, stop, i⟩
    · exact .ok (Nat.le_refl _)
    · simp only [PaysAt, accept]
      split
      · exact paid_take (Nat.le_refl _)
      · exact .ok (Nat.le_refl _)
  refine haccept.bind fun o => ?_
  cases o with
  | none => exact hnone
  | some t => exact hsome t

theorem pays_bind_accepts {f : Bool → Reader β} (htrue : Pays (k + 5) (f true) P)
    (hfalse : Pays k (f false) P) : Pays k (accepts mark >>= f) P := by
  rw [accepts, bind_assoc]
  refine pays_bind_accept (fun t => ?_) ?_
  · rwa [pure_bind]
  · rwa [pure_bind]

theorem pays_accepts : Pays k (accepts mark) fun _ => k :=
  pays_bind_accept (fun _ => pays_pure (Nat.le_add_right k 5)) (pays_pure (Nat.le_refl k))

/-! ## Several lexemes -/

variable {item : Reader α}

/-- What may be read leaves its savings so often as it is read. -/
theorem pays_optionally_length {b : Bool} (h : Pays k item fun _ => k + l) :
    Pays k (optionally b item) fun as => k + l * as.length := by
  refine .ite (fun _ => ?_) fun _ => pays_pure (Nat.le_refl k)
  exact h.bind fun a => pays_pure (by simp)

theorem pays_optionally {b : Bool} (h : Pays k item fun _ => k + l) :
    Pays k (optionally b item) fun _ => k :=
  (pays_optionally_length h).of_le fun _ => Nat.le_add_right k _

theorem pays_after (h : Pays (k + 5) item fun _ => k + 5 + l) :
    Pays k (after mark item) fun _ => k :=
  pays_bind_accepts (h.forget.bind fun _ => pays_pure (Nat.le_add_right k 5))
    (pays_pure (Nat.le_refl k))

theorem pays_semicolons : Pays k semicolons fun _ => k := by
  intro s
  refine .ok (Nat.add_le_add_right ?_ k)
  simp only [Cursor.worth, List.length_drop]
  omega

/-- The comma before an item makes up for what the item takes from the savings. -/
theorem pays_itemsUpTo {stop : Option TokenKind} (h : Pays k item fun _ => l) (hle : l ≤ k)
    (hcomma : k ≤ l + 5) (limit : Nat) : Pays k (itemsUpTo stop item limit) fun _ => l := by
  induction limit with
  | zero => exact pays_pure hle
  | succ limit ih =>
    refine pays_get fun s => .ite (fun _ => pays_pure hle) fun _ => h.bind fun a => ?_
    refine pays_bind_accepts ?_ (pays_pure (Nat.le_refl l))
    exact (ih.of_more hcomma).bind fun as => pays_pure (Nat.le_refl l)

theorem pays_items {stop : Option TokenKind} (h : Pays k item fun _ => l) (hle : l ≤ k)
    (hcomma : k ≤ l + 5) : Pays k (items stop item) fun _ => l :=
  pays_get fun _ => pays_itemsUpTo h hle hcomma _

theorem pays_itemsTo {close : Symbol} (h : Pays k item fun _ => l) (hle : l ≤ k)
    (hcomma : k ≤ l + 5) : Pays k (itemsTo close item) fun _ => l + 5 :=
  (pays_items h hle hcomma).bind fun _ => (pays_symbol close).discard.bind fun _ =>
    pays_pure (Nat.le_refl _)

theorem pays_rowEnd {closing : Option TokenKind} : Pays k (rowEnd closing) fun _ => k :=
  pays_get fun _ => .ite (fun _ => pays_pure (Nat.le_refl k)) fun _ => pays_unexpected

theorem pays_rowsUpTo {stop : Option TokenKind → Bool} {closing : Option TokenKind}
    (h : Pays k item fun _ => k) (limit : Nat) :
    Pays k (rowsUpTo stop closing item limit) fun _ => k := by
  induction limit with
  | zero => exact pays_pure (Nat.le_refl k)
  | succ limit ih =>
    refine pays_semicolons.bind fun _ => pays_get fun _ => ?_
    refine .ite (fun _ => pays_pure (Nat.le_refl k)) fun _ => h.bind fun a => ?_
    exact pays_rowEnd.bind fun _ => ih.bind fun as => pays_pure (Nat.le_refl k)

theorem pays_rows {stop : Option TokenKind → Bool} {closing : Option TokenKind}
    (h : Pays k item fun _ => k) : Pays k (rows stop closing item) fun _ => k :=
  pays_get fun _ => pays_rowsUpTo h _

theorem length_lastSegment_le (name : Lexeme) (ts : List Lexeme) :
    (lastSegment name ts).2.length ≤ ts.length := by
  fun_induction lastSegment name ts <;> grind

theorem pays_qualifiedName (role : String) : Pays k (qualifiedName role) fun _ => k + 5 := by
  refine (pays_identifier role).bind fun name s => .ok ?_
  have := length_lastSegment_le name s.rest
  simp only [Cursor.worth]
  omega

/-! ## Nodes -/

variable {start : Nat} {made : NodeKind} {span : Span} {us : List Fragment} {u v : Fragment}

theorem pays_spanFrom : Pays k (spanFrom start) fun _ => k := fun _ => .ok (Nat.le_refl _)

theorem pays_make : Pays (k + 2) (make made span us) fun _ => k := fun s => .ok <| by
  simp only [Cursor.worth]
  omega

theorem pays_close : Pays (k + 2) (close start made us) fun _ => k :=
  pays_spanFrom.bind fun _ => pays_make

theorem pays_leaf {t : Lexeme} : Pays (k + 2) (leaf made t) fun _ => k := pays_make

theorem pays_join : Pays (k + 2) (join made u v) fun _ => k := pays_make

theorem pays_wrap : Pays (k + 2) (wrap made u) fun _ => k := pays_make

end Reader

end ResultHints
