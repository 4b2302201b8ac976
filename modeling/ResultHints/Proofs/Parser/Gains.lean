import ResultHints.Parser.Statement
import ResultHints.Proofs.Parser.State

/-!
# How far a parser gets

Two parsers that do the same from some session on, and by how many lexemes they get on at least
(`Gains`). Nothing is asked of the session: its parser may be in no layout or have its nodes in
disorder. Here are the rules for one thing done after another, and what is done for single
lexemes, for what may be left out, and for nodes. Where a rule has two parsers, these are one and
the same procedure over different ones that it calls.
-/

namespace ResultHints

variable {α β : Type} {k l : Nat} {s s₁ s' : Session}

/-- The session `s'` has taken at least `k` lexemes more than `s`, of those that were ahead
    there, and is on the same level. -/
structure Session.Onward (s : Session) (k : Nat) (s' : Session) : Prop where
  pos : s.now.pos + k ≤ s'.now.pos
  total : s'.now.pos + s'.now.cursor.size = s.now.pos + s.now.cursor.size
  depth : s'.now.depth = s.now.depth

namespace Session.Onward

theorem refl (s : Session) : s.Onward 0 s := ⟨Nat.le_refl _, rfl, rfl⟩

theorem trans (h : s.Onward k s₁) (h' : s₁.Onward l s') : s.Onward (k + l) s' := by
  refine ⟨?_, h'.total.trans h.total, h'.depth.trans h.depth⟩
  rw [← Nat.add_assoc]
  exact Nat.le_trans (Nat.add_le_add_right h.pos l) h'.pos

theorem of_le (h : s.Onward k s') (hle : l ≤ k) : s.Onward l s' :=
  ⟨Nat.le_trans (Nat.add_le_add_left hle _) h.pos, h.total, h.depth⟩

/-- What is taken is no longer ahead. -/
theorem size_add_le (h : s.Onward k s') : s'.now.cursor.size + k ≤ s.now.cursor.size := by
  have := h.pos
  have := h.total
  omega

/-- The next lexeme may be taken. -/
theorem take {t : Lexeme} (h : s.Onward k s') (ht : s'.now.lexemes[s'.now.pos]? = some t) :
    s.Onward (k + 1) (s'.to (s'.now.take t)) := by
  refine h.trans ⟨Nat.le_refl _, ?_, rfl⟩
  obtain ⟨hnone, -⟩ | ⟨t', ht', hrest⟩ := s'.now.rest_cases
  · cases ht.symm.trans hnone
  · obtain rfl := Option.some.inj (ht'.symm.trans ht)
    simp only [Session.to, Cursor.size, hrest, List.length_cons, Parser.take]
    omega

end Session.Onward

namespace Run

variable {x x' y y' : Run α} {f g : α → Run β} {Q Q' : α → Nat} {P : β → Nat}
  {r r' : EStateM.Result Fault Session α}

/-- The outcomes are the same, and after a result `a` at least `Q a` lexemes were taken. -/
inductive Concur (s : Session) (Q : α → Nat) :
    EStateM.Result Fault Session α → EStateM.Result Fault Session α → Prop
  | ok {a : α} {s' : Session} : s.Onward (Q a) s' → Concur s Q (.ok a s') (.ok a s')
  | error {e : Fault} {s' : Session} : Concur s Q (.error e s') (.error e s')

namespace Concur

theorem eq (h : Concur s Q r r') : r = r' := by
  cases h <;> rfl

theorem onward {a : α} (h : Concur s Q (.ok a s') r) : s.Onward (Q a) s' := by
  cases h with
  | ok hs => exact hs

theorem left (h : Concur s Q r r') : Concur s Q r r := by
  cases h with
  | ok hs => exact .ok hs
  | error => exact .error

theorem right (h : Concur s Q r r') : Concur s Q r' r' := h.eq ▸ h.left

/-- What was taken before counts too. -/
theorem before (h : Concur s' Q r r') (hs : s.Onward k s') (hQ : ∀ a, Q' a ≤ k + Q a) :
    Concur s Q' r r' := by
  cases h with
  | ok hs' => exact .ok ((hs.trans hs').of_le (hQ _))
  | error => exact .error

theorem of_le (h : Concur s Q r r') (hQ : ∀ a, Q' a ≤ Q a) : Concur s Q' r r' :=
  h.before (.refl s) fun a => Nat.le_trans (hQ a) (Nat.le_add_left _ _)

end Concur

/-- From wherever at least `k` lexemes were taken since `s`, both do the same; and after a result
    `a`, at least `Q a` lexemes were taken since `s`. -/
def Gains (s : Session) (k : Nat) (x y : Run α) (Q : α → Nat) : Prop :=
  ∀ s', s.Onward k s' → Concur s Q (x s') (y s')

/-! ## One after another -/

theorem Concur.bind (h : Concur s Q (x s') (y s')) (hf : ∀ a, Gains s (Q a) (f a) (g a) P) :
    Concur s P ((x >>= f) s') ((y >>= g) s') := by
  change Concur s P (EStateM.bind x f s') (EStateM.bind y g s')
  unfold EStateM.bind
  generalize x s' = r, y s' = r' at h
  cases h with
  | ok hs => exact hf _ _ hs
  | error => exact .error

/-- What gives a result in two steps gives one in each of them. -/
theorem exists_of_bind {b : β} (h : (x >>= f) s = .ok b s') :
    ∃ a s₁, x s = .ok a s₁ ∧ f a s₁ = .ok b s' := by
  change EStateM.bind x f s = _ at h
  unfold EStateM.bind at h
  split at h
  · next a s₁ hx => exact ⟨a, s₁, hx, h⟩
  · cases h

/-- What follows may look at the state. -/
theorem Concur.look {f g : Parser → Run β} (h : Concur s P (f s'.now s') (g s'.now s')) :
    Concur s P ((look >>= f) s') ((look >>= g) s') :=
  h

namespace Gains

theorem concur (h : Gains s 0 x y Q) : Concur s Q (x s) (y s) := h s (.refl s)

theorem left (h : Gains s k x y Q) : Gains s k x x Q := fun s' hs => (h s' hs).left

theorem of_le (h : Gains s k x y Q) (hQ : ∀ a, Q' a ≤ Q a) : Gains s k x y Q' := fun s' hs =>
  (h s' hs).of_le hQ

theorem of_more (h : Gains s k x y Q) (hk : k ≤ l) : Gains s l x y Q := fun s' hs =>
  h s' (hs.of_le hk)

theorem pure {a : α} (h : Q a ≤ k) : Gains s k (pure a) (pure a) Q := fun _ hs =>
  .ok (hs.of_le h)

theorem bind (h : Gains s k x y Q) (hf : ∀ a, Gains s (Q a) (f a) (g a) P) :
    Gains s k (x >>= f) (y >>= g) P := fun s' hs => (h s' hs).bind hf

theorem look {f g : Parser → Run β} (h : ∀ p, Gains s k (f p) (g p) P) :
    Gains s k (Run.look >>= f) (Run.look >>= g) P := fun s' hs => .look (h s'.now s' hs)

theorem discard (h : Gains s k x y fun _ => l) :
    Gains s k (discard x) (discard y) fun _ => l :=
  h.bind fun _ => .pure (Nat.le_refl l)

theorem ite {b : Prop} [Decidable b] (h : b → Gains s k x y Q) (h' : ¬b → Gains s k x' y' Q) :
    Gains s k (if b then x else x') (if b then y else y') Q := by
  split
  · next hb => exact h hb
  · next hb => exact h' hb

/-! ## Layouts and levels -/

theorem withLayout (m : Layout) (h : Gains s k x y Q) :
    Gains s k (withLayout m x) (withLayout m y) Q := by
  intro s' hs
  unfold Run.withLayout between
  have hin := h (s'.to (s'.now.push m)) ⟨hs.pos, hs.total, hs.depth⟩
  dsimp only
  generalize x (s'.to (s'.now.push m)) = r, y (s'.to (s'.now.push m)) = r' at hin
  cases hin with
  | ok hs => exact .ok ⟨hs.pos, hs.total, hs.depth⟩
  | error => exact .error

end Gains

/-- What is done one level further in counts, if there is one more level. -/
theorem concur_nested
    (h : s.now.depth < maxNesting →
      Concur (s.to s.now.enter) Q (x (s.to s.now.enter)) (y (s.to s.now.enter))) :
    Concur s Q (nested x s) (nested y s) := by
  unfold nested between
  split
  · exact .error
  · next hdepth =>
    have hin := h (Nat.lt_of_not_le hdepth)
    generalize x (s.to s.now.enter) = r, y (s.to s.now.enter) = r' at hin
    cases hin with
    | ok hs => exact .ok ⟨hs.pos, hs.total, congrArg (· - 1) hs.depth⟩
    | error => exact .error

/-! ## One lexeme -/

variable {kind : TokenKind} {mark : Symbol}

theorem Gains.next : Gains s k next next fun _ => k + 1 := by
  intro s' hs
  unfold Run.next
  split
  · exact .error
  · next t ht => exact .ok (hs.take ht)

theorem Concur.bind_accept {f g : Option Lexeme → Run β} (hs : s.Onward k s')
    (hsome : s'.now.cursor.isAt kind = true → ∀ t, Gains s (k + 1) (f (some t)) (g (some t)) P)
    (hnone : s'.now.cursor.isAt kind = false → Gains s k (f none) (g none) P) :
    Concur s P ((accept kind >>= f) s') ((accept kind >>= g) s') := by
  have haccept {f : Option Lexeme → Run β} : (accept kind >>= f) s' =
      (if s'.now.cursor.isAt kind = true then next >>= fun t => f (some t) else f none) s' := by
    rw [accept, bind_assoc]
    change ((if s'.now.cursor.isAt kind = true then _ else _ : Run (Option Lexeme)) >>= f) s' = _
    split
    · simp only [bind_assoc, pure_bind]
    · rw [pure_bind]
  rw [haccept, haccept]
  cases hat : s'.now.cursor.isAt kind with
  | true => exact Gains.next.bind (hsome hat) s' hs
  | false => exact hnone hat s' hs

namespace Gains

theorem expect (what : Expectation) : Gains s k (expect what) (expect what) fun _ => k + 1 := by
  intro s' hs
  unfold Run.expect
  split
  · exact .error
  · split
    · exact Gains.next s' hs
    · exact .error

theorem symbol (mark : Symbol) : Gains s k (symbol mark) (symbol mark) fun _ => k + 1 := expect _

theorem keyword (word : Keyword) : Gains s k (keyword word) (keyword word) fun _ => k + 1 :=
  expect _

theorem identifier (role : String) :
    Gains s k (identifier role) (identifier role) fun _ => k + 1 :=
  expect _

theorem unexpected : Gains s k (unexpected (α := α)) Run.unexpected Q := fun _ _ => .error

theorem bind_accept {f g : Option Lexeme → Run β}
    (hsome : ∀ t, Gains s (k + 1) (f (some t)) (g (some t)) P)
    (hnone : Gains s k (f none) (g none) P) :
    Gains s k (accept kind >>= f) (accept kind >>= g) P := fun _ hs =>
  .bind_accept hs (fun _ => hsome) fun _ => hnone

theorem bind_accepts {f g : Bool → Run β} (htrue : Gains s (k + 1) (f true) (g true) P)
    (hfalse : Gains s k (f false) (g false) P) :
    Gains s k (accepts mark >>= f) (accepts mark >>= g) P := by
  simp only [accepts, bind_assoc, pure_bind]
  exact bind_accept (fun _ => htrue) hfalse

theorem accept : Gains s k (accept kind) (accept kind) fun _ => k := by
  have h : Gains s k (Run.accept kind >>= Pure.pure) (Run.accept kind >>= Pure.pure) fun _ => k :=
    bind_accept (fun _ => pure (Nat.le_succ k)) (pure (Nat.le_refl k))
  rwa [bind_pure] at h

theorem accepts : Gains s k (accepts mark) (accepts mark) fun _ => k :=
  accept.bind fun _ => pure (Nat.le_refl k)

/-! ## Several lexemes -/

/-- What may be read is read so often as there are results. -/
theorem optionally_length {b : Bool} (h : Gains s k x y fun _ => k + 1) :
    Gains s k (optionally b x) (optionally b y) fun as => k + as.length :=
  ite (fun _ => h.bind fun _ => pure (Nat.le_refl _)) fun _ => pure (Nat.le_refl _)

theorem optionally {b : Bool} (h : Gains s k x y fun _ => k) :
    Gains s k (optionally b x) (optionally b y) fun _ => k :=
  ite (fun _ => h.bind fun _ => pure (Nat.le_refl _)) fun _ => pure (Nat.le_refl _)

theorem after (h : Gains s (k + 1) x y fun _ => k + 1) :
    Gains s k (after mark x) (after mark y) fun _ => k :=
  bind_accepts ((optionally h).of_le fun _ => Nat.le_succ k) (pure (Nat.le_refl k))

theorem rowEnd {closing : Option TokenKind} :
    Gains s k (rowEnd closing) (rowEnd closing) fun _ => k :=
  look fun _ => ite (fun _ => pure (Nat.le_refl k)) fun _ => unexpected

theorem labelReference? : Gains s k Run.labelReference? Run.labelReference? fun _ => k :=
  accept.bind fun _ => pure (Nat.le_refl k)

/-! ## Nodes -/

variable {start : Nat} {made : NodeKind} {span : Span} {us : List Fragment} {u v : Fragment}

theorem spanFrom : Gains s k (spanFrom start) (spanFrom start) fun _ => k :=
  look fun _ => pure (Nat.le_refl k)

theorem make : Gains s k (make made span us) (make made span us) fun _ => k := fun _ hs =>
  .ok ⟨hs.pos, hs.total, hs.depth⟩

theorem close : Gains s k (close start made us) (close start made us) fun _ => k :=
  spanFrom.bind fun _ => make

theorem leaf {t : Lexeme} : Gains s k (leaf made t) (leaf made t) fun _ => k := make

theorem join : Gains s k (join made u v) (join made u v) fun _ => k := make

theorem wrap : Gains s k (wrap made u) (wrap made u) fun _ => k := make

end Gains

end Run

end ResultHints
