import ResultHints.Proofs.Grammar.Reader
import ResultHints.Proofs.Parser.State

/-!
# Parsers and readers

What a procedure of the parser does, next to the reader of the same rule (`Does`). However it
ends, it leaves the layouts and the levels as it found them, and goes there by safe steps; and if
it gives trees, they are pending after it. If the parser stands in the layout and on the level
that the reader is for, they do the same: they give the same result or tell the same fault, and
the cursor of the parser is that of the reader. Of a parser that stands elsewhere, nothing is
said about the reader.
-/

namespace ResultHints

open Reader

/-- The parser is in a safe state, and the given trees are pending; and it is in the layout `m`,
    with `d` more levels, if `A` holds. -/
structure Session.Stands (s : Session) (A : Prop) (m : Layout) (d : Nat) (us : List Fragment) :
    Prop where
  safe : s.now.Safe
  pending : s.now.Pending us
  layout : A → s.now.layout = m
  depth : A → s.now.depth + d = maxNesting

/-- What a procedure does from the session `s`: the session is kept, and after a result `a`, the
    trees `Q a` are pending. If `A` holds, the outcome is that of the reader. -/
inductive Does (A : Prop) (m : Layout) (d : Nat) (s : Session) {α : Type}
    (Q : α → List Fragment) :
    EStateM.Result Fault Session α → EStateM.Result Fault Cursor α → Prop
  | ok {a : α} {s' : Session} {y : EStateM.Result Fault Cursor α} :
    s.Keeps s' → s'.Stands A m d (Q a) → (A → y = .ok a s'.now.cursor) →
    Does A m d s Q (.ok a s') y
  | error {e : Fault} {s' : Session} {y : EStateM.Result Fault Cursor α} :
    s.Keeps s' → (A → y = .error e s'.now.cursor) → Does A m d s Q (.error e s') y

variable {A : Prop} {m : Layout} {d : Nat} {s s₁ : Session} {us vs ws : List Fragment}
  {α β : Type} {Q : α → List Fragment} {P : β → List Fragment}

/-! ## One procedure after another -/

namespace Does

variable {r : EStateM.Result Fault Session α} {y y' : EStateM.Result Fault Cursor α}

theorem congr (h : Does A m d s Q r y) (hy : A → y' = y) : Does A m d s Q r y' := by
  cases h with
  | ok hkeeps hs heq => exact .ok hkeeps hs fun hA => (hy hA).trans (heq hA)
  | error hkeeps heq => exact .error hkeeps fun hA => (hy hA).trans (heq hA)

/-- What the reader looks at may be told from the state. -/
theorem subst {γ : Type} {g : γ} {z : γ → EStateM.Result Fault Cursor α} (g' : γ)
    (hg : A → g' = g) (h : Does A m d s Q r (z g)) : Does A m d s Q r (z g') :=
  h.congr fun hA => by rw [hg hA]

/-- What is done from where a session is kept. -/
theorem of_keeps (h : Does A m d s₁ Q r y) (hkeeps : s.Keeps s₁) : Does A m d s Q r y := by
  cases h with
  | ok hkeeps' hs heq => exact .ok (hkeeps.trans hkeeps') hs heq
  | error hkeeps' heq => exact .error (hkeeps.trans hkeeps') heq

theorem pure {a : α} (h : s.Stands A m d (Q a)) :
    Does A m d s Q ((Pure.pure a : Run α) s) ((Pure.pure a : Reader α) s.now.cursor) :=
  .ok (.refl s) h fun _ => rfl

/-- What follows may depend on what the reader has done. -/
theorem bind_eq {x : Run α} {f : α → Run β} {x' : Reader α} {f' : α → Reader β} {c : Cursor}
    (hx : Does A m d s Q (x s) (x' c))
    (hf : ∀ a s₁, (A → x' c = .ok a s₁.now.cursor) → s₁.Stands A m d (Q a) →
      Does A m d s₁ P (f a s₁) (f' a s₁.now.cursor)) :
    Does A m d s P ((x >>= f) s) ((x' >>= f') c) := by
  change Does A m d s P (EStateM.bind x f s) (EStateM.bind x' f' c)
  unfold EStateM.bind
  generalize x s = r at hx
  generalize x' c = y at hx hf
  cases hx with
  | ok hkeeps hs heq => exact ((hf _ _ heq hs).of_keeps hkeeps).congr fun hA => by rw [heq hA]
  | error hkeeps heq => exact .error hkeeps fun hA => by rw [heq hA]

theorem bind {x : Run α} {f : α → Run β} {x' : Reader α} {f' : α → Reader β} {c : Cursor}
    (hx : Does A m d s Q (x s) (x' c))
    (hf : ∀ a s₁, s₁.Stands A m d (Q a) → Does A m d s₁ P (f a s₁) (f' a s₁.now.cursor)) :
    Does A m d s P ((x >>= f) s) ((x' >>= f') c) :=
  bind_eq hx fun a s₁ _ h => hf a s₁ h

/-- The reader may go on from the last part of what the procedure does at once. -/
theorem bind_bind {γ : Type} {x : Run β} {f : β → Run γ} {x' : Reader α} {g : α → Reader β}
    {f' : β → Reader γ} {R : γ → List Fragment} {c : Cursor}
    (hx : Does A m d s P (x s) ((x' >>= g) c))
    (hf : ∀ b s₁, s₁.Stands A m d (P b) → Does A m d s₁ R (f b s₁) (f' b s₁.now.cursor)) :
    Does A m d s R ((x >>= f) s) ((x' >>= fun a => g a >>= f') c) := by
  have hdoes : Does A m d s R ((x >>= f) s) (((x' >>= g) >>= f') c) := .bind hx hf
  rwa [bind_assoc] at hdoes

/-- What follows may look at the state. -/
theorem look {f : Parser → Run β} {f' : Cursor → Reader β}
    (hf : Does A m d s P (f s.now s) (f' s.now.cursor s.now.cursor)) :
    Does A m d s P ((Run.look >>= f) s) ((MonadState.get >>= f') s.now.cursor) := hf

theorem discard {x : Run α} {x' : Reader α} {c : Cursor}
    (h : Does A m d s (fun _ => us) (x s) (x' c)) :
    Does A m d s (fun _ => us) ((Functor.discard x : Run Unit) s)
      ((Functor.discard x' : Reader Unit) c) := by
  change Does A m d s _ (EStateM.map _ x s) (EStateM.map _ x' c)
  unfold EStateM.map
  generalize x s = r at h
  generalize x' c = y at h
  cases h with
  | ok hkeeps hs heq => exact .ok hkeeps hs fun hA => by rw [heq hA]
  | error hkeeps heq => exact .error hkeeps fun hA => by rw [heq hA]

theorem ite {b b' : Bool} {x y : Run α} {x' y' : Reader α} {c : Cursor} (hb : A → b' = b)
    (ht : b = true → Does A m d s Q (x s) (x' c)) (hf : b = false → Does A m d s Q (y s) (y' c)) :
    Does A m d s Q ((if b = true then x else y) s) ((if b' = true then x' else y') c) := by
  have h : Does A m d s Q ((if b = true then x else y) s) ((if b = true then x' else y') c) := by
    cases b with
    | true => exact ht rfl
    | false => exact hf rfl
  exact h.congr fun hA => by rw [hb hA]

end Does

namespace Session.Stands

/-- A step to a state in the same layouts and levels. -/
theorem step {p : Parser} (h : s.Stands A m d us) (hgrows : s.now.Grows p) (hsafe : p.Safe)
    (hlayouts : p.layouts = s.now.layouts) (hdepth : p.depth = s.now.depth)
    (hpending : p.Pending vs) : s.Keeps (s.to p) ∧ (s.to p).Stands A m d vs := by
  have hlayout : p.layout = s.now.layout := by rw [Parser.layout, hlayouts, Parser.layout]
  exact ⟨⟨.single ⟨rfl, hgrows, hsafe⟩, hlayouts, hdepth⟩, hsafe, hpending,
    fun hA => hlayout.trans (h.layout hA), fun hA => (congrArg (· + d) hdepth).trans (h.depth hA)⟩

theorem atBreak (h : s.Stands A m d us) (hA : A) : s.now.cursor.atBreak m = s.now.atBreak := by
  rw [Parser.atBreak, h.layout hA]

end Session.Stands

/-! ## Layouts and levels -/

namespace Session.Stands

/-- What is done between a step into another layout or level and the step back. -/
theorem does_between {B : Prop} {m' : Layout} {d' : Nat} {enter leave : Parser → Parser}
    {x : Run α} {y : Reader α} (h : s.Stands A m d us) (hAB : A → B)
    (henter : s.now.Aligned (enter s.now)) (hleave : ∀ p : Parser, p.Aligned (leave p))
    (hlayouts : (enter s.now).layouts ≠ []) (hdepth : (enter s.now).depth ≤ maxNesting)
    (hback : ∀ p : Parser, p.layouts = (enter s.now).layouts → p.depth = (enter s.now).depth →
      (leave p).layouts = s.now.layouts ∧ (leave p).depth = s.now.depth)
    (hm : B → (enter s.now).layout = m') (hd : B → (enter s.now).depth + d' = maxNesting)
    (hx : ∀ s₁, s₁.Stands B m' d' us → Does B m' d' s₁ Q (x s₁) (y s₁.now.cursor)) :
    Does A m d s Q (Run.between enter leave x s) (y s.now.cursor) := by
  have hsafe : (enter s.now).Safe := henter.safe h.safe hlayouts hdepth
  have hstep : s.Leads (s.to (enter s.now)) := .single ⟨rfl, henter.grows, hsafe⟩
  have hin : (s.to (enter s.now)).Stands B m' d' us :=
    ⟨hsafe, h.pending.of_arena_eq henter.arena, hm, hd⟩
  -- However `x` ends, the step back leads to the layouts and levels before.
  have hkeeps {s' : Session} (hs' : (s.to (enter s.now)).Keeps s') :
      s.Keeps (s'.to (leave s'.now)) ∧ (s'.to (leave s'.now)).now.Safe := by
    obtain ⟨hl, hd⟩ := hback s'.now hs'.layouts hs'.depth
    have hsafe' : (leave s'.now).Safe :=
      (hleave s'.now).safe (hs'.leads.safe hsafe) (hl ▸ h.safe.layouts) (hd ▸ h.safe.depth)
    exact ⟨⟨hstep.trans (hs'.leads.trans (.single ⟨rfl, (hleave s'.now).grows, hsafe'⟩)), hl, hd⟩,
      hsafe'⟩
  have hcursor (s' : Session) : (s'.to (leave s'.now)).now.cursor = s'.now.cursor :=
    (hleave s'.now).cursor
  have hdoes := hx _ hin
  rw [show (s.to (enter s.now)).now.cursor = s.now.cursor from henter.cursor] at hdoes
  unfold Run.between
  generalize x (s.to (enter s.now)) = r at hdoes
  generalize y s.now.cursor = r' at hdoes
  cases hdoes with
  | @ok a s' _ hs' hafter heq =>
    obtain ⟨hkept, hsafe'⟩ := hkeeps hs'
    refine .ok hkept ⟨hsafe', hafter.pending.of_arena_eq (hleave s'.now).arena, fun hA => ?_,
      fun hA => ?_⟩ fun hA => by rw [hcursor, heq (hAB hA)]
    · rw [Parser.layout, hkept.layouts]
      exact h.layout hA
    · rw [hkept.depth]
      exact h.depth hA
  | error hs' heq => exact .error (hkeeps hs').1 fun hA => by rw [hcursor, heq (hAB hA)]

theorem does_withLayout {m' : Layout} {x : Run α} {y : Reader α} (h : s.Stands A m d us)
    (hx : ∀ s₁, s₁.Stands A m' d us → Does A m' d s₁ Q (x s₁) (y s₁.now.cursor)) :
    Does A m d s Q (Run.withLayout m' x s) (y s.now.cursor) := by
  refine h.does_between id (.push ..) .pop (List.cons_ne_nil _ _) h.safe.depth
    (fun p hlayouts hdepth => ⟨?_, hdepth⟩) (fun _ => rfl) h.depth hx
  rw [Parser.pop, hlayouts]
  rfl

/-- What is done one level further in, where there is one more. -/
theorem does_between_levels {B : Prop} {d' : Nat} {x : Run α} {y : Reader α}
    (h : s.Stands A m d us) (hlt : s.now.depth < maxNesting) (hAB : A → B)
    (hm : B → s.now.layout = m) (hd : B → s.now.depth + (d' + 1) = maxNesting)
    (hx : ∀ s₁, s₁.Stands B m d' us → Does B m d' s₁ Q (x s₁) (y s₁.now.cursor)) :
    Does A m d s Q (Run.between Parser.enter Parser.leave x s) (y s.now.cursor) := by
  refine h.does_between hAB (.enter _) .leave h.safe.layouts hlt
    (fun p hlayouts hdepth => ⟨hlayouts, ?_⟩) hm (fun hB => ?_) hx
  · rw [Parser.leave, hdepth]
    rfl
  · rw [← hd hB]
    exact Nat.add_right_comm _ 1 d'

theorem does_nested {x : Run α} {y : Reader α} (h : s.Stands A m (d + 1) us)
    (hx : ∀ s₁, s₁.Stands A m d us → Does A m d s₁ Q (x s₁) (y s₁.now.cursor)) :
    Does A m (d + 1) s Q (Run.nested x s) (y s.now.cursor) := by
  unfold Run.nested
  split
  · next hle =>
    refine .error (.refl s) fun hA => ?_
    have hdepth := h.depth hA
    omega
  · next hlt => exact h.does_between_levels (Nat.lt_of_not_le hlt) id h.layout h.depth hx

/-- Where there is no more level, what is further in is not done. -/
theorem does_nested_zero {x : Run α} {y : Reader α} (h : s.Stands A m 0 us)
    (hx : ∀ s₁, s₁.Stands False m 0 us → Does False m 0 s₁ Q (x s₁) (y s₁.now.cursor)) :
    Does A m 0 s Q (Run.nested x s) (tooDeep s.now.cursor) := by
  unfold Run.nested
  split
  · exact .error (.refl s) fun _ => rfl
  · next hlt =>
    have hnot : ¬A := fun hA => by
      have hdepth := h.depth hA
      omega
    exact (h.does_between_levels (Nat.lt_of_not_le hlt) hnot nofun nofun hx).congr
      fun hA => (hnot hA).elim

/-! ## One lexeme -/

theorem take {t : Lexeme} (h : s.Stands A m d us) (ht : s.now.lexemes[s.now.pos]? = some t) :
    s.Keeps (s.to (s.now.take t)) ∧ (s.to (s.now.take t)).Stands A m d us := by
  obtain ⟨hsafe, hgrows⟩ := h.safe.take ht
  exact h.step hgrows hsafe rfl rfl (h.pending.of_arena_eq rfl)

theorem does_next (h : s.Stands A m d us) :
    Does A m d s (fun _ => us) (Run.next s) (next s.now.cursor) := by
  obtain ⟨ht, hrest⟩ | ⟨t, ht, hrest⟩ := s.now.rest_cases
  · simp only [Run.next, next, ht, hrest]
    exact .error (.refl s) fun _ => rfl
  · simp only [Run.next, next, ht, hrest]
    exact .ok (h.take ht).1 (h.take ht).2 fun _ => rfl

theorem does_expect (what : Expectation) (h : s.Stands A m d us) :
    Does A m d s (fun _ => us) (Run.expect what s) (expect what s.now.cursor) := by
  obtain ⟨ht, hrest⟩ | ⟨t, ht, hrest⟩ := s.now.rest_cases
  · simp only [Run.expect, expect, ht, hrest]
    exact .error (.refl s) fun _ => rfl
  · simp only [Run.expect, Run.next, expect, ht, hrest]
    split
    · exact .ok (h.take ht).1 (h.take ht).2 fun _ => rfl
    · exact .error (.refl s) fun _ => rfl

theorem does_symbol (mark : Symbol) (h : s.Stands A m d us) :
    Does A m d s (fun _ => us) (Run.symbol mark s) (symbol mark s.now.cursor) :=
  h.does_expect (.symbol mark)

theorem does_keyword (word : Keyword) (h : s.Stands A m d us) :
    Does A m d s (fun _ => us) (Run.keyword word s) (keyword word s.now.cursor) :=
  h.does_expect (.keyword word)

theorem does_identifier (role : String) (h : s.Stands A m d us) :
    Does A m d s (fun _ => us) (Run.identifier role s) (identifier role s.now.cursor) :=
  h.does_expect (.identifier role)

theorem does_accept (k : TokenKind) (h : s.Stands A m d us) :
    Does A m d s (fun _ => us) (Run.accept k s) (accept k s.now.cursor) := by
  have haccept : Does A m d s (fun _ => us) (Run.accept k s)
      ((do if (← get).isAt k then return some (← next) else return none : Reader _)
        s.now.cursor) :=
    .look (.ite (fun _ => rfl) (fun _ => .bind h.does_next fun _ _ h => .pure h) fun _ => .pure h)
  refine haccept.congr fun _ => ?_
  -- The reader looks at the kind of the next lexeme and takes it at once.
  change _ = (if s.now.cursor.isAt k = true then _ else _ : Reader _) s.now.cursor
  generalize s.now.cursor = c
  split
  · next hk =>
    obtain ⟨source, _ | ⟨t, ts⟩, stop, i⟩ := c
    · cases hk
    · exact accept_of_takes (.mk ..) (by simpa [Cursor.isAt, Cursor.kind?] using hk)
  · next hk => exact accept_of_kind?_ne (by simpa [Cursor.isAt] using hk)

theorem does_accepts (mark : Symbol) (h : s.Stands A m d us) :
    Does A m d s (fun _ => us) (Run.accepts mark s) (accepts mark s.now.cursor) :=
  .bind (h.does_accept _) fun _ _ h => .pure h

end Session.Stands

theorem does_unexpected :
    Does A m d s Q (Run.unexpected s) (Reader.unexpected s.now.cursor) :=
  .error (.refl s) fun _ => rfl

/-! ## Several lexemes -/

namespace Reader

variable {c : Cursor}

/-- At most `limit` semicolons, one by one. -/
def semicolonsUpTo : (limit : Nat) → Reader Unit
  | 0 => pure ()
  | limit + 1 => do if ← accepts .semicolon then semicolonsUpTo limit else pure ()

theorem semicolonsUpTo_eq {limit : Nat} (hsize : c.size ≤ limit) :
    semicolonsUpTo limit c = semicolons c := by
  induction limit generalizing c with
  | zero =>
    have hrest : c.rest = [] := List.eq_nil_of_length_eq_zero (Nat.le_zero.1 hsize)
    rw [semicolons_of_not_isAt (by simp [Cursor.isAt, Cursor.kind?, hrest])]
    rfl
  | succ limit ih =>
    change EStateM.bind (accepts .semicolon) _ c = _
    by_cases hat : c.isAt (.symbol .semicolon)
    · obtain ⟨source, _ | ⟨t, ts⟩, stop, i⟩ := c
      · cases hat
      · have hk : t.kind = .symbol .semicolon := by
          simpa [Cursor.isAt, Cursor.kind?] using hat
        have htakes : Cursor.Takes ⟨source, t :: ts, stop, i⟩ t ⟨source, ts, t.stop, i⟩ := .mk ..
        have haccepts : accepts .semicolon ⟨source, t :: ts, stop, i⟩ =
            .ok true ⟨source, ts, t.stop, i⟩ :=
          bind_eq_ok.2 ⟨some t, _, accept_of_takes htakes hk, rfl⟩
        rw [semicolons_of_skips ⟨t, htakes, hk⟩, EStateM.bind, haccepts]
        exact ih (Nat.le_of_succ_le_succ hsize)
    · have haccepts : accepts .semicolon c = .ok false c :=
        bind_eq_ok.2 ⟨none, _, accept_of_kind?_ne (by simpa [Cursor.isAt] using hat), rfl⟩
      rw [semicolons_of_not_isAt hat, EStateM.bind, haccepts]
      rfl

/-- The last of at most `limit` more names with dots before them, or the given one. -/
def lastSegmentUpTo : (limit : Nat) → (name : Lexeme) → Reader Lexeme
  | 0, name => pure name
  | limit + 1, name => do
    let s ← get
    if s.isAt (.symbol .dot) && s.secondKind? == some .identifier then
      discard next
      lastSegmentUpTo limit (← next)
    else pure name

theorem lastSegmentUpTo_eq {source : List Char} {i : NodeId} {limit : Nat} (name : Lexeme)
    (ts : List Lexeme) (hsize : ts.length ≤ limit) :
    lastSegmentUpTo limit name ⟨source, ts, name.stop, i⟩ =
      .ok (lastSegment name ts).1
        ⟨source, (lastSegment name ts).2, (lastSegment name ts).1.stop, i⟩ := by
  fun_induction lastSegment name ts generalizing limit with
  | case1 name dot t ts hk ih =>
    obtain ⟨limit, rfl⟩ : ∃ n, limit = n + 1 := ⟨limit - 1, by simp at hsize; omega⟩
    change (if _ = true then _ else _ : Reader _) _ = _
    rw [if_pos (by simp [Cursor.isAt, Cursor.kind?, Cursor.secondKind?, hk])]
    exact ih (by simp at hsize; omega)
  | case2 name dot t ts hk =>
    obtain ⟨limit, rfl⟩ : ∃ n, limit = n + 1 := ⟨limit - 1, by simp at hsize; omega⟩
    change (if _ = true then _ else _ : Reader _) _ = _
    rw [if_neg (by simpa [Cursor.isAt, Cursor.kind?, Cursor.secondKind?] using hk)]
    rfl
  | case3 name ts hshort =>
    obtain _ | limit := limit
    · rfl
    · change (if _ = true then _ else _ : Reader _) _ = _
      obtain _ | ⟨dot, _ | ⟨t, ts⟩⟩ := ts
      · rfl
      · rw [if_neg (by simp [Cursor.secondKind?])]
        rfl
      · exact absurd rfl (hshort dot t ts)

theorem qualifiedName_eq (role : String) (c : Cursor) : qualifiedName role c =
    (do
      let name ← identifier role
      lastSegmentUpTo (← get).size name : Reader _) c := by
  change EStateM.bind _ _ c = EStateM.bind _ _ c
  unfold EStateM.bind
  cases hname : identifier role c with
  | error => rfl
  | ok name c₁ =>
    obtain ⟨⟨source, name, ts, stop, i⟩, -⟩ := takes_of_identifier hname
    exact (lastSegmentUpTo_eq name ts (Nat.le_refl _)).symm

end Reader

/-- Procedures that are done several times, and the trees that they give. What is pending before
    stays so, and the trees come after it. -/
class Yields (α : Type) where
  /-- The trees that are pending after a result. -/
  onto : List Fragment → α → List Fragment
  /-- The trees that are pending after several results. -/
  allOnto : List Fragment → List α → List Fragment
  allOnto_nil : ∀ us, allOnto us [] = us
  allOnto_cons : ∀ us a as, allOnto us (a :: as) = allOnto (onto us a) as

instance : Yields Fragment where
  onto us u := us ++ [u]
  allOnto us vs := us ++ vs
  allOnto_nil := List.append_nil
  allOnto_cons := List.append_cons

instance : Yields Unit where
  onto us _ := us
  allOnto us _ := us
  allOnto_nil _ := rfl
  allOnto_cons _ _ _ := rfl

namespace Session.Stands

theorem of_eq (h : s.Stands A m d us) (heq : us = vs) : s.Stands A m d vs := heq ▸ h

section Items

variable [Yields α] {item : Run α} {item' : Reader α}

theorem does_optionally {b b' : Bool} (hb : A → b' = b) (h : s.Stands A m d us)
    (hitem : Does A m d s (Yields.onto us) (item s) (item' s.now.cursor)) :
    Does A m d s (Yields.allOnto us) (Run.optionally b item s)
      (optionally b' item' s.now.cursor) := by
  refine .ite hb (fun _ => ?_) fun _ => .pure (h.of_eq (Yields.allOnto_nil us).symm)
  refine .bind hitem fun a s₁ h => .pure (h.of_eq ?_)
  rw [Yields.allOnto_cons, Yields.allOnto_nil]

variable (hitem : ∀ {s : Session} {us : List Fragment}, s.Stands A m d us →
  Does A m d s (Yields.onto us) (item s) (item' s.now.cursor))

include hitem

theorem does_after (mark : Symbol) (h : s.Stands A m d us) :
    Does A m d s (Yields.allOnto us) (Run.after mark item s) (after mark item' s.now.cursor) :=
  .bind (h.does_accepts mark) fun _ _ h => h.does_optionally (fun _ => rfl) (hitem h)

theorem does_itemsUpTo (stop : Option TokenKind) (limit : Nat) (h : s.Stands A m d us) :
    Does A m d s (Yields.allOnto us) (Run.itemsUpTo stop item limit s)
      (itemsUpTo stop item' limit s.now.cursor) := by
  induction limit generalizing s us with
  | zero => exact .pure (h.of_eq (Yields.allOnto_nil us).symm)
  | succ limit ih =>
    rw [Run.itemsUpTo, itemsUpTo]
    refine .look (.ite (fun _ => rfl) (fun _ => .pure (h.of_eq (Yields.allOnto_nil us).symm))
      fun _ => ?_)
    refine .bind (hitem h) fun a _ h => .bind (h.does_accepts .comma) fun b _ h => ?_
    refine .ite (fun _ => rfl) (fun _ => ?_) fun _ => .pure (h.of_eq ?_)
    · refine .bind (ih h) fun as _ h => .pure (h.of_eq ?_)
      rw [Yields.allOnto_cons]
    · rw [Yields.allOnto_cons, Yields.allOnto_nil]

theorem does_items (stop : Option TokenKind) (h : s.Stands A m d us) :
    Does A m d s (Yields.allOnto us) (Run.items stop item s) (items stop item' s.now.cursor) :=
  .look (does_itemsUpTo hitem stop _ h)

theorem does_itemsTo (close : Symbol) (h : s.Stands A m d us) :
    Does A m d s (Yields.allOnto us) (Run.itemsTo close item s)
      (itemsTo close item' s.now.cursor) :=
  .bind (does_items hitem _ h) fun _ _ h => .bind (h.does_symbol close).discard
    fun _ _ h => .pure h

end Items

/-! ## Rows -/

theorem does_semicolonsUpTo (limit : Nat) (h : s.Stands A m d us) :
    Does A m d s (fun _ => us) (Run.semicolonsUpTo limit s)
      (semicolonsUpTo limit s.now.cursor) := by
  induction limit generalizing s with
  | zero => exact .pure h
  | succ limit ih =>
    exact .bind (h.does_accepts _) fun _ _ h => .ite (fun _ => rfl) (fun _ => ih h)
      fun _ => .pure h

theorem does_semicolons (h : s.Stands A m d us) :
    Does A m d s (fun _ => us) (Run.semicolons s) (semicolons s.now.cursor) :=
  (h.does_semicolonsUpTo _).congr fun _ => (semicolonsUpTo_eq (Nat.le_refl _)).symm

theorem does_rowEnd (closing : Option TokenKind) (h : s.Stands A .lines d us) :
    Does A .lines d s (fun _ => us) (Run.rowEnd closing s) (rowEnd closing s.now.cursor) := by
  refine .look (.ite (fun hA => ?_) (fun _ => .pure h) fun _ => does_unexpected)
  rw [h.atBreak hA]

section Rows

variable [Yields α] {item : Run α} {item' : Reader α} {stop : Option TokenKind → Bool}
  (hitem : ∀ {s : Session} {us : List Fragment}, s.Stands A .lines d us →
    Does A .lines d s (Yields.onto us) (item s) (item' s.now.cursor))

include hitem

theorem does_rowsUpTo (closing : Option TokenKind) (limit : Nat) (h : s.Stands A .lines d us) :
    Does A .lines d s (Yields.allOnto us) (Run.rowsUpTo stop closing item limit s)
      (rowsUpTo stop closing item' limit s.now.cursor) := by
  induction limit generalizing s us with
  | zero => exact .pure (h.of_eq (Yields.allOnto_nil us).symm)
  | succ limit ih =>
    refine .bind h.does_semicolons fun _ _ h => .look ?_
    refine .ite (fun _ => rfl) (fun _ => .pure (h.of_eq (Yields.allOnto_nil us).symm)) fun _ => ?_
    refine .bind (hitem h) fun a _ h => .bind (h.does_rowEnd closing) fun _ _ h => ?_
    refine .bind (ih h) fun as _ h => .pure (h.of_eq ?_)
    rw [Yields.allOnto_cons]

theorem does_rows (closing : Option TokenKind) (h : s.Stands A .lines d us) :
    Does A .lines d s (Yields.allOnto us) (Run.rows stop closing item s)
      (rows stop closing item' s.now.cursor) :=
  .look (does_rowsUpTo hitem closing _ h)

end Rows

/-! ## Names -/

theorem does_lastSegmentUpTo (limit : Nat) (name : Lexeme) (h : s.Stands A m d us) :
    Does A m d s (fun _ => us) (Run.lastSegmentUpTo limit name s)
      (lastSegmentUpTo limit name s.now.cursor) := by
  induction limit generalizing s name with
  | zero => exact .pure h
  | succ limit ih =>
    refine .look (.ite (fun _ => rfl) (fun _ => ?_) fun _ => .pure h)
    exact .bind h.does_next.discard fun _ _ h => .bind h.does_next fun name _ h => ih name h

theorem does_qualifiedName (role : String) (h : s.Stands A m d us) :
    Does A m d s (fun _ => us) (Run.qualifiedName role s) (qualifiedName role s.now.cursor) := by
  rw [qualifiedName_eq]
  exact .bind (h.does_identifier role) fun name _ h => .look (h.does_lastSegmentUpTo _ name)

/-! ## Nodes -/

variable {kind : NodeKind} {span : Span}

theorem does_make (kind : NodeKind) (span : Span) (h : s.Stands A m d ws) (hws : ws = us ++ vs) :
    Does A m d s (fun u => us ++ [u]) (Run.make kind span vs s)
      (make kind span vs s.now.cursor) := by
  subst hws
  obtain ⟨hgrows, hpending⟩ := h.pending.make ⟨kind, span⟩
  obtain ⟨hkeeps, hs⟩ := h.step hgrows (h.safe.make _) rfl rfl hpending
  refine .ok hkeeps hs fun _ => congrArg (EStateM.Result.ok _) ?_
  exact (s.now.cursor_make _ _).symm

theorem does_close (start : Nat) (kind : NodeKind) (h : s.Stands A m d ws)
    (hws : ws = us ++ vs) :
    Does A m d s (fun u => us ++ [u]) (Run.close start kind vs s)
      (close start kind vs s.now.cursor) :=
  h.does_make kind _ hws

theorem does_leaf (kind : NodeKind) (t : Lexeme) (h : s.Stands A m d us) :
    Does A m d s (fun u => us ++ [u]) (Run.leaf kind t s) (leaf kind t s.now.cursor) :=
  h.does_make kind _ (List.append_nil us).symm

theorem does_join {u v : Fragment} (kind : NodeKind) (h : s.Stands A m d (us ++ [u] ++ [v])) :
    Does A m d s (fun w => us ++ [w]) (Run.join kind u v s) (join kind u v s.now.cursor) :=
  h.does_make kind _ (List.append_assoc ..)

theorem does_wrap {u : Fragment} (kind : NodeKind) (h : s.Stands A m d (us ++ [u])) :
    Does A m d s (fun w => us ++ [w]) (Run.wrap kind u s) (wrap kind u s.now.cursor) :=
  h.does_make kind _ rfl

end Session.Stands

end ResultHints
