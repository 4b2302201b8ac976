import Mathlib.Data.List.Forall2
import ResultHints.Proofs.Grammar.Alike.Cursor

/-!
# Readers of texts that read alike

From cursors that are alike, a reader fails with the same fault, or gives results that
correspond to each other and leads to cursors that are alike again (`Agree`). Here the
readers of one lexeme, of several, and those that make nodes are shown to do so, by the
rules for `>>=` and for branches: what decides between branches is seen ahead.
-/

namespace ResultHints

open Reader

/-- Both readings fail with the same fault at corresponding places; or both succeed, with results
    that are related by `Q`, and the cursors are alike with the given brackets open. -/
inductive Agree (r r' : Ruler) (opened : List TokenKind) {α β : Type} (Q : α → β → Prop) :
    EStateM.Result Fault Cursor α → EStateM.Result Fault Cursor β → Prop
  | ok {a : α} {b : β} {s s' : Cursor} : Q a b → s.Alike r r' opened s' →
    Agree r r' opened Q (.ok a s) (.ok b s')
  | error {e e' : Fault} {s s' : Cursor} : r.fault e = r'.fault e' →
    Agree r r' opened Q (.error e s) (.error e' s')

/-- The fragments correspond to each other. -/
def FragmentAlike (r r' : Ruler) (u u' : Fragment) : Prop := r.fragment u = r'.fragment u'

/-- The fragments correspond to each other one by one. -/
abbrev FragmentsAlike (r r' : Ruler) : List Fragment → List Fragment → Prop :=
  List.Forall₂ (FragmentAlike r r')

variable {r r' : Ruler} {opened opened' : List TokenKind} {s s' : Cursor} {m : Layout}
  {α β γ δ : Type} {Q : α → β → Prop} {P : γ → δ → Prop}

namespace FragmentAlike

variable {u u' : Fragment}

theorem span (h : FragmentAlike r r' u u') : r.span u.span = r'.span u'.span := by
  rw [← r.span_fragment, h, r'.span_fragment]

theorem start (h : FragmentAlike r r' u u') : r.mark u.span.start = r'.mark u'.span.start :=
  congrArg Span.start h.span

theorem stop (h : FragmentAlike r r' u u') : r.mark u.span.stop = r'.mark u'.span.stop :=
  congrArg Span.stop h.span

theorem node {a a' : Node} {us us' : List Fragment} (ha : r.node a = r'.node a')
    (hus : FragmentsAlike r r' us us') : FragmentAlike r r' (.node a us) (.node a' us') := by
  have hmap : us.map r.fragment = us'.map r'.fragment := by
    induction hus with
    | nil => rfl
    | cons hu _ ih => exact congrArg₂ List.cons hu ih
  rw [FragmentAlike, r.fragment_node, r'.fragment_node, ha, hmap]

end FragmentAlike

/-! ## One reader after another -/

namespace Agree

theorem bind {x : Reader α} {x' : Reader β} {f : α → Reader γ} {f' : β → Reader δ}
    (h : Agree r r' opened Q (x s) (x' s'))
    (hf : ∀ a a' t t', Q a a' → t.Alike r r' opened t' →
      Agree r r' opened' P (f a t) (f' a' t')) :
    Agree r r' opened' P ((x >>= f) s) ((x' >>= f') s') := by
  change Agree r r' opened' P (EStateM.bind x f s) (EStateM.bind x' f' s')
  unfold EStateM.bind
  generalize x s = a at h
  generalize x' s' = a' at h
  cases h with
  | ok hQ ht => exact hf _ _ _ _ hQ ht
  | error he => exact .error he

/-- What is read of the second reading may depend on what the first has done. -/
theorem bind_eq {x : Reader α} {x' : Reader β} {f : α → Reader γ} {f' : β → Reader δ}
    (h : Agree r r' opened Q (x s) (x' s'))
    (hf : ∀ a a' t t', x s = .ok a t → Q a a' → t.Alike r r' opened t' →
      Agree r r' opened' P (f a t) (f' a' t')) :
    Agree r r' opened' P ((x >>= f) s) ((x' >>= f') s') := by
  change Agree r r' opened' P (EStateM.bind x f s) (EStateM.bind x' f' s')
  unfold EStateM.bind
  generalize hx : x s = a at h
  generalize x' s' = a' at h
  cases h with
  | ok hQ ht => exact hf _ _ _ _ hx hQ ht
  | error he => exact .error he

theorem pure {a : α} {b : β} (hQ : Q a b) (h : s.Alike r r' opened s') :
    Agree r r' opened Q ((Pure.pure a : Reader α) s) ((Pure.pure b : Reader β) s') := .ok hQ h

/-- What follows may look at the cursor. -/
theorem get {f : Cursor → Reader γ} {f' : Cursor → Reader δ}
    (hf : Agree r r' opened P (f s s) (f' s' s')) :
    Agree r r' opened P ((MonadState.get >>= f) s) ((MonadState.get >>= f') s') := hf

theorem discard {x : Reader α} {x' : Reader β} (h : Agree r r' opened Q (x s) (x' s')) :
    Agree r r' opened (fun _ _ => True) ((Functor.discard x : Reader Unit) s)
      ((Functor.discard x' : Reader Unit) s') := by
  change Agree r r' opened _ (EStateM.map _ x s) (EStateM.map _ x' s')
  unfold EStateM.map
  generalize x s = a at h
  generalize x' s' = a' at h
  cases h with
  | ok _ ht => exact .ok trivial ht
  | error he => exact .error he

theorem ite {b b' : Bool} {x y : Reader α} {x' y' : Reader β} (hb : b' = b)
    (ht : b = true → Agree r r' opened Q (x s) (x' s'))
    (hf : b = false → Agree r r' opened Q (y s) (y' s')) :
    Agree r r' opened Q ((if b = true then x else y) s) ((if b' = true then x' else y') s') := by
  subst hb
  cases b' with
  | true => exact ht rfl
  | false => exact hf rfl

end Agree

/-! ## One lexeme -/

namespace Cursor.Alike

/-- The cursors are alike behind the next lexeme. -/
theorem taken {t t' : Lexeme} {ts ts' : List Lexeme} (h : s.Alike r r' opened s')
    (ht : t.Alike r r' t') (hts : LexemesAlike r r' opened' false ts ts') :
    Cursor.Alike r r' opened' ⟨s.source, ts, t.stop, s.nextId⟩
      ⟨s'.source, ts', t'.stop, s'.nextId⟩ :=
  ⟨hts, ht.stop, h.nextId, h.finish⟩

variable (h : s.Alike r r' opened s')

include h

theorem agree_next {k : TokenKind} (hk : s.kind? = some k) :
    Agree r r' (openAfter opened k) (Lexeme.Alike r r') (next s) (next s') := by
  obtain ⟨hrest, -⟩ | ⟨t, ts, t', ts', hrest, hrest', ht, -, hts⟩ := h.next_cases
  · rw [Cursor.kind?, hrest] at hk
    cases hk
  · obtain rfl : t.kind = k := by
      rw [Cursor.kind?, hrest] at hk
      exact Option.some.inj hk
    simp only [next, hrest, hrest']
    exact .ok ht (h.taken ht hts)

/-- The next lexeme, if it is no bracket. -/
theorem agree_next_inside {k : TokenKind} (hk : s.kind? = some k) (hbracket : k.isBracket = false) :
    Agree r r' opened (Lexeme.Alike r r') (next s) (next s') := by
  have hnext := h.agree_next hk
  rwa [openAfter_of_not_isBracket hbracket] at hnext

theorem agree_expect (what : Expectation) :
    Agree r r' (openAfter opened what.kind) (Lexeme.Alike r r') (expect what s)
      (expect what s') := by
  obtain ⟨hrest, hrest'⟩ | ⟨t, ts, t', ts', hrest, hrest', ht, -, hts⟩ := h.next_cases
  · simp only [expect, hrest, hrest']
    exact .error rfl
  · simp only [expect, hrest, hrest', ht.kind]
    split
    · next hk => exact .ok ht (h.taken ht (hk ▸ hts))
    · refine .error ?_
      rw [Ruler.fault, Ruler.fault, ht.start, Token.string, Token.string, ht.text]

theorem agree_symbol (mark : Symbol) :
    Agree r r' (openAfter opened (.symbol mark)) (Lexeme.Alike r r') (symbol mark s)
      (symbol mark s') :=
  h.agree_expect (.symbol mark)

theorem agree_keyword (word : Keyword) :
    Agree r r' opened (Lexeme.Alike r r') (keyword word s) (keyword word s') :=
  h.agree_expect (.keyword word)

theorem agree_identifier (role : String) :
    Agree r r' opened (Lexeme.Alike r r') (identifier role s) (identifier role s') :=
  h.agree_expect (.identifier role)

theorem agree_accept {k : TokenKind} (hk : k.isBracket = false) :
    Agree r r' opened (Option.Rel (Lexeme.Alike r r')) (accept k s) (accept k s') := by
  obtain ⟨hrest, hrest'⟩ | ⟨t, ts, t', ts', hrest, hrest', ht, -, hts⟩ := h.next_cases
  · simp only [accept, hrest, hrest']
    exact .ok .none h
  · simp only [accept, hrest, hrest', ht.kind]
    split
    · next hkt =>
      rw [hkt, openAfter_of_not_isBracket hk] at hts
      exact .ok (.some ht) (h.taken ht hts)
    · exact .ok .none h

theorem agree_accepts {mark : Symbol} (hk : (TokenKind.symbol mark).isBracket = false) :
    Agree r r' opened Eq (accepts mark s) (accepts mark s') := by
  refine .bind (h.agree_accept hk) fun o o' t t' ho ht => .pure ?_ ht
  cases ho <;> rfl

/-- Behind a symbol that is taken, the brackets are those after it. -/
theorem agree_ite_accepts {mark : Symbol} {x y : Reader α} {x' y' : Reader β}
    (hx : ∀ {t t' : Cursor}, t.Alike r r' (openAfter opened (.symbol mark)) t' →
      Agree r r' opened' Q (x t) (x' t'))
    (hy : Agree r r' opened' Q (y s) (y' s')) :
    Agree r r' opened' Q ((accepts mark >>= fun b => if b = true then x else y) s)
      ((accepts mark >>= fun b => if b = true then x' else y') s') := by
  by_cases hk : s.kind? = some (.symbol mark)
  · obtain ⟨hrest, -⟩ | ⟨t, ts, t', ts', hrest, hrest', ht, -, hts⟩ := h.next_cases
    · rw [Cursor.kind?, hrest] at hk
      cases hk
    · have hkt : t.kind = .symbol mark := by
        rw [Cursor.kind?, hrest] at hk
        exact Option.some.inj hk
      have hs : accepts mark s = .ok true ⟨s.source, ts, t.stop, s.nextId⟩ :=
        bind_eq_ok.2 ⟨some t, _, by simp [accept, hrest, hkt], rfl⟩
      have hs' : accepts mark s' = .ok true ⟨s'.source, ts', t'.stop, s'.nextId⟩ :=
        bind_eq_ok.2 ⟨some t', _, by simp [accept, hrest', ht.kind, hkt], rfl⟩
      rw [hkt] at hts
      change Agree r r' opened' Q (EStateM.bind _ _ s) (EStateM.bind _ _ s')
      rw [EStateM.bind, EStateM.bind, hs, hs']
      exact hx (h.taken ht hts)
  · have hs : accepts mark s = .ok false s :=
      bind_eq_ok.2 ⟨none, _, accept_of_kind?_ne hk, rfl⟩
    have hs' : accepts mark s' = .ok false s' :=
      bind_eq_ok.2 ⟨none, _, accept_of_kind?_ne (by rwa [h.kind?]), rfl⟩
    change Agree r r' opened' Q (EStateM.bind _ _ s) (EStateM.bind _ _ s')
    rw [EStateM.bind, EStateM.bind, hs, hs']
    exact hy

theorem agree_unexpected :
    Agree r r' opened' Q (Reader.unexpected (α := α) s) (Reader.unexpected (α := β) s') :=
  .error h.unexpected

/-! ## Several lexemes -/

theorem agree_optionally {b b' : Bool} {item : Reader α} {item' : Reader β} (hb : b' = b)
    (hitem : b = true → Agree r r' opened Q (item s) (item' s')) :
    Agree r r' opened (List.Forall₂ Q) (optionally b item s) (optionally b' item' s') := by
  refine .ite hb (fun hb => ?_) fun _ => .pure .nil h
  exact .bind (hitem hb) fun a a' t t' hQ ht => .pure (.cons hQ .nil) ht

theorem agree_after {mark : Symbol} {item : Reader α} {item' : Reader β}
    (hk : (TokenKind.symbol mark).isBracket = false)
    (hitem : ∀ {t t' : Cursor}, t.Alike r r' opened t' →
      Agree r r' opened Q (item t) (item' t')) :
    Agree r r' opened (List.Forall₂ Q) (after mark item s) (after mark item' s') :=
  .bind (h.agree_accepts hk) fun _ _ _ _ hb ht => ht.agree_optionally hb.symm fun _ => hitem ht

theorem agree_semicolons : Agree r r' opened Eq (semicolons s) (semicolons s') := by
  obtain ⟨source, rest, stop, i⟩ := s
  induction rest generalizing stop s' with
  | nil =>
    have hat : ¬s'.isAt (.symbol .semicolon) := by
      rw [h.isAt]
      simp [Cursor.isAt, Cursor.kind?]
    rw [semicolons_of_not_isAt hat]
    exact .ok rfl h
  | cons t rest ih =>
    obtain ⟨⟨⟩, -⟩ | ⟨_, _, t', ts', ⟨rfl, rfl⟩, hrest', ht, -, hts⟩ := h.next_cases
    by_cases hk : t.kind = .symbol .semicolon
    · -- Behind a semicolon that is passed on both sides.
      rw [hk, openAfter_of_not_isBracket rfl] at hts
      obtain ⟨source', rest', stop', i'⟩ := s'
      obtain rfl : rest' = t' :: ts' := hrest'
      rw [semicolons_of_skips ⟨t, .mk .., hk⟩, semicolons_of_skips ⟨t', .mk .., ht.kind.trans hk⟩]
      exact ih _ (h.taken ht hts)
    · have hat : ¬Cursor.isAt (.symbol .semicolon) ⟨source, t :: rest, stop, i⟩ := by
        simpa [Cursor.isAt, Cursor.kind?] using hk
      rw [semicolons_of_not_isAt hat, semicolons_of_not_isAt (by rwa [h.isAt])]
      exact .ok rfl h

end Cursor.Alike

section Several

variable {item : Reader α} {item' : Reader β}
  (hitem : ∀ {t t' : Cursor}, t.Alike r r' opened t' → Agree r r' opened Q (item t) (item' t'))

include hitem

theorem agree_itemsUpTo (stop : Option TokenKind) (limit : Nat) (h : s.Alike r r' opened s') :
    Agree r r' opened (List.Forall₂ Q) (itemsUpTo stop item limit s)
      (itemsUpTo stop item' limit s') := by
  induction limit generalizing s s' with
  | zero => exact .pure .nil h
  | succ limit ih =>
    rw [itemsUpTo, itemsUpTo]
    refine .get (.ite (by rw [h.kind?]) (fun _ => .pure .nil h) fun _ => ?_)
    refine .bind (hitem h) fun a a' t t' hQ ht => ?_
    refine .bind (ht.agree_accepts rfl) fun b b' t t' hb ht => ?_
    refine .ite hb.symm (fun _ => ?_) fun _ => ?_
    · exact .bind (ih ht) fun as as' t t' has ht => .pure (.cons hQ has) ht
    · exact .pure (.cons hQ .nil) ht

theorem agree_items (stop : Option TokenKind) (h : s.Alike r r' opened s') :
    Agree r r' opened (List.Forall₂ Q) (items stop item s) (items stop item' s') := by
  refine .get ?_
  rw [h.size]
  exact agree_itemsUpTo hitem stop _ h

theorem agree_itemsTo (close : Symbol) (h : s.Alike r r' opened s') :
    Agree r r' (openAfter opened (.symbol close)) (List.Forall₂ Q) (itemsTo close item s)
      (itemsTo close item' s') := by
  refine .bind (agree_items hitem _ h) fun as as' t t' has ht => ?_
  exact .bind (ht.agree_symbol close).discard fun _ _ t t' _ ht => .pure has ht

end Several

theorem agree_rowEnd (closing : Option TokenKind) (h : s.Alike r r' opened s')
    (hcount : breaksCount opened) :
    Agree r r' opened (fun _ _ => True) (rowEnd closing s) (rowEnd closing s') := by
  refine .get (.ite ?_ (fun _ => .pure trivial h) fun _ => h.agree_unexpected)
  rw [h.kind?, h.atBreak (Layout.fits_lines hcount)]

section Rows

variable {item : Reader α} {item' : Reader β} {stop : Option TokenKind → Bool}
  (hitem : ∀ {t t' : Cursor}, t.Alike r r' opened t' → stop t.kind? = false →
    Agree r r' opened Q (item t) (item' t'))

include hitem

theorem agree_rowsUpTo (closing : Option TokenKind) (limit : Nat)
    (h : s.Alike r r' opened s') (hcount : breaksCount opened) :
    Agree r r' opened (List.Forall₂ Q) (rowsUpTo stop closing item limit s)
      (rowsUpTo stop closing item' limit s') := by
  induction limit generalizing s s' with
  | zero => exact .pure .nil h
  | succ limit ih =>
    refine .bind h.agree_semicolons fun _ _ t t' _ ht => .get ?_
    refine .ite (by rw [ht.kind?]) (fun _ => .pure .nil ht) fun hstop => ?_
    refine .bind (hitem ht hstop) fun a a' t t' hQ ht => ?_
    refine .bind (agree_rowEnd closing ht hcount) fun _ _ t t' _ ht => ?_
    exact .bind (ih ht) fun as as' t t' has ht => .pure (.cons hQ has) ht

theorem agree_rows (closing : Option TokenKind) (h : s.Alike r r' opened s')
    (hcount : breaksCount opened) :
    Agree r r' opened (List.Forall₂ Q) (rows stop closing item s) (rows stop closing item' s') := by
  refine .get ?_
  rw [h.size]
  exact agree_rowsUpTo hitem closing _ h hcount

end Rows

/-- The last of the names and what follows it correspond. -/
theorem lastSegment_alike {t t' : Lexeme} {ts ts' : List Lexeme} (ht : t.Alike r r' t')
    (h : LexemesAlike r r' opened false ts ts') :
    (lastSegment t ts).1.Alike r r' (lastSegment t' ts').1 ∧
      LexemesAlike r r' opened false (lastSegment t ts).2 (lastSegment t' ts').2 := by
  fun_induction lastSegment t ts generalizing t' ts' with
  | case1 name dot t ts hk ih =>
    obtain _ | ⟨hdot, hbreak, hts⟩ := h
    rw [hk.1, openAfter_of_not_isBracket rfl] at hts
    obtain _ | ⟨htail, hbreak', hts⟩ := hts
    rw [hk.2, openAfter_of_not_isBracket rfl] at hts
    rw [lastSegment, if_pos ⟨hdot.kind.trans hk.1, htail.kind.trans hk.2⟩]
    exact ih htail hts.unnamed
  | case2 name dot t ts hk =>
    have hall := h
    obtain _ | ⟨hdot, hbreak, hts⟩ := h
    obtain _ | ⟨htail, hbreak', hts⟩ := hts
    rw [lastSegment, if_neg (by rwa [hdot.kind, htail.kind])]
    exact ⟨ht, hall⟩
  | case3 name ts hshort =>
    have hsame : lastSegment t' ts' = (t', ts') := by
      cases h with
      | nil => rfl
      | cons hdot hbreak hts =>
        cases hts with
        | nil => rfl
        | cons => exact absurd rfl (hshort _ _ _)
    rw [hsame]
    exact ⟨ht, h⟩

theorem agree_qualifiedName (role : String) (h : s.Alike r r' opened s') :
    Agree r r' opened (Lexeme.Alike r r') (qualifiedName role s) (qualifiedName role s') := by
  refine .bind (h.agree_identifier role) fun name name' t t' hname ht => ?_
  obtain ⟨hlast, hrest⟩ := lastSegment_alike hname ht.rest
  exact .ok hlast (ht.taken hlast hrest)

/-! ## Nodes -/

section Nodes

variable {kind kind' : NodeKind} {us us' : List Fragment}

theorem agree_make {span span' : Span} (h : s.Alike r r' opened s')
    (hkind : kind.untyped = kind'.untyped) (hspan : r.span span = r'.span span')
    (hus : FragmentsAlike r r' us us') :
    Agree r r' opened (FragmentAlike r r') (make kind span us s) (make kind' span' us' s') := by
  refine .ok (.node ?_ hus) ⟨h.rest, h.lastStop, congrArg (· + 1) h.nextId, h.finish⟩
  rw [Ruler.node, Ruler.node, hkind, hspan, h.nextId]

theorem agree_spanFrom {start start' : Nat} (h : s.Alike r r' opened s')
    (hstart : r.mark start = r'.mark start') :
    Agree r r' opened (fun a b => r.span a = r'.span b) (spanFrom start s)
      (spanFrom start' s') := by
  refine .ok ?_ h
  rw [Ruler.span, Ruler.span, hstart, r.mark_max, r'.mark_max, h.lastStop, hstart]

theorem agree_close {start start' : Nat} (h : s.Alike r r' opened s')
    (hstart : r.mark start = r'.mark start') (hkind : kind.untyped = kind'.untyped)
    (hus : FragmentsAlike r r' us us') :
    Agree r r' opened (FragmentAlike r r') (close start kind us s) (close start' kind' us' s') :=
  .bind (agree_spanFrom h hstart) fun _ _ _ _ hspan ht => agree_make ht hkind hspan hus

theorem agree_leaf {t t' : Lexeme} (h : s.Alike r r' opened s') (ht : t.Alike r r' t')
    (hkind : kind.untyped = kind'.untyped) :
    Agree r r' opened (FragmentAlike r r') (leaf kind t s) (leaf kind' t' s') :=
  agree_make h hkind (congrArg₂ Span.mk ht.start ht.stop) .nil

theorem agree_join {u u' v v' : Fragment} (h : s.Alike r r' opened s')
    (hu : FragmentAlike r r' u u') (hv : FragmentAlike r r' v v') :
    Agree r r' opened (FragmentAlike r r') (join kind u v s) (join kind u' v' s') :=
  agree_make h rfl (congrArg₂ Span.mk hu.start hv.stop) (.cons hu (.cons hv .nil))

theorem agree_wrap {u u' : Fragment} (h : s.Alike r r' opened s')
    (hu : FragmentAlike r r' u u') :
    Agree r r' opened (FragmentAlike r r') (wrap kind u s) (wrap kind u' s') :=
  agree_make h rfl hu.span (.cons hu .nil)

end Nodes

end ResultHints
