import ResultHints.Proofs.Document.Breaks
import ResultHints.Proofs.Document.Part
import ResultHints.Proofs.Token.Offset
import ResultHints.Proofs.Token.Respace

/-!
# Documents of texts with other white space

Two texts whose tokens are the same but for white space, with a line feed in both or in
none, read alike: the grammar sees the lexemes, and the line feeds between them. So both
have documents, or both have faults (`parse_alike_of_tokens`). The nodes of the one document
are those of the other, at the same tokens (`Document.Relaid`), and what is looked up in the
text and among the tokens, whether line feeds stand there, is the same of both (`Relaid.part`).
-/

namespace ResultHints

open Location

variable {source source' : List Char} {ts ts' us us' : List Token}

/-! ## Outcomes -/

/-- Both computations give results that correspond to each other, or both fail with errors that
    do. -/
inductive SameOutcome {ε α : Type} (E : ε → ε → Prop) (R : α → α → Prop) :
    Except ε α → Except ε α → Prop
  | ok {a a' : α} : R a a' → SameOutcome E R (.ok a) (.ok a')
  | error {e e' : ε} : E e e' → SameOutcome E R (.error e) (.error e')

namespace SameOutcome

variable {ε ε' α β : Type} {E : ε → ε → Prop} {E' : ε' → ε' → Prop} {R R' : α → α → Prop}
  {Q : β → β → Prop} {x x' : Except ε α}

theorem imp (h : SameOutcome E R x x') (hR : ∀ a a', R a a' → R' a a') : SameOutcome E R' x x' := by
  cases h with
  | ok ha => exact .ok (hR _ _ ha)
  | error he => exact .error he

/-- What is made of the results and of the errors corresponds to each other too. -/
theorem bind {f : ε → ε'} {g : α → β} (h : SameOutcome E R x x')
    (hE : ∀ e e', E e e' → E' (f e) (f e')) (hR : ∀ a a', R a a' → Q (g a) (g a')) :
    SameOutcome E' Q (x.mapError f >>= fun a => pure (g a))
      (x'.mapError f >>= fun a => pure (g a)) := by
  cases h with
  | ok ha => exact .ok (hR _ _ ha)
  | error he => exact .error (hE _ _ he)

theorem exists_of_ok {a : α} (h : SameOutcome E R x x') (hx : x = .ok a) :
    ∃ a', x' = .ok a' ∧ R a a' := by
  cases h with
  | ok ha =>
    cases hx
    exact ⟨_, rfl, ha⟩
  | error _ => cases hx

end SameOutcome

/-! ## Cursors -/

/-- The ruler on which the mark of an offset is where it is in the other text. -/
def Ruler.transfer (ts ts' : List Token) : Ruler :=
  ⟨ResultHints.transfer ts ts', transfer_mono ts ts'⟩

/-- The ruler on which each offset is its own mark. -/
def Ruler.plain : Ruler := ⟨id, monotone_id⟩

/-- Lexemes do not show white space but for line feeds. -/
theorem lexemesAlike_of_tokens {r r' : Ruler} {opened : List TokenKind} {named broken : Bool}
    (h : List.Forall₂ (fun t t' => t.Alike t' ∧ r.mark t.start = r'.mark t'.start ∧
      r.mark t.stop = r'.mark t'.stop) us us') :
    LexemesAlike r r' opened named (lexemes broken us) (lexemes broken us') := by
  induction h generalizing opened named broken with
  | nil => exact .nil
  | @cons t t' us us' ht _ ih =>
    obtain ⟨ht, hstart, hstop⟩ := ht
    rw [lexemes, lexemes, ht.kind]
    split
    · rw [ht.contains_eq]
      exact ih
    · next hk =>
      have hplain : t.kind ≠ .trivia .blank := by
        intro hblank
        rw [hblank] at hk
        exact hk rfl
      exact .cons ⟨ht.kind, ht.text hplain, hstart, hstop⟩ (fun _ => rfl) ih

theorem cursor_alike_of_tokens (h : Tiling 0 source ts) (h' : Tiling 0 source' ts')
    (halike : List.Forall₂ Token.Alike ts ts') :
    Cursor.Alike (.transfer ts ts') .plain [] (.ofTokens source ts) (.ofTokens source' ts') where
  rest := lexemesAlike_of_tokens <| (forall₂_sameOffset h h' halike).imp
    fun _ _ ⟨ht, hstart, hstop⟩ =>
      ⟨ht, transfer_of_sameOffset h hstart, transfer_of_sameOffset h hstop⟩
  lastStop := transfer_tokenOffset h (Nat.zero_le _)
  nextId := rfl
  finish := transfer_of_sameOffset h (sameOffset_end h h' halike.length_eq.symm)

/-! ## Faults -/

/-- The faults are the same, but for where they are: at offsets with the same number. -/
structure Fault.Alike (ts ts' : List Token) (fault fault' : Fault) : Prop where
  same : Ruler.blank.fault fault' = Ruler.blank.fault fault
  position? : Option.Rel (SameOffset ts ts') fault.position? fault'.position?

theorem Ruler.fault_plain (fault : Fault) : Ruler.plain.fault fault = fault := by
  cases fault <;> rfl

theorem Ruler.fault_blank (r : Ruler) (fault : Fault) :
    Ruler.blank.fault (r.fault fault) = Ruler.blank.fault fault := by
  cases fault <;> rfl

theorem Ruler.position?_fault (r : Ruler) (fault : Fault) :
    (r.fault fault).position? = fault.position?.map r.mark := by
  cases fault <;> rfl

/-- Faults that are the same on the rulers of both texts are the same. -/
theorem Fault.alike_of_transfer {fault fault' : Fault} (h' : Tiling 0 source' ts')
    (hlength : ts'.length = ts.length)
    (hfault : (Ruler.transfer ts ts').fault fault = Ruler.plain.fault fault')
    (hfault' : (Ruler.transfer ts' ts).fault fault' = Ruler.plain.fault fault) :
    fault.Alike ts ts' fault' := by
  rw [Ruler.fault_plain] at hfault hfault'
  refine ⟨by rw [← hfault, Ruler.fault_blank], ?_⟩
  have hposition := congrArg Fault.position? hfault
  have hposition' := congrArg Fault.position? hfault'
  rw [Ruler.position?_fault] at hposition hposition'
  cases hp : fault.position? with
  | none =>
    rw [← hposition, hp]
    exact .none
  | some p =>
    rw [← hposition, hp, Option.map_some, Option.map_some, Option.some.injEq] at hposition'
    rw [← hposition, hp, Option.map_some]
    exact .some (sameOffset_of_transfer h' hlength rfl hposition')

/-! ## Trees -/

/-- The kind of a node at a place of a text: a type has the text there. -/
def NodeKind.withText (source : List Char) (s : Span) : NodeKind → NodeKind
  | typeReference _ => typeReference (String.ofList (slice source s))
  | k => k

theorem NodeKind.untyped_withText (source : List Char) (s : Span) (k : NodeKind) :
    (k.withText source s).untyped = k.untyped := by
  cases k <;> rfl

theorem NodeKind.withText_untyped (source : List Char) (s : Span) (k : NodeKind) :
    k.untyped.withText source s = k.withText source s := by
  cases k <;> rfl

theorem HasText.withText_eq {u : Fragment} (h : HasText source u) :
    u.label.kind.withText source u.label.span = u.label.kind := by
  cases hk : u.label.kind with
  | typeReference text => rw [NodeKind.withText, h text hk, Fragment.span]
  | _ => rfl

/-- The node, with the text that a type has at its place of a text. -/
def Node.retype (source : List Char) (a : Node) : Node :=
  ⟨⟨a.kind.withText source a.span, a.span⟩, a.id⟩

/-- The labels of the same nodes at the same tokens of another text. -/
def Relabeling.respace (source' : List Char) (ts ts' : List Token) : Relabeling where
  kind a := a.kind.withText source' ⟨transfer ts ts' a.span.start, transfer ts ts' a.span.stop⟩
  place := transfer ts ts'
  number := id
  untyped_kind a := a.kind.untyped_withText _ _
  number_injective := Function.injective_id

/-- A tree that corresponds to another one is the same, with other labels. -/
theorem map_respace_of_fragmentAlike {u u' : Fragment}
    (h : FragmentAlike (.transfer ts ts') .plain u u') (htext : u'.Each (HasText source')) :
    u' = u.map (Relabeling.respace source' ts ts').node := by
  have hu' : u'.map (Node.retype source' ∘ Ruler.plain.node) = u' := by
    refine (Tree.Each.map_congr (htext.imp fun v hv => ?_)).trans (Tree.map_id u')
    have hkind := (NodeKind.withText_untyped source' v.label.span v.label.kind).trans hv.withText_eq
    exact congrArg (fun k => (⟨⟨k, v.label.span⟩, v.label.id⟩ : Node)) hkind
  have hu : u.map (Node.retype source' ∘ (Ruler.transfer ts ts').node) =
      u.map (Relabeling.respace source' ts ts').node := by
    refine congrArg (Tree.map · u) (funext fun a => ?_)
    exact congrArg (fun k => (⟨⟨k, _⟩, a.id⟩ : Node)) (NodeKind.withText_untyped source' _ a.kind)
  rw [← hu', ← hu, ← Tree.map_map, ← Tree.map_map]
  exact congrArg (Tree.map (Node.retype source')) h.symm

/-! ## Documents -/

/-- The labels of the nodes of a document at the same tokens of another one. -/
def Document.relabeling (d d' : Document) : Relabeling :=
  .respace d'.source d.tokens.toList d'.tokens.toList

/-- The tokens of the documents are the same but for white space, and the tree of the second is
    that of the first, at the same tokens. -/
structure Document.Relaid (d d' : Document) : Prop where
  regular : d.Regular
  regular' : d'.Regular
  tiling : Tiling 0 d.source d.tokens.toList
  tiling' : Tiling 0 d'.source d'.tokens.toList
  tokens : List.Forall₂ Token.Alike d.tokens.toList d'.tokens.toList
  tree : d'.root.tree = d.root.tree.map (d.relabeling d').node

/-- Of two texts whose tokens are the same but for white space, both have documents, with the same
    trees at the same tokens, or both have the same fault at the same token. -/
theorem parse_alike_of_tokens (h : tokenize source = .ok ts) (h' : tokenize source' = .ok ts')
    (halike : List.Forall₂ Token.Alike ts ts') :
    SameOutcome (Fault.Alike ts ts')
      (fun d d' => d.tokens.toList = ts ∧ d'.tokens.toList = ts' ∧ d.Relaid d')
      (Document.parse source) (Document.parse source') := by
  have ht := tiling_of_tokenize h
  have ht' := tiling_of_tokenize h'
  have hcursors := cursor_alike_of_tokens ht ht' halike
  have hcursors' := cursor_alike_of_tokens ht' ht (halike.flip.imp fun _ _ => Token.Alike.symm)
  obtain ⟨u, u', size, size', hparse, hparse', hu⟩ | ⟨fault, fault', hparse, hparse', hfault⟩ :=
    parse_alike h h' hcursors hcursors.lastStop
  · have htext : u'.Each (HasText source') :=
      Location.each_tree fun x hx => Document.hasText_of_parse hparse' hx
    rw [hparse, hparse']
    exact .ok ⟨rfl, rfl, regular_of_parse hparse, regular_of_parse hparse', ht, ht', halike,
      map_respace_of_fragmentAlike hu htext⟩
  · -- The places of faults correspond to each other both ways.
    obtain ⟨_, _, _, _, -, hother, -⟩ | ⟨e', e, hother', hother, hback⟩ :=
      parse_alike h' h hcursors' hcursors'.lastStop
    · cases hparse.symm.trans hother
    · obtain rfl := Except.error.inj (hparse.symm.trans hother)
      obtain rfl := Except.error.inj (hparse'.symm.trans hother')
      rw [hparse, hparse']
      exact .error (Fault.alike_of_transfer ht' halike.length_eq.symm hfault hback)

/-- Nodes begin and end where tokens do. -/
theorem Document.Regular.exists_tokenOffset {d : Document} {x : Place} (hd : d.Regular)
    (htiling : Tiling 0 d.source d.tokens.toList) (hx : x ∈ d.nodes) :
    ∃ i j, i ≤ j ∧ j ≤ d.tokens.toList.length ∧
      x.span = ⟨tokenOffset d.tokens.toList i, tokenOffset d.tokens.toList j⟩ := by
  by_cases hne : x = d.root
  · refine ⟨0, d.tokens.toList.length, Nat.zero_le _, Nat.le_refl _, ?_⟩
    rw [hne, hd.span, htiling.tokenOffset_length, tokenOffset_zero]
  · -- The offsets of lexemes are offsets of tokens.
    have hoffsets {t : Lexeme} (ht : t ∈ d.lexemes) : ∃ i < d.tokens.toList.length,
        t.start = tokenOffset d.tokens.toList i ∧
          t.stop = tokenOffset d.tokens.toList (i + 1) := by
      obtain ⟨i, hi⟩ := List.getElem?_of_mem (mem_of_mem_lexemes ht)
      exact ⟨i, (List.getElem?_eq_some_iff.1 hi).1, offsets_of_getElem? htiling hi⟩
    obtain ⟨⟨t, ht, hstart⟩, ⟨u, hu, hstop⟩, hlt⟩ | ⟨t, ht, hpoint⟩ := hd.delimited_or_point hx hne
    · obtain ⟨i, hi, hi', -⟩ := hoffsets ht
      obtain ⟨j, hj, -, hj'⟩ := hoffsets hu
      rw [← hstart, ← hstop, hi', hj'] at hlt
      exact ⟨i, j + 1, (tokenOffset_le_iff htiling hi.le hj).1 hlt.le, hj,
        congrArg₂ Span.mk (hstart.symm.trans hi') (hstop.symm.trans hj')⟩
    · obtain ⟨i, hi, hi', -⟩ := hoffsets ht
      exact ⟨i, i, Nat.le_refl _, hi.le, by rw [hpoint, hi', Span.point]⟩

theorem Token.Alike.any_isBlankBreak {t t' : Token} (h : t.Alike t') :
    t'.trivia?.any (·.isBlankBreak) = t.trivia?.any (·.isBlankBreak) := by
  rw [Token.trivia?, Token.trivia?, h.kind]
  cases t.kind <;> simp only [Option.any_some, Option.any_none, Trivia.isBlankBreak,
    Trivia.hasBreak, h.contains_eq]

namespace Document.Relaid

variable {d d' : Document} {x y : Place} {n n' : Nat} (h : d.Relaid d')

include h

theorem length_tokens : d'.tokens.toList.length = d.tokens.toList.length :=
  h.tokens.length_eq.symm

theorem inside_root : d'.inside (d.relabeling d') d.root = d'.root := by
  rw [inside, graft_of_above_eq_nil h.regular.above, ← h.regular'.above]

/-- The nodes of the second document are those of the first. -/
theorem descendants_eq :
    d'.root.descendants = d.root.descendants.map (d'.inside (d.relabeling d')) := by
  have hchildren : d'.root.children = d.root.children.map (d'.inside (d.relabeling d')) := by
    rw [map_inside_children h.regular, ← Tree.children_map, ← h.tree, Location.children,
      h.regular'.above]
  rw [descendants_eq_flatMap, hchildren,
    flatMap_walk_inside fun x hx => Location.above_ne_nil hx, descendants_eq_flatMap]

theorem nodes_eq : d'.nodes = d.nodes.map (d'.inside (d.relabeling d')) := by
  rw [nodes, nodes, walk_eq, walk_eq d.root, List.map_cons, h.inside_root, h.descendants_eq]

theorem label_inside (hx : x ∈ d.nodes) : (d'.inside (d.relabeling d') x).label =
    (d.relabeling d').node x.label := by
  by_cases hne : x = d.root
  · rw [hne, h.inside_root, Location.label, h.tree, Tree.label_map]
    rfl
  · exact Document.label_inside (Regular.above_ne_nil hx hne)

/-- In the places of nodes, nodes begin and end at the same tokens. -/
theorem exists_tokenOffset (hx : x ∈ d.nodes) : ∃ i j, i ≤ j ∧ j ≤ d.tokens.toList.length ∧
    x.span = ⟨tokenOffset d.tokens.toList i, tokenOffset d.tokens.toList j⟩ ∧
    ((d.relabeling d').node x.label).span =
      ⟨tokenOffset d'.tokens.toList i, tokenOffset d'.tokens.toList j⟩ := by
  obtain ⟨i, j, hij, hj, hspan⟩ := h.regular.exists_tokenOffset h.tiling hx
  refine ⟨i, j, hij, hj, hspan, ?_⟩
  have hstart : transfer d.tokens.toList d'.tokens.toList x.span.start = _ :=
    (congrArg (fun s => transfer _ _ s.start) hspan).trans
      (transfer_tokenOffset h.tiling (hij.trans hj))
  have hstop : transfer d.tokens.toList d'.tokens.toList x.span.stop = _ :=
    (congrArg (fun s => transfer _ _ s.stop) hspan).trans (transfer_tokenOffset h.tiling hj)
  exact congrArg₂ Span.mk hstart hstop

theorem sameOffset_span (hx : x ∈ d.nodes) :
    SameOffset d.tokens.toList d'.tokens.toList x.span.start
        ((d.relabeling d').node x.label).span.start ∧
      SameOffset d.tokens.toList d'.tokens.toList x.span.stop
        ((d.relabeling d').node x.label).span.stop := by
  obtain ⟨i, j, hij, hj, hspan, hspan'⟩ := h.exists_tokenOffset hx
  rw [hspan, hspan']
  exact ⟨⟨i, hij.trans hj, rfl, rfl⟩, ⟨j, hj, rfl, rfl⟩⟩

/-- White space with a line feed stands before the same tokens. -/
theorem triviaBefore?_eq (hn : SameOffset d.tokens.toList d'.tokens.toList n n') :
    (d'.triviaBefore? n').any (·.isBlankBreak) = (d.triviaBefore? n).any (·.isBlankBreak) := by
  obtain ⟨i, hi, rfl, rfl⟩ := hn
  cases i with
  | zero =>
    rw [tokenOffset_zero, tokenOffset_zero, triviaBefore?_zero h.tiling,
      triviaBefore?_zero h.tiling']
  | succ i =>
    have hi' : i < d'.tokens.toList.length := h.length_tokens ▸ hi
    have hoffset := (offsets_of_getElem? h.tiling (List.getElem?_eq_getElem hi)).2
    have hoffset' := (offsets_of_getElem? h.tiling' (List.getElem?_eq_getElem hi')).2
    rw [← hoffset, ← hoffset', triviaBefore?_stop h.tiling (List.getElem_mem hi),
      triviaBefore?_stop h.tiling' (List.getElem_mem hi')]
    exact ((List.forall₂_iff_get.1 h.tokens).2 i hi hi').any_isBlankBreak

/-- The first document is a part of the second. -/
theorem part : Part (d.relabeling d') d d' where
  children t ht := by
    rw [h.tree, Tree.children_map]
    exact List.mem_map_of_mem ht
  oneLine x hx _ := by
    obtain ⟨i, j, hij, hj, hspan, hspan'⟩ := h.exists_tokenOffset hx
    rw [hspan, hspan', slice_tokenOffset h.tiling hij, slice_tokenOffset h.tiling' hij]
    exact mem_flatMap_text_iff (List.forall₂_drop i (List.forall₂_take j h.tokens))
  beginsLine x hx y hy := by
    have hchild := mem_children_of_base? hy
    exact h.triviaBefore?_eq (h.sameOffset_span (mem_walk_of_mem_children hx hchild)).1

end Document.Relaid

end ResultHints
