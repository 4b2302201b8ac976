import ResultHints.Proofs.Grammar.Sound
import ResultHints.Proofs.Tree.Each

/-!
# The ids of what is read

A node gets its id when it is made, and no node that is made is left out of what is
read: the fragments have the ids from the free one before to the free one after
them, in postorder and without gaps (`Numbered`). Main statements:

- `numbered_of_reads`: so it is for all that the grammar accepts;
- `readsFile_of_expressionsThenFile`: and for expressions before a file.
-/

namespace ResultHints

/-- The fragments have the ids from `i` up to, but without, `j`, in postorder. -/
structure Numbered (i : NodeId) (us : List Fragment) (j : NodeId) : Prop where
  next : j = i + Tree.sizeAll us
  ids : (Tree.postorderAll us).map (·.id) = List.range' i (Tree.sizeAll us)

variable {s s₁ s₂ s' : Cursor} {t : Lexeme} {ts : List Lexeme} {i j k : NodeId} {u : Fragment}
  {us vs : List Fragment}

namespace Numbered

theorem nil : Numbered i [] i := ⟨rfl, rfl⟩

theorem append (h : Numbered i us j) (h' : Numbered j vs k) : Numbered i (us ++ vs) k := by
  obtain ⟨rfl, hus⟩ := h
  obtain ⟨rfl, hvs⟩ := h'
  refine ⟨by rw [Tree.sizeAll_append, Nat.add_assoc], ?_⟩
  rw [Tree.postorderAll_append, List.map_append, hus, hvs, Tree.sizeAll_append,
    List.range'_append_1]

theorem before (h : Numbered i us j) (h' : Numbered j [] k) : Numbered i us k := by
  have := h.append h'
  rwa [List.append_nil] at this

/-- Each of the fragments has consecutive ids, from the one after those of the fragments before
    it. -/
theorem ids_of_append_cons {t : Fragment} (h : Numbered i (us ++ t :: vs) j) :
    t.postorder.map (·.id) = List.range' (i + Tree.sizeAll us) t.size := by
  have hids := h.ids
  rw [Tree.postorderAll_append, Tree.sizeAll_append, List.map_append, ← List.range'_append_1,
    Tree.postorderAll, Tree.sizeAll, List.map_append, ← List.range'_append_1] at hids
  have hrest := (List.append_inj hids (by simp [Tree.length_postorderAll])).2
  exact (List.append_inj hrest (by simp [Tree.length_postorder])).1

/-- To make a node above the fragments is to number it next. -/
theorem make (h : Numbered i us s.nextId) (kind : NodeKind) (span : Span) :
    Numbered i [s.make kind span us] s.made.nextId := by
  obtain ⟨hnext, hids⟩ := h
  have hsize : Tree.sizeAll [s.make kind span us] = Tree.sizeAll us + 1 := rfl
  refine ⟨by rw [hsize, ← Nat.add_assoc, ← hnext]; rfl, ?_⟩
  have hpostorder : Tree.postorderAll [s.make kind span us] =
      Tree.postorderAll us ++ [⟨⟨kind, span⟩, s.nextId⟩] := List.append_nil _
  rw [hpostorder, List.map_append, hids, hsize, List.range'_1_concat, ← hnext]
  rfl

end Numbered

/-! ## Moving the cursor -/

namespace Cursor

theorem Takes.numbered (ht : s.Takes t s') : Numbered s.nextId [] s'.nextId := by
  cases ht
  exact .nil

theorem Moves.numbered (hm : s.Moves ts s') : Numbered s.nextId [] s'.nextId := by
  induction hm with
  | nil => exact .nil
  | cons ht _ ih => exact ht.numbered.append ih

theorem Skips.numbered {kind : TokenKind} (hs : s.Skips kind s') :
    Numbered s.nextId [] s'.nextId := by
  obtain ⟨t, ht, -⟩ := hs
  exact ht.numbered

theorem Refers.numbered {label : Option String} (h : s.Refers label s') :
    Numbered s.nextId [] s'.nextId := by
  cases h with
  | none => exact .nil
  | some ht => exact ht.numbered

end Cursor

/-! ## All that is accepted -/

/-- All that is accepted is numbered in postorder, from the free id before to that after it. -/
theorem numbered_of_reads {n : Nat} {p : Phrase} (h : Reads n p s us s') :
    Numbered s.nextId us s'.nextId := by
  induction h with
  | absent | unmarked | noMore | noItem | noRow | noLambdaHead => exact .nil
  | present _ ih | lastItem _ ih | chainStart _ ih | value _ ih | blockBody _ ih | valueBody _ ih
  | lambdaAlone _ ih | suffixStart _ ih | plainOperand _ ih | plainLambda _ ih
  | blockFunctionBody _ ih | valueFunctionBody _ ih | declaration _ ih
  | assignmentStatement _ ih => exact ih
  | marked hs _ ih | semicolon hs _ ih | lateElseBranch hs _ ih => exact hs.numbered.append ih
  | more _ _ ihu ihs | row _ _ _ ihu ihs => exact ihu.append ihs
  | item _ hs _ ihu ihs => exact (ihu.before hs.numbered).append ihs
  | lambdaHead _ hs ih => exact ih.before hs.numbered
  -- Nodes over nothing that is a node.
  | typeReference hm => exact hm.numbered.make ..
  | literal ht | name ht | memberName ht => exact ht.numbered.make ..
  | this ht _ hr | break_ ht _ hr | continue_ ht _ hr =>
    exact (ht.numbered.append hr.numbered).make ..
  | directive ht hm => exact (ht.numbered.append hm.numbered).make ..
  -- Nodes over one phrase.
  | argument _ ih | lambdaArgument _ _ ih | valueCondition _ ih => exact ih.make ..
  | namedArgument ht _ hs _ ih => exact (ht.numbered.append (hs.numbered.append ih)).make ..
  | argumentList ht _ _ hs ih | parenthesized ht _ _ hs ih =>
    exact (ht.numbered.append (ih.before hs.numbered)).make ..
  | annotationEntry ht _ _ ih | typeCondition ht _ _ ih | membershipCondition ht _ _ ih
  | throw_ ht _ _ ih | leading ht _ _ ih | labeled ht _ _ ih | labeledLambda ht _ _ ih =>
    exact (ht.numbered.append ih).make ..
  | enclosed _ hs _ hs' ih => exact (hs.numbered.append (ih.before hs'.numbered)).make ..
  | elseBranch hs _ ih => exact (hs.numbered.append ih).make ..
  | elseEntry hs hs' _ ih => exact (hs.numbered.append (hs'.numbered.append ih)).make ..
  | return_ ht _ hr _ ih => exact (ht.numbered.append (hr.numbered.append ih)).make ..
  | trailing _ ht _ ih => exact (ih.before ht.numbered).make ..
  | block hopen _ _ hclose _ ih =>
    exact (hopen.numbered.append (ih.before hclose.numbered)).make ..
  -- Nodes over several phrases.
  | binary _ ht _ _ _ _ ihu ihv | typing _ ht _ _ _ _ _ ihu ihv | assignment _ ht _ _ ihu ihv =>
    exact (ihu.append (ht.numbered.append ihv)).make ..
  | whenEntry _ _ hs _ ihcs ihb => exact (ihcs.append (hs.numbered.append ihb)).make ..
  | when_ ht _ _ hs _ hs' ihus ihes =>
    exact (ht.numbered.append (ihus.append (hs.numbered.append (ihes.before hs'.numbered)))).make ..
  | qualified _ hs _ ihu ihv => exact (ihu.append (hs.numbered.append ihv)).make ..
  | arrayAccess _ hs _ _ hs' ihu ihus =>
    exact (ihu.append (hs.numbered.append (ihus.before hs'.numbered))).make ..
  | call _ _ _ _ ihu ihus ihvs => exact (ihu.append (ihus.append ihvs)).make ..
  | annotated _ _ _ ihes ihus => exact (ihes.append ihus).make ..
  | annotatedLambda _ _ _ ihes ihu | annotatedDeclaration _ _ _ _ ihes ihu =>
    exact (ihes.append ihu).make ..
  | parameter ht _ _ _ ihus ihvs => exact (ht.numbered.append (ihus.append ihvs)).make ..
  | property ht _ hname _ _ _ ihus ihvs =>
    exact (ht.numbered.append (hname.numbered.append (ihus.append ihvs))).make ..
  | function ht _ hm _ _ hopen _ hclose _ _ ihps ihus ihvs =>
    have hps := hm.numbered.append (hopen.numbered.append (ihps.before hclose.numbered))
    exact (ht.numbered.append ((hps.append ihus).append ihvs)).make ..
  -- Nodes that are made between phrases, or several at once.
  | ifElse ht _ _ _ _ _ ihc ihb ihes =>
    exact (ht.numbered.append (ihc.append ((ihb.make ..).append ihes))).make ..
  | forLoop ht _ hopen hname _ hin _ hclose _ ihu ihb =>
    have hname := (ht.numbered.append hopen.numbered).append hname.numbered
    have hu := hin.numbered.append (ihu.before hclose.numbered)
    exact ((hname.append (hu.make ..)).append (ihb.make ..)).make ..
  | whileLoop ht _ _ _ ihc ihb => exact (ht.numbered.append (ihc.append (ihb.make ..))).make ..
  | memberCall ht _ _ _ _ ihus ihvs =>
    exact ((ht.numbered.make ..).append (ihus.append ihvs)).make ..
  | lambda hopen _ _ _ hclose _ ihps ihus =>
    have hbody := (ihus.before hclose.numbered).make .block
    exact (((hopen.numbered.append (ihps.append (hbody _))).make ..).make ..)

theorem numbered_of_readsFile {n : Nat} (h : ReadsFile n s u s') :
    Numbered s.nextId [u] s'.nextId := by
  obtain ⟨hps, his, hus⟩ := h
  have hall := ((numbered_of_reads hps).append (numbered_of_reads his)).append
    (numbered_of_reads hus)
  exact hall.make ..

/-- To read some expressions and then a file is to read the expressions and a file after them. -/
theorem readsFile_of_expressionsThenFile {count : Nat}
    (h : expressionsThenFile count s = (us, .ok (u, s'))) :
    us.length = count ∧ ∃ s₁, Numbered s.nextId us s₁.nextId ∧ ReadsFile maxNesting s₁ u s' := by
  induction count generalizing s us with
  | zero =>
    rw [expressionsThenFile] at h
    split at h
    · next hfile =>
      obtain ⟨rfl, ⟨rfl, rfl⟩⟩ := by simpa using h
      exact ⟨rfl, s, .nil, readsFile_of_file hfile⟩
    · simp at h
  | succ count ih =>
    rw [expressionsThenFile] at h
    split at h
    · next v s₁ hexpression =>
      obtain ⟨rfl, houtcome⟩ := Prod.mk.inj h
      obtain ⟨hlength, s₂, hrest, hfile⟩ := ih (Prod.ext rfl houtcome)
      exact ⟨congrArg (· + 1) hlength, s₂,
        (numbered_of_reads (reads_expression hexpression)).append hrest, hfile⟩
    · simp at h

end ResultHints
