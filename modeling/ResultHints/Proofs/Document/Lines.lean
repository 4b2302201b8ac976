import ResultHints.Proofs.Document.Extent
import ResultHints.Proofs.Document.Part
import ResultHints.Proofs.Grammar.Measured
import ResultHints.Proofs.Token.Offset

/-!
# Lines and lexemes

Whether a line break stands in the text of a node is told by the lexemes that it covers: by
their texts, and by the line breaks before all of them but the first. Main statement:

- `isOneLine_eq`: a node is on one line if its lexemes are.
-/

namespace ResultHints

open Location

/-! ## Lexemes by number -/

/-- How many of the lexemes end at an offset or before it. -/
def lexemesUpTo (L : List Lexeme) (n : Nat) : Nat := L.countP fun t => t.stop ≤ n

/-- The lexemes that a span covers. -/
def lexemesIn (L : List Lexeme) (s : Span) : List Lexeme :=
  (L.take (lexemesUpTo L s.stop)).drop (lexemesUpTo L s.start)

/-- Whether a line break stands in the text of a lexeme, or before one that is not the first. -/
def breaksIn : List Lexeme → Bool
  | [] => false
  | t :: ts => t.text.contains '\n' || ts.any fun u => u.afterBreak || u.text.contains '\n'

variable {A B S : List Lexeme} {lo : Nat} {t u : Lexeme} {source : List Char} {d : Document}
  {x : Place} {broken : Bool} {ts seg pre post : List Token}

theorem lexemesUpTo_eq_length {n : Nat} (hA : ∀ t ∈ A, t.stop ≤ n) (hB : ∀ t ∈ B, n < t.stop) :
    lexemesUpTo (A ++ B) n = A.length := by
  have hall : A.countP (fun t => t.stop ≤ n) = A.length :=
    List.countP_eq_length.2 fun t ht => by simpa using hA t ht
  have hnone : B.countP (fun t => t.stop ≤ n) = 0 :=
    List.countP_eq_zero.2 fun t ht => by simpa using hB t ht
  rw [lexemesUpTo, List.countP_append, hall, hnone, Nat.add_zero]

theorem InOrder.stop_le (h : InOrder lo (A ++ t :: B)) : ∀ u ∈ A, u.stop ≤ t.start := by
  intro u hu
  obtain ⟨hstops, hrest⟩ := h.split
  have hle := hstops u hu
  obtain ⟨v, hv⟩ : ∃ v, A.getLast? = some v := by
    cases hlast : A.getLast? with
    | none => exact absurd (List.getLast?_eq_none_iff.1 hlast ▸ hu) List.not_mem_nil
    | some v => exact ⟨v, rfl⟩
  exact hle.trans hrest.1

theorem InOrder.stop_le_start (h : InOrder lo (A ++ t :: B)) : ∀ u ∈ B, t.stop ≤ u.start :=
  fun _ hu => h.split.2.2.2.le_start hu

theorem lexemesUpTo_start (h : InOrder lo (A ++ t :: B)) :
    lexemesUpTo (A ++ t :: B) t.start = A.length := by
  have ht := h.start_lt_stop (List.mem_append_right _ List.mem_cons_self)
  refine lexemesUpTo_eq_length h.stop_le (List.forall_mem_cons.2 ⟨ht, fun u hu => ?_⟩)
  have hle := h.stop_le_start u hu
  have hu' := h.start_lt_stop (List.mem_append_right _ (List.mem_cons_of_mem _ hu))
  omega

theorem lexemesUpTo_stop (h : InOrder lo (A ++ t :: B)) :
    lexemesUpTo (A ++ t :: B) t.stop = A.length + 1 := by
  have ht := h.start_lt_stop (List.mem_append_right _ List.mem_cons_self)
  have hcut : A ++ t :: B = (A ++ [t]) ++ B := by simp
  rw [hcut, lexemesUpTo_eq_length, List.length_append, List.length_singleton]
  · refine List.forall_mem_append.2 ⟨fun u hu => ?_, List.forall_mem_singleton.2 (Nat.le_refl _)⟩
    exact (h.stop_le u hu).trans ht.le
  · intro u hu
    have hu' := h.start_lt_stop (List.mem_append_right _ (List.mem_cons_of_mem _ hu))
    exact (h.stop_le_start u hu).trans_lt hu'

/-- The number of a lexeme is that of those before it. -/
theorem getElem?_lexemesUpTo_start {L : List Lexeme} (hL : InOrder 0 L) (ht : t ∈ L) :
    L[lexemesUpTo L t.start]? = some t := by
  obtain ⟨A, B, rfl⟩ := List.append_of_mem ht
  rw [lexemesUpTo_start hL, List.getElem?_append_right (Nat.le_refl _), Nat.sub_self]
  rfl

/-- The number of a lexeme is one less than that of those up to its end. -/
theorem exists_getElem?_lexemesUpTo_stop {L : List Lexeme} (hL : InOrder 0 L) (ht : t ∈ L) :
    ∃ i, L[i]? = some t ∧ lexemesUpTo L t.stop = i + 1 := by
  obtain ⟨A, B, rfl⟩ := List.append_of_mem ht
  refine ⟨A.length, ?_, lexemesUpTo_stop hL⟩
  rw [List.getElem?_append_right (Nat.le_refl _), Nat.sub_self]
  rfl

theorem lexemesUpTo_mono {L : List Lexeme} {n m : Nat} (h : n ≤ m) :
    lexemesUpTo L n ≤ lexemesUpTo L m :=
  List.countP_mono_left fun _ _ ht => by simpa using (of_decide_eq_true ht).trans h

/-- Offsets where lexemes end are in the order of the numbers of lexemes up to them. -/
theorem lexemesUpTo_le_iff {L : List Lexeme} {n : Nat} (hL : InOrder 0 L) (ht : t ∈ L) :
    lexemesUpTo L t.stop ≤ lexemesUpTo L n ↔ t.stop ≤ n := by
  refine ⟨fun hle => ?_, lexemesUpTo_mono⟩
  by_contra hlt
  obtain ⟨A, B, rfl⟩ := List.append_of_mem ht
  have hstart : lexemesUpTo (A ++ t :: B) n ≤ lexemesUpTo (A ++ t :: B) (t.stop - 1) :=
    lexemesUpTo_mono (by omega)
  have hbefore : lexemesUpTo (A ++ t :: B) (t.stop - 1) = A.length := by
    have ht := hL.start_lt_stop (List.mem_append_right _ List.mem_cons_self)
    refine lexemesUpTo_eq_length (fun u hu => ?_) (List.forall_mem_cons.2 ⟨by omega, fun u hu => ?_⟩)
    · have := hL.stop_le u hu
      omega
    · have hle := hL.stop_le_start u hu
      have hu' := hL.start_lt_stop (List.mem_append_right _ (List.mem_cons_of_mem _ hu))
      omega
  rw [lexemesUpTo_stop hL] at hle
  omega

/-- No lexeme that a span covers ends behind it. -/
theorem stop_le_of_mem_take {n : Nat} (h : InOrder lo A) :
    ∀ t ∈ A.take (lexemesUpTo A n), t.stop ≤ n := by
  induction A generalizing lo with
  | nil => simp
  | cons s A ih =>
    by_cases hs : s.stop ≤ n
    · have hcount : lexemesUpTo (s :: A) n = lexemesUpTo A n + 1 := by
        simp [lexemesUpTo, hs]
      rw [hcount, List.take_succ_cons]
      exact List.forall_mem_cons.2 ⟨hs, ih h.2.2⟩
    · have hcount : lexemesUpTo (s :: A) n = 0 := List.countP_eq_zero.2 fun t ht => by
        have hle : s.stop ≤ t.stop := by
          rcases List.mem_cons.1 ht with rfl | ht
          · exact Nat.le_refl _
          · exact (h.2.2.le_start ht).trans (h.2.2.start_lt_stop ht).le
        rw [decide_eq_true_eq]
        omega
      rw [hcount]
      nofun

/-- Where line breaks stand in or between lexemes, they do so as well in those with the same texts
    and with line breaks before the same lexemes, the first left out. -/
theorem breaksIn_congr {p : Lexeme → Prop} {ts ts' : List Lexeme}
    (h : List.Forall₂ (fun t t' => t'.text = t.text ∧ (p t → t'.afterBreak = t.afterBreak)) ts ts')
    (hp : ∀ t ∈ ts.tail, p t) : breaksIn ts' = breaksIn ts := by
  have hany {us us' : List Lexeme} (h : List.Forall₂ (fun t t' =>
      t'.text = t.text ∧ (p t → t'.afterBreak = t.afterBreak)) us us') (hp : ∀ t ∈ us, p t) :
      us'.any (fun u => u.afterBreak || u.text.contains '\n') =
        us.any fun u => u.afterBreak || u.text.contains '\n' := by
    induction h with
    | nil => rfl
    | cons ht _ ih =>
      obtain ⟨hpt, hp⟩ := List.forall_mem_cons.1 hp
      rw [List.any_cons, List.any_cons, ht.1, ht.2 hpt, ih hp]
  cases h with
  | nil => rfl
  | cons ht hts => rw [breaksIn, breaksIn, ht.1, hany hts hp]

/-! ## Tokens between lexemes -/

/-- The tokens before a lexeme and behind it. -/
theorem exists_split_of_mem_lexemes (h : t ∈ lexemes broken ts) : ∃ pre post,
    ts = pre ++ t.toToken :: post ∧ t.kind.isTrivia = false ∧
      lexemes broken (pre ++ [t.toToken]) = lexemes broken pre ++ [t] ∧
      lexemes broken ts = lexemes broken pre ++ t :: lexemes false post := by
  induction ts generalizing broken with
  | nil => cases h
  | cons s ts ih =>
    rw [lexemes] at h ⊢
    split at h
    · next hk =>
      obtain ⟨pre, post, rfl, ht, hfront, hsplit⟩ := ih h
      refine ⟨s :: pre, post, rfl, ht, ?_, ?_⟩
      · rw [List.cons_append, lexemes, if_pos hk, hfront, lexemes, if_pos hk]
      · rw [if_pos hk, hsplit, lexemes, if_pos hk]
    · next hk =>
      rcases List.mem_cons.1 h with rfl | h
      · refine ⟨[], ts, rfl, by simpa using hk, ?_, by rw [if_neg hk]; rfl⟩
        exact if_neg hk
      · obtain ⟨pre, post, rfl, ht, hfront, hsplit⟩ := ih h
        refine ⟨s :: pre, post, rfl, ht, ?_, ?_⟩
        · rw [List.cons_append, lexemes, if_neg hk, hfront, lexemes, if_neg hk, List.cons_append]
        · rw [if_neg hk, hsplit, lexemes, if_neg hk, List.cons_append]

/-- All line breaks in tokens stand in lexemes or before them, if the last token is one. -/
theorem any_breaks_lexemes (hlast : ∀ t ∈ seg.getLast?, t.kind.isTrivia = false) :
    (lexemes broken seg).any (fun u => u.afterBreak || u.text.contains '\n') =
      (!seg.isEmpty && broken || seg.any fun t => t.text.contains '\n') := by
  induction seg generalizing broken with
  | nil => rfl
  | cons t seg ih =>
    have hrest : ∀ u ∈ seg.getLast?, u.kind.isTrivia = false := fun u hu =>
      hlast u (by rw [List.getLast?_cons, hu]; rfl)
    rw [lexemes]
    split
    · next hk =>
      -- Trivia are not the last.
      cases seg with
      | nil => simp [hk] at hlast
      | cons u seg =>
        rw [ih hrest, List.any_cons (a := t)]
        simp only [List.isEmpty_cons, Bool.not_false, Bool.true_and, Bool.or_assoc]
    · rw [List.any_cons, ih hrest, List.any_cons]
      simp only [List.isEmpty_cons, Bool.not_false, Bool.true_and, Bool.and_false, Bool.false_or,
        Bool.or_assoc]

/-- The text from where a token begins to where one ends are the texts of the tokens. -/
theorem slice_of_tiling {t : Token} (h : Tiling 0 source (pre ++ (t :: seg) ++ post)) :
    slice source ⟨t.start, ((t :: seg).getLast (List.cons_ne_nil t seg)).stop⟩ =
      (t :: seg).flatMap Token.text := by
  have hstart : (pre ++ (t :: seg) ++ post)[pre.length]? = some t := by simp
  have hstop : (pre ++ (t :: seg) ++ post)[pre.length + seg.length]? =
      some ((t :: seg).getLast (List.cons_ne_nil t seg)) := by
    rw [List.append_assoc, List.getElem?_append_right (Nat.le_add_right _ _),
      Nat.add_sub_cancel_left, List.getElem?_append_left (by simp), List.getLast_eq_getElem]
    exact List.getElem?_eq_getElem _
  have hcut : ((pre ++ (t :: seg) ++ post).take (pre.length + seg.length + 1)).drop pre.length =
      t :: seg := by
    have hlength : pre.length + seg.length + 1 = (pre ++ (t :: seg)).length := by
      rw [List.length_append, List.length_cons, Nat.add_assoc]
    rw [hlength, List.take_left, List.drop_left]
  rw [(offsets_of_getElem? h hstart).1, (offsets_of_getElem? h hstop).2,
    slice_tokenOffset h (by omega), hcut]

/-! ## Spans -/

/-- The lexemes that a delimited span covers begin with that where it begins. -/
theorem exists_lexemesIn {L : List Lexeme} {s : Span} (hL : InOrder 0 L) (h : s.Delimited L) :
    ∃ t M, lexemesIn L s = t :: M ∧ s.start = t.start ∧
      ∀ u ∈ M, u ∈ L ∧ s.start < u.start ∧ u.start < s.stop := by
  obtain ⟨⟨t, ht, hstart⟩, ⟨u, hu, hstop⟩, hlt⟩ := h
  obtain ⟨A, B, rfl⟩ := List.append_of_mem ht
  have hle : t.stop ≤ s.stop := by
    rw [← hstop]
    rcases List.mem_append.1 hu with hu | hu
    · have := hL.stop_le u hu
      omega
    rcases List.mem_cons.1 hu with rfl | hu
    · exact Nat.le_refl _
    · exact (hL.stop_le_start u hu).trans (hL.start_lt_stop (by simp [hu])).le
  have hfirst := lexemesUpTo_start hL
  rw [hstart] at hfirst
  obtain ⟨k, hlast⟩ : ∃ k, lexemesUpTo (A ++ t :: B) s.stop = A.length + 1 + k := by
    refine Nat.exists_eq_add_of_le ?_
    rw [← lexemesUpTo_stop hL]
    exact lexemesUpTo_mono hle
  have htake : (A ++ t :: B).take (A.length + 1 + k) = A ++ t :: B.take k := by
    rw [Nat.add_assoc, List.take_length_add_append, Nat.add_comm 1 k, List.take_succ_cons]
  refine ⟨t, B.take k, ?_, hstart.symm, fun v hv => ?_⟩
  · rw [lexemesIn, hfirst, hlast, htake, List.drop_left]
  · have hmem : v ∈ A ++ t :: B := by simp [List.mem_of_mem_take hv]
    have hafter := hL.stop_le_start v (List.mem_of_mem_take hv)
    have hbefore : v.stop ≤ s.stop := by
      refine stop_le_of_mem_take hL v ?_
      rw [hlast, htake]
      simp [hv]
    have ht := hL.start_lt_stop (t := t) (by simp)
    have hv := hL.start_lt_stop hmem
    exact ⟨hmem, by omega, by omega⟩

/-- A delimited span covers a lexeme. -/
theorem lexemesUpTo_lt_of_delimited {L : List Lexeme} {s : Span} (hL : InOrder 0 L)
    (h : s.Delimited L) : lexemesUpTo L s.start < lexemesUpTo L s.stop := by
  obtain ⟨⟨t, ht, hstart⟩, ⟨u, hu, hstop⟩, hlt⟩ := h
  rw [← hstop]
  refine Nat.lt_of_not_le fun hle => ?_
  have := (lexemesUpTo_le_iff hL hu).1 hle
  omega

/-- The tokens of a delimited part of a text, from its first lexeme to its last. -/
theorem exists_cut_of_delimited {s : Span} (hL : InOrder 0 (lexemes false ts))
    (h : s.Delimited (lexemes false ts)) : ∃ pre t mid post,
      ts = pre ++ (t.toToken :: mid) ++ post ∧
      s = ⟨t.start, ((t.toToken :: mid).getLast (List.cons_ne_nil _ mid)).stop⟩ ∧
      (∀ u ∈ mid.getLast?, u.kind.isTrivia = false) ∧
      lexemesIn (lexemes false ts) s = t :: lexemes false mid := by
  obtain ⟨⟨t, ht, hstart⟩, ⟨u, hu, hstop⟩, hlt⟩ := h
  obtain ⟨pre, rest, rfl, -, -, hsplit⟩ := exists_split_of_mem_lexemes ht
  rw [hsplit] at hL hu ⊢
  have hfirst := lexemesUpTo_start hL
  rw [hstart] at hfirst
  rcases List.mem_append.1 hu with hu | hu
  · have hle := hL.stop_le u hu
    omega
  rcases List.mem_cons.1 hu with rfl | hu
  · have hlast := lexemesUpTo_stop hL
    rw [hstop] at hlast
    refine ⟨pre, u, [], rest, by simp, congrArg₂ Span.mk hstart.symm hstop.symm, nofun, ?_⟩
    rw [lexemesIn, hfirst, hlast]
    simp [lexemes, List.take_append]
  · obtain ⟨mid, post, rfl, hku, hfront, hsplit'⟩ := exists_split_of_mem_lexemes hu
    rw [hsplit'] at hL hfirst ⊢
    have hcut : lexemes false pre ++ t :: (lexemes false mid ++ u :: lexemes false post) =
        (lexemes false pre ++ t :: lexemes false mid) ++ u :: lexemes false post := by simp
    have hlast := lexemesUpTo_stop (hcut ▸ hL)
    rw [hstop, ← hcut] at hlast
    refine ⟨pre, t, mid ++ [u.toToken], post, by simp, ?_, by simpa using hku, ?_⟩
    · refine congrArg₂ Span.mk hstart.symm ?_
      rw [← hstop]
      simp
    · have hlexemes : lexemes false pre ++ t :: (lexemes false mid ++ u :: lexemes false post) =
          (lexemes false pre ++ t :: (lexemes false mid ++ [u])) ++ lexemes false post := by simp
      have hlength : (lexemes false pre ++ t :: lexemes false mid).length + 1 =
          (lexemes false pre ++ t :: (lexemes false mid ++ [u])).length := by
        simp
        omega
      rw [lexemesIn, hfirst, hlast, hfront, hlexemes, hlength, List.take_left, List.drop_left]

/-! ## Nodes -/

/-- Every node but the root begins where a lexeme does. -/
theorem Document.Regular.exists_lexeme (hd : d.Regular) (hx : x ∈ d.nodes) (hne : x ≠ d.root) :
    ∃ t, d.lexemes[lexemesUpTo d.lexemes x.span.start]? = some t ∧ t.start = x.span.start := by
  obtain ⟨t, ht, hstart⟩ : ∃ t ∈ d.lexemes, t.start = x.span.start := by
    obtain ⟨hstart, -⟩ | ⟨t, ht, hpoint⟩ := hd.delimited_or_point hx hne
    · exact hstart
    · exact ⟨t, ht, by rw [hpoint]; rfl⟩
  exact ⟨t, hstart ▸ getElem?_lexemesUpTo_start hd.ordered ht, hstart⟩

/-- Every node but the root and blocks is delimited by lexemes. -/
theorem Document.Regular.delimited (hd : d.Regular) (hx : x ∈ d.nodes) (hne : x ≠ d.root)
    (hk : x.kind ≠ .block) : x.span.Delimited d.lexemes := by
  obtain ⟨p, hp, hxp⟩ := exists_parent_of_ne hx hne
  exact (hd.covers_of_mem hp).delimited _ (tree_mem_of_mem_children hxp) fun he => hk he.2.1

/-- A node is on one line if the lexemes that it covers are. -/
theorem isOneLine_eq {source : List Char} (h : Document.parse source = .ok d)
    (hx : x.span.Delimited d.lexemes) : d.isOneLine x = !breaksIn (lexemesIn d.lexemes x.span) := by
  have hd := regular_of_parse h
  have htiling := tiling_of_parse h
  obtain ⟨pre, t, mid, post, hts, hspan, hlast, hin⟩ := exists_cut_of_delimited hd.ordered hx
  rw [hts] at htiling
  have htext : d.text x = (t.toToken :: mid).flatMap Token.text := by
    rw [Document.text, source_of_parse h, hspan]
    exact slice_of_tiling htiling
  have hany : (d.text x).contains '\n' = (t.toToken :: mid).any fun t => t.text.contains '\n' := by
    rw [htext, Bool.eq_iff_iff, List.contains_iff_mem, List.mem_flatMap, List.any_eq_true]
    simp only [List.contains_iff_mem]
  rw [Document.isOneLine, hany, Document.lexemes, hin, breaksIn, any_breaks_lexemes hlast,
    Bool.and_false, Bool.false_or, List.any_cons]

end ResultHints
