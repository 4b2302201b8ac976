import ResultHints.Document.Trivia
import ResultHints.Proofs.Document.Extent
import ResultHints.Proofs.Token.Lossless

/-!
# The token before an offset

The token that ends at an offset is found by bisection: of the tokens that lie one after
the other, it is the last one that does not end behind the offset (`triviaBefore?_eq`). So
what stands right before a token is the token before it in the list
(`triviaBefore?_start`), and where a token ends it is that token (`triviaBefore?_stop`).
Main statement:

- `trivia_of_tokenize`: what bisection finds at any offset of a text, and right before any node
  of its document but the file.
-/

namespace ResultHints

/-- Bisection finds where the part of a list ends of which the predicate holds. -/
theorem bisect_eq {α : Type} {p : α → Bool} {xs : Array α} {as bs : List α}
    (hxs : xs.toList = as ++ bs) (has : ∀ a ∈ as, p a) (hbs : ∀ b ∈ bs, ¬p b) {lo hi : Nat}
    (hlo : lo ≤ as.length) (hhi : as.length ≤ hi) : bisect p xs lo hi = as.length := by
  have hget (i : Nat) : xs[i]? = (as ++ bs)[i]? := by rw [← Array.getElem?_toList, hxs]
  fun_induction bisect p xs lo hi with
  | case1 lo hi hlt mid hmid ih =>
    -- What comes behind the first part is not told by the predicate, so the middle is in it.
    refine ih ?_ hhi
    by_contra hle
    rw [hget, List.getElem?_append_right (by omega)] at hmid
    cases hb : bs[mid - as.length]? with
    | none => simp [hb] at hmid
    | some b => exact hbs b (List.mem_of_getElem? hb) (by simpa [hb] using hmid)
  | case2 lo hi hlt mid hmid ih =>
    refine ih hlo ?_
    by_contra hle
    rw [hget, List.getElem?_append_left (by omega), List.getElem?_eq_getElem (by omega)] at hmid
    exact hmid (has _ (List.getElem_mem _))
  | case3 lo hi hle => omega

theorem tiling_of_parse {source : List Char} {d : Document} (h : Document.parse source = .ok d) :
    Tiling 0 source d.tokens.toList := by
  obtain ⟨tokens, u, s, htokens, -, rfl⟩ := exists_of_parse h
  exact tiling_of_tokenize htokens

namespace Document

variable {d : Document} {pre post : List Token} {w : Token} {offset : Nat}

theorem triviaBefore?_eq (h : d.tokens.toList = pre ++ post) (hpre : ∀ t ∈ pre, t.stop ≤ offset)
    (hpost : ∀ t ∈ post, offset < t.stop) : d.triviaBefore? offset =
      pre.getLast?.bind fun t => if t.stop = offset then t.trivia? else none := by
  have hlength : pre.length ≤ d.tokens.size := by
    rw [← Array.length_toList, h, List.length_append]
    exact Nat.le_add_right _ _
  have hcut := bisect_eq (p := fun t : Token => t.stop ≤ offset) h (by simpa using hpre)
    (by simpa using hpost) (Nat.zero_le _) hlength
  simp only [triviaBefore?, hcut]
  split
  · next hnil =>
    obtain rfl := List.eq_nil_of_length_eq_zero hnil
    rfl
  · next hne =>
    rw [← Array.getElem?_toList, h, List.getElem?_append_left (by omega),
      ← List.getLast?_eq_getElem?]
    rfl

/-- What stands right before a token of a text is the token before it. -/
theorem triviaBefore?_start {source : List Char} (htiling : Tiling 0 source d.tokens.toList)
    (h : d.tokens.toList = pre ++ w :: post) :
    d.triviaBefore? w.start = pre.getLast?.bind Token.trivia? := by
  rw [h] at htiling
  have hpairwise := List.pairwise_append.1 htiling.pairwise
  have hpost : ∀ t ∈ w :: post, w.start < t.stop := by
    intro t ht
    have hlt := (htiling.le_start (List.mem_append_right _ ht)).2
    rcases List.mem_cons.1 ht with rfl | ht
    · exact hlt
    · have hw := (htiling.le_start (List.mem_append_right _ List.mem_cons_self)).2
      have hle := (List.pairwise_cons.1 hpairwise.2.1).1 t ht
      omega
  rw [triviaBefore?_eq h (fun t ht => hpairwise.2.2 t ht w List.mem_cons_self) hpost]
  have htouch := (List.isChain_append.1 htiling.isChain).2.2
  refine Option.bind_congr fun t ht => if_pos (htouch t ht w ?_)
  rfl

/-- Nothing stands before the first token. -/
theorem triviaBefore?_zero {source : List Char} (htiling : Tiling 0 source d.tokens.toList) :
    d.triviaBefore? 0 = none :=
  triviaBefore?_eq (List.nil_append _).symm (fun _ ht => absurd ht List.not_mem_nil) fun _ ht =>
    Nat.lt_of_le_of_lt (Nat.zero_le _) (htiling.le_start ht).2

/-- Where a token ends it is the one that stands before. -/
theorem triviaBefore?_stop {source : List Char} (htiling : Tiling 0 source d.tokens.toList)
    (hw : w ∈ d.tokens.toList) : d.triviaBefore? w.stop = w.trivia? := by
  obtain ⟨pre, post, h⟩ := List.append_of_mem hw
  rw [h] at htiling
  have hpairwise := List.pairwise_append.1 htiling.pairwise
  have hfront : ∀ t ∈ pre ++ [w], t.stop ≤ w.stop := by
    intro t ht
    rcases List.mem_append.1 ht with ht | ht
    · have hle := hpairwise.2.2 t ht w List.mem_cons_self
      have hlt := (htiling.le_start (List.mem_append_right _ List.mem_cons_self)).2
      omega
    · rw [List.mem_singleton.1 ht]
  have hback : ∀ t ∈ post, w.stop < t.stop := by
    intro t ht
    have hle := (List.pairwise_cons.1 hpairwise.2.1).1 t ht
    have hlt := (htiling.le_start (List.mem_append_right _ (List.mem_cons_of_mem _ ht))).2
    omega
  rw [triviaBefore?_eq (h.trans (List.append_cons pre w post)) hfront hback, List.getLast?_concat,
    Option.bind_some, if_pos rfl]

/-- What is found is a token that ends at the offset. -/
theorem exists_token_of_triviaBefore? {v : Trivia} (h : d.triviaBefore? offset = some v) :
    ∃ t ∈ d.tokens.toList, t.stop = offset ∧ t.trivia? = some v := by
  simp only [triviaBefore?] at h
  split at h
  · cases h
  · obtain ⟨t, ht, hv⟩ := Option.bind_eq_some_iff.1 h
    split at hv
    · next hstop =>
      rw [← Array.getElem?_toList] at ht
      exact ⟨t, List.mem_of_getElem? ht, hstop, hv⟩
    · cases hv

/-- What is found is the token that ends at the offset, if there is one and it is trivia. -/
theorem triviaBefore?_eq_some {source : List Char} (htiling : Tiling 0 source d.tokens.toList)
    {v : Trivia} : d.triviaBefore? offset = some v ↔
      ∃ t ∈ d.tokens.toList, t.stop = offset ∧ t.trivia? = some v := by
  refine ⟨exists_token_of_triviaBefore?, ?_⟩
  rintro ⟨t, ht, rfl, hv⟩
  rw [triviaBefore?_stop htiling ht, hv]

/-! ## Documents of texts -/

/-- Every node but the root begins where a lexeme does. -/
theorem Regular.exists_start {x : Place} (hd : d.Regular)
    (hx : x ∈ d.nodes) (hne : x ≠ d.root) :
    ∃ w ∈ d.tokens.toList, w.kind.isTrivia = false ∧ w.start = x.span.start := by
  obtain ⟨w, hw, hstart⟩ : ∃ w ∈ d.lexemes, w.start = x.span.start := by
    obtain ⟨hstart, -⟩ | ⟨w, hw, hpoint⟩ := hd.delimited_or_point hx hne
    · exact hstart
    · exact ⟨w, hw, by rw [hpoint]; rfl⟩
  have hmem := mem_significant hw
  rw [significant, List.mem_filter, Bool.not_eq_true'] at hmem
  exact ⟨_, hmem.1, hmem.2, hstart⟩

/-- What bisection finds: at any offset the trivia that ends there; and at the beginning of a node
    what stands before some lexeme, if that is trivia. -/
theorem trivia_of_tokenize {source : List Char} {tokens : List Token}
    (htokens : tokenize source = .ok tokens) :
    (∀ d : Document, d.tokens.toList = tokens → ∀ offset t, d.triviaBefore? offset = some t ↔
      ∃ w ∈ tokens, w.stop = offset ∧ w.trivia? = some t) ∧
    ∀ d, Document.parse source = .ok d → ∀ x ∈ d.nodes, x ≠ d.root → ∃ pre w post,
      tokens = pre ++ w :: post ∧ w.kind.isTrivia = false ∧ w.start = x.span.start ∧
      d.precedingTrivia? x = pre.getLast?.bind Token.trivia? := by
  constructor
  · rintro d rfl offset t
    exact triviaBefore?_eq_some (tiling_of_tokenize htokens)
  · intro d h x hx hne
    obtain ⟨w, hw, hk, hstart⟩ := (regular_of_parse h).exists_start hx hne
    obtain ⟨pre, post, hts⟩ := List.append_of_mem hw
    have hsame : d.tokens.toList = tokens := by
      obtain ⟨tokens', u, s, htokens', -, rfl⟩ := exists_of_parse h
      exact Except.ok.inj (htokens'.symm.trans htokens)
    refine ⟨pre, w, post, hsame.symm.trans hts, hk, hstart, ?_⟩
    rw [precedingTrivia?, ← hstart, triviaBefore?_start (tiling_of_parse h) hts]

/-- A comment and a line break between two calls. -/
theorem trivia_of_comment : ∃ tokens d, tokenize "f()/**/\ng()".toList = .ok tokens ∧
    Document.parse "f()/**/\ng()".toList = .ok d ∧
    d.triviaBefore? 7 = some ⟨.blockComment, "/**/".toList⟩ ∧
    ∃ x ∈ d.nodes, x.kind = .nameReference "g" ∧ ∃ pre w post, tokens = pre ++ w :: post ∧
      w.start = 8 ∧ d.precedingTrivia? x = pre.getLast?.bind Token.trivia? := by
  have hparse : (Document.parse "f()/**/\ng()".toList).toOption.any (fun d =>
      d.tokens.toList.any (fun w => w.stop == 7 &&
        w.trivia? == some ⟨.blockComment, "/**/".toList⟩) &&
      d.nodes.any fun x => x.kind == .nameReference "g" && x.span.start == 8) := by
    decide +kernel
  obtain ⟨d, h, hp⟩ := exists_of_parse_any hparse
  simp only [Bool.and_eq_true, beq_iff_eq, List.any_eq_true] at hp
  obtain ⟨⟨v, hv, hstop, hcomment⟩, x, hx, hk, hplace⟩ := hp
  have hne : x ≠ d.root := (regular_of_parse h).ne_root (by rw [hk]; nofun)
  obtain ⟨tokens, htokens, htree⟩ : ∃ tokens, tokenize "f()/**/\ng()".toList = .ok tokens ∧
      d.tokens.toList = tokens := by
    obtain ⟨tokens, u, s, htokens, -, rfl⟩ := exists_of_parse h
    exact ⟨tokens, htokens, rfl⟩
  obtain ⟨hoffsets, hnodes⟩ := trivia_of_tokenize htokens
  obtain ⟨pre, w, post, hsplit, -, hstart, hbefore⟩ := hnodes d h x hx hne
  exact ⟨tokens, d, htokens, h, (hoffsets d htree 7 _).2 ⟨v, htree ▸ hv, hstop, hcomment⟩, x, hx, hk,
    pre, w, post, hsplit, hstart.trans hplace, hbefore⟩

end Document

end ResultHints
