import Mathlib.Data.List.DropRight
import ResultHints.Grammar.Naming
import ResultHints.Proofs.Token.Respace

/-!
# The texts of names

How identifiers and definitions of labels are written: a word or a quoted name, with an `@`
behind it if it is a label (`NameText`). Main statements:

- `nameText_of_mem_tokens`: the tokens of a source text that have names are written so;
- `identifierName_of_nameText` and `definedLabel_of_nameText`: the name that the text of such
  a token stands for is the one it is written with. It is empty only between two backticks
  with nothing in between.
-/

namespace ResultHints

/-- A word that is a name: not a keyword, and made of name characters. -/
def isWordName (name : List Char) : Bool :=
  name.head?.any isNameStart && name.all isNamePart && (Keyword.ofWord? name).isNone

/-- How a name is written: as a word, or in backticks. -/
inductive NameSpelling : (name text : List Char) → Prop
  | word {name : List Char} : isWordName name → NameSpelling name name
  | quoted {name : List Char} : '`' ∉ name → '\n' ∉ name →
    NameSpelling name ('`' :: (name ++ ['`']))

/-- How the tokens are written that have a name. -/
inductive NameText (name : List Char) : TokenKind → (text : List Char) → Prop
  | identifier {text : List Char} : NameSpelling name text → NameText name .identifier text
  | label {text : List Char} : NameSpelling name text →
    NameText name .labelDefinition (text ++ ['@'])

/-- Whether tokens of the kind have a name that nodes get. -/
def TokenKind.hasName : TokenKind → Bool
  | identifier | labelDefinition => true
  | _ => false

variable {name text rest : List Char} {k : TokenKind} {afterJump : Bool} {c : Char}

/-! ## The name of a text -/

theorem mem_of_isWordName (h : isWordName name) : ∀ c ∈ name, isNamePart c := by
  rw [isWordName, Bool.and_eq_true, Bool.and_eq_true, List.all_eq_true] at h
  exact h.1.2

theorem not_mem_of_isWordName (h : isWordName name) (hc : isNamePart c = false) : c ∉ name := by
  intro hmem
  have hpart := mem_of_isWordName h c hmem
  rw [hc] at hpart
  cases hpart

theorem trimEnd_concat_of_pos {p : Char → Bool} (hc : p c) (text : List Char) :
    trimEnd p (text ++ [c]) = trimEnd p text :=
  List.rdropWhile_concat_pos p text c hc

theorem trimEnd_concat_of_neg {p : Char → Bool} (hc : ¬p c) (text : List Char) :
    trimEnd p (text ++ [c]) = text ++ [c] :=
  List.rdropWhile_concat_neg p text c hc

theorem trimEnd_of_not_mem (h : c ∉ text) : trimEnd (· == c) text = text := by
  refine List.rdropWhile_eq_self_iff.2 fun hne hlast => h ?_
  rw [← beq_iff_eq.1 hlast]
  exact List.getLast_mem hne

theorem dropWhile_of_head?_ne (h : text.head? ≠ some c) : text.dropWhile (· == c) = text := by
  cases text with
  | nil => rfl
  | cons d text => exact List.dropWhile_cons_of_neg fun hd => h (congrArg some (beq_iff_eq.1 hd))

/-- The name of an identifier is the one it is written with. -/
theorem identifierName_of_spelling (h : NameSpelling name text) :
    identifierName text = String.ofList name := by
  refine congrArg String.ofList ?_
  cases h with
  | word hname =>
    have hquote : '`' ∉ name := not_mem_of_isWordName hname (by decide)
    rw [dropWhile_of_head?_ne fun h => hquote (List.mem_of_head? h), trimEnd_of_not_mem hquote]
  | quoted hquote =>
    rw [List.dropWhile_cons_of_pos (by rfl)]
    cases name with
    | nil => rfl
    | cons d name =>
      have hhead : (d :: name ++ ['`']).head? ≠ some '`' := fun h =>
        hquote (Option.some.inj h ▸ List.mem_cons_self)
      rw [dropWhile_of_head?_ne hhead, trimEnd_concat_of_pos (by rfl), trimEnd_of_not_mem hquote]

theorem identifierName_of_nameText (h : NameText name .identifier text) :
    identifierName text = String.ofList name := by
  cases h with
  | identifier h => exact identifierName_of_spelling h

/-- The name of a label is the one it is written with. -/
theorem definedLabel_of_nameText (h : NameText name .labelDefinition text) :
    definedLabel text = String.ofList name := by
  cases h with
  | @label text h =>
    rw [definedLabel, trimEnd_concat_of_pos (by rfl)]
    have htrim : trimEnd (· == '@') text = text := by
      cases h with
      | word hname => exact trimEnd_of_not_mem (not_mem_of_isWordName hname (by decide))
      | quoted => exact trimEnd_concat_of_neg (by decide) ('`' :: name)
    rw [htrim, identifierName_of_spelling h]

/-- Only between backticks with nothing in between, a name is empty. -/
theorem name_eq_nil_iff (h : NameText name k text) :
    name = [] ↔ text = ['`', '`'] ∨ text = ['`', '`', '@'] := by
  have hspelling {text : List Char} (h : NameSpelling name text) :
      name = [] ↔ text = ['`', '`'] := by
    cases h with
    | word hname =>
      refine iff_of_false ?_ ?_ <;> rintro rfl <;> revert hname <;> decide
    | quoted => simp
  have hlast {text : List Char} (h : NameSpelling name text) : text.getLast? ≠ some '@' := by
    intro hat
    cases h with
    | word hname => exact not_mem_of_isWordName hname (by decide) (List.mem_of_getLast? hat)
    | quoted =>
      rw [← List.cons_append, List.getLast?_concat] at hat
      cases hat
  cases h with
  | identifier h =>
    rw [hspelling h]
    exact ⟨.inl, fun htext => htext.resolve_right fun hat => hlast h (by rw [hat]; rfl)⟩
  | @label text h =>
    rw [hspelling h]
    constructor
    · rintro rfl
      exact .inr rfl
    · rintro (htext | htext)
      · simpa using congrArg List.getLast? htext
      · exact List.append_cancel_right (show text ++ ['@'] = ['`', '`'] ++ ['@'] from htext)

/-! ## Tokens -/

/-- Behind the spelling of a name, the kind of its token is told. -/
theorem nameText_of_scanNameEnd {after : List Char} (h : NameSpelling name text)
    (hk : scanNameEnd after = (k, rest)) : NameText name k (consumed (text ++ after) rest) := by
  rw [scanNameEnd.eq_def] at hk
  split at hk <;> cases hk
  · rw [List.append_cons, consumed_append_left]
    exact .label h
  · rw [consumed_append_left]
    exact .identifier h

theorem nameText_of_scanQuotedName (h : scanQuotedName text = .ok (k, rest)) :
    ∃ name, NameText name k (consumed ('`' :: text) rest) := by
  obtain ⟨after, htick, hend⟩ := scanQuotedName_eq_ok.1 h
  rw [toBacktick] at htick
  have hsplit : text = text.takeWhile (fun c => c != '`' && c != '\n') ++ '`' :: after := by
    rw [← htick, List.takeWhile_append_dropWhile]
  have hinside : ∀ c ∈ text.takeWhile (fun c => c != '`' && c != '\n'), c != '`' && c != '\n' :=
    fun c => List.mem_takeWhile_imp
  generalize text.takeWhile (fun c => c != '`' && c != '\n') = name at hsplit hinside
  have hspelling : NameSpelling name ('`' :: (name ++ ['`'])) :=
    .quoted (fun hmem => absurd (hinside _ hmem) (by decide))
      fun hmem => absurd (hinside _ hmem) (by decide)
  rw [hsplit, List.append_cons]
  exact ⟨name, nameText_of_scanNameEnd hspelling hend⟩

theorem nameText_of_scanWord (hc : isNameStart c) (hk : k.hasName)
    (h : scanWord (c :: text) = (k, rest)) :
    ∃ name, NameText name k (consumed (c :: text) rest) := by
  have hpart := isNamePart_of_isNameStart hc
  rw [scanWord] at h
  split at h
  · next hword =>
    have hname : isWordName ((c :: text).takeWhile isNamePart) := by
      rw [isWordName, hword, List.takeWhile_cons_of_pos hpart]
      simp [hc, hpart, List.all_takeWhile]
    have htext := nameText_of_scanNameEnd (.word hname) h
    rw [List.takeWhile_append_dropWhile] at htext
    exact ⟨_, htext⟩
  -- A keyword has no name.
  all_goals
    cases h
    cases hk

/-- A token that has a name is written as one. -/
theorem nameText_of_nextToken (hk : k.hasName) (h : nextToken afterJump c text = .ok (k, rest)) :
    ∃ name, NameText name k (consumed (c :: text) rest) := by
  cases firstToken_of_nextToken h with
  | blank | lineComment | blockComment | tripleQuotes | quotes | character => cases hk
  | quotedName h => exact nameText_of_scanQuotedName h
  | atSign h => obtain rfl | rfl := kind_of_scanAt h <;> cases hk
  | number _ h => obtain rfl | rfl := kind_of_scanNumber h <;> cases hk
  | word hc h => exact nameText_of_scanWord hc hk h
  | symbol h => obtain ⟨word, rfl⟩ | ⟨mark, rfl⟩ := kind_of_scanSymbol h <;> cases hk

/-- What begins as a name does is a word. -/
theorem nextToken_of_isNameStart (hc : isNameStart c) :
    nextToken afterJump c text = .ok (scanWord (c :: text)) := by
  have hblank : ¬isBlank c := by
    intro hblank
    have hpart := isNamePart_of_isNameStart hc
    rw [isNamePart_of_isBlank hblank] at hpart
    cases hpart
  rw [nextToken.eq_def, if_neg hblank]
  split
  -- No name begins with any of the first characters that are told apart.
  iterate 7 exact absurd hc (by decide)
  rw [if_neg (by rw [isDigit_of_isNameStart hc]; decide), if_pos hc]

/-- A word that is a name is an identifier, where nothing follows it. -/
theorem nextToken_of_isWordName (h : isWordName (c :: text)) :
    nextToken afterJump c text = .ok (.identifier, []) := by
  have hpart := mem_of_isWordName h
  rw [isWordName, Bool.and_eq_true, Bool.and_eq_true, Option.isNone_iff_eq_none] at h
  obtain ⟨⟨hstart, -⟩, hword⟩ := h
  rw [nextToken_of_isNameStart hstart, scanWord, List.takeWhile_eq_self_iff.2 hpart,
    List.dropWhile_eq_nil_iff.2 hpart, hword]
  rfl

/-- Every token is what some end of the text begins with. -/
theorem exists_nextToken {limit n : Nat} {ts : List Token} {t : Token} (hl : text.length ≤ limit)
    (h : tokensFrom limit afterJump n text = (ts, none)) (ht : t ∈ ts) :
    ∃ afterJump c taken rest, t.text = c :: taken ∧
      nextToken afterJump c (taken ++ rest) = .ok (t.kind, rest) := by
  induction ts generalizing limit afterJump n text with
  | nil => exact absurd ht List.not_mem_nil
  | cons u ts ih =>
    obtain ⟨c, taken, rest, limit', -, htext, hnext, hl', hrest⟩ := tokensFrom_inv hl h
    rcases List.mem_cons.1 ht with rfl | ht
    · exact ⟨afterJump, c, taken, rest, htext, hnext⟩
    · exact ih hl' hrest ht

/-- The tokens of a source text that have names are written as such. -/
theorem nameText_of_mem_tokens {source : List Char} {tokens : List Token} {t : Token}
    (h : tokenize source = .ok tokens) (ht : t ∈ tokens) (hk : t.kind.hasName) :
    ∃ name, NameText name t.kind t.text := by
  obtain ⟨afterJump, c, taken, rest, htext, hnext⟩ :=
    exists_nextToken (Nat.le_refl _) (tokenize_eq_ok.1 h) ht
  obtain ⟨name, hname⟩ := nameText_of_nextToken hk hnext
  rw [← List.cons_append, consumed_append_left, ← htext] at hname
  exact ⟨name, hname⟩

end ResultHints
