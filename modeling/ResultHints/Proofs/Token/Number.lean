import Mathlib.Computability.RegularExpressions
import ResultHints.Proofs.Token.Cut

/-!
# The texts of numbers

How numbers are written, as regular expressions: what the scanner takes as a number is matched
by them (`number_of_mem_tokens`). But behind `0b` it takes the digits of base sixteen, and
behind `0b` and `0x` it is content with underscores that no digit is among, so there are a few
more integers than there should be (`looseInteger`).
-/

namespace ResultHints

open RegularExpression

variable {text rest mid : List Char} {k : TokenKind} {cs : List Char} {p : Char → Bool} {c : Char}
  {r s : RegularExpression Char}

/-! ## Regular expressions -/

/-- One of some characters. -/
def oneOf (cs : List Char) : RegularExpression Char := (cs.map .char).sum

/-- Some of the characters, or none. -/
def manyOf (cs : List Char) : RegularExpression Char := (oneOf cs).star

/-- A part that may be missing. -/
def optional (r : RegularExpression Char) : RegularExpression Char := 1 + r

theorem singleton_mem_oneOf (h : c ∈ cs) : [c] ∈ (oneOf cs).matches' := by
  induction cs with
  | nil => exact absurd h List.not_mem_nil
  | cons d cs ih =>
    rw [oneOf, List.map_cons, List.sum_cons, matches'_add]
    rcases List.mem_cons.1 h with rfl | h
    · exact .inl rfl
    · exact .inr (ih h)

theorem mem_manyOf (h : ∀ c ∈ text, c ∈ cs) : text ∈ (manyOf cs).matches' := by
  refine Language.mem_kstar.2 ⟨text.map ([·]), ?_, ?_⟩
  · rw [← List.flatMap_def, List.flatMap_singleton']
  · rw [List.forall_mem_map]
    exact fun c hc => singleton_mem_oneOf (h c hc)

/-- One of some characters among many. -/
theorem mem_manyOf_around {es : List Char} (hc : c ∈ text) (hes : c ∈ es)
    (h : ∀ c ∈ text, c ∈ cs) :
    text ∈ (manyOf cs * (oneOf es * manyOf cs)).matches' := by
  obtain ⟨front, back, rfl⟩ := List.append_of_mem hc
  rw [List.forall_mem_append, List.forall_mem_cons] at h
  exact Language.append_mem_mul (mem_manyOf h.1)
    (Language.append_mem_mul (a := [c]) (singleton_mem_oneOf hes) (mem_manyOf h.2.2))

/-- The characters of what a regular expression matches are among these. -/
def characters : RegularExpression Char → List Char
  | .zero | .epsilon => []
  | .char c => [c]
  | .plus r s | .comp r s => characters r ++ characters s
  | .star r => characters r

theorem mem_characters (h : text ∈ r.matches') : ∀ c ∈ text, c ∈ characters r := by
  induction r generalizing text with
  | zero => cases h
  | epsilon =>
    obtain rfl : text = [] := h
    exact nofun
  | char d =>
    obtain rfl : text = [d] := h
    exact fun c hc => hc
  | plus r s hr hs =>
    intro c hc
    rcases h with h | h
    · exact List.mem_append_left _ (hr h c hc)
    · exact List.mem_append_right _ (hs h c hc)
  | comp r s hr hs =>
    obtain ⟨front, hfront, back, hback, rfl⟩ := Language.mem_mul.1 h
    intro c hc
    rcases List.mem_append.1 hc with hc | hc
    · exact List.mem_append_left _ (hr hfront c hc)
    · exact List.mem_append_right _ (hs hback c hc)
  | star r ih =>
    obtain ⟨parts, rfl, hparts⟩ := Language.mem_kstar.1 h
    intro c hc
    obtain ⟨part, hpart, hc⟩ := List.mem_flatten.1 hc
    exact ih (hparts part hpart) c hc

/-- A regular expression matches what stands before an end of a text. -/
def MatchesTo (r : RegularExpression Char) (text rest : List Char) : Prop :=
  ∃ taken ∈ r.matches', text = taken ++ rest

namespace MatchesTo

theorem mul (h : MatchesTo r text mid) (h' : MatchesTo s mid rest) :
    MatchesTo (r * s) text rest := by
  obtain ⟨taken, htaken, rfl⟩ := h
  obtain ⟨taken', htaken', rfl⟩ := h'
  exact ⟨taken ++ taken', Language.append_mem_mul htaken htaken', (List.append_assoc ..).symm⟩

theorem left (h : MatchesTo r text rest) : MatchesTo (r + s) text rest := by
  obtain ⟨taken, htaken, rfl⟩ := h
  exact ⟨taken, .inl htaken, rfl⟩

theorem right (h : MatchesTo s text rest) : MatchesTo (r + s) text rest := by
  obtain ⟨taken, htaken, rfl⟩ := h
  exact ⟨taken, .inr htaken, rfl⟩

theorem missing : MatchesTo (optional r) text text := ⟨[], .inl rfl, rfl⟩

theorem present (h : MatchesTo r text rest) : MatchesTo (optional r) text rest := h.right

theorem head (h : c ∈ cs) : MatchesTo (oneOf cs) (c :: text) text :=
  ⟨[c], singleton_mem_oneOf h, rfl⟩

theorem dropWhile (h : ∀ c, p c → c ∈ cs) : MatchesTo (manyOf cs) text (text.dropWhile p) :=
  ⟨text.takeWhile p, mem_manyOf fun c hc => h c (List.mem_takeWhile_imp hc),
    List.takeWhile_append_dropWhile.symm⟩

theorem skipOne (h : ∀ c, p c → c ∈ cs) :
    MatchesTo (optional (oneOf cs)) text (skipOne p text) := by
  cases text with
  | nil => exact missing
  | cons c text =>
    rw [ResultHints.skipOne]
    split
    · exact (head (h c ‹_›)).present
    · exact missing

theorem mem (h : MatchesTo r (text ++ rest) rest) : text ∈ r.matches' := by
  obtain ⟨taken, htaken, heq⟩ := h
  rwa [List.append_cancel_right heq]

end MatchesTo

/-! ## Numbers -/

def binaryDigits : List Char := ['0', '1']

def decimalDigits : List Char := ['0', '1', '2', '3', '4', '5', '6', '7', '8', '9']

def hexDigits : List Char :=
  decimalDigits ++ ['a', 'b', 'c', 'd', 'e', 'f', 'A', 'B', 'C', 'D', 'E', 'F']

/-- Digits and underscores, a digit first. -/
def decimalNumber : RegularExpression Char := oneOf decimalDigits * manyOf ('_' :: decimalDigits)

/-- Digits and underscores, one digit at least, behind a zero and the mark of a base. -/
def radixNumber (marks digits : List Char) : RegularExpression Char :=
  oneOf ['0'] * (oneOf marks *
    (manyOf ('_' :: digits) * (oneOf digits * manyOf ('_' :: digits))))

def hexNumber : RegularExpression Char := radixNumber ['x', 'X'] hexDigits

def binaryNumber : RegularExpression Char := radixNumber ['b', 'B'] binaryDigits

def integerSuffix : RegularExpression Char := optional (oneOf ['u', 'U']) * optional (oneOf ['L'])

def fraction : RegularExpression Char := oneOf ['.'] * decimalNumber

def exponent : RegularExpression Char :=
  oneOf ['e', 'E'] * (optional (oneOf ['+', '-']) * (oneOf decimalDigits * manyOf decimalDigits))

def floatSuffix : RegularExpression Char := oneOf ['f', 'F']

/-- The integers. -/
def integerLiteral : RegularExpression Char :=
  (decimalNumber + (hexNumber + binaryNumber)) * integerSuffix

/-- The numbers with a fraction, an exponent or the suffix of a float. -/
def floatLiteral : RegularExpression Char :=
  decimalNumber * (fraction * (optional exponent * optional floatSuffix) +
    (exponent * optional floatSuffix + floatSuffix))

/-- The digits of base sixteen that base two has not. -/
def largeDigits : List Char := hexDigits.filter (· ∉ binaryDigits)

/-- What the scanner takes besides behind the mark of a base: underscores alone, and in base two
    digits that it has not. -/
def looseNumber : RegularExpression Char :=
  oneOf ['0'] * (oneOf ['x', 'X', 'b', 'B'] * (oneOf ['_'] * manyOf ['_'])) +
    oneOf ['0'] * (oneOf ['b', 'B'] *
      (manyOf ('_' :: hexDigits) * (oneOf largeDigits * manyOf ('_' :: hexDigits))))

/-- The integers that the scanner takes besides. -/
def looseInteger : RegularExpression Char := looseNumber * integerSuffix

theorem mem_hexDigits (h : isHexDigit c) : c ∈ hexDigits := by
  have hlow : ∀ n < 0x80, isHexDigit (Char.ofNat n) → Char.ofNat n ∈ hexDigits := by
    decide +kernel
  have hmem := hlow c.toNat (toNat_lt_of_isHexDigit h)
  rw [Char.ofNat_toNat] at hmem
  exact hmem h

theorem mem_decimalDigits (h : c.isDigit) : c ∈ decimalDigits := by
  have hall : hexDigits.filter Char.isDigit = decimalDigits := by decide
  have hhex : isHexDigit c := by rw [isHexDigit, h, Bool.true_or, Bool.true_or]
  exact hall ▸ List.mem_filter.2 ⟨mem_hexDigits hhex, h⟩

theorem mem_cons_decimalDigits (h : isNumberPart c) : c ∈ '_' :: decimalDigits := by
  rw [isNumberPart, Bool.or_eq_true, beq_iff_eq] at h
  exact List.mem_cons.2 (h.symm.imp_right mem_decimalDigits)

theorem mem_cons_hexDigits (h : isHexDigit c || c == '_') : c ∈ '_' :: hexDigits := by
  rw [Bool.or_eq_true, beq_iff_eq] at h
  exact List.mem_cons.2 (h.symm.imp_right mem_hexDigits)

/-! ## Parts -/

theorem matchesTo_decimalNumber (h : c.isDigit) :
    MatchesTo decimalNumber (c :: text) ((c :: text).dropWhile isNumberPart) := by
  rw [List.dropWhile_cons_of_pos (by rw [isNumberPart, h, Bool.true_or])]
  exact .mul (.head (mem_decimalDigits h)) (.dropWhile fun c => mem_cons_decimalDigits)

theorem matchesTo_integerSuffix : MatchesTo integerSuffix text (afterIntegerSuffix text) :=
  .mul (.skipOne (by simp)) (.skipOne (by simp))

theorem matchesTo_fraction (h : afterFraction? text = some rest) :
    MatchesTo fraction text rest := by
  obtain ⟨c, tail, rfl, hc, rfl⟩ := afterFraction?_eq_some.1 h
  exact .mul (.head List.mem_cons_self)
    (.mul (.head (mem_decimalDigits hc)) (.dropWhile fun c => mem_cons_decimalDigits))

theorem matchesTo_exponent (h : afterExponentMark? text = some rest)
    (hdigits : rest.head?.any Char.isDigit) :
    MatchesTo exponent text (rest.dropWhile Char.isDigit) := by
  obtain ⟨c, tail, rfl, hc, hrest⟩ := afterExponentMark?_eq_some.1 h
  have hsign : MatchesTo (optional (oneOf ['+', '-'])) tail rest := hrest ▸ .skipOne (by simp)
  cases rest with
  | nil => cases hdigits
  | cons d rest =>
    have hd : d.isDigit := hdigits
    rw [List.dropWhile_cons_of_pos hd]
    exact .mul (.head (by simpa using hc))
      (hsign.mul (.mul (.head (mem_decimalDigits hd)) (.dropWhile fun c => mem_decimalDigits)))

/-- What ends a number: the suffix of a float, or one of an integer if it is none yet. -/
theorem matchesTo_scanNumberEnd {isFloat : Bool} (h : scanNumberEnd isFloat text = .ok (k, rest)) :
    k = .literal .float ∧ MatchesTo floatSuffix text rest ∨
      if isFloat then k = .literal .float ∧ text = rest
      else k = .literal .integer ∧ MatchesTo integerSuffix text rest := by
  cases hmark : text.head?.any fun c => c == 'f' || c == 'F' with
  | true =>
    obtain ⟨hk, hrest, -⟩ := (scanNumberEnd_eq_ok hmark).1 h
    rw [Bool.or_true, if_pos rfl] at hk
    cases text with
    | nil => cases hmark
    | cons c text =>
      obtain rfl : text = rest := hrest
      exact .inl ⟨hk.symm, .head (by simpa using hmark)⟩
  | false =>
    obtain ⟨hk, hrest, -⟩ := (scanNumberEnd_eq_ok hmark).1 h
    cases isFloat with
    | true => exact .inr ⟨hk.symm, hrest⟩
    | false => exact .inr ⟨hk.symm, hrest ▸ matchesTo_integerSuffix⟩

theorem matchesTo_floatEnd (h : scanNumberEnd true text = .ok (k, rest)) :
    k = .literal .float ∧ MatchesTo (optional floatSuffix) text rest := by
  obtain ⟨hk, hsuffix⟩ | ⟨hk, rfl⟩ := matchesTo_scanNumberEnd h
  · exact ⟨hk, hsuffix.present⟩
  · exact ⟨hk, .missing⟩

/-! ## Whole numbers -/

/-- How a number of some kind is written. -/
def numberText : TokenKind → RegularExpression Char
  | .literal .integer => integerLiteral + looseInteger
  | .literal .float => floatLiteral
  | _ => 0

/-- A number in base ten: its fraction and its exponent, which it may not have, make it a float. -/
theorem matchesTo_scanDecimal (hc : c.isDigit) (h : scanDecimal (c :: text) = .ok (k, rest)) :
    MatchesTo (numberText k) (c :: text) rest := by
  have hwhole : MatchesTo decimalNumber (c :: text) _ := matchesTo_decimalNumber hc
  obtain ⟨mantissa, hmantissa, hend⟩ := scanDecimal_eq_ok.1 h
  generalize (c :: text).dropWhile isNumberPart = whole at hwhole hmantissa hend
  cases hfraction : afterFraction? whole with
  | none =>
    rw [hfraction] at hmantissa hend
    obtain rfl : whole = mantissa := hmantissa
    obtain ⟨-, hend⟩ | ⟨digits, hdigits, hhead, hend⟩ := hend
    · obtain ⟨rfl, hsuffix⟩ | ⟨rfl, hsuffix⟩ := matchesTo_scanNumberEnd hend
      · exact hwhole.mul hsuffix.right.right
      · exact (hwhole.left.mul hsuffix).left
    · obtain ⟨rfl, hsuffix⟩ := matchesTo_floatEnd hend
      exact hwhole.mul ((matchesTo_exponent hdigits hhead).mul hsuffix).left.right
  | some after =>
    have hpoint := matchesTo_fraction hfraction
    rw [hfraction] at hmantissa hend
    obtain rfl : after = mantissa := hmantissa
    obtain ⟨-, hend⟩ | ⟨digits, hdigits, hhead, hend⟩ := hend
    · obtain ⟨rfl, hsuffix⟩ := matchesTo_floatEnd hend
      exact hwhole.mul (hpoint.mul (MatchesTo.missing.mul hsuffix)).left
    · obtain ⟨rfl, hsuffix⟩ := matchesTo_floatEnd hend
      exact hwhole.mul (hpoint.mul ((matchesTo_exponent hdigits hhead).present.mul hsuffix)).left

/-- Digits of base sixteen and underscores, behind the mark of a base. -/
theorem mem_radixNumber (hmark : c ∈ ['x', 'X'] ∨ c ∈ ['b', 'B']) (hne : text ≠ [])
    (hparts : ∀ d ∈ text, d ∈ '_' :: hexDigits) :
    '0' :: c :: text ∈ (hexNumber + binaryNumber + looseNumber).matches' := by
  have number {marks : List Char} {r : RegularExpression Char} (hc : c ∈ marks)
      (h : text ∈ r.matches') : '0' :: c :: text ∈ (oneOf ['0'] * (oneOf marks * r)).matches' :=
    Language.append_mem_mul (singleton_mem_oneOf List.mem_cons_self)
      (Language.append_mem_mul (singleton_mem_oneOf hc) h)
  by_cases hdigit : ∃ d ∈ text, d ∈ hexDigits
  · obtain ⟨d, hd, hhex⟩ := hdigit
    rcases hmark with hx | hb
    · exact .inl (.inl (number hx (mem_manyOf_around hd hhex hparts)))
    by_cases hlarge : ∃ d ∈ text, d ∈ largeDigits
    · obtain ⟨d, hd, hlarge⟩ := hlarge
      exact .inr (.inr (number hb (mem_manyOf_around hd hlarge hparts)))
    · -- Where no digit is too large, all of them are those of base two.
      have hbinary : ∀ d ∈ text, d ∈ hexDigits → d ∈ binaryDigits := fun d hd hhex =>
        Decidable.by_contra fun hno =>
          hlarge ⟨d, hd, List.mem_filter.2 ⟨hhex, decide_eq_true hno⟩⟩
      have hparts : ∀ d ∈ text, d ∈ '_' :: binaryDigits := fun d hd =>
        List.mem_cons.2 ((List.mem_cons.1 (hparts d hd)).imp_right (hbinary d hd))
      exact .inl (.inr (number hb (mem_manyOf_around hd (hbinary d hd hhex) hparts)))
  · have hblank : ∀ d ∈ text, d ∈ ['_'] := fun d hd => List.mem_singleton.2
      ((List.mem_cons.1 (hparts d hd)).resolve_right fun hhex => hdigit ⟨d, hd, hhex⟩)
    obtain ⟨d, text, rfl⟩ := List.exists_cons_of_ne_nil hne
    rw [List.forall_mem_cons] at hblank
    have hmarks : c ∈ ['x', 'X', 'b', 'B'] := List.mem_append.2 hmark
    exact .inr (.inl (number hmarks (Language.append_mem_mul (singleton_mem_oneOf hblank.1)
      (mem_manyOf hblank.2))))

theorem matchesTo_scanRadix (hmark : c ∈ ['x', 'X'] ∨ c ∈ ['b', 'B'])
    (h : scanRadix text = .ok (k, rest)) : MatchesTo (numberText k) ('0' :: c :: text) rest := by
  simp only [scanRadix] at h
  split at h
  · next hhead =>
    obtain ⟨rfl, rfl⟩ := Prod.mk.inj (Except.ok.inj h)
    have hwhole : '0' :: c :: text =
        '0' :: c :: text.takeWhile (fun c => isHexDigit c || c == '_') ++
          text.dropWhile fun c => isHexDigit c || c == '_' := by
      rw [List.cons_append, List.cons_append, List.takeWhile_append_dropWhile]
    have hne : text.takeWhile (fun c => isHexDigit c || c == '_') ≠ [] := by
      cases text with
      | nil => cases hhead
      | cons d text =>
        rw [List.takeWhile_cons_of_pos (by exact hhead)]
        exact List.cons_ne_nil _ _
    have hparts (d : Char) (hd : d ∈ text.takeWhile fun c => isHexDigit c || c == '_') :
        d ∈ '_' :: hexDigits := by
      have hpart := List.mem_takeWhile_imp hd
      exact mem_cons_hexDigits hpart
    rcases mem_radixNumber hmark hne hparts with hnumber | hloose
    · exact (MatchesTo.mul (.right ⟨_, hnumber, hwhole⟩) matchesTo_integerSuffix).left
    · exact (MatchesTo.mul ⟨_, hloose, hwhole⟩ matchesTo_integerSuffix).right
  · cases h

theorem matchesTo_scanNumber (hc : c.isDigit) (h : scanNumber (c :: text) = .ok (k, rest)) :
    MatchesTo (numberText k) (c :: text) rest := by
  rw [scanNumber.eq_def] at h
  split at h
  · next d digits heq =>
    obtain ⟨rfl, rfl⟩ := List.cons.inj heq
    split at h
    · next hmark =>
      have hmark : d ∈ ['x', 'X'] ∨ d ∈ ['b', 'B'] := by simpa [or_assoc] using hmark
      exact matchesTo_scanRadix hmark h
    · exact matchesTo_scanDecimal hc h
  · exact matchesTo_scanDecimal hc h

/-- A token that is a number is written as one. -/
theorem mem_numberText_of_nextToken {afterJump : Bool}
    (hk : k = .literal .integer ∨ k = .literal .float)
    (h : nextToken afterJump c (text ++ rest) = .ok (k, rest)) :
    c :: text ∈ (numberText k).matches' := by
  obtain ⟨hc, h⟩ := scanNumber_of_nextToken hk h
  exact (matchesTo_scanNumber hc h).mem

/-- The numbers among the tokens of a source text are written as numbers are. -/
theorem number_of_mem_tokens {source : List Char} {tokens : List Token} {t : Token}
    (h : tokenize source = .ok tokens) (ht : t ∈ tokens) :
    (t.kind = .literal .integer →
      t.text ∈ integerLiteral.matches' ∨ t.text ∈ looseInteger.matches') ∧
    (t.kind = .literal .float → t.text ∈ floatLiteral.matches') := by
  obtain ⟨afterJump, c, taken, rest, htext, hnext⟩ :=
    exists_nextToken (Nat.le_refl _) (tokenize_eq_ok.1 h) ht
  rw [htext]
  constructor
  · intro hk
    have hmem := mem_numberText_of_nextToken (.inl hk) hnext
    rwa [hk] at hmem
  · intro hk
    have hmem := mem_numberText_of_nextToken (.inr hk) hnext
    rwa [hk] at hmem

/-- A number in base sixteen with both suffixes. -/
theorem number_of_hex_suffixes :
    tokenize "0x_FuL".toList = .ok [⟨.literal .integer, 0, "0x_FuL".toList⟩] ∧
      ("0x_FuL".toList ∈ integerLiteral.matches' ∨ "0x_FuL".toList ∈ looseInteger.matches') := by
  have h : tokenize "0x_FuL".toList = .ok [⟨.literal .integer, 0, "0x_FuL".toList⟩] := rfl
  exact ⟨h, (number_of_mem_tokens h List.mem_cons_self).1 rfl⟩

/-- In base two, a digit is taken that is none. -/
theorem number_of_binary_two :
    tokenize "0b2".toList = .ok [⟨.literal .integer, 0, "0b2".toList⟩] ∧
      "0b2".toList ∉ integerLiteral.matches' :=
  ⟨rfl, by decide⟩

end ResultHints
