import Mathlib.Data.Nat.Digits.Defs
import ResultHints.Text.Quoted

/-!
# Quoted texts, read back

Where a quoted text ends, and what text it quotes, can be told from what is written, whatever
characters are written by their code points (`quotedBy`). Between the quotes there is one of three
ways to write a character (`Writes`), none of which begins with a quote. Main statement:

- `quotedBy_append_inj`: of two quoted texts with something behind them that are written the
  same, the texts are the same, and what is behind them.
-/

namespace ResultHints

/-! ## Digits -/

theorem digitChar_inj {m n : Nat} (hm : m < 16) (hn : n < 16) (h : m.digitChar = n.digitChar) :
    m = n := by
  have hall : ∀ i j : Fin 16, i.val.digitChar = j.val.digitChar → i = j := by decide
  exact congrArg Fin.val (hall ⟨m, hm⟩ ⟨n, hn⟩ h)

/-- A number can be told from its digits. -/
theorem toDigits_injective {b : Nat} (hb : 1 < b) (hb' : b ≤ 16) :
    Function.Injective (Nat.toDigits b) := by
  intro m
  induction m using Nat.strongRecOn with
  | ind m ih =>
    intro n h
    rw [Nat.toDigits_eq_if hb, Nat.toDigits_eq_if (n := n) hb] at h
    split_ifs at h with hm hn hn
    · exact digitChar_inj (by omega) (by omega) (List.head_eq_of_cons_eq h)
    · -- One digit is not two.
      have hlength := congrArg List.length h
      have hpos := List.length_pos_iff.2 (Nat.toDigits_ne_nil (n := n / b) (b := b))
      simp only [List.length_append, List.length_singleton] at hlength
      omega
    · have hlength := congrArg List.length h
      have hpos := List.length_pos_iff.2 (Nat.toDigits_ne_nil (n := m / b) (b := b))
      simp only [List.length_append, List.length_singleton] at hlength
      omega
    · obtain ⟨hfront, hlast⟩ := List.append_inj' h rfl
      have hmlt := Nat.mod_lt m (Nat.zero_lt_of_lt hb)
      have hnlt := Nat.mod_lt n (Nat.zero_lt_of_lt hb)
      have hdiv := ih (m / b) (Nat.div_lt_self (by omega) hb) hfront
      have hmod := digitChar_inj (by omega) (by omega) (List.head_eq_of_cons_eq hlast)
      rw [← Nat.div_add_mod m b, ← Nat.div_add_mod n b, hdiv, hmod]

theorem not_mem_toDigits {b : Nat} (hb : 1 < b) {c : Char} (hc : ∀ k : Nat, k.digitChar ≠ c)
    (n : Nat) : c ∉ Nat.toDigits b n := by
  induction n using Nat.strongRecOn with
  | ind n ih =>
    rw [Nat.toDigits_eq_if hb]
    split
    · exact fun h => hc _ (List.mem_singleton.1 h).symm
    · next h =>
      rw [List.mem_append, List.mem_singleton]
      exact not_or.2 ⟨ih _ (Nat.div_lt_self (by omega) hb), (hc _).symm⟩

/-! ## Ends -/

/-- A part without the character behind it ends before the first such character. -/
theorem append_cons_inj {c : Char} {xs ys s t : List Char} (hx : c ∉ xs) (hy : c ∉ ys)
    (h : xs ++ c :: s = ys ++ c :: t) : xs = ys ∧ s = t := by
  induction xs generalizing ys with
  | nil =>
    cases ys with
    | nil => exact ⟨rfl, List.tail_eq_of_cons_eq h⟩
    | cons y ys => exact absurd (List.head_eq_of_cons_eq h) (List.ne_of_not_mem_cons hy)
  | cons x xs ih =>
    cases ys with
    | nil => exact absurd (List.head_eq_of_cons_eq h).symm (List.ne_of_not_mem_cons hx)
    | cons y ys =>
      obtain ⟨rfl, htail⟩ := List.cons.inj h
      obtain ⟨rfl, rfl⟩ :=
        ih (List.not_mem_of_not_mem_cons hx) (List.not_mem_of_not_mem_cons hy) htail
      exact ⟨rfl, rfl⟩

/-! ## Characters -/

/-- The characters that are written with a backslash, and what is written behind it. -/
def escapes : List (Char × Char) :=
  [('\x00', '0'), ('\t', 't'), ('\n', 'n'), ('\r', 'r'), ('\\', '\\'), ('\"', '\"')]

/-- How a character is written between quotes, if those in `hidden` are written by their code
    point. -/
def quotedCharBy (hidden : Char → Bool) (c : Char) : List Char :=
  match escapes.lookup c with
  | some e => ['\\', e]
  | none => if hidden c then ['\\', 'u', '{'] ++ Nat.toDigits 16 c.toNat ++ ['}'] else [c]

/-- A text between double quotes, the characters in `hidden` written by their code point. -/
def quotedBy (hidden : Char → Bool) (s : String) : String :=
  String.ofList (['\"'] ++ s.toList.flatMap (quotedCharBy hidden) ++ ['\"'])

theorem lookup_escapes_eq_none {c : Char} :
    escapes.lookup c = none ↔ c ∉ escapes.map Prod.fst := by
  simp only [List.lookup_eq_none_iff, bne_iff_ne, List.mem_map, not_exists, not_and, ne_eq,
    eq_comm (a := c)]

theorem quotedCharBy_isHidden : quotedCharBy isHidden = quotedChar := by
  funext c
  by_cases hc : c ∈ escapes.map Prod.fst
  · have hall : (escapes.map Prod.fst).all fun a => quotedCharBy isHidden a == quotedChar a := by
      decide
    exact beq_iff_eq.1 (List.all_eq_true.1 hall c hc)
  · rw [quotedCharBy, lookup_escapes_eq_none.2 hc]
    simp only [escapes, List.map_cons, List.map_nil, List.mem_cons, List.not_mem_nil, or_false,
      not_or] at hc
    simp only [quotedChar, beq_iff_eq, hc, if_false]

theorem quotedBy_isHidden : quotedBy isHidden = quoted := by
  funext s
  rw [quotedBy, quotedCharBy_isHidden, quoted]

/-- How a character can be written between quotes. -/
inductive Writes (c : Char) : List Char → Prop
  | escape {e : Char} : (c, e) ∈ escapes → Writes c ['\\', e]
  | codePoint : Writes c ('\\' :: 'u' :: '{' :: (Nat.toDigits 16 c.toNat ++ ['}']))
  | plain : c ∉ escapes.map Prod.fst → Writes c [c]

variable {hidden : Char → Bool} {c c' : Char} {w w' s t : List Char}

theorem writes_quotedCharBy (hidden : Char → Bool) (c : Char) :
    Writes c (quotedCharBy hidden c) := by
  rw [quotedCharBy]
  cases hlookup : escapes.lookup c with
  | some e =>
    obtain ⟨front, back, h, -⟩ := List.lookup_eq_some_iff.1 hlookup
    exact .escape (h ▸ List.mem_append_right _ List.mem_cons_self)
  | none =>
    cases hidden c with
    | true => exact .codePoint
    | false => exact .plain (lookup_escapes_eq_none.1 hlookup)

theorem Writes.head (h : Writes c w) : ∃ x xs, w = x :: xs ∧ x ≠ '\"' := by
  cases h with
  | escape => exact ⟨_, _, rfl, by decide⟩
  | codePoint => exact ⟨_, _, rfl, by decide⟩
  | plain hc =>
    refine ⟨c, [], rfl, ?_⟩
    rintro rfl
    exact hc (by decide)

theorem Writes.newline_not_mem (h : Writes c w) : '\n' ∉ w := by
  cases h with
  | escape he =>
    have hall : ∀ p ∈ escapes, '\n' ∉ ['\\', p.2] := by decide
    exact hall _ he
  | codePoint =>
    have hdigits := not_mem_toDigits (b := 16) (by decide) (fun k =>
      Nat.digitChar_ne '\n' (by decide)) c.toNat
    simp [hdigits]
  | plain hc =>
    rintro hmem
    rw [List.mem_singleton] at hmem
    exact hc (hmem ▸ by decide)

/-- Two characters that are written the same are the same. -/
theorem Writes.append_inj (h : Writes c w) (h' : Writes c' w') (heq : w ++ s = w' ++ t) :
    c = c' ∧ s = t := by
  -- What is behind a backslash tells the ways apart, and nothing begins with one otherwise.
  have hback : ∀ p ∈ escapes, ∀ q ∈ escapes, p.2 = q.2 → p.1 = q.1 := by decide
  have hu : ∀ p ∈ escapes, p.2 ≠ 'u' := by decide
  have hplain : '\\' ∈ escapes.map Prod.fst := by decide
  cases h with
  | escape he =>
    cases h' with
    | escape he' =>
      simp only [List.cons_append, List.nil_append, List.cons.injEq, true_and] at heq
      exact ⟨hback _ he _ he' heq.1, heq.2⟩
    | codePoint =>
      simp only [List.cons_append, List.nil_append, List.cons.injEq, true_and] at heq
      exact absurd heq.1 (hu _ he)
    | plain hc' => exact absurd ((List.head_eq_of_cons_eq heq) ▸ hplain) hc'
  | codePoint =>
    cases h' with
    | escape he' =>
      simp only [List.cons_append, List.nil_append, List.cons.injEq, true_and] at heq
      exact absurd heq.1.symm (hu _ he')
    | codePoint =>
      simp only [List.cons_append, List.append_assoc, List.nil_append, List.cons.injEq,
        true_and] at heq
      have hbrace (n : Nat) : '}' ∉ Nat.toDigits 16 n :=
        not_mem_toDigits (by decide) (fun k => Nat.digitChar_ne '}' (by decide)) n
      obtain ⟨hdigits, rfl⟩ := append_cons_inj (hbrace _) (hbrace _) heq
      exact ⟨Char.toNat_inj.1 (toDigits_injective (by decide) (by decide) hdigits), rfl⟩
    | plain hc' => exact absurd ((List.head_eq_of_cons_eq heq) ▸ hplain) hc'
  | plain hc =>
    cases h' with
    | escape => exact absurd ((List.head_eq_of_cons_eq heq) ▸ hplain) hc
    | codePoint => exact absurd ((List.head_eq_of_cons_eq heq) ▸ hplain) hc
    | plain => exact ⟨List.head_eq_of_cons_eq heq, List.tail_eq_of_cons_eq heq⟩

/-! ## Texts -/

theorem flatMap_quotedCharBy_append_inj {cs cs' : List Char}
    (h : cs.flatMap (quotedCharBy hidden) ++ '\"' :: s =
      cs'.flatMap (quotedCharBy hidden) ++ '\"' :: t) : cs = cs' ∧ s = t := by
  induction cs generalizing cs' with
  | nil =>
    cases cs' with
    | nil => exact ⟨rfl, List.tail_eq_of_cons_eq h⟩
    | cons c' cs' =>
      obtain ⟨x, xs, hw, hx⟩ := (writes_quotedCharBy hidden c').head
      rw [List.flatMap_cons, hw] at h
      exact absurd (List.head_eq_of_cons_eq h).symm hx
  | cons c cs ih =>
    cases cs' with
    | nil =>
      obtain ⟨x, xs, hw, hx⟩ := (writes_quotedCharBy hidden c).head
      rw [List.flatMap_cons, hw] at h
      exact absurd (List.head_eq_of_cons_eq h) hx
    | cons c' cs' =>
      rw [List.flatMap_cons, List.flatMap_cons, List.append_assoc, List.append_assoc] at h
      obtain ⟨rfl, hrest⟩ :=
        (writes_quotedCharBy hidden c).append_inj (writes_quotedCharBy hidden c') h
      obtain ⟨rfl, rfl⟩ := ih hrest
      exact ⟨rfl, rfl⟩

/-- A quoted text can be told from what is written, with anything behind it. -/
theorem quotedBy_append_inj {x y : String}
    (h : (quotedBy hidden x).toList ++ s = (quotedBy hidden y).toList ++ t) : x = y ∧ s = t := by
  simp only [quotedBy, String.toList_ofList, List.append_assoc, List.cons_append, List.nil_append,
    List.cons.injEq, true_and] at h
  obtain ⟨hlist, rfl⟩ := flatMap_quotedCharBy_append_inj h
  exact ⟨String.toList_inj.1 hlist, rfl⟩

theorem newline_not_mem_quotedBy (hidden : Char → Bool) (x : String) :
    '\n' ∉ (quotedBy hidden x).toList := by
  simp [quotedBy, (writes_quotedCharBy hidden _).newline_not_mem]

end ResultHints
