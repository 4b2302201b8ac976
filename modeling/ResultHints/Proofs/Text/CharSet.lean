import ResultHints.Text.Blank
import ResultHints.Text.Digit
import ResultHints.Text.Name

/-!
# Inclusion of character sets

Whether one set of characters lies in another is read off their boundaries
(`CharSet.holds_of_within`). So every character that may begin a name may also go
on with one (`isNamePart_of_isNameStart`), and a name is never empty; and a blank never
stands in a name or a number (`isNamePart_of_isBlank`).
-/

namespace ResultHints

namespace CharSet

/-- Whether, from some point on, one set lies in another: `a` and `b` tell whether the point is
    in them, and at the boundaries that follow, membership changes. No more than `limit`
    boundaries are looked at. -/
def within : (limit : Nat) → (a b : Bool) → (xs ys : List Nat) → Bool
  | 0, _, _, _, _ => false
  | _ + 1, a, b, [], [] => !a || b
  | limit + 1, a, b, _ :: xs, [] => (!a || b) && within limit (!a) b xs []
  | limit + 1, a, b, [], _ :: ys => (!a || b) && within limit a (!b) [] ys
  | limit + 1, a, b, x :: xs, y :: ys => (!a || b) &&
    if x < y then within limit (!a) b xs (y :: ys)
    else if y < x then within limit a (!b) (x :: xs) ys
    else within limit (!a) (!b) xs ys

theorem holds_of_within {limit : Nat} {a b : Bool} {xs ys : List Nat}
    (h : within limit a b xs ys) (n : Nat) (hn : holds n a xs) : holds n b ys := by
  fun_induction within limit a b xs ys with
  | case1 => simp at h
  | case2 => simp_all [holds]
  | case3 limit a b x xs ih => grind [holds]
  | case4 limit a b y ys ih => grind [holds]
  | case5 limit a b x xs y ys first second both => grind [holds]

/-- The complement of a set has the same boundaries, and begins inside. -/
theorem holds_not (n : Nat) (a : Bool) (xs : List Nat) : holds n (!a) xs = !holds n a xs := by
  induction xs generalizing a with
  | nil => rfl
  | cons x xs ih =>
    rw [holds, holds, ih, apply_ite not]

end CharSet

/-- What may begin a name may go on with one. -/
theorem isNamePart_of_isNameStart {c : Char} (h : isNameStart c) : isNamePart c := by
  have wide : CharSet.within
      (wideNameStarts.boundaries.length + wideNameParts.boundaries.length + 1)
      false false wideNameStarts.boundaries wideNameParts.boundaries := by
    decide +kernel
  rw [isNameStart] at h
  rw [isNamePart]
  split
  · rw [if_pos ‹_›] at h
    simp only [Char.isAlphanum, Bool.or_eq_true] at h ⊢
    exact h.imp id .inl
  · rw [if_neg ‹_›] at h
    exact CharSet.holds_of_within wide _ h

/-! ## Blanks -/

variable {b c : Char}

/-- No blank stands in a name. -/
theorem isNamePart_of_isBlank (h : isBlank b) : isNamePart b = false := by
  have wide : CharSet.within
      (wideBlanks.boundaries.length + wideNameParts.boundaries.length + 1)
      false true wideBlanks.boundaries wideNameParts.boundaries := by
    decide +kernel
  rw [isBlank] at h
  rw [isNamePart]
  split
  · next hascii =>
    rw [if_pos hascii] at h
    have hlow : ∀ n < 0x80, (Char.ofNat n == ' ' || (9 ≤ n && n ≤ 13)) →
        (Char.ofNat n == '_' || (Char.ofNat n).isAlphanum) = false := by
      decide +kernel
    have hchar := hlow b.toNat hascii
    rw [Char.ofNat_toNat] at hchar
    exact hchar h
  · next hascii =>
    rw [if_neg hascii] at h
    have hout := CharSet.holds_of_within wide _ h
    rw [← Bool.not_false, CharSet.holds_not] at hout
    simpa [CharSet.mem] using hout

/-- The digits of base sixteen are ASCII characters. -/
theorem toNat_lt_of_isHexDigit (h : isHexDigit c) : c.toNat < 0x80 := by
  simp only [isHexDigit, Char.isDigit, Bool.or_eq_true, Bool.and_eq_true, decide_eq_true_eq,
    ge_iff_le, Char.le_def, UInt32.le_iff_toNat_le] at h
  obtain (⟨-, hle⟩ | ⟨-, hle⟩) | ⟨-, hle⟩ := h <;> exact Nat.lt_of_le_of_lt hle (by decide)

theorem isNamePart_of_isHexDigit (h : isHexDigit c) : isNamePart c := by
  have hlow : ∀ n < 0x80, isHexDigit (Char.ofNat n) → isNamePart (Char.ofNat n) := by
    decide +kernel
  have hpart := hlow c.toNat (toNat_lt_of_isHexDigit h)
  rw [Char.ofNat_toNat] at hpart
  exact hpart h

/-- No name begins with a digit. -/
theorem isDigit_of_isNameStart (h : isNameStart c) : c.isDigit = false := by
  have hlow : ∀ n < 0x80, isNameStart (Char.ofNat n) → (Char.ofNat n).isDigit = false := by
    decide +kernel
  rw [Bool.eq_false_iff]
  intro hdigit
  have hascii : c.toNat < 0x80 := by
    simp only [Char.isDigit, Bool.and_eq_true, decide_eq_true_eq, UInt32.le_iff_toNat_le] at hdigit
    exact Nat.lt_of_le_of_lt hdigit.2 (by decide)
  have hno := hlow c.toNat hascii
  rw [Char.ofNat_toNat] at hno
  rw [hno h] at hdigit
  cases hdigit

/-- No blank is a digit of base sixteen. -/
theorem isHexDigit_of_isBlank (h : isBlank b) : isHexDigit b = false := by
  rw [Bool.eq_false_iff]
  intro hdigit
  have hpart := isNamePart_of_isHexDigit hdigit
  rw [isNamePart_of_isBlank h] at hpart
  cases hpart

/-- No blank is a digit of base ten. -/
theorem isDigit_of_isBlank (h : isBlank b) : b.isDigit = false := by
  have hhex := isHexDigit_of_isBlank h
  simp only [isHexDigit, Bool.or_eq_false_iff] at hhex
  exact hhex.1.1

/-- A blank is none of the other characters. -/
theorem ne_of_isBlank (h : isBlank b) (hc : isBlank c = false) : b ≠ c := by
  rintro rfl
  rw [h] at hc
  cases hc

end ResultHints
