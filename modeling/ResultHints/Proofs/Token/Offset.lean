import Mathlib.Data.List.Forall2
import Mathlib.Order.Monotone.Defs
import ResultHints.Proofs.Token.Lossless

/-!
# Offsets by tokens

The tokens of a text begin and end at offsets that one can number: the first token begins at
the offset with the number `0`, and each ends at the offset with the next number
(`tokenOffset`). So offsets in two texts with as many tokens correspond to each other
(`transfer`), and those with the same number correspond both ways.
-/

namespace ResultHints

/-- Where the token with the number `i` begins, and where the one before ends. -/
def tokenOffset (ts : List Token) (i : Nat) : Nat := byteLength ((ts.take i).flatMap Token.text)

/-- How many of the tokens end at an offset or before it. -/
def tokensBefore (ts : List Token) (n : Nat) : Nat := ts.countP fun t => t.stop ≤ n

/-- The offset among the tokens `ts'` to which an offset among the tokens `ts` corresponds. -/
def transfer (ts ts' : List Token) (n : Nat) : Nat := tokenOffset ts' (tokensBefore ts n)

/-- The offsets have the same number, each among the tokens of its text. -/
def SameOffset (ts ts' : List Token) (n n' : Nat) : Prop :=
  ∃ i ≤ ts.length, n = tokenOffset ts i ∧ n' = tokenOffset ts' i

variable {ts ts' : List Token} {text text' : List Char} {t t' : Token} {i j n n' : Nat}

@[simp] theorem tokenOffset_zero (ts : List Token) : tokenOffset ts 0 = 0 := rfl

@[simp] theorem tokenOffset_cons_succ (t : Token) (ts : List Token) (i : Nat) :
    tokenOffset (t :: ts) (i + 1) = byteLength t.text + tokenOffset ts i := by
  rw [tokenOffset, List.take_succ_cons, List.flatMap_cons, byteLength_append, tokenOffset]

theorem tokenOffset_mono (ts : List Token) : Monotone (tokenOffset ts) := by
  intro i j hij
  induction ts generalizing i j with
  | nil => simp [tokenOffset]
  | cons t ts ih =>
    cases i with
    | zero => exact Nat.zero_le _
    | succ i =>
      obtain ⟨j, rfl⟩ : ∃ k, j = k + 1 := ⟨j - 1, by omega⟩
      rw [tokenOffset_cons_succ, tokenOffset_cons_succ]
      exact Nat.add_le_add_left (ih (by omega)) _

theorem tokensBefore_mono (ts : List Token) : Monotone (tokensBefore ts) := fun _ _ hle =>
  List.countP_mono_left fun _ _ h => by simpa using Nat.le_trans (by simpa using h) hle

theorem transfer_mono (ts ts' : List Token) : Monotone (transfer ts ts') := fun _ _ hle =>
  tokenOffset_mono ts' (tokensBefore_mono ts hle)

/-! ## Tokens that tile -/

namespace Tiling

/-- Tokens begin and end at the offsets with their number and the next one. -/
theorem offsets_of_getElem? (h : Tiling n text ts) (ht : ts[i]? = some t) :
    t.start = n + tokenOffset ts i ∧ t.stop = n + tokenOffset ts (i + 1) := by
  induction h generalizing i with
  | nil => simp at ht
  | @cons s rest ts hne _ ih =>
    cases i with
    | zero =>
      obtain rfl : s = t := by simpa using ht
      refine ⟨rfl, ?_⟩
      rw [tokenOffset_cons_succ, tokenOffset_zero]
      rfl
    | succ i =>
      obtain ⟨hstart, hstop⟩ := ih (by simpa using ht)
      rw [tokenOffset_cons_succ, tokenOffset_cons_succ, ← Nat.add_assoc, ← Nat.add_assoc]
      exact ⟨hstart, hstop⟩

theorem tokenOffset_length (h : Tiling n text ts) : tokenOffset ts ts.length = byteLength text := by
  rw [tokenOffset, List.take_length, h.flatMap_text]

/-- As many tokens end before an offset as its number says. -/
theorem tokensBefore_eq (h : Tiling n text ts) (hi : i ≤ ts.length) :
    tokensBefore ts (n + tokenOffset ts i) = i := by
  induction h generalizing i with
  | nil =>
    obtain rfl := Nat.le_zero.1 hi
    rfl
  | @cons s rest ts hne htail ih =>
    cases i with
    | zero =>
      refine List.countP_eq_zero.2 fun t ht => ?_
      obtain ⟨hle, hlt⟩ := (Tiling.cons hne htail).le_start ht
      rw [tokenOffset_zero, Nat.add_zero, decide_eq_true_eq]
      exact Nat.not_le.2 (Nat.lt_of_le_of_lt hle hlt)
    | succ i =>
      have hstop : s.start + tokenOffset (s :: ts) (i + 1) = s.stop + tokenOffset ts i := by
        rw [tokenOffset_cons_succ, ← Nat.add_assoc]
        rfl
      have hrest := ih (Nat.le_of_succ_le_succ hi)
      rw [tokensBefore] at hrest
      rw [hstop, tokensBefore, List.countP_cons_of_pos (by simp), hrest]

end Tiling

/-! ## Tokens of two texts -/

section

variable (h : Tiling 0 text ts)

include h

theorem offsets_of_getElem? (ht : ts[i]? = some t) :
    t.start = tokenOffset ts i ∧ t.stop = tokenOffset ts (i + 1) := by
  simpa using h.offsets_of_getElem? ht

theorem tokensBefore_tokenOffset (hi : i ≤ ts.length) : tokensBefore ts (tokenOffset ts i) = i := by
  simpa using h.tokensBefore_eq hi

theorem transfer_tokenOffset (hi : i ≤ ts.length) :
    transfer ts ts' (tokenOffset ts i) = tokenOffset ts' i := by
  rw [transfer, tokensBefore_tokenOffset h hi]

theorem transfer_of_sameOffset (hsame : SameOffset ts ts' n n') : transfer ts ts' n = n' := by
  obtain ⟨i, hi, rfl, rfl⟩ := hsame
  exact transfer_tokenOffset h hi

/-- Offsets later in the one text correspond to offsets later in the other. -/
theorem tokenOffset_le_iff (hi : i ≤ ts.length) (hj : j ≤ ts.length) :
    tokenOffset ts i ≤ tokenOffset ts j ↔ i ≤ j := by
  refine ⟨fun hle => ?_, fun hle => tokenOffset_mono ts hle⟩
  have hbefore := tokensBefore_mono ts hle
  rwa [tokensBefore_tokenOffset h hi, tokensBefore_tokenOffset h hj] at hbefore

/-- Offsets in the two texts come in the same order. -/
theorem SameOffset.le_iff {m m' : Nat} (h' : Tiling 0 text' ts') (hlength : ts'.length = ts.length)
    (hn : SameOffset ts ts' n n') (hm : SameOffset ts ts' m m') : n ≤ m ↔ n' ≤ m' := by
  obtain ⟨i, hi, rfl, rfl⟩ := hn
  obtain ⟨j, hj, rfl, rfl⟩ := hm
  rw [tokenOffset_le_iff h hi hj, tokenOffset_le_iff h' (hlength ▸ hi) (hlength ▸ hj)]

/-- Tokens with the same number begin at the same offset and end at the same offset. -/
theorem sameOffset_of_getElem? (h' : Tiling 0 text' ts') (ht : ts[i]? = some t)
    (ht' : ts'[i]? = some t') :
    SameOffset ts ts' t.start t'.start ∧ SameOffset ts ts' t.stop t'.stop := by
  have hi : i < ts.length := (List.getElem?_eq_some_iff.1 ht).1
  obtain ⟨hstart, hstop⟩ := offsets_of_getElem? h ht
  obtain ⟨hstart', hstop'⟩ := offsets_of_getElem? h' ht'
  exact ⟨⟨i, hi.le, hstart, hstart'⟩, ⟨i + 1, hi, hstop, hstop'⟩⟩

/-- So do tokens that correspond to each other one by one. -/
theorem forall₂_sameOffset {R : Token → Token → Prop} (h' : Tiling 0 text' ts')
    (hts : List.Forall₂ R ts ts') : List.Forall₂ (fun t t' => R t t' ∧
      SameOffset ts ts' t.start t'.start ∧ SameOffset ts ts' t.stop t'.stop) ts ts' := by
  rw [List.forall₂_iff_get] at hts ⊢
  refine ⟨hts.1, fun i hi hi' => ⟨hts.2 i hi hi', ?_⟩⟩
  exact sameOffset_of_getElem? h h' (List.getElem?_eq_getElem hi) (List.getElem?_eq_getElem hi')

/-- The texts end at the same offset. -/
theorem sameOffset_end (h' : Tiling 0 text' ts') (hlength : ts'.length = ts.length) :
    SameOffset ts ts' (byteLength text) (byteLength text') :=
  ⟨ts.length, Nat.le_refl _, h.tokenOffset_length.symm, hlength ▸ h'.tokenOffset_length.symm⟩

/-- What stands between two offsets are the texts of the tokens between them. -/
theorem slice_tokenOffset (hij : i ≤ j) : slice text ⟨tokenOffset ts i, tokenOffset ts j⟩ =
    ((ts.take j).drop i).flatMap Token.text := by
  have hfront : ts.take i ++ (ts.take j).drop i = ts.take j := by
    have hcut := List.take_append_drop i (ts.take j)
    rwa [List.take_take, Nat.min_eq_left hij] at hcut
  have htext : text = (ts.take i).flatMap Token.text ++
      ((ts.take j).drop i).flatMap Token.text ++ (ts.drop j).flatMap Token.text := by
    rw [← List.flatMap_append, hfront, ← List.flatMap_append, List.take_append_drop, h.flatMap_text]
  have hstop : tokenOffset ts i + byteLength (((ts.take j).drop i).flatMap Token.text) =
      tokenOffset ts j := by
    rw [tokenOffset, tokenOffset, ← byteLength_append, ← List.flatMap_append, hfront]
  rw [htext, ← hstop]
  exact slice_append _ _ _

end

/-- Offsets that correspond to each other both ways have the same number. -/
theorem sameOffset_of_transfer (h' : Tiling 0 text' ts') (hlength : ts'.length = ts.length)
    (hn : transfer ts ts' n = n') (hn' : transfer ts' ts n' = n) : SameOffset ts ts' n n' := by
  have hcount : tokensBefore ts n ≤ ts.length := List.countP_le_length
  have hback : transfer ts' ts (tokenOffset ts' (tokensBefore ts n)) = _ :=
    transfer_tokenOffset h' (hlength ▸ hcount)
  rw [← transfer, hn, hn'] at hback
  exact ⟨tokensBefore ts n, hcount, hback, hn.symm⟩

end ResultHints
