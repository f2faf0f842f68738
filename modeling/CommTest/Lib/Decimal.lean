import Mathlib.Algebra.Order.Field.Rat
import Mathlib.Data.List.Basic
import Mathlib.Data.List.TakeWhile
import Mathlib.Data.Nat.Log
import Mathlib.Tactic.Ring
import Mathlib.Tactic.FieldSimp

/-!
# Numbers as decimal text

* `padText w n` are the last `w` digits of `n`, `natText n` all of them; `readDigits` is the number in
  a text of digits.
* `fixedText w neg k` is the number `k / 10 ^ w` with `w` digits behind the point, and `readDecimal`
  the number at the beginning of a text: `readDecimal_fixedText`.
* `mem_fixedText` and `length_fixedText_le`: which characters a text has, and how many.
-/

namespace Decimal

/-! ## Digits -/

/-- The digit `d`. -/
def digit (d : Nat) : UInt8 := UInt8.ofNat (48 + d)

/-- The digits. -/
def isDigit (b : UInt8) : Bool := 48 ≤ b ∧ b ≤ 57

theorem toNat_digit {d : Nat} (h : d < 10) : (digit d).toNat = 48 + d := by
  unfold digit
  rw [UInt8.toNat_ofNat_of_lt' (by rw [UInt8.size]; omega)]

theorem isDigit_digit {d : Nat} (h : d < 10) : isDigit (digit d) = true := by
  have hnat := toNat_digit h
  simp only [isDigit, decide_eq_true_eq, UInt8.le_iff_toNat_le, hnat]
  have h48 : (48 : UInt8).toNat = 48 := rfl
  have h57 : (57 : UInt8).toNat = 57 := rfl
  omega

/-- The last `w` digits of `n`. -/
def padText : Nat → Nat → List UInt8
  | 0, _ => []
  | w + 1, n => padText w (n / 10) ++ [digit (n % 10)]

/-- The digits of `n`, at least one. -/
def natText (n : Nat) : List UInt8 := padText (Nat.log 10 n + 1) n

/-- The number in a text of digits. -/
def readDigits (t : List UInt8) : Nat := t.foldl (fun v b => 10 * v + (b.toNat - 48)) 0

@[simp] theorem length_padText (w n : Nat) : (padText w n).length = w := by
  induction w generalizing n with
  | zero => rfl
  | succ w ih => rw [padText, List.length_append, ih, List.length_singleton]

theorem isDigit_of_mem_padText {w n : Nat} {b : UInt8} (h : b ∈ padText w n) : isDigit b = true := by
  induction w generalizing n with
  | zero => cases h
  | succ w ih =>
      rw [padText, List.mem_append, List.mem_singleton] at h
      rcases h with h | rfl
      · exact ih h
      · exact isDigit_digit (Nat.mod_lt _ (by decide))

theorem readDigits_padText (w n : Nat) : readDigits (padText w n) = n % 10 ^ w := by
  induction w generalizing n with
  | zero => rw [pow_zero, Nat.mod_one, padText, readDigits, List.foldl_nil]
  | succ w ih =>
      have hlast := toNat_digit (Nat.mod_lt n (by decide : 0 < 10))
      rw [padText, readDigits, List.foldl_append, ← readDigits, ih, List.foldl_cons, List.foldl_nil,
        hlast, pow_succ', Nat.mod_mul]
      omega

theorem readDigits_natText (n : Nat) : readDigits (natText n) = n := by
  rw [natText, readDigits_padText, Nat.mod_eq_of_lt (Nat.lt_pow_succ_log_self (by decide) n)]

/-! ## Numbers with a point -/

/-- `k / 10 ^ w`, with a sign when `neg`, and `w` digits behind the point. -/
def fixedText (w : Nat) (neg : Bool) (k : Nat) : List UInt8 :=
  (if neg then [45] else []) ++ (natText (k / 10 ^ w) ++ 46 :: padText w k)

/-- The white space before a number. -/
def isSpace (b : UInt8) : Bool := b = 32 ∨ 9 ≤ b ∧ b ≤ 13

/-- The exponent at the beginning of a text, `0` if there is none. -/
def readExponent : List UInt8 → ℤ
  | [] => 0
  | c :: t =>
      if c = 101 ∨ c = 69 then
        if t.head? = some 45 then -readDigits ((t.drop 1).takeWhile isDigit)
        else if t.head? = some 43 then readDigits ((t.drop 1).takeWhile isDigit)
        else readDigits (t.takeWhile isDigit)
      else 0

/-- The number at the beginning of a text without a sign: digits, a point and more digits, an
exponent, and each of them may be missing. -/
def readUnsigned (t : List UInt8) : ℚ :=
  let rest := t.dropWhile isDigit
  let point := rest.head? = some 46
  let frac := if point then (rest.drop 1).takeWhile isDigit else []
  let rest := if point then (rest.drop 1).dropWhile isDigit else rest
  (readDigits (t.takeWhile isDigit) + readDigits frac / 10 ^ frac.length) * 10 ^ readExponent rest

/-- The number at the beginning of a text, behind white space and a sign. -/
def readDecimal (t : List UInt8) : ℚ :=
  let t := t.dropWhile isSpace
  if t.head? = some 45 then -readUnsigned (t.drop 1)
  else if t.head? = some 43 then readUnsigned (t.drop 1)
  else readUnsigned t

/-- A digit is neither a sign nor white space. -/
theorem of_isDigit {b : UInt8} (h : isDigit b = true) : b ≠ 45 ∧ b ≠ 43 ∧ isSpace b = false := by
  simp only [isDigit, decide_eq_true_eq, UInt8.le_iff_toNat_le] at h
  have h48 : (48 : UInt8).toNat = 48 := rfl
  refine ⟨?_, ?_, ?_⟩
  · rintro rfl
    exact absurd h.1 (by decide)
  · rintro rfl
    exact absurd h.1 (by decide)
  · have h32 : b ≠ 32 := by
      rintro rfl
      exact absurd h.1 (by decide)
    have h13 : (13 : UInt8).toNat = 13 := rfl
    simp only [isSpace, decide_eq_false_iff_not, UInt8.le_iff_toNat_le, not_or, not_and, not_le]
    exact ⟨h32, fun _ => by omega⟩

theorem isDigit_of_mem_natText {n : Nat} {b : UInt8} (h : b ∈ natText n) : isDigit b = true :=
  isDigit_of_mem_padText h

theorem natText_ne_nil (n : Nat) : natText n ≠ [] := by
  intro h
  have hlen := congrArg List.length h
  rw [natText, length_padText] at hlen
  cases hlen

/-- Digits are taken up to what is none. -/
theorem takeWhile_digits {t : List UInt8} (ht : ∀ b ∈ t, isDigit b = true) {c : UInt8}
    (hc : isDigit c = false) (s : List UInt8) :
    (t ++ c :: s).takeWhile isDigit = t ∧ (t ++ c :: s).dropWhile isDigit = c :: s := by
  have hc' : ¬isDigit c = true := by simp [hc]
  constructor
  · rw [List.takeWhile_append_of_pos ht, List.takeWhile_cons_of_neg hc', List.append_nil]
  · rw [List.dropWhile_append_of_pos ht, List.dropWhile_cons_of_neg hc']

theorem readUnsigned_text (w k : Nat) :
    readUnsigned (natText (k / 10 ^ w) ++ 46 :: padText w k) = k / 10 ^ w := by
  obtain ⟨htake, hdrop⟩ := takeWhile_digits (fun _ => isDigit_of_mem_natText (n := k / 10 ^ w))
    (by decide : isDigit 46 = false) (padText w k)
  have hfrac : (padText w k).takeWhile isDigit = padText w k :=
    List.takeWhile_eq_self_iff.mpr fun _ => isDigit_of_mem_padText
  have hrest : (padText w k).dropWhile isDigit = [] :=
    List.dropWhile_eq_nil_iff.mpr fun _ => isDigit_of_mem_padText
  have hsplit : (k : ℚ) = (k / 10 ^ w : Nat) * 10 ^ w + (k % 10 ^ w : Nat) := by
    exact_mod_cast (Nat.div_add_mod' k (10 ^ w)).symm
  have hpos : (10 : ℚ) ^ w ≠ 0 := pow_ne_zero w (by norm_num)
  simp only [readUnsigned, htake, hdrop, List.head?_cons, List.drop_one, List.tail_cons, if_true,
    hfrac, hrest, length_padText, readDigits_natText, readDigits_padText, readExponent, zpow_zero,
    mul_one]
  rw [eq_div_iff hpos, add_mul, div_mul_cancel₀ _ hpos, ← hsplit]

/-- **The text is read back.** -/
theorem readDecimal_fixedText (w : Nat) (neg : Bool) (k : Nat) :
    readDecimal (fixedText w neg k) = (if neg then -1 else 1) * (k / 10 ^ w) := by
  have hvalue := readUnsigned_text w k
  cases neg with
  | true =>
      show -readUnsigned (natText (k / 10 ^ w) ++ 46 :: padText w k) = -1 * (k / 10 ^ w)
      rw [hvalue, neg_one_mul]
  | false =>
      obtain ⟨c, t, hct⟩ := List.exists_cons_of_ne_nil (natText_ne_nil (k / 10 ^ w))
      obtain ⟨hminus, hplus, hspace⟩ :=
        of_isDigit (isDigit_of_mem_natText (n := k / 10 ^ w) (b := c) (by rw [hct]; simp))
      show readDecimal (natText (k / 10 ^ w) ++ 46 :: padText w k) = 1 * (k / 10 ^ w)
      rw [hct, List.cons_append] at hvalue ⊢
      have hdrop : (c :: (t ++ 46 :: padText w k)).dropWhile isSpace = c :: (t ++ 46 :: padText w k) :=
        List.dropWhile_cons_of_neg (by simp [hspace])
      simp only [readDecimal, hdrop, List.head?_cons, Option.some.injEq, hminus, hplus, if_false,
        hvalue, one_mul]

/-- A text has digits, a point and a sign. -/
theorem mem_fixedText {w : Nat} {neg : Bool} {k : Nat} {b : UInt8} (h : b ∈ fixedText w neg k) :
    isDigit b = true ∨ b = 46 ∨ b = 45 := by
  unfold fixedText at h
  rw [List.mem_append, List.mem_append, List.mem_cons] at h
  rcases h with h | h | h | h
  · cases neg with
    | true => exact .inr (.inr (List.mem_singleton.mp h))
    | false => cases h
  · exact .inl (isDigit_of_mem_natText h)
  · exact .inr (.inl h)
  · exact .inl (isDigit_of_mem_padText h)

theorem fixedText_ne_nil (w : Nat) (neg : Bool) (k : Nat) : fixedText w neg k ≠ [] := by
  simp [fixedText]

/-- How long a text is. -/
theorem length_fixedText_le {w n : Nat} {neg : Bool} {k : Nat} (h : k / 10 ^ w < 10 ^ (n + 1)) :
    (fixedText w neg k).length ≤ w + n + 3 := by
  have hsign : (if neg then [45] else [] : List UInt8).length ≤ 1 := by
    cases neg <;> simp
  have hlog : Nat.log 10 (k / 10 ^ w) ≤ n := Nat.lt_succ_iff.mp (Nat.log_lt_of_lt_pow' (by omega) h)
  unfold fixedText natText
  rw [List.length_append, List.length_append, List.length_cons, length_padText, length_padText]
  omega

end Decimal
