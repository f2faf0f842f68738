import Mathlib.Algebra.BigOperators.Field
import Mathlib.Algebra.Order.BigOperators.Ring.Finset
import Mathlib.Algebra.CharP.Defs
import Mathlib.Tactic.FieldSimp
import Mathlib.Tactic.Ring

/-!
# Mean and deviation of a finite family

* `IsMean s f m`: `m` is the mean of `f` over `s`. `IsMean.sum_sub`: the deviations from it add up
  to 0.
* `IsMean.sum_sq_eq_zero_iff`: the squared deviations add up to 0 exactly for a constant family.
* `IsMean.sum_scaled`, `sum_sq_scaled`: the deviations, divided by `σ` and by `r` where `σ² r²` is
  the sum of their squares, have sum 0 and sum of squares 1.
-/

namespace Moments

universe u v

variable {ι : Type u} {K : Type v} [Field K] {s : Finset ι} {f : ι → K} {m σ r : K}

/-- `m` is the mean of `f` over `s`. -/
def IsMean (s : Finset ι) (f : ι → K) (m : K) : Prop := ∑ i ∈ s, f i = s.card * m

theorem isMean_div (hs : (s.card : K) ≠ 0) : IsMean s f ((∑ i ∈ s, f i) / s.card) :=
  (mul_div_cancel₀ _ hs).symm

theorem IsMean.sum_sub (h : IsMean s f m) : ∑ i ∈ s, (f i - m) = 0 := by
  rw [Finset.sum_sub_distrib, Finset.sum_const, nsmul_eq_mul, h, sub_self]

/-- The scaled deviations add up to 0. -/
theorem IsMean.sum_scaled (h : IsMean s f m) (σ r : K) : ∑ i ∈ s, (f i - m) / σ / r = 0 := by
  rw [← Finset.sum_div, ← Finset.sum_div, h.sum_sub, zero_div, zero_div]

/-- The squares of the scaled deviations add up to 1. -/
theorem sum_sq_scaled (hσ : σ ≠ 0) (hr : r ≠ 0) (h : σ ^ 2 * r ^ 2 = ∑ i ∈ s, (f i - m) ^ 2) :
    ∑ i ∈ s, ((f i - m) / σ / r) ^ 2 = 1 := by
  have hterm : ∀ i ∈ s, ((f i - m) / σ / r) ^ 2 = (f i - m) ^ 2 / (σ ^ 2 * r ^ 2) := by
    intro i _
    field_simp
  have hne : σ ^ 2 * r ^ 2 ≠ 0 := mul_ne_zero (pow_ne_zero 2 hσ) (pow_ne_zero 2 hr)
  rw [Finset.sum_congr rfl hterm, ← Finset.sum_div, ← h, div_self hne]

section

variable [LinearOrder K] [IsStrictOrderedRing K]

/-- No deviation at all: every value is `m`. -/
theorem sum_sq_sub_eq_zero_iff : ∑ i ∈ s, (f i - m) ^ 2 = 0 ↔ ∀ i ∈ s, f i = m := by
  rw [Finset.sum_eq_zero_iff_of_nonneg fun i _ => sq_nonneg (f i - m)]
  refine forall₂_congr fun i _ => ?_
  rw [sq_eq_zero_iff, sub_eq_zero]

/-- **The deviation vanishes exactly for a constant family.** -/
theorem IsMean.sum_sq_eq_zero_iff (h : IsMean s f m) :
    ∑ i ∈ s, (f i - m) ^ 2 = 0 ↔ ∀ i ∈ s, ∀ j ∈ s, f i = f j := by
  rw [sum_sq_sub_eq_zero_iff]
  constructor
  · intro hm i hi j hj
    rw [hm i hi, hm j hj]
  · intro hconst i hi
    have hsum : ∑ j ∈ s, f j = s.card * f i := by
      rw [Finset.sum_congr rfl fun j hj => hconst j hj i hi, Finset.sum_const, nsmul_eq_mul]
    have hcard : (s.card : K) ≠ 0 := Nat.cast_ne_zero.mpr (Finset.card_ne_zero_of_mem hi)
    exact mul_left_cancel₀ hcard (hsum.symm.trans h)

end

end Moments
