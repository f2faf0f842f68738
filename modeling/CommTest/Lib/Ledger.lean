import Mathlib.Algebra.BigOperators.Group.Finset.Basic
import Mathlib.Algebra.BigOperators.Ring.Finset
import Mathlib.Algebra.Order.BigOperators.Group.Finset
import Mathlib.Data.Fintype.Basic

/-!
# Ledgers

Finitely many places, each with a content, and a weight that says how much a content is worth (a
number, or the multiset of the tokens it holds). `total w f` is what all places hold together.

* `total_update_of_eq`: a change inside one place that keeps its worth keeps the total.
* `total_update_of_add` / `total_of_update_add`: what is put into one place, or taken out of it, is
  put into the total, or taken out of it.
* `total_update_lt`: a place that loses weight lowers the total. `total_le`: what bounds every place
  bounds the total.
* `total_eq_zero_iff`: nothing is left exactly when every place is empty.
-/

set_option linter.unusedSectionVars false

namespace Ledger

open Finset

universe u v w

variable {ι : Type u} {α : Type v} {M : Type w} [Fintype ι] [DecidableEq ι]

/-- What the places hold together. -/
def total [AddCommMonoid M] (weight : α → M) (f : ι → α) : M := ∑ i, weight (f i)

section Monoid

variable [AddCommMonoid M] (weight : α → M)

/-- The total is the place that is looked at and the others. -/
theorem total_update (f : ι → α) (i : ι) (a : α) :
    total weight (Function.update f i a) = weight a + ∑ j ∈ univ.erase i, weight (f j) := by
  unfold total
  rw [← add_sum_erase univ _ (mem_univ i), Function.update_self]
  congr 1
  apply sum_congr rfl
  intro j hj
  rw [Function.update_of_ne (ne_of_mem_erase hj)]

theorem total_split (f : ι → α) (i : ι) :
    total weight f = weight (f i) + ∑ j ∈ univ.erase i, weight (f j) := by
  rw [← total_update weight f i (f i), Function.update_eq_self]

variable {weight}

/-- A place that keeps its worth keeps the total. -/
theorem total_update_of_eq {f : ι → α} {i : ι} {a : α} (h : weight a = weight (f i)) :
    total weight (Function.update f i a) = total weight f := by
  rw [total_update, total_split weight f i, h]

/-- What comes into one place comes into the total. -/
theorem total_update_of_add {f : ι → α} {i : ι} {a : α} {x : M} (h : weight a = weight (f i) + x) :
    total weight (Function.update f i a) = total weight f + x := by
  rw [total_update, total_split weight f i, h, add_right_comm]

/-- What goes out of one place goes out of the total. -/
theorem total_of_update_add {f : ι → α} {i : ι} {a : α} {x : M} (h : weight (f i) = weight a + x) :
    total weight f = total weight (Function.update f i a) + x := by
  rw [total_update, total_split weight f i, h, add_right_comm]

theorem total_eq_zero {f : ι → α} (h : ∀ i, weight (f i) = 0) : total weight f = 0 :=
  sum_eq_zero fun i _ => h i

end Monoid

/-- Nothing is left exactly when every place is empty. -/
theorem total_eq_zero_iff [AddCommMonoid M] [PartialOrder M] [IsOrderedAddMonoid M]
    [CanonicallyOrderedAdd M] {weight : α → M} {f : ι → α} :
    total weight f = 0 ↔ ∀ i, weight (f i) = 0 := by
  unfold total
  rw [sum_eq_zero_iff]
  exact ⟨fun h i => h i (mem_univ i), fun h i _ => h i⟩

/-- All places the same. -/
theorem total_const {weight : α → Nat} (a : α) :
    total weight (fun _ : ι => a) = Fintype.card ι * weight a := by
  unfold total
  rw [sum_const, card_univ, nsmul_eq_mul, Nat.cast_id]

/-- A bound on each place by what it holds, and by a part of its own. -/
theorem total_le (weight count : α → Nat) {k e : Nat} {f : ι → α}
    (h : ∀ i, weight (f i) ≤ k * count (f i) + e) :
    total weight f ≤ k * total count f + Fintype.card ι * e := by
  unfold total
  calc ∑ i, weight (f i) ≤ ∑ i, (k * count (f i) + e) := sum_le_sum fun i _ => h i
    _ = k * ∑ i, count (f i) + Fintype.card ι * e := by
        rw [sum_add_distrib, mul_sum, sum_const, card_univ, nsmul_eq_mul, Nat.cast_id]

theorem card_total {β : Type*} {weight : α → Multiset β} (f : ι → α) :
    (total weight f).card = total (fun a => (weight a).card) f := Multiset.card_sum _ _

/-- A place that loses weight lowers the total. -/
theorem total_update_lt {weight : α → Nat} {f : ι → α} {i : ι} {a : α}
    (h : weight a < weight (f i)) : total weight (Function.update f i a) < total weight f := by
  rw [total_update, total_split weight f i]
  omega

end Ledger
