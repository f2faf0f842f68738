import Mathlib.Algebra.BigOperators.Group.Finset.Basic
import Mathlib.Data.Int.CardIntervalMod
import Mathlib.Data.List.Basic
import Mathlib.Data.List.Nodup
import Mathlib.Data.Multiset.Basic
import Mathlib.Logic.Function.Basic

/-!
# Dealing out round-robin

`Dealt n xs rows`: the elements of `xs` have been dealt out in turn to the rows `0, …, n - 1`, so
the element at position `c` is in row `c % n` at place `c / n`.

* `Dealt.get`: where an element is. `Dealt.concat`: one more element goes to the end of the row
  whose turn it is.
* `Dealt.row_unique`, `Dealt.place_unique`: with distinct elements, each is in one place only.
* `share n m i` is the length that row `i` gets when `m` elements are dealt out (`share_succ`: one
  more at a time); `Dealt.length_le_share`: no row is longer while there are at most `m` of them.
* `sum_rows_concat`: the rows together get exactly the element that is dealt.
-/

namespace RoundRobin

universe u

variable {α : Type u} {n : Nat} {xs : List α} {rows : Nat → List α}

/-- The rows hold the elements of `xs`, dealt out in turn. -/
def Dealt (n : Nat) (xs : List α) (rows : Nat → List α) : Prop :=
  ∀ i, i < n → ∀ k, (rows i)[k]? = xs[k * n + i]?

theorem Dealt.nil : Dealt n ([] : List α) fun _ => [] := by
  intro i _ k
  simp

/-- Where the element at position `c` is. -/
theorem Dealt.get (h : Dealt n xs rows) (hn : 0 < n) (c : Nat) :
    (rows (c % n))[c / n]? = xs[c]? := by
  rw [h (c % n) (Nat.mod_lt c hn) (c / n), Nat.mul_comm, Nat.div_add_mod]

theorem Dealt.mem_row (h : Dealt n xs rows) (hn : 0 < n) {c : Nat} {x : α} (hc : xs[c]? = some x) :
    x ∈ rows (c % n) :=
  List.mem_of_getElem? ((h.get hn c).trans hc)

/-- The places of row `i` that are filled. -/
theorem Dealt.lt_length_iff (h : Dealt n xs rows) {i : Nat} (hi : i < n) (k : Nat) :
    k < (rows i).length ↔ k * n + i < xs.length := by
  rw [← not_iff_not, Nat.not_lt, Nat.not_lt, ← List.getElem?_eq_none_iff,
    ← List.getElem?_eq_none_iff, h i hi k]

/-- The row whose turn it is has been dealt one element in each full round. -/
theorem Dealt.length_row (h : Dealt n xs rows) (hn : 0 < n) :
    (rows (xs.length % n)).length = xs.length / n := by
  have hi := Nat.mod_lt xs.length hn
  have hdiv := Nat.div_add_mod xs.length n
  rw [Nat.mul_comm] at hdiv
  apply Nat.le_antisymm
  · have hnone := h (xs.length % n) hi (xs.length / n)
    rw [hdiv, List.getElem?_eq_none (Nat.le_refl _)] at hnone
    exact List.getElem?_eq_none_iff.mp hnone
  · -- the place before the last full round is filled
    rcases Nat.eq_zero_or_pos (xs.length / n) with hz | hpos
    · omega
    · have hlast := h (xs.length % n) hi (xs.length / n - 1)
      have hlt : (xs.length / n - 1) * n + xs.length % n < xs.length := by
        rw [Nat.sub_mul]
        have hle : n ≤ xs.length / n * n := Nat.le_mul_of_pos_left n hpos
        omega
      rw [List.getElem?_eq_getElem hlt] at hlast
      have := (List.getElem?_eq_some_iff.mp hlast).1
      omega

/-- One more element goes to the end of the row whose turn it is. -/
theorem Dealt.concat (h : Dealt n xs rows) (hn : 0 < n) (x : α) {rows' : Nat → List α}
    (hrow : rows' (xs.length % n) = rows (xs.length % n) ++ [x])
    (hother : ∀ i, i ≠ xs.length % n → rows' i = rows i) : Dealt n (xs ++ [x]) rows' := by
  intro i hi k
  have hdiv := Nat.div_add_mod xs.length n
  rw [Nat.mul_comm] at hdiv
  have hlen := h.length_row hn
  by_cases hrowi : i = xs.length % n
  · subst hrowi
    rw [hrow]
    rcases Nat.lt_trichotomy k (xs.length / n) with hk | hk | hk
    · have hlt : k * n + xs.length % n < xs.length := by
        have hmul := Nat.mul_le_mul_right n hk
        rw [Nat.succ_mul] at hmul
        omega
      rw [List.getElem?_append_left (by omega), List.getElem?_append_left hlt, h _ hi]
    · subst hk
      rw [hdiv, ← hlen, List.getElem?_concat_length, List.getElem?_concat_length]
    · have hmul := Nat.mul_le_mul_right n hk
      rw [Nat.succ_mul] at hmul
      rw [List.getElem?_eq_none (by simp; omega), List.getElem?_eq_none (by simp; omega)]
  · rw [hother i hrowi, h i hi]
    have hne : k * n + i ≠ xs.length := by
      intro heq
      apply hrowi
      rw [← heq, Nat.mul_comm, Nat.mul_add_mod]
      exact (Nat.mod_eq_of_lt hi).symm
    rcases Nat.lt_or_ge (k * n + i) xs.length with hlt | hge
    · rw [List.getElem?_append_left hlt]
    · rw [List.getElem?_eq_none hge, List.getElem?_eq_none (by simp; omega)]

/-- What row `i` gets when `m` elements are dealt out to `n` rows. -/
def share (n m i : Nat) : Nat := if i < m % n then m / n + 1 else m / n

/-- A place with a position below `m` is inside the share of its row. -/
theorem lt_share {m i k : Nat} (hi : i < n) (h : k * n + i < m) : k < share n m i := by
  have hdiv := Nat.div_add_mod m n
  rw [Nat.mul_comm] at hdiv
  unfold share
  split_ifs with hrem
  · have hle : k * n ≤ m := by omega
    have hn : 0 < n := Nat.lt_of_le_of_lt (Nat.zero_le i) hi
    exact Nat.lt_succ_of_le ((Nat.le_div_iff_mul_le hn).mpr hle)
  · have hlt : k * n < m / n * n := by omega
    exact Nat.lt_of_mul_lt_mul_right hlt

/-- The share of row `i` counts the positions below `m` that are its turn. -/
theorem share_eq_count {m i : Nat} (hi : i < n) : share n m i = m.count (· ≡ i [MOD n]) := by
  rw [Nat.count_modEq_card m (Nat.lt_of_le_of_lt (Nat.zero_le i) hi) i, Nat.mod_eq_of_lt hi, share]
  split_ifs <;> rfl

/-- One more element is one more for the row whose turn it is. -/
theorem share_succ {m i : Nat} (hi : i < n) :
    share n (m + 1) i = share n m i + if i = m % n then 1 else 0 := by
  have hturn : m ≡ i [MOD n] ↔ i = m % n := by
    rw [Nat.ModEq, Nat.mod_eq_of_lt hi]
    exact eq_comm
  simp only [share_eq_count hi, Nat.count_succ, hturn]

theorem share_mono {m m' i : Nat} (hi : i < n) (h : m ≤ m') : share n m i ≤ share n m' i := by
  rw [share_eq_count hi, share_eq_count hi]
  exact Nat.count_monotone _ h

theorem Dealt.length_le_share (h : Dealt n xs rows) {i m : Nat} (hi : i < n) (hm : xs.length ≤ m) :
    (rows i).length ≤ share n m i := by
  by_contra hlong
  have hplace := (h.lt_length_iff hi (share n m i)).mp (Nat.lt_of_not_le hlong)
  exact Nat.lt_irrefl _ (lt_share hi (Nat.lt_of_lt_of_le hplace hm))

/-- All rows together, with one more element at the end of one of them. -/
theorem sum_rows_concat {i : Nat} (hi : i < n) (x : α) {rows' : Nat → List α}
    (hrow : rows' i = rows i ++ [x]) (hother : ∀ j, j ≠ i → rows' j = rows j) :
    ∑ j ∈ Finset.range n, (rows' j : Multiset α) =
      ∑ j ∈ Finset.range n, (rows j : Multiset α) + {x} := by
  have hmem : i ∈ Finset.range n := Finset.mem_range.mpr hi
  rw [← Finset.add_sum_erase _ _ hmem, ← Finset.add_sum_erase _ _ hmem, hrow]
  have hrest : ∑ j ∈ (Finset.range n).erase i, (rows' j : Multiset α) =
      ∑ j ∈ (Finset.range n).erase i, (rows j : Multiset α) := by
    apply Finset.sum_congr rfl
    intro j hj
    rw [hother j (Finset.ne_of_mem_erase hj)]
  rw [hrest, ← Multiset.coe_add, Multiset.coe_singleton, add_right_comm]

section

variable (h : Dealt n xs rows) (hxs : xs.Nodup)

include h hxs

/-- Two places with one element are the same position. -/
theorem Dealt.position_unique {i j k l : Nat} {x : α} (hi : i < n) (hj : j < n)
    (hx : (rows i)[k]? = some x) (hx' : (rows j)[l]? = some x) : k * n + i = l * n + j := by
  rw [h i hi] at hx
  rw [h j hj] at hx'
  exact (List.getElem?_inj (List.getElem?_eq_some_iff.mp hx).1 hxs).mp (hx.trans hx'.symm)

/-- Distinct elements: no two rows share one. -/
theorem Dealt.row_unique {i j : Nat} {x : α} (hi : i < n) (hj : j < n) (hx : x ∈ rows i)
    (hx' : x ∈ rows j) : i = j := by
  obtain ⟨k, hk⟩ := List.getElem?_of_mem hx
  obtain ⟨l, hl⟩ := List.getElem?_of_mem hx'
  have hpos := congrArg (· % n) (h.position_unique hxs hi hj hk hl)
  simp only [Nat.mul_comm _ n, Nat.mul_add_mod, Nat.mod_eq_of_lt hi, Nat.mod_eq_of_lt hj] at hpos
  exact hpos

/-- Distinct elements: no row holds one of them twice. -/
theorem Dealt.place_unique {i k l : Nat} {x : α} (hi : i < n) (hx : (rows i)[k]? = some x)
    (hx' : (rows i)[l]? = some x) : k = l := by
  have hpos := h.position_unique hxs hi hi hx hx'
  have hmul : k * n = l * n := by omega
  exact Nat.eq_of_mul_eq_mul_right (Nat.lt_of_le_of_lt (Nat.zero_le i) hi) hmul

theorem Dealt.nodup_row {i : Nat} (hi : i < n) : (rows i).Nodup := by
  rw [List.nodup_iff_injective_get]
  intro a b hab
  have ha : (rows i)[a.val]? = some ((rows i).get a) := by simp
  have hb : (rows i)[b.val]? = some ((rows i).get a) := by
    rw [hab]
    simp
  exact Fin.ext (h.place_unique hxs hi ha hb)

end

end RoundRobin
