import Mathlib.Order.Lattice

/-!
# The first minimum of a list

`firstMin f best xs` goes through `xs` with a best element so far and its value, and takes an
element over when its value is strictly smaller: of several minima the first one stays.

* `firstMin_split`: the start stays exactly when no element is below it; otherwise the result is an
  element of the list, strictly below all before it and at most all behind it.
* `FirstMinimum r p f x`: among the elements with `p`, `x` is the first in the order `r` at which
  `f` is smallest. `firstMin_firstMinimum`: on a sorted list the scan ends with it.
-/

namespace FirstMin

universe u v

variable {α : Type u} {β : Type v} [LinearOrder β] (f : α → β)

/-- Take `x` over if it is better. -/
def better (best : α × β) (x : α) : α × β := if f x < best.2 then (x, f x) else best

/-- The best element of a list, from a given start. -/
def firstMin (best : α × β) (xs : List α) : α × β := xs.foldl (better f) best

/-- **What the scan ends with**: the start, and then no element is below it, or an element of the
list that is below the start, strictly below all before it and at most all behind it. -/
theorem firstMin_split (best : α × β) (xs : List α) :
    (firstMin f best xs = best ∧ ∀ x ∈ xs, best.2 ≤ f x) ∨
      ∃ l x r, xs = l ++ x :: r ∧ firstMin f best xs = (x, f x) ∧ f x < best.2 ∧
        (∀ y ∈ l, f x < f y) ∧ ∀ y ∈ r, f x ≤ f y := by
  induction xs generalizing best with
  | nil => exact .inl ⟨rfl, fun x hx => by cases hx⟩
  | cons y ys ih =>
      have hcons : firstMin f best (y :: ys) = firstMin f (better f best y) ys := rfl
      rw [hcons]
      by_cases hy : f y < best.2
      · have hbest : better f best y = (y, f y) := if_pos hy
        rw [hbest]
        refine .inr ?_
        rcases ih (y, f y) with ⟨hstay, hall⟩ | ⟨l, x, r, rfl, heq, hlt, hl, hr⟩
        · exact ⟨[], y, ys, rfl, hstay, hy, fun z hz => absurd hz List.not_mem_nil, hall⟩
        · refine ⟨y :: l, x, r, rfl, heq, lt_trans hlt hy, ?_, hr⟩
          intro z hz
          rcases List.mem_cons.mp hz with rfl | hz
          · exact hlt
          · exact hl z hz
      · have hbest : better f best y = best := if_neg hy
        rw [hbest]
        rcases ih best with ⟨hstay, hall⟩ | ⟨l, x, r, rfl, heq, hlt, hl, hr⟩
        · refine .inl ⟨hstay, fun x hx => ?_⟩
          rcases List.mem_cons.mp hx with rfl | hx
          · exact le_of_not_gt hy
          · exact hall x hx
        · refine .inr ⟨y :: l, x, r, rfl, heq, hlt, ?_, hr⟩
          intro z hz
          rcases List.mem_cons.mp hz with rfl | hz
          · exact lt_of_lt_of_le hlt (le_of_not_gt hy)
          · exact hl z hz

/-- The start, or an element of the list that is below it, with its value. -/
theorem firstMin_cases (best : α × β) (xs : List α) :
    (firstMin f best xs = best ∧ ∀ x ∈ xs, best.2 ≤ f x) ∨
      ∃ x ∈ xs, firstMin f best xs = (x, f x) ∧ f x < best.2 := by
  rcases firstMin_split f best xs with hstay | ⟨l, x, r, rfl, heq, hlt, -, -⟩
  · exact .inl hstay
  · exact .inr ⟨x, List.mem_append_right l List.mem_cons_self, heq, hlt⟩

/-! ## The first minimum in an order -/

/-- `x` is the first element with `p`, in the order `r`, at which `f` is smallest. -/
structure FirstMinimum (r : α → α → Prop) (p : α → Prop) (f : α → β) (x : α) : Prop where
  mem : p x
  le : ∀ y, p y → f x ≤ f y
  first : ∀ y, p y → r y x → f x < f y

variable {r : α → α → Prop} {p : α → Prop} {f}

/-- The same elements with the same values. -/
theorem FirstMinimum.congr {q : α → Prop} {f' : α → β} {x : α} (hx : FirstMinimum r p f x)
    (hpq : ∀ y, p y ↔ q y) (hf : ∀ y, q y → f y = f' y) : FirstMinimum r q f' x where
  mem := (hpq x).mp hx.mem
  le y hy := by
    rw [← hf y hy, ← hf x ((hpq x).mp hx.mem)]
    exact hx.le y ((hpq y).mpr hy)
  first y hy hyx := by
    rw [← hf y hy, ← hf x ((hpq x).mp hx.mem)]
    exact hx.first y ((hpq y).mpr hy) hyx

/-- There is at most one. -/
theorem FirstMinimum.unique (htri : ∀ x y, r x y ∨ x = y ∨ r y x) {x y : α}
    (hx : FirstMinimum r p f x) (hy : FirstMinimum r p f y) : x = y := by
  rcases htri x y with hlt | heq | hgt
  · exact absurd (hx.le y hy.mem) (not_le_of_gt (hy.first x hx.mem hlt))
  · exact heq
  · exact absurd (hy.le x hx.mem) (not_le_of_gt (hx.first y hy.mem hgt))

/-- **The scan of a sorted list ends with the first minimum**, unless no element is below the start.
-/
theorem firstMin_firstMinimum (hasymm : ∀ x y, r x y → ¬ r y x) (best : α × β) {xs : List α}
    (hxs : xs.Pairwise r) :
    (firstMin f best xs = best ∧ ∀ x ∈ xs, best.2 ≤ f x) ∨
      ∃ x, firstMin f best xs = (x, f x) ∧ f x < best.2 ∧ FirstMinimum r (fun y => y ∈ xs) f x := by
  rcases firstMin_split f best xs with hstay | ⟨l, x, t, rfl, heq, hlt, hl, ht⟩
  · exact .inl hstay
  · refine .inr ⟨x, heq, hlt, List.mem_append_right l List.mem_cons_self, ?_, ?_⟩
    · intro y hy
      rcases List.mem_append.mp hy with hy | hy
      · exact le_of_lt (hl y hy)
      rcases List.mem_cons.mp hy with rfl | hy
      · exact le_rfl
      · exact ht y hy
    · intro y hy hyx
      obtain ⟨-, hpair, -⟩ := List.pairwise_append.mp hxs
      rcases List.mem_append.mp hy with hy | hy
      · exact hl y hy
      rcases List.mem_cons.mp hy with rfl | hy
      · exact absurd hyx (hasymm y y hyx)
      · exact absurd hyx (hasymm x y (List.rel_of_pairwise_cons hpair hy))

end FirstMin
