import CommTest.Lib.FirstMin
import Mathlib.Algebra.BigOperators.Group.List.Basic

/-!
# Greedy selections

A greedy selection among the elements with `p` starts with the pair of smallest weight and goes on
with the element whose total weight to the chosen ones is smallest; of several the first one is
taken.

* `Greedy p w c`: `c` is such a selection.
* `Greedy.eq_of_length`: there is one of each length at most, and `Greedy.exists_append_of_lt`: the
  shorter of two is the beginning of the longer.
-/

set_option linter.unusedSectionVars false

namespace Selection

open FirstMin

universe u v

variable {α : Type u} {β : Type v} [LinearOrder α] [LinearOrder β] [AddMonoid β]

/-- The total weight of `x` to the elements of `c`. -/
def total (w : α → α → β) (c : List α) (x : α) : β := (c.map fun k => w k x).sum

/-- `c` is chosen greedily among the elements with `p`. -/
inductive Greedy (p : α → Prop) (w : α → α → β) : List α → Prop
  | pair {i j : α} (h : FirstMinimum (Prod.Lex (· < ·) (· < ·))
      (fun q : α × α => q.1 < q.2 ∧ p q.1 ∧ p q.2) (fun q => w q.1 q.2) (i, j)) : Greedy p w [i, j]
  | snoc {c : List α} {x : α} (hc : Greedy p w c)
      (h : FirstMinimum (· < ·) (fun y => p y ∧ y ∉ c) (total w c) x) : Greedy p w (c ++ [x])

variable {p : α → Prop} {w : α → α → β} {c d : List α} {x : α}

theorem Greedy.two_le_length (hc : Greedy p w c) : 2 ≤ c.length := by
  induction hc with
  | pair h => exact le_rfl
  | snoc hc h ih =>
      rw [List.length_append]
      exact Nat.le_add_right_of_le ih

theorem Greedy.exists_lt (hc : Greedy p w c) : ∃ i j, i < j ∧ p i ∧ p j := by
  induction hc with
  | pair h => exact ⟨_, _, h.mem⟩
  | snoc hc h ih => exact ih

theorem Greedy.mem (hc : Greedy p w c) : ∀ x ∈ c, p x := by
  induction hc with
  | pair h =>
      intro x hx
      rcases List.mem_cons.mp hx with rfl | hx
      · exact h.mem.2.1
      · exact List.mem_singleton.mp hx ▸ h.mem.2.2
  | snoc hc h ih =>
      intro x hx
      rcases List.mem_append.mp hx with hx | hx
      · exact ih x hx
      · exact List.mem_singleton.mp hx ▸ h.mem.1

theorem lex_asymm (q q' : α × α) (h : Prod.Lex (· < ·) (· < ·) q q') :
    ¬ Prod.Lex (· < ·) (· < ·) q' q := by
  rw [Prod.lex_def] at h ⊢
  rintro (h' | ⟨heq, h'⟩)
  · rcases h with h | ⟨heq, -⟩
    · exact lt_asymm h h'
    · exact absurd heq (ne_of_gt h')
  · rcases h with h | ⟨-, h⟩
    · exact absurd heq (ne_of_gt h)
    · exact lt_asymm h h'

theorem lex_trichotomy (q q' : α × α) :
    Prod.Lex (· < ·) (· < ·) q q' ∨ q = q' ∨ Prod.Lex (· < ·) (· < ·) q' q := by
  simp only [Prod.lex_def]
  obtain ⟨a, b⟩ := q
  obtain ⟨a', b'⟩ := q'
  rcases lt_trichotomy a a' with h | rfl | h
  · exact .inl (.inl h)
  · rcases lt_trichotomy b b' with h | rfl | h
    · exact .inl (.inr ⟨rfl, h⟩)
    · exact .inr (.inl rfl)
    · exact .inr (.inr (.inr ⟨rfl, h⟩))
  · exact .inr (.inr (.inl h))

/-- **A greedy selection is determined by its length.** -/
theorem Greedy.eq_of_length (hc : Greedy p w c) (hd : Greedy p w d) (hlen : c.length = d.length) :
    c = d := by
  induction hc generalizing d with
  | pair h =>
      cases hd with
      | pair h' =>
          obtain ⟨rfl, rfl⟩ := Prod.mk.inj (h.unique lex_trichotomy h')
          rfl
      | snoc hd h' =>
          have htwo := hd.two_le_length
          simp only [List.length_append, List.length_cons, List.length_nil] at hlen
          omega
  | snoc hc h ih =>
      cases hd with
      | pair h' =>
          have htwo := hc.two_le_length
          simp only [List.length_append, List.length_cons, List.length_nil] at hlen
          omega
      | snoc hd h' =>
          simp only [List.length_append, List.length_cons, List.length_nil,
            Nat.add_right_cancel_iff] at hlen
          obtain rfl := ih hd hlen
          rw [h.unique lt_trichotomy h']

/-- An element of a list with one more at its end is that one, or in the list. -/
theorem concat_eq_append_cons {y : α} {r : List α} (h : d ++ [y] = c ++ x :: r) :
    (c = d ∧ x = y) ∨ ∃ r', d = c ++ x :: r' := by
  rcases List.eq_nil_or_concat r with rfl | ⟨r, z, rfl⟩
  · obtain ⟨rfl, hxy⟩ := List.append_inj' h rfl
    exact .inl ⟨rfl, (List.head_eq_of_cons_eq hxy).symm⟩
  · rw [List.concat_eq_append, ← List.cons_append, ← List.append_assoc] at h
    exact .inr ⟨r, (List.append_inj' h rfl).1⟩

/-- The beginnings of a greedy selection are greedy, and what follows is the next choice. -/
theorem Greedy.of_append (hd : Greedy p w d) {r : List α} (heq : d = c ++ x :: r)
    (hlen : 2 ≤ c.length) :
    Greedy p w c ∧ FirstMinimum (· < ·) (fun y => p y ∧ y ∉ c) (total w c) x := by
  induction hd generalizing r with
  | pair h =>
      have hlen' := congrArg List.length heq
      simp only [List.length_append, List.length_cons, List.length_nil] at hlen'
      omega
  | snoc hd h ih =>
      rcases concat_eq_append_cons heq with ⟨rfl, rfl⟩ | ⟨r', hd'⟩
      · exact ⟨hd, h⟩
      · exact ih hd'

/-- **The shorter of two greedy selections is the beginning of the longer.** -/
theorem Greedy.exists_append_of_lt (hc : Greedy p w c) (hd : Greedy p w d)
    (hlt : c.length < d.length) :
    ∃ x r, d = c ++ x :: r := by
  obtain ⟨x, r, hdrop⟩ : ∃ x r, d.drop c.length = x :: r :=
    List.exists_cons_of_ne_nil (by rw [Ne, List.drop_eq_nil_iff]; exact Nat.not_le_of_lt hlt)
  have hsplit : d = d.take c.length ++ x :: r := by rw [← hdrop, List.take_append_drop]
  have hlen : (d.take c.length).length = c.length := List.length_take_of_le (Nat.le_of_lt hlt)
  have htwo : 2 ≤ (d.take c.length).length := by
    rw [hlen]
    exact hc.two_le_length
  have heq := hc.eq_of_length (hd.of_append hsplit htwo).1 hlen.symm
  exact ⟨x, r, heq ▸ hsplit⟩

theorem Greedy.subset_of_le (hc : Greedy p w c) (hd : Greedy p w d) (hle : c.length ≤ d.length) :
    c ⊆ d := by
  rcases Nat.lt_or_eq_of_le hle with hlt | heq
  · obtain ⟨x, r, rfl⟩ := hc.exists_append_of_lt hd hlt
    exact List.subset_append_left c (x :: r)
  · rw [hc.eq_of_length hd heq]
    exact List.Subset.refl d

end Selection
