import Mathlib.Data.Finset.Card
import Mathlib.Data.List.Basic

/-!
# Counting the entries of a record by where they stand

A record is a list, and `p` picks a kind of entries. `positions p q` is the set of the places at which
an entry of the kind stands; there are as many places as entries (`card_positions`), so that records
of different things are compared by comparing places.

* `countP_le_countP`: two records compared place by place.
* `countP_le_one` and `index_eq_of_countP`: an entry that stands at one place only, and conversely.
-/

namespace Count

universe u v

variable {α : Type u} {p : α → Bool} {q : List α}

/-- Where the entries of a kind stand. -/
def positions (p : α → Bool) (q : List α) : Finset Nat :=
  (Finset.range q.length).filter fun i => q[i]?.any p = true

theorem mem_positions {i : Nat} : i ∈ positions p q ↔ ∃ e, q[i]? = some e ∧ p e = true := by
  rw [positions, Finset.mem_filter, Finset.mem_range]
  constructor
  · rintro ⟨hi, hp⟩
    rw [List.getElem?_eq_getElem hi] at hp
    exact ⟨_, List.getElem?_eq_getElem hi, hp⟩
  · rintro ⟨e, hi, hp⟩
    exact ⟨(List.getElem?_eq_some_iff.mp hi).1, by rw [hi]; exact hp⟩

theorem positions_concat (a : α) : positions p (q ++ [a]) =
    if p a = true then insert q.length (positions p q) else positions p q := by
  have hmem : ∀ i, i ∈ positions p (q ++ [a]) ↔ i ∈ positions p q ∨ i = q.length ∧ p a = true := by
    intro i
    rw [mem_positions, mem_positions]
    by_cases hi : i < q.length
    · rw [List.getElem?_append_left hi]
      simp [hi.ne]
    · rw [List.getElem?_append_right (Nat.le_of_not_lt hi), List.getElem?_singleton,
        List.getElem?_eq_none (Nat.le_of_not_lt hi)]
      by_cases hlast : i = q.length
      · simp [hlast]
      · simp [hlast, Nat.sub_ne_zero_of_lt (lt_of_le_of_ne (Nat.le_of_not_lt hi) (Ne.symm hlast))]
  apply Finset.ext
  intro i
  rw [hmem i]
  by_cases hp : p a = true
  · rw [if_pos hp, Finset.mem_insert]
    simp [hp, or_comm]
  · simp [hp]

/-- **There are as many places as entries.** -/
theorem card_positions (p : α → Bool) (q : List α) : (positions p q).card = q.countP p := by
  induction q using List.reverseRecOn with
  | nil => rfl
  | append_singleton q a ih =>
      have hnew : q.length ∉ positions p q := fun h => by
        obtain ⟨e, he, -⟩ := mem_positions.mp h
        simp at he
      rw [positions_concat, List.countP_append, List.countP_singleton, ← ih]
      split_ifs
      · exact Finset.card_insert_of_notMem hnew
      · rfl

/-- When an entry of the one record is answered by an entry of the other at the same place, the other
has no fewer. -/
theorem countP_le_countP {β : Type v} {p' : β → Bool} {r : List β}
    (h : ∀ (i : Nat) (x : α), q[i]? = some x → p x = true → ∃ y, r[i]? = some y ∧ p' y = true) :
    q.countP p ≤ r.countP p' := by
  rw [← card_positions, ← card_positions]
  apply Finset.card_le_card
  intro i hi
  obtain ⟨x, hx, hp⟩ := mem_positions.mp hi
  exact mem_positions.mpr (h i x hx hp)

theorem countP_le_one
    (h : ∀ (i j : Nat) (x y : α), q[i]? = some x → p x = true → q[j]? = some y → p y = true →
      i = j) :
    q.countP p ≤ 1 := by
  rw [← card_positions]
  apply Finset.card_le_one.mpr
  intro i hi j hj
  obtain ⟨x, hx, hpx⟩ := mem_positions.mp hi
  obtain ⟨y, hy, hpy⟩ := mem_positions.mp hj
  exact h i j x y hx hpx hy hpy

theorem index_eq_of_countP (h : q.countP p ≤ 1) {i j : Nat} {x y : α} (hi : q[i]? = some x)
    (hx : p x = true) (hj : q[j]? = some y) (hy : p y = true) : i = j := by
  rw [← card_positions] at h
  exact Finset.card_le_one.mp h i (mem_positions.mpr ⟨x, hi, hx⟩) j (mem_positions.mpr ⟨y, hj, hy⟩)

end Count
