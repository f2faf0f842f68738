import Mathlib.Algebra.Order.Group.Multiset
import Mathlib.Data.Fintype.EquivFin
import Mathlib.Logic.Function.Basic

/-!
# Blocks and their owners

A heap says for each address whether a block is allocated there and what is in it. The allocator may
give out any address that is not in use.

* `Owned h ps`: the pointers `ps` that a program holds are to the blocks of the heap, one to each. So
  every pointer may be used, no block is lost, and no two pointers alias.
* `Owned.alloc`, `Owned.store` and `Owned.free`: what the operations on a block do to that.
* `view h a` is what a pointer shows; `view_update` and `map_view_update`: a change of one block leaves
  all others alone.
-/

set_option linter.unusedSectionVars false

namespace Heap

universe u v

variable {A : Type u} {α : Type v} [DecidableEq A] {h : A → Option α} {ps : Multiset A} {a : A}

/-- The pointers are to the blocks of the heap, one to each. -/
structure Owned (h : A → Option α) (ps : Multiset A) : Prop where
  nodup : ps.Nodup
  live : ∀ a, (h a).isSome = true ↔ a ∈ ps

theorem owned_empty : Owned (fun _ : A => (none : Option α)) 0 :=
  ⟨Multiset.nodup_zero, by simp⟩

/-- The allocator gives out an address that is not in use. -/
theorem Owned.alloc (ho : Owned h ps) (ha : h a = none) (v : α) :
    Owned (Function.update h a (some v)) (ps + {a}) where
  nodup := by
    have hfresh : a ∉ ps := by
      rw [← ho.live a, ha]
      simp
    rw [add_comm, Multiset.singleton_add, Multiset.nodup_cons]
    exact ⟨hfresh, ho.nodup⟩
  live b := by
    rw [Multiset.mem_add, Multiset.mem_singleton, ← ho.live b]
    by_cases hb : b = a
    · subst hb
      simp
    · rw [Function.update_of_ne hb]
      simp [hb]

theorem Owned.store (ho : Owned h ps) (ha : a ∈ ps) (v : α) :
    Owned (Function.update h a (some v)) ps where
  nodup := ho.nodup
  live b := by
    by_cases hb : b = a
    · subst hb
      simp [ha]
    · rw [Function.update_of_ne hb]
      exact ho.live b

/-- No other pointer is to the same block. -/
theorem Owned.not_mem (ho : Owned h (ps + {a})) : a ∉ ps := by
  have hnodup := ho.nodup
  rw [add_comm, Multiset.singleton_add, Multiset.nodup_cons] at hnodup
  exact hnodup.1

theorem Owned.free (ho : Owned h (ps + {a})) : Owned (Function.update h a none) ps where
  nodup := (Multiset.nodup_add.mp ho.nodup).1
  live b := by
    by_cases hb : b = a
    · subst hb
      simp [ho.not_mem]
    · rw [Function.update_of_ne hb, ho.live b, Multiset.mem_add, Multiset.mem_singleton]
      simp [hb]

theorem Owned.exists_eq_some (ho : Owned h ps) (ha : a ∈ ps) : ∃ v, h a = some v :=
  Option.isSome_iff_exists.mp ((ho.live a).mpr ha)

/-- There is always another address. -/
theorem Owned.exists_fresh [Infinite A] (ho : Owned h ps) : ∃ a, h a = none := by
  obtain ⟨a, ha⟩ := Infinite.exists_notMem_finset ps.toFinset
  refine ⟨a, ?_⟩
  rw [Multiset.mem_toFinset, ← ho.live a, Bool.not_eq_true, Option.isSome_eq_false_iff,
    Option.isNone_iff_eq_none] at ha
  exact ha

/-- Not more blocks than pointers. -/
theorem Owned.card_le (ho : Owned h ps) {qs : Multiset A} (hqs : qs.Nodup)
    (hlive : ∀ a ∈ qs, (h a).isSome = true) : qs.card ≤ ps.card := by
  apply Multiset.card_le_card
  rw [Multiset.le_iff_subset hqs]
  intro a ha
  exact (ho.live a).mp (hlive a ha)

variable [Inhabited α]

/-- What a pointer shows. -/
def view (h : A → Option α) (a : A) : α := (h a).getD default

theorem view_of_eq {v : α} (ha : h a = some v) : view h a = v := by
  rw [view, ha, Option.getD_some]

theorem view_update_self (h : A → Option α) (a : A) (v : α) :
    view (Function.update h a (some v)) a = v :=
  view_of_eq (Function.update_self _ _ _)

theorem view_update {b : A} (hb : b ≠ a) (h : A → Option α) (x : Option α) :
    view (Function.update h a x) b = view h b := by
  rw [view, Function.update_of_ne hb, view]

theorem map_view_update {bs : List A} (ha : a ∉ bs) (h : A → Option α) (x : Option α) :
    bs.map (view (Function.update h a x)) = bs.map (view h) := by
  apply List.map_congr_left
  intro b hb
  apply view_update
  rintro rfl
  exact ha hb

end Heap
