import Mathlib.Data.Option.Basic
import Mathlib.Data.List.Basic

/-!
# Machines that answer calls

A machine has a partial function `call : σ → ι → Option (σ × ω)`: a call changes the state and gives
something back, and `none` says that it does not return (it is undefined there).

* `outputs call s is` is what a sequence of calls gives back.
* `outputs_eq_of_agree`: a relation between states under which every call gives the same back, and
  which every call keeps, makes all the outputs equal. This is how it is shown that a machine does
  not depend on a part of its state.
* `exists_outputs`: where every call returns and keeps an invariant, every sequence of them returns.
-/

namespace Machine

universe u v w

variable {σ : Type u} {ι : Type v} {ω : Type w} (call : σ → ι → Option (σ × ω))

/-- What the calls of a list give back, one after the other. -/
def outputs : σ → List ι → Option (List ω)
  | _, [] => some []
  | s, i :: is => (call s i).bind fun r => (outputs r.1 is).map (r.2 :: ·)

variable {call}

theorem outputs_cons_of_some {s t : σ} {i : ι} {o : ω} (h : call s i = some (t, o)) (is : List ι) :
    outputs call s (i :: is) = (outputs call t is).map (o :: ·) := by
  rw [outputs, h, Option.bind_some]

theorem outputs_cons_eq_some {s : σ} {i : ι} {is : List ι} {os : List ω}
    (h : outputs call s (i :: is) = some os) :
    ∃ t o rest, call s i = some (t, o) ∧ outputs call t is = some rest ∧ os = o :: rest := by
  rw [outputs, Option.bind_eq_some_iff] at h
  obtain ⟨⟨t, o⟩, hcall, h⟩ := h
  obtain ⟨rest, hrest, hos⟩ := Option.map_eq_some_iff.mp h
  exact ⟨t, o, rest, hcall, hrest, hos.symm⟩

theorem outputs_singleton {s : σ} {i : ι} :
    outputs call s [i] = (call s i).map fun r => [r.2] := by
  rw [outputs]
  cases call s i with
  | none => rfl
  | some r => rfl

/-- **The agreement rule**: what every call keeps and cannot tell apart, no sequence of calls tells
apart. -/
theorem outputs_eq_of_agree {Agree : σ → σ → Prop}
    (hstep : ∀ s t i, Agree s t →
      Option.Rel (fun x y => Agree x.1 y.1 ∧ x.2 = y.2) (call s i) (call t i))
    {s t : σ} (h : Agree s t) (is : List ι) : outputs call s is = outputs call t is := by
  induction is generalizing s t with
  | nil => rfl
  | cons i is ih =>
      have hcall := hstep s t i h
      rw [outputs, outputs]
      generalize call s i = a at hcall ⊢
      generalize call t i = b at hcall ⊢
      cases hcall with
      | none => rfl
      | some hxy => rw [Option.bind_some, Option.bind_some, ih hxy.1, hxy.2]

/-- Where every call returns and keeps `Inv`, every sequence of calls returns. -/
theorem exists_outputs {Inv : σ → Prop}
    (hstep : ∀ s i, Inv s → ∃ t o, call s i = some (t, o) ∧ Inv t) {s : σ} (hs : Inv s)
    (is : List ι) : ∃ os, outputs call s is = some os := by
  induction is generalizing s with
  | nil => exact ⟨[], rfl⟩
  | cons i is ih =>
      obtain ⟨t, o, hcall, ht⟩ := hstep s i hs
      obtain ⟨os, hos⟩ := ih ht
      refine ⟨o :: os, ?_⟩
      rw [outputs_cons_of_some hcall, hos, Option.map_some]

end Machine
