import Mathlib.Data.List.Basic
import Mathlib.Data.List.Induction
import Mathlib.Order.WellFounded

/-!
# Labelled transition systems with an executable step

A system is given by a partial step function `step : σ → ℓ → Option σ`: the label resolves every
choice of the scheduler and of the environment, and `none` says that the step is not enabled. A
run is a list of labels.

* `exec step s ls` runs the labels of `ls` from `s`.
* `Meets step ok s ls` says that every step of that run is taken from a state and with a label
  that meet `ok`; it is how a statement about *the runs that avoid a given branch* is written.
* `exec_invariant` / `exec_invariant_of_meets` are the induction rules: what one step preserves, a
  run preserves. `meets_of_trap` is the converse tool: if a step that breaks `ok` falls into a trap,
  a run that ends outside the trap has met `ok` all along.
* `exec_simulated` lifts a simulation of single steps to runs, up to a trap; `exec_map` says that two
  systems whose steps are the same under a projection have the same runs under it.
* `exec_length` counts the steps of a run by what each of them uses up.
* `exists_exec` turns an evaluated run into an existence statement, and `exists_meets_of_decreasing`
  and `exists_exec_of_decreasing` build a run to a goal from a measure that some step always lowers.
-/

namespace Lts

universe u v

variable {σ : Type u} {ℓ : Type v} (step : σ → ℓ → Option σ)

/-- Run the labels of `ls` from `s`; `none` as soon as one of them is not enabled. -/
def exec (s : σ) (ls : List ℓ) : Option σ := ls.foldlM step s

@[simp] theorem exec_nil (s : σ) : exec step s [] = some s := rfl

theorem exec_cons (s : σ) (l : ℓ) (ls : List ℓ) :
    exec step s (l :: ls) = (step s l).bind fun t => exec step t ls := rfl

theorem exec_append (s : σ) (ls ms : List ℓ) :
    exec step s (ls ++ ms) = (exec step s ls).bind fun t => exec step t ms := by
  simp [exec, List.foldlM_append]

variable {step}

/-- A run of a non-empty list of labels is one step and then a run. -/
theorem exec_cons_eq_some {s t : σ} {l : ℓ} {ls : List ℓ} :
    exec step s (l :: ls) = some t ↔ ∃ m, step s l = some m ∧ exec step m ls = some t := by
  rw [exec_cons, Option.bind_eq_some_iff]

/-- A run of an appended list of labels passes through a middle state. -/
theorem exec_append_eq_some {s t : σ} {ls ms : List ℓ} :
    exec step s (ls ++ ms) = some t ↔
      ∃ m, exec step s ls = some m ∧ exec step m ms = some t := by
  rw [exec_append, Option.bind_eq_some_iff]

variable (step)

/-- Every step of the run from `s` along `ls` is taken from a state and with a label that meet
`ok`. -/
def Meets (ok : σ → ℓ → Prop) : σ → List ℓ → Prop
  | _, [] => True
  | s, l :: ls => ok s l ∧
      match step s l with
      | some t => Meets ok t ls
      | none => True

instance Meets.decidable (ok : σ → ℓ → Prop) [∀ s l, Decidable (ok s l)] :
    ∀ (s : σ) (ls : List ℓ), Decidable (Meets step ok s ls)
  | _, [] => isTrue trivial
  | s, l :: ls =>
      match h : step s l with
      | some t =>
          have := Meets.decidable ok t ls
          decidable_of_iff (ok s l ∧ Meets step ok t ls) (by simp [Meets, h])
      | none => decidable_of_iff (ok s l) (by simp [Meets, h])

variable {step}

theorem Meets.head {ok : σ → ℓ → Prop} {s : σ} {l : ℓ} {ls : List ℓ}
    (h : Meets step ok s (l :: ls)) : ok s l := h.1

theorem Meets.tail {ok : σ → ℓ → Prop} {s t : σ} {l : ℓ} {ls : List ℓ}
    (h : Meets step ok s (l :: ls)) (hs : step s l = some t) : Meets step ok t ls := by
  have h2 := h.2
  rw [hs] at h2
  exact h2

/-- A condition met along a run is met along its second part. -/
theorem Meets.of_append {ok : σ → ℓ → Prop} {s m : σ} {ls ms : List ℓ}
    (h : Meets step ok s (ls ++ ms)) (hrun : exec step s ls = some m) : Meets step ok m ms := by
  induction ls generalizing s with
  | nil =>
      simp only [exec_nil, Option.some.injEq] at hrun
      exact hrun ▸ h
  | cons l ls ih =>
      obtain ⟨t, ht, hrun⟩ := exec_cons_eq_some.mp hrun
      exact ih (Meets.tail h ht) hrun

/-- A condition on labels alone is met when all the labels meet it. -/
theorem meets_of_forall_mem {ok : σ → ℓ → Prop} {s : σ} {ls : List ℓ}
    (h : ∀ l ∈ ls, ∀ s, ok s l) : Meets step ok s ls := by
  induction ls generalizing s with
  | nil => trivial
  | cons l ls ih =>
      refine ⟨h l List.mem_cons_self s, ?_⟩
      cases step s l with
      | none => trivial
      | some t => exact ih fun l hl => h l (List.mem_cons_of_mem _ hl)

/-- Two conditions met along a run are met together. -/
theorem Meets.and {ok ok' : σ → ℓ → Prop} {s : σ} {ls : List ℓ} (h : Meets step ok s ls)
    (h' : Meets step ok' s ls) : Meets step (fun s l => ok s l ∧ ok' s l) s ls := by
  induction ls generalizing s with
  | nil => trivial
  | cons l ls ih =>
      refine ⟨⟨h.head, h'.head⟩, ?_⟩
      cases hs : step s l with
      | none => trivial
      | some t => exact ih (h.tail hs) (h'.tail hs)

/-- **The invariant rule for the runs that meet a condition**: what every step that meets `ok`
preserves, every run whose steps all meet `ok` preserves. -/
theorem exec_invariant_of_meets {ok : σ → ℓ → Prop} {Inv : σ → Prop}
    (hstep : ∀ s l t, Inv s → ok s l → step s l = some t → Inv t) {ls : List ℓ} {s t : σ}
    (hs : Inv s) (hok : Meets step ok s ls) (hrun : exec step s ls = some t) : Inv t := by
  induction ls generalizing s with
  | nil =>
      simp only [exec_nil, Option.some.injEq] at hrun
      exact hrun ▸ hs
  | cons l ls ih =>
      obtain ⟨m, hm, hrun⟩ := exec_cons_eq_some.mp hrun
      exact ih (hstep s l m hs hok.head hm) (hok.tail hm) hrun

/-- **The invariant rule**: what every step preserves, every run preserves. -/
theorem exec_invariant {Inv : σ → Prop} (hstep : ∀ s l t, Inv s → step s l = some t → Inv t)
    {ls : List ℓ} {s t : σ} (hs : Inv s) (hrun : exec step s ls = some t) : Inv t := by
  have hmeets : Meets step (fun _ _ => True) s ls := meets_of_forall_mem fun _ _ _ => trivial
  exact exec_invariant_of_meets (fun s l t hi _ h => hstep s l t hi h) hs hmeets hrun

/-- What an invariant of the steps that meet `ok` gives at each of them, the run meets too. -/
theorem Meets.of_invariant {ok ok' : σ → ℓ → Prop} {Inv : σ → Prop}
    (hstep : ∀ s l t, Inv s → ok s l → step s l = some t → Inv t)
    (himp : ∀ s l t, Inv s → ok s l → step s l = some t → ok' s l) {ls : List ℓ} {s t : σ}
    (hs : Inv s) (hrun : exec step s ls = some t) (hok : Meets step ok s ls) :
    Meets step ok' s ls := by
  induction ls generalizing s with
  | nil => trivial
  | cons l ls ih =>
      obtain ⟨m, hm, hrun⟩ := exec_cons_eq_some.mp hrun
      refine ⟨himp s l m hs hok.head hm, ?_⟩
      rw [hm]
      exact ih (hstep s l m hs hok.head hm) hrun (hok.tail hm)

/-- **The rule for exact conditions**: when `ok` is exactly what keeps a step inside `P`, the states
of a run are all in `P` if and only if all its steps meet `ok`. -/
theorem always_iff_meets {ok : σ → ℓ → Prop} {Inv P : σ → Prop}
    (hstep : ∀ s l t, Inv s → step s l = some t → Inv t)
    (hexact : ∀ s l t, Inv s → P s → step s l = some t → (P t ↔ ok s l)) {ls : List ℓ} {s t : σ}
    (hs : Inv s) (hP : P s) (hrun : exec step s ls = some t) :
    (∀ pre m, pre <+: ls → exec step s pre = some m → P m) ↔ Meets step ok s ls := by
  induction ls generalizing s with
  | nil =>
      refine ⟨fun _ => trivial, fun _ pre m hpre hm => ?_⟩
      rw [List.prefix_nil.mp hpre, exec_nil, Option.some.injEq] at hm
      exact hm ▸ hP
  | cons l ls ih =>
      obtain ⟨m, hm, hrest⟩ := exec_cons_eq_some.mp hrun
      have hnext := hexact s l m hs hP hm
      constructor
      · intro hall
        have hPm : P m := hall [l] m ⟨ls, rfl⟩ (exec_cons_eq_some.mpr ⟨m, hm, rfl⟩)
        refine ⟨hnext.mp hPm, ?_⟩
        rw [hm]
        refine (ih (hstep s l m hs hm) hPm hrest).mp ?_
        intro pre n hpre hn
        exact hall (l :: pre) n (List.cons_prefix_cons.mpr ⟨rfl, hpre⟩)
          (exec_cons_eq_some.mpr ⟨m, hm, hn⟩)
      · intro hok pre n hpre hn
        have hPm : P m := hnext.mpr hok.head
        cases pre with
        | nil =>
            rw [exec_nil, Option.some.injEq] at hn
            exact hn ▸ hP
        | cons l' pre =>
            obtain ⟨rfl, htail⟩ := List.cons_prefix_cons.mp hpre
            obtain ⟨m', hm', hn'⟩ := exec_cons_eq_some.mp hn
            rw [hm, Option.some.injEq] at hm'
            subst hm'
            exact (ih (hstep s l' m hs hm) hPm hrest).mpr (hok.tail hm) pre n htail hn'

/-- **The trap rule**: when a step that does not meet `ok` leads into `Trap`, and `Trap` is never
left, a run that ends outside `Trap` meets `ok` at every step. -/
theorem meets_of_trap {ok : σ → ℓ → Prop} {Inv Trap : σ → Prop}
    (hstep : ∀ s l t, Inv s → step s l = some t → Inv t)
    (hfall : ∀ s l t, Inv s → step s l = some t → ¬ ok s l → Trap t)
    (htrap : ∀ s l t, Trap s → step s l = some t → Trap t) {ls : List ℓ} {s t : σ} (hs : Inv s)
    (hrun : exec step s ls = some t) (ht : ¬ Trap t) : Meets step ok s ls := by
  induction ls generalizing s with
  | nil => trivial
  | cons l ls ih =>
      obtain ⟨m, hm, hrun⟩ := exec_cons_eq_some.mp hrun
      constructor
      · by_contra hbad
        exact ht (exec_invariant htrap (hfall s l m hs hm hbad) hrun)
      · rw [hm]
        exact ih (hstep s l m hs hm) hrun

/-- **The simulation rule**: when every step that does not fall into the trap `D` is matched, with
the label `f l`, by a step of another system between related states, a run that ends outside of the
trap is matched by a run. -/
theorem exec_simulated {σ' : Type*} {ℓ' : Type*} {step' : σ' → ℓ' → Option σ'} (f : ℓ → ℓ')
    {R : σ → σ' → Prop} {D : σ → Prop} (hdead : ∀ s l t, D s → step s l = some t → D t)
    (hsim : ∀ s l t a, R s a → step s l = some t → ¬ D t → ∃ b, step' a (f l) = some b ∧ R t b)
    {ls : List ℓ} {s t : σ} {a : σ'} (hR : R s a) (hrun : exec step s ls = some t)
    (hlive : ¬ D t) : ∃ b, exec step' a (ls.map f) = some b ∧ R t b := by
  induction ls generalizing s a with
  | nil =>
      simp only [exec_nil, Option.some.injEq] at hrun
      exact ⟨a, rfl, hrun ▸ hR⟩
  | cons l ls ih =>
      obtain ⟨m, hm, hrun⟩ := exec_cons_eq_some.mp hrun
      have hm' : ¬ D m := fun h => hlive (exec_invariant hdead h hrun)
      obtain ⟨b, hb, hmb⟩ := hsim s l m a hR hm hm'
      obtain ⟨d, hd, htd⟩ := ih hmb hrun
      exact ⟨d, exec_cons_eq_some.mpr ⟨b, hb, hd⟩, htd⟩

/-- **The projection rule**: when every step that meets `ok` from a state of `Inv` is a step of another
system under `f` and `g`, also when it is not enabled, so is every run whose steps meet `ok`. -/
theorem exec_map {σ' : Type*} {ℓ' : Type*} {step' : σ' → ℓ' → Option σ'} (f : σ → σ') (g : ℓ → ℓ')
    {ok : σ → ℓ → Prop} {Inv : σ → Prop}
    (hstep : ∀ s l t, Inv s → ok s l → step s l = some t → Inv t)
    (hmap : ∀ s l, Inv s → ok s l → (step s l).map f = step' (f s) (g l)) {s : σ} (hs : Inv s)
    {ls : List ℓ} (hok : Meets step ok s ls) :
    (exec step s ls).map f = exec step' (f s) (ls.map g) := by
  induction ls generalizing s with
  | nil => rfl
  | cons l ls ih =>
      rw [List.map_cons, exec_cons, exec_cons, ← hmap s l hs hok.head]
      cases hm : step s l with
      | none => rfl
      | some m => exact ih (hstep s l m hs hok.head hm) (hok.tail hm)

/-- **The accounting rule**: when every step takes one from what is left and adds to it what it earns,
a run has as many steps as were there at first and were earned, less what is left. -/
theorem exec_length {Inv : σ → Prop} {left earned : σ → Nat}
    (hstep : ∀ s l t, Inv s → step s l = some t → Inv t)
    (hpay : ∀ s l t, Inv s → step s l = some t → 1 + left t + earned s = left s + earned t)
    {ls : List ℓ} {s t : σ} (hs : Inv s) (hrun : exec step s ls = some t) :
    ls.length + left t + earned s = left s + earned t := by
  induction ls generalizing s with
  | nil =>
      simp only [exec_nil, Option.some.injEq] at hrun
      subst hrun
      rw [List.length_nil, Nat.zero_add]
  | cons l ls ih =>
      obtain ⟨m, hm, hrun⟩ := exec_cons_eq_some.mp hrun
      have hfirst := hpay s l m hs hm
      have hrest := ih (hstep s l m hs hm) hrun
      rw [List.length_cons]
      omega

/-- A run that can be evaluated, with a test that its last state passes. -/
theorem exists_exec (step : σ → ℓ → Option σ) (s : σ) (ls : List ℓ) (p : σ → Bool)
    (h : (exec step s ls).map p = some true) : ∃ t, exec step s ls = some t ∧ p t = true := by
  rw [Option.map_eq_some_iff] at h
  exact h

/-- **The progress rule**: when every state of `Inv` outside `Goal` has a step that meets `ok`, stays in
`Inv` and lowers the measure, some run whose steps meet `ok` leads to `Goal`. -/
theorem exists_meets_of_decreasing {β : Type*} [Preorder β] [WellFoundedLT β] (μ : σ → β)
    {ok : σ → ℓ → Prop} {Inv Goal : σ → Prop}
    (hstep : ∀ s, Inv s → ¬ Goal s → ∃ l t, ok s l ∧ step s l = some t ∧ Inv t ∧ μ t < μ s) {s : σ}
    (hs : Inv s) : ∃ ls t, Meets step ok s ls ∧ exec step s ls = some t ∧ Inv t ∧ Goal t := by
  induction h : μ s using WellFoundedLT.induction generalizing s with
  | ind b ih =>
      subst h
      by_cases hg : Goal s
      · exact ⟨[], s, trivial, rfl, hs, hg⟩
      · obtain ⟨l, m, hl, hm, hinv, hlt⟩ := hstep s hs hg
        obtain ⟨ls, t, hls, hrun, ht⟩ := ih (μ m) hlt hinv rfl
        refine ⟨l :: ls, t, ⟨hl, ?_⟩, exec_cons_eq_some.mpr ⟨m, hm, hrun⟩, ht⟩
        rw [hm]
        exact hls

/-- The progress rule for all steps. -/
theorem exists_exec_of_decreasing {β : Type*} [Preorder β] [WellFoundedLT β] (μ : σ → β)
    {Inv Goal : σ → Prop}
    (hstep : ∀ s, Inv s → ¬ Goal s → ∃ l t, step s l = some t ∧ Inv t ∧ μ t < μ s) {s : σ}
    (hs : Inv s) : ∃ ls t, exec step s ls = some t ∧ Inv t ∧ Goal t := by
  have hany : ∀ s, Inv s → ¬ Goal s → ∃ l t, True ∧ step s l = some t ∧ Inv t ∧ μ t < μ s := by
    intro s hi hg
    obtain ⟨l, t, h⟩ := hstep s hi hg
    exact ⟨l, t, trivial, h⟩
  obtain ⟨ls, t, -, ht⟩ := exists_meets_of_decreasing μ hany hs
  exact ⟨ls, t, ht⟩

end Lts
