import CommTest.Lib.Moments
import Mathlib.Analysis.Real.Sqrt
import Mathlib.Logic.Function.Basic

/-!
# Standardising the input

`standardizeInput` centres and scales every column of X and then Y. A column of X without deviation
is left alone when it is zero and is fatal otherwise; Y is divided by its deviation as it is.

* The definitions are over any division ring `K` with a square root given to them; `MX j i` is row
  `j`, column `i`. A division by zero is an outcome of its own (`Halt.divZero`), so that it can be
  said that none was executed.
* `column_eq` and `standardizeY_eq`: what one column, and Y, end in.
* `mapColumns_ok`, `mapColumns_error`: the loop over the columns works on each of them alone.
* `Normalised` is what the program wants of the result, over the reals.
* `normalises_iff`: `standardizeInput` exits or normalises if and only if some column of X is
  constant and not zero, or Y is not constant.
-/

set_option linter.unusedSectionVars false

namespace CommTest.Mpi

open Moments

/-! ## The program -/

/-- How `standardizeInput` ends early: in its fatal exit ("stdev=0, MXelement nonzero"), or at a
division by zero. -/
inductive Halt
  | fatal
  | divZero
  deriving DecidableEq

section

variable {K : Type} [DivisionRing K] [DecidableEq K]

/-- `a / b`. -/
def divide (a b : K) : Except Halt K := if b = 0 then .error .divZero else .ok (a / b)

/-- The loop that adds up a column, and its division by `n`. Source: `getinput.cpp`,
`standardizeInput`. -/
def average (n : Nat) (v : Nat → K) : Except Halt K :=
  divide ((List.range n).foldl (fun avg j => avg + v j) 0) n

/-- The loop that adds up the squared deviations, each divided by `n`. Source: `getinput.cpp`,
`standardizeInput`. -/
def deviation (n : Nat) (v : Nat → K) (avg : K) : Except Halt K :=
  (List.range n).foldlM
    (fun dev j => (divide ((v j - avg) * (v j - avg)) n).map (dev + ·)) 0

variable (sqrt : K → K)

/-- The loop that centres a column and divides it by `stdev` and by the root of `n`. Source:
`getinput.cpp`, `standardizeInput`. -/
def scale (n : Nat) (avg stdev : K) (v : Nat → K) : Except Halt (Nat → K) :=
  (List.range n).foldlM
    (fun v j => do
      let tmp ← divide (v j - avg) stdev
      let x ← divide tmp (sqrt n)
      pure (Function.update v j x)) v

/-- One column of X. Source: `getinput.cpp`, `standardizeInput`. -/
def column (n : Nat) (v : Nat → K) : Except Halt (Nat → K) := do
  let avg ← average n v
  let dev ← deviation n v avg
  let stdev := sqrt dev
  if stdev = 0 then
    if (List.range n).any fun row => v row ≠ 0 then .error .fatal else pure v
  else scale sqrt n avg stdev v

/-- Y, whose deviation is not tested. Source: `getinput.cpp`, `standardizeInput`. -/
def standardizeY (n : Nat) (v : Nat → K) : Except Halt (Nat → K) := do
  let avg ← average n v
  let dev ← deviation n v avg
  let stdev := sqrt dev
  scale sqrt n avg stdev v

/-- A loop over the columns: column `i` is replaced by what `f` makes of it. -/
def mapColumns (f : (Nat → K) → Except Halt (Nat → K)) (p : Nat) (MX : Nat → Nat → K) :
    Except Halt (Nat → Nat → K) :=
  (List.range p).foldlM
    (fun MX i => (f fun j => MX j i).map fun v j => Function.update (MX j) i (v j)) MX

/-- Source: `getinput.cpp`, `standardizeInput`. -/
def standardizeInput (MX : Nat → Nat → K) (MY : Nat → K) (n p : Nat) :
    Except Halt ((Nat → Nat → K) × (Nat → K)) := do
  let MX' ← mapColumns (column sqrt n) p MX
  let MY' ← standardizeY sqrt n MY
  pure (MX', MY')

/-! ## The loops in closed form -/

theorem foldl_sum (n : Nat) (v : Nat → K) :
    (List.range n).foldl (fun avg j => avg + v j) 0 = ∑ j ∈ Finset.range n, v j := by
  induction n with
  | zero => simp
  | succ n ih =>
      rw [List.range_succ, List.foldl_append, ih, List.foldl_cons, List.foldl_nil,
        Finset.sum_range_succ]

theorem divide_eq {a b : K} (hb : b ≠ 0) : divide a b = .ok (a / b) := if_neg hb

theorem average_eq {n : Nat} (hn : (n : K) ≠ 0) (v : Nat → K) :
    average n v = .ok ((∑ j ∈ Finset.range n, v j) / n) := by
  rw [average, foldl_sum, divide_eq hn]

theorem deviation_eq {n : Nat} (hn : (n : K) ≠ 0) (v : Nat → K) (avg : K) :
    deviation n v avg = .ok ((∑ j ∈ Finset.range n, (v j - avg) ^ 2) / n) := by
  have hloop : ∀ k, (List.range k).foldlM
      (fun dev j => (divide ((v j - avg) * (v j - avg)) (n : K)).map (dev + ·)) 0 =
      (.ok ((∑ j ∈ Finset.range k, (v j - avg) ^ 2) / n) : Except Halt K) := by
    intro k
    induction k with
    | zero => simp [pure, Except.pure]
    | succ k ih =>
        rw [List.range_succ, List.foldlM_append, ih]
        simp only [List.foldlM_cons, List.foldlM_nil, divide_eq hn, Finset.sum_range_succ, bind,
          Except.bind, Except.map, pure, Except.pure]
        rw [add_div, sq]
  exact hloop n

/-- The loop has changed the rows it has passed. -/
theorem scale_eq {n : Nat} {avg stdev : K} (hstdev : stdev ≠ 0) (hroot : sqrt n ≠ 0)
    (v : Nat → K) :
    scale sqrt n avg stdev v =
      .ok fun j => if j < n then (v j - avg) / stdev / sqrt n else v j := by
  have hloop : ∀ k, (List.range k).foldlM
      (fun v j => do
        let tmp ← divide (v j - avg) stdev
        let x ← divide tmp (sqrt n)
        pure (Function.update v j x)) v =
      (.ok fun j => if j < k then (v j - avg) / stdev / sqrt n else v j :
        Except Halt (Nat → K)) := by
    intro k
    induction k with
    | zero => simp [pure, Except.pure]
    | succ k ih =>
        rw [List.range_succ, List.foldlM_append, ih]
        simp only [List.foldlM_cons, List.foldlM_nil, divide_eq hstdev, divide_eq hroot, bind,
          Except.bind, pure, Except.pure, lt_irrefl, if_false]
        congr 1
        funext j
        by_cases hj : j = k
        · subst hj
          rw [Function.update_self, if_pos (Nat.lt_succ_self j)]
        · rw [Function.update_of_ne hj]
          have hlt : j < k ↔ j < k + 1 := by omega
          simp only [hlt]
  exact hloop n

/-- With no deviation the first row is a division by zero. -/
theorem scale_zero {n : Nat} (hn : 0 < n) (avg : K) (v : Nat → K) :
    scale sqrt n avg 0 v = .error .divZero := by
  obtain ⟨k, rfl⟩ := Nat.exists_eq_succ_of_ne_zero (Nat.ne_of_gt hn)
  rw [scale, List.range_succ_eq_map, List.foldlM_cons]
  simp only [divide, if_true, bind, Except.bind]

/-! ## The loop over the columns -/

variable {f : (Nat → K) → Except Halt (Nat → K)} {p : Nat} {MX M : Nat → Nat → K}

theorem mapColumns_succ (f : (Nat → K) → Except Halt (Nat → K)) (p : Nat) (MX : Nat → Nat → K) :
    mapColumns f (p + 1) MX = (mapColumns f p MX).bind fun M =>
      (f fun j => M j p).map fun v j => Function.update (M j) p (v j) := by
  rw [mapColumns, List.range_succ, List.foldlM_append, mapColumns]
  simp only [List.foldlM_cons, List.foldlM_nil, bind_pure]
  rfl

/-- **Every column is worked on alone**: what comes out in column `i` is what `f` makes of the
column that went in, and the columns behind are as they were. -/
theorem mapColumns_column (h : mapColumns f p MX = .ok M) :
    (∀ i < p, f (fun j => MX j i) = .ok fun j => M j i) ∧ ∀ i, p ≤ i → ∀ j, M j i = MX j i := by
  induction p generalizing M with
  | zero =>
      cases h
      exact ⟨fun i hi => absurd hi (Nat.not_lt_zero i), fun _ _ _ => rfl⟩
  | succ p ih =>
      rw [mapColumns_succ] at h
      cases hprev : mapColumns f p MX with
      | error e =>
          rw [hprev] at h
          cases h
      | ok M₀ =>
          obtain ⟨hdone, hbehind⟩ := ih hprev
          have hlast : (fun j => M₀ j p) = fun j => MX j p := funext (hbehind p (Nat.le_refl p))
          rw [hprev, Except.bind, hlast] at h
          cases hcol : f fun j => MX j p with
          | error e =>
              rw [hcol] at h
              cases h
          | ok v =>
              rw [hcol] at h
              cases h
              constructor
              · intro i hi
                by_cases hip : i = p
                · subst hip
                  simpa only [Function.update_self] using hcol
                · simpa only [Function.update_of_ne hip] using hdone i (by omega)
              · intro i hi j
                have hip : i ≠ p := by omega
                show Function.update (M₀ j) p (v j) i = MX j i
                rw [Function.update_of_ne hip, hbehind i (by omega)]

theorem mapColumns_ok (h : ∀ i < p, ∃ v, f (fun j => MX j i) = .ok v) :
    ∃ M, mapColumns f p MX = .ok M := by
  induction p with
  | zero => exact ⟨MX, rfl⟩
  | succ p ih =>
      obtain ⟨M, hM⟩ := ih fun i hi => h i (by omega)
      obtain ⟨v, hv⟩ := h p (Nat.lt_succ_self p)
      have hlast : (fun j => M j p) = fun j => MX j p :=
        funext ((mapColumns_column hM).2 p (Nat.le_refl p))
      rw [mapColumns_succ, hM, Except.bind, hlast, hv]
      exact ⟨_, rfl⟩

/-- A column on which `f` stops, when it stops nowhere for another reason. -/
theorem mapColumns_error {e : Halt}
    (hall : ∀ i < p, (∃ v, f (fun j => MX j i) = .ok v) ∨ f (fun j => MX j i) = .error e)
    (h : ∃ i < p, f (fun j => MX j i) = .error e) : mapColumns f p MX = .error e := by
  induction p with
  | zero =>
      obtain ⟨i, hi, -⟩ := h
      exact absurd hi (Nat.not_lt_zero i)
  | succ p ih =>
      rw [mapColumns_succ]
      by_cases hprev : ∃ i < p, f (fun j => MX j i) = .error e
      · rw [ih (fun i hi => hall i (by omega)) hprev]
        rfl
      · -- the columns before are worked on, so it is the last one
        have hok : ∀ i < p, ∃ v, f (fun j => MX j i) = .ok v := by
          intro i hi
          rcases hall i (by omega) with hv | he
          · exact hv
          · exact absurd ⟨i, hi, he⟩ hprev
        obtain ⟨M, hM⟩ := mapColumns_ok hok
        obtain ⟨i, hi, he⟩ := h
        have hip : i = p := by
          by_contra hne
          exact hprev ⟨i, by omega, he⟩
        have hlast : (fun j => M j p) = fun j => MX j p :=
          funext ((mapColumns_column hM).2 p (Nat.le_refl p))
        rw [hM, Except.bind, hlast, ← hip, he]
        rfl

end

/-! ## The law over the reals -/

/-- The first `n` values are all the same. -/
def Constant (n : Nat) (v : Nat → ℝ) : Prop := ∀ i < n, ∀ j < n, v i = v j

/-- What the result should be: every column of X was zero and is zero, or has sum 0 and sum of
squares 1; it depends on that column alone; and Y has sum 0 and sum of squares 1. -/
structure Normalised (n p : Nat) (MX MX' : Nat → Nat → ℝ) (MY' : Nat → ℝ) : Prop where
  columns : ∀ i < p, (∀ j < n, MX j i = 0 ∧ MX' j i = 0) ∨
    ∑ j ∈ Finset.range n, MX' j i = 0 ∧ ∑ j ∈ Finset.range n, MX' j i ^ 2 = 1
  alone : ∀ i < p, ∀ (NX NX' : Nat → Nat → ℝ) (NY NY' : Nat → ℝ) (q : Nat), i < q →
    (∀ j < n, NX j i = MX j i) → standardizeInput Real.sqrt NX NY n q = .ok (NX', NY') →
    ∀ j < n, NX' j i = MX' j i
  y : ∑ j ∈ Finset.range n, MY' j = 0 ∧ ∑ j ∈ Finset.range n, MY' j ^ 2 = 1

/-- The fatal exit is taken, or the result is normalised; no division by zero is executed. -/
def Normalises (n p : Nat) (MX : Nat → Nat → ℝ) :
    Except Halt ((Nat → Nat → ℝ) × (Nat → ℝ)) → Prop
  | .ok (MX', MY') => Normalised n p MX MX' MY'
  | .error .fatal => True
  | .error .divZero => False

section

variable {n : Nat} (hn : 1 ≤ n) (v : Nat → ℝ)

/-- `avg` and `stdev` of the source. -/
noncomputable def avgOf (n : Nat) (v : Nat → ℝ) : ℝ := (∑ j ∈ Finset.range n, v j) / n

noncomputable def stdevOf (n : Nat) (v : Nat → ℝ) : ℝ :=
  Real.sqrt ((∑ j ∈ Finset.range n, (v j - avgOf n v) ^ 2) / n)

/-- A column after `scale`. -/
noncomputable def standardised (n : Nat) (v : Nat → ℝ) : Nat → ℝ := fun j =>
  if j < n then (v j - avgOf n v) / stdevOf n v / Real.sqrt n else v j

include hn

theorem cast_ne_zero_of_le : (n : ℝ) ≠ 0 := Nat.cast_ne_zero.mpr (by omega)

theorem sqrt_cast_ne_zero : Real.sqrt n ≠ 0 :=
  (Real.sqrt_pos.mpr (Nat.cast_pos.mpr (by omega))).ne'

theorem isMean_avgOf : IsMean (Finset.range n) v (avgOf n v) := by
  have h := isMean_div (s := Finset.range n) (f := v) (by
    rw [Finset.card_range]
    exact cast_ne_zero_of_le hn)
  rwa [Finset.card_range] at h

/-- **There is no deviation exactly in a constant column.** -/
theorem stdevOf_eq_zero_iff : stdevOf n v = 0 ↔ Constant n v := by
  have hnonneg : 0 ≤ (∑ j ∈ Finset.range n, (v j - avgOf n v) ^ 2) / n :=
    div_nonneg (Finset.sum_nonneg fun j _ => sq_nonneg _) (Nat.cast_nonneg n)
  rw [stdevOf, Real.sqrt_eq_zero hnonneg, div_eq_zero_iff, or_iff_left (cast_ne_zero_of_le hn),
    (isMean_avgOf hn v).sum_sq_eq_zero_iff]
  simp only [Finset.mem_range, Constant]

/-- **A column with deviation is normalised by `scale`.** -/
theorem standardised_normal (h : ¬ Constant n v) :
    ∑ j ∈ Finset.range n, standardised n v j = 0 ∧
      ∑ j ∈ Finset.range n, standardised n v j ^ 2 = 1 := by
  have hstdev : stdevOf n v ≠ 0 := mt (stdevOf_eq_zero_iff hn v).mp h
  have hcell : ∀ j ∈ Finset.range n,
      standardised n v j = (v j - avgOf n v) / stdevOf n v / Real.sqrt n :=
    fun j hj => if_pos (Finset.mem_range.mp hj)
  have hsquares : stdevOf n v ^ 2 * Real.sqrt n ^ 2 =
      ∑ j ∈ Finset.range n, (v j - avgOf n v) ^ 2 := by
    have hnonneg : 0 ≤ (∑ j ∈ Finset.range n, (v j - avgOf n v) ^ 2) / n :=
      div_nonneg (Finset.sum_nonneg fun j _ => sq_nonneg _) (Nat.cast_nonneg n)
    rw [stdevOf, Real.sq_sqrt hnonneg, Real.sq_sqrt (Nat.cast_nonneg n),
      div_mul_cancel₀ _ (cast_ne_zero_of_le hn)]
  constructor
  · rw [Finset.sum_congr rfl hcell]
    exact (isMean_avgOf hn v).sum_scaled _ _
  · rw [Finset.sum_congr rfl fun j hj => by rw [hcell j hj]]
    exact sum_sq_scaled hstdev (sqrt_cast_ne_zero hn) hsquares

/-- The two branches of a column, with the loops before them in closed form. -/
theorem column_eq :
    column Real.sqrt n v =
      if stdevOf n v = 0 then
        if (List.range n).any fun row => v row ≠ 0 then .error .fatal else .ok v
      else scale Real.sqrt n (avgOf n v) (stdevOf n v) v := by
  have hcast := cast_ne_zero_of_le hn
  simp only [column, average_eq hcast, deviation_eq hcast, bind, Except.bind, pure, Except.pure]
  rfl

theorem standardizeY_eq :
    standardizeY Real.sqrt n v = scale Real.sqrt n (avgOf n v) (stdevOf n v) v := by
  have hcast := cast_ne_zero_of_le hn
  simp only [standardizeY, average_eq hcast, deviation_eq hcast, bind, Except.bind]
  rfl

theorem scale_standardised (h : ¬ Constant n v) :
    scale Real.sqrt n (avgOf n v) (stdevOf n v) v = .ok (standardised n v) :=
  scale_eq Real.sqrt (mt (stdevOf_eq_zero_iff hn v).mp h) (sqrt_cast_ne_zero hn) v

/-- **What becomes of a column**: a zero column stays, another constant one is fatal, and the others
are standardised. -/
theorem column_cases :
    ((∀ j < n, v j = 0) ∧ column Real.sqrt n v = .ok v) ∨
    (Constant n v ∧ (∃ j < n, v j ≠ 0) ∧ column Real.sqrt n v = .error .fatal) ∨
    (¬ Constant n v ∧ column Real.sqrt n v = .ok (standardised n v)) := by
  rw [column_eq hn]
  by_cases hconst : Constant n v
  · rw [if_pos ((stdevOf_eq_zero_iff hn v).mpr hconst)]
    by_cases hzero : ∀ j < n, v j = 0
    · refine .inl ⟨hzero, if_neg ?_⟩
      simpa using hzero
    · refine .inr (.inl ⟨hconst, by simpa using hzero, if_pos ?_⟩)
      simpa using hzero
  · rw [if_neg (mt (stdevOf_eq_zero_iff hn v).mp hconst), scale_standardised hn v hconst]
    exact .inr (.inr ⟨hconst, rfl⟩)

theorem standardizeY_cases :
    (Constant n v ∧ standardizeY Real.sqrt n v = .error .divZero) ∨
    (¬ Constant n v ∧ standardizeY Real.sqrt n v = .ok (standardised n v)) := by
  rw [standardizeY_eq hn]
  by_cases hconst : Constant n v
  · rw [(stdevOf_eq_zero_iff hn v).mpr hconst, scale_zero Real.sqrt hn]
    exact .inl ⟨hconst, rfl⟩
  · exact .inr ⟨hconst, scale_standardised hn v hconst⟩

/-- A column that is returned: it was zero and is zero, or it is normalised. -/
theorem column_normal {v' : Nat → ℝ} (h : column Real.sqrt n v = .ok v') :
    (∀ j < n, v j = 0 ∧ v' j = 0) ∨
      ∑ j ∈ Finset.range n, v' j = 0 ∧ ∑ j ∈ Finset.range n, v' j ^ 2 = 1 := by
  rcases column_cases hn v with ⟨hzero, hcol⟩ | ⟨-, -, hcol⟩ | ⟨hconst, hcol⟩
  · rw [hcol] at h
    cases h
    exact .inl fun j hj => ⟨hzero j hj, hzero j hj⟩
  · rw [hcol] at h
    cases h
  · rw [hcol] at h
    cases h
    exact .inr (standardised_normal hn v hconst)

/-- A cell of a column that is returned. -/
theorem column_cell {v' : Nat → ℝ} (h : column Real.sqrt n v = .ok v') {j : Nat} (hj : j < n) :
    v' j = if stdevOf n v = 0 then v j else (v j - avgOf n v) / stdevOf n v / Real.sqrt n := by
  rw [column_eq hn] at h
  by_cases hstdev : stdevOf n v = 0
  · rw [if_pos hstdev] at h ⊢
    split_ifs at h
    cases h
    rfl
  · rw [if_neg hstdev, scale_eq Real.sqrt hstdev (sqrt_cast_ne_zero hn)] at h
    cases h
    rw [if_neg hstdev]
    exact if_pos hj

/-- Columns that agree in the first `n` rows come out the same there. -/
theorem column_congr {w v' w' : Nat → ℝ} (hvw : ∀ j < n, v j = w j)
    (hv : column Real.sqrt n v = .ok v') (hw : column Real.sqrt n w = .ok w') :
    ∀ j < n, v' j = w' j := by
  have hsum : ∀ g : ℝ → ℝ, ∑ j ∈ Finset.range n, g (v j) = ∑ j ∈ Finset.range n, g (w j) :=
    fun g => Finset.sum_congr rfl fun j hj => by rw [hvw j (Finset.mem_range.mp hj)]
  have havg : avgOf n v = avgOf n w := by
    rw [avgOf, avgOf, hsum fun x => x]
  have hstdev : stdevOf n v = stdevOf n w := by
    rw [stdevOf, stdevOf, havg, hsum fun x => (x - avgOf n w) ^ 2]
  intro j hj
  rw [column_cell hn v hv hj, column_cell hn w hw hj, havg, hstdev, hvw j hj]

theorem standardizeX_fatal {p : Nat} {MX : Nat → Nat → ℝ}
    (h : ∃ i < p, Constant n (fun j => MX j i) ∧ ∃ j < n, MX j i ≠ 0) :
    mapColumns (column Real.sqrt n) p MX = .error .fatal := by
  apply mapColumns_error
  · intro i _
    rcases column_cases hn fun j => MX j i with ⟨-, hcol⟩ | ⟨-, -, hcol⟩ | ⟨-, hcol⟩
    · exact .inl ⟨_, hcol⟩
    · exact .inr hcol
    · exact .inl ⟨_, hcol⟩
  · obtain ⟨i, hi, hconst, j, hj, hne⟩ := h
    refine ⟨i, hi, ?_⟩
    rcases column_cases hn fun j => MX j i with ⟨hzero, -⟩ | ⟨-, -, hcol⟩ | ⟨hvar, -⟩
    · exact absurd (hzero j hj) hne
    · exact hcol
    · exact absurd hconst hvar

theorem standardizeX_ok {p : Nat} {MX : Nat → Nat → ℝ}
    (h : ¬ ∃ i < p, Constant n (fun j => MX j i) ∧ ∃ j < n, MX j i ≠ 0) :
    ∃ MX', mapColumns (column Real.sqrt n) p MX = .ok MX' := by
  apply mapColumns_ok
  intro i hi
  rcases column_cases hn fun j => MX j i with ⟨-, hcol⟩ | ⟨hconst, hne, -⟩ | ⟨-, hcol⟩
  · exact ⟨_, hcol⟩
  · exact absurd ⟨i, hi, hconst, hne⟩ h
  · exact ⟨_, hcol⟩

omit hn in
theorem mapColumns_of_standardizeInput {q : Nat} {NX NX' : Nat → Nat → ℝ} {NY NY' : Nat → ℝ}
    (h : standardizeInput Real.sqrt NX NY n q = .ok (NX', NY')) :
    mapColumns (column Real.sqrt n) q NX = .ok NX' := by
  cases hX : mapColumns (column Real.sqrt n) q NX with
  | error e =>
      rw [standardizeInput, hX] at h
      cases h
  | ok M =>
      cases hY : standardizeY Real.sqrt n NY with
      | error e =>
          rw [standardizeInput, hX, hY] at h
          cases h
      | ok N =>
          rw [standardizeInput, hX, hY] at h
          cases h
          rfl

/-- **`standardizeInput` normalises exactly when it stops at a constant column of X that is not
zero, or Y is not constant**: for all sizes, all matrices and all vectors. -/
theorem normalises_iff (p : Nat) (MX : Nat → Nat → ℝ) (MY : Nat → ℝ) :
    Normalises n p MX (standardizeInput Real.sqrt MX MY n p) ↔
      (∃ i < p, Constant n (fun j => MX j i) ∧ ∃ j < n, MX j i ≠ 0) ∨ ¬ Constant n MY := by
  by_cases hfatal : ∃ i < p, Constant n (fun j => MX j i) ∧ ∃ j < n, MX j i ≠ 0
  · have hX := standardizeX_fatal hn hfatal
    have hrun : standardizeInput Real.sqrt MX MY n p = .error .fatal := by
      rw [standardizeInput, hX]
      rfl
    rw [hrun]
    exact iff_of_true trivial (.inl hfatal)
  obtain ⟨MX', hX⟩ := standardizeX_ok hn hfatal
  rcases standardizeY_cases hn MY with ⟨hconst, hY⟩ | ⟨hconst, hY⟩
  · have hrun : standardizeInput Real.sqrt MX MY n p = .error .divZero := by
      rw [standardizeInput, hX, hY]
      rfl
    rw [hrun]
    exact iff_of_false id (not_or.mpr ⟨hfatal, not_not.mpr hconst⟩)
  · have hrun : standardizeInput Real.sqrt MX MY n p = .ok (MX', standardised n MY) := by
      rw [standardizeInput, hX, hY]
      rfl
    rw [hrun]
    refine iff_of_true ⟨?_, ?_, standardised_normal hn MY hconst⟩ (.inr hconst)
    · intro i hi
      exact column_normal hn _ ((mapColumns_column hX).1 i hi)
    · intro i hi NX NX' NY NY' q hq hagree hother
      have hNX := mapColumns_of_standardizeInput hother
      exact column_congr hn _ hagree ((mapColumns_column hNX).1 i hq)
        ((mapColumns_column hX).1 i hi)

end

/-- Two rows, a zero column and a column `1, 3`, and Y `0, 1`. -/
theorem normalises_two :
    Normalises 2 2 (fun j i => if i = 0 then 0 else 2 * j + 1)
      (standardizeInput Real.sqrt (fun j i => if i = 0 then 0 else 2 * j + 1) (fun j => j)
        2 2) := by
  refine (normalises_iff (by decide) 2 _ _).mpr (.inr ?_)
  intro hconst
  have h := hconst 0 (by decide) 1 (by decide)
  norm_num at h

/-- One row, no column, Y `1`: the deviation of Y is 0 and it is divided by. -/
theorem not_normalises_one :
    standardizeInput Real.sqrt (fun _ _ => 0) (fun _ => 1) 1 0 = .error .divZero ∧
      ¬ Normalises 1 0 (fun _ _ => 0)
        (standardizeInput Real.sqrt (fun _ _ => 0) (fun _ => 1) 1 0) := by
  have hconst : Constant 1 fun _ => 1 := fun _ _ _ _ => rfl
  have hrun : standardizeInput Real.sqrt (fun _ _ => 0) (fun _ => 1) 1 0 = .error .divZero := by
    rcases standardizeY_cases (Nat.le_refl 1) fun _ => 1 with ⟨-, hY⟩ | ⟨hvar, -⟩
    · rw [standardizeInput, hY]
      rfl
    · exact absurd hconst hvar
  refine ⟨hrun, ?_⟩
  rw [hrun]
  exact id

end CommTest.Mpi
