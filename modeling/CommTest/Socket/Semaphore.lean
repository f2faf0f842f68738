import CommTest.Lib.Lts
import CommTest.Lib.Ledger
import Mathlib.Algebra.Group.Nat.Defs

/-!
# The semaphore of the socket library

`class semaphore` of `socket/src/util.hpp`: a counter under a mutex, and a condition variable that
is signalled after the mutex has been released, one signal per unit.

* `step`: what the threads of a process do to one semaphore. A section between `pthread_mutex_lock`
  (or the return of `pthread_cond_wait`) and `pthread_mutex_unlock` (or the next
  `pthread_cond_wait`) is one step; every `pthread_cond_signal` is a step of its own, and it wakes
  one sleeper if there is any. A sleeper may also wake by itself.
* `LostWakeup`: units are there, a thread sleeps, and nothing is under way that could wake it.
* `covered_of_exec`: while a thread sleeps, every unit of the counter has a signal to come or a
  woken thread. `not_lostWakeup`: so no wake-up is ever lost.
* `opStep` / `exec_ops`: seen from the counter, a run is a run of the atomic operations `signal` and
  `wait`, which is how `Pcqueue` uses the semaphore.
-/

set_option linter.unusedSectionVars false

namespace CommTest.Socket

open Lts Ledger

universe u

/-- Where a thread stands in the functions of a `semaphore`. -/
inductive SemPc where
  /-- In none of them. -/
  | idle
  /-- Past `pthread_mutex_unlock` in `signal`, with `left` calls of `pthread_cond_signal` to perform. -/
  | signalling (left : Nat)
  /-- Inside `pthread_cond_wait`. -/
  | sleeping
  /-- Woken, and on its way to re-acquire the mutex inside `pthread_cond_wait`. -/
  | woken
deriving Repr, DecidableEq

/-- A `semaphore` and the threads that use it. -/
structure Semaphore (τ : Type u) where
  counter : Nat
  pc : τ → SemPc

/-- What a thread does next; `condSignal t w` says which sleeper the signal wakes. -/
inductive SemLabel (τ : Type u) where
  | signal (t : τ)
  | signalN (t : τ) (n : Nat)
  | condSignal (t : τ) (w : Option τ)
  | signalled (t : τ)
  | wait (t : τ)
  | reacquire (t : τ)
  | spurious (t : τ)
deriving Repr, DecidableEq

namespace Semaphore

variable {τ : Type u} [Fintype τ] [DecidableEq τ]

/-- `semaphore(uint32_t _counter)`; the test `_counter < 0` never holds of an unsigned value. -/
def init (counter : Nat) : Semaphore τ := ⟨counter % 2 ^ 32, fun _ => .idle⟩

/-- `counter += n` on a `uint32_t`. -/
def raise (counter n : Nat) : Nat := (counter + n) % 2 ^ 32

/-- The section of `signal` and `signal(n)`, and the `n` signals it leaves to perform. -/
def signalSection (s : Semaphore τ) (t : τ) (n : Nat) : Semaphore τ :=
  { s with counter := raise s.counter n, pc := Function.update s.pc t (.signalling n) }

/-- The section of `wait` from the test `counter == 0` on: it ends in `pthread_cond_wait` or with
one unit taken. -/
def waitSection (s : Semaphore τ) (t : τ) : Semaphore τ :=
  if s.counter = 0 then { s with pc := Function.update s.pc t .sleeping }
  else { s with counter := s.counter - 1, pc := Function.update s.pc t .idle }

/-- One step of the threads.
Source: `socket/src/util.hpp`, `semaphore::signal`, `semaphore::wait`. -/
def step (s : Semaphore τ) : SemLabel τ → Option (Semaphore τ)
  | .signal t => if s.pc t = .idle then some (s.signalSection t 1) else none
  | .signalN t n => if s.pc t = .idle ∧ n < 2 ^ 32 then some (s.signalSection t n) else none
  | .condSignal t w =>
      match s.pc t with
      | .signalling (left + 1) =>
          let pc := Function.update s.pc t (.signalling left)
          match w with
          | some w => if s.pc w = .sleeping then
              some { s with pc := Function.update pc w .woken } else none
          | none => if ∀ u, s.pc u ≠ .sleeping then some { s with pc := pc } else none
      | _ => none
  | .signalled t =>
      if s.pc t = .signalling 0 then some { s with pc := Function.update s.pc t .idle } else none
  | .wait t => if s.pc t = .idle then some (s.waitSection t) else none
  | .reacquire t => if s.pc t = .woken then some (s.waitSection t) else none
  | .spurious t =>
      if s.pc t = .sleeping then some { s with pc := Function.update s.pc t .woken } else none

/-- What a step can do. -/
inductive Trans (s : Semaphore τ) : Semaphore τ → Prop
  | raise (t : τ) (n : Nat) (hpc : s.pc t = .idle) : Trans s (s.signalSection t n)
  | wake (t w : τ) (left : Nat) (hpc : s.pc t = .signalling (left + 1)) (hw : s.pc w = .sleeping) :
      Trans s { s with
        pc := Function.update (Function.update s.pc t (.signalling left)) w .woken }
  | unheard (t : τ) (left : Nat) (hpc : s.pc t = .signalling (left + 1))
      (hall : ∀ u, s.pc u ≠ .sleeping) :
      Trans s { s with pc := Function.update s.pc t (.signalling left) }
  | done (t : τ) (hpc : s.pc t = .signalling 0) :
      Trans s { s with pc := Function.update s.pc t .idle }
  | sleep (t : τ) (hpc : s.pc t = .idle ∨ s.pc t = .woken) (h0 : s.counter = 0) :
      Trans s { s with pc := Function.update s.pc t .sleeping }
  | take (t : τ) (hpc : s.pc t = .idle ∨ s.pc t = .woken) (h0 : s.counter ≠ 0) :
      Trans s { s with counter := s.counter - 1, pc := Function.update s.pc t .idle }
  | spurious (t : τ) (hpc : s.pc t = .sleeping) :
      Trans s { s with pc := Function.update s.pc t .woken }

theorem trans_waitSection (s : Semaphore τ) (t : τ) (hpc : s.pc t = .idle ∨ s.pc t = .woken) :
    Trans s (s.waitSection t) := by
  unfold waitSection
  split_ifs with h0
  · exact .sleep t hpc h0
  · exact .take t hpc h0

theorem trans_of_step {s s' : Semaphore τ} {l : SemLabel τ} (h : step s l = some s') :
    Trans s s' := by
  cases l with
  | signal t =>
      simp only [step, Option.ite_none_right_eq_some, Option.some.injEq] at h
      exact h.2 ▸ .raise t 1 h.1
  | signalN t n =>
      simp only [step, Option.ite_none_right_eq_some, Option.some.injEq] at h
      exact h.2 ▸ .raise t n h.1.1
  | condSignal t w =>
      simp only [step] at h
      split at h
      · rename_i left hpc
        cases w with
        | some w =>
            simp only [Option.ite_none_right_eq_some, Option.some.injEq] at h
            exact h.2 ▸ .wake t w left hpc h.1
        | none =>
            simp only [Option.ite_none_right_eq_some, Option.some.injEq] at h
            exact h.2 ▸ .unheard t left hpc h.1
      · exact absurd h (by simp)
  | signalled t =>
      simp only [step, Option.ite_none_right_eq_some, Option.some.injEq] at h
      exact h.2 ▸ .done t h.1
  | wait t =>
      simp only [step, Option.ite_none_right_eq_some, Option.some.injEq] at h
      exact h.2 ▸ trans_waitSection s t (.inl h.1)
  | reacquire t =>
      simp only [step, Option.ite_none_right_eq_some, Option.some.injEq] at h
      exact h.2 ▸ trans_waitSection s t (.inr h.1)
  | spurious t =>
      simp only [step, Option.ite_none_right_eq_some, Option.some.injEq] at h
      exact h.2 ▸ .spurious t h.1

/-! ## No lost wake-up -/

/-- Units are there, a thread sleeps, no signaller has a `pthread_cond_signal` to perform and no
woken thread is on its way to re-acquire the mutex. -/
def LostWakeup (s : Semaphore τ) : Prop :=
  0 < s.counter ∧ (∃ t, s.pc t = .sleeping) ∧ (∀ t left, s.pc t ≠ .signalling (left + 1)) ∧
    ∀ t, s.pc t ≠ .woken

/-- The wake-ups that are under way at one thread: its signals to come, or its own. -/
def underWay : SemPc → Nat
  | .signalling left => left
  | .woken => 1
  | _ => 0

/-- While a thread sleeps, every unit of the counter is covered by a wake-up under way. -/
def Covered (s : Semaphore τ) : Prop :=
  (∃ t, s.pc t = .sleeping) → s.counter ≤ total underWay s.pc

/-- A sleeper of `s'` was one in `s`, if the thread that moved does not sleep. -/
theorem sleeping_of_update {pc : τ → SemPc} {t : τ} {a : SemPc} (ha : a ≠ .sleeping)
    (h : ∃ u, Function.update pc t a u = .sleeping) : ∃ u, pc u = .sleeping := by
  obtain ⟨u, hu⟩ := h
  by_cases hut : u = t
  · subst hut
    rw [Function.update_self] at hu
    exact absurd hu ha
  · rw [Function.update_of_ne hut] at hu
    exact ⟨u, hu⟩

/-- One step keeps the units covered. -/
theorem Trans.covered {s s' : Semaphore τ} (h : Trans s s') (hc : s.Covered) : s'.Covered := by
  intro hsleep
  cases h with
  | raise t n hpc =>
      have htotal : total underWay (Function.update s.pc t (.signalling n))
          = total underWay s.pc + n := total_update_of_add (by rw [hpc]; simp [underWay])
      have hold := hc (sleeping_of_update (by simp) hsleep)
      have hmod : Semaphore.raise s.counter n ≤ s.counter + n := Nat.mod_le _ _
      simp only [signalSection, htotal]
      omega
  | wake t w left hpc hw =>
      -- the signal that is gone is the woken thread that has come
      have hne : w ≠ t := by
        rintro rfl
        rw [hpc] at hw
        exact absurd hw (by simp)
      have hsent : total underWay s.pc
          = total underWay (Function.update s.pc t (.signalling left)) + 1 :=
        total_of_update_add (by rw [hpc]; simp [underWay])
      have hwoken : total underWay
            (Function.update (Function.update s.pc t (.signalling left)) w .woken)
          = total underWay (Function.update s.pc t (.signalling left)) + 1 :=
        total_update_of_add (by rw [Function.update_of_ne hne, hw]; simp [underWay])
      have hold := hc ⟨w, hw⟩
      simp only [hwoken]
      omega
  | unheard t left hpc hall =>
      obtain ⟨u, hu⟩ := sleeping_of_update (by simp) hsleep
      exact absurd hu (hall u)
  | done t hpc =>
      have htotal : total underWay (Function.update s.pc t .idle) = total underWay s.pc :=
        total_update_of_eq (by rw [hpc]; rfl)
      have hold := hc (sleeping_of_update (by simp) hsleep)
      simp only [htotal]
      exact hold
  | sleep t hpc h0 =>
      simp only [h0]
      exact Nat.zero_le _
  | take t hpc h0 =>
      -- the unit and, if the thread was woken, its wake-up are gone together
      have hold := hc (sleeping_of_update (by simp) hsleep)
      have htotal : total underWay s.pc
          ≤ total underWay (Function.update s.pc t .idle) + 1 := by
        rcases hpc with hpc | hpc
        · rw [total_update_of_eq (show underWay .idle = underWay (s.pc t) by rw [hpc])]
          exact Nat.le_succ _
        · rw [total_of_update_add (show underWay (s.pc t) = underWay .idle + 1 by rw [hpc]; rfl)]
      simp only
      omega
  | spurious t hpc =>
      have htotal : total underWay (Function.update s.pc t .woken) = total underWay s.pc + 1 :=
        total_update_of_add (by rw [hpc]; rfl)
      have hold := hc ⟨t, hpc⟩
      simp only [htotal]
      omega

/-- **Every run keeps the units covered**, whatever the counter starts with. -/
theorem covered_of_exec {c : Nat} {ls : List (SemLabel τ)} {s : Semaphore τ}
    (hrun : exec step (init c) ls = some s) : s.Covered := by
  apply exec_invariant (fun s l t hi h => (trans_of_step h).covered hi) _ hrun
  rintro ⟨t, ht⟩
  exact absurd ht (by simp [init])

/-- **No wake-up is lost**: in no reachable state are there units, a sleeper, and nobody who will
wake it. A counter that wraps only loses units, so the counter needs no bound. -/
theorem not_lostWakeup {c : Nat} {ls : List (SemLabel τ)} {s : Semaphore τ}
    (hrun : exec step (init c) ls = some s) : ¬ s.LostWakeup := by
  rintro ⟨hunits, hsleep, hsignals, hwoken⟩
  have hcovered : s.counter ≤ total underWay s.pc := covered_of_exec hrun hsleep
  have hnothing : total underWay s.pc = 0 := by
    apply total_eq_zero
    intro t
    cases hpc : s.pc t with
    | signalling left =>
        cases left with
        | zero => rfl
        | succ left => exact absurd hpc (hsignals t left)
    | woken => exact absurd hpc (hwoken t)
    | _ => rfl
  omega

/-- Two threads sleep, a third signals twice at once, and a fourth takes a unit before the first
sleeper has the mutex again. -/
theorem not_lostWakeup_overtaken :
    ∃ s : Semaphore (Fin 4),
      exec step (init 0) [.wait 0, .wait 1, .signalN 2 2, .condSignal 2 (some 0), .wait 3,
        .reacquire 0, .condSignal 2 (some 1), .signalled 2] = some s ∧
      s.counter = 0 ∧ s.pc 1 = .woken ∧ ¬ s.LostWakeup := by
  obtain ⟨s, hrun, hs⟩ := exists_exec step (init 0 : Semaphore (Fin 4))
    [.wait 0, .wait 1, .signalN 2 2, .condSignal 2 (some 0), .wait 3, .reacquire 0,
      .condSignal 2 (some 1), .signalled 2]
    (fun s => decide (s.counter = 0 ∧ s.pc 1 = .woken)) (by decide)
  rw [decide_eq_true_eq] at hs
  exact ⟨s, hrun, hs.1, hs.2, not_lostWakeup hrun⟩

/-! ## The atomic operations -/

/-- An operation on the counter. -/
inductive Op where
  | signal (n : Nat)
  | wait
deriving Repr, DecidableEq

/-- The operations of a semaphore as atomic steps of its counter: `wait` blocks at `0`. -/
def opStep (counter : Nat) : Op → Option Nat
  | .signal n => some (raise counter n)
  | .wait => if counter = 0 then none else some (counter - 1)

/-- A step of the threads is an operation on the counter, or leaves it alone. -/
theorem Trans.op {s s' : Semaphore τ} (h : Trans s s') :
    s'.counter = s.counter ∨ ∃ o, opStep s.counter o = some s'.counter := by
  cases h with
  | raise t n hpc => exact .inr ⟨.signal n, rfl⟩
  | take t hpc h0 => exact .inr ⟨.wait, by simp [opStep, h0]⟩
  | _ => exact .inl rfl

/-- **The semaphore refines its atomic operations**: the counter after a run is the counter after a
sequence of atomic operations. -/
theorem exec_ops {s s' : Semaphore τ} {ls : List (SemLabel τ)} (hrun : exec step s ls = some s') :
    ∃ os, exec opStep s.counter os = some s'.counter := by
  induction ls generalizing s with
  | nil =>
      rw [exec_nil, Option.some.injEq] at hrun
      exact ⟨[], by rw [hrun]; rfl⟩
  | cons l ls ih =>
      obtain ⟨m, hm, hrest⟩ := exec_cons_eq_some.mp hrun
      obtain ⟨os, hos⟩ := ih hrest
      rcases (trans_of_step hm).op with heq | ⟨o, ho⟩
      · exact ⟨os, by rw [← heq]; exact hos⟩
      · exact ⟨o :: os, exec_cons_eq_some.mpr ⟨m.counter, ho, hos⟩⟩

end Semaphore

end CommTest.Socket
