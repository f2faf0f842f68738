import CommTest.Socket.Semaphore

/-!
# The producer-consumer queue

`pcqueue` is written twice: in `socket/src/util.hpp` over the class `semaphore`, with a bulk push,
and in `comm_zmq/src/comm_handler.hpp` over `sem_t`. A push stores under the mutex and signals after
it; a pop waits on the semaphore and takes under the mutex.

* `step`: each section under the mutex and each operation of the semaphore is one step, for both
  variants. `q.front()` on an empty queue is not blocked: it is recorded as a `fault`.
* `Bounded` / `Balanced`: the units of the semaphore, the signals to come and the consumers past
  their `wait` are at most (exactly, while the semaphore can count them) the items in the queue.
* `pcqueue_correct`: no run faults, the pops return the pushed values in order and each of them
  once, and a bulk push stays in one piece.
-/

set_option linter.unusedSectionVars false

namespace CommTest.Socket

open Lts Ledger

universe u v

/-- The two `pcqueue`s. `semValueMax` is the largest value a `sem_t` can have. -/
inductive PcqueueKind where
  | socket
  | zmq (semValueMax : Nat)
deriving Repr, DecidableEq

namespace PcqueueKind

/-- `sem_post`: at the largest value it fails and leaves the value. -/
def semPost (semValueMax counter : Nat) : Nat :=
  if counter < semValueMax then counter + 1 else counter

/-- `sem.signal()` or `sem_post(&sem)`, whose result the queue does not look at. -/
def signal (k : PcqueueKind) (counter : Nat) : Nat :=
  match k with
  | .socket => Semaphore.raise counter 1
  | .zmq semValueMax => semPost semValueMax counter

/-- The largest value of the semaphore. -/
def maxValue : PcqueueKind → Nat
  | .socket => 2 ^ 32 - 1
  | .zmq semValueMax => semValueMax

theorem signal_le (k : PcqueueKind) (counter : Nat) : k.signal counter ≤ counter + 1 := by
  cases k with
  | socket => exact Nat.mod_le _ _
  | zmq semValueMax =>
      simp only [signal, semPost]
      split_ifs <;> omega

theorem signal_eq (k : PcqueueKind) {counter : Nat} (h : counter + 1 ≤ k.maxValue) :
    k.signal counter = counter + 1 := by
  cases k with
  | socket =>
      simp only [maxValue] at h
      exact Nat.mod_eq_of_lt (by omega)
  | zmq semValueMax =>
      simp only [maxValue] at h
      exact if_pos (by omega)

end PcqueueKind

/-- Where a thread stands in the functions of a `pcqueue`. -/
inductive PcqueuePc where
  | idle
  /-- `push(T t)` has stored its item and has not signalled. -/
  | pushed
  /-- `push(T t[], int n)` has stored its items and has not signalled. -/
  | pushedN (n : Nat)
  /-- `pop` is past its wait and has not taken its item. -/
  | admitted
deriving Repr, DecidableEq

/-- A `pcqueue` and the threads that use it. `pushes` and `pops` record the sections in their order.
-/
structure Pcqueue (τ : Type u) (α : Type v) where
  q : List α
  counter : Nat
  pc : τ → PcqueuePc
  pushes : List (τ × List α)
  pops : List (τ × α)
  fault : Bool

/-- What a thread does next. -/
inductive PcqueueLabel (τ : Type u) (α : Type v) where
  | push (t : τ) (x : α)
  | pushN (t : τ) (xs : List α)
  | signal (t : τ)
  | wait (t : τ)
  | pop (t : τ)
deriving Repr, DecidableEq

namespace Pcqueue

variable {τ : Type u} {α : Type v} [Fintype τ] [DecidableEq τ]

/-- `pcqueue()`. -/
def init : Pcqueue τ α := ⟨[], 0, fun _ => .idle, [], [], false⟩

/-- The loop `for(i = 0; i < n; i++) q.push(t[i])`. -/
def storeAll (q : List α) : List α → List α
  | [] => q
  | x :: xs => storeAll (q ++ [x]) xs

theorem storeAll_eq (q xs : List α) : storeAll q xs = q ++ xs := by
  induction xs generalizing q with
  | nil => simp [storeAll]
  | cons x xs ih => rw [storeAll, ih, List.append_assoc, List.singleton_append]

/-- One step of the threads. The count of `push(T t[], int n)` is an `int`, and only the socket
queue has that push. Source: `socket/src/util.hpp` and `comm_zmq/src/comm_handler.hpp`,
`pcqueue::push`, `pcqueue::pop`. -/
def step (k : PcqueueKind) (s : Pcqueue τ α) : PcqueueLabel τ α → Option (Pcqueue τ α)
  | .push t x =>
      if s.pc t = .idle then
        some { s with
          q := s.q ++ [x], pc := Function.update s.pc t .pushed, pushes := s.pushes ++ [(t, [x])] }
      else none
  | .pushN t xs =>
      if k = .socket ∧ s.pc t = .idle ∧ xs.length < 2 ^ 31 then
        some { s with
          q := storeAll s.q xs, pc := Function.update s.pc t (.pushedN xs.length),
          pushes := s.pushes ++ [(t, xs)] }
      else none
  | .signal t =>
      match s.pc t with
      | .pushed =>
          some { s with counter := k.signal s.counter, pc := Function.update s.pc t .idle }
      | .pushedN n =>
          if k = .socket then
            some { s with counter := Semaphore.raise s.counter n, pc := Function.update s.pc t .idle }
          else none
      | _ => none
  | .wait t =>
      if s.pc t = .idle ∧ s.counter ≠ 0 then
        some { s with counter := s.counter - 1, pc := Function.update s.pc t .admitted }
      else none
  | .pop t =>
      if s.pc t = .admitted then
        match s.q with
        | x :: q => some { s with
            q := q, pc := Function.update s.pc t .idle, pops := s.pops ++ [(t, x)] }
        | [] => some { s with pc := Function.update s.pc t .idle, fault := true }
      else none

/-! ## The invariants -/

/-- What one thread holds against the items of the queue: the units it will signal, or the one it
has been let in with. -/
def claimed : PcqueuePc → Nat
  | .idle => 0
  | .pushed => 1
  | .pushedN n => n
  | .admitted => 1

/-- The units, the signals to come and the admitted consumers are at most the items. -/
def Bounded (s : Pcqueue τ α) : Prop := s.counter + total claimed s.pc ≤ s.q.length

/-- The units, the signals to come and the admitted consumers are exactly the items. -/
def Balanced (s : Pcqueue τ α) : Prop := s.counter + total claimed s.pc = s.q.length

/-- The items that have been popped and those in the queue are the pushed ones, in order. -/
def InOrder (s : Pcqueue τ α) : Prop :=
  s.pops.map Prod.snd ++ s.q = (s.pushes.map Prod.snd).flatten

/-- What a step can do to the counts: it moves units between the places, or loses some at a signal.
-/
structure CountStep (k : PcqueueKind) (s s' : Pcqueue τ α) : Prop where
  bounded : s.Bounded → s'.Bounded
  balanced : s.Balanced → s.q.length ≤ k.maxValue → s'.Balanced

/-- A step that changes the left side as it changes the right side keeps both. -/
theorem CountStep.of_shift {k : PcqueueKind} {s s' : Pcqueue τ α} (x y : Nat)
    (hleft : s'.counter + total claimed s'.pc + x = s.counter + total claimed s.pc + y)
    (hright : s'.q.length + x = s.q.length + y) : CountStep k s s' := by
  constructor
  · intro h
    unfold Bounded at *
    omega
  · intro h _
    unfold Balanced at *
    omega

/-- A consumer that is let in finds an item. -/
theorem Bounded.ne_nil {s : Pcqueue τ α} (h : s.Bounded) {t : τ} (ht : s.pc t = .admitted) :
    s.q ≠ [] := by
  intro hq
  unfold Bounded at h
  rw [hq, List.length_nil] at h
  have hnothing : total claimed s.pc = 0 := by omega
  have hzero := total_eq_zero_iff.mp hnothing t
  rw [ht] at hzero
  exact absurd hzero (by decide)

/-- A thread that signals hands its units to the counter, which loses those it cannot count. -/
theorem countStep_signal {k : PcqueueKind} {s : Pcqueue τ α} {t : τ} {n c : Nat}
    (hn : claimed (s.pc t) = n) (hle : c ≤ s.counter + n)
    (heq : s.counter + n ≤ k.maxValue → c = s.counter + n) :
    CountStep k s { s with counter := c, pc := Function.update s.pc t .idle } := by
  have htotal : total claimed s.pc = total claimed (Function.update s.pc t .idle) + n :=
    total_of_update_add (by rw [hn]; simp [claimed])
  constructor
  · intro h
    unfold Bounded at *
    simp only
    omega
  · intro h hfew
    unfold Balanced at *
    have hc := heq (by omega)
    simp only
    omega

theorem countStep_of_step {k : PcqueueKind} {s s' : Pcqueue τ α} {l : PcqueueLabel τ α}
    (hb : s.Bounded) (h : step k s l = some s') : CountStep k s s' := by
  cases l with
  | push t x =>
      simp only [step, Option.ite_none_right_eq_some, Option.some.injEq] at h
      obtain ⟨hpc, rfl⟩ := h
      have htotal : total claimed (Function.update s.pc t .pushed) = total claimed s.pc + 1 :=
        total_update_of_add (by rw [hpc]; rfl)
      apply CountStep.of_shift 0 1
      · simp only [htotal]
        omega
      · simp
  | pushN t xs =>
      simp only [step, Option.ite_none_right_eq_some, Option.some.injEq] at h
      obtain ⟨⟨-, hpc, -⟩, rfl⟩ := h
      have htotal : total claimed (Function.update s.pc t (.pushedN xs.length))
          = total claimed s.pc + xs.length :=
        total_update_of_add (by rw [hpc]; simp [claimed])
      apply CountStep.of_shift 0 xs.length
      · simp only [htotal]
        omega
      · simp [storeAll_eq]
  | signal t =>
      simp only [step] at h
      split at h
      · rename_i hpc
        rw [Option.some.injEq] at h
        subst h
        exact countStep_signal (by rw [hpc]; rfl) (k.signal_le _) k.signal_eq
      · rename_i n hpc
        rw [Option.ite_none_right_eq_some, Option.some.injEq] at h
        obtain ⟨rfl, rfl⟩ := h
        apply countStep_signal (by rw [hpc]; rfl) (Nat.mod_le _ _)
        intro hfew
        simp only [PcqueueKind.maxValue] at hfew
        exact Nat.mod_eq_of_lt (by omega)
      · exact absurd h (by simp)
  | wait t =>
      simp only [step, Option.ite_none_right_eq_some, Option.some.injEq] at h
      obtain ⟨⟨hpc, h0⟩, rfl⟩ := h
      have htotal : total claimed (Function.update s.pc t .admitted) = total claimed s.pc + 1 :=
        total_update_of_add (by rw [hpc]; rfl)
      apply CountStep.of_shift 0 0
      · simp only [htotal]
        omega
      · rfl
  | pop t =>
      simp only [step, Option.ite_none_right_eq_some] at h
      obtain ⟨hpc, h⟩ := h
      have htotal : total claimed s.pc = total claimed (Function.update s.pc t .idle) + 1 :=
        total_of_update_add (by rw [hpc]; rfl)
      split at h
      · rename_i x q hq
        rw [Option.some.injEq] at h
        subst h
        apply CountStep.of_shift 1 0
        · simp only
          omega
        · simp [hq]
      · rename_i hq
        exact absurd hq (hb.ne_nil hpc)

/-- One step keeps the order: a push appends a block, a pop takes the first item. -/
theorem inOrder_of_step {k : PcqueueKind} {s s' : Pcqueue τ α} {l : PcqueueLabel τ α}
    (ho : s.InOrder) (h : step k s l = some s') : s'.InOrder := by
  unfold InOrder at *
  cases l with
  | push t x =>
      simp only [step, Option.ite_none_right_eq_some, Option.some.injEq] at h
      obtain ⟨-, rfl⟩ := h
      simp [← ho]
  | pushN t xs =>
      simp only [step, Option.ite_none_right_eq_some, Option.some.injEq] at h
      obtain ⟨-, rfl⟩ := h
      simp [storeAll_eq, ← ho]
  | signal t =>
      simp only [step] at h
      split at h
      · rw [Option.some.injEq] at h
        exact h ▸ ho
      · rw [Option.ite_none_right_eq_some, Option.some.injEq] at h
        exact h.2 ▸ ho
      · exact absurd h (by simp)
  | wait t =>
      simp only [step, Option.ite_none_right_eq_some, Option.some.injEq] at h
      exact h.2 ▸ ho
  | pop t =>
      simp only [step, Option.ite_none_right_eq_some] at h
      obtain ⟨-, h⟩ := h
      split at h
      · rename_i x q hq
        rw [Option.some.injEq] at h
        subst h
        simp [← ho, hq]
      · rw [Option.some.injEq] at h
        exact h ▸ ho

/-- Only a pop from an empty queue faults. -/
theorem fault_of_step {k : PcqueueKind} {s s' : Pcqueue τ α} {l : PcqueueLabel τ α}
    (hb : s.Bounded) (hf : s.fault = false) (h : step k s l = some s') : s'.fault = false := by
  cases l with
  | pop t =>
      simp only [step, Option.ite_none_right_eq_some] at h
      obtain ⟨hpc, h⟩ := h
      split at h
      · rw [Option.some.injEq] at h
        exact h ▸ hf
      · rename_i hq
        exact absurd hq (hb.ne_nil hpc)
  | signal t =>
      simp only [step] at h
      split at h
      · rw [Option.some.injEq] at h
        exact h ▸ hf
      · rw [Option.ite_none_right_eq_some, Option.some.injEq] at h
        exact h.2 ▸ hf
      · exact absurd h (by simp)
  | _ =>
      simp only [step, Option.ite_none_right_eq_some, Option.some.injEq] at h
      exact h.2 ▸ hf

/-- The invariant of every run. -/
structure Inv (s : Pcqueue τ α) : Prop where
  bounded : s.Bounded
  inOrder : s.InOrder
  fault : s.fault = false

theorem inv_init : (init : Pcqueue τ α).Inv := by
  have hidle : total claimed (init : Pcqueue τ α).pc = 0 := total_eq_zero fun _ => rfl
  constructor
  · unfold Bounded
    rw [hidle]
    exact le_rfl
  · rfl
  · rfl

theorem inv_of_step {k : PcqueueKind} {s s' : Pcqueue τ α} {l : PcqueueLabel τ α} (hi : s.Inv)
    (h : step k s l = some s') : s'.Inv where
  bounded := (countStep_of_step hi.bounded h).bounded hi.bounded
  inOrder := inOrder_of_step hi.inOrder h
  fault := fault_of_step hi.bounded hi.fault h

theorem inv_of_exec {k : PcqueueKind} {ls : List (PcqueueLabel τ α)} {s : Pcqueue τ α}
    (hrun : exec (step k) init ls = some s) : s.Inv :=
  exec_invariant (fun _ _ _ hi h => inv_of_step hi h) inv_init hrun

/-- The invariant of the runs in which the semaphore never has to count more than it can. -/
structure Counted (s : Pcqueue τ α) : Prop where
  inv : s.Inv
  balanced : s.Balanced

theorem counted_of_step {k : PcqueueKind} {s s' : Pcqueue τ α} {l : PcqueueLabel τ α}
    (hs : s.Counted) (hfew : s.q.length ≤ k.maxValue) (h : step k s l = some s') : s'.Counted where
  inv := inv_of_step hs.inv h
  balanced := (countStep_of_step hs.inv.bounded h).balanced hs.balanced hfew

/-- While no more items are outstanding than the semaphore can count, no unit is lost: every item in
the queue has its unit, a signal to come, or a consumer. -/
theorem balanced_of_exec {k : PcqueueKind} {ls : List (PcqueueLabel τ α)} {s : Pcqueue τ α}
    (hfew : Meets (step k) (fun s _ => s.q.length ≤ k.maxValue) init ls)
    (hrun : exec (step k) init ls = some s) : s.Balanced := by
  have hinit : (init : Pcqueue τ α).Balanced :=
    Nat.le_antisymm inv_init.bounded (Nat.zero_le _)
  have hs : s.Counted :=
    exec_invariant_of_meets (fun _ _ _ hs hfew h => counted_of_step hs hfew h) ⟨inv_init, hinit⟩
      hfew hrun
  exact hs.balanced

/-! ## Correctness -/

/-- What a `pcqueue` is for, in one state of a run. -/
structure Correct (s : Pcqueue τ α) : Prop where
  /-- `q.front()` and `q.pop()` have not been executed on an empty queue. -/
  noFault : s.fault = false
  /-- Nor will they be by the threads that are past their wait. -/
  nonempty : ∀ t, s.pc t = .admitted → s.q ≠ []
  /-- The pops return the pushed values in the order of the sections: what has been popped and what is
  in the queue are together the blocks of the pushes, one after the other. -/
  order : s.pops.map Prod.snd ++ s.q = (s.pushes.map Prod.snd).flatten

/-- **`pcqueue` is correct under any schedule**, in both variants: for every mix of pushes, bulk
pushes and pops of any number of threads, and every interleaving. While fewer items are outstanding
than the semaphore counts (`2 ^ 32` for the class `semaphore`), no unit is lost either: the items
that no consumer has been let in for and no signal is to come for can be waited for. -/
theorem pcqueue_correct (k : PcqueueKind) {ls : List (PcqueueLabel τ α)} {s : Pcqueue τ α}
    (hrun : exec (step k) init ls = some s) :
    s.Correct ∧ s.pops.map Prod.snd <+: (s.pushes.map Prod.snd).flatten ∧
      (Meets (step k) (fun s _ => s.q.length ≤ k.maxValue) init ls →
        s.counter + total claimed s.pc = s.q.length) := by
  have hinv := inv_of_exec hrun
  refine ⟨⟨hinv.fault, fun t ht => hinv.bounded.ne_nil ht, hinv.inOrder⟩, ?_, ?_⟩
  · exact ⟨s.q, hinv.inOrder⟩
  · exact fun hfew => balanced_of_exec hfew hrun

/-- A bulk push of two and a push, with a consumer that is let in between the second push and its
signal; and over a `sem_t` two pushes that signal in the other order, with a consumer in between. -/
theorem pcqueue_correct_overlap :
    (∃ s : Pcqueue (Fin 3) Nat,
      exec (step .socket) init [.pushN 0 [7, 8], .signal 0, .push 1 9, .wait 2, .pop 2, .signal 1,
        .wait 0] = some s ∧
      s.q = [8, 9] ∧ s.pops = [(2, 7)] ∧ s.pc 0 = .admitted ∧ s.counter = 1 ∧ s.Correct ∧
      s.counter + total claimed s.pc = s.q.length) ∧
    ∃ s : Pcqueue (Fin 3) Nat,
      exec (step (.zmq (2 ^ 31 - 1))) init [.push 0 7, .push 1 8, .signal 1, .wait 2, .pop 2] =
        some s ∧
      s.q = [8] ∧ s.pops = [(2, 7)] ∧ s.pc 0 = .pushed ∧ s.counter = 0 ∧ s.Correct ∧
      s.counter + total claimed s.pc = s.q.length := by
  constructor
  · obtain ⟨s, hrun, hs⟩ := exists_exec (step .socket) (init : Pcqueue (Fin 3) Nat)
      [.pushN 0 [7, 8], .signal 0, .push 1 9, .wait 2, .pop 2, .signal 1, .wait 0]
      (fun s => decide (s.q = [8, 9] ∧ s.pops = [(2, 7)] ∧ s.pc 0 = .admitted ∧ s.counter = 1))
      (by decide)
    obtain ⟨hq, hpops, hpc, hcounter⟩ := of_decide_eq_true hs
    obtain ⟨hcorrect, -, hunits⟩ := pcqueue_correct .socket hrun
    exact ⟨s, hrun, hq, hpops, hpc, hcounter, hcorrect, hunits (by decide)⟩
  · obtain ⟨s, hrun, hs⟩ := exists_exec (step (.zmq (2 ^ 31 - 1))) (init : Pcqueue (Fin 3) Nat)
      [.push 0 7, .push 1 8, .signal 1, .wait 2, .pop 2]
      (fun s => decide (s.q = [8] ∧ s.pops = [(2, 7)] ∧ s.pc 0 = .pushed ∧ s.counter = 0)) (by decide)
    obtain ⟨hq, hpops, hpc, hcounter⟩ := of_decide_eq_true hs
    obtain ⟨hcorrect, -, hunits⟩ := pcqueue_correct (.zmq (2 ^ 31 - 1)) hrun
    exact ⟨s, hrun, hq, hpops, hpc, hcounter, hcorrect, hunits (by decide)⟩

end Pcqueue

end CommTest.Socket
