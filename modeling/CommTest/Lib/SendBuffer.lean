import CommTest.Lib.Ledger
import Mathlib.Data.List.Count
import Mathlib.Algebra.BigOperators.Fin

/-!
# The buffer of buffered sends

A process sends to several others over channels that keep the order, and each message stays in one
buffer of the process, oldest first, until it is received. Entries are given back from the front, up
to the first that is not received. An entry is named by its destination; `live c` is the number of
messages to `c` that are not received, and these are the youngest entries of `c`.

* `trim live buf` is what is left when the entries at the front are given back.
* `length_trim_le`: entries whose destinations have nothing else to receive are given back.
* `Covers.trim` and `Covers.total_le_length`: what is not received stays.
-/

namespace SendBuffer

open Ledger

universe u

variable {ι : Type u} [DecidableEq ι]

/-- The buffer, with the received messages at its front given back. -/
def trim (live : ι → Nat) : List ι → List ι
  | [] => []
  | c :: buf => if buf.count c < live c then c :: buf else trim live buf

/-- Every message that is not received is in the buffer. -/
def Covers (live : ι → Nat) (buf : List ι) : Prop := ∀ c, live c ≤ buf.count c

variable {live : ι → Nat}

/-- What is not received is not given back. -/
theorem Covers.trim {buf : List ι} (h : Covers live buf) : Covers live (trim live buf) := by
  induction buf with
  | nil => exact h
  | cons c buf ih =>
      unfold SendBuffer.trim
      by_cases hc : buf.count c < live c
      · rwa [if_pos hc]
      · rw [if_neg hc]
        apply ih
        intro d
        by_cases hd : d = c
        · subst hd
          omega
        · have hcov := h d
          rwa [List.count_cons_of_ne (Ne.symm hd)] at hcov

theorem length_trim_le_self (live : ι → Nat) (buf : List ι) : (trim live buf).length ≤ buf.length := by
  induction buf with
  | nil => exact le_refl _
  | cons c buf ih =>
      unfold trim
      split_ifs
      · exact le_refl _
      · exact ih.trans (Nat.le_succ _)

/-- Entries in front of a part that covers all that is not received are given back. -/
theorem length_trim_le {old new : List ι} (h : Covers live new) :
    (trim live (old ++ new)).length ≤ new.length := by
  induction old with
  | nil => exact length_trim_le_self live new
  | cons c old ih =>
      have hcov := h c
      rw [List.cons_append, trim, if_neg]
      · exact ih
      · rw [List.count_append]
        omega

/-- There are no fewer entries than messages that are not received. -/
theorem Covers.total_le_length [Fintype ι] {buf : List ι} (h : Covers live buf) :
    total id live ≤ buf.length := by
  have hcount : ∑ c, buf.count c = buf.length := by
    have hcard := Multiset.sum_count_eq_card (s := Finset.univ) (m := (buf : Multiset ι))
      fun c _ => Finset.mem_univ c
    simpa using hcard
  rw [← hcount]
  exact Finset.sum_le_sum fun c _ => h c

end SendBuffer
