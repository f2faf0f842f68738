import Mathlib.Data.List.Basic
import Mathlib.Tactic.SplitIfs

/-!
# Fair queues

A receiver that is fed by many senders, each over its own FIFO pipe, and that takes its next
message from any pipe that is not empty. The pipes are kept in one list of keyed messages, oldest
first:

* `pipe k q` is what is left in the pipe of sender `k`;
* `pop k q` takes the oldest message of `k` out.

`pop_pipe` and `pop_pipe_ne` say what a receive does to the pipes: it takes the head of one of them
and leaves the others alone. Nothing is said of the order between pipes.
-/

namespace FairQueue

universe u v

variable {κ : Type u} {α : Type v} [DecidableEq κ]

/-- The messages of sender `k` still in the queue, oldest first. -/
def pipe (k : κ) (q : List (κ × α)) : List α := q.filterMap fun e => if e.1 = k then some e.2 else none

/-- Take the oldest message of sender `k` out of the queue. -/
def pop (k : κ) : List (κ × α) → Option (α × List (κ × α))
  | [] => none
  | e :: q => if e.1 = k then some (e.2, q) else (pop k q).map fun r => (r.1, e :: r.2)

/-! ## Pipes -/

@[simp] theorem pipe_nil (k : κ) : pipe k ([] : List (κ × α)) = [] := rfl

@[simp] theorem pipe_cons (k : κ) (e : κ × α) (q : List (κ × α)) :
    pipe k (e :: q) = if e.1 = k then e.2 :: pipe k q else pipe k q := by
  by_cases h : e.1 = k <;> simp [pipe, h]

@[simp] theorem pipe_append (k : κ) (q r : List (κ × α)) :
    pipe k (q ++ r) = pipe k q ++ pipe k r := by
  simp [pipe, List.filterMap_append]

theorem mem_pipe {k : κ} {a : α} {q : List (κ × α)} : a ∈ pipe k q ↔ (k, a) ∈ q := by
  constructor
  · intro h
    simp only [pipe, List.mem_filterMap] at h
    obtain ⟨⟨k', a'⟩, hmem, he⟩ := h
    split_ifs at he with hk
    cases he
    cases hk
    exact hmem
  · intro h
    simp only [pipe, List.mem_filterMap]
    exact ⟨(k, a), h, by simp⟩

/-- What holds of everything in a queue and of one more message holds after it is sent. -/
theorem forall_mem_concat {β : Type*} {P : β → Prop} {q : List β} {a : β} (hq : ∀ e ∈ q, P e)
    (ha : P a) : ∀ e ∈ q ++ [a], P e := by
  intro e he
  rcases List.mem_append.mp he with he | he
  · exact hq e he
  · rw [List.mem_singleton.mp he]
    exact ha

/-! ## Receives -/

/-- A receive from `k` cuts the queue at the first message of `k`. -/
theorem pop_split {k : κ} {a : α} {q q' : List (κ × α)} (h : pop k q = some (a, q')) :
    ∃ l r, q = l ++ (k, a) :: r ∧ q' = l ++ r ∧ pipe k l = [] := by
  induction q generalizing q' with
  | nil => simp [pop] at h
  | cons e q ih =>
      by_cases he : e.1 = k
      · simp only [pop, he, if_true, Option.some.injEq, Prod.mk.injEq] at h
        obtain ⟨rfl, rfl⟩ := h
        refine ⟨[], q, ?_, rfl, rfl⟩
        simp [← he]
      · simp only [pop, he, if_false, Option.map_eq_some_iff] at h
        obtain ⟨⟨b, q₁⟩, hq, hr⟩ := h
        simp only [Prod.mk.injEq] at hr
        obtain ⟨rfl, rfl⟩ := hr
        obtain ⟨l, r, rfl, rfl, hl⟩ := ih hq
        exact ⟨e :: l, r, rfl, rfl, by simp [he, hl]⟩

/-- The queue before a receive is the message received and the queue after it. -/
theorem pop_perm {k : κ} {a : α} {q q' : List (κ × α)} (h : pop k q = some (a, q')) :
    q.Perm ((k, a) :: q') := by
  obtain ⟨l, r, rfl, rfl, -⟩ := pop_split h
  exact List.perm_middle

/-- A receive takes the head of the pipe it reads. -/
theorem pop_pipe {k : κ} {a : α} {q q' : List (κ × α)} (h : pop k q = some (a, q')) :
    pipe k q = a :: pipe k q' := by
  obtain ⟨l, r, rfl, rfl, hl⟩ := pop_split h
  simp [hl]

/-- A receive leaves the other pipes alone. -/
theorem pop_pipe_ne {k k' : κ} {a : α} {q q' : List (κ × α)} (hk : k' ≠ k)
    (h : pop k q = some (a, q')) : pipe k' q' = pipe k' q := by
  obtain ⟨l, r, rfl, rfl, -⟩ := pop_split h
  simp [Ne.symm hk]

/-- A receive does not fill an empty pipe. -/
theorem pipe_eq_nil_of_pop {k k' : κ} {a : α} {q q' : List (κ × α)} (h : pop k q = some (a, q'))
    (hnil : pipe k' q = []) : pipe k' q' = [] := by
  obtain ⟨l, r, rfl, rfl, -⟩ := pop_split h
  simp only [pipe_append, pipe_cons, List.append_eq_nil_iff] at hnil ⊢
  refine ⟨hnil.1, ?_⟩
  have h2 := hnil.2
  split_ifs at h2
  exact h2

/-- The message received was in the queue. -/
theorem mem_of_pop {k : κ} {a : α} {q q' : List (κ × α)} (h : pop k q = some (a, q')) :
    (k, a) ∈ q := by
  obtain ⟨l, r, rfl, rfl, -⟩ := pop_split h
  simp

/-- A receive from a queue that carries more with every message. -/
theorem pop_map {β : Type*} (f : α → β) (k : κ) (q : List (κ × α)) :
    pop k (q.map fun e => (e.1, f e.2)) =
      (pop k q).map fun r => (f r.1, r.2.map fun e => (e.1, f e.2)) := by
  induction q with
  | nil => rfl
  | cons e q ih =>
      by_cases he : e.1 = k
      · simp [pop, he]
      · simp [pop, he, ih, Function.comp_def]

/-- A receive brings nothing new into the queue. -/
theorem mem_of_mem_pop {k : κ} {a : α} {q q' : List (κ × α)} (h : pop k q = some (a, q'))
    {e : κ × α} (he : e ∈ q') : e ∈ q := by
  obtain ⟨l, r, rfl, rfl, -⟩ := pop_split h
  simp only [List.mem_append, List.mem_cons] at he ⊢
  rcases he with he | he
  · exact Or.inl he
  · exact Or.inr (Or.inr he)

end FairQueue
