import CommTest.Lib.Mem
import CommTest.Zmq.Application

/-!
# The two ways to receive a task

`recv` waits for the next item of `taskq`, `recv_async` does not. An item is two frames on the
`taskpull` socket, the internal id and the payload; the size that is returned is an `int`, into
which the length of the payload is converted.

* `recvMsg`, `recvMsgCid`, `recvMsgAsync` are the functions of `zmq_util.cpp`, `recv` and
  `recvAsync` the calls. The socket does not fail here; `none` says that a call waits.
* `appStep_recvDone`, `appStep_recvAsync`: the steps of the application threads do what these calls
  do, for payloads whose length fits in an `int`.
* `recv_recvAsync_iff`: when the two calls agree, and when they give the external id of the sender.
* `recvAsync_reports_iff`: when a call that returns `0` has taken nothing, and when a polling loop
  is given every item.
-/

set_option linter.unusedSectionVars false

namespace CommTest.Zmq

open Mem FairQueue Lts CommHandler

/-! ## The calls -/

/-- What a call leaves: its result, the two variables it was given by reference and the frames that
are still to be read. -/
structure Receipt where
  size : Int32
  cid : Cliid
  data : Bytes
  sock : List Bytes
  deriving DecidableEq

/-- The result, the data and the rest of the frames. Source: `zmq_util.cpp`, `recv_msg(sock, data)`.
-/
def recvMsg : List Bytes → Option (Int32 × Bytes × List Bytes)
  | [] => none
  | f :: sock => some (Int32.ofNat f.length, f, sock)

/-- Source: `zmq_util.cpp`, `recv_msg(sock, cid, data)`. -/
def recvMsgCid (cid : Cliid) (data : Bytes) : List Bytes → Option Receipt
  | [] => none
  | f :: sock =>
      if f.length ≠ 4 then some ⟨-1, cid, data, sock⟩
      else
        match recvMsg sock with
        | some (size, data', sock') => some ⟨size, (decode32 f).toInt32, data', sock'⟩
        | none => none

/-- With nothing to read `recv` of the socket gives 0 with `EAGAIN`; else it goes on as `recv_msg`
does. Source: `zmq_util.cpp`, `recv_msg_async`. -/
def recvMsgAsync (cid : Cliid) (data : Bytes) : List Bytes → Option Receipt
  | [] => some ⟨0, cid, data, []⟩
  | f :: sock => recvMsgCid cid data (f :: sock)

/-- The two values of `errcode` are those at the two tests, `junk` is what `incid` holds at first.
Source: `comm_handler.cpp`, `recv`. -/
def recv (errcode errcode' : Int) (junk cid : Cliid) (data : Bytes) (sock : List Bytes) :
    Option Receipt :=
  if errcode ≠ 0 then some ⟨-1, cid, data, sock⟩
  else
    (recvMsgCid junk data sock).map fun r =>
      { r with size := if errcode' ≠ 0 then -1 else r.size, cid := recvCid r.cid }

/-- Source: `comm_handler.cpp`, `recv_async`. -/
def recvAsync (errcode errcode' : Int) (junk cid : Cliid) (data : Bytes) (sock : List Bytes) :
    Option Receipt :=
  if errcode ≠ 0 then some ⟨-1, cid, data, sock⟩
  else
    (recvMsgAsync junk data sock).map fun r =>
      if r.size = 0 then { r with cid := cid }
      else { r with size := if errcode' ≠ 0 then -1 else r.size, cid := idi2e r.cid }

/-! ## Items -/

/-- The frames of the items of `taskq`, as `send_msg` writes them. -/
def frames (q : List (Cliid × Bytes)) : List Bytes := q.flatMap fun i => [encode32 i.1.toUInt32, i.2]

@[simp] theorem frames_nil : frames [] = [] := rfl

theorem frames_cons (i : Cliid × Bytes) (q : List (Cliid × Bytes)) :
    frames (i :: q) = encode32 i.1.toUInt32 :: i.2 :: frames q := rfl

theorem frames_append (q q' : List (Cliid × Bytes)) : frames (q ++ q') = frames q ++ frames q' :=
  List.flatMap_append

/-- The length of the payload is 0 as an `int`. -/
def Vanishes (payload : Bytes) : Prop := payload.length % 2 ^ 32 = 0

instance (payload : Bytes) : Decidable (Vanishes payload) := inferInstanceAs (Decidable (_ = _))

theorem ofNat_eq_zero_iff (n : Nat) : Int32.ofNat n = 0 ↔ n % 2 ^ 32 = 0 := by
  rw [← Int32.toBitVec_inj]
  show BitVec.ofNat 32 n = 0#32 ↔ _
  rw [← BitVec.toNat_inj, BitVec.toNat_ofNat, BitVec.toNat_ofNat]

section

variable {junk cid incid : Cliid} {data payload : Bytes} {q : List (Cliid × Bytes)}

theorem recvMsgCid_frames :
    recvMsgCid junk data (frames ((incid, payload) :: q)) =
      some ⟨Int32.ofNat payload.length, incid, payload, frames q⟩ := by
  simp only [frames_cons, recvMsgCid, recvMsg, length_encode32, ne_eq, not_true_eq_false, if_false,
    decode32_encode32]
  rfl

/-- **`recv` on an item.** -/
theorem recv_frames :
    recv 0 0 junk cid data (frames ((incid, payload) :: q)) =
      some ⟨Int32.ofNat payload.length, recvCid incid, payload, frames q⟩ := by
  unfold recv
  rw [if_neg (by decide), recvMsgCid_frames]
  rfl

/-- **`recv_async` on an item**: the item is taken in any case. -/
theorem recvAsync_frames :
    recvAsync 0 0 junk cid data (frames ((incid, payload) :: q)) =
      some (if Vanishes payload then ⟨0, cid, payload, frames q⟩
        else ⟨Int32.ofNat payload.length, idi2e incid, payload, frames q⟩) := by
  have hasync : recvMsgAsync junk data (frames ((incid, payload) :: q)) =
      recvMsgCid junk data (frames ((incid, payload) :: q)) := rfl
  unfold recvAsync
  rw [if_neg (by decide), hasync, recvMsgCid_frames, Option.map_some]
  by_cases h : Vanishes payload
  · have hsize := (ofNat_eq_zero_iff payload.length).mpr h
    simp only [hsize, if_true, if_pos h]
  · have hsize : ¬ Int32.ofNat payload.length = 0 := mt (ofNat_eq_zero_iff payload.length).mp h
    simp only [hsize, if_false, if_neg h]
    rfl

theorem recvAsync_nil : recvAsync 0 0 junk cid data [] = some ⟨0, cid, data, []⟩ := rfl

/-! ## The steps of the application threads -/

section

variable {τ : Type} [DecidableEq τ] {s : CommHandler τ} {t : τ} {k : Nat} {m : Msg τ}
  {pipes : List (τ × Nat × Cliid × Msg τ)}

theorem toInt_length {payload : Bytes} (hlen : payload.length < 2 ^ 31) :
    (Int32.ofNat payload.length).toInt = payload.length :=
  Int32.toInt_ofNat_of_lt hlen

/-- The end of a `recv` is what the call does with the item. -/
theorem appStep_recvDone (hpc : s.app t = .receiving)
    (hpop : FairQueue.pop t s.taskPipes = some ((k, incid, m), pipes))
    (hlen : m.data.length < 2 ^ 31) (junk cid : Cliid) (data : Bytes) :
    ∃ r, recv 0 0 junk cid data (frames [(incid, m.data)]) = some r ∧
      s.appStep t .recvDone = some ({ s with
        taskPipes := pipes
        received := s.received ++ [(k, t, r.cid, r.data)] }.goto t (.testing .recv r.size.toInt)) := by
  refine ⟨_, recv_frames, ?_⟩
  simp only [appStep, hpc, hpop, toInt_length hlen]

/-- A `recv_async` is what the call does with the item. -/
theorem appStep_recvAsync (hpc : s.app t = .idle) (herr : s.errcode = 0)
    (hpop : FairQueue.pop t s.taskPipes = some ((k, incid, m), pipes))
    (hlen : m.data.length < 2 ^ 31) (junk cid : Cliid) (data : Bytes) :
    ∃ r, recvAsync 0 0 junk cid data (frames [(incid, m.data)]) = some r ∧
      s.appStep t .recvAsync = some (
        if r.size = 0 then { s.attachTask t with taskPipes := pipes }.ret t .recvAsync 0
        else { s.attachTask t with
          taskPipes := pipes
          received := s.received ++ [(k, t, r.cid, r.data)] }.goto t
            (.testing .recvAsync r.size.toInt)) := by
  refine ⟨_, recvAsync_frames, ?_⟩
  have hvanish : Vanishes m.data ↔ m.data = [] := by
    unfold Vanishes
    rw [Nat.mod_eq_of_lt (by omega), List.length_eq_zero_iff]
  by_cases hnil : m.data = []
  · rw [if_pos (hvanish.mpr hnil)]
    simp only [appStep, hpc, herr, hpop, hnil, ne_eq, not_true_eq_false, if_false, if_true]
  · have hsize : ¬ Int32.ofNat m.data.length = 0 := by
      rw [ofNat_eq_zero_iff]
      exact mt hvanish.mp hnil
    simp only [appStep, hpc, herr, hpop, hvanish, hnil, hsize, toInt_length hlen, ne_eq,
      not_true_eq_false, if_false]

end

/-! ## Ids -/

theorem toInt_idi2e (x : Cliid) : (idi2e x).toInt = x.toInt / 16 := by
  have h : (idi2e x).toInt = (idi2e x).toBitVec.toInt := rfl
  rw [h, toBitVec_idi2e, BitVec.toInt_sshiftRight, Int.shiftRight_eq_div_pow]
  rfl

/-- An external id is below `2^27`, whatever the internal one is. -/
theorem idi2e_lt (x : Cliid) : idi2e x < 134217728 := by
  have hx := x.toInt_lt
  rw [Int32.lt_iff_toInt_lt, toInt_idi2e]
  show x.toInt / 16 < 134217728
  omega

/-- The translation of `recv` and that of `recv_async`. -/
theorem recvCid_eq_idi2e_iff (incid : Cliid) :
    recvCid incid = idi2e incid ↔ 0 ≤ incid ∨ incid = -1 := by
  have hzero : 0 ≤ incid ↔ 0 ≤ incid.toInt := Int32.le_iff_toInt_le
  have hone : incid = -1 ↔ incid.toInt = -1 := Int32.toInt_inj.symm
  unfold recvCid
  by_cases h : 0 ≤ incid
  · rw [if_pos h]
    exact ⟨fun _ => .inl h, fun _ => rfl⟩
  · rw [if_neg h, ← Int32.toInt_inj, toInt_idi2e, hone]
    rw [hzero] at h
    rw [hzero]
    omega

/-- The id of the sender is given back exactly below `2^27`. -/
theorem recvCid_ide2i_iff {x : Cliid} (hx : 0 ≤ x) : recvCid (ide2i x) = x ↔ x < 134217728 := by
  constructor
  · intro h
    unfold recvCid at h
    by_cases hneg : 0 ≤ ide2i x
    · rw [if_pos hneg] at h
      exact h ▸ idi2e_lt _
    · rw [if_neg hneg] at h
      rw [h] at hneg
      exact absurd hx hneg
  · intro h
    have hext : ExtId x := ⟨hx, h⟩
    unfold recvCid
    rw [if_pos (ide2i_nonneg hext), idi2e_ide2i hext]

/-! ## The two calls side by side -/

/-- **When `recv` and `recv_async` agree**: on every queue with an item they both return; they leave
the same exactly when the internal id is not negative or -1, and the length of the payload is not 0
as an `int` (or the variable held that id before). For an item of the node or group `x` they also
give `x` back exactly when `x` is below `2^27`. -/
theorem recv_recvAsync_iff (junk junk' cid incid : Cliid) (data payload : Bytes)
    (q : List (Cliid × Bytes)) :
    ∃ r r', recv 0 0 junk cid data (frames ((incid, payload) :: q)) = some r ∧
      recvAsync 0 0 junk' cid data (frames ((incid, payload) :: q)) = some r' ∧
      (r = r' ↔ if Vanishes payload then cid = recvCid incid else 0 ≤ incid ∨ incid = -1) ∧
      ∀ x, 0 ≤ x → incid = ide2i x →
        ((r = r' ∧ r.cid = x) ↔ x < 134217728 ∧ (Vanishes payload → cid = x)) := by
  refine ⟨_, _, recv_frames, recvAsync_frames, ?_⟩
  by_cases hv : Vanishes payload
  · have hsize := (ofNat_eq_zero_iff payload.length).mpr hv
    simp only [hv, if_true, hsize, Receipt.mk.injEq, true_and, and_true, forall_const]
    refine ⟨eq_comm, ?_⟩
    rintro x hx rfl
    rw [recvCid_ide2i_iff hx]
    constructor
    · rintro ⟨hcid, hlt⟩
      exact ⟨hlt, hcid.symm.trans ((recvCid_ide2i_iff hx).mpr hlt)⟩
    · rintro ⟨hlt, rfl⟩
      exact ⟨(recvCid_ide2i_iff hx).mpr hlt, hlt⟩
  · simp only [hv, if_false, Receipt.mk.injEq, true_and, and_true, false_implies]
    refine ⟨recvCid_eq_idi2e_iff incid, ?_⟩
    rintro x hx rfl
    rw [recvCid_ide2i_iff hx, recvCid_eq_idi2e_iff]
    constructor
    · exact fun h => h.2
    · exact fun h => ⟨.inl (ide2i_nonneg ⟨hx, h⟩), h⟩

/-- The node `2^27` has a negative internal id: `recv` gives that one back, `recv_async` its shift,
and neither is the id of the node. -/
theorem recv_recvAsync_large :
    ∃ r r', recv 0 0 0 0 [] (frames [(ide2i 134217728, [1])]) = some r ∧
      recvAsync 0 0 0 0 [] (frames [(ide2i 134217728, [1])]) = some r' ∧
      r.cid = -2147483647 ∧ r'.cid = -134217728 := by
  refine ⟨_, _, recv_frames, recvAsync_frames, ?_⟩
  decide

/-- Node 2 and a payload of one byte. -/
theorem recv_recvAsync_two :
    0 ≤ (2 : Cliid) ∧ ∃ r r', recv 0 0 0 0 [] (frames [(ide2i 2, [1])]) = some r ∧
      recvAsync 0 0 0 0 [] (frames [(ide2i 2, [1])]) = some r' ∧
      ((r = r' ∧ r.cid = 2) ↔ (2 : Cliid) < 134217728 ∧ (Vanishes [1] → (0 : Cliid) = 2)) := by
  obtain ⟨r, r', hr, hr', -, hx⟩ := recv_recvAsync_iff 0 0 0 (ide2i 2) [] [1] []
  exact ⟨by decide, r, r', hr, hr', hx 2 (by decide) rfl⟩

/-- **One call of `recv_async`**: what it reports fits the queue exactly when the payload of the
first item does not have the length 0 as an `int`. -/
theorem recvAsync_call_iff (junk cid : Cliid) (data : Bytes) (q : List (Cliid × Bytes)) :
    ∃ r, recvAsync 0 0 junk cid data (frames q) = some r ∧
      (((r.size = 0 ↔ q = []) ∧ (r.size = 0 → r.sock = frames q)) ↔
        ∀ i, q.head? = some i → ¬ Vanishes i.2) := by
  cases q with
  | nil =>
      refine ⟨_, recvAsync_nil, ?_⟩
      exact ⟨fun _ i hi => absurd hi (by simp), fun _ => ⟨⟨fun _ => rfl, fun _ => rfl⟩, fun _ => rfl⟩⟩
  | cons i q =>
      obtain ⟨incid, payload⟩ := i
      refine ⟨_, recvAsync_frames, ?_⟩
      simp only [List.head?_cons, Option.some.injEq, reduceCtorEq, iff_false]
      by_cases hv : Vanishes payload
      · rw [if_pos hv]
        exact ⟨fun h => absurd rfl h.1, fun h => absurd hv (h _ rfl)⟩
      · have hsize : ¬ Int32.ofNat payload.length = 0 := mt (ofNat_eq_zero_iff payload.length).mp hv
        rw [if_neg hv]
        exact ⟨fun _ i hi => hi ▸ hv, fun _ => ⟨hsize, fun h => absurd h hsize⟩⟩

end

/-! ## The polling loop -/

/-- A caller of `recv_async`: its socket, its two variables, and what it has been given by the calls
that did not return 0. -/
structure Poller where
  sock : List Bytes
  cid : Cliid
  data : Bytes
  yielded : List (Cliid × Bytes)

/-- An item comes in, or the caller calls. -/
inductive PollEvent
  | arrive (i : Cliid × Bytes)
  | call (junk : Cliid)

namespace Poller

/-- One event. -/
def step (p : Poller) : PollEvent → Option Poller
  | .arrive i => some { p with sock := p.sock ++ frames [i] }
  | .call junk =>
      (recvAsync 0 0 junk p.cid p.data p.sock).map fun r : Receipt =>
        { sock := r.sock, cid := r.cid, data := r.data,
          yielded := if r.size = 0 then p.yielded else p.yielded ++ [(r.cid, r.data)] }

/-- A caller with the items `q` to come. -/
def start (cid : Cliid) (data : Bytes) (q : List (Cliid × Bytes)) : Poller := ⟨frames q, cid, data, []⟩

/-- The items that come in. -/
def arrivals (evs : List PollEvent) : List (Cliid × Bytes) :=
  evs.filterMap fun | .arrive i => some i | .call _ => none

/-- An item as the caller is given it. -/
def given (i : Cliid × Bytes) : Cliid × Bytes := (idi2e i.1, i.2)

/-- What is given out of the items that have been taken. -/
def givenOf (taken : List (Cliid × Bytes)) : List (Cliid × Bytes) :=
  (taken.filter fun i => ¬ Vanishes i.2).map given

theorem givenOf_append (t t' : List (Cliid × Bytes)) :
    givenOf (t ++ t') = givenOf t ++ givenOf t' := by
  unfold givenOf
  rw [List.filter_append, List.map_append]

theorem givenOf_eq_iff (t : List (Cliid × Bytes)) :
    givenOf t = t.map given ↔ ∀ i ∈ t, ¬ Vanishes i.2 := by
  unfold givenOf
  constructor
  · intro h i hi
    have hlen := congrArg List.length h
    rw [List.length_map, List.length_map, List.length_filter_eq_length_iff] at hlen
    exact of_decide_eq_true (hlen i hi)
  · intro h
    rw [List.filter_eq_self.mpr fun i hi => decide_eq_true (h i hi)]

variable {p : Poller} {q : List (Cliid × Bytes)}

/-- **One call** takes the first item if there is one. -/
theorem step_call (hp : p.sock = frames q) (junk : Cliid) :
    ∃ p', p.step (.call junk) = some p' ∧ p'.sock = frames (q.drop 1) ∧
      p'.yielded = p.yielded ++ givenOf (q.take 1) := by
  cases q with
  | nil =>
      refine ⟨p, ?_, hp, (List.append_nil _).symm⟩
      cases p
      cases hp
      rfl
  | cons i q =>
      obtain ⟨incid, payload⟩ := i
      unfold step
      rw [hp]
      simp only [recvAsync_frames, Option.map_some, Option.some.injEq, exists_eq_left',
        List.drop_one, List.tail_cons]
      by_cases hv : Vanishes payload
      · simp [hv, givenOf]
      · have hsize : ¬ Int32.ofNat payload.length = 0 := mt (ofNat_eq_zero_iff payload.length).mp hv
        simp [hv, hsize, givenOf, given]

/-- **Calls in a row** take the items from the front. -/
theorem exec_calls (hp : p.sock = frames q) (js : List Cliid) :
    ∃ p', exec step p (js.map .call) = some p' ∧ p'.sock = frames (q.drop js.length) ∧
      p'.yielded = p.yielded ++ givenOf (q.take js.length) := by
  induction js generalizing p q with
  | nil => exact ⟨p, rfl, hp, (List.append_nil _).symm⟩
  | cons j js ih =>
      obtain ⟨p1, hstep, hsock, hyield⟩ := step_call hp j
      obtain ⟨p2, hrun, hsock', hyield'⟩ := ih hsock
      refine ⟨p2, exec_cons_eq_some.mpr ⟨p1, hstep, hrun⟩, ?_, ?_⟩
      · rw [hsock', List.drop_drop, List.length_cons, Nat.add_comm]
      · rw [hyield', hyield, List.append_assoc, ← givenOf_append, ← List.take_add, List.length_cons,
          Nat.add_comm]

/-- **Any sequence of arrivals and calls**: what has come in is what has been taken, then what is
still there. -/
theorem exec_events (hp : p.sock = frames q) (evs : List PollEvent) :
    ∃ p' taken rest, exec step p evs = some p' ∧ q ++ arrivals evs = taken ++ rest ∧
      p'.sock = frames rest ∧ p'.yielded = p.yielded ++ givenOf taken := by
  induction evs generalizing p q with
  | nil => exact ⟨p, [], q, rfl, by simp [arrivals], hp, (List.append_nil _).symm⟩
  | cons e evs ih =>
      cases e with
      | arrive i =>
          have hsock : p.sock ++ frames [i] = frames (q ++ [i]) := by rw [hp, frames_append]
          obtain ⟨p', taken, rest, hrun, hall, hrest⟩ :=
            ih (p := { p with sock := p.sock ++ frames [i] }) hsock
          refine ⟨p', taken, rest, exec_cons_eq_some.mpr ⟨_, rfl, hrun⟩, ?_, hrest⟩
          rw [← hall, List.append_assoc, List.singleton_append]
          rfl
      | call junk =>
          obtain ⟨p1, hstep, hsock, hyield⟩ := step_call hp junk
          obtain ⟨p', taken, rest, hrun, hall, hrest, hyield'⟩ := ih hsock
          refine ⟨p', q.take 1 ++ taken, rest, exec_cons_eq_some.mpr ⟨p1, hstep, hrun⟩, ?_, hrest, ?_⟩
          · rw [List.append_assoc, ← hall, ← List.append_assoc, List.take_append_drop]
            rfl
          · rw [hyield', hyield, List.append_assoc, ← givenOf_append]

end Poller

/-- **When `recv_async` reports what it does**: for every queue, a call returns; it returns 0
exactly on the empty queue and leaves the queue as it is when it returns 0, if and only if the first
payload does not have the length 0 as an `int`. In every sequence of arrivals and calls, what the
calls have given out, followed by what is still queued, is what came in, if and only if none of the
payloads that were taken has such a length; and enough calls on a queue give out its items, all of
them in order, if and only if none of them has. -/
theorem recvAsync_reports_iff (cid : Cliid) (data : Bytes) (q : List (Cliid × Bytes)) :
    (∀ junk, ∃ r, recvAsync 0 0 junk cid data (frames q) = some r ∧
      (((r.size = 0 ↔ q = []) ∧ (r.size = 0 → r.sock = frames q)) ↔
        ∀ i, q.head? = some i → ¬ Vanishes i.2)) ∧
    (∀ evs, ∃ p taken rest, exec Poller.step (.start cid data q) evs = some p ∧
      q ++ Poller.arrivals evs = taken ++ rest ∧ p.sock = frames rest ∧
      (p.yielded ++ rest.map Poller.given = (q ++ Poller.arrivals evs).map Poller.given ↔
        ∀ i ∈ taken, ¬ Vanishes i.2)) ∧
    ∀ js : List Cliid, q.length ≤ js.length →
      ∃ p, exec Poller.step (.start cid data q) (js.map .call) = some p ∧ p.sock = [] ∧
        (p.yielded = q.map Poller.given ↔ ∀ i ∈ q, ¬ Vanishes i.2) := by
  refine ⟨fun junk => recvAsync_call_iff junk cid data q, ?_, ?_⟩
  · intro evs
    obtain ⟨p, taken, rest, hrun, hall, hsock, hyield⟩ :=
      Poller.exec_events (p := .start cid data q) rfl evs
    refine ⟨p, taken, rest, hrun, hall, hsock, ?_⟩
    rw [hyield, hall, List.map_append, ← Poller.givenOf_eq_iff]
    exact List.append_left_inj _
  · intro js hjs
    obtain ⟨p, hrun, hsock, hyield⟩ := Poller.exec_calls (p := .start cid data q) rfl js
    rw [List.drop_eq_nil_of_le hjs] at hsock
    rw [List.take_of_length_le hjs] at hyield
    refine ⟨p, hrun, hsock, ?_⟩
    rw [hyield, ← Poller.givenOf_eq_iff]
    rfl

/-- One item with a payload of one byte, and one call. -/
theorem recvAsync_reports_one :
    [(ide2i 2, ([1] : Bytes))].length ≤ [(0 : Cliid)].length ∧
    ∃ p, exec Poller.step (.start 9 [] [(ide2i 2, [1])]) ([0].map .call) = some p ∧ p.sock = [] ∧
      (p.yielded = [(ide2i 2, ([1] : Bytes))].map Poller.given ↔
        ∀ i ∈ [(ide2i 2, ([1] : Bytes))], ¬ Vanishes i.2) :=
  ⟨by decide, (recvAsync_reports_iff 9 [] [(ide2i 2, [1])]).2.2 [0] (by decide)⟩

/-- An empty payload is taken and reported as nothing. -/
theorem recvAsync_empty_payload :
    recvAsync 0 0 7 9 [] (frames [(ide2i 2, []), (ide2i 3, [1])]) =
        some ⟨0, 9, [], frames [(ide2i 3, [1])]⟩ ∧
      frames [(ide2i 3, [1])] ≠ frames [(ide2i 2, []), (ide2i 3, [1])] := by
  decide

end CommTest.Zmq
