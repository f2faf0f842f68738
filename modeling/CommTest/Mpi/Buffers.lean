import CommTest.Lib.SendBuffer
import CommTest.Mpi.Protocol

/-!
# The send buffers of the scheduler

`initcomm` attaches a buffer of `MPIBUFSIZE` bytes to each process and makes errors of MPI return
codes, and nothing looks at the code of `MPI_Bsend`: a message that it refuses is gone. In `Sched` no
message is refused. Here is what that asks for.

The library is not part of the program, so what `MPI_Bsend` answers is in the label. Of the answers it
is assumed what the MPI standard promises (`Provides`): MPI buffers as much as if the messages lay one
behind the other in the attached buffer, each with `MPI_BSEND_OVERHEAD` bytes, and were given back in
this order once their communication is completed; a library may buffer more. A communication counts
as completed when its message is received.

* `Buffered` is the scheduler with the destinations of what the server has sent; a client sends to the
  server only. `Buffered.step` is `Sched.step`, except that a message that `MPI_Bsend` refuses is lost.
  A heartbeat goes out with `MPI_Send` and is never lost.
* `buffered_exact_iff`: the runs of the two are the same for everything the standard lets a library do
  if and only if the buffer holds all the tasks of a round.
* `Short` is a round that has lost a message. It never ends (`short_of_step`), and so
  `roundsEnd_iff`: whatever the library has answered, the round can be led to its end if and only if
  the buffer holds its tasks.
-/

set_option linter.unusedSectionVars false

namespace CommTest.Mpi

open Lts Ledger SendBuffer

/-! ## Buffered sends -/

/-- `MPIBUFSIZE`. -/
def mpibufsize : Nat := 1024 * 1024 * 256

/-- `pending` messages and one more fit into the buffer. `overhead` is `MPI_BSEND_OVERHEAD`, what MPI
adds to each message at most. -/
def Room (overhead pending : Nat) : Prop := (pending + 1) * (msgsize + overhead) ≤ mpibufsize

instance (overhead pending : Nat) : Decidable (Room overhead pending) :=
  inferInstanceAs (Decidable (_ ≤ _))

/-- The buffer holds all the tasks of a round. -/
def Ample (overhead : Nat) (cfg : Config) : Prop :=
  cfg.machines * cfg.thrdpm * (msgsize + overhead) ≤ mpibufsize

theorem Room.mono {overhead pending pending' : Nat} (h : Room overhead pending)
    (hle : pending' ≤ pending) : Room overhead pending' :=
  (Nat.mul_le_mul_right _ (by omega)).trans h

theorem Ample.room {overhead : Nat} {cfg : Config} (h : Ample overhead cfg) {pending : Nat}
    (hlt : pending < cfg.machines * cfg.thrdpm) : Room overhead pending :=
  (Nat.mul_le_mul_right _ hlt).trans h

/-- A buffer that holds the tasks of a round has fewer of them than an `int` holds. -/
theorem Ample.fits {overhead : Nat} {cfg : Config} (h : Ample overhead cfg) : cfg.Fits := by
  have hsize : 1 ≤ msgsize + overhead := Nat.le_trans (by decide) (Nat.le_add_right msgsize overhead)
  have hle := (Nat.le_mul_of_pos_right (cfg.machines * cfg.thrdpm) hsize).trans h
  have hbuf : mpibufsize < 2 ^ 31 := by decide
  exact lt_of_le_of_lt hle hbuf

namespace Sched

variable {cfg : Config}

/-- The messages to `c` that `c` has not received. -/
def live (s : Sched cfg) (c : Fin cfg.machines) : Nat := (s.machine c).down.length

/-- The client the server is about to send a task to. -/
def dest (s : Sched cfg) : Option (Fin cfg.machines) :=
  match s.server with
  | .send i j => if h : i < cfg.machines then if j < cfg.thrdpm then some ⟨i, h⟩ else none else none
  | _ => none

/-- A step that calls `MPI_Bsend`, when the call returns an error: the thread goes on and the message is
gone. `none` when the step makes no such call. Source: `scheduler.cpp`, `server_sendtestmsg` and
`client_sendtestmsg_wt_buffer`. -/
def lose (s : Sched cfg) : SchedLabel cfg → Option (Sched cfg)
  | .next =>
      match s.server with
      | .send i j =>
          if i < cfg.machines ∧ j < cfg.thrdpm then
            some { s with
              server := .send i (j + 1), outmsg := s.outmsg + 1,
              roundSent := s.roundSent ++ [s.outmsg] }
          else none
      | _ => none
  | .machine c .reply =>
      match (s.machine c).client with
      | .returning _ => some (s.setMachine c { s.machine c with client := .polling })
      | _ => none
  | _ => none

end Sched

/-- A step of the scheduler, and whether the `MPI_Bsend` in it, if there is one, returns an error. -/
structure BsendLabel (cfg : Config) where
  label : SchedLabel cfg
  refused : Bool

/-- The scheduler and the destinations of what the server has sent and MPI may not have given back,
oldest first. -/
structure Buffered (cfg : Config) where
  sched : Sched cfg
  buf : List (Fin cfg.machines)

namespace Buffered

variable {cfg : Config}

def init (cfg : Config) : Buffered cfg where
  sched := Sched.init cfg
  buf := []

/-- What the server has sent, from the oldest message on that is not received. -/
def trimmed (b : Buffered cfg) : List (Fin cfg.machines) := trim b.sched.live b.buf

/-- The messages the process that moves has sent with `MPI_Bsend`, from the oldest on that is not
received. -/
def pending (b : Buffered cfg) : SchedLabel cfg → Nat
  | .machine c _ => (acks (b.sched.machine c).up).length
  | _ => b.trimmed.length

/-- The messages of the server behind a step that sends. -/
def push (b : Buffered cfg) : SchedLabel cfg → List (Fin cfg.machines)
  | .next => b.trimmed ++ b.sched.dest.toList
  | _ => b.buf

/-- One step of the scheduler with its buffers. -/
def step (crc : List UInt8 → UInt32) (cfg : Config) (b : Buffered cfg) (l : BsendLabel cfg) :
    Option (Buffered cfg) :=
  match b.sched.lose l.label with
  | none => (Sched.step crc cfg b.sched l.label).map fun s => { b with sched := s }
  | some lost =>
      if l.refused then some { b with sched := lost }
      else (Sched.step crc cfg b.sched l.label).map fun s => { sched := s, buf := b.push l.label }

/-- **What the MPI standard promises** of the attached buffer: `MPI_Bsend` returns no error when the
messages of the process from the oldest one on that is not received, and the new one, fit into it. -/
def Provides (overhead : Nat) (b : Buffered cfg) (l : BsendLabel cfg) : Prop :=
  Room overhead (b.pending l.label) → l.refused = false

end Buffered

/-! ## What a step can do -/

namespace Sched

variable {cfg : Config}

/-- The sends, and what they leave when the message is lost. -/
inductive Lose (s : Sched cfg) : SchedLabel cfg → Sched cfg → Prop
  | send {i j} (hs : s.server = .send i j) (hi : i < cfg.machines) (hj : j < cfg.thrdpm) :
      Lose s .next
        { s with
          server := .send i (j + 1), outmsg := s.outmsg + 1, roundSent := s.roundSent ++ [s.outmsg] }
  | reply {c p} (hc : (s.machine c).client = .returning p) :
      Lose s (.machine c .reply) (s.setMachine c { s.machine c with client := .polling })

theorem lose_of_eq {s t : Sched cfg} {l : SchedLabel cfg} (h : s.lose l = some t) : Lose s l t := by
  unfold lose at h
  split at h
  · split at h
    · split_ifs at h with hlt
      cases h
      exact .send ‹_› hlt.1 hlt.2
    · cases h
  · split at h <;> cases h
    exact .reply ‹_›
  · cases h

theorem lose_send {s : Sched cfg} {i j : Nat} (hs : s.server = .send i j) (hi : i < cfg.machines)
    (hj : j < cfg.thrdpm) :
    s.lose .next = some { s with
      server := .send i (j + 1), outmsg := s.outmsg + 1, roundSent := s.roundSent ++ [s.outmsg] } := by
  simp [lose, hs, hi, hj]

theorem dest_send {s : Sched cfg} {i j : Nat} (hs : s.server = .send i j) (hi : i < cfg.machines)
    (hj : j < cfg.thrdpm) : s.dest = some ⟨i, hi⟩ := by
  simp [dest, hs, hi, hj]

/-- A step that sends a task, or one that sends none. -/
theorem dest_eq_some {s : Sched cfg} {c : Fin cfg.machines} (h : s.dest = some c) :
    ∃ j, s.server = .send c j ∧ j < cfg.thrdpm := by
  unfold dest at h
  split at h
  · split_ifs at h with hi hj
    cases h
    exact ⟨_, ‹_›, hj⟩
  · cases h

end Sched

namespace Buffered

variable {cfg : Config} {overhead : Nat} {crc : List UInt8 → UInt32}

/-- What one step can do. -/
inductive Trans (crc : List UInt8 → UInt32) (b : Buffered cfg) (l : BsendLabel cfg) :
    Buffered cfg → Prop
  | go {s} (hlose : b.sched.lose l.label = none) (h : Sched.Trans crc b.sched l.label s) :
      Trans crc b l { b with sched := s }
  | sent {lost s} (hlose : b.sched.Lose l.label lost) (hsent : l.refused = false)
      (h : Sched.Trans crc b.sched l.label s) :
      Trans crc b l { sched := s, buf := b.push l.label }
  | lost {lost} (hlose : b.sched.Lose l.label lost) (hrefused : l.refused = true) :
      Trans crc b l { b with sched := lost }

theorem trans_of_step {b d : Buffered cfg} {l : BsendLabel cfg} (h : step crc cfg b l = some d) :
    Trans crc b l d := by
  unfold step at h
  split at h
  · rw [Option.map_eq_some_iff] at h
    obtain ⟨s, hs, rfl⟩ := h
    exact .go ‹_› (Sched.trans_of_step hs)
  · split_ifs at h with hrefused
    · cases h
      exact .lost (Sched.lose_of_eq ‹_›) hrefused
    · rw [Option.map_eq_some_iff] at h
      obtain ⟨s, hs, rfl⟩ := h
      exact .sent (Sched.lose_of_eq ‹_›) (by simpa using hrefused) (Sched.trans_of_step hs)

/-! ## The buffer of the server -/

/-- The buffer holds what is not received, behind messages that are all received, and no more than
was sent in this round. -/
def Fresh (b : Buffered cfg) : Prop :=
  ∃ old new, b.buf = old ++ new ∧ Covers b.sched.live new ∧ new.length ≤ b.sched.roundSent.length

theorem fresh_init (cfg : Config) : (init cfg).Fresh :=
  ⟨[], [], rfl, fun _ => le_refl 0, le_refl 0⟩

theorem Fresh.covers {b : Buffered cfg} (h : b.Fresh) : Covers b.sched.live b.buf := by
  obtain ⟨old, new, hbuf, hcov, -⟩ := h
  intro c
  have hc := hcov c
  rw [hbuf, List.count_append]
  omega

theorem Fresh.length_trimmed_le {b : Buffered cfg} (h : b.Fresh) :
    b.trimmed.length ≤ b.sched.roundSent.length := by
  obtain ⟨old, new, hbuf, hcov, hlen⟩ := h
  unfold trimmed
  rw [hbuf]
  exact (length_trim_le hcov).trans hlen

theorem Fresh.total_live_le {b : Buffered cfg} (h : b.Fresh) :
    total id b.sched.live ≤ b.trimmed.length := h.covers.trim.total_le_length

/-- Less to receive, and no fewer messages sent. -/
theorem Fresh.mono {b : Buffered cfg} (h : b.Fresh) {s : Sched cfg}
    (hlive : ∀ c, s.live c ≤ b.sched.live c)
    (hsent : s.roundSent.length = b.sched.roundSent.length) : Fresh { b with sched := s } := by
  obtain ⟨old, new, hbuf, hcov, hlen⟩ := h
  exact ⟨old, new, hbuf, fun c => (hlive c).trans (hcov c), hlen.trans hsent.ge⟩

/-- A task that finds room. -/
theorem Fresh.push_send {b : Buffered cfg} (h : b.Fresh) {i j : Nat} (hs : b.sched.server = .send i j)
    (hi : i < cfg.machines) (hj : j < cfg.thrdpm) :
    Fresh { sched := { b.sched.serverSendtestmsg crc ⟨i, hi⟩ with server := .send i (j + 1) },
            buf := b.push .next } := by
  refine ⟨[], b.trimmed ++ [⟨i, hi⟩], ?_, ?_, ?_⟩
  · rw [push, Sched.dest_send hs hi hj]
    rfl
  · intro c
    have hcov := h.covers.trim c
    unfold trimmed
    rw [List.count_append]
    by_cases hc : c = ⟨i, hi⟩
    · subst hc
      simpa [Sched.live, Sched.serverSendtestmsg, Sched.setMachine] using hcov
    · simpa [Sched.live, Sched.serverSendtestmsg, Sched.setMachine, hc, Ne.symm hc] using hcov
  · have hlen := h.length_trimmed_le
    simpa [Sched.serverSendtestmsg] using hlen

end Buffered

namespace Machine

variable {thrdpm : Nat} {crc : List UInt8 → UInt32} {rank schedrank : UInt32}

/-- A client process only takes from the channel to it. -/
theorem length_down_le_of_trans {m m' : Machine thrdpm} {l : MachineLabel thrdpm}
    (h : Trans crc rank schedrank m l m') : m'.down.length ≤ m.down.length := by
  cases h with
  | complete hc hd => simp [hd]
  | _ => exact le_refl _

end Machine

namespace Sched

variable {cfg : Config} {crc : List UInt8 → UInt32}

theorem live_setMachine_le {s : Sched cfg} {c : Fin cfg.machines} {m : Machine cfg.thrdpm}
    (h : m.down.length ≤ (s.machine c).down.length) (c' : Fin cfg.machines) :
    (s.setMachine c m).live c' ≤ s.live c' := by
  by_cases hc : c' = c
  · subst hc
    simpa [live, setMachine] using h
  · simp [live, setMachine, hc]

/-- Only a send adds to what is to be received. -/
theorem live_le_of_trans {s t : Sched cfg} {l : SchedLabel cfg} (h : Trans crc s l t)
    (hdest : l = .next → s.dest = none) (c : Fin cfg.machines) : t.live c ≤ s.live c := by
  cases h with
  | send hs hi hj =>
      rw [dest_send hs hi hj] at hdest
      cases hdest rfl
  | machine hm => exact live_setMachine_le (Machine.length_down_le_of_trans hm) c
  | @hear c' _ _ up | @hearAbort c' _ _ up | @receive c' _ _ up | @receiveAbort c' _ _ up =>
      have hdown : { s.machine c' with up := up }.down.length ≤ (s.machine c').down.length := le_refl _
      exact live_setMachine_le hdown c
  | _ => exact le_refl _

/-- Only a send and the end of a round change what was sent in it. -/
theorem roundSent_of_trans {s t : Sched cfg} {l : SchedLabel cfg} (h : Trans crc s l t)
    (hdest : l = .next → s.dest = none) (hne : s.server ≠ .check) : t.roundSent = s.roundSent := by
  cases h with
  | send hs hi hj =>
      rw [dest_send hs hi hj] at hdest
      cases hdest rfl
  | round hs => exact absurd hs hne
  | _ => rfl

/-- A label and a state leave one step. -/
theorem trans_unique {s t t' : Sched cfg} {l : SchedLabel cfg} (h : Trans crc s l t)
    (h' : Trans crc s l t') : t = t' :=
  Option.some.inj ((step_of_trans h).symm.trans (step_of_trans h'))

/-- Without a send, the server is not about to send. -/
theorem dest_of_lose_eq_none {s : Sched cfg} {l : SchedLabel cfg} (h : s.lose l = none) :
    l = .next → s.dest = none := by
  rintro rfl
  by_contra hne
  obtain ⟨c, hc⟩ := Option.ne_none_iff_exists'.mp hne
  obtain ⟨j, hs, hj⟩ := dest_eq_some hc
  rw [lose_send hs c.isLt hj] at h
  cases h

/-- What is not received is under way. -/
theorem total_live_le (s : Sched cfg) : total id s.live ≤ s.outstanding.card := by
  unfold outstanding total
  rw [Multiset.card_sum]
  apply Finset.sum_le_sum
  intro c _
  simp only [Machine.tasks, Multiset.card_add, card_seqs]
  show (s.machine c).down.length ≤ _
  omega

/-- What is under way in one process is under way. -/
theorem card_tasks_le (s : Sched cfg) (c : Fin cfg.machines) :
    (s.machine c).tasks.card ≤ s.outstanding.card := by
  apply Multiset.card_le_card
  exact Finset.single_le_sum (f := fun c => (s.machine c).tasks) (fun _ _ => Multiset.zero_le _)
    (Finset.mem_univ c)

/-- A client that sends an acknowledgement has fewer in its channel than a round has tasks. -/
theorem Inv.length_up_lt {s : Sched cfg} (hi : s.Inv crc) (hfits : cfg.Fits) {c : Fin cfg.machines}
    {p : Packet} (hc : (s.machine c).client = .returning p) :
    (s.machine c).up.length < cfg.machines * cfg.thrdpm := by
  have hat := hi.at_server
  have hne : s.server ≠ .aborted := by
    intro hs
    rw [hs] at hat
    exact hat hfits
  have hheld : (acks (s.machine c).up).length + 1 ≤ (s.machine c).tasks.card := by
    simp only [Machine.tasks, Multiset.card_add, card_seqs, hc, ClientPc.held, List.length_singleton]
    omega
  have hle := s.card_tasks_le c
  have hcard := congrArg Multiset.card (hi.conserved (Or.inl hfits))
  rw [Multiset.card_add, card_seqs, Multiset.coe_card] at hcard
  have hwait : ∀ k, s.server ≠ .waitforall k := by
    intro k hs
    rw [hs] at hat
    have hsent := congrArg List.length hat.2.2.1
    rw [List.length_nil] at hsent
    omega
  have hm := hi.machine c
  rw [heard_of_length hi.once (hi.length_alive hwait hne) c] at hm
  rw [Machine.acks_eq_self hm.up_isAck] at hheld
  have hsent := hi.length_roundSent_le hne
  omega

end Sched

namespace Buffered

variable {cfg : Config} {overhead : Nat} {crc : List UInt8 → UInt32}

/-- **A step that loses nothing keeps the buffer fresh.** -/
theorem Fresh.of_trans {b d : Buffered cfg} {l : BsendLabel cfg} (h : b.Fresh)
    (hi : b.sched.Inv crc) (hfits : cfg.Fits ∨ b.sched.server ≠ .check) (ht : Trans crc b l d)
    (hsent : ∀ lost, b.sched.Lose l.label lost → l.refused = false) : d.Fresh := by
  cases ht with
  | lost hlose hrefused =>
      rw [hsent _ hlose] at hrefused
      cases hrefused
  | @sent lost s hlose _ hs =>
      obtain ⟨l, refused⟩ := l
      cases hlose with
      | send hserver hlt hj =>
          rw [Sched.trans_unique hs (.send hserver hlt hj)]
          exact h.push_send hserver hlt hj
      | reply hc =>
          apply h.mono
          · exact Sched.live_le_of_trans hs (by simp)
          · cases hs
            rfl
  | go hlose hs =>
      have hdest := Sched.dest_of_lose_eq_none hlose
      have hlive := Sched.live_le_of_trans hs hdest
      by_cases hcheck : b.sched.server = .check
      · -- The round is over: all it has sent is received.
        have hzero := hi.outstanding_of_check hcheck (hfits.resolve_right (not_not.mpr hcheck))
        have hsum := b.sched.total_live_le
        rw [hzero, Multiset.card_zero, Nat.le_zero, total_eq_zero_iff] at hsum
        refine ⟨b.buf, [], (List.append_nil _).symm, ?_, Nat.zero_le _⟩
        intro c
        exact (hlive c).trans (hsum c).le
      · exact h.mono hlive (by rw [Sched.roundSent_of_trans hs hdest hcheck])

/-! ## A buffer that holds a round -/

/-- **A buffer that holds a round has room for every message.** -/
theorem room_of_lose (hample : Ample overhead cfg) {b : Buffered cfg} {l : SchedLabel cfg}
    {lost : Sched cfg} (hi : b.sched.Inv crc) (h : b.Fresh) (hlose : b.sched.Lose l lost) :
    Room overhead (b.pending l) := by
  have hfits := hample.fits
  have hat := hi.at_server
  cases hlose with
  | @send i j hs hlt hj =>
      rw [hs] at hat
      obtain ⟨-, hsent, -⟩ := hat
      have hlen := h.length_trimmed_le
      have hrow := Nat.mul_le_mul_right cfg.thrdpm (Nat.succ_le_of_lt hlt)
      rw [Nat.succ_mul] at hrow
      apply hample.room
      show b.trimmed.length < _
      omega
  | @reply c p hc =>
      apply hample.room
      exact lt_of_le_of_lt (List.length_filter_le _ _) (hi.length_up_lt hfits hc)

/-- What a scheduler whose messages all find room keeps. -/
structure Inv (crc : List UInt8 → UInt32) (b : Buffered cfg) : Prop where
  sched : b.sched.Inv crc
  fresh : b.Fresh

theorem inv_init (crc : List UInt8 → UInt32) (cfg : Config) : (init cfg).Inv crc :=
  ⟨Sched.inv_init crc cfg, fresh_init cfg⟩

/-- **With a buffer that holds a round, the scheduler takes the steps it takes without one.** -/
theorem step_map (hample : Ample overhead cfg) {b : Buffered cfg} (hi : b.Inv crc)
    {l : BsendLabel cfg} (hl : Provides overhead b l) :
    (step crc cfg b l).map sched = Sched.step crc cfg b.sched l.label := by
  unfold step
  split
  · rw [Option.map_map]
    exact Option.map_id_apply
  · have hsent : l.refused = false :=
      hl (room_of_lose hample hi.sched hi.fresh (Sched.lose_of_eq ‹_›))
    rw [hsent, if_neg (by simp), Option.map_map]
    exact Option.map_id_apply

theorem Inv.of_step (hample : Ample overhead cfg) {b d : Buffered cfg} {l : BsendLabel cfg}
    (hi : b.Inv crc) (hl : Provides overhead b l) (h : step crc cfg b l = some d) : d.Inv crc := by
  have hs : Sched.step crc cfg b.sched l.label = some d.sched := by
    rw [← step_map hample hi hl, h]
    rfl
  refine ⟨Sched.inv_of_trans (Sched.trans_of_step hs) hi.sched, ?_⟩
  exact hi.fresh.of_trans hi.sched (Or.inl hample.fits) (trans_of_step h)
    fun lost hlose => hl (room_of_lose hample hi.sched hi.fresh hlose)

/-- **With a buffer that holds a round, the runs are those of the scheduler without one.** -/
theorem exec_map_sched (hample : Ample overhead cfg) {b : Buffered cfg} (hi : b.Inv crc)
    {ls : List (BsendLabel cfg)} (hls : Meets (step crc cfg) (Provides overhead) b ls) :
    (exec (step crc cfg) b ls).map sched =
      exec (Sched.step crc cfg) b.sched (ls.map BsendLabel.label) :=
  exec_map sched BsendLabel.label (fun _ _ _ hi hl h => hi.of_step hample hl h)
    (fun _ _ hi hl => step_map hample hi hl) hi hls

end Buffered

/-! ## A message that is lost -/

namespace Sched

variable {cfg : Config} {crc : List UInt8 → UInt32}

/-- A round that has lost a message: fewer are under way or received than were sent. -/
structure Short (crc : List UInt8 → UInt32) (s : Sched cfg) : Prop where
  machine : ∀ c, (s.machine c).Inv crc (UInt32.ofNat c) cfg.schedrank true
  short : s.outstanding.card + s.roundRcvd.length < s.roundSent.length
  rounds : s.rounds = 0
  at_server : s.At s.server
  busy : (∃ i j, s.server = .send i j) ∨ ∃ i, s.server = .recv i

/-- Where the server is in a round that has lost a message. -/
theorem Short.server_ne {s : Sched cfg} (h : s.Short crc) :
    (∀ k, s.server ≠ .waitforall k) ∧ s.server ≠ .check ∧ s.server ≠ .aborted := by
  rcases h.busy with ⟨i, j, hs⟩ | ⟨i, hs⟩ <;> simp [hs]

/-- The server sends a task, or loses it. -/
theorem At.send_succ {s t : Sched cfg} {i j : Nat} (h : s.At (.send i j)) (hi : i < cfg.machines)
    (hj : j < cfg.thrdpm) (halive : t.alive = s.alive) (hrcvd : t.roundRcvd = s.roundRcvd)
    (hsent : t.roundSent = s.roundSent ++ [s.outmsg]) : t.At (.send i (j + 1)) := by
  obtain ⟨hlen, hcount, hle, -, -, hnil⟩ := h
  refine ⟨by rw [halive, hlen], ?_, hle, hj, ?_, by rw [hrcvd, hnil]⟩
  · rw [hsent, List.length_append, hcount, List.length_singleton]
    omega
  · intro heq
    omega

/-- A client that moves and keeps or loses its task. -/
theorem Short.setMachine {s : Sched cfg} (h : s.Short crc) {c : Fin cfg.machines}
    {m : Machine cfg.thrdpm} (hm : m.Inv crc (UInt32.ofNat c) cfg.schedrank true)
    (htasks : ∃ lost, (s.machine c).tasks = m.tasks + lost) : (s.setMachine c m).Short crc := by
  obtain ⟨lost, htasks⟩ := htasks
  have hout : s.outstanding = (s.setMachine c m).outstanding + lost := total_of_update_add htasks
  have hcard := congrArg Multiset.card hout
  rw [Multiset.card_add] at hcard
  have hshort := h.short
  refine { h with machine := ?_, short := ?_ }
  · apply (Function.forall_update_iff s.machine
      fun c m => m.Inv crc (UInt32.ofNat c) cfg.schedrank true).mpr
    exact ⟨hm, fun c' _ => h.machine c'⟩
  · show (s.setMachine c m).outstanding.card + s.roundRcvd.length < s.roundSent.length
    omega

/-- **A round that has lost a message stays short**, also when nothing more is lost. -/
theorem Short.of_trans (hfits : cfg.Fits) {s t : Sched cfg} {l : SchedLabel cfg} (h : s.Short crc)
    (ht : Trans crc s l t) : t.Short crc := by
  obtain ⟨hwait, hcheck, habort⟩ := h.server_ne
  have hat := h.at_server
  have hshort := h.short
  cases ht with
  | hear hs | hearAbort hs | begin hs => exact absurd hs (hwait _)
  | round hs | checkAbort hs => exact absurd hs hcheck
  | @send i j hs hlt hj =>
      rw [hs] at hat
      obtain ⟨hm, htasks⟩ := (h.machine ⟨i, hlt⟩).send cfg.schedrank s.outmsg (UInt32.ofNat i)
      have hout : (s.serverSendtestmsg crc ⟨i, hlt⟩).outstanding = s.outstanding + {s.outmsg} :=
        total_update_of_add htasks
      refine ⟨?_, ?_, h.rounds, hat.send_succ hlt hj rfl rfl rfl, Or.inl ⟨_, _, rfl⟩⟩
      · apply (Function.forall_update_iff s.machine
          fun c m => m.Inv crc (UInt32.ofNat c) cfg.schedrank true).mpr
        exact ⟨hm, fun c' _ => h.machine c'⟩
      · show (s.serverSendtestmsg crc ⟨i, hlt⟩).outstanding.card + s.roundRcvd.length <
          (s.roundSent ++ [s.outmsg]).length
        rw [hout, Multiset.card_add, Multiset.card_singleton, List.length_append, List.length_singleton]
        omega
  | @sendRow i j hs hlt hj =>
      rw [hs] at hat
      obtain ⟨hlen, hsent, -, hj', -, hrcvd⟩ := hat
      refine { h with
        at_server := ⟨hlen, ?_, hlt, Nat.zero_le _, fun _ => rfl, hrcvd⟩
        busy := Or.inl ⟨_, _, rfl⟩ }
      have hjeq : j = cfg.thrdpm := by omega
      show s.roundSent.length = (i + 1) * cfg.thrdpm + 0
      rw [hsent, hjeq, Nat.add_one_mul, Nat.add_zero]
  | @sendEnd i j hs hge =>
      rw [hs] at hat
      obtain ⟨hlen, hsent, hle, -, hend, hrcvd⟩ := hat
      have hieq : i = cfg.machines := by omega
      refine { h with
        at_server := ⟨hlen, ?_, ?_, Int.le_max_left _ _⟩
        busy := Or.inr ⟨_, rfl⟩ }
      · show s.roundSent.length = cfg.machines * cfg.thrdpm
        rw [hsent, hend hieq, hieq, Nat.add_zero]
      · show s.roundRcvd.length = 0
        rw [hrcvd, List.length_nil]
  | @receive c i p up hs hlt hup hcrc =>
      rw [hs] at hat
      obtain ⟨hlen, hsent, hrcvd, -⟩ := hat
      obtain ⟨-, hm, htasks⟩ := (h.machine c).receive hup
      have hout : s.outstanding =
          (s.setMachine c { s.machine c with up := up }).outstanding + {p.seq} :=
        total_of_update_add htasks
      have hcard := congrArg Multiset.card hout
      rw [Multiset.card_add, Multiset.card_singleton] at hcard
      refine ⟨(h.setMachine hm ⟨_, htasks⟩).machine, ?_, h.rounds, ⟨hlen, hsent, ?_, ?_⟩,
        Or.inr ⟨_, rfl⟩⟩
      · show (s.setMachine c { s.machine c with up := up }).outstanding.card +
          (s.roundRcvd ++ [p]).length < s.roundSent.length
        rw [List.length_append, List.length_singleton]
        omega
      · rw [List.length_append, hrcvd]
        rfl
      · rw [Nat.cast_add]
        omega
  | receiveAbort hs hlt hup hcrc =>
      rw [((h.machine _).receive hup).1.1] at hcrc
      cases hcrc
  | leave hs hge =>
      -- The receiving loop would have to receive as many messages as were sent.
      rw [hs] at hat
      obtain ⟨-, hsent, hrcvd, -⟩ := hat
      rw [Config.recvBound_of_fits hfits] at hge
      omega
  | machine hm =>
      refine h.setMachine (Machine.inv_of_trans hm (h.machine _)) ⟨0, ?_⟩
      rw [Machine.tasks_eq_of_trans hm (h.machine _), add_zero]

/-- **A round that has lost a message stays short** when it loses another. -/
theorem Short.of_lose {s t : Sched cfg} {l : SchedLabel cfg} (h : s.Short crc) (hlose : s.Lose l t) :
    t.Short crc := by
  have hshort := h.short
  cases hlose with
  | @send i j hs hi hj =>
      have hat := h.at_server
      rw [hs] at hat
      refine { h with
        short := ?_
        at_server := hat.send_succ hi hj rfl rfl rfl
        busy := Or.inl ⟨_, _, rfl⟩ }
      show s.outstanding.card + s.roundRcvd.length < (s.roundSent ++ [s.outmsg]).length
      rw [List.length_append]
      omega
  | @reply c p hc =>
      have hopen := (h.machine c).gate (by simp [hc]) (by simp [hc])
      have hset := (h.machine c).setClient hopen (show ClientPc.polling.arrived = true from rfl)
        (by simp) (by simp) (by simp)
      refine h.setMachine hset ⟨seqs [p], ?_⟩
      simp only [Machine.tasks, hc, ClientPc.held, seqs_nil]
      abel

/-- From `waitforall` the server goes on in it, or to the first send. -/
theorem first_of_trans {s t : Sched cfg} {l : SchedLabel cfg} (h : Trans crc s l t) (hi : s.Inv crc)
    {k : Nat} (hs : s.server = .waitforall k) :
    (∃ k, t.server = .waitforall k) ∨ ∃ i j, t.server = .send i j := by
  cases h with
  | hear => exact Or.inl ⟨_, rfl⟩
  | hearAbort hs' hk hup hcrc =>
      rw [(hi.hear_step hs' hup).1, msgCheckcrc_heartbeatPkt] at hcrc
      cases hcrc
  | begin => exact Or.inr ⟨_, _, rfl⟩
  | machine => exact Or.inl ⟨k, hs⟩
  | send hs' | sendRow hs' | sendEnd hs' | receive hs' | receiveAbort hs' | leave hs' | round hs'
  | checkAbort hs' =>
      rw [hs] at hs'
      cases hs'

end Sched

namespace Buffered

variable {cfg : Config} {overhead : Nat} {crc : List UInt8 → UInt32}

/-- **A round that has lost a message never ends.** -/
theorem short_of_step (hfits : cfg.Fits) {b d : Buffered cfg} {l : BsendLabel cfg}
    (h : b.sched.Short crc) (hstep : step crc cfg b l = some d) : d.sched.Short crc := by
  cases trans_of_step hstep with
  | go hlose hs => exact h.of_trans hfits hs
  | sent hlose _ hs => exact h.of_trans hfits hs
  | lost hlose _ => exact h.of_lose hlose

/-! ## Filling the buffer -/

/-- The first round before its last send, with no client that receives. -/
structure Filling (crc : List UInt8 → UInt32) (b : Buffered cfg) : Prop extends b.Inv crc where
  rounds : b.sched.rounds = 0
  full : total id b.sched.live = b.sched.roundSent.length
  early : b.sched.roundSent.length < cfg.machines * cfg.thrdpm
  first : (∃ k, b.sched.server = .waitforall k) ∨ ∃ i j, b.sched.server = .send i j

theorem filling_init (crc : List UInt8 → UInt32) (cfg : Config) : (init cfg).Filling crc where
  toInv := inv_init crc cfg
  rounds := rfl
  full := total_eq_zero fun _ => rfl
  early := Nat.mul_pos cfg.one_le_machines cfg.one_le_thrdpm
  first := Or.inl ⟨0, rfl⟩

/-- A send lost in this round leaves it short. -/
theorem Filling.short {b : Buffered cfg} (h : b.Filling crc) {i j : Nat}
    (hs : b.sched.server = .send i j) (hi : i < cfg.machines) (hj : j < cfg.thrdpm) :
    Sched.Short crc { b.sched with
      server := .send i (j + 1), outmsg := b.sched.outmsg + 1,
      roundSent := b.sched.roundSent ++ [b.sched.outmsg] } := by
  have hat := h.sched.at_server
  rw [hs] at hat
  have hcard := congrArg Multiset.card (h.sched.conserved (Or.inr h.rounds))
  rw [Multiset.card_add, card_seqs, Multiset.coe_card] at hcard
  refine ⟨?_, ?_, h.rounds, hat.send_succ hi hj rfl rfl rfl, Or.inl ⟨_, _, rfl⟩⟩
  · intro c
    have hm := h.sched.machine c
    rwa [Sched.heard_of_length h.sched.once hat.1 c] at hm
  · show b.sched.outstanding.card + b.sched.roundRcvd.length <
      (b.sched.roundSent ++ [b.sched.outmsg]).length
    rw [List.length_append, List.length_singleton]
    omega

/-- A send that finds room fills the buffer further, and is not the last of the round. -/
theorem Filling.sent {b : Buffered cfg} (h : b.Filling crc) (hnot : ¬ Ample overhead cfg) {i j : Nat}
    (hs : b.sched.server = .send i j) (hi : i < cfg.machines) (hj : j < cfg.thrdpm)
    (hroom : Room overhead b.trimmed.length) :
    Filling crc
      { sched := { b.sched.serverSendtestmsg crc ⟨i, hi⟩ with server := .send i (j + 1) },
        buf := b.push .next } := by
  have hearly := h.early
  have hpending : Room overhead b.sched.roundSent.length :=
    hroom.mono (h.full ▸ h.fresh.total_live_le)
  have hlast : b.sched.roundSent.length + 1 ≠ cfg.machines * cfg.thrdpm := by
    intro heq
    apply hnot
    unfold Ample
    rwa [← heq]
  refine ⟨⟨h.sched.send_step hs hi hj, h.fresh.push_send hs hi hj⟩, h.rounds, ?_, ?_,
    Or.inr ⟨_, _, rfl⟩⟩
  · have hfull := h.full
    show total (fun m : Machine cfg.thrdpm => m.down.length)
      (b.sched.serverSendtestmsg crc ⟨i, hi⟩).machine = (b.sched.roundSent ++ [b.sched.outmsg]).length
    rw [List.length_append, ← hfull]
    exact total_update_of_add (by simp)
  · show (b.sched.roundSent ++ [b.sched.outmsg]).length < _
    rw [List.length_append, List.length_singleton]
    omega

/-- A step with a message that is not refused is a step of the scheduler. -/
theorem exists_step_of_trans {b : Buffered cfg} {l : SchedLabel cfg} {s : Sched cfg}
    (h : Sched.Trans crc b.sched l s) : ∃ d, step crc cfg b ⟨l, false⟩ = some d ∧ d.sched = s := by
  cases hlose : b.sched.lose l with
  | none => exact ⟨{ b with sched := s }, by simp [step, hlose, Sched.step_of_trans h], rfl⟩
  | some lost =>
      exact ⟨⟨s, b.push l⟩, by simp [step, hlose, Sched.step_of_trans h], rfl⟩

/-- A send with nothing received fits, or it may be refused and the round is short from then on. -/
theorem Filling.send {b : Buffered cfg} (h : b.Filling crc) (hnot : ¬ Ample overhead cfg) {i j : Nat}
    (hs : b.sched.server = .send i j) (hi : i < cfg.machines) (hj : j < cfg.thrdpm) :
    ∃ l d, Provides overhead b l ∧ step crc cfg b l = some d ∧
      (d.Filling crc ∨ d.sched.Short crc) ∧ d.sched.togo < b.sched.togo := by
  have hlt : Sched.serverTogo cfg (.send i (j + 1)) < Sched.serverTogo cfg b.sched.server := by
    have hrow : cfg.thrdpm + 1 ≤ (cfg.machines - i) * (cfg.thrdpm + 1) :=
      Nat.le_mul_of_pos_left _ (by omega)
    simp only [hs, Sched.serverTogo]
    omega
  by_cases hroom : Room overhead b.trimmed.length
  · refine ⟨⟨.next, false⟩, _, fun _ => rfl, ?_, Or.inl (h.sent hnot hs hi hj hroom),
      Sched.togo_lt_of_server hlt⟩
    simp [step, Sched.lose_send hs hi hj, Sched.step_of_trans (.send hs hi hj)]
  · refine ⟨⟨.next, true⟩, { b with sched := _ }, fun hfits => absurd hfits hroom, ?_,
      Or.inr (h.short hs hi hj), Sched.togo_lt_of_server hlt⟩
    simp [step, Sched.lose_send hs hi hj]

/-- `waitforall` goes on, and no message is refused in it. -/
theorem Filling.waitforall {b : Buffered cfg} (h : b.Filling crc) {k : Nat}
    (hs : b.sched.server = .waitforall k) :
    ∃ l d, step crc cfg b ⟨l, false⟩ = some d ∧ d.Filling crc ∧ d.sched.togo < b.sched.togo := by
  have hat := h.sched.at_server
  rw [hs] at hat
  obtain ⟨-, -, hnil, -⟩ := hat
  have hcheck : b.sched.server ≠ .check := by simp [hs]
  have hdest : b.sched.dest = none := by simp [Sched.dest, hs]
  obtain ⟨l, t, ht⟩ := h.sched.exists_trans_waitforall hs
  obtain ⟨d, hd, rfl⟩ := exists_step_of_trans ht
  have hsent := Sched.roundSent_of_trans ht (fun _ => hdest) hcheck
  refine ⟨l, d, hd, ⟨⟨Sched.inv_of_trans ht h.sched, ?_⟩, ?_, ?_, ?_, ?_⟩,
    Sched.togo_lt_of_trans ht h.sched hcheck⟩
  · exact h.fresh.of_trans h.sched (Or.inr hcheck) (trans_of_step hd) fun _ _ => rfl
  · have hround := (Sched.Underway.trans ⟨h.sched, Or.inr h.rounds, by simp [hs]⟩ ht hcheck).2
    rw [hround, h.rounds]
  · have hzero := h.full
    rw [hnil, List.length_nil, total_eq_zero_iff] at hzero
    rw [hsent, hnil, List.length_nil, total_eq_zero_iff]
    intro c
    have hle := Sched.live_le_of_trans ht (fun _ => hdest) c
    exact Nat.le_zero.mp (hle.trans (hzero c).le)
  · rw [hsent]
    exact h.early
  · exact Sched.first_of_trans ht h.sched hs

variable (crc) in
/-- **The buffer fills until a message may be refused**, when it does not hold a round. -/
theorem exists_exec_short (hnot : ¬ Ample overhead cfg) :
    ∃ ls b, Meets (step crc cfg) (Provides overhead) (init cfg) ls ∧
      exec (step crc cfg) (init cfg) ls = some b ∧ b.sched.Short crc := by
  have hprogress : ∀ b : Buffered cfg, b.Filling crc ∨ b.sched.Short crc → ¬ b.sched.Short crc →
      ∃ l d, Provides overhead b l ∧ step crc cfg b l = some d ∧
        (d.Filling crc ∨ d.sched.Short crc) ∧ d.sched.togo < b.sched.togo := by
    intro b hb hshort
    have h := hb.resolve_right hshort
    rcases h.first with ⟨k, hs⟩ | ⟨i, j, hs⟩
    · obtain ⟨l, d, hd, hfill, hlt⟩ := h.waitforall hs
      exact ⟨⟨l, false⟩, d, fun _ => rfl, hd, Or.inl hfill, hlt⟩
    · have hat := h.sched.at_server
      have hearly := h.early
      rw [hs] at hat
      obtain ⟨-, hsent, hle, hj', hend, -⟩ := hat
      have hi : i < cfg.machines := by
        rcases Nat.lt_or_eq_of_le hle with hlt | heq
        · exact hlt
        · rw [hsent, hend heq, heq] at hearly
          omega
      by_cases hj : j < cfg.thrdpm
      · exact h.send hnot hs hi hj
      · have ht : Sched.Trans crc b.sched .next { b.sched with server := .send (i + 1) 0 } :=
          .sendRow hs hi (Nat.le_of_not_lt hj)
        have hlose : b.sched.lose .next = none := by simp [Sched.lose, hs, hj]
        refine ⟨⟨.next, false⟩, { b with sched := _ }, fun _ => rfl,
          by simp [step, hlose, Sched.step_of_trans ht], Or.inl ?_,
          Sched.togo_lt_of_trans ht h.sched (by simp [hs])⟩
        exact ⟨⟨Sched.inv_of_trans ht h.sched, h.fresh⟩, h.rounds, h.full, h.early, Or.inr ⟨_, _, rfl⟩⟩
  have hinit : (init cfg).Filling crc ∨ (init cfg).sched.Short crc := Or.inl (filling_init crc cfg)
  obtain ⟨ls, b, hls, hrun, -, hshort⟩ :=
    exists_meets_of_decreasing (fun b : Buffered cfg => b.sched.togo) hprogress hinit
  exact ⟨ls, b, hls, hrun, hshort⟩

end Buffered

/-! ## How much buffer the scheduler needs -/

namespace Buffered

/-- **The scheduler with its buffers has the runs of the scheduler without, for everything MPI may
answer, if and only if the buffer of the server holds the tasks of a round.** -/
theorem buffered_exact_iff (overhead : Nat) (crc : List UInt8 → UInt32) (cfg : Config) :
    (∀ ls, Meets (step crc cfg) (Provides overhead) (init cfg) ls →
        (exec (step crc cfg) (init cfg) ls).map sched =
          exec (Sched.step crc cfg) (Sched.init cfg) (ls.map BsendLabel.label)) ↔
      cfg.machines * cfg.thrdpm * (msgsize + overhead) ≤ mpibufsize := by
  constructor
  · intro hall
    by_contra hnot
    obtain ⟨ls, b, hls, hrun, hshort⟩ := exists_exec_short crc hnot
    have hideal := hall ls hls
    rw [hrun] at hideal
    have hi := Sched.inv_of_exec hideal.symm
    have hcard := congrArg Multiset.card (hi.conserved (Or.inr hshort.rounds))
    rw [Multiset.card_add, card_seqs, Multiset.coe_card] at hcard
    exact absurd hshort.short hcard.not_lt
  · exact fun hample ls hls => exec_map_sched hample (inv_init crc cfg) hls

/-- **Whatever MPI has answered, the round can be led to its end, if and only if the buffer of the
server holds its tasks.** -/
theorem roundsEnd_iff (overhead : Nat) (crc : List UInt8 → UInt32) (cfg : Config)
    (hfits : cfg.machines * cfg.thrdpm < 2 ^ 31) :
    (∀ ls b, Meets (step crc cfg) (Provides overhead) (init cfg) ls →
        exec (step crc cfg) (init cfg) ls = some b →
        ∃ ms d, Meets (step crc cfg) (Provides overhead) b ms ∧
          exec (step crc cfg) b ms = some d ∧ d.sched.server = .check) ↔
      cfg.machines * cfg.thrdpm * (msgsize + overhead) ≤ mpibufsize := by
  constructor
  · intro hall
    by_contra hnot
    obtain ⟨ls, b, hls, hrun, hshort⟩ := exists_exec_short crc hnot
    obtain ⟨ms, d, -, hend, hcheck⟩ := hall ls b hls hrun
    have hshort' : d.sched.Short crc :=
      exec_invariant (fun _ _ _ h hstep => short_of_step hfits h hstep) hshort hend
    exact hshort'.server_ne.2.1 hcheck
  · intro hample ls b hls hrun
    have hinv : b.Inv crc :=
      exec_invariant_of_meets (fun _ _ _ hi hl h => hi.of_step hample hl h) (inv_init crc cfg) hls hrun
    have hrunning := (Sched.roundProtocol_of_inv hinv.sched hfits).noAbort.1
    obtain ⟨ms, t, hms, -, hcheck⟩ :=
      Sched.Underway.exists_exec_check ⟨hinv.sched, Or.inl hfits, hrunning⟩
    -- The same steps, with no message refused.
    have hgranted : Meets (step crc cfg) (Provides overhead) b (ms.map fun l => ⟨l, false⟩) := by
      refine meets_of_forall_mem fun l hl b _ => ?_
      obtain ⟨l, -, rfl⟩ := List.mem_map.mp hl
      rfl
    have hmap := exec_map_sched hample hinv hgranted
    rw [List.map_map, show BsendLabel.label ∘ (fun l => ⟨l, false⟩) = id from rfl, List.map_id, hms,
      Option.map_eq_some_iff] at hmap
    obtain ⟨d, hd, rfl⟩ := hmap
    exact ⟨_, d, hgranted, hd, hcheck⟩

/-- 16384 clients with two workers each: their tasks fill the buffer to the last byte. -/
def wideCluster : Config where
  machines := 16384
  thrdpm := 2
  one_le_machines := by decide
  one_le_thrdpm := by decide
  size_lt := by decide
  thrdpm_lt := by decide

/-- One byte of overhead is too much for them. -/
theorem roundsEnd_wideCluster :
    (∀ ls b, Meets (step generateCrc32 wideCluster) (Provides 0) (init wideCluster) ls →
        exec (step generateCrc32 wideCluster) (init wideCluster) ls = some b →
        ∃ ms d, Meets (step generateCrc32 wideCluster) (Provides 0) b ms ∧
          exec (step generateCrc32 wideCluster) b ms = some d ∧ d.sched.server = .check) ∧
      ¬ ∀ ls b, Meets (step generateCrc32 wideCluster) (Provides 1) (init wideCluster) ls →
        exec (step generateCrc32 wideCluster) (init wideCluster) ls = some b →
        ∃ ms d, Meets (step generateCrc32 wideCluster) (Provides 1) b ms ∧
          exec (step generateCrc32 wideCluster) b ms = some d ∧ d.sched.server = .check := by
  have hfits : wideCluster.machines * wideCluster.thrdpm < 2 ^ 31 := by decide
  refine ⟨(roundsEnd_iff 0 generateCrc32 wideCluster hfits).mpr (by decide), ?_⟩
  intro hall
  have hle := (roundsEnd_iff 1 generateCrc32 wideCluster hfits).mp hall
  exact absurd hle (by decide)

end Buffered

end CommTest.Mpi
