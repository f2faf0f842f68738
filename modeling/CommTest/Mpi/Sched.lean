import CommTest.Lib.Lts
import CommTest.Mpi.Packet
import Mathlib.Logic.Function.Basic
import Mathlib.Tactic.SplitIfs

/-!
# The MPI scheduler

One server process and `machines` client processes; each client process has a communication thread
`sched_client` and `thrdpm` worker threads.

* `Machine` is a client process with the two MPI channels between it and the server. Its queues
  `s2w` and `w2s` are touched under their mutexes only, so a critical section is one step.
  `Machine.step` has one label for each thing its threads do.
* `Sched` is the whole system; `ServerPc` follows the loops of `sched_server`. A receive from
  `MPI_ANY_SOURCE` takes the oldest message of any one channel; which one is in the label.
* A failed `assert` leads to `aborted`, where the thread stays.
* `Machine.Trans` and `Sched.Trans` list what one step can do.
* `alive`, `roundSent`, `roundRcvd` and `rounds` are histories; no step reads them.

MPI loses, duplicates, changes and reorders nothing between two processes, and a buffered send
always finds room.
-/

set_option linter.unusedSectionVars false

namespace CommTest.Mpi

open Lts

/-! ## Configuration -/

/-- The options `-m` and `-t` as `get_options` and the assertion on the number of processes in
`main` leave them: positive, and `machines + 1` is the size of the MPI world, an `int`. -/
structure Config where
  machines : Nat
  thrdpm : Nat
  one_le_machines : 1 ≤ machines
  one_le_thrdpm : 1 ≤ thrdpm
  size_lt : machines + 1 < 2 ^ 31
  thrdpm_lt : thrdpm < 2 ^ 31

namespace Config

/-- `mctx.schedrank = size-1`. -/
def schedrank (cfg : Config) : UInt32 := UInt32.ofNat cfg.machines

/-- `ctx->mctx->machines*ctx->mctx->thrdpm`, a product of two `int`. -/
def recvBound (cfg : Config) : Int := (Int32.ofNat cfg.machines * Int32.ofNat cfg.thrdpm).toInt

end Config

/-! ## A client process -/

/-- Where `sched_client` is. -/
inductive ClientPc
  | boot
  | barrier
  /-- A receive is posted, the thread goes round the loop over `check_complete_async`. -/
  | polling
  /-- The receive is complete. -/
  | received (p : Packet)
  /-- A finished task was taken from `w2s`. -/
  | returning (p : Packet)
  | aborted

/-- Where a `worker` is. -/
inductive WorkerPc
  | boot
  | barrier
  | idle
  | busy (p : Packet)

/-- Whether the thread has come to `bar_all`. -/
def ClientPc.arrived : ClientPc → Bool
  | .boot => false
  | _ => true

/-- Whether the thread has come to `bar_all`. -/
def WorkerPc.arrived : WorkerPc → Bool
  | .boot => false
  | _ => true

theorem ClientPc.arrived_of_ne_boot {pc : ClientPc} (h : pc ≠ .boot) : pc.arrived = true := by
  cases pc with
  | boot => exact absurd rfl h
  | _ => rfl

/-- A client process, with the channel from the server to it (`down`) and back (`up`), oldest
message first. -/
structure Machine (thrdpm : Nat) where
  down : List Packet
  up : List Packet
  s2w : List Packet
  w2s : List Packet
  client : ClientPc
  worker : Fin thrdpm → WorkerPc

/-- What the threads of a client process do. -/
inductive MachineLabel (thrdpm : Nat)
  /-- `sendheartbeat`, and on to the barrier. -/
  | heartbeat
  /-- The communication thread leaves the barrier and posts its first receive. -/
  | pass
  /-- `check_complete_async` finds the receive complete. -/
  | complete
  /-- `check_complete_async` returns 0 and `client_putback_task` finds a task. -/
  | putback
  /-- The CRC check, `client_put_task` and the next receive. -/
  | put
  /-- `client_sendtestmsg_wt_buffer`. -/
  | reply
  /-- Worker `w` comes to the barrier. -/
  | arrive (w : Fin thrdpm)
  /-- Worker `w` leaves the barrier. -/
  | start (w : Fin thrdpm)
  /-- `worker_get_task` finds a task. -/
  | get (w : Fin thrdpm)
  /-- The worker sets the status and calls `worker_putback_task`. -/
  | finish (w : Fin thrdpm)

namespace Machine

variable {thrdpm : Nat}

/-- A client process before its threads run. -/
def init (thrdpm : Nat) : Machine thrdpm where
  down := []
  up := []
  s2w := []
  w2s := []
  client := .boot
  worker := fun _ => .boot

/-- All `thrdpm + 1` threads have come to `bar_all`. -/
def barrierOpen (m : Machine thrdpm) : Prop :=
  m.client.arrived = true ∧ ∀ w, (m.worker w).arrived = true

instance (m : Machine thrdpm) : Decidable m.barrierOpen := inferInstanceAs (Decidable (_ ∧ _))

/-- Worker `w` moves. -/
def setWorker (m : Machine thrdpm) (w : Fin thrdpm) (pc : WorkerPc) : Machine thrdpm :=
  { m with worker := Function.update m.worker w pc }

/-- One step of a thread of the client process with rank `rank`. Source: `scheduler.cpp`,
`sched_client`, and `worker.cpp`, `worker`. -/
def step (crc : List UInt8 → UInt32) (rank schedrank : UInt32) (m : Machine thrdpm) :
    MachineLabel thrdpm → Option (Machine thrdpm)
  | .heartbeat =>
      match m.client with
      | .boot => some { m with up := m.up ++ [heartbeatPkt crc rank schedrank], client := .barrier }
      | _ => none
  | .pass =>
      match m.client with
      | .barrier => if m.barrierOpen then some { m with client := .polling } else none
      | _ => none
  | .complete =>
      match m.client, m.down with
      | .polling, p :: down => some { m with down := down, client := .received p }
      | _, _ => none
  | .putback =>
      match m.client, m.w2s with
      | .polling, p :: w2s => some { m with w2s := w2s, client := .returning p }
      | _, _ => none
  | .put =>
      match m.client with
      | .received p =>
          if msgCheckcrc crc p then some { m with s2w := m.s2w ++ [p], client := .polling }
          else some { m with client := .aborted }
      | _ => none
  | .reply =>
      match m.client with
      | .returning p =>
          some { m with up := m.up ++ [replyPkt crc rank schedrank p], client := .polling }
      | _ => none
  | .arrive w =>
      match m.worker w with
      | .boot => some (m.setWorker w .barrier)
      | _ => none
  | .start w =>
      match m.worker w with
      | .barrier => if m.barrierOpen then some (m.setWorker w .idle) else none
      | _ => none
  | .get w =>
      match m.worker w, m.s2w with
      | .idle, p :: s2w => some { m.setWorker w (.busy p) with s2w := s2w }
      | _, _ => none
  | .finish w =>
      match m.worker w with
      | .busy p => some { m.setWorker w .idle with w2s := m.w2s ++ [p.setDone] }
      | _ => none

/-- What one step of a client process can do. -/
inductive Trans (crc : List UInt8 → UInt32) (rank schedrank : UInt32) (m : Machine thrdpm) :
    MachineLabel thrdpm → Machine thrdpm → Prop
  | heartbeat (hc : m.client = .boot) :
      Trans crc rank schedrank m .heartbeat
        { m with up := m.up ++ [heartbeatPkt crc rank schedrank], client := .barrier }
  | pass (hc : m.client = .barrier) (hopen : m.barrierOpen) :
      Trans crc rank schedrank m .pass { m with client := .polling }
  | complete {p down} (hc : m.client = .polling) (hd : m.down = p :: down) :
      Trans crc rank schedrank m .complete { m with down := down, client := .received p }
  | putback {p w2s} (hc : m.client = .polling) (hq : m.w2s = p :: w2s) :
      Trans crc rank schedrank m .putback { m with w2s := w2s, client := .returning p }
  | put {p} (hc : m.client = .received p) (hcrc : msgCheckcrc crc p = true) :
      Trans crc rank schedrank m .put { m with s2w := m.s2w ++ [p], client := .polling }
  | abort {p} (hc : m.client = .received p) (hcrc : msgCheckcrc crc p = false) :
      Trans crc rank schedrank m .put { m with client := .aborted }
  | reply {p} (hc : m.client = .returning p) :
      Trans crc rank schedrank m .reply
        { m with up := m.up ++ [replyPkt crc rank schedrank p], client := .polling }
  | arrive {w} (hw : m.worker w = .boot) :
      Trans crc rank schedrank m (.arrive w) (m.setWorker w .barrier)
  | start {w} (hw : m.worker w = .barrier) (hopen : m.barrierOpen) :
      Trans crc rank schedrank m (.start w) (m.setWorker w .idle)
  | get {w p s2w} (hw : m.worker w = .idle) (hq : m.s2w = p :: s2w) :
      Trans crc rank schedrank m (.get w) { m.setWorker w (.busy p) with s2w := s2w }
  | finish {w p} (hw : m.worker w = .busy p) :
      Trans crc rank schedrank m (.finish w)
        { m.setWorker w .idle with w2s := m.w2s ++ [p.setDone] }

theorem trans_of_step {crc : List UInt8 → UInt32} {rank schedrank : UInt32} {m m' : Machine thrdpm}
    {l : MachineLabel thrdpm} (h : m.step crc rank schedrank l = some m') :
    Trans crc rank schedrank m l m' := by
  cases l <;> simp only [step] at h
  case heartbeat =>
    split at h <;> cases h
    exact .heartbeat ‹_›
  case pass =>
    split at h
    · split_ifs at h with hopen
      cases h
      exact .pass ‹_› hopen
    · cases h
  case complete =>
    split at h <;> cases h
    exact .complete ‹_› ‹_›
  case putback =>
    split at h <;> cases h
    exact .putback ‹_› ‹_›
  case put =>
    split at h
    · split_ifs at h with hcrc
      · cases h
        exact .put ‹_› hcrc
      · cases h
        exact .abort ‹_› (by simpa using hcrc)
    · cases h
  case reply =>
    split at h <;> cases h
    exact .reply ‹_›
  case arrive w =>
    split at h <;> cases h
    exact .arrive ‹_›
  case start w =>
    split at h
    · split_ifs at h with hopen
      cases h
      exact .start ‹_› hopen
    · cases h
  case get w =>
    split at h <;> cases h
    exact .get ‹_› ‹_›
  case finish w =>
    split at h <;> cases h
    exact .finish ‹_›

theorem step_of_trans {crc : List UInt8 → UInt32} {rank schedrank : UInt32} {m m' : Machine thrdpm}
    {l : MachineLabel thrdpm} (h : Trans crc rank schedrank m l m') :
    m.step crc rank schedrank l = some m' := by
  cases h <;> simp [step, *]

/-- No message in the process or in its channels. -/
def Drained (m : Machine thrdpm) : Prop :=
  m.down = [] ∧ m.up = [] ∧ m.s2w = [] ∧ m.w2s = [] ∧
    (∀ p, m.client ≠ .received p ∧ m.client ≠ .returning p) ∧ ∀ w p, m.worker w ≠ .busy p

end Machine

/-! ## The server and the system -/

/-- Where `sched_server` is. -/
inductive ServerPc
  /-- In `waitforall`, at the test of its loop. -/
  | waitforall (livecnt : Nat)
  /-- At the test of the inner sending loop. -/
  | send (i j : Nat)
  /-- At the test of the receiving loop. -/
  | recv (i : Nat)
  /-- Behind the receiving loop, at `assert(ctx->inmsg == ctx->outmsg)`. -/
  | check
  | aborted

/-- The scheduler: server, client processes and channels. -/
structure Sched (cfg : Config) where
  server : ServerPc
  inmsg : UInt32
  outmsg : UInt32
  machine : Fin cfg.machines → Machine cfg.thrdpm
  /-- What `waitforall` received, with the source. -/
  alive : List (Fin cfg.machines × Packet)
  /-- The sequence numbers of the tasks sent in this round. -/
  roundSent : List UInt32
  /-- The messages the server received in this round. -/
  roundRcvd : List Packet
  /-- The rounds that are over. -/
  rounds : Nat

/-- The steps of the scheduler. -/
inductive SchedLabel (cfg : Config)
  /-- `waitforall` receives from `c`. -/
  | hear (c : Fin cfg.machines)
  /-- The server goes on without a receive: a test, a send or the assertion on the counters. -/
  | next
  /-- The receive of the round loop completes with a message of `c`. -/
  | receive (c : Fin cfg.machines)
  /-- A thread of client process `c`. -/
  | machine (c : Fin cfg.machines) (l : MachineLabel cfg.thrdpm)

namespace Sched

variable {cfg : Config}

/-- All processes started, nothing sent. -/
def init (cfg : Config) : Sched cfg where
  server := .waitforall 0
  inmsg := 0
  outmsg := 0
  machine := fun _ => Machine.init cfg.thrdpm
  alive := []
  roundSent := []
  roundRcvd := []
  rounds := 0

/-- Client process `c` moves. -/
def setMachine (s : Sched cfg) (c : Fin cfg.machines) (m : Machine cfg.thrdpm) : Sched cfg :=
  { s with machine := Function.update s.machine c m }

/-- Source: `scheduler.cpp`, `server_sendtestmsg`. -/
def serverSendtestmsg (crc : List UInt8 → UInt32) (s : Sched cfg) (c : Fin cfg.machines) :
    Sched cfg :=
  let p := taskPkt crc cfg.schedrank s.outmsg (UInt32.ofNat c)
  { s.setMachine c { s.machine c with down := (s.machine c).down ++ [p] } with
    outmsg := s.outmsg + 1, roundSent := s.roundSent ++ [s.outmsg] }

/-- One pass of the loop of `waitforall`, with the oldest message of `c`. Source: `scheduler.cpp`,
`waitforall`. -/
def hear (crc : List UInt8 → UInt32) (s : Sched cfg) (c : Fin cfg.machines) : Option (Sched cfg) :=
  match s.server, (s.machine c).up with
  | .waitforall livecnt, p :: up =>
      if livecnt < cfg.machines then
        some { s.setMachine c { s.machine c with up := up } with
          server := if msgCheckcrc crc p then .waitforall (livecnt + 1) else .aborted,
          alive := s.alive ++ [(c, p)] }
      else none
  | _, _ => none

/-- One pass of the receiving loop, with the oldest message of `c`. Source: `scheduler.cpp`,
`sched_server`. -/
def receive (crc : List UInt8 → UInt32) (s : Sched cfg) (c : Fin cfg.machines) :
    Option (Sched cfg) :=
  match s.server, (s.machine c).up with
  | .recv i, p :: up =>
      if (i : Int) < cfg.recvBound then
        if msgCheckcrc crc p then
          some { s.setMachine c { s.machine c with up := up } with
            server := .recv (i + 1), inmsg := s.inmsg + 1, roundRcvd := s.roundRcvd ++ [p] }
        else some { s.setMachine c { s.machine c with up := up } with server := .aborted }
      else none
  | _, _ => none

/-- What the server does between receives. Source: `scheduler.cpp`, `sched_server`. -/
def next (crc : List UInt8 → UInt32) (s : Sched cfg) : Option (Sched cfg) :=
  match s.server with
  | .waitforall livecnt => if livecnt < cfg.machines then none else some { s with server := .send 0 0 }
  | .send i j =>
      if h : i < cfg.machines then
        if j < cfg.thrdpm then
          some { s.serverSendtestmsg crc ⟨i, h⟩ with server := .send i (j + 1) }
        else some { s with server := .send (i + 1) 0 }
      else some { s with server := .recv 0 }
  | .recv i => if (i : Int) < cfg.recvBound then none else some { s with server := .check }
  | .check =>
      if s.inmsg = s.outmsg then
        some { s with server := .send 0 0, roundSent := [], roundRcvd := [], rounds := s.rounds + 1 }
      else some { s with server := .aborted }
  | .aborted => none

/-- One step of the scheduler. -/
def step (crc : List UInt8 → UInt32) (cfg : Config) (s : Sched cfg) :
    SchedLabel cfg → Option (Sched cfg)
  | .hear c => s.hear crc c
  | .next => s.next crc
  | .receive c => s.receive crc c
  | .machine c l =>
      ((s.machine c).step crc (UInt32.ofNat c) cfg.schedrank l).map (s.setMachine c)

/-- What one step of the scheduler can do. -/
inductive Trans (crc : List UInt8 → UInt32) (s : Sched cfg) : SchedLabel cfg → Sched cfg → Prop
  | hear {c k p up} (hs : s.server = .waitforall k) (hk : k < cfg.machines)
      (hup : (s.machine c).up = p :: up) (hcrc : msgCheckcrc crc p = true) :
      Trans crc s (.hear c)
        { s.setMachine c { s.machine c with up := up } with
          server := .waitforall (k + 1), alive := s.alive ++ [(c, p)] }
  | hearAbort {c k p up} (hs : s.server = .waitforall k) (hk : k < cfg.machines)
      (hup : (s.machine c).up = p :: up) (hcrc : msgCheckcrc crc p = false) :
      Trans crc s (.hear c)
        { s.setMachine c { s.machine c with up := up } with
          server := .aborted, alive := s.alive ++ [(c, p)] }
  | begin {k} (hs : s.server = .waitforall k) (hk : cfg.machines ≤ k) :
      Trans crc s .next { s with server := .send 0 0 }
  | send {i j} (hs : s.server = .send i j) (hi : i < cfg.machines) (hj : j < cfg.thrdpm) :
      Trans crc s .next { s.serverSendtestmsg crc ⟨i, hi⟩ with server := .send i (j + 1) }
  | sendRow {i j} (hs : s.server = .send i j) (hi : i < cfg.machines) (hj : cfg.thrdpm ≤ j) :
      Trans crc s .next { s with server := .send (i + 1) 0 }
  | sendEnd {i j} (hs : s.server = .send i j) (hi : cfg.machines ≤ i) :
      Trans crc s .next { s with server := .recv 0 }
  | receive {c i p up} (hs : s.server = .recv i) (hi : (i : Int) < cfg.recvBound)
      (hup : (s.machine c).up = p :: up) (hcrc : msgCheckcrc crc p = true) :
      Trans crc s (.receive c)
        { s.setMachine c { s.machine c with up := up } with
          server := .recv (i + 1), inmsg := s.inmsg + 1, roundRcvd := s.roundRcvd ++ [p] }
  | receiveAbort {c i p up} (hs : s.server = .recv i) (hi : (i : Int) < cfg.recvBound)
      (hup : (s.machine c).up = p :: up) (hcrc : msgCheckcrc crc p = false) :
      Trans crc s (.receive c)
        { s.setMachine c { s.machine c with up := up } with server := .aborted }
  | leave {i} (hs : s.server = .recv i) (hi : cfg.recvBound ≤ i) :
      Trans crc s .next { s with server := .check }
  | round (hs : s.server = .check) (heq : s.inmsg = s.outmsg) :
      Trans crc s .next
        { s with server := .send 0 0, roundSent := [], roundRcvd := [], rounds := s.rounds + 1 }
  | checkAbort (hs : s.server = .check) (hne : s.inmsg ≠ s.outmsg) :
      Trans crc s .next { s with server := .aborted }
  | machine {c : Fin cfg.machines} {l m}
      (hm : Machine.Trans crc (UInt32.ofNat c) cfg.schedrank (s.machine c) l m) :
      Trans crc s (.machine c l) (s.setMachine c m)

theorem next_trans {crc : List UInt8 → UInt32} {s t : Sched cfg} (h : s.next crc = some t) :
    Trans crc s .next t := by
  unfold next at h
  split at h
  case h_1 k hs =>
    split_ifs at h with hk
    cases h
    exact .begin hs (Nat.le_of_not_lt hk)
  case h_2 i j hs =>
    split_ifs at h with hi hj
    · cases h
      exact .send hs hi hj
    · cases h
      exact .sendRow hs hi (Nat.le_of_not_lt hj)
    · cases h
      exact .sendEnd hs (Nat.le_of_not_lt hi)
  case h_3 i hs =>
    split_ifs at h with hi
    cases h
    exact .leave hs (Int.not_lt.mp hi)
  case h_4 hs =>
    split_ifs at h with heq
    · cases h
      exact .round hs heq
    · cases h
      exact .checkAbort hs heq
  case h_5 => cases h

theorem trans_of_step {crc : List UInt8 → UInt32} {s t : Sched cfg} {l : SchedLabel cfg}
    (h : step crc cfg s l = some t) : Trans crc s l t := by
  cases l <;> simp only [step] at h
  case hear c =>
    unfold hear at h
    split at h
    · split_ifs at h with hk hcrc
      · cases h
        exact .hear ‹_› hk ‹_› hcrc
      · cases h
        exact .hearAbort ‹_› hk ‹_› (by simpa using hcrc)
    · cases h
  case next => exact next_trans h
  case receive c =>
    unfold receive at h
    split at h
    · split_ifs at h with hi hcrc
      · cases h
        exact .receive ‹_› hi ‹_› hcrc
      · cases h
        exact .receiveAbort ‹_› hi ‹_› (by simpa using hcrc)
    · cases h
  case machine c l =>
    rw [Option.map_eq_some_iff] at h
    obtain ⟨m, hm, rfl⟩ := h
    exact .machine (Machine.trans_of_step hm)

theorem step_of_trans {crc : List UInt8 → UInt32} {s t : Sched cfg} {l : SchedLabel cfg}
    (h : Trans crc s l t) : step crc cfg s l = some t := by
  cases h with
  | hear hs hk hup hcrc => simp [step, hear, hs, hk, hup, hcrc]
  | hearAbort hs hk hup hcrc => simp [step, hear, hs, hk, hup, hcrc]
  | begin hs hk => simp [step, next, hs, Nat.not_lt.mpr hk]
  | send hs hi hj => simp [step, next, hs, hi, hj]
  | sendRow hs hi hj => simp [step, next, hs, hi, Nat.not_lt.mpr hj]
  | sendEnd hs hi => simp [step, next, hs, Nat.not_lt.mpr hi]
  | receive hs hi hup hcrc => simp [step, receive, hs, hi, hup, hcrc]
  | receiveAbort hs hi hup hcrc => simp [step, receive, hs, hi, hup, hcrc]
  | leave hs hi => simp [step, next, hs, Int.not_lt.mpr hi]
  | round hs heq => simp [step, next, hs, heq]
  | checkAbort hs hne => simp [step, next, hs, hne]
  | machine hm => simp [step, Machine.step_of_trans hm]

end Sched

end CommTest.Mpi
