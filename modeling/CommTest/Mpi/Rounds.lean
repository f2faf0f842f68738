import CommTest.Lib.Ledger
import CommTest.Mpi.Sched
import Mathlib.Data.Multiset.AddSub
import Mathlib.Algebra.Order.Group.Multiset
import Mathlib.Data.Fintype.Card
import Mathlib.Tactic.Abel

/-!
# The rounds of the scheduler

Where the tasks of a round are while it lasts.

* `Machine.tasks` is the multiset of the sequence numbers of the tasks and acknowledgements in a
  client process and its channels. The threads of the process keep it (`tasks_eq_of_trans`), a send
  of the server adds to it, and a receive takes from it.
* `Machine.Inv` is what a client process keeps: which packets carry a good CRC, where the status is
  `MSGSTATUS_DONE`, and that the heartbeat is in front of the channel until `waitforall` has taken
  it.
* `Inv` is what the scheduler keeps. Its centre is `conserved`: what is under way and what was
  received in the round is, together, what was sent in it.
* `inv_of_exec`: every state a run reaches satisfies `Inv`.
-/

set_option linter.unusedSectionVars false

namespace CommTest.Mpi

open Lts Ledger

/-! ## Tasks -/

/-- The sequence numbers of the messages of a list. -/
def seqs (ps : List Packet) : Multiset UInt32 := (ps.map Packet.seq : List UInt32)

@[simp] theorem seqs_nil : seqs [] = 0 := rfl

@[simp] theorem seqs_cons (p : Packet) (ps : List Packet) : seqs (p :: ps) = {p.seq} + seqs ps := rfl

@[simp] theorem seqs_append (ps qs : List Packet) : seqs (ps ++ qs) = seqs ps + seqs qs := by
  simp [seqs]

@[simp] theorem card_seqs (ps : List Packet) : (seqs ps).card = ps.length := by
  simp [seqs]

theorem seqs_eq_zero {ps : List Packet} : seqs ps = 0 ↔ ps = [] := by
  rw [← Multiset.card_eq_zero, card_seqs, List.length_eq_zero_iff]

/-- The message in the hands of the communication thread. -/
def ClientPc.held : ClientPc → List Packet
  | .received p => [p]
  | .returning p => [p]
  | _ => []

/-- The message in the hands of a worker. -/
def WorkerPc.held : WorkerPc → List Packet
  | .busy p => [p]
  | _ => []

/-- The messages with status `MSGSTATUS_DONE`. -/
def acks (ps : List Packet) : List Packet := ps.filter fun p => p.status = msgstatusDone

@[simp] theorem acks_nil : acks [] = [] := rfl

@[simp] theorem acks_append (ps qs : List Packet) : acks (ps ++ qs) = acks ps ++ acks qs := by
  simp [acks]

theorem acks_cons_of_done {p : Packet} (ps : List Packet) (h : p.status = msgstatusDone) :
    acks (p :: ps) = p :: acks ps := by
  simp [acks, h]

/-- A heartbeat is not an acknowledgement. -/
theorem acks_cons_heartbeat (crc : List UInt8 → UInt32) (rank schedrank : UInt32) (ps : List Packet) :
    acks (heartbeatPkt crc rank schedrank :: ps) = acks ps := by
  have hne : ¬ (0 : UInt32) = msgstatusDone := by decide
  simp [acks, status_heartbeatPkt, hne]

namespace Machine

variable {thrdpm : Nat} {crc : List UInt8 → UInt32} {rank schedrank : UInt32}

/-- The tasks in the hands of the workers. -/
def hands (worker : Fin thrdpm → WorkerPc) : Multiset UInt32 :=
  total (fun pc => seqs pc.held) worker

theorem hands_eq_zero {worker : Fin thrdpm → WorkerPc} (h : ∀ w p, worker w ≠ .busy p) :
    hands worker = 0 := by
  apply total_eq_zero
  intro w
  cases hw : worker w with
  | busy p => exact absurd hw (h w p)
  | _ => rfl

/-- The tasks and acknowledgements in a client process and its channels. -/
def tasks (m : Machine thrdpm) : Multiset UInt32 :=
  seqs m.down + seqs m.client.held + seqs m.s2w + hands m.worker + seqs m.w2s + seqs (acks m.up)

theorem tasks_init : (Machine.init thrdpm).tasks = 0 := by
  have hhands : hands (fun _ : Fin thrdpm => WorkerPc.boot) = 0 := total_eq_zero fun _ => rfl
  simp [tasks, Machine.init, ClientPc.held, hhands]

/-! ## What a client process keeps -/

/-- An acknowledgement with a good CRC. -/
def IsAck (crc : List UInt8 → UInt32) (p : Packet) : Prop :=
  msgCheckcrc crc p = true ∧ p.status = msgstatusDone

/-- The heartbeat, from when it is sent until `waitforall` has taken it. -/
def greeting (crc : List UInt8 → UInt32) (rank schedrank : UInt32) (heard : Bool) (pc : ClientPc) :
    List Packet :=
  if heard = false ∧ pc.arrived = true then [heartbeatPkt crc rank schedrank] else []

/-- What a client process keeps; `heard` says whether `waitforall` has received from it. -/
structure Inv (crc : List UInt8 → UInt32) (rank schedrank : UInt32) (heard : Bool)
    (m : Machine thrdpm) : Prop where
  down : ∀ p ∈ m.down, msgCheckcrc crc p = true
  received : ∀ p, m.client = .received p → msgCheckcrc crc p = true
  w2s : ∀ p ∈ m.w2s, p.status = msgstatusDone
  returning : ∀ p, m.client = .returning p → p.status = msgstatusDone
  up : ∃ as, m.up = greeting crc rank schedrank heard m.client ++ as ∧ ∀ p ∈ as, IsAck crc p
  boot : m.client = .boot → m.up = [] ∧ heard = false
  gate : m.client ≠ .boot → m.client ≠ .barrier → m.barrierOpen
  alive : m.client ≠ .aborted

theorem inv_init (crc : List UInt8 → UInt32) (rank schedrank : UInt32) :
    (Machine.init thrdpm).Inv crc rank schedrank false where
  down := by simp [Machine.init]
  received := by simp [Machine.init]
  w2s := by simp [Machine.init]
  returning := by simp [Machine.init]
  up := ⟨[], by simp [Machine.init, greeting, ClientPc.arrived], by simp⟩
  boot := fun _ => ⟨rfl, rfl⟩
  gate := by simp [Machine.init]
  alive := by simp [Machine.init]

/-- A barrier that is open stays open. -/
theorem barrierOpen_setWorker {m : Machine thrdpm} (h : m.barrierOpen) (w : Fin thrdpm) {pc : WorkerPc}
    (hpc : pc.arrived = true) : (m.setWorker w pc).barrierOpen := by
  refine ⟨h.1, ?_⟩
  intro w'
  by_cases hw : w' = w
  · subst hw
    simpa [setWorker] using hpc
  · simpa [setWorker, hw] using h.2 w'

/-- The channel looks the same to all positions of the thread before the barrier, or from it on. -/
theorem Inv.greeting_congr {heard : Bool} {m : Machine thrdpm} (hi : m.Inv crc rank schedrank heard)
    {pc : ClientPc} (hpc : pc.arrived = m.client.arrived) :
    ∃ as, m.up = greeting crc rank schedrank heard pc ++ as ∧ ∀ p ∈ as, IsAck crc p := by
  obtain ⟨as, hup, has⟩ := hi.up
  refine ⟨as, ?_, has⟩
  rw [hup, greeting, greeting, hpc]

/-- The communication thread moves behind the barrier and leaves the rest of the process alone. -/
theorem Inv.setClient {heard : Bool} {m : Machine thrdpm} (hi : m.Inv crc rank schedrank heard)
    (hopen : m.barrierOpen) {pc : ClientPc} (hpc : pc.arrived = true) (halive : pc ≠ .aborted)
    (hreceived : ∀ p, pc = .received p → msgCheckcrc crc p = true)
    (hreturning : ∀ p, pc = .returning p → p.status = msgstatusDone) :
    { m with client := pc }.Inv crc rank schedrank heard where
  down := hi.down
  received := hreceived
  w2s := hi.w2s
  returning := hreturning
  up := hi.greeting_congr (hpc.trans hopen.1.symm)
  boot := by
    rintro rfl
    cases hpc
  gate := fun _ _ => ⟨hpc, hopen.2⟩
  alive := halive

/-- A worker that moves and leaves the rest of the process alone. -/
theorem Inv.setWorker {heard : Bool} {m : Machine thrdpm} (hi : m.Inv crc rank schedrank heard)
    (w : Fin thrdpm) {pc : WorkerPc} (hpc : pc.arrived = true) :
    (m.setWorker w pc).Inv crc rank schedrank heard where
  down := hi.down
  received := hi.received
  w2s := hi.w2s
  returning := hi.returning
  up := hi.up
  boot := hi.boot
  gate := fun hb hb' => barrierOpen_setWorker (hi.gate hb hb') w hpc
  alive := hi.alive

/-- **What a client process keeps, its threads keep.** -/
theorem inv_of_trans {heard : Bool} {m m' : Machine thrdpm} {l : MachineLabel thrdpm}
    (h : Trans crc rank schedrank m l m') (hi : m.Inv crc rank schedrank heard) :
    m'.Inv crc rank schedrank heard := by
  cases h with
  | heartbeat hc =>
      obtain ⟨hup, hheard⟩ := hi.boot hc
      refine { hi with
        received := by simp
        returning := by simp
        up := ⟨[], ?_, by simp⟩
        boot := by simp
        gate := by simp
        alive := by simp }
      simp [hup, hheard, greeting, ClientPc.arrived]
  | pass hc hopen => exact hi.setClient hopen rfl (by simp) (by simp) (by simp)
  | complete hc hd =>
      have hopen := hi.gate (by simp [hc]) (by simp [hc])
      have hdown := hi.down
      rw [hd] at hdown
      have hset := hi.setClient hopen rfl (by simp)
        (fun q hq => ClientPc.received.inj hq ▸ hdown _ List.mem_cons_self) (by simp)
      exact { hset with down := fun p hp => hdown p (List.mem_cons_of_mem _ hp), gate := hset.gate }
  | putback hc hq =>
      have hopen := hi.gate (by simp [hc]) (by simp [hc])
      have hdone := hi.w2s
      rw [hq] at hdone
      have hset := hi.setClient hopen rfl (by simp) (by simp)
        (fun q hq => ClientPc.returning.inj hq ▸ hdone _ List.mem_cons_self)
      exact { hset with w2s := fun p hp => hdone p (List.mem_cons_of_mem _ hp), gate := hset.gate }
  | put hc hcrc =>
      have hopen := hi.gate (by simp [hc]) (by simp [hc])
      have hset := hi.setClient hopen (show ClientPc.polling.arrived = true from rfl) (by simp)
        (by simp) (by simp)
      exact { hset with gate := hset.gate }
  | abort hc hcrc =>
      rw [hi.received _ hc] at hcrc
      cases hcrc
  | @reply p hc =>
      have hopen := hi.gate (by simp [hc]) (by simp [hc])
      have hset := hi.setClient hopen (show ClientPc.polling.arrived = true from rfl) (by simp)
        (by simp) (by simp)
      obtain ⟨as, hup, has⟩ := hset.up
      refine { hset with
        up := ⟨as ++ [replyPkt crc rank schedrank p], ?_, ?_⟩
        boot := ?_
        gate := hset.gate }
      · show m.up ++ [replyPkt crc rank schedrank p] = _
        rw [← List.append_assoc, ← hup]
      · intro q hq
        rcases List.mem_append.mp hq with hq | hq
        · exact has q hq
        · -- The client computes the CRC anew, over the status the worker has set.
          rw [List.mem_singleton.mp hq]
          refine ⟨msgCheckcrc_replyPkt crc rank schedrank p, ?_⟩
          rw [status_replyPkt]
          exact hi.returning p hc
      · simp
  | arrive hw => exact hi.setWorker _ rfl
  | start hw hopen => exact hi.setWorker _ rfl
  | @get w p s2w hw hq =>
      have hset := hi.setWorker w (show (WorkerPc.busy p).arrived = true from rfl)
      exact { hset with gate := hset.gate }
  | @finish w p hw =>
      have hset := hi.setWorker w (show WorkerPc.idle.arrived = true from rfl)
      refine { hset with w2s := ?_, gate := hset.gate }
      intro q hq
      rcases List.mem_append.mp hq with hq | hq
      · exact hi.w2s q hq
      · rw [List.mem_singleton.mp hq]
        exact Packet.status_setDone p

/-- **The threads of a client process lose and make no task.** -/
theorem tasks_eq_of_trans {heard : Bool} {m m' : Machine thrdpm} {l : MachineLabel thrdpm}
    (h : Trans crc rank schedrank m l m') (hi : m.Inv crc rank schedrank heard) :
    m'.tasks = m.tasks := by
  cases h with
  | heartbeat hc => simp [tasks, hc, ClientPc.held, acks_cons_heartbeat]
  | pass hc hopen => simp [tasks, hc, ClientPc.held]
  | complete hc hd =>
      simp only [tasks, hc, hd, ClientPc.held, seqs_cons, seqs_nil]
      abel
  | putback hc hq =>
      simp only [tasks, hc, hq, ClientPc.held, seqs_cons, seqs_nil]
      abel
  | put hc hcrc =>
      simp only [tasks, hc, ClientPc.held, seqs_cons, seqs_nil, seqs_append]
      abel
  | abort hc hcrc =>
      rw [hi.received _ hc] at hcrc
      cases hcrc
  | @reply p hc =>
      have hdone : (replyPkt crc rank schedrank p).status = msgstatusDone := by
        rw [status_replyPkt]
        exact hi.returning p hc
      simp only [tasks, hc, ClientPc.held, acks_append, acks_cons_of_done [] hdone, acks_nil,
        seqs_append, seqs_cons, seqs_nil, seq_replyPkt]
      abel
  | @arrive w hw =>
      have hands_eq : hands (m.setWorker w .barrier).worker = hands m.worker :=
        total_update_of_eq (by rw [hw]; rfl)
      simp only [tasks, hands_eq]
      rfl
  | @start w hw hopen =>
      have hands_eq : hands (m.setWorker w .idle).worker = hands m.worker :=
        total_update_of_eq (by rw [hw]; rfl)
      simp only [tasks, hands_eq]
      rfl
  | @get w p s2w hw hq =>
      have hands_eq : hands (m.setWorker w (.busy p)).worker = hands m.worker + {p.seq} :=
        total_update_of_add (by simp [hw, WorkerPc.held])
      simp only [tasks, hands_eq, hq, seqs_cons]
      simp only [setWorker]
      abel
  | @finish w p hw =>
      have hands_eq : hands m.worker = hands (m.setWorker w .idle).worker + {p.seq} :=
        total_of_update_add (by simp [hw, WorkerPc.held])
      simp only [tasks, hands_eq, seqs_append, seqs_cons, seqs_nil, Packet.seq_setDone]
      simp only [setWorker]
      abel

/-- Once `waitforall` has heard the client, its channel carries acknowledgements only. -/
theorem Inv.up_isAck {m : Machine thrdpm} (hi : m.Inv crc rank schedrank true) :
    ∀ p ∈ m.up, IsAck crc p := by
  obtain ⟨as, hup, has⟩ := hi.up
  have hnil : greeting crc rank schedrank true m.client = [] := by simp [greeting]
  rw [hup, hnil, List.nil_append]
  exact has

/-- The acknowledgements in a channel that carries nothing else. -/
theorem acks_eq_self {ps : List Packet} (h : ∀ p ∈ ps, IsAck crc p) : acks ps = ps := by
  unfold acks
  rw [List.filter_eq_self]
  intro p hp
  simpa using (h p hp).2

/-- `waitforall` takes the heartbeat off the channel. -/
theorem Inv.hear {m : Machine thrdpm} (hi : m.Inv crc rank schedrank false) {p : Packet}
    {up : List Packet} (hup : m.up = p :: up) :
    p = heartbeatPkt crc rank schedrank ∧ { m with up := up }.Inv crc rank schedrank true ∧
      { m with up := up }.tasks = m.tasks := by
  have hnot : m.client ≠ .boot := by
    intro hboot
    rw [(hi.boot hboot).1] at hup
    cases hup
  have harr : m.client.arrived = true := ClientPc.arrived_of_ne_boot hnot
  obtain ⟨as, hgreet, has⟩ := hi.up
  have hone : greeting crc rank schedrank false m.client = [heartbeatPkt crc rank schedrank] := by
    simp [greeting, harr]
  rw [hone, hup, List.singleton_append, List.cons.injEq] at hgreet
  obtain ⟨rfl, rfl⟩ := hgreet
  refine ⟨rfl, ?_, ?_⟩
  · refine { hi with up := ⟨up, ?_, has⟩, boot := fun hb => absurd hb hnot, gate := hi.gate }
    simp [greeting]
  · simp only [tasks, hup, acks_cons_heartbeat]

/-- The server takes an acknowledgement off the channel. -/
theorem Inv.receive {m : Machine thrdpm} (hi : m.Inv crc rank schedrank true) {p : Packet}
    {up : List Packet} (hup : m.up = p :: up) :
    IsAck crc p ∧ { m with up := up }.Inv crc rank schedrank true ∧
      m.tasks = { m with up := up }.tasks + {p.seq} := by
  have hacks := hi.up_isAck
  rw [hup] at hacks
  have hp := hacks p List.mem_cons_self
  refine ⟨hp, ?_, ?_⟩
  · refine { hi with
      up := ⟨up, ?_, fun q hq => hacks q (List.mem_cons_of_mem _ hq)⟩
      boot := fun hb => absurd (hi.boot hb).2 (by decide)
      gate := hi.gate }
    simp [greeting]
  · simp only [tasks, hup, acks_cons_of_done up hp.2, seqs_cons]
    abel

/-- The server puts a task on the channel. -/
theorem Inv.send {heard : Bool} {m : Machine thrdpm} (hi : m.Inv crc rank schedrank heard)
    (server outmsg dest : UInt32) :
    { m with down := m.down ++ [taskPkt crc server outmsg dest] }.Inv crc rank schedrank heard ∧
      { m with down := m.down ++ [taskPkt crc server outmsg dest] }.tasks = m.tasks + {outmsg} := by
  constructor
  · refine { hi with down := ?_, gate := hi.gate }
    intro p hp
    rcases List.mem_append.mp hp with hp | hp
    · exact hi.down p hp
    · rw [List.mem_singleton.mp hp]
      exact msgCheckcrc_taskPkt crc server outmsg dest
  · simp only [tasks, seqs_append, seqs_cons, seqs_nil, seq_taskPkt]
    abel

/-- A process without tasks holds no message, as soon as its heartbeat is taken. -/
theorem Inv.drained {m : Machine thrdpm} (hi : m.Inv crc rank schedrank true) (h : m.tasks = 0) :
    m.Drained := by
  unfold tasks at h
  rw [acks_eq_self hi.up_isAck] at h
  simp only [add_eq_zero, seqs_eq_zero] at h
  obtain ⟨⟨⟨⟨⟨hdown, hclient⟩, hs2w⟩, hhands⟩, hw2s⟩, hup⟩ := h
  refine ⟨hdown, hup, hs2w, hw2s, ?_, ?_⟩
  · intro p
    constructor
    · intro hc
      rw [hc] at hclient
      cases hclient
    · intro hc
      rw [hc] at hclient
      cases hclient
  · intro w p hw
    have hheld := seqs_eq_zero.mp (total_eq_zero_iff.mp hhands w)
    rw [hw] at hheld
    cases hheld

/-- A process without messages is without tasks. -/
theorem Drained.tasks_eq_zero {m : Machine thrdpm} (h : m.Drained) : m.tasks = 0 := by
  obtain ⟨hdown, hup, hs2w, hw2s, hclient, hworker⟩ := h
  have hheld : m.client.held = [] := by
    cases hc : m.client with
    | received p => exact absurd hc (hclient p).1
    | returning p => exact absurd hc (hclient p).2
    | _ => rfl
  simp [tasks, hdown, hup, hs2w, hw2s, hheld, hands_eq_zero hworker]

end Machine

namespace Config

/-- The number of tasks of a round is an `int`. -/
def Fits (cfg : Config) : Prop := cfg.machines * cfg.thrdpm < 2 ^ 31

/-- The product of two `int` wraps. -/
theorem recvBound_eq (cfg : Config) :
    cfg.recvBound = ((cfg.machines * cfg.thrdpm : Nat) : Int).bmod (2 ^ 32) := by
  have hm : cfg.machines < 2 ^ 31 := by
    have := cfg.size_lt
    omega
  rw [recvBound, Int32.toInt_mul, Int32.toInt_ofNat_of_lt hm, Int32.toInt_ofNat_of_lt cfg.thrdpm_lt,
    Nat.cast_mul]

theorem recvBound_of_fits {cfg : Config} (h : cfg.Fits) :
    cfg.recvBound = (cfg.machines * cfg.thrdpm : Nat) := by
  unfold Fits at h
  rw [recvBound_eq]
  apply Int.bmod_eq_of_le <;> omega

/-- A product that is not an `int` is too small. -/
theorem recvBound_lt_of_not_fits {cfg : Config} (h : ¬ cfg.Fits) :
    max 0 cfg.recvBound < (cfg.machines * cfg.thrdpm : Nat) := by
  unfold Fits at h
  rw [recvBound_eq]
  have hlt : ((cfg.machines * cfg.thrdpm : Nat) : Int).bmod (2 ^ 32) < (2 ^ 32 + 1) / 2 := by
    apply Int.bmod_lt
    decide
  omega

end Config

/-! ## What the scheduler keeps -/

namespace Sched

variable {cfg : Config} {crc : List UInt8 → UInt32}

/-- Whether `waitforall` has received from `c`. -/
def heard (s : Sched cfg) (c : Fin cfg.machines) : Bool := c ∈ s.alive.map Prod.fst

/-- The tasks and acknowledgements that are under way. -/
def outstanding (s : Sched cfg) : Multiset UInt32 := total Machine.tasks s.machine

/-- What the position of the server says about the round. -/
def At (s : Sched cfg) : ServerPc → Prop
  | .waitforall k => s.alive.length = k ∧ s.rounds = 0 ∧ s.roundSent = [] ∧ s.roundRcvd = []
  | .send i j =>
      s.alive.length = cfg.machines ∧ s.roundSent.length = i * cfg.thrdpm + j ∧ i ≤ cfg.machines ∧
        j ≤ cfg.thrdpm ∧ (i = cfg.machines → j = 0) ∧ s.roundRcvd = []
  | .recv i =>
      s.alive.length = cfg.machines ∧ s.roundSent.length = cfg.machines * cfg.thrdpm ∧
        s.roundRcvd.length = i ∧ (i : Int) ≤ max 0 cfg.recvBound
  | .check =>
      s.alive.length = cfg.machines ∧ s.roundSent.length = cfg.machines * cfg.thrdpm ∧
        (s.roundRcvd.length : Int) = max 0 cfg.recvBound
  | .aborted => ¬ cfg.Fits

/-- The sequence numbers of a round are consecutive, and both counters started at the first of
them. -/
def Counted (s : Sched cfg) (base : UInt32) : Prop :=
  s.roundSent = (List.range s.roundSent.length).map (fun k => base + UInt32.ofNat k) ∧
    s.outmsg = base + UInt32.ofNat s.roundSent.length ∧
    s.inmsg = base + UInt32.ofNat s.roundRcvd.length

/-- What the scheduler keeps. When the number of tasks of a round is not an `int`, the tasks are
accounted for in the first round only. -/
structure Inv (crc : List UInt8 → UInt32) (s : Sched cfg) : Prop where
  machine : ∀ c, (s.machine c).Inv crc (UInt32.ofNat c) cfg.schedrank (s.heard c)
  heartbeat : ∀ e ∈ s.alive, e.2 = heartbeatPkt crc (UInt32.ofNat e.1) cfg.schedrank
  once : (s.alive.map Prod.fst).Nodup
  counted : ∃ base, s.Counted base
  rcvd : ∀ p ∈ s.roundRcvd, p.status = msgstatusDone
  conserved : cfg.Fits ∨ s.rounds = 0 → s.outstanding + seqs s.roundRcvd = s.roundSent
  at_server : s.At s.server

theorem inv_init (crc : List UInt8 → UInt32) (cfg : Config) : (Sched.init cfg).Inv crc where
  machine := fun c => Machine.inv_init crc (UInt32.ofNat c) cfg.schedrank
  heartbeat := by simp [Sched.init]
  once := by simp [Sched.init]
  counted := ⟨0, by simp [Counted, Sched.init]⟩
  rcvd := by simp [Sched.init]
  conserved := by
    intro _
    have hzero : (Sched.init cfg).outstanding = 0 := total_eq_zero fun _ => Machine.tasks_init
    rw [hzero]
    rfl
  at_server := by simp [Sched.init, At]

/-! ### The steps -/

/-- With as many heartbeats as clients, every client is heard. -/
theorem heard_of_length {s : Sched cfg} (hnodup : (s.alive.map Prod.fst).Nodup)
    (hlen : s.alive.length = cfg.machines) (c : Fin cfg.machines) : s.heard c = true := by
  have huniv : (s.alive.map Prod.fst).toFinset = Finset.univ := by
    apply Finset.eq_univ_of_card
    rw [List.toFinset_card_of_nodup hnodup, List.length_map, hlen, Fintype.card_fin]
  have hmem : c ∈ (s.alive.map Prod.fst).toFinset := by
    rw [huniv]
    exact Finset.mem_univ c
  simpa [heard] using List.mem_toFinset.mp hmem

/-- A step of a thread of a client process. -/
theorem Inv.machine_step {s : Sched cfg} (hi : s.Inv crc) {c : Fin cfg.machines}
    {l : MachineLabel cfg.thrdpm} {m : Machine cfg.thrdpm}
    (hm : Machine.Trans crc (UInt32.ofNat c) cfg.schedrank (s.machine c) l m) :
    (s.setMachine c m).Inv crc := by
  refine { hi with machine := ?_, conserved := ?_ }
  · apply (Function.forall_update_iff s.machine
      fun c m => m.Inv crc (UInt32.ofNat c) cfg.schedrank (s.heard c)).mpr
    exact ⟨Machine.inv_of_trans hm (hi.machine c), fun c' _ => hi.machine c'⟩
  · intro h
    have hout : (s.setMachine c m).outstanding = s.outstanding :=
      total_update_of_eq (Machine.tasks_eq_of_trans hm (hi.machine c))
    rw [hout]
    exact hi.conserved h

/-- `waitforall` receives a heartbeat, from a client it has not heard. -/
theorem Inv.hear_step {s : Sched cfg} (hi : s.Inv crc) {c : Fin cfg.machines} {k : Nat} {p : Packet}
    {up : List Packet} (hs : s.server = .waitforall k) (hup : (s.machine c).up = p :: up) :
    p = heartbeatPkt crc (UInt32.ofNat c) cfg.schedrank ∧
      { s.setMachine c { s.machine c with up := up } with
        server := .waitforall (k + 1), alive := s.alive ++ [(c, p)] }.Inv crc := by
  have hat := hi.at_server
  rw [hs] at hat
  obtain ⟨hlen, hrounds, hsent, hrcvd⟩ := hat
  have hzero : s.outstanding = 0 := by
    have := hi.conserved (Or.inr hrounds)
    rw [hsent, hrcvd] at this
    simpa using this
  have hnew : s.heard c = false := by
    -- A client that was heard has nothing more to say before there are tasks.
    by_contra hheard
    rw [Bool.not_eq_false] at hheard
    have hm := hi.machine c
    rw [hheard] at hm
    have hdrained := hm.drained (total_eq_zero_iff.mp hzero c)
    rw [hdrained.2.1] at hup
    cases hup
  have hm := hi.machine c
  rw [hnew] at hm
  obtain ⟨hp, hm', htasks⟩ := hm.hear hup
  refine ⟨hp, ?_⟩
  let t : Sched cfg := { s.setMachine c { s.machine c with up := up } with
    server := .waitforall (k + 1), alive := s.alive ++ [(c, p)] }
  have hheard : t.heard c = true := by simp [t, heard]
  have hheard' : ∀ c', c' ≠ c → t.heard c' = s.heard c' := by
    intro c' hc
    simp [t, heard, hc]
  refine { hi with machine := ?_, heartbeat := ?_, once := ?_, conserved := ?_, at_server := ?_ }
  · apply (Function.forall_update_iff s.machine
      fun c m => m.Inv crc (UInt32.ofNat c) cfg.schedrank (t.heard c)).mpr
    refine ⟨hheard ▸ hm', ?_⟩
    intro c' hc
    rw [hheard' c' hc]
    exact hi.machine c'
  · intro e he
    rcases List.mem_append.mp he with he | he
    · exact hi.heartbeat e he
    · rw [List.mem_singleton.mp he]
      exact hp
  · have hfresh : c ∉ s.alive.map Prod.fst := by simpa [heard] using hnew
    rw [List.map_append, List.nodup_append]
    refine ⟨hi.once, by simp, ?_⟩
    intro a ha b hb
    rw [show b = c by simpa using hb]
    rintro rfl
    exact hfresh ha
  · intro h
    have hout : t.outstanding = s.outstanding := total_update_of_eq htasks
    show t.outstanding + seqs s.roundRcvd = s.roundSent
    rw [hout]
    exact hi.conserved h
  · refine ⟨?_, hrounds, hsent, hrcvd⟩
    simp [hlen]

/-- The round loop receives an acknowledgement. -/
theorem Inv.receive_step {s : Sched cfg} (hi : s.Inv crc) {c : Fin cfg.machines} {i : Nat} {p : Packet}
    {up : List Packet} (hs : s.server = .recv i) (hlt : (i : Int) < cfg.recvBound)
    (hup : (s.machine c).up = p :: up) :
    Machine.IsAck crc p ∧
      { s.setMachine c { s.machine c with up := up } with
        server := .recv (i + 1), inmsg := s.inmsg + 1, roundRcvd := s.roundRcvd ++ [p] }.Inv crc := by
  have hat := hi.at_server
  rw [hs] at hat
  obtain ⟨hlen, hsent, hrcvd, -⟩ := hat
  have hm := hi.machine c
  rw [heard_of_length hi.once hlen c] at hm
  obtain ⟨hp, hm', htasks⟩ := hm.receive hup
  refine ⟨hp, ?_⟩
  refine { hi with machine := ?_, counted := ?_, rcvd := ?_, conserved := ?_, at_server := ?_ }
  · apply (Function.forall_update_iff s.machine
      fun c m => m.Inv crc (UInt32.ofNat c) cfg.schedrank (s.heard c)).mpr
    refine ⟨?_, fun c' _ => hi.machine c'⟩
    rw [heard_of_length hi.once hlen c]
    exact hm'
  · obtain ⟨base, hseq, hout, hin⟩ := hi.counted
    refine ⟨base, hseq, hout, ?_⟩
    rw [hin, List.length_append, List.length_singleton, UInt32.ofNat_add, UInt32.add_assoc]
    rfl
  · intro q hq
    rcases List.mem_append.mp hq with hq | hq
    · exact hi.rcvd q hq
    · rw [List.mem_singleton.mp hq]
      exact hp.2
  · intro h
    have hout : s.outstanding = (s.setMachine c { s.machine c with up := up }).outstanding + {p.seq} :=
      total_of_update_add htasks
    show (s.setMachine c { s.machine c with up := up }).outstanding + seqs (s.roundRcvd ++ [p]) =
      s.roundSent
    rw [← hi.conserved h, hout, seqs_append, seqs_cons, seqs_nil]
    abel
  · refine ⟨hlen, hsent, ?_, ?_⟩
    · rw [List.length_append, hrcvd]
      rfl
    · rw [Nat.cast_add]
      omega

/-- The server sends a task. -/
theorem Inv.send_step {s : Sched cfg} (hi : s.Inv crc) {i j : Nat} (hs : s.server = .send i j)
    (hlt : i < cfg.machines) (hj : j < cfg.thrdpm) :
    { s.serverSendtestmsg crc ⟨i, hlt⟩ with server := .send i (j + 1) }.Inv crc := by
  have hat := hi.at_server
  rw [hs] at hat
  obtain ⟨hlen, hsent, hi', hj', hend, hrcvd⟩ := hat
  obtain ⟨hm, htasks⟩ :=
    (hi.machine ⟨i, hlt⟩).send cfg.schedrank s.outmsg (UInt32.ofNat i)
  refine { hi with machine := ?_, counted := ?_, conserved := ?_, at_server := ?_ }
  · apply (Function.forall_update_iff s.machine
      fun c m => m.Inv crc (UInt32.ofNat c) cfg.schedrank (s.heard c)).mpr
    exact ⟨hm, fun c' _ => hi.machine c'⟩
  · obtain ⟨base, hseq, hout, hin⟩ := hi.counted
    refine ⟨base, ?_, ?_, hin⟩
    · show s.roundSent ++ [s.outmsg] = (List.range (s.roundSent ++ [s.outmsg]).length).map _
      rw [List.length_append, List.length_singleton, List.range_succ, List.map_append, ← hseq,
        List.map_singleton, ← hout]
    · show s.outmsg + 1 = base + UInt32.ofNat (s.roundSent ++ [s.outmsg]).length
      rw [hout, List.length_append, List.length_singleton, UInt32.ofNat_add, UInt32.add_assoc]
      rfl
  · intro h
    have hout : (s.serverSendtestmsg crc ⟨i, hlt⟩).outstanding = s.outstanding + {s.outmsg} :=
      total_update_of_add htasks
    show (s.serverSendtestmsg crc ⟨i, hlt⟩).outstanding + seqs s.roundRcvd =
      ↑(s.roundSent ++ [s.outmsg])
    rw [hout, ← Multiset.coe_add, ← hi.conserved h, Multiset.coe_singleton]
    abel
  · refine ⟨hlen, ?_, hi', hj, ?_, hrcvd⟩
    · show (s.roundSent ++ [s.outmsg]).length = _
      rw [List.length_append, hsent]
      rfl
    · intro heq
      omega

/-- When a round is over and its tasks are as many as an `int` holds, nothing is under way. -/
theorem Inv.outstanding_of_check {s : Sched cfg} (hi : s.Inv crc) (hs : s.server = .check)
    (hfits : cfg.Fits) : s.outstanding = 0 := by
  have hat := hi.at_server
  rw [hs] at hat
  obtain ⟨-, hsent, hrcvd⟩ := hat
  rw [Config.recvBound_of_fits hfits] at hrcvd
  have hcard := congrArg Multiset.card (hi.conserved (Or.inl hfits))
  rw [Multiset.card_add, card_seqs, Multiset.coe_card] at hcard
  apply Multiset.card_eq_zero.mp
  omega

/-- When a round is over and its tasks are as many as an `int` holds, the counters agree. -/
theorem Inv.counters_of_check {s : Sched cfg} (hi : s.Inv crc) (hs : s.server = .check)
    (hfits : cfg.Fits) : s.inmsg = s.outmsg := by
  have hat := hi.at_server
  rw [hs] at hat
  obtain ⟨-, hsent, hrcvd⟩ := hat
  rw [Config.recvBound_of_fits hfits] at hrcvd
  obtain ⟨base, -, hout, hin⟩ := hi.counted
  have hlen : s.roundRcvd.length = s.roundSent.length := by omega
  rw [hin, hout, hlen]

/-- **What the scheduler keeps, every step keeps.** -/
theorem inv_of_trans {s t : Sched cfg} {l : SchedLabel cfg} (h : Trans crc s l t) (hi : s.Inv crc) :
    t.Inv crc := by
  have hat := hi.at_server
  cases h with
  | hear hs hk hup hcrc => exact (hi.hear_step hs hup).2
  | hearAbort hs hk hup hcrc =>
      rw [(hi.hear_step hs hup).1, msgCheckcrc_heartbeatPkt] at hcrc
      cases hcrc
  | begin hs hk =>
      rw [hs] at hat
      obtain ⟨hlen, hrounds, hsent, hrcvd⟩ := hat
      have hle : s.alive.length ≤ cfg.machines := by
        have := hi.once.length_le_card
        rwa [List.length_map, Fintype.card_fin] at this
      refine { hi with at_server := ⟨?_, ?_, Nat.zero_le _, Nat.zero_le _, fun _ => rfl, hrcvd⟩ }
      · show s.alive.length = cfg.machines
        omega
      · simp [hsent]
  | send hs hlt hj => exact hi.send_step hs hlt hj
  | @sendRow i j hs hlt hj =>
      rw [hs] at hat
      obtain ⟨hlen, hsent, hi', hj', hend, hrcvd⟩ := hat
      refine { hi with at_server := ⟨hlen, ?_, hlt, Nat.zero_le _, fun _ => rfl, hrcvd⟩ }
      have hjeq : j = cfg.thrdpm := by omega
      show s.roundSent.length = (i + 1) * cfg.thrdpm + 0
      rw [hsent, hjeq, Nat.add_one_mul, Nat.add_zero]
  | @sendEnd i j hs hge =>
      rw [hs] at hat
      obtain ⟨hlen, hsent, hi', hj', hend, hrcvd⟩ := hat
      have hieq : i = cfg.machines := by omega
      refine { hi with at_server := ⟨hlen, ?_, ?_, Int.le_max_left _ _⟩ }
      · show s.roundSent.length = cfg.machines * cfg.thrdpm
        rw [hsent, hend hieq, hieq, Nat.add_zero]
      · show s.roundRcvd.length = 0
        rw [hrcvd, List.length_nil]
  | receive hs hlt hup hcrc => exact (hi.receive_step hs hlt hup).2
  | receiveAbort hs hlt hup hcrc =>
      rw [(hi.receive_step hs hlt hup).1.1] at hcrc
      cases hcrc
  | leave hs hge =>
      rw [hs] at hat
      obtain ⟨hlen, hsent, hrcvd, hle⟩ := hat
      refine { hi with at_server := ⟨hlen, hsent, ?_⟩ }
      show (s.roundRcvd.length : Int) = max 0 cfg.recvBound
      omega
  | round hs heq =>
      rw [hs] at hat
      refine { hi with counted := ?_, rcvd := ?_, conserved := ?_, at_server := ?_ }
      · refine ⟨s.outmsg, rfl, ?_, ?_⟩
        · simp
        · simp [heq]
      · simp
      · -- The next round starts with nothing under way.
        intro h
        have hfits : cfg.Fits := by
          rcases h with h | h
          · exact h
          · cases h
        show s.outstanding + seqs [] = _
        rw [hi.outstanding_of_check hs hfits]
        rfl
      · refine ⟨hat.1, ?_, Nat.zero_le _, Nat.zero_le _, fun _ => rfl, rfl⟩
        simp
  | checkAbort hs hne =>
      refine { hi with at_server := ?_ }
      intro hfits
      exact hne (hi.counters_of_check hs hfits)
  | machine hm => exact hi.machine_step hm

/-- **Every state a run reaches satisfies the invariant.** -/
theorem inv_of_exec {s : Sched cfg} {ls : List (SchedLabel cfg)}
    (hrun : exec (step crc cfg) (Sched.init cfg) ls = some s) : s.Inv crc :=
  exec_invariant (fun _ _ _ hi h => inv_of_trans (trans_of_step h) hi) (inv_init crc cfg) hrun

end Sched

end CommTest.Mpi
