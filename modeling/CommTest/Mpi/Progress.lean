import CommTest.Mpi.Protocol

/-!
# How long a round takes

A poll that finds nothing is no step of the model. The steps that remain are all needed, and there is
nothing else to do: what the threads do in a round, they do in some order in every round.

* `stepsLeft` is what is left to do in this round. Every step of every thread takes one from it
  (`stepsLeft_of_trans`), and the end of a round adds `perRound`.
* `rounds_of_length`: so the rounds of a run can be told from its length, whatever the interleaving, and
  no interleaving keeps the scheduler from its next round.
-/

set_option linter.unusedSectionVars false

namespace CommTest.Mpi

open Lts Ledger

namespace Config

/-- The steps of a round: eight for each task, one for each client process and three of the server. -/
def perRound (cfg : Config) : Nat := 8 * (cfg.machines * cfg.thrdpm) + cfg.machines + 3

/-- The steps before the first round: the heartbeats and the barrier. -/
def startup (cfg : Config) : Nat := cfg.machines + 1 + cfg.machines * (2 + 2 * cfg.thrdpm)

end Config

/-! ## A client process -/

namespace Machine

variable {thrdpm : Nat} {crc : List UInt8 → UInt32} {rank schedrank : UInt32}

/-- **Every step of a client process uses up one of those before it.** -/
theorem weight_of_trans {m m' : Machine thrdpm} {l : MachineLabel thrdpm}
    (h : Trans crc rank schedrank m l m') (halive : m'.client ≠ .aborted) : m.weight = m'.weight + 1 := by
  -- where a worker moves, it changes the total by the difference
  have hworker : ∀ (w : Fin thrdpm) (pc : WorkerPc) (k : Nat), (m.worker w).weight = pc.weight + k →
      total WorkerPc.weight m.worker = total WorkerPc.weight (m.setWorker w pc).worker + k :=
    fun _ _ _ hw => total_of_update_add hw
  cases h with
  | heartbeat hc => simp only [weight, hc, ClientPc.weight]; omega
  | pass hc hopen => simp only [weight, hc, ClientPc.weight]; omega
  | complete hc hd => simp only [weight, hc, hd, ClientPc.weight, List.length_cons]; omega
  | putback hc hq => simp only [weight, hc, hq, ClientPc.weight, List.length_cons]; omega
  | put hc hcrc =>
      simp only [weight, hc, ClientPc.weight, List.length_append, List.length_singleton]
      omega
  | abort hc hcrc => exact absurd rfl halive
  | reply hc => simp only [weight, hc, ClientPc.weight]; omega
  | @arrive w hw =>
      have hsum := hworker w .barrier 1 (by rw [hw]; rfl)
      simp only [weight, hsum]
      simp only [setWorker]
      omega
  | @start w hw hopen =>
      have hsum := hworker w .idle 1 (by rw [hw]; rfl)
      simp only [weight, hsum]
      simp only [setWorker]
      omega
  | @get w p s2w hw hq =>
      have hsum : total WorkerPc.weight (m.setWorker w (.busy p)).worker =
          total WorkerPc.weight m.worker + 3 := total_update_of_add (by rw [hw]; rfl)
      simp only [weight, hsum, hq, List.length_cons]
      simp only [setWorker]
      omega
  | @finish w p hw =>
      have hsum := hworker w .idle 3 (by rw [hw]; rfl)
      simp only [weight, hsum, List.length_append, List.length_singleton]
      simp only [setWorker]
      omega

/-- A task has at most six steps before it in a client process, and each thread two of its own. -/
theorem weight_le (m : Machine thrdpm) : m.weight ≤ 6 * m.tasks.card + (2 + 2 * thrdpm) := by
  have hclient : m.client.weight ≤ 6 * m.client.held.length + 2 := by
    cases m.client <;> simp [ClientPc.weight, ClientPc.held]
  have hworker : ∀ w, (m.worker w).weight ≤ 6 * (seqs (m.worker w).held).card + 2 := by
    intro w
    cases m.worker w <;> simp [WorkerPc.weight, WorkerPc.held]
  have hworkers := total_le WorkerPc.weight (fun pc => (seqs pc.held).card) hworker
  rw [← card_total m.worker, Fintype.card_fin] at hworkers
  have hhands : (hands m.worker).card = (total (fun pc => seqs pc.held) m.worker).card := rfl
  unfold weight tasks
  simp only [Multiset.card_add, card_seqs]
  omega

end Machine

/-! ## The scheduler -/

namespace Sched

variable {cfg : Config} {crc : List UInt8 → UInt32}

/-- The steps that the server and the tasks not yet sent have before them in this round. -/
def serverWork (cfg : Config) : ServerPc → Nat
  | .waitforall k => (cfg.machines - k) + 1 + cfg.perRound
  | .send i j =>
      7 * (cfg.machines * cfg.thrdpm - (i * cfg.thrdpm + j)) + (cfg.machines - i) +
        cfg.machines * cfg.thrdpm + 3
  | .recv i => (cfg.machines * cfg.thrdpm - i) + 2
  | .check => 1
  | .aborted => 0

/-- What is left to do in this round. -/
def stepsLeft (s : Sched cfg) : Nat := serverWork cfg s.server + total Machine.weight s.machine

/-- **Every step takes one, and the end of a round adds the next.** -/
theorem stepsLeft_of_trans {s t : Sched cfg} {l : SchedLabel cfg} (hi : s.Inv crc) (hfits : cfg.Fits)
    (h : Trans crc s l t) :
    1 + t.stepsLeft + s.rounds * cfg.perRound = s.stepsLeft + t.rounds * cfg.perRound := by
  have hi' := inv_of_trans h hi
  have hat := hi.at_server
  have hbound := Config.recvBound_of_fits hfits
  -- the server takes a message out of a channel
  have hup : ∀ (c : Fin cfg.machines) (up : List Packet),
      total Machine.weight (Function.update s.machine c { s.machine c with up := up }) =
        total Machine.weight s.machine := fun c up => total_update_of_eq rfl
  cases h with
  | hear hs hk hq hcrc =>
      simp only [stepsLeft, setMachine, hup, hs, serverWork]
      omega
  | hearAbort hs hk hq hcrc => exact absurd hfits hi'.at_server
  | begin hs hk =>
      simp only [stepsLeft, hs, serverWork, Config.perRound, Nat.zero_mul, Nat.sub_zero]
      omega
  | @send i j hs hlt hj =>
      have hrow : (i + 1) * cfg.thrdpm ≤ cfg.machines * cfg.thrdpm := Nat.mul_le_mul_right _ hlt
      have htask : total Machine.weight (s.serverSendtestmsg crc ⟨i, hlt⟩).machine =
          total Machine.weight s.machine + 6 := by
        apply total_update_of_add
        simp only [Machine.weight, List.length_append, List.length_singleton]
        omega
      rw [Nat.add_one_mul] at hrow
      simp only [stepsLeft, htask, hs, serverWork]
      show _ + s.rounds * _ = _ + s.rounds * _
      omega
  | @sendRow i j hs hlt hj =>
      rw [hs] at hat
      obtain ⟨-, -, -, hle, -⟩ := hat
      simp only [stepsLeft, hs, serverWork, Nat.add_one_mul]
      omega
  | sendEnd hs hge =>
      rw [hs] at hat
      obtain ⟨-, -, hle, -, hend, -⟩ := hat
      obtain rfl := Nat.le_antisymm hle hge
      simp only [stepsLeft, hs, serverWork, hend rfl]
      omega
  | receive hs hlt hq hcrc =>
      simp only [stepsLeft, setMachine, hup, hs, serverWork]
      omega
  | receiveAbort hs hlt hq hcrc => exact absurd hfits hi'.at_server
  | leave hs hge =>
      rw [hs] at hat
      obtain ⟨-, -, -, hle⟩ := hat
      simp only [stepsLeft, hs, serverWork]
      omega
  | round hs heq =>
      simp only [stepsLeft, hs, serverWork, Config.perRound, Nat.zero_mul, Nat.sub_zero, Nat.add_one_mul]
      omega
  | checkAbort hs hne => exact absurd hfits hi'.at_server
  | @machine c l m hm =>
      have halive : m.client ≠ .aborted := by
        have hc := (hi'.machine c).alive
        simp only [setMachine, Function.update_self] at hc
        exact hc
      have htotal : total Machine.weight s.machine =
          total Machine.weight (s.setMachine c m).machine + 1 :=
        total_of_update_add (Machine.weight_of_trans hm halive)
      simp only [stepsLeft, htotal]
      show _ + s.rounds * _ = _ + s.rounds * _
      simp only [setMachine]
      omega

/-- What is left to do is at most a round, and the start. -/
theorem Inv.stepsLeft_le {s : Sched cfg} (hi : s.Inv crc) (hfits : cfg.Fits) :
    s.stepsLeft ≤ cfg.startup + cfg.perRound := by
  have hat := hi.at_server
  have hbound := Config.recvBound_of_fits hfits
  have hcard := congrArg Multiset.card (hi.conserved (Or.inl hfits))
  rw [Multiset.card_add, card_seqs, Multiset.coe_card] at hcard
  have hweight := total_le Machine.weight (fun m => m.tasks.card) fun c => Machine.weight_le (s.machine c)
  rw [← card_total s.machine, Fintype.card_fin] at hweight
  have hout : s.outstanding.card = (total Machine.tasks s.machine).card := rfl
  unfold stepsLeft Config.startup
  cases hs : s.server with rw [hs] at hat
  | waitforall k =>
      obtain ⟨-, -, hsent, -⟩ := hat
      rw [hsent, List.length_nil] at hcard
      simp only [serverWork]
      omega
  | send i j =>
      obtain ⟨-, hsent, hle, hj, hend, hrcvd⟩ := hat
      have hrow : i * cfg.thrdpm + j ≤ cfg.machines * cfg.thrdpm := by
        rcases Nat.lt_or_ge i cfg.machines with hlt | hge
        · have := Nat.mul_le_mul_right cfg.thrdpm hlt
          rw [Nat.succ_mul] at this
          omega
        · rw [hend (Nat.le_antisymm hle hge), Nat.le_antisymm hle hge]
          omega
      rw [hrcvd, List.length_nil] at hcard
      simp only [serverWork, Config.perRound]
      omega
  | recv i =>
      obtain ⟨-, hsent, hrcvd, -⟩ := hat
      simp only [serverWork, Config.perRound]
      omega
  | check =>
      obtain ⟨-, hsent, hrcvd⟩ := hat
      simp only [serverWork, Config.perRound]
      omega
  | aborted => exact absurd hfits hat

/-- There is always something left to do. -/
theorem Inv.stepsLeft_pos {s : Sched cfg} (hi : s.Inv crc) (hfits : cfg.Fits) : 0 < s.stepsLeft := by
  have hat := hi.at_server
  unfold stepsLeft
  cases hs : s.server with simp only [serverWork]
  | aborted =>
      rw [hs] at hat
      exact absurd hfits hat
  | _ => omega

theorem stepsLeft_init (cfg : Config) : (Sched.init cfg).stepsLeft = cfg.startup + cfg.perRound := by
  have hworkers : total WorkerPc.weight (fun _ : Fin cfg.thrdpm => WorkerPc.boot) = cfg.thrdpm * 2 := by
    rw [total_const, Fintype.card_fin]
    rfl
  have hmachine : (Machine.init cfg.thrdpm).weight = 2 + 2 * cfg.thrdpm := by
    simp only [Machine.init, Machine.weight, hworkers, ClientPc.weight, List.length_nil]
    omega
  have htotal : total Machine.weight (Sched.init cfg).machine = cfg.machines * (2 + 2 * cfg.thrdpm) := by
    rw [show (Sched.init cfg).machine = fun _ => Machine.init cfg.thrdpm from rfl, total_const,
      Fintype.card_fin, hmachine]
  rw [stepsLeft, htotal]
  show cfg.machines - 0 + 1 + cfg.perRound + _ = _
  unfold Config.startup
  omega

/-- **The rounds of a run can be told from its length.** In every interleaving a round takes the same
number of steps, and there is a next one. -/
theorem rounds_of_length (crc : List UInt8 → UInt32) (hfits : cfg.Fits) {ls : List (SchedLabel cfg)}
    {s : Sched cfg} (hrun : exec (step crc cfg) (Sched.init cfg) ls = some s) :
    s.rounds * cfg.perRound ≤ ls.length ∧
      ls.length < cfg.startup + (s.rounds + 1) * cfg.perRound ∧
      ∃ l t, step crc cfg s l = some t := by
  have hi := inv_of_exec hrun
  have hlen : ls.length + s.stepsLeft + 0 * cfg.perRound =
      (Sched.init cfg).stepsLeft + s.rounds * cfg.perRound :=
    exec_length (fun _ _ _ hi h => inv_of_trans (trans_of_step h) hi)
      (fun _ _ _ hi h => stepsLeft_of_trans hi hfits (trans_of_step h)) (inv_init crc cfg) hrun
  have hle := hi.stepsLeft_le hfits
  have hpos := hi.stepsLeft_pos hfits
  rw [stepsLeft_init, Nat.zero_mul] at hlen
  refine ⟨by omega, ?_, ?_⟩
  · rw [Nat.add_one_mul]
    omega
  · by_cases hs : s.server = .check
    · exact ⟨_, _, step_of_trans (.round hs (hi.counters_of_check hs hfits))⟩
    · have hrunning : s.server ≠ .aborted := by
        intro habort
        have hat := hi.at_server
        rw [habort] at hat
        exact hat hfits
      obtain ⟨l, t, htrans⟩ := Underway.exists_trans ⟨hi, Or.inl hfits, hrunning⟩ hs
      exact ⟨l, t, step_of_trans htrans⟩

end Sched

theorem two_lt_int : 2 < 2 ^ 31 := by decide

/-- One client process with two workers. -/
def pairOfWorkers : Config := ⟨1, 2, Nat.one_pos, Nat.two_pos, two_lt_int, two_lt_int⟩

namespace Sched

/-- The start, and one round in which each worker does one task. -/
def firstRound (c : Fin pairOfWorkers.machines) (v w : Fin pairOfWorkers.thrdpm) :
    List (SchedLabel pairOfWorkers) :=
  [.machine c .heartbeat, .hear c, .next, .machine c (.arrive v), .machine c (.arrive w),
    .machine c .pass, .machine c (.start v), .machine c (.start w), .next, .next, .next, .next,
    .machine c .complete, .machine c .put, .machine c (.get w), .machine c .complete, .machine c .put,
    .machine c (.get v), .machine c (.finish w), .machine c .putback, .machine c .reply, .receive c,
    .machine c (.finish v), .machine c .putback, .machine c .reply, .receive c, .next, .next]

theorem rounds_of_length_firstRound :
    ∃ s, exec (step (fun _ => 0) pairOfWorkers) (Sched.init pairOfWorkers)
        (firstRound ⟨0, Nat.one_pos⟩ ⟨0, Nat.two_pos⟩ ⟨1, Nat.one_lt_two⟩) = some s ∧
      (s.rounds * 20 ≤ 28 ∧ 28 < 8 + (s.rounds + 1) * 20) ∧ s.rounds = 1 := by
  have hfits : pairOfWorkers.Fits := two_lt_int
  obtain ⟨s, hrun, htest⟩ := exists_exec (step (fun _ => 0) pairOfWorkers) (Sched.init pairOfWorkers)
    (firstRound ⟨0, Nat.one_pos⟩ ⟨0, Nat.two_pos⟩ ⟨1, Nat.one_lt_two⟩) (fun s => s.rounds == 1)
    (by decide +kernel)
  obtain ⟨hlow, hhigh, -⟩ := rounds_of_length (fun _ => 0) hfits hrun
  exact ⟨s, hrun, ⟨hlow, hhigh⟩, beq_iff_eq.mp htest⟩

end Sched

end CommTest.Mpi
