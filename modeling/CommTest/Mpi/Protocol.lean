import CommTest.Mpi.Rounds
import Mathlib.Data.Prod.Lex

/-!
# The round protocol

* `RoundProtocol` says what the rounds of the scheduler are for: `waitforall` takes one heartbeat
  from each client, a round receives each of its tasks once and finished, and when it is over
  nothing is under way and both counters agree. No assertion fails.
* `roundProtocol_of_inv`: when the number of tasks of a round is an `int`, the invariant says so.
* `exists_trans` and `togo_lt_of_trans`: short of the end of a round some thread can go on, and
  every step brings the end nearer, so `exists_exec_check` leads every round to its end.
* `roundProtocol_iff_fits`: the protocol is kept by all runs if and only if `machines * thrdpm` does
  not leave the range of an `int`. Past it the bound of the receiving loop wraps, and the server
  leaves the loop with tasks under way.
-/

set_option linter.unusedSectionVars false

namespace CommTest.Mpi

open Lts Ledger

/-! ## The property -/

/-- The round protocol, in a state of the scheduler. -/
structure RoundProtocol {cfg : Config} (crc : List UInt8 → UInt32) (s : Sched cfg) : Prop where
  /-- `waitforall` receives heartbeats and no acknowledgement. -/
  heartbeats : ∀ e ∈ s.alive, e.2 = heartbeatPkt crc (UInt32.ofNat e.1) cfg.schedrank ∧
    e.2.status ≠ msgstatusDone
  /-- It receives at most one from each client. -/
  heardOnce : (s.alive.map Prod.fst).Nodup
  /-- When it has returned, it has received one from each client. -/
  heardAll : (∀ k, s.server ≠ .waitforall k) → ∀ c, c ∈ s.alive.map Prod.fst
  /-- The round loop receives no heartbeat. -/
  noHeartbeat : ∀ p ∈ s.roundRcvd, ∀ c : Fin cfg.machines,
    p ≠ heartbeatPkt crc (UInt32.ofNat c) cfg.schedrank
  /-- It receives finished tasks of this round. -/
  finished : ∀ p ∈ s.roundRcvd, p.status = msgstatusDone ∧ p.seq ∈ s.roundSent
  /-- It receives each at most once. -/
  distinct : (s.roundRcvd.map Packet.seq).Nodup
  /-- Behind the receiving loop nothing is under way, and the counters agree. -/
  drained : s.server = .check → (∀ c, (s.machine c).Drained) ∧ s.inmsg = s.outmsg
  /-- No assertion fails. -/
  noAbort : s.server ≠ .aborted ∧ ∀ c, (s.machine c).client ≠ .aborted

namespace Sched

variable {cfg : Config} {crc : List UInt8 → UInt32}

/-- A round sends no more tasks than there are workers. -/
theorem Inv.length_roundSent_le {s : Sched cfg} (hi : s.Inv crc) (hne : s.server ≠ .aborted) :
    s.roundSent.length ≤ cfg.machines * cfg.thrdpm := by
  have hat := hi.at_server
  cases hs : s.server with
  | waitforall k =>
      rw [hs] at hat
      rw [hat.2.2.1]
      exact Nat.zero_le _
  | send i j =>
      rw [hs] at hat
      obtain ⟨-, hsent, hle, hj, hend, -⟩ := hat
      rw [hsent]
      rcases Nat.lt_or_eq_of_le hle with hlt | heq
      · have hrow := Nat.mul_le_mul_right cfg.thrdpm (Nat.succ_le_of_lt hlt)
        rw [Nat.succ_mul] at hrow
        omega
      · rw [hend heq, heq, Nat.add_zero]
  | recv i =>
      rw [hs] at hat
      exact hat.2.1.le
  | check =>
      rw [hs] at hat
      exact hat.2.1.le
  | aborted => exact absurd hs hne

/-- The sequence numbers of a round are distinct, when its tasks are as many as an `int` holds. -/
theorem Inv.nodup_roundSent {s : Sched cfg} (hi : s.Inv crc) (hne : s.server ≠ .aborted)
    (hfits : cfg.Fits) : s.roundSent.Nodup := by
  have hle := hi.length_roundSent_le hne
  unfold Config.Fits at hfits
  obtain ⟨base, hseq, -, -⟩ := hi.counted
  rw [hseq]
  apply List.Nodup.map_on _ List.nodup_range
  intro a ha b hb hab
  rw [List.mem_range] at ha hb
  have hab' : UInt32.ofNat a = UInt32.ofNat b := (UInt32.add_right_inj base).mp hab
  have hnat := congrArg UInt32.toNat hab'
  rw [UInt32.toNat_ofNat_of_lt' (by rw [UInt32.size]; omega),
    UInt32.toNat_ofNat_of_lt' (by rw [UInt32.size]; omega)] at hnat
  exact hnat

/-- When `waitforall` has returned, all clients are heard. -/
theorem Inv.length_alive {s : Sched cfg} (hi : s.Inv crc) (hw : ∀ k, s.server ≠ .waitforall k)
    (hne : s.server ≠ .aborted) : s.alive.length = cfg.machines := by
  have hat := hi.at_server
  cases hs : s.server with
  | waitforall k => exact absurd hs (hw k)
  | aborted => exact absurd hs hne
  | _ =>
      rw [hs] at hat
      exact hat.1

/-- **The invariant gives the protocol**, when the number of tasks of a round is an `int`. -/
theorem roundProtocol_of_inv {s : Sched cfg} (hi : s.Inv crc) (hfits : cfg.Fits) :
    RoundProtocol crc s := by
  have hzero : (0 : UInt32) ≠ msgstatusDone := by decide
  have hne : s.server ≠ .aborted := by
    intro hs
    have hat := hi.at_server
    rw [hs] at hat
    exact hat hfits
  have hle : seqs s.roundRcvd ≤ (s.roundSent : Multiset UInt32) := by
    rw [← hi.conserved (Or.inl hfits)]
    exact Multiset.le_add_left _ _
  constructor
  · intro e he
    rw [hi.heartbeat e he]
    refine ⟨rfl, ?_⟩
    rw [status_heartbeatPkt]
    exact hzero
  · exact hi.once
  · intro hw c
    have := heard_of_length hi.once (hi.length_alive hw hne) c
    simpa [heard] using this
  · intro p hp c heq
    have hdone := hi.rcvd p hp
    rw [heq, status_heartbeatPkt] at hdone
    exact hzero hdone
  · intro p hp
    refine ⟨hi.rcvd p hp, ?_⟩
    have hmem : p.seq ∈ seqs s.roundRcvd := Multiset.mem_coe.mpr (List.mem_map_of_mem hp)
    exact Multiset.mem_coe.mp (Multiset.mem_of_le hle hmem)
  · have hnodup : (s.roundSent : Multiset UInt32).Nodup :=
      Multiset.coe_nodup.mpr (hi.nodup_roundSent hne hfits)
    exact Multiset.coe_nodup.mp (Multiset.nodup_of_le hle hnodup)
  · intro hs
    refine ⟨?_, hi.counters_of_check hs hfits⟩
    intro c
    have hlen := hi.length_alive (fun k => by rw [hs]; simp) hne
    have hm := hi.machine c
    rw [heard_of_length hi.once hlen c] at hm
    exact hm.drained (total_eq_zero_iff.mp (hi.outstanding_of_check hs hfits) c)
  · exact ⟨hne, fun c => (hi.machine c).alive⟩

end Sched

/-! ## Rounds come to an end -/

/-- The steps a message or a thread still has before it. -/
def ClientPc.weight : ClientPc → Nat
  | .boot => 2
  | .barrier => 1
  | .polling => 0
  | .received _ => 5
  | .returning _ => 1
  | .aborted => 0

/-- The steps a message or a thread still has before it. -/
def WorkerPc.weight : WorkerPc → Nat
  | .boot => 2
  | .barrier => 1
  | .idle => 0
  | .busy _ => 3

namespace Machine

variable {thrdpm : Nat} {crc : List UInt8 → UInt32} {rank schedrank : UInt32}

/-- The steps the threads of a client process still have before them. -/
def weight (m : Machine thrdpm) : Nat :=
  6 * m.down.length + m.client.weight + 4 * m.s2w.length + total WorkerPc.weight m.worker +
    2 * m.w2s.length

/-- Every step of a client process uses one up. -/
theorem weight_lt_of_trans {m m' : Machine thrdpm} {l : MachineLabel thrdpm}
    (h : Trans crc rank schedrank m l m') : m'.weight < m.weight := by
  cases h with
  | heartbeat hc => simp [weight, hc, ClientPc.weight]
  | pass hc hopen => simp [weight, hc, ClientPc.weight]
  | complete hc hd =>
      simp only [weight, hc, hd, ClientPc.weight, List.length_cons]
      omega
  | putback hc hq =>
      simp only [weight, hc, hq, ClientPc.weight, List.length_cons]
      omega
  | put hc hcrc =>
      simp only [weight, hc, ClientPc.weight, List.length_append, List.length_singleton]
      omega
  | abort hc hcrc =>
      simp only [weight, hc, ClientPc.weight]
      omega
  | reply hc =>
      simp only [weight, hc, ClientPc.weight]
      omega
  | @arrive w hw =>
      have hsum : total WorkerPc.weight m.worker =
          total WorkerPc.weight (m.setWorker w .barrier).worker + 1 :=
        total_of_update_add (by rw [hw]; rfl)
      simp only [weight, hsum]
      simp only [setWorker]
      omega
  | @start w hw hopen =>
      have hsum : total WorkerPc.weight m.worker =
          total WorkerPc.weight (m.setWorker w .idle).worker + 1 :=
        total_of_update_add (by rw [hw]; rfl)
      simp only [weight, hsum]
      simp only [setWorker]
      omega
  | @get w p s2w hw hq =>
      have hsum : total WorkerPc.weight (m.setWorker w (.busy p)).worker =
          total WorkerPc.weight m.worker + 3 :=
        total_update_of_add (by rw [hw]; rfl)
      simp only [weight, hsum, hq, List.length_cons]
      simp only [setWorker]
      omega
  | @finish w p hw =>
      have hsum : total WorkerPc.weight m.worker =
          total WorkerPc.weight (m.setWorker w .idle).worker + 3 :=
        total_of_update_add (by rw [hw]; rfl)
      simp only [weight, hsum, List.length_append, List.length_singleton]
      simp only [setWorker]
      omega

/-- A barrier that is not open waits for a thread that has not come to it. -/
theorem exists_boot_of_not_barrierOpen {m : Machine thrdpm} (hc : m.client.arrived = true)
    (h : ¬ m.barrierOpen) : ∃ w, m.worker w = .boot := by
  by_contra hnone
  apply h
  refine ⟨hc, ?_⟩
  intro w
  cases hw : m.worker w with
  | boot => exact absurd ⟨w, hw⟩ hnone
  | _ => rfl

/-- With tasks in its queues or in the hands of its threads, a client process can go on. -/
theorem Inv.exists_trans {m : Machine thrdpm} (hi : m.Inv crc rank schedrank true)
    (hthr : 0 < thrdpm) (htasks : m.tasks ≠ 0) (hup : m.up = []) :
    ∃ l m', Trans crc rank schedrank m l m' := by
  cases hc : m.client with
  | boot => exact absurd (hi.boot hc).2 (by decide)
  | barrier =>
      by_cases hopen : m.barrierOpen
      · exact ⟨_, _, .pass hc hopen⟩
      · obtain ⟨w, hw⟩ := exists_boot_of_not_barrierOpen (by rw [hc]; rfl) hopen
        exact ⟨_, _, .arrive hw⟩
  | received p => exact ⟨_, _, .put hc (hi.received p hc)⟩
  | returning p => exact ⟨_, _, .reply hc⟩
  | aborted => exact absurd hc hi.alive
  | polling =>
      have hopen := hi.gate (by simp [hc]) (by simp [hc])
      by_cases hbusy : ∃ w p, m.worker w = .busy p
      · obtain ⟨w, p, hw⟩ := hbusy
        exact ⟨_, _, .finish hw⟩
      · have hhands : hands m.worker = 0 := hands_eq_zero fun w p hw => hbusy ⟨w, p, hw⟩
        cases hdown : m.down with
        | cons p down => exact ⟨_, _, .complete hc hdown⟩
        | nil =>
            cases hw2s : m.w2s with
            | cons p w2s => exact ⟨_, _, .putback hc hw2s⟩
            | nil =>
                cases hs2w : m.s2w with
                | nil =>
                    refine absurd ?_ htasks
                    simp [tasks, hc, hdown, hw2s, hs2w, hup, hhands, ClientPc.held]
                | cons p s2w =>
                    -- All workers are idle or on their way from the barrier; the first one will do.
                    cases hw : m.worker ⟨0, hthr⟩ with
                    | boot =>
                        have harr := hopen.2 ⟨0, hthr⟩
                        rw [hw] at harr
                        cases harr
                    | barrier => exact ⟨_, _, .start hw hopen⟩
                    | idle => exact ⟨_, _, .get hw hs2w⟩
                    | busy q => exact absurd ⟨_, q, hw⟩ hbusy

end Machine

namespace Sched

variable {cfg : Config} {crc : List UInt8 → UInt32}

/-- The steps the server still has before it in this round. -/
def serverTogo (cfg : Config) : ServerPc → Nat
  | .waitforall k => (cfg.machines - k) + cfg.machines * (cfg.thrdpm + 1) + cfg.recvBound.toNat + 3
  | .send i j => (cfg.machines - i) * (cfg.thrdpm + 1) - j + cfg.recvBound.toNat + 2
  | .recv i => (cfg.recvBound - i).toNat + 1
  | .check => 0
  | .aborted => 0

/-- The steps still to go in this round: those of the server first. -/
def togo (s : Sched cfg) : ℕ ×ₗ ℕ := toLex (serverTogo cfg s.server, total Machine.weight s.machine)

/-- A step of the server. -/
theorem togo_lt_of_server {s t : Sched cfg} (h : serverTogo cfg t.server < serverTogo cfg s.server) :
    t.togo < s.togo := Prod.Lex.toLex_lt_toLex.mpr (Or.inl h)

/-- **Every step brings the end of the round nearer.** -/
theorem togo_lt_of_trans {s t : Sched cfg} {l : SchedLabel cfg} (h : Trans crc s l t)
    (hi : s.Inv crc) (hne : s.server ≠ .check) : t.togo < s.togo := by
  have hat := hi.at_server
  cases h with
  | hear hs hk | hearAbort hs hk =>
      apply togo_lt_of_server
      simp only [hs, serverTogo]
      omega
  | begin hs hk =>
      apply togo_lt_of_server
      simp only [hs, serverTogo, Nat.sub_zero]
      omega
  | @send i j hs hlt hj =>
      apply togo_lt_of_server
      have hrow : cfg.thrdpm + 1 ≤ (cfg.machines - i) * (cfg.thrdpm + 1) :=
        Nat.le_mul_of_pos_left _ (by omega)
      simp only [hs, serverTogo]
      omega
  | @sendRow i j hs hlt hj =>
      rw [hs] at hat
      obtain ⟨-, -, -, hle, -, -⟩ := hat
      apply togo_lt_of_server
      have hrow : (cfg.machines - i) * (cfg.thrdpm + 1) =
          (cfg.machines - (i + 1)) * (cfg.thrdpm + 1) + (cfg.thrdpm + 1) := by
        rw [← Nat.succ_mul]
        congr 1
        omega
      simp only [hs, serverTogo]
      omega
  | sendEnd hs hge =>
      rw [hs] at hat
      apply togo_lt_of_server
      simp only [hs, serverTogo]
      omega
  | receive hs hlt | receiveAbort hs hlt =>
      apply togo_lt_of_server
      simp only [hs, serverTogo]
      omega
  | leave hs hge =>
      apply togo_lt_of_server
      simp only [hs, serverTogo]
      omega
  | round hs heq => exact absurd hs hne
  | checkAbort hs hneq => exact absurd hs hne
  | machine hm =>
      exact Prod.Lex.toLex_lt_toLex.mpr
        (Or.inr ⟨rfl, total_update_lt (Machine.weight_lt_of_trans hm)⟩)

/-- A state in the middle of a round whose tasks are accounted for. -/
structure Underway (crc : List UInt8 → UInt32) (s : Sched cfg) : Prop where
  inv : s.Inv crc
  counted : cfg.Fits ∨ s.rounds = 0
  running : s.server ≠ .aborted

/-- `waitforall` gets on: a client it has not heard has sent its heartbeat or can send it. -/
theorem Inv.exists_trans_waitforall {s : Sched cfg} (hi : s.Inv crc) {k : Nat}
    (hs : s.server = .waitforall k) : ∃ l t, Trans crc s l t := by
  by_cases hk : k < cfg.machines
  · have hat := hi.at_server
    rw [hs] at hat
    obtain ⟨c, hc⟩ : ∃ c, s.heard c = false := by
      by_contra hall
      simp only [not_exists, Bool.not_eq_false] at hall
      have hsub : Finset.univ ⊆ (s.alive.map Prod.fst).toFinset := by
        intro c _
        simpa [heard] using hall c
      have hcard := Finset.card_le_card hsub
      rw [Finset.card_univ, Fintype.card_fin, List.toFinset_card_of_nodup hi.once, List.length_map,
        hat.1] at hcard
      omega
    have hm := hi.machine c
    rw [hc] at hm
    cases hup : (s.machine c).up with
    | cons p up =>
        have hp := (hi.hear_step hs hup).1
        exact ⟨_, _, .hear hs hk hup (hp ▸ msgCheckcrc_heartbeatPkt crc _ _)⟩
    | nil =>
        have hboot : (s.machine c).client = .boot := by
          by_contra hnot
          obtain ⟨as, hgreet, -⟩ := hm.up
          have harr : (s.machine c).client.arrived = true := ClientPc.arrived_of_ne_boot hnot
          rw [hup] at hgreet
          simp [Machine.greeting, harr] at hgreet
        exact ⟨_, _, .machine (.heartbeat hboot)⟩
  · exact ⟨_, _, .begin hs (Nat.le_of_not_lt hk)⟩

/-- The receiving loop gets on: what it still waits for is under way. -/
theorem Underway.exists_trans_recv {s : Sched cfg} (hu : s.Underway crc) {i : Nat}
    (hs : s.server = .recv i) : ∃ l t, Trans crc s l t := by
  have hi := hu.inv
  by_cases hlt : (i : Int) < cfg.recvBound
  · have hat := hi.at_server
    rw [hs] at hat
    obtain ⟨hlen, hsent, hrcvd, -⟩ := hat
    have hout : s.outstanding ≠ 0 := by
      intro hzero
      have hcard := congrArg Multiset.card (hi.conserved hu.counted)
      rw [hzero, Multiset.card_add, card_seqs, Multiset.coe_card, Multiset.card_zero] at hcard
      have hbound : cfg.recvBound ≤ (cfg.machines * cfg.thrdpm : Nat) := by
        by_cases hfits : cfg.Fits
        · exact (Config.recvBound_of_fits hfits).le
        · have := Config.recvBound_lt_of_not_fits hfits
          omega
      omega
    obtain ⟨c, hc⟩ : ∃ c, (s.machine c).tasks ≠ 0 := by
      by_contra hall
      simp only [not_exists, not_not] at hall
      exact hout (total_eq_zero hall)
    cases hup : (s.machine c).up with
    | cons p up =>
        exact ⟨_, _, .receive hs hlt hup (hi.receive_step hs hlt hup).1.1⟩
    | nil =>
        have hm := hi.machine c
        rw [heard_of_length hi.once hlen c] at hm
        obtain ⟨l, m, htrans⟩ := hm.exists_trans cfg.one_le_thrdpm hc hup
        exact ⟨_, _, .machine htrans⟩
  · exact ⟨_, _, .leave hs (Int.not_lt.mp hlt)⟩

/-- **No deadlock**: short of the end of a round some thread can go on. -/
theorem Underway.exists_trans {s : Sched cfg} (hu : s.Underway crc) (hne : s.server ≠ .check) :
    ∃ l t, Trans crc s l t := by
  cases hs : s.server with
  | waitforall k => exact hu.inv.exists_trans_waitforall hs
  | send i j =>
      by_cases hlt : i < cfg.machines
      · by_cases hj : j < cfg.thrdpm
        · exact ⟨_, _, .send hs hlt hj⟩
        · exact ⟨_, _, .sendRow hs hlt (Nat.le_of_not_lt hj)⟩
      · exact ⟨_, _, .sendEnd hs (Nat.le_of_not_lt hlt)⟩
  | recv i => exact hu.exists_trans_recv hs
  | check => exact absurd hs hne
  | aborted => exact absurd hs hu.running

/-- A step in the middle of a round stays in it. -/
theorem Underway.trans {s t : Sched cfg} {l : SchedLabel cfg} (hu : s.Underway crc)
    (h : Trans crc s l t) (hne : s.server ≠ .check) :
    t.Underway crc ∧ t.rounds = s.rounds := by
  have hinv := inv_of_trans h hu.inv
  cases h with
  | hearAbort hs hk hup hcrc =>
      rw [(hu.inv.hear_step hs hup).1, msgCheckcrc_heartbeatPkt] at hcrc
      cases hcrc
  | receiveAbort hs hlt hup hcrc =>
      rw [(hu.inv.receive_step hs hlt hup).1.1] at hcrc
      cases hcrc
  | round hs heq => exact absurd hs hne
  | checkAbort hs hneq => exact absurd hs hne
  | machine hm => exact ⟨⟨hinv, hu.counted, hu.running⟩, rfl⟩
  | _ => exact ⟨⟨hinv, hu.counted, by simp⟩, rfl⟩

/-- **Every round can be led to its end.** -/
theorem Underway.exists_exec_check {s : Sched cfg} (hu : s.Underway crc) :
    ∃ ls t, exec (step crc cfg) s ls = some t ∧ (t.Underway crc ∧ t.rounds = s.rounds) ∧
      t.server = .check := by
  have hprogress : ∀ m : Sched cfg, m.Underway crc ∧ m.rounds = s.rounds → ¬ m.server = .check →
      ∃ l n, step crc cfg m l = some n ∧ (n.Underway crc ∧ n.rounds = s.rounds) ∧ n.togo < m.togo := by
    rintro m ⟨hm, hr⟩ hne
    obtain ⟨l, n, htrans⟩ := hm.exists_trans hne
    obtain ⟨hn, hr'⟩ := hm.trans htrans hne
    exact ⟨l, n, step_of_trans htrans, ⟨hn, hr'.trans hr⟩, togo_lt_of_trans htrans hm.inv hne⟩
  exact exists_exec_of_decreasing togo hprogress ⟨hu, rfl⟩

theorem underway_init (crc : List UInt8 → UInt32) (cfg : Config) : (Sched.init cfg).Underway crc :=
  ⟨inv_init crc cfg, Or.inr rfl, by simp [Sched.init]⟩

/-! ## The protocol and the range of an `int` -/

/-- A receiving loop that ends early leaves tasks behind. -/
theorem Underway.exists_not_drained {s : Sched cfg} (hu : s.Underway crc) (hs : s.server = .check)
    (hnot : ¬ cfg.Fits) : ∃ c, ¬ (s.machine c).Drained := by
  have hat := hu.inv.at_server
  rw [hs] at hat
  obtain ⟨-, hsent, hrcvd⟩ := hat
  have hshort := Config.recvBound_lt_of_not_fits hnot
  by_contra hall
  simp only [not_exists, not_not] at hall
  have hzero : s.outstanding = 0 := total_eq_zero fun c => (hall c).tasks_eq_zero
  have hcard := congrArg Multiset.card (hu.inv.conserved hu.counted)
  rw [hzero, Multiset.card_add, card_seqs, Multiset.coe_card, Multiset.card_zero] at hcard
  omega

/-- Past the range of an `int`, the first round ends with tasks under way. -/
theorem exists_exec_not_drained (crc : List UInt8 → UInt32) (hnot : ¬ cfg.Fits) :
    ∃ ls s, exec (step crc cfg) (Sched.init cfg) ls = some s ∧ s.Underway crc ∧ s.server = .check ∧
      ∃ c, ¬ (s.machine c).Drained := by
  obtain ⟨ls, s, hrun, ⟨hu, -⟩, hcheck⟩ := (underway_init crc cfg).exists_exec_check
  exact ⟨ls, s, hrun, hu, hcheck, hu.exists_not_drained hcheck hnot⟩

/-- **The round protocol is kept by all runs if and only if the number of tasks of a round is an
`int`.** -/
theorem roundProtocol_iff_fits (crc : List UInt8 → UInt32) (cfg : Config) :
    (∀ ls s, exec (step crc cfg) (Sched.init cfg) ls = some s → RoundProtocol crc s) ↔
      cfg.machines * cfg.thrdpm < 2 ^ 31 := by
  constructor
  · intro hall
    by_contra hnot
    obtain ⟨ls, s, hrun, -, hcheck, c, hc⟩ := exists_exec_not_drained crc hnot
    exact hc (((hall ls s hrun).drained hcheck).1 c)
  · intro hfits ls s hrun
    exact roundProtocol_of_inv (inv_of_exec hrun) hfits

/-- 65536 machines with 32768 threads each: a round has 2³¹ tasks, one more than an `int` holds. -/
def bigCluster : Config where
  machines := 65536
  thrdpm := 32768
  one_le_machines := by decide
  one_le_thrdpm := by decide
  size_lt := by decide
  thrdpm_lt := by decide

/-- With 2³¹ tasks in a round the receiving loop is left at once, all tasks are still under way and
`assert(ctx->inmsg == ctx->outmsg)` fails. -/
theorem not_roundProtocol_bigCluster :
    ∃ ls s, exec (step generateCrc32 bigCluster) (Sched.init bigCluster) ls = some s ∧
      s.server = .check ∧ s.roundRcvd = [] ∧ (∃ c, ¬ (s.machine c).Drained) ∧ s.inmsg ≠ s.outmsg ∧
      ¬ RoundProtocol generateCrc32 s := by
  have hnot : ¬ bigCluster.Fits := by
    unfold Config.Fits
    decide
  have hbound : bigCluster.recvBound = -2 ^ 31 := by decide
  obtain ⟨ls, s, hrun, hu, hcheck, c, hc⟩ := exists_exec_not_drained generateCrc32 hnot
  have hat := hu.inv.at_server
  rw [hcheck] at hat
  obtain ⟨-, hsent, hrcvd⟩ := hat
  have hnil : s.roundRcvd = [] := by
    rw [hbound] at hrcvd
    apply List.length_eq_zero_iff.mp
    omega
  refine ⟨ls, s, hrun, hcheck, hnil, ⟨c, hc⟩, ?_, ?_⟩
  · obtain ⟨base, -, hout, hin⟩ := hu.inv.counted
    rw [hout, hin, hsent, hnil]
    intro heq
    have hoff : UInt32.ofNat 0 = UInt32.ofNat (bigCluster.machines * bigCluster.thrdpm) :=
      (UInt32.add_right_inj base).mp heq
    revert hoff
    decide
  · intro hp
    exact hc ((hp.drained hcheck).1 c)

end Sched

end CommTest.Mpi
