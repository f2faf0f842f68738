import CommTest.Lib.Heap
import CommTest.Mpi.Progress

/-!
# The packets of the scheduler in memory

`sched_client` and the workers hand packets to each other as pointers: the buffer that a receive was
posted with goes through `s2w` to a worker and through `w2s` back, and is freed behind the reply. In
`Machine` these are values. Here are the pointers.

* `Process` is a client process with its heap. `calloc` may give out any address that is not in use,
  the second part of a label; an access to a block that is not allocated sets `fault`.
* `HeapSched` is the scheduler with such processes, and with the packets that the server receives into
  and never frees. Its steps are those of `Sched` for the server, which touches the channels only.
* `Process.Inv`: the pointers that the threads and queues hold are to the blocks of the heap, one to
  each. `Process.step_abs`: then a step is a step of `Machine` on what the pointers show.
* `memory_safe`: no fault in any run; the runs are those of `Sched`; a client process never has more
  than `thrdpm + 1` packets, and the server has one for each message that it ever received.
-/

set_option linter.unusedSectionVars false

namespace CommTest.Mpi

open Heap Ledger Lts

/-- The address of a block. -/
abbrev Addr := Nat

/-! ## A client process -/

/-- Where `sched_client` is, and its pointers `newpacket` and `donepacket`. -/
inductive ClientPtr
  | boot
  | barrier
  | polling (newpacket : Addr)
  | received (newpacket : Addr)
  | returning (newpacket donepacket : Addr)
  | aborted (newpacket : Addr)

/-- Where a `worker` is, and its pointer `wmsg`. -/
inductive WorkerPtr
  | boot
  | barrier
  | idle
  | busy (wmsg : Addr)

/-- Whether the thread has come to `bar_all`. -/
def ClientPtr.arrived : ClientPtr → Bool
  | .boot => false
  | _ => true

/-- Whether the thread has come to `bar_all`. -/
def WorkerPtr.arrived : WorkerPtr → Bool
  | .boot => false
  | _ => true

/-- A client process with its heap and its channels; `fault` says whether a block was accessed that is
not allocated. -/
structure Process (thrdpm : Nat) where
  down : List Packet
  up : List Packet
  heap : Addr → Option Packet
  fault : Bool
  s2w : List Addr
  w2s : List Addr
  client : ClientPtr
  worker : Fin thrdpm → WorkerPtr

namespace Process

variable {thrdpm : Nat}

/-- A client process before its threads run. -/
def init (thrdpm : Nat) : Process thrdpm where
  down := []
  up := []
  heap := fun _ => none
  fault := false
  s2w := []
  w2s := []
  client := .boot
  worker := fun _ => .boot

/-- All `thrdpm + 1` threads have come to `bar_all`. -/
def barrierOpen (m : Process thrdpm) : Prop :=
  m.client.arrived = true ∧ ∀ w, (m.worker w).arrived = true

instance (m : Process thrdpm) : Decidable m.barrierOpen := inferInstanceAs (Decidable (_ ∧ _))

/-- Worker `w` moves. -/
def setWorker (m : Process thrdpm) (w : Fin thrdpm) (pc : WorkerPtr) : Process thrdpm :=
  { m with worker := Function.update m.worker w pc }

/-- The block at `a` is accessed. -/
def access (m : Process thrdpm) (a : Addr) (f : Packet → Option (Process thrdpm)) :
    Option (Process thrdpm) :=
  match m.heap a with
  | some p => f p
  | none => some { m with fault := true }

/-- `calloc(1, sizeof(packet))` gives out `a`. -/
def calloc (m : Process thrdpm) (a : Addr) : Option (Process thrdpm) :=
  if m.heap a = none then some { m with heap := Function.update m.heap a (some Packet.zeroed) }
  else none

/-- One step of a thread, with the address that `calloc` gives out if it is called. The packet of
`sendheartbeat` is freed in the same step. Source: `scheduler.cpp`, `sched_client`, and
`worker.cpp`, `worker`. -/
def step (crc : List UInt8 → UInt32) (rank schedrank : UInt32) (m : Process thrdpm) (a : Addr) :
    MachineLabel thrdpm → Option (Process thrdpm)
  | .heartbeat =>
      match m.client with
      | .boot =>
          if m.heap a = none then
            some { m with up := m.up ++ [heartbeatPkt crc rank schedrank], client := .barrier }
          else none
      | _ => none
  | .pass =>
      match m.client with
      | .barrier =>
          if m.barrierOpen then (m.calloc a).map fun m => { m with client := .polling a } else none
      | _ => none
  | .complete =>
      match m.client, m.down with
      | .polling newpacket, p :: down =>
          m.access newpacket fun _ =>
            some { m with
              heap := Function.update m.heap newpacket (some p), down := down,
              client := .received newpacket }
      | _, _ => none
  | .putback =>
      match m.client, m.w2s with
      | .polling newpacket, donepacket :: w2s =>
          some { m with w2s := w2s, client := .returning newpacket donepacket }
      | _, _ => none
  | .put =>
      match m.client with
      | .received newpacket =>
          m.access newpacket fun p =>
            if msgCheckcrc crc p then
              (m.calloc a).map fun m => { m with s2w := m.s2w ++ [newpacket], client := .polling a }
            else some { m with client := .aborted newpacket }
      | _ => none
  | .reply =>
      match m.client with
      | .returning newpacket donepacket =>
          -- the reply is written into the block, sent and the block freed
          m.access donepacket fun p =>
            some { m with
              heap := Function.update m.heap donepacket none,
              up := m.up ++ [replyPkt crc rank schedrank p], client := .polling newpacket }
      | _ => none
  | .arrive w =>
      match m.worker w with
      | .boot => some (m.setWorker w .barrier)
      | _ => none
  | .start w =>
      match m.worker w with
      | .barrier => if m.barrierOpen then some (m.setWorker w .idle) else none
      | _ => none
  | .get w =>
      match m.worker w, m.s2w with
      | .idle, wmsg :: s2w => some { m.setWorker w (.busy wmsg) with s2w := s2w }
      | _, _ => none
  | .finish w =>
      match m.worker w with
      | .busy wmsg =>
          m.access wmsg fun p =>
            some { m.setWorker w .idle with
              heap := Function.update m.heap wmsg (some p.setDone), w2s := m.w2s ++ [wmsg] }
      | _ => none

end Process

/-! ## The scheduler -/

/-- What the pointers show. -/
def ClientPtr.abs (h : Addr → Option Packet) : ClientPtr → ClientPc
  | .boot => .boot
  | .barrier => .barrier
  | .polling _ => .polling
  | .received newpacket => .received (view h newpacket)
  | .returning _ donepacket => .returning (view h donepacket)
  | .aborted _ => .aborted

/-- What the pointers show. -/
def WorkerPtr.abs (h : Addr → Option Packet) : WorkerPtr → WorkerPc
  | .boot => .boot
  | .barrier => .barrier
  | .idle => .idle
  | .busy wmsg => .busy (view h wmsg)

/-- The process with the packets in the place of the pointers. -/
def Process.abs {thrdpm : Nat} (m : Process thrdpm) : Machine thrdpm where
  down := m.down
  up := m.up
  s2w := m.s2w.map (view m.heap)
  w2s := m.w2s.map (view m.heap)
  client := m.client.abs m.heap
  worker := fun w => (m.worker w).abs m.heap

/-- The scheduler: server, client processes and channels, and `donepackets`, the packets that
`server_async_receivemsg` has allocated. -/
structure HeapSched (cfg : Config) where
  server : ServerPc
  inmsg : UInt32
  outmsg : UInt32
  machine : Fin cfg.machines → Process cfg.thrdpm
  donepackets : Addr → Option Packet
  alive : List (Fin cfg.machines × Packet)
  roundSent : List UInt32
  roundRcvd : List Packet
  rounds : Nat

namespace HeapSched

variable {cfg : Config}

/-- All processes started, nothing sent. -/
def init (cfg : Config) : HeapSched cfg where
  server := .waitforall 0
  inmsg := 0
  outmsg := 0
  machine := fun _ => Process.init cfg.thrdpm
  donepackets := fun _ => none
  alive := []
  roundSent := []
  roundRcvd := []
  rounds := 0

/-- The scheduler with the packets in the place of the pointers. -/
def abs (h : HeapSched cfg) : Sched cfg where
  server := h.server
  inmsg := h.inmsg
  outmsg := h.outmsg
  machine := fun c => (h.machine c).abs
  alive := h.alive
  roundSent := h.roundSent
  roundRcvd := h.roundRcvd
  rounds := h.rounds

/-- The server has moved: of a client process it touches the channels only. -/
def served (h : HeapSched cfg) (s : Sched cfg) : HeapSched cfg where
  server := s.server
  inmsg := s.inmsg
  outmsg := s.outmsg
  machine := fun c => { h.machine c with down := (s.machine c).down, up := (s.machine c).up }
  donepackets := h.donepackets
  alive := s.alive
  roundSent := s.roundSent
  roundRcvd := s.roundRcvd
  rounds := s.rounds

/-- One step of the scheduler, with the address that `calloc` gives out if it is called. The packets of
`waitforall` and `server_sendtestmsg` are freed where they are allocated; the one that the round loop
receives into is not, and counts from when the receive is complete. -/
def step (crc : List UInt8 → UInt32) (cfg : Config) (h : HeapSched cfg) :
    SchedLabel cfg × Addr → Option (HeapSched cfg)
  | (.machine c l, a) =>
      ((h.machine c).step crc (UInt32.ofNat c) cfg.schedrank a l).map fun m =>
        { h with machine := Function.update h.machine c m }
  | (.receive c, a) =>
      if h.donepackets a = none then
        (Sched.step crc cfg h.abs (.receive c)).map fun s =>
          { h.served s with
            donepackets := Function.update h.donepackets a (h.machine c).up.head? }
      else none
  | (.hear c, _) => (Sched.step crc cfg h.abs (.hear c)).map h.served
  | (.next, _) => (Sched.step crc cfg h.abs .next).map h.served

end HeapSched

/-! ## The pointers of a process -/

/-- The pointers of the communication thread. -/
def ClientPtr.pointers : ClientPtr → Multiset Addr
  | .boot => 0
  | .barrier => 0
  | .polling newpacket => {newpacket}
  | .received newpacket => {newpacket}
  | .returning newpacket donepacket => {newpacket} + {donepacket}
  | .aborted newpacket => {newpacket}

/-- The pointer of a worker. -/
def WorkerPtr.pointers : WorkerPtr → Multiset Addr
  | .busy wmsg => {wmsg}
  | _ => 0

namespace Process

variable {thrdpm : Nat}

/-- All pointers of a process. -/
def pointers (m : Process thrdpm) : Multiset Addr :=
  m.client.pointers + m.s2w + total WorkerPtr.pointers m.worker + m.w2s

/-- **The invariant of a client process.** -/
structure Inv (m : Process thrdpm) : Prop where
  fault : m.fault = false
  owned : Owned m.heap m.pointers

theorem inv_init (thrdpm : Nat) : (init thrdpm).Inv where
  fault := rfl
  owned := by
    have hworkers : total WorkerPtr.pointers (fun _ : Fin thrdpm => WorkerPtr.boot) = 0 :=
      total_eq_zero fun _ => rfl
    have hnone : (init thrdpm).pointers = 0 := by
      rw [pointers, show (init thrdpm).worker = fun _ => WorkerPtr.boot from rfl, hworkers]
      rfl
    rw [hnone]
    exact owned_empty

end Process

/-! ## What a change of one block shows -/

theorem ClientPtr.abs_update {pc : ClientPtr} {a : Addr} (ha : a ∉ pc.pointers)
    (h : Addr → Option Packet) (x : Option Packet) : pc.abs (Function.update h a x) = pc.abs h := by
  cases pc with
  | received newpacket =>
      have hne : newpacket ≠ a := by simpa [pointers, eq_comm] using ha
      rw [ClientPtr.abs, view_update hne, ClientPtr.abs]
  | returning newpacket donepacket =>
      have hne : donepacket ≠ a := by
        rintro rfl
        simp [pointers] at ha
      rw [ClientPtr.abs, view_update hne, ClientPtr.abs]
  | _ => rfl

theorem WorkerPtr.abs_update {pc : WorkerPtr} {a : Addr} (ha : a ∉ pc.pointers)
    (h : Addr → Option Packet) (x : Option Packet) : pc.abs (Function.update h a x) = pc.abs h := by
  cases pc with
  | busy wmsg =>
      have hne : wmsg ≠ a := by simpa [pointers, eq_comm] using ha
      rw [WorkerPtr.abs, view_update hne, WorkerPtr.abs]
  | _ => rfl

theorem ClientPtr.arrived_abs (pc : ClientPtr) (h : Addr → Option Packet) :
    (pc.abs h).arrived = pc.arrived := by
  cases pc <;> rfl

theorem WorkerPtr.arrived_abs (pc : WorkerPtr) (h : Addr → Option Packet) :
    (pc.abs h).arrived = pc.arrived := by
  cases pc <;> rfl

namespace Process

variable {thrdpm : Nat} {m m' : Process thrdpm}

theorem barrierOpen_abs : m.abs.barrierOpen ↔ m.barrierOpen := by
  unfold Machine.barrierOpen barrierOpen abs
  simp only [ClientPtr.arrived_abs, WorkerPtr.arrived_abs]

/-- The workers that do not have the block see no change. -/
theorem workers_update {worker : Fin thrdpm → WorkerPtr} {a : Addr}
    (ha : a ∉ total WorkerPtr.pointers worker) (h : Addr → Option Packet) (x : Option Packet)
    (w : Fin thrdpm) :
    (worker w).abs (Function.update h a x) = (worker w).abs h := by
  apply WorkerPtr.abs_update
  intro hmem
  apply ha
  rw [total, Multiset.mem_sum]
  exact ⟨w, Finset.mem_univ w, hmem⟩

/-- A worker moves in both views. -/
theorem worker_abs_update (h : Addr → Option Packet) (worker : Fin thrdpm → WorkerPtr) (w : Fin thrdpm)
    (pc : WorkerPtr) : (fun v => (Function.update worker w pc v).abs h) =
      Function.update (fun v => (worker v).abs h) w (pc.abs h) := by
  funext v
  by_cases hv : v = w
  · subst hv
    rw [Function.update_self, Function.update_self]
  · rw [Function.update_of_ne hv, Function.update_of_ne hv]

/-- An access to a block that a pointer is to. -/
theorem access_eq (hi : m.Inv) {a : Addr} (ha : a ∈ m.pointers)
    {f : Packet → Option (Process thrdpm)} (h : m.access a f = some m') :
    ∃ p, m.heap a = some p ∧ view m.heap a = p ∧ f p = some m' := by
  obtain ⟨p, hp⟩ := hi.owned.exists_eq_some ha
  rw [access, hp] at h
  exact ⟨p, hp, view_of_eq hp, h⟩

theorem calloc_eq {a : Addr} (h : m.calloc a = some m') :
    m.heap a = none ∧ m' = { m with heap := Function.update m.heap a (some Packet.zeroed) } := by
  unfold calloc at h
  split_ifs at h with hfree
  cases h
  exact ⟨hfree, rfl⟩

/-- What is held elsewhere does not see a change of a block that is held here. -/
structure Apart (a : Addr) (m : Process thrdpm) : Prop where
  client : a ∉ m.client.pointers
  s2w : a ∉ m.s2w
  worker : a ∉ total WorkerPtr.pointers m.worker
  w2s : a ∉ m.w2s

theorem apart_iff {a : Addr} : Apart a m ↔ a ∉ m.pointers := by
  unfold pointers
  rw [Multiset.mem_add, Multiset.mem_add, Multiset.mem_add, Multiset.mem_coe, Multiset.mem_coe]
  constructor
  · rintro ⟨h1, h2, h3, h4⟩
    tauto
  · intro h
    exact ⟨by tauto, by tauto, by tauto, by tauto⟩

/-! ## The steps -/

section

variable {crc : List UInt8 → UInt32} {rank schedrank : UInt32} {a : Addr}

/-- A step and what the pointers show of it. -/
def Simulated (crc : List UInt8 → UInt32) (rank schedrank : UInt32) (l : MachineLabel thrdpm)
    (m m' : Process thrdpm) : Prop :=
  m'.Inv ∧ Machine.Trans crc rank schedrank m.abs l m'.abs

/-- The communication thread lets go of a pointer. -/
theorem Inv.apart_client (hi : m.Inv) (pc : ClientPtr) (hpc : m.client.pointers = pc.pointers + {a}) :
    m.pointers = { m with client := pc }.pointers + {a} ∧ Apart a { m with client := pc } := by
  have hsplit : m.pointers = { m with client := pc }.pointers + {a} := by
    unfold pointers
    rw [hpc]
    abel
  refine ⟨hsplit, apart_iff.mpr ?_⟩
  have howned := hi.owned
  rw [hsplit] at howned
  exact howned.not_mem

/-- A worker lets go of its pointer. -/
theorem Inv.apart_worker (hi : m.Inv) {w : Fin thrdpm} (hw : m.worker w = .busy a) :
    m.pointers = (m.setWorker w .idle).pointers + {a} ∧ Apart a (m.setWorker w .idle) := by
  have hsplit : m.pointers = (m.setWorker w .idle).pointers + {a} := by
    have htotal : total WorkerPtr.pointers m.worker =
        total WorkerPtr.pointers (Function.update m.worker w .idle) + {a} :=
      total_of_update_add (by rw [hw]; rfl)
    unfold pointers setWorker
    rw [htotal]
    abel
  refine ⟨hsplit, apart_iff.mpr ?_⟩
  have howned := hi.owned
  rw [hsplit] at howned
  exact howned.not_mem

/-- What the communication thread shows. -/
theorem client_abs {pc : ClientPtr} (hc : m.client = pc) : m.abs.client = pc.abs m.heap := by
  rw [← hc]
  rfl

theorem worker_abs {w : Fin thrdpm} {pc : WorkerPtr} (hw : m.worker w = pc) :
    m.abs.worker w = pc.abs m.heap := by
  rw [← hw]
  rfl

theorem Inv.complete (hi : m.Inv) {p : Packet} {down : List Packet} (hc : m.client = .polling a)
    (hd : m.down = p :: down) :
    Simulated crc rank schedrank .complete m
      { m with heap := Function.update m.heap a (some p), down := down, client := .received a } := by
  obtain ⟨hsplit, hapart⟩ := hi.apart_client .boot (by rw [hc]; rfl)
  have hmem : a ∈ m.pointers := by
    rw [hsplit]
    simp
  refine ⟨⟨hi.fault, ?_⟩, ?_⟩
  · have howned := hi.owned.store hmem p
    unfold pointers at howned ⊢
    rw [hc] at howned
    exact howned
  · have htrans : Machine.Trans crc rank schedrank m.abs .complete _ :=
      .complete (client_abs hc) (show m.abs.down = p :: down from hd)
    convert htrans using 1
    unfold abs
    rw [map_view_update hapart.s2w, map_view_update hapart.w2s]
    simp only [workers_update hapart.worker, ClientPtr.abs, view_update_self]

theorem Inv.putback (hi : m.Inv) {d : Addr} {w2s : List Addr} (hc : m.client = .polling a)
    (hq : m.w2s = d :: w2s) :
    Simulated crc rank schedrank .putback m { m with w2s := w2s, client := .returning a d } := by
  refine ⟨⟨hi.fault, ?_⟩, ?_⟩
  · have howned := hi.owned
    unfold pointers at howned ⊢
    rw [hc, hq, ← Multiset.cons_coe, ← Multiset.singleton_add] at howned
    convert howned using 1
    simp only [ClientPtr.pointers]
    abel
  · have hw2s : m.abs.w2s = view m.heap d :: w2s.map (view m.heap) := by
      show m.w2s.map (view m.heap) = _
      rw [hq, List.map_cons]
    exact .putback (client_abs hc) hw2s

/-- The next receive is posted with another packet. -/
theorem Inv.post (hi : m.Inv) {b : Addr} (hb : m.heap b = none) {s2w : List Addr}
    (hkeep : m.client.pointers + m.s2w = s2w) :
    ({ m with heap := Function.update m.heap b (some Packet.zeroed), s2w := s2w,
              client := .polling b } : Process thrdpm).Inv ∧ b ∉ m.pointers := by
  have howned := hi.owned.alloc hb Packet.zeroed
  have hfresh : b ∉ m.pointers := by
    rw [← hi.owned.live b, hb]
    simp
  refine ⟨⟨hi.fault, ?_⟩, hfresh⟩
  unfold pointers at howned ⊢
  rw [hkeep] at howned
  convert howned using 1
  simp only [ClientPtr.pointers]
  abel

theorem Inv.pass (hi : m.Inv) (hb : m.heap a = none) (hc : m.client = .barrier) (hopen : m.barrierOpen) :
    Simulated crc rank schedrank .pass m
      { m with heap := Function.update m.heap a (some Packet.zeroed), client := .polling a } := by
  obtain ⟨hinv, hfresh⟩ := hi.post hb (show m.client.pointers + m.s2w = m.s2w by rw [hc]; rfl)
  have hapart := apart_iff.mpr hfresh
  refine ⟨hinv, ?_⟩
  have htrans : Machine.Trans crc rank schedrank m.abs .pass _ :=
    .pass (client_abs hc) (barrierOpen_abs.mpr hopen)
  convert htrans using 1
  unfold abs
  rw [map_view_update hapart.s2w, map_view_update hapart.w2s]
  simp only [workers_update hapart.worker, ClientPtr.abs]

theorem Inv.put (hi : m.Inv) {b : Addr} {p : Packet} (hb : m.heap b = none) (hc : m.client = .received a)
    (hp : view m.heap a = p) (hcrc : msgCheckcrc crc p = true) :
    Simulated crc rank schedrank .put m
      { m with heap := Function.update m.heap b (some Packet.zeroed), s2w := m.s2w ++ [a],
               client := .polling b } := by
  have hkeep : m.client.pointers + m.s2w = (m.s2w ++ [a] : List Addr) := by
    rw [hc, ← Multiset.coe_add, Multiset.coe_singleton]
    exact add_comm _ _
  obtain ⟨hinv, hfresh⟩ := hi.post hb hkeep
  have hapart := apart_iff.mpr hfresh
  have hne : a ≠ b := by
    rintro rfl
    apply hapart.client
    rw [hc]
    simp [ClientPtr.pointers]
  refine ⟨hinv, ?_⟩
  have hclient : m.abs.client = .received p := by
    rw [← hp]
    exact client_abs hc
  have htrans : Machine.Trans crc rank schedrank m.abs .put _ := .put hclient hcrc
  convert htrans using 1
  unfold abs
  rw [List.map_append, map_view_update hapart.s2w, map_view_update hapart.w2s, List.map_singleton,
    view_update hne, hp]
  simp only [workers_update hapart.worker, ClientPtr.abs]

theorem Inv.abort (hi : m.Inv) {p : Packet} (hc : m.client = .received a) (hp : view m.heap a = p)
    (hcrc : msgCheckcrc crc p = false) :
    Simulated crc rank schedrank .put m { m with client := .aborted a } := by
  refine ⟨⟨hi.fault, ?_⟩, ?_⟩
  · have howned := hi.owned
    unfold pointers at howned ⊢
    rw [hc] at howned
    exact howned
  · have hclient : m.abs.client = .received p := by
      rw [← hp]
      exact client_abs hc
    exact .abort hclient hcrc

theorem Inv.reply (hi : m.Inv) {d : Addr} {p : Packet} (hc : m.client = .returning a d)
    (hp : view m.heap d = p) :
    Simulated crc rank schedrank .reply m
      { m with heap := Function.update m.heap d none, up := m.up ++ [replyPkt crc rank schedrank p],
               client := .polling a } := by
  obtain ⟨hsplit, hapart⟩ := hi.apart_client (.polling a) (by rw [hc]; rfl)
  refine ⟨⟨hi.fault, ?_⟩, ?_⟩
  · have howned := hi.owned
    rw [hsplit] at howned
    exact howned.free
  · have hclient : m.abs.client = .returning p := by
      rw [← hp]
      exact client_abs hc
    have htrans : Machine.Trans crc rank schedrank m.abs .reply _ := .reply hclient
    convert htrans using 1
    unfold abs
    rw [map_view_update hapart.s2w, map_view_update hapart.w2s]
    simp only [workers_update hapart.worker, ClientPtr.abs]

/-- A worker moves before it has a task. -/
theorem Inv.setWorker (hi : m.Inv) (w : Fin thrdpm) (pc : WorkerPtr) (hold : (m.worker w).pointers = 0)
    (hpc : pc.pointers = 0) :
    (m.setWorker w pc).Inv ∧ (m.setWorker w pc).abs = m.abs.setWorker w (pc.abs m.heap) := by
  refine ⟨⟨hi.fault, ?_⟩, ?_⟩
  · have howned := hi.owned
    have htotal : total WorkerPtr.pointers (Function.update m.worker w pc) =
        total WorkerPtr.pointers m.worker := total_update_of_eq (by rw [hpc, hold])
    unfold pointers at howned ⊢
    unfold Process.setWorker
    rw [htotal]
    exact howned
  · unfold abs Process.setWorker Machine.setWorker
    simp only [worker_abs_update]

theorem Inv.get (hi : m.Inv) {w : Fin thrdpm} {s2w : List Addr} (hw : m.worker w = .idle)
    (hq : m.s2w = a :: s2w) :
    Simulated crc rank schedrank (.get w) m { m.setWorker w (.busy a) with s2w := s2w } := by
  refine ⟨⟨hi.fault, ?_⟩, ?_⟩
  · have howned := hi.owned
    have htotal : total WorkerPtr.pointers (Function.update m.worker w (.busy a)) =
        total WorkerPtr.pointers m.worker + {a} := total_update_of_add (by rw [hw]; rfl)
    unfold pointers at howned ⊢
    unfold Process.setWorker
    rw [htotal]
    rw [hq, ← Multiset.cons_coe, ← Multiset.singleton_add] at howned
    convert howned using 1
    abel
  · have hs2w : m.abs.s2w = view m.heap a :: s2w.map (view m.heap) := by
      show m.s2w.map (view m.heap) = _
      rw [hq, List.map_cons]
    have htrans : Machine.Trans crc rank schedrank m.abs (.get w) _ := .get (worker_abs hw) hs2w
    convert htrans using 1
    unfold abs Process.setWorker Machine.setWorker
    simp only [worker_abs_update]
    rfl

theorem Inv.finish (hi : m.Inv) {w : Fin thrdpm} {p : Packet} (hw : m.worker w = .busy a)
    (hp : view m.heap a = p) :
    Simulated crc rank schedrank (.finish w) m
      { m.setWorker w .idle with
        heap := Function.update m.heap a (some p.setDone), w2s := m.w2s ++ [a] } := by
  obtain ⟨hsplit, hapart⟩ := hi.apart_worker hw
  have hmem : a ∈ m.pointers := by
    rw [hsplit]
    simp
  refine ⟨⟨hi.fault, ?_⟩, ?_⟩
  · have howned := hi.owned.store hmem p.setDone
    rw [hsplit] at howned
    unfold pointers at howned ⊢
    convert howned using 1
    rw [← Multiset.coe_add, Multiset.coe_singleton]
    simp only [Process.setWorker]
    abel
  · have hworker : m.abs.worker w = .busy p := by
      rw [← hp]
      exact worker_abs hw
    have htrans : Machine.Trans crc rank schedrank m.abs (.finish w) _ := .finish hworker
    convert htrans using 1
    have hs2w : a ∉ m.s2w := hapart.s2w
    have hw2s : a ∉ m.w2s := hapart.w2s
    have hclient : a ∉ m.client.pointers := hapart.client
    have hworkers := fun v => workers_update hapart.worker m.heap (some p.setDone) v
    unfold abs Machine.setWorker
    simp only [Process.setWorker] at hworkers ⊢
    rw [List.map_append, map_view_update hs2w, map_view_update hw2s, ClientPtr.abs_update hclient,
      List.map_singleton, view_update_self]
    simp only [hworkers, worker_abs_update]
    rfl

/-- **A step of a client process is one on what its pointers show.** -/
theorem step_abs (hi : m.Inv) {l : MachineLabel thrdpm} (h : m.step crc rank schedrank a l = some m') :
    Simulated crc rank schedrank l m m' := by
  have hmem : ∀ {b : Addr}, b ∈ m.client.pointers → b ∈ m.pointers := by
    intro b hb
    unfold pointers
    simp [hb]
  cases l with simp only [step] at h
  | heartbeat =>
      split at h
      · rename_i hc
        split_ifs at h with hb
        cases h
        refine ⟨⟨hi.fault, ?_⟩, .heartbeat (client_abs hc)⟩
        have howned := hi.owned
        unfold pointers at howned ⊢
        rw [hc] at howned
        exact howned
      · cases h
  | pass =>
      split at h
      · rename_i hc
        split_ifs at h with hopen
        obtain ⟨m₁, hcalloc, rfl⟩ := Option.map_eq_some_iff.mp h
        obtain ⟨hb, rfl⟩ := calloc_eq hcalloc
        exact hi.pass hb hc hopen
      · cases h
  | complete =>
      split at h
      · rename_i b p down hc hd
        obtain ⟨-, -, -, h⟩ := access_eq hi (hmem (by rw [hc]; simp [ClientPtr.pointers])) h
        cases h
        exact hi.complete hc hd
      · cases h
  | putback =>
      split at h
      · rename_i b d w2s hc hq
        cases h
        exact hi.putback hc hq
      · cases h
  | put =>
      split at h
      · rename_i b hc
        obtain ⟨p, -, hp, h⟩ := access_eq hi (hmem (by rw [hc]; simp [ClientPtr.pointers])) h
        split_ifs at h with hcrc
        · obtain ⟨m₁, hcalloc, rfl⟩ := Option.map_eq_some_iff.mp h
          obtain ⟨hfree, rfl⟩ := calloc_eq hcalloc
          exact hi.put hfree hc hp hcrc
        · cases h
          exact hi.abort hc hp (by simpa using hcrc)
      · cases h
  | reply =>
      split at h
      · rename_i b d hc
        obtain ⟨p, -, hp, h⟩ := access_eq hi (hmem (by rw [hc]; simp [ClientPtr.pointers])) h
        cases h
        exact hi.reply hc hp
      · cases h
  | arrive w =>
      split at h
      · rename_i hw
        cases h
        obtain ⟨hinv, habs⟩ := hi.setWorker w .barrier (by rw [hw]; rfl) rfl
        refine ⟨hinv, ?_⟩
        rw [habs]
        exact .arrive (worker_abs hw)
      · cases h
  | start w =>
      split at h
      · rename_i hw
        split_ifs at h with hopen
        cases h
        obtain ⟨hinv, habs⟩ := hi.setWorker w .idle (by rw [hw]; rfl) rfl
        refine ⟨hinv, ?_⟩
        rw [habs]
        exact .start (worker_abs hw) (barrierOpen_abs.mpr hopen)
      · cases h
  | get w =>
      split at h
      · rename_i wmsg s2w hw hq
        cases h
        exact hi.get hw hq
      · cases h
  | finish w =>
      split at h
      · rename_i wmsg hw
        have hheld : wmsg ∈ m.pointers := by
          rw [(hi.apart_worker hw).1]
          simp
        obtain ⟨p, -, hp, h⟩ := access_eq hi hheld h
        cases h
        exact hi.finish hw hp
      · cases h

/-- **What the process can do by what its pointers show, it can do.** There is always memory. -/
theorem exists_step (hi : m.Inv) {l : MachineLabel thrdpm} {x : Machine thrdpm}
    (h : Machine.Trans crc rank schedrank m.abs l x) :
    ∃ a m', m.step crc rank schedrank a l = some m' := by
  obtain ⟨a, ha⟩ := hi.owned.exists_fresh
  have hmem : ∀ {b : Addr}, b ∈ m.client.pointers → ∃ p, m.heap b = some p := by
    intro b hb
    apply hi.owned.exists_eq_some
    unfold pointers
    simp [hb]
  refine ⟨a, ?_⟩
  cases h with
  | heartbeat hc =>
      cases hpc : m.client with
      | boot => exact ⟨_, by simp only [step, hpc, ha, if_true]; rfl⟩
      | _ => simp [client_abs hpc, ClientPtr.abs] at hc
  | pass hc hopen =>
      cases hpc : m.client with
      | barrier =>
          exact ⟨_, by simp only [step, hpc, if_pos (barrierOpen_abs.mp hopen), calloc, ha, if_true]; rfl⟩
      | _ => simp [client_abs hpc, ClientPtr.abs] at hc
  | @complete p down hc hd =>
      have hdown : m.down = p :: down := hd
      cases hpc : m.client with
      | polling b =>
          obtain ⟨q, hq⟩ := hmem (b := b) (by rw [hpc]; simp [ClientPtr.pointers])
          exact ⟨_, by simp only [step, hpc, hdown, access, hq]; rfl⟩
      | _ => simp [client_abs hpc, ClientPtr.abs] at hc
  | @putback p w2s hc hq =>
      have hmap : m.w2s.map (view m.heap) = p :: w2s := hq
      obtain ⟨d, rest, hw2s, -, -⟩ := List.map_eq_cons_iff.mp hmap
      cases hpc : m.client with
      | polling b => exact ⟨_, by simp only [step, hpc, hw2s]; rfl⟩
      | _ => simp [client_abs hpc, ClientPtr.abs] at hc
  | put hc hcrc | abort hc hcrc =>
      cases hpc : m.client with
      | received b =>
          obtain ⟨q, hq⟩ := hmem (b := b) (by rw [hpc]; simp [ClientPtr.pointers])
          simp only [step, hpc, access, hq, calloc, ha, if_true]
          split_ifs
          · exact ⟨_, rfl⟩
          · exact ⟨_, rfl⟩
      | _ => simp [client_abs hpc, ClientPtr.abs] at hc
  | reply hc =>
      cases hpc : m.client with
      | returning b d =>
          obtain ⟨q, hq⟩ := hmem (b := d) (by rw [hpc]; simp [ClientPtr.pointers])
          exact ⟨_, by simp only [step, hpc, access, hq]; rfl⟩
      | _ => simp [client_abs hpc, ClientPtr.abs] at hc
  | @arrive w hw =>
      cases hpc : m.worker w with
      | boot => exact ⟨_, by simp only [step, hpc]; rfl⟩
      | _ => simp [worker_abs hpc, WorkerPtr.abs] at hw
  | @start w hw hopen =>
      cases hpc : m.worker w with
      | barrier => exact ⟨_, by simp only [step, hpc, if_pos (barrierOpen_abs.mp hopen)]; rfl⟩
      | _ => simp [worker_abs hpc, WorkerPtr.abs] at hw
  | @get w p s2w hw hq =>
      have hmap : m.s2w.map (view m.heap) = p :: s2w := hq
      obtain ⟨d, rest, hs2w, -, -⟩ := List.map_eq_cons_iff.mp hmap
      cases hpc : m.worker w with
      | idle => exact ⟨_, by simp only [step, hpc, hs2w]; rfl⟩
      | _ => simp [worker_abs hpc, WorkerPtr.abs] at hw
  | @finish w p hw =>
      cases hpc : m.worker w with
      | busy b =>
          have hheld : b ∈ m.pointers := by
            rw [(hi.apart_worker hpc).1]
            simp
          obtain ⟨q, hq⟩ := hi.owned.exists_eq_some hheld
          exact ⟨_, by simp only [step, hpc, access, hq]; rfl⟩
      | _ => simp [worker_abs hpc, WorkerPtr.abs] at hw

end

end Process

/-! ## The tasks of a client process -/

namespace Sched

variable {cfg : Config} {crc : List UInt8 → UInt32}

/-- How many tasks client process `c` can have. -/
def quota (cfg : Config) (c : Fin cfg.machines) : ServerPc → Nat
  | .waitforall _ => 0
  | .send i j => if c.val < i then cfg.thrdpm else if c.val = i then j else 0
  | _ => cfg.thrdpm

/-- No client process has more tasks than workers. -/
def WithinQuota (s : Sched cfg) : Prop := ∀ c, (s.machine c).tasks.card ≤ quota cfg c s.server

/-- Before anything was sent in a round, there are no tasks. -/
theorem Inv.withinQuota_of_nil {s : Sched cfg} (hi : s.Inv crc) (hfits : cfg.Fits)
    (hsent : s.roundSent = []) : s.WithinQuota := by
  intro c
  have hcons := hi.conserved (Or.inl hfits)
  rw [hsent, Multiset.coe_nil, add_eq_zero] at hcons
  rw [total_eq_zero_iff.mp hcons.1 c, Multiset.card_zero]
  exact Nat.zero_le _

/-- **Every step keeps within the quota.** -/
theorem withinQuota_of_trans {s t : Sched cfg} {l : SchedLabel cfg} (hi : s.Inv crc) (hfits : cfg.Fits)
    (hq : s.WithinQuota) (h : Trans crc s l t) : t.WithinQuota := by
  have hi' := inv_of_trans h hi
  have hat := hi.at_server
  -- one client process changes, and the position of the server
  have hone : ∀ {c : Fin cfg.machines} {m : Machine cfg.thrdpm} {pc : ServerPc},
      m.tasks.card ≤ quota cfg c pc → (∀ c', c' ≠ c → quota cfg c' s.server ≤ quota cfg c' pc) →
      ∀ c', (Function.update s.machine c m c').tasks.card ≤ quota cfg c' pc := by
    intro c m pc hm hothers c'
    by_cases hc : c' = c
    · subst hc
      rw [Function.update_self]
      exact hm
    · rw [Function.update_of_ne hc]
      exact (hq c').trans (hothers c' hc)
  cases h with
  | hear hs hk hup hcrc => exact hi'.withinQuota_of_nil hfits hi'.at_server.2.2.1
  | hearAbort hs hk hup hcrc =>
      rw [(hi.hear_step hs hup).1, msgCheckcrc_heartbeatPkt] at hcrc
      cases hcrc
  | begin hs hk =>
      rw [hs] at hat
      exact hi'.withinQuota_of_nil hfits hat.2.2.1
  | @send i j hs hlt hj =>
      have hown := hq ⟨i, hlt⟩
      obtain ⟨-, htasks⟩ := (hi.machine ⟨i, hlt⟩).send cfg.schedrank s.outmsg (UInt32.ofNat i)
      apply hone
      · rw [htasks, Multiset.card_add, Multiset.card_singleton]
        rw [hs] at hown
        simp only [quota, Nat.lt_irrefl, if_false, if_true] at hown ⊢
        omega
      · intro c' hc
        have hne : c'.val ≠ i := fun heq => hc (Fin.ext heq)
        rw [hs]
        simp only [quota, if_neg hne, le_refl]
  | @sendRow i j hs hlt hj =>
      intro c
      have hown := hq c
      rw [hs] at hown hat
      obtain ⟨-, -, -, hle, -⟩ := hat
      show (s.machine c).tasks.card ≤ quota cfg c (.send (i + 1) 0)
      simp only [quota] at hown ⊢
      split_ifs at hown ⊢ <;> omega
  | @sendEnd i j hs hge =>
      intro c
      have hown := hq c
      have hc := c.isLt
      rw [hs] at hown
      simp only [quota, if_pos (show c.val < i by omega)] at hown
      exact hown
  | @receive c i p up hs hlt hup hcrc =>
      have hown := hq c
      have hm := hi.machine c
      rw [hs] at hat hown
      rw [heard_of_length hi.once hat.1 c] at hm
      obtain ⟨-, -, htasks⟩ := hm.receive hup
      rw [htasks, Multiset.card_add] at hown
      apply hone
      · exact (Nat.le_add_right _ _).trans hown
      · intro c' _
        rw [hs]
        exact Nat.le_refl _
  | receiveAbort hs hlt hup hcrc =>
      rw [(hi.receive_step hs hlt hup).1.1] at hcrc
      cases hcrc
  | leave hs hge =>
      intro c
      have hown := hq c
      rw [hs] at hown
      exact hown
  | round hs heq => exact hi'.withinQuota_of_nil hfits rfl
  | checkAbort hs hne => exact absurd (hi.counters_of_check hs hfits) hne
  | machine hm =>
      apply hone
      · rw [Machine.tasks_eq_of_trans hm (hi.machine _)]
        exact hq _
      · exact fun _ _ => Nat.le_refl _

theorem WithinQuota.card_le {s : Sched cfg} (hq : s.WithinQuota) (hi : s.Inv crc) (c : Fin cfg.machines) :
    (s.machine c).tasks.card ≤ cfg.thrdpm := by
  apply (hq c).trans
  have hat := hi.at_server
  cases hs : s.server with
  | send i j =>
      rw [hs] at hat
      obtain ⟨-, -, -, hle, -⟩ := hat
      simp only [quota]
      split_ifs
      · exact Nat.le_refl _
      · exact hle
      · exact Nat.zero_le _
  | waitforall k => exact Nat.zero_le _
  | _ => exact Nat.le_refl _

/-- The server touches the channels only. -/
def OnlyChannels (s t : Sched cfg) : Prop :=
  ∀ c, t.machine c = { s.machine c with down := (t.machine c).down, up := (t.machine c).up }

theorem onlyChannels_setMachine (s : Sched cfg) (c : Fin cfg.machines) (down up : List Packet)
    (c' : Fin cfg.machines) :
    (s.setMachine c { s.machine c with down := down, up := up }).machine c' =
      { s.machine c' with
        down := ((s.setMachine c { s.machine c with down := down, up := up }).machine c').down,
        up := ((s.setMachine c { s.machine c with down := down, up := up }).machine c').up } := by
  unfold setMachine
  by_cases hc : c' = c
  · subst hc
    simp only [Function.update_self]
  · simp only [Function.update_of_ne hc]

theorem onlyChannels_of_trans {s t : Sched cfg} {l : SchedLabel cfg} (h : Trans crc s l t)
    (hl : ∀ c k, l ≠ .machine c k) : OnlyChannels s t := by
  intro c'
  cases h with
  | hear | hearAbort | receive | receiveAbort => exact onlyChannels_setMachine s _ _ _ c'
  | send => exact onlyChannels_setMachine s _ _ _ c'
  | machine => exact absurd rfl (hl _ _)
  | begin | sendRow | sendEnd | leave | round | checkAbort => rfl

end Sched

namespace Process

variable {thrdpm : Nat}

theorem card_pointers_client (pc : ClientPtr) (h : Addr → Option Packet) :
    pc.pointers.card ≤ (pc.abs h).held.length + 1 := by
  cases pc <;> simp [ClientPtr.pointers, ClientPtr.abs, ClientPc.held]

theorem card_pointers_worker (pc : WorkerPtr) (h : Addr → Option Packet) :
    pc.pointers.card = (seqs (pc.abs h).held).card := by
  cases pc <;> simp [WorkerPtr.pointers, WorkerPtr.abs, WorkerPc.held]

/-- **One pointer to each task, and one to the packet of the next receive.** -/
theorem card_pointers_le (m : Process thrdpm) : m.pointers.card ≤ m.abs.tasks.card + 1 := by
  have hclient := card_pointers_client m.client m.heap
  have hworkers : (total WorkerPtr.pointers m.worker).card = (Machine.hands m.abs.worker).card := by
    unfold Machine.hands
    rw [card_total, card_total]
    exact Finset.sum_congr rfl fun w _ => card_pointers_worker (m.worker w) m.heap
  have hs2w : m.abs.s2w.length = m.s2w.length := List.length_map ..
  have hw2s : m.abs.w2s.length = m.w2s.length := List.length_map ..
  have hheld : m.abs.client.held = (m.client.abs m.heap).held := rfl
  unfold pointers Machine.tasks
  simp only [Multiset.card_add, card_seqs, Multiset.coe_card, hworkers, hs2w, hw2s, hheld]
  omega

end Process

/-! ## Runs -/

namespace HeapSched

variable {cfg : Config} {crc : List UInt8 → UInt32} {h h' : HeapSched cfg}

/-- The messages that the server ever received in its rounds. -/
def received (h : HeapSched cfg) : Nat := h.rounds * (cfg.machines * cfg.thrdpm) + h.roundRcvd.length

/-- **The invariant of the scheduler.** -/
structure Inv (crc : List UInt8 → UInt32) (h : HeapSched cfg) : Prop where
  machine : ∀ c, (h.machine c).Inv
  abs : h.abs.Inv crc
  quota : h.abs.WithinQuota
  leaked : ∃ ps, Owned h.donepackets ps ∧ ps.card = h.received

theorem inv_init (crc : List UInt8 → UInt32) (cfg : Config) : (init cfg).Inv crc where
  machine := fun _ => Process.inv_init cfg.thrdpm
  abs := Sched.inv_init crc cfg
  quota := by
    intro c
    have htasks : ((init cfg).abs.machine c).tasks = 0 := Machine.tasks_init
    rw [htasks]
    exact Nat.zero_le _
  leaked := ⟨0, owned_empty, by simp [received, init]⟩

/-- What the server does to the scheduler, it does to what the pointers show. -/
theorem abs_served {l : SchedLabel cfg} {s : Sched cfg} (hs : Sched.Trans crc h.abs l s)
    (hl : ∀ c k, l ≠ .machine c k) : (h.served s).abs = s := by
  have hmachine : (fun c => (({ h.machine c with down := (s.machine c).down, up := (s.machine c).up } :
      Process cfg.thrdpm)).abs) = s.machine := by
    funext c
    rw [Sched.onlyChannels_of_trans hs hl c]
    rfl
  unfold abs served
  rw [hmachine]

/-- A step of the server leaves the heaps of the client processes alone. -/
theorem Inv.served (hi : h.Inv crc) (c : Fin cfg.machines) {s : Sched cfg} :
    ((h.served s).machine c).Inv :=
  ⟨(hi.machine c).fault, (hi.machine c).owned⟩

/-- Where a round ends, all its messages are received. -/
theorem received_round (hi : h.Inv crc) (hfits : cfg.Fits) (hs : h.server = .check) :
    h.received = (h.rounds + 1) * (cfg.machines * cfg.thrdpm) := by
  have hat := hi.abs.at_server
  rw [show h.abs.server = .check from hs] at hat
  obtain ⟨-, -, hrcvd⟩ := hat
  rw [Config.recvBound_of_fits hfits] at hrcvd
  have hlen : h.roundRcvd.length = cfg.machines * cfg.thrdpm := by
    have : (h.roundRcvd.length : Int) = _ := hrcvd
    omega
  rw [received, hlen, Nat.add_one_mul]

/-- **Every step keeps the invariant, and is one of the scheduler on what the pointers show.** -/
theorem step_abs (hi : h.Inv crc) (hfits : cfg.Fits) {l : SchedLabel cfg} {a : Addr}
    (hstep : step crc cfg h (l, a) = some h') : Sched.Trans crc h.abs l h'.abs ∧ h'.Inv crc := by
  have hkeep : ∀ {t : HeapSched cfg}, Sched.Trans crc h.abs l t.abs → (∀ c, (t.machine c).Inv) →
      (∃ ps, Owned t.donepackets ps ∧ ps.card = t.received) →
      Sched.Trans crc h.abs l t.abs ∧ t.Inv crc := fun htrans hm hleaked =>
    ⟨htrans, hm, Sched.inv_of_trans htrans hi.abs,
      Sched.withinQuota_of_trans hi.abs hfits hi.quota htrans, hleaked⟩
  cases l with simp only [step] at hstep
  | machine c k =>
      obtain ⟨m, hm, rfl⟩ := Option.map_eq_some_iff.mp hstep
      obtain ⟨hinv, htrans⟩ := Process.step_abs (hi.machine c) hm
      have habs : HeapSched.abs { h with machine := Function.update h.machine c m } =
          h.abs.setMachine c m.abs := by
        unfold abs Sched.setMachine
        congr 1
        funext c'
        exact Function.apply_update (fun _ => Process.abs) h.machine c m c'
      apply hkeep
      · rw [habs]
        exact .machine htrans
      · exact (Function.forall_update_iff h.machine fun _ m => m.Inv).mpr
          ⟨hinv, fun c' _ => hi.machine c'⟩
      · exact hi.leaked
  | receive c =>
      split_ifs at hstep with hfresh
      obtain ⟨s, hs, rfl⟩ := Option.map_eq_some_iff.mp hstep
      have htrans := Sched.trans_of_step hs
      have habs : (h.served s).abs = s := abs_served htrans (by simp)
      apply hkeep
      · show Sched.Trans crc h.abs _ (h.served s).abs
        rw [habs]
        exact htrans
      · exact fun c => hi.served c
      · obtain ⟨ps, howned, hcard⟩ := hi.leaked
        cases htrans with
        | @receive _ i p up hsrv hlt hup hcrc =>
            have hhead : (h.machine c).up = p :: up := hup
            refine ⟨ps + {a}, ?_, ?_⟩
            · rw [hhead]
              exact howned.alloc hfresh p
            · rw [Multiset.card_add, hcard, Multiset.card_singleton]
              show h.received + 1 = h.rounds * _ + (h.roundRcvd ++ [p]).length
              rw [received, List.length_append, List.length_singleton, Nat.add_assoc]
        | receiveAbort hsrv hlt hup hcrc =>
            rw [(hi.abs.receive_step hsrv hlt hup).1.1] at hcrc
            cases hcrc
  | hear c =>
      obtain ⟨s, hs, rfl⟩ := Option.map_eq_some_iff.mp hstep
      have htrans := Sched.trans_of_step hs
      have habs : (h.served s).abs = s := abs_served htrans (by simp)
      apply hkeep
      · rw [habs]
        exact htrans
      · exact fun c => hi.served c
      · obtain ⟨ps, howned, hcard⟩ := hi.leaked
        refine ⟨ps, howned, ?_⟩
        cases htrans <;> exact hcard
  | next =>
      obtain ⟨s, hs, rfl⟩ := Option.map_eq_some_iff.mp hstep
      have htrans := Sched.trans_of_step hs
      have habs : (h.served s).abs = s := abs_served htrans (by simp)
      apply hkeep
      · rw [habs]
        exact htrans
      · exact fun c => hi.served c
      · obtain ⟨ps, howned, hcard⟩ := hi.leaked
        refine ⟨ps, howned, ?_⟩
        rw [hcard]
        cases htrans with
        | round hsrv heq => exact received_round hi hfits hsrv
        | _ => rfl

/-- A run is one of the scheduler on what the pointers show. -/
theorem exec_abs (hfits : cfg.Fits) {ls : List (SchedLabel cfg × Addr)}
    (hrun : exec (step crc cfg) (init cfg) ls = some h) :
    h.Inv crc ∧ exec (Sched.step crc cfg) (Sched.init cfg) (ls.map Prod.fst) = some h.abs := by
  have hsim : ∀ (h : HeapSched cfg) l h' s, h.abs = s ∧ h.Inv crc → step crc cfg h l = some h' →
      ¬ False → ∃ t, Sched.step crc cfg s l.1 = some t ∧ h'.abs = t ∧ h'.Inv crc := by
    rintro h l h' s ⟨rfl, hi⟩ hstep -
    obtain ⟨htrans, hi'⟩ := step_abs hi hfits hstep
    exact ⟨h'.abs, Sched.step_of_trans htrans, rfl, hi'⟩
  obtain ⟨s, hs, rfl, hi⟩ := exec_simulated Prod.fst
    (R := fun (h : HeapSched cfg) s => h.abs = s ∧ h.Inv crc) (D := fun _ => False)
    (fun _ _ _ hdead _ => hdead) hsim ⟨rfl, inv_init crc cfg⟩ hrun not_false
  exact ⟨hi, hs⟩

/-- What the scheduler can do by what the pointers show, it can do. -/
theorem exists_step (hi : h.Inv crc) {l : SchedLabel cfg} {s : Sched cfg}
    (htrans : Sched.Trans crc h.abs l s) : ∃ a h', step crc cfg h (l, a) = some h' := by
  have hstep := Sched.step_of_trans htrans
  cases l with
  | machine c k =>
      cases htrans with
      | machine hm =>
          obtain ⟨a, m, ha⟩ := Process.exists_step (hi.machine c) hm
          exact ⟨a, _, by simp only [step, ha]; rfl⟩
  | receive c =>
      obtain ⟨ps, howned, -⟩ := hi.leaked
      obtain ⟨a, ha⟩ := howned.exists_fresh
      exact ⟨a, _, by simp only [step, ha, if_true, hstep]; rfl⟩
  | hear c => exact ⟨0, _, by simp only [step, hstep]; rfl⟩
  | next => exact ⟨0, _, by simp only [step, hstep]; rfl⟩

/-- What holds of the memory in every state. -/
structure MemorySafe (h : HeapSched cfg) : Prop where
  /-- No access to a block that is not allocated. -/
  noFault : ∀ c, (h.machine c).fault = false
  /-- In a client process every block has a pointer, and only one. -/
  owned : ∀ c, Owned (h.machine c).heap (h.machine c).pointers
  bounded : ∀ c (qs : Finset Addr), (∀ a ∈ qs, ((h.machine c).heap a).isSome = true) →
    qs.card ≤ cfg.thrdpm + 1
  /-- The server frees no packet that it received in a round. -/
  leaked : ∃ qs : Finset Addr, (∀ a, (h.donepackets a).isSome = true ↔ a ∈ qs) ∧ qs.card = h.received

theorem Inv.memorySafe (hi : h.Inv crc) : h.MemorySafe where
  noFault c := (hi.machine c).fault
  owned c := (hi.machine c).owned
  bounded c qs hqs := calc
    qs.card ≤ (h.machine c).pointers.card := (hi.machine c).owned.card_le qs.nodup hqs
    _ ≤ ((h.machine c).abs.tasks).card + 1 := Process.card_pointers_le (h.machine c)
    _ ≤ cfg.thrdpm + 1 := Nat.succ_le_succ (hi.quota.card_le hi.abs c)
  leaked := by
    obtain ⟨ps, howned, hcard⟩ := hi.leaked
    refine ⟨⟨ps, howned.nodup⟩, fun a => ?_, hcard⟩
    rw [howned.live a]
    rfl

/-- **No block is used after it is freed, freed twice or shared, in any run.** And the pointers make no
difference: the runs are those of the scheduler on packets. -/
theorem memory_safe (crc : List UInt8 → UInt32) (hfits : cfg.Fits) {ls : List (SchedLabel cfg × Addr)}
    (hrun : exec (step crc cfg) (init cfg) ls = some h) :
    h.MemorySafe ∧ exec (Sched.step crc cfg) (Sched.init cfg) (ls.map Prod.fst) = some h.abs ∧
      ∀ l s, Sched.step crc cfg h.abs l = some s →
        ∃ a h', step crc cfg h (l, a) = some h' ∧ h'.abs = s := by
  obtain ⟨hi, habs⟩ := exec_abs hfits hrun
  refine ⟨hi.memorySafe, habs, ?_⟩
  intro l s hs
  obtain ⟨a, h', hstep⟩ := exists_step hi (Sched.trans_of_step hs)
  refine ⟨a, h', hstep, ?_⟩
  have hmatch := Sched.step_of_trans (step_abs hi hfits hstep).1
  rw [hs, Option.some.injEq] at hmatch
  exact hmatch.symm

/-- One task goes all the way round, in the block that the first receive was posted with. -/
def oneTask (c : Fin pairOfWorkers.machines) (v w : Fin pairOfWorkers.thrdpm) :
    List (SchedLabel pairOfWorkers × Addr) :=
  [(.machine c .heartbeat, 7), (.hear c, 0), (.next, 0), (.machine c (.arrive v), 0),
    (.machine c (.arrive w), 0), (.machine c .pass, 7), (.machine c (.start w), 0), (.next, 0),
    (.machine c .complete, 0), (.machine c .put, 8), (.machine c (.get w), 0), (.next, 0), (.next, 0),
    (.next, 0), (.machine c (.finish w), 0), (.machine c .putback, 0), (.machine c .reply, 0),
    (.receive c, 3)]

theorem memory_safe_oneTask :
    let c : Fin pairOfWorkers.machines := ⟨0, Nat.one_pos⟩
    ∃ h, exec (step (fun _ => 0) pairOfWorkers) (init pairOfWorkers)
        (oneTask c ⟨0, Nat.two_pos⟩ ⟨1, Nat.one_lt_two⟩) = some h ∧
      ((h.machine c).heap 7 = none ∧ ((h.machine c).heap 8).isSome = true ∧
        (h.donepackets 3).isSome = true) ∧ h.MemorySafe := by
  intro c
  have hfits : pairOfWorkers.Fits := two_lt_int
  obtain ⟨h, hrun, htest⟩ := exists_exec (step (fun _ => 0) pairOfWorkers) (init pairOfWorkers)
    (oneTask c ⟨0, Nat.two_pos⟩ ⟨1, Nat.one_lt_two⟩)
    (fun h => decide ((h.machine c).heap 7 = none ∧ ((h.machine c).heap 8).isSome = true ∧
      (h.donepackets 3).isSome = true)) (by decide +kernel)
  exact ⟨h, hrun, of_decide_eq_true htest, (memory_safe (fun _ => 0) hfits hrun).1⟩

end HeapSched

end CommTest.Mpi
