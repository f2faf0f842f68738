import CommTest.Mpi.Corruption
import CommTest.Mpi.Protocol

/-!
# The scheduler over a network that garbles its messages

Every receive of the scheduler is followed by a CRC check that ends the process when it fails. Here
the messages may be hit by a burst of up to 32 bits on their way, each of them by another one. Of the
checksum `crc` it is assumed that it is a CRC-32 (`IsCrc32`).

* `faultyStep` is `Sched.step` with the message of a receive garbled before it is taken.
* `Packet.strip` clears the bytes that the checksum does not cover; `strip_flip`: a garbled message
  that passes the check is the one that was sent, but for these bytes.
* `Sched.Alike` relates a state with a state of the scheduler without faults that has the same
  messages in the same places. `alike_step`: a step with a fault is a step without it, or a process
  ends.
* `faulty_failStop`: as long as no check fails, a run with faults is a run of the round protocol.
-/

set_option linter.unusedSectionVars false

namespace CommTest.Mpi

open Mem Lts

/-! ## What a message is without the bytes that nothing covers -/

namespace Packet

/-- The bytes that are covered by the checksum, and the checksum. -/
def Kept (i : Nat) : Prop := i < crcmsgsize ∨ (crcpos ≤ i ∧ i < msgsize)

instance (i : Nat) : Decidable (Kept i) := inferInstanceAs (Decidable (_ ∨ _))

/-- The packet with all other bytes cleared. -/
def strip (p : Packet) : Packet := fun i => if Kept i then p i else 0

theorem strip_of_kept (p : Packet) {i : Nat} (h : Kept i) : p.strip i = p i := if_pos h

@[simp] theorem strip_zeroed : zeroed.strip = zeroed := by
  funext i
  simp [strip, zeroed]

/-- A word that lies in the bytes that are kept is stored before or after. -/
theorem strip_store32 (p : Packet) {pos : Nat} (v : UInt32) (h : ∀ k < 4, Kept (pos + k)) :
    strip (store32 p pos v) = store32 p.strip pos v := by
  funext i
  by_cases hin : pos ≤ i ∧ i < pos + 4
  · have hkept : Kept i := by
      have hk := h (i - pos) (by omega)
      rwa [Nat.add_sub_cancel' hin.1] at hk
    have hget : i - pos < (encode32 v).length := by
      rw [length_encode32]
      omega
    rw [strip_of_kept _ hkept, store32, store32, poke, poke, if_pos hin.1, if_pos hin.1,
      List.getElem?_eq_getElem hget]
    rfl
  · have hsame : ∀ q : Packet, store32 q pos v i = q i := by
      intro q
      by_cases hlt : i < pos
      · exact poke_of_lt q _ hlt
      · exact poke_of_ge q _ (by rw [length_encode32]; omega)
    rw [hsame p.strip, strip, strip, hsame p]

theorem kept_field (f : Field) : ∀ k < 4, Kept (f.pos + k) := by
  intro k hk
  left
  have hpos : f.pos ≤ 20 := by cases f <;> decide
  have hsize : crcmsgsize = 8184 := by decide
  omega

theorem kept_checksum : ∀ k < 4, Kept (crcpos + k) := by
  intro k hk
  right
  have hsize : crcpos + 4 = msgsize := by decide
  omega

@[simp] theorem strip_set (p : Packet) (f : Field) (v : UInt32) :
    (p.set f v).strip = p.strip.set f v :=
  strip_store32 p v (kept_field f)

@[simp] theorem get_strip (p : Packet) (f : Field) : p.strip.get f = p.get f :=
  (load32_eq_iff _ _ _).mpr fun k hk => strip_of_kept p (kept_field f k hk)

@[simp] theorem peek_strip (p : Packet) : peek p.strip crcmsgsize = peek p crcmsgsize :=
  List.map_congr_left fun _ hi => strip_of_kept p (Or.inl (List.mem_range.mp hi))

@[simp] theorem strip_setDone (p : Packet) : p.setDone.strip = p.strip.setDone := strip_set p _ _

end Packet

section Crc

variable (crc : List UInt8 → UInt32)

@[simp] theorem msgCheckcrc_strip (p : Packet) : msgCheckcrc crc p.strip = msgCheckcrc crc p := by
  have hsum : load32 p.strip crcpos = load32 p crcpos :=
    (load32_eq_iff _ _ _).mpr fun k hk => p.strip_of_kept (Packet.kept_checksum k hk)
  unfold msgCheckcrc
  rw [hsum, Packet.peek_strip]

@[simp] theorem strip_encappkt (p : Packet) : (encappkt crc p).strip = encappkt crc p.strip := by
  unfold encappkt
  rw [Packet.strip_store32 p _ Packet.kept_checksum, Packet.peek_strip]

@[simp] theorem strip_heartbeatPkt (rank schedrank : UInt32) :
    (heartbeatPkt crc rank schedrank).strip = heartbeatPkt crc rank schedrank := by
  simp [heartbeatPkt]

@[simp] theorem strip_taskPkt (rank outmsg destrank : UInt32) :
    (taskPkt crc rank outmsg destrank).strip = taskPkt crc rank outmsg destrank := by
  simp [taskPkt]

@[simp] theorem strip_replyPkt (rank schedrank : UInt32) (p : Packet) :
    (replyPkt crc rank schedrank p).strip = replyPkt crc rank schedrank p.strip := by
  simp [replyPkt]

end Crc

/-- **A garbled message that passes the check is the one that was sent**, but for the bytes that
nothing covers. -/
theorem strip_flip {crc : List UInt8 → UInt32} (hdoc : IsCrc32 crc) {p : Packet} {lo : Nat}
    {e : BitVec 32} (hp : msgCheckcrc crc p = true) (hflip : msgCheckcrc crc (p.flip lo e) = true) :
    (p.flip lo e).strip = p.strip := by
  have hharm := harmless_of_msgCheckcrc_flip hdoc hp hflip
  have hle : crcmsgsize ≤ crcpos := crcmsgsize_le_crcpos
  have hsize : crcpos ≤ msgsize := by decide
  funext i
  by_cases hi : Packet.Kept i
  · rw [Packet.strip_of_kept _ hi, Packet.strip_of_kept _ hi]
    by_contra hne
    rcases hi with hi | hi
    · have hout := (hharm i (by omega) hne).1
      omega
    · have hout := (hharm i hi.2 hne).2
      omega
  · rw [Packet.strip, Packet.strip, if_neg hi, if_neg hi]

/-! ## The scheduler with faults -/

/-- A step of the scheduler and the burst that hits the message it receives. -/
structure Fault (cfg : Config) where
  label : SchedLabel cfg
  lo : Nat
  bits : BitVec 32

/-- The oldest message of a channel is hit. -/
def garbleHead (lo : Nat) (e : BitVec 32) : List Packet → List Packet
  | [] => []
  | p :: ps => p.flip lo e :: ps

namespace Sched

variable {cfg : Config}

/-- The message that a step receives is hit on its way; the other steps receive nothing. -/
def garble (s : Sched cfg) (l : SchedLabel cfg) (lo : Nat) (e : BitVec 32) : Sched cfg :=
  match l with
  | .hear c => s.setMachine c { s.machine c with up := garbleHead lo e (s.machine c).up }
  | .receive c => s.setMachine c { s.machine c with up := garbleHead lo e (s.machine c).up }
  | .machine c .complete =>
      s.setMachine c { s.machine c with down := garbleHead lo e (s.machine c).down }
  | _ => s

/-- One step of the scheduler over a network that garbles. -/
def faultyStep (crc : List UInt8 → UInt32) (cfg : Config) (s : Sched cfg) (f : Fault cfg) :
    Option (Sched cfg) :=
  step crc cfg (s.garble f.label f.lo f.bits) f.label

/-- A check has failed and its process is gone. -/
def Dead (s : Sched cfg) : Prop := s.server = .aborted ∨ ∃ c, (s.machine c).client = .aborted

end Sched

/-! ## The same messages in the same places -/

/-- The position of the communication thread, with its message stripped. -/
def ClientPc.strip : ClientPc → ClientPc
  | .received p => .received p.strip
  | .returning p => .returning p.strip
  | pc => pc

/-- The position of a worker, with its message stripped. -/
def WorkerPc.strip : WorkerPc → WorkerPc
  | .busy p => .busy p.strip
  | pc => pc

@[simp] theorem WorkerPc.arrived_strip (pc : WorkerPc) : pc.strip.arrived = pc.arrived := by
  cases pc <;> rfl

namespace Machine

variable {crc : List UInt8 → UInt32} {thrdpm : Nat}

/-- The messages of `n` are those of `m`, stripped. A message that will not pass its check may have
been any other one. -/
structure Alike (crc : List UInt8 → UInt32) (m n : Machine thrdpm) : Prop where
  down : n.down = m.down.map Packet.strip
  up : n.up = m.up.map Packet.strip
  s2w : n.s2w = m.s2w.map Packet.strip
  w2s : n.w2s = m.w2s.map Packet.strip
  worker : ∀ w, n.worker w = (m.worker w).strip
  client : n.client = m.client.strip ∨
    ∃ p q, m.client = .received p ∧ n.client = .received q ∧ msgCheckcrc crc p = false

theorem alike_init : (Machine.init thrdpm).Alike crc (Machine.init thrdpm) :=
  ⟨rfl, rfl, rfl, rfl, fun _ => rfl, Or.inl rfl⟩

/-- A communication thread that holds no received message is where the other one is. -/
theorem Alike.client_eq {m n : Machine thrdpm} (h : m.Alike crc n) {pc : ClientPc}
    (hc : m.client = pc) (hpc : ∀ p, pc ≠ .received p) : n.client = pc.strip := by
  rcases h.client with hn | ⟨p, q, hm, -⟩
  · rw [hn, hc]
  · exact absurd (hc.symm.trans hm) (hpc p)

/-- A worker is where the other one is. -/
theorem Alike.worker_eq {m n : Machine thrdpm} (h : m.Alike crc n) {w : Fin thrdpm} {pc : WorkerPc}
    (hw : m.worker w = pc) : n.worker w = pc.strip := by
  rw [h.worker w, hw]

/-- The barrier opens for both. -/
theorem Alike.barrierOpen {m n : Machine thrdpm} (h : m.Alike crc n) (hopen : m.barrierOpen) :
    n.barrierOpen := by
  refine ⟨?_, ?_⟩
  · rcases h.client with hc | ⟨p, q, -, hn, -⟩
    · rw [hc]
      cases hm : m.client with
      | boot =>
          have harr := hopen.1
          rw [hm] at harr
          cases harr
      | _ => rfl
    · rw [hn]
      rfl
  · intro w
    rw [h.worker w, WorkerPc.arrived_strip]
    exact hopen.2 w

/-- A worker of each moves to the same place. -/
theorem Alike.setWorker {m n : Machine thrdpm} (h : m.Alike crc n) (w : Fin thrdpm)
    (pc : WorkerPc) : (m.setWorker w pc).Alike crc (n.setWorker w pc.strip) := by
  refine { h with worker := ?_ }
  intro w'
  by_cases hw : w' = w
  · subst hw
    simp [Machine.setWorker]
  · simp [Machine.setWorker, hw, h.worker w']

/-- **A step of a client process that receives nothing** is a step of the other, or a check fails.
-/
theorem alike_trans {rank schedrank : UInt32} {m m' n : Machine thrdpm} {l : MachineLabel thrdpm}
    (h : m.Alike crc n) (hm : Trans crc rank schedrank m l m') (hl : l ≠ .complete)
    (hlive : m'.client ≠ .aborted) :
    ∃ n', Trans crc rank schedrank n l n' ∧ m'.Alike crc n' := by
  cases hm with
  | heartbeat hc =>
      have hn : n.client = .boot := h.client_eq hc (by simp)
      refine ⟨_, .heartbeat hn, { h with up := ?_, client := Or.inl rfl }⟩
      simp [h.up]
  | pass hc hopen =>
      have hn : n.client = .barrier := h.client_eq hc (by simp)
      exact ⟨_, .pass hn (h.barrierOpen hopen), { h with client := Or.inl rfl }⟩
  | complete => exact absurd rfl hl
  | putback hc hq =>
      have hn : n.client = .polling := h.client_eq hc (by simp)
      have hnq := h.w2s
      rw [hq, List.map_cons] at hnq
      exact ⟨_, .putback hn hnq, { h with w2s := rfl, client := Or.inl rfl }⟩
  | @put p hc hcrc =>
      have hn : n.client = .received p.strip := by
        rcases h.client with hn | ⟨p', q, hm, -, hbad⟩
        · rw [hn, hc]
          rfl
        · rw [hc, ClientPc.received.injEq] at hm
          rw [← hm, hcrc] at hbad
          cases hbad
      refine ⟨_, .put hn (by rw [msgCheckcrc_strip, hcrc]), { h with s2w := ?_, client := Or.inl rfl }⟩
      simp [h.s2w]
  | abort => exact absurd rfl hlive
  | @reply p hc =>
      have hn : n.client = .returning p.strip := h.client_eq hc (by simp)
      refine ⟨_, .reply hn, { h with up := ?_, client := Or.inl rfl }⟩
      simp [h.up]
  | @arrive w hw =>
      have hn : n.worker w = .boot := h.worker_eq hw
      exact ⟨_, .arrive hn, h.setWorker w .barrier⟩
  | @start w hw hopen =>
      have hn : n.worker w = .barrier := h.worker_eq hw
      exact ⟨_, .start hn (h.barrierOpen hopen), h.setWorker w .idle⟩
  | @get w p s2w hw hq =>
      have hn : n.worker w = .idle := h.worker_eq hw
      have hnq := h.s2w
      rw [hq, List.map_cons] at hnq
      exact ⟨_, .get hn hnq, { h.setWorker w (.busy p) with s2w := rfl }⟩
  | @finish w p hw =>
      have hn : n.worker w = .busy p.strip := h.worker_eq hw
      refine ⟨_, .finish hn, { h.setWorker w .idle with w2s := ?_ }⟩
      simp [h.w2s]

/-- A communication thread that is gone stays away. -/
theorem aborted_of_trans {rank schedrank : UInt32}
    {m m' : Machine thrdpm} {l : MachineLabel thrdpm} (h : m.client = .aborted)
    (hm : Trans crc rank schedrank m l m') : m'.client = .aborted := by
  cases hm with
  | abort => rfl
  | arrive | start | get | finish => exact h
  | heartbeat hc | pass hc | complete hc | putback hc | put hc | reply hc =>
      rw [h] at hc
      cases hc

/-- **A message arrives garbled**: it is the one that was sent, or it will not pass its check. -/
theorem alike_complete (hdoc : IsCrc32 crc) {rank schedrank : UInt32} {m n : Machine thrdpm}
    {p : Packet} {down : List Packet} (h : m.Alike crc n) (hc : m.client = .polling)
    (hd : m.down = p :: down) (hp : msgCheckcrc crc p = true) (lo : Nat) (e : BitVec 32) :
    ∃ n', Trans crc rank schedrank n .complete n' ∧
      { m with down := down, client := .received (p.flip lo e) }.Alike crc n' := by
  have hn : n.client = .polling := h.client_eq hc (by simp)
  have hnd := h.down
  rw [hd, List.map_cons] at hnd
  refine ⟨_, .complete hn hnd, { h with down := rfl, client := ?_ }⟩
  cases hcheck : msgCheckcrc crc (p.flip lo e) with
  | false => exact Or.inr ⟨_, _, rfl, rfl, hcheck⟩
  | true =>
      left
      show ClientPc.received p.strip = .received (p.flip lo e).strip
      rw [strip_flip hdoc hp hcheck]

end Machine

namespace Sched

variable {crc : List UInt8 → UInt32} {cfg : Config}

/-- The messages of `t` are those of `s`, stripped. -/
structure Alike (crc : List UInt8 → UInt32) (s t : Sched cfg) : Prop where
  server : t.server = s.server
  inmsg : t.inmsg = s.inmsg
  outmsg : t.outmsg = s.outmsg
  machine : ∀ c, (s.machine c).Alike crc (t.machine c)
  alive : t.alive = s.alive.map fun x => (x.1, x.2.strip)
  roundSent : t.roundSent = s.roundSent
  roundRcvd : t.roundRcvd = s.roundRcvd.map Packet.strip
  rounds : t.rounds = s.rounds

theorem alike_init : (Sched.init cfg).Alike crc (Sched.init cfg) :=
  ⟨rfl, rfl, rfl, fun _ => Machine.alike_init, rfl, rfl, rfl, rfl⟩

/-- A process of each moves to the same place. -/
theorem Alike.setMachine {s t : Sched cfg} (h : s.Alike crc t) (c : Fin cfg.machines)
    {m n : Machine cfg.thrdpm} (hm : m.Alike crc n) :
    (s.setMachine c m).Alike crc (t.setMachine c n) := by
  refine { h with machine := ?_ }
  intro c'
  by_cases hc : c' = c
  · subst hc
    simpa [Sched.setMachine] using hm
  · simpa [Sched.setMachine, hc] using h.machine c'

/-- A client that never gave up and a server that never did. -/
theorem not_dead_iff {s : Sched cfg} :
    ¬ s.Dead ↔ s.server ≠ .aborted ∧ ∀ c, (s.machine c).client ≠ .aborted := by
  simp [Dead]

/-- The message at the head of a garbled channel. -/
theorem garbleHead_eq_cons {lo : Nat} {e : BitVec 32} {ps : List Packet} {q : Packet}
    {qs : List Packet} (h : garbleHead lo e ps = q :: qs) :
    ∃ p, ps = p :: qs ∧ q = p.flip lo e := by
  cases ps with
  | nil => cases h
  | cons p ps =>
      simp only [garbleHead, List.cons.injEq] at h
      exact ⟨p, by rw [h.2], h.1.symm⟩

/-- What a client has sent carries a good CRC. -/
theorem check_up {s t : Sched cfg} (h : s.Alike crc t) (hi : t.Inv crc) {c : Fin cfg.machines}
    {p : Packet} {up : List Packet} (hup : (s.machine c).up = p :: up) :
    msgCheckcrc crc p = true := by
  have hmem : p.strip ∈ (t.machine c).up := by
    rw [(h.machine c).up, hup]
    exact List.mem_cons_self
  obtain ⟨as, hgreet, has⟩ := (hi.machine c).up
  rw [hgreet, List.mem_append] at hmem
  rw [← msgCheckcrc_strip]
  rcases hmem with hmem | hmem
  · unfold Machine.greeting at hmem
    split_ifs at hmem
    · rw [List.mem_singleton.mp hmem]
      exact msgCheckcrc_heartbeatPkt _ _ _
    · cases hmem
  · exact (has _ hmem).1

/-- What the server has sent carries a good CRC. -/
theorem check_down {s t : Sched cfg} (h : s.Alike crc t) (hi : t.Inv crc)
    {c : Fin cfg.machines} {p : Packet} {down : List Packet}
    (hdown : (s.machine c).down = p :: down) : msgCheckcrc crc p = true := by
  have hmem : p.strip ∈ (t.machine c).down := by
    rw [(h.machine c).down, hdown]
    exact List.mem_cons_self
  rw [← msgCheckcrc_strip]
  exact (hi.machine c).down _ hmem

/-- The server takes a message that was hit: both states behind it, less the message. -/
theorem Alike.takeUp (hdoc : IsCrc32 crc) {s t : Sched cfg} (h : s.Alike crc t) (hi : t.Inv crc)
    {c : Fin cfg.machines} {lo : Nat} {e : BitVec 32} {q : Packet} {up : List Packet}
    (hup : garbleHead lo e (s.machine c).up = q :: up)
    (hcheck : msgCheckcrc crc q = true) :
    (t.machine c).up = q.strip :: up.map Packet.strip ∧
      (s.setMachine c { s.machine c with up := up }).Alike crc
        (t.setMachine c { t.machine c with up := up.map Packet.strip }) := by
  obtain ⟨p, hp, rfl⟩ := garbleHead_eq_cons hup
  have hgood := check_up h hi hp
  refine ⟨?_, h.setMachine c { h.machine c with up := rfl }⟩
  rw [(h.machine c).up, hp, List.map_cons, strip_flip hdoc hgood hcheck]

/-- The server sends the same task. -/
theorem Alike.sendTask {s t : Sched cfg} (h : s.Alike crc t) (c : Fin cfg.machines) :
    (s.serverSendtestmsg crc c).Alike crc (t.serverSendtestmsg crc c) := by
  have hdown : (t.machine c).down ++ [taskPkt crc cfg.schedrank t.outmsg (UInt32.ofNat c)] =
      ((s.machine c).down ++
        [taskPkt crc cfg.schedrank s.outmsg (UInt32.ofNat c)]).map Packet.strip := by
    rw [List.map_append, List.map_singleton, strip_taskPkt, (h.machine c).down, h.outmsg]
  have hset : (s.setMachine c { s.machine c with down := _ }).Alike crc
      (t.setMachine c { t.machine c with down := _ }) :=
    h.setMachine c { h.machine c with down := hdown }
  refine { hset with outmsg := ?_, roundSent := ?_ }
  · show t.outmsg + 1 = s.outmsg + 1
    rw [h.outmsg]
  · show t.roundSent ++ [t.outmsg] = s.roundSent ++ [s.outmsg]
    rw [h.roundSent, h.outmsg]

/-- A step of a client process that receives nothing is not hit. -/
theorem garble_machine_of_ne (s : Sched cfg) (c : Fin cfg.machines) {l : MachineLabel cfg.thrdpm}
    (hl : l ≠ .complete) (lo : Nat) (e : BitVec 32) : s.garble (.machine c l) lo e = s := by
  cases l with
  | complete => exact absurd rfl hl
  | _ => rfl

/-- **A step of a client process with a fault.** -/
theorem alike_machine (hdoc : IsCrc32 crc) {s t : Sched cfg} (h : s.Alike crc t) (hi : t.Inv crc)
    {c : Fin cfg.machines} {l : MachineLabel cfg.thrdpm} {lo : Nat} {e : BitVec 32}
    {m : Machine cfg.thrdpm}
    (hm : Machine.Trans crc (UInt32.ofNat c) cfg.schedrank
      ((s.garble (.machine c l) lo e).machine c) l m) (hlive : m.client ≠ .aborted) :
    ∃ t', Trans crc t (.machine c l) t' ∧
      ((s.garble (.machine c l) lo e).setMachine c m).Alike crc t' := by
  by_cases hl : l = .complete
  · subst hl
    cases hm with
    | @complete q down hc hd =>
        have hc' : (s.machine c).client = .polling := by
          simpa [garble, Sched.setMachine] using hc
        have hd' : garbleHead lo e (s.machine c).down = q :: down := by
          simpa [garble, Sched.setMachine] using hd
        obtain ⟨p, hp, rfl⟩ := garbleHead_eq_cons hd'
        obtain ⟨n, hn, halike⟩ := Machine.alike_complete hdoc (h.machine c) hc' hp
          (check_down h hi hp) lo e
        refine ⟨_, .machine hn, ?_⟩
        have hset := h.setMachine c halike
        simpa [garble, Sched.setMachine] using hset
  · rw [garble_machine_of_ne s c hl] at hm ⊢
    obtain ⟨n, hn, halike⟩ := Machine.alike_trans (h.machine c) hm hl hlive
    exact ⟨_, .machine hn, h.setMachine c halike⟩

/-- **A step with a fault is a step without it**, or a check fails. -/
theorem alike_step (hdoc : IsCrc32 crc) {s s' t : Sched cfg} {f : Fault cfg} (h : s.Alike crc t)
    (hi : t.Inv crc) (hs : faultyStep crc cfg s f = some s') (hlive : ¬ s'.Dead) :
    ∃ t', step crc cfg t f.label = some t' ∧ s'.Alike crc t' := by
  obtain ⟨l, lo, e⟩ := f
  obtain ⟨hserver, hclients⟩ := not_dead_iff.mp hlive
  suffices hgoal : ∃ t', Trans crc t l t' ∧ s'.Alike crc t' by
    obtain ⟨t', ht, ha⟩ := hgoal
    exact ⟨t', step_of_trans ht, ha⟩
  unfold faultyStep at hs
  cases trans_of_step hs with
  | @hear c k q up hk hlt hup hcrc =>
      have hup' : garbleHead lo e (s.machine c).up = q :: up := by
        simpa [garble, Sched.setMachine] using hup
      obtain ⟨htup, hset⟩ := h.takeUp hdoc hi hup' hcrc
      refine ⟨_, .hear (h.server.trans hk) hlt htup (by rw [msgCheckcrc_strip, hcrc]), ?_⟩
      have hback : (s.garble (.hear c) lo e).setMachine c
          { (s.garble (.hear c) lo e).machine c with up := up } =
            s.setMachine c { s.machine c with up := up } := by
        simp [garble, Sched.setMachine]
      rw [hback]
      refine { hset with server := rfl, alive := ?_ }
      show t.alive ++ [(c, q.strip)] = (s.alive ++ [(c, q)]).map _
      rw [h.alive, List.map_append]
      rfl
  | hearAbort => exact absurd rfl hserver
  | begin hk hge => exact ⟨_, .begin (h.server.trans hk) hge, { h with server := rfl }⟩
  | send hk hlt hj =>
      refine ⟨_, .send (h.server.trans hk) hlt hj, ?_⟩
      exact { h.sendTask ⟨_, hlt⟩ with server := rfl }
  | sendRow hk hlt hj => exact ⟨_, .sendRow (h.server.trans hk) hlt hj, { h with server := rfl }⟩
  | sendEnd hk hge => exact ⟨_, .sendEnd (h.server.trans hk) hge, { h with server := rfl }⟩
  | @receive c k q up hk hlt hup hcrc =>
      have hup' : garbleHead lo e (s.machine c).up = q :: up := by
        simpa [garble, Sched.setMachine] using hup
      obtain ⟨htup, hset⟩ := h.takeUp hdoc hi hup' hcrc
      refine ⟨_, .receive (h.server.trans hk) hlt htup (by rw [msgCheckcrc_strip, hcrc]), ?_⟩
      have hback : (s.garble (.receive c) lo e).setMachine c
          { (s.garble (.receive c) lo e).machine c with up := up } =
            s.setMachine c { s.machine c with up := up } := by
        simp [garble, Sched.setMachine]
      rw [hback]
      refine { hset with server := rfl, inmsg := ?_, roundRcvd := ?_ }
      · show t.inmsg + 1 = s.inmsg + 1
        rw [h.inmsg]
      · show t.roundRcvd ++ [q.strip] = (s.roundRcvd ++ [q]).map _
        rw [h.roundRcvd, List.map_append]
        rfl
  | receiveAbort => exact absurd rfl hserver
  | leave hk hge => exact ⟨_, .leave (h.server.trans hk) hge, { h with server := rfl }⟩
  | round hk heq =>
      have heq' : t.inmsg = t.outmsg := by rw [h.inmsg, h.outmsg]; exact heq
      exact ⟨_, .round (h.server.trans hk) heq',
        { h with server := rfl, roundSent := rfl, roundRcvd := rfl, rounds := by rw [h.rounds]; rfl }⟩
  | checkAbort => exact absurd rfl hserver
  | @machine c l m hm =>
      refine alike_machine hdoc h hi hm ?_
      have hc := hclients c
      simpa [Sched.setMachine] using hc

/-- The position of a communication thread is not touched by others. -/
theorem client_setMachine (s : Sched cfg) {c : Fin cfg.machines} {m : Machine cfg.thrdpm}
    (h : m.client = (s.machine c).client) (c' : Fin cfg.machines) :
    ((s.setMachine c m).machine c').client = (s.machine c').client := by
  by_cases hc : c' = c
  · subst hc
    simpa [Sched.setMachine] using h
  · simp [Sched.setMachine, hc]

/-- A server that is gone takes no step. -/
theorem Dead.of_server {s t : Sched cfg} (h : s.Dead) {pc : ServerPc} (hs : s.server = pc)
    (hpc : pc ≠ .aborted) (hclient : ∀ c, (t.machine c).client = (s.machine c).client) : t.Dead := by
  rcases h with h | ⟨c, hc⟩
  · rw [hs] at h
    exact absurd h hpc
  · exact Or.inr ⟨c, (hclient c).trans hc⟩

/-- A process that is gone stays away. -/
theorem dead_of_trans {s t : Sched cfg} {l : SchedLabel cfg}
    (h : s.Dead) (ht : Trans crc s l t) : t.Dead := by
  cases ht with
  | hear hs => exact h.of_server hs (by simp) (s.client_setMachine rfl)
  | hearAbort | receiveAbort | checkAbort => exact Or.inl rfl
  | send hs => exact h.of_server hs (by simp) (s.client_setMachine rfl)
  | receive hs => exact h.of_server hs (by simp) (s.client_setMachine rfl)
  | begin hs | sendRow hs | sendEnd hs | leave hs | round hs =>
      exact h.of_server hs (by simp) fun _ => rfl
  | @machine c l m hm =>
      rcases h with h | ⟨c', hc'⟩
      · exact Or.inl h
      · refine Or.inr ⟨c', ?_⟩
        by_cases hc : c' = c
        · subst hc
          simpa [Sched.setMachine] using Machine.aborted_of_trans hc' hm
        · simpa [Sched.setMachine, hc] using hc'

theorem dead_garble {s : Sched cfg} (h : s.Dead) (l : SchedLabel cfg) (lo : Nat) (e : BitVec 32) :
    (s.garble l lo e).Dead := by
  have hclient : ∀ c, ((s.garble l lo e).machine c).client = (s.machine c).client := by
    cases l with
    | hear c => exact s.client_setMachine rfl
    | receive c => exact s.client_setMachine rfl
    | next => exact fun _ => rfl
    | machine c l =>
        cases l with
        | complete => exact s.client_setMachine rfl
        | _ => exact fun _ => rfl
  have hserver : (s.garble l lo e).server = s.server := by
    cases l with
    | machine c l => cases l <;> rfl
    | _ => rfl
  rcases h with h | ⟨c, hc⟩
  · exact Or.inl (hserver.trans h)
  · exact Or.inr ⟨c, (hclient c).trans hc⟩

theorem dead_step {s t : Sched cfg} {f : Fault cfg} (h : s.Dead)
    (hs : faultyStep crc cfg s f = some t) : t.Dead :=
  dead_of_trans (dead_garble h _ _ _) (trans_of_step hs)

/-- **Fail-stop**: a run in which the messages are hit by bursts of up to 32 bits, and in which no
check has failed, is step for step a run without faults that has the same messages in the same
places; so it keeps the round protocol. -/
theorem faulty_failStop (hdoc : IsCrc32 crc) (hfits : cfg.Fits) {fs : List (Fault cfg)}
    {s : Sched cfg}
    (hrun : exec (faultyStep crc cfg) (Sched.init cfg) fs = some s)
    (hserver : s.server ≠ .aborted) (hclients : ∀ c, (s.machine c).client ≠ .aborted) :
    ∃ t, exec (step crc cfg) (Sched.init cfg) (fs.map Fault.label) = some t ∧
      s.Alike crc t ∧ RoundProtocol crc t := by
  have hlive : ¬ s.Dead := not_dead_iff.mpr ⟨hserver, hclients⟩
  have hstart : (Sched.init cfg).Alike crc (Sched.init cfg) ∧ (Sched.init cfg).Inv crc :=
    ⟨alike_init, inv_init crc cfg⟩
  have hsim : ∀ (s : Sched cfg) (f : Fault cfg) (s' t : Sched cfg),
      s.Alike crc t ∧ t.Inv crc → faultyStep crc cfg s f = some s' → ¬ s'.Dead →
        ∃ t', step crc cfg t f.label = some t' ∧ s'.Alike crc t' ∧ t'.Inv crc := by
    intro s f s' t hR hs hlive'
    obtain ⟨t', ht', halike⟩ := alike_step hdoc hR.1 hR.2 hs hlive'
    exact ⟨t', ht', halike, inv_of_trans (trans_of_step ht') hR.2⟩
  obtain ⟨t, hexec, halike, hinv⟩ :=
    exec_simulated Fault.label (fun _ _ _ => dead_step) hsim hstart hrun hlive
  exact ⟨t, hexec, halike, roundProtocol_of_inv hinv hfits⟩

/-- One client with one worker. -/
def solo : Config := ⟨1, 1, by decide, by decide, by decide, by decide⟩

/-- Its rank. -/
def soloRank : Fin solo.machines := ⟨0, by decide⟩

/-- The heartbeat of the only client is hit behind its covered bytes, and counts. -/
theorem faulty_failStop_solo :
    ∃ s t, exec (faultyStep generateCrc32 solo) (Sched.init solo)
        [⟨.machine soloRank .heartbeat, 0, 0⟩, ⟨.hear soloRank, 8 * crcmsgsize, 1⟩] = some s ∧
      s.server = .waitforall 1 ∧ s.Alike generateCrc32 t ∧ RoundProtocol generateCrc32 t := by
  let p := heartbeatPkt generateCrc32 (UInt32.ofNat soloRank) solo.schedrank
  let m : Machine solo.thrdpm := { Machine.init solo.thrdpm with up := [p], client := .barrier }
  let s₁ : Sched solo := (Sched.init solo).setMachine soloRank m
  let s₂ : Sched solo := s₁.garble (.hear soloRank) (8 * crcmsgsize) 1
  have hfirst : faultyStep generateCrc32 solo (Sched.init solo)
      ⟨.machine soloRank .heartbeat, 0, 0⟩ = some s₁ :=
    step_of_trans (.machine (.heartbeat rfl))
  have hmachine : s₂.machine soloRank = { m with up := [p.flip (8 * crcmsgsize) 1] } := by
    simp [s₂, s₁, m, garble, garbleHead, Sched.setMachine]
  have hup : (s₂.machine soloRank).up = [p.flip (8 * crcmsgsize) 1] := by rw [hmachine]
  have hcheck : msgCheckcrc generateCrc32 (p.flip (8 * crcmsgsize) 1) = true :=
    msgCheckcrc_flip_of_harmless (msgCheckcrc_heartbeatPkt _ _ _) (harmless_gap p 1)
  have hwait : s₂.server = .waitforall 0 := rfl
  let s : Sched solo := { s₂.setMachine soloRank { s₂.machine soloRank with up := [] } with
    server := .waitforall 1, alive := s₂.alive ++ [(soloRank, p.flip (8 * crcmsgsize) 1)] }
  have hs : faultyStep generateCrc32 solo s₁ ⟨.hear soloRank, 8 * crcmsgsize, 1⟩ = some s :=
    step_of_trans (.hear hwait (by decide) hup hcheck)
  have hserver : s.server = .waitforall 1 := rfl
  have hclients : ∀ c, (s.machine c).client = .barrier := by
    intro c
    obtain rfl : c = soloRank := Subsingleton.elim (α := Fin 1) c soloRank
    simp [s, Sched.setMachine, hmachine, m]
  have hrun : exec (faultyStep generateCrc32 solo) (Sched.init solo)
      [⟨.machine soloRank .heartbeat, 0, 0⟩, ⟨.hear soloRank, 8 * crcmsgsize, 1⟩] = some s :=
    exec_cons_eq_some.mpr ⟨s₁, hfirst, exec_cons_eq_some.mpr ⟨s, hs, rfl⟩⟩
  have hfits : solo.Fits := show 1 * 1 < 2 ^ 31 by decide
  obtain ⟨t, -, halike, hround⟩ :=
    faulty_failStop isCrc32_generateCrc32 hfits hrun (by simp [hserver]) (by simp [hclients])
  exact ⟨s, t, hrun, hserver, halike, hround⟩

end Sched

end CommTest.Mpi
