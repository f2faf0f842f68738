import CommTest.Socket.PoolStream

/-!
# Stopping the pool

`stop_all` queues an EXIT message behind everything a writer still has to write, and closes the pipe
of the reader of the same connections, which then closes their sockets. Nothing makes the reader
wait for the writer.

* `StopsCleanly`: no writer is about to write to a closed socket, and when `stop_all` has returned
  every accepted message is on every socket it targets.
* `stopsCleanly_of_drainsFirst`: so it is in every run in which a reader closes a socket only when its
  writer has nothing left to write to it.
* `not_stopsCleanly_readerFirst`: the other order is a run of the pool, and the message is lost.
-/

set_option linter.unusedSectionVars false

namespace CommTest.Socket

open Mem FairQueue Lts RoundRobin

/-! ## The exit of a reader -/

/-- The reader is in its exit branch. -/
def ReaderPc.Closing : ReaderPc → Prop
  | .closing _ => True
  | .exited => True
  | _ => False

/-- The reader has seen its pipe ready, or is in its exit branch. -/
def ReaderPc.Leaving : ReaderPc → Prop
  | .serving _ rdfd => rdfd = true
  | pc => pc.Closing

theorem ReaderPc.Closing.leaving {pc : ReaderPc} (h : pc.Closing) : pc.Leaving := by
  cases pc with
  | serving pending rdfd => cases h
  | _ => exact h

namespace ReadThr

/-- The loop over the slots hands `rdfd` on. -/
theorem next_leaving {rest : List Nat} {rdfd : Bool} (h : (next rest rdfd).Leaving) : rdfd = true := by
  unfold next at h
  split_ifs at h
  · cases h
  · exact h

/-- What a step of a reader does to its pipe and to its way out: the way to the exit branch leads
over the end of the pipe. -/
structure PipeStep (r r' : ReadThr) : Prop where
  closed : r'.rdpipe.closed = r.rdpipe.closed
  empty : r.rdpipe.incoming = [] → r'.rdpipe.incoming = []
  leaving : r'.pc.Leaving → r.pc.Leaving ∨ r.rdpipe.Readable

theorem PipeStep.of_eq {r r' : ReadThr} (h1 : r'.rdpipe = r.rdpipe)
    (h2 : r'.pc.Leaving → r.pc.Leaving ∨ r.rdpipe.Readable) : PipeStep r r' where
  closed := by rw [h1]
  empty h := by rw [h1, h]
  leaving := h2

theorem pipeStep_serve {r r' : ReadThr} {idx : Nat} {rest : List Nat} {rdfd : Bool}
    {script : List ReadOutcome} {junk fresh : Memory} (hpc : r.pc = .serving (idx :: rest) rdfd)
    (h : r.serve idx rest rdfd script junk fresh = some r') : PipeStep r r' := by
  have hold : rdfd = true → r.pc.Leaving := by
    intro hrdfd
    rw [hpc]
    exact hrdfd
  unfold serve at h
  split at h
  · cases h
  simp only at h
  split_ifs at h
  · cases h
    exact .of_eq rfl fun hl => .inl (hold (next_leaving hl))
  · cases h
    exact .of_eq rfl fun hl => .inl (hold (next_leaving hl))
  · cases h
    exact .of_eq rfl fun hl => by cases hl

theorem pipeStep_readPipe {r r' : ReadThr} {o : ReadOutcome} (hpc : r.pc = .serving [] true)
    (h : r.readPipe o = some r') : PipeStep r r' := by
  have hleaving : r.pc.Leaving := by
    rw [hpc]
    rfl
  unfold readPipe at h
  split at h
  · cases h
  rename_i n chunk c hread
  have hc : c.closed = r.rdpipe.closed ∧ (r.rdpipe.incoming = [] → c.incoming = []) := by
    cases o with
    | err =>
        cases hread
        exact ⟨rfl, id⟩
    | got k =>
        simp only [read] at hread
        split_ifs at hread <;> cases hread
        · exact ⟨rfl, id⟩
        · exact ⟨rfl, id⟩
        · exact ⟨rfl, fun hnil => absurd hnil ‹_›⟩
  simp only at h
  split_ifs at h <;> cases h
  all_goals exact ⟨hc.1, hc.2, fun _ => .inl hleaving⟩

/-- **A reader leaves only over the end of its pipe.** -/
theorem pipeStep_of_step {r r' : ReadThr} {l : ReadLabel} (h : r.step l = some r') :
    PipeStep r r' := by
  unfold step at h
  split at h
  · rename_i ready rdfd hpc
    split_ifs at h with hc
    cases h
    exact .of_eq rfl fun hl => .inr (hc.2.2 hl)
  · cases h
    exact .of_eq rfl fun hl => by cases hl
  · rename_i hpc
    exact pipeStep_serve hpc h
  · rename_i hpc
    exact pipeStep_readPipe hpc h
  · rename_i k hpc
    have hclosing : r.pc.Closing := by
      rw [hpc]
      trivial
    cases h
    exact ⟨rfl, id, fun _ => .inl hclosing.leaving⟩
  · cases h

end ReadThr

/-! ## The property and the condition -/

/-- The sockets that the message the writer is writing still has to go to. -/
def WriterPc.fds : WriterPc → List Fd
  | .writing fd rest _ _ => fd :: rest
  | _ => []

/-- The socket the writer is writing to is closed. -/
def WriterPc.shut (closed : Fd → Bool) : WriterPc → Bool
  | .writing fd _ _ _ => closed fd
  | _ => false

/-- The owner has pushed the EXIT message of writer `i`. -/
def OwnerPc.ExitPushed (i : Nat) : OwnerPc → Prop
  | .stopping j pushed => i < j ∨ i = j ∧ pushed = true
  | .joining _ _ => True
  | _ => False

/-- The queue of a writer: messages to write, with the EXIT message behind them once it has been
pushed; a writer is out only when it has taken that message. -/
structure QueueInv (pushed : Prop) (w : WriterPc) (q : List MsgT) : Prop where
  out : w = .exited → pushed ∧ q = []
  busy : w ≠ .exited → ∃ ms, (∀ m ∈ ms, m.type = .write) ∧
    (¬ pushed ∧ q = ms ∨ pushed ∧ q = ms ++ [Pool.exitMsg])

namespace QueueInv

variable {pushed pushed' : Prop} {w w' : WriterPc} {q : List MsgT} {m : MsgT}

theorem congr (h : QueueInv pushed w q) (hp : pushed' ↔ pushed) : QueueInv pushed' w q := by
  rw [propext hp]
  exact h

/-- A writer that is at work stays so. -/
theorem work (h : QueueInv pushed w q) (hw : w ≠ .exited) (hw' : w' ≠ .exited) :
    QueueInv pushed w' q where
  out hout := absurd hout hw'
  busy _ := h.busy hw

/-- A message is pushed before the EXIT message. -/
theorem push (h : QueueInv pushed w q) (hp : ¬ pushed) (hp' : ¬ pushed') (hm : m.type = .write) :
    QueueInv pushed' w (q ++ [m]) where
  out hout := absurd (h.out hout).1 hp
  busy hw := by
    obtain ⟨ms, hms, ⟨-, rfl⟩ | ⟨hpushed, -⟩⟩ := h.busy hw
    · refine ⟨q ++ [m], ?_, .inl ⟨hp', rfl⟩⟩
      intro x hx
      rcases List.mem_append.mp hx with hx | hx
      · exact hms x hx
      · rw [List.mem_singleton.mp hx]
        exact hm
    · exact absurd hpushed hp

/-- The EXIT message is pushed. -/
theorem exit (h : QueueInv pushed w q) (hp : ¬ pushed) (hp' : pushed') :
    QueueInv pushed' w (q ++ [Pool.exitMsg]) where
  out hout := absurd (h.out hout).1 hp
  busy hw := by
    obtain ⟨ms, hms, ⟨-, rfl⟩ | ⟨hpushed, -⟩⟩ := h.busy hw
    · exact ⟨q, hms, .inr ⟨hp', rfl⟩⟩
    · exact absurd hpushed hp

/-- The EXIT message is taken: it was the last one. -/
theorem pop_exit (h : QueueInv pushed .idle (m :: q)) (hm : m.type = .exit) :
    QueueInv pushed .exited q where
  out _ := by
    obtain ⟨ms, hms, hcase⟩ := h.busy (by simp)
    cases ms with
    | nil =>
        rcases hcase with ⟨-, hnil⟩ | ⟨hpushed, hq⟩
        · cases hnil
        · cases hq
          exact ⟨hpushed, rfl⟩
    | cons x ms =>
        -- a message to write is in front of it
        have hx := hms x List.mem_cons_self
        rcases hcase with ⟨-, hq⟩ | ⟨-, hq⟩
        · cases hq
          rw [hm] at hx
          cases hx
        · cases hq
          rw [hm] at hx
          cases hx
  busy hw := absurd rfl hw

/-- A message to write is taken. -/
theorem pop_write (h : QueueInv pushed .idle (m :: q)) (hm : m.type = .write) (hw : w ≠ .exited) :
    QueueInv pushed w q where
  out hout := absurd hout hw
  busy _ := by
    obtain ⟨ms, hms, hcase⟩ := h.busy (by simp)
    cases ms with
    | nil =>
        rcases hcase with ⟨-, hnil⟩ | ⟨-, hq⟩
        · cases hnil
        · cases hq
          cases hm
    | cons x ms =>
        have hrest : ∀ y ∈ ms, y.type = .write := fun y hy => hms y (List.mem_cons_of_mem _ hy)
        rcases hcase with ⟨hp, hq⟩ | ⟨hp, hq⟩
        · rw [List.cons.injEq] at hq
          exact ⟨ms, hrest, .inl ⟨hp, hq.2⟩⟩
        · rw [List.cons_append, List.cons.injEq] at hq
          exact ⟨ms, hrest, .inr ⟨hp, hq.2⟩⟩

end QueueInv

namespace Pool

/-- **A clean stop**: no writer is about to write to a closed socket, and once `stop_all` has
returned every accepted message is completely on every socket it targets. -/
structure StopsCleanly (s : Pool) : Prop where
  open_ : ∀ i fd rest m k, s.writers i = .writing fd rest m k → s.closed fd = false
  flushed : s.stopped = true →
    ∀ c fd, s.conns[c]? = some fd → s.out fd = expected s.numThrs s.calls c

/-- Writer `i` has nothing left to write to the socket. -/
def Drained (s : Pool) (i : Nat) (fd : Fd) : Prop :=
  (∀ m ∈ (s.wthrinfo i).msgq, m.type = .write → fd ∉ (s.wthrinfo i).targets m) ∧
    fd ∉ (s.writers i).fds

/-- The socket that a step of reader `i` closes. -/
def closes (s : Pool) (i : Nat) (l : ReadLabel) : Option Fd :=
  (s.readers i).bind fun r => (closesSlot r l).bind fun k => (s.rthrinfo i).socks[k]?

/-- The condition on a step: sockets are added once, calls are made before `stop_all` with messages
whose length field holds the length, writes fail on closed sockets only, and a reader closes a socket
only when its writer has nothing left to write to it. -/
def DrainsFirst (s : Pool) : PoolLabel → Prop
  | .addConn sock _ => sock ∉ s.conns
  | .send _ p => s.stopped = false ∧ p.bytes.length < 2 ^ 32 - 4
  | .thrBroadcast _ p => s.stopped = false ∧ p.bytes.length < 2 ^ 32 - 4
  | .broadcast p => s.stopped = false ∧ p.bytes.length < 2 ^ 32 - 4
  | .stopAll => s.stopped = false
  | .write i o => o = .err → (s.writers i).shut s.closed = true
  | .reader i l => ∀ fd ∈ s.closes i l, s.Drained i fd
  | _ => True

/-! ## The invariant -/

/-- The EXIT message of writer `i` has been pushed. -/
def ExitPushed (s : Pool) (i : Nat) : Prop := s.stopped = true ∨ s.owner.ExitPushed i

theorem not_exitPushed {s : Pool} (hstop : s.stopped = false) {i : Nat} (ho : ¬ s.owner.ExitPushed i) :
    ¬ s.ExitPushed i := by
  rintro (h | h)
  · rw [hstop] at h
    cases h
  · exact ho h

theorem exitPushed_congr {s s' : Pool} {i : Nat} (h1 : s'.stopped = s.stopped)
    (h2 : s'.owner.ExitPushed i ↔ s.owner.ExitPushed i) : s'.ExitPushed i ↔ s.ExitPushed i := by
  unfold ExitPushed
  rw [h1, h2]

/-- Where `stop_all` is: the writers it has joined are out, and it returns once. -/
structure Stage (s : Pool) : Prop where
  unstarted : s.running = false → s.stopped = false ∧ (∀ i, s.readers i = none) ∧
    ∀ fd, s.closed fd = false
  returned : s.stopped = true → s.owner = .idle ∧ ∀ i, i < s.numThrs → s.writers i = .exited
  joined : ∀ j b, s.owner = .joining j b → ∀ i, i < s.numThrs → (i < j ∨ i = j ∧ b = false) →
    s.writers i = .exited

/-- Every queue is in order. -/
def Queues (s : Pool) : Prop :=
  ∀ i, i < s.numThrs → QueueInv (s.ExitPushed i) (s.writers i) (s.wthrinfo i).msgq

/-- The readers: the end of a pipe comes behind the EXIT message and a reader leaves behind the end of
its pipe; only such readers close sockets, and a writer has nothing left for a closed socket. -/
structure Exits (s : Pool) : Prop where
  thread : ∀ i r, s.readers i = some r → i < s.numThrs
  empty : ∀ i r, s.readers i = some r → r.rdpipe.incoming = []
  pushed : ∀ i r, s.readers i = some r → r.rdpipe.closed = true → s.ExitPushed i
  leaving : ∀ i r, s.readers i = some r → r.pc.Leaving → r.rdpipe.closed = true
  closed : ∀ fd, s.closed fd = true →
    ∃ i r, s.readers i = some r ∧ r.pc.Closing ∧ fd ∈ (s.wthrinfo i).socks ∧ s.Drained i fd

/-- **The invariant of a clean stop.** -/
structure StopInv (s : Pool) : Prop where
  sound : s.Sound
  stage : s.Stage
  queues : s.Queues
  exits : s.Exits

/-- A writer at work has its sockets open. -/
theorem StopInv.open_of_writing {s : Pool} (hs : s.StopInv) {i : Nat} {fd : Fd} {rest : List Fd}
    {m : MsgT} {k : Nat} (hw : s.writers i = .writing fd rest m k) : s.closed fd = false := by
  cases hclosed : s.closed fd with
  | false => rfl
  | true =>
      obtain ⟨j, r, hr, -, hmem, hdrained⟩ := hs.exits.closed fd hclosed
      have hplaced := hs.sound.stream.placed
      have hi : i < s.numThrs := hplaced.lt_of_writer (by simp [hw])
      have hown := (hs.sound.stream.holds i fd rest m k hw).2 fd List.mem_cons_self
      have hij := hplaced.slots.row_unique hplaced.distinct hi (hs.exits.thread j r hr) hown hmem
      have hnot := hdrained.2
      rw [← hij, hw] at hnot
      exact absurd List.mem_cons_self hnot

/-- **The invariant gives the property.** -/
theorem StopInv.stopsCleanly {s : Pool} (hs : s.StopInv) : s.StopsCleanly := by
  refine ⟨fun i fd rest m k hw => hs.open_of_writing hw, ?_⟩
  intro hstop c fd hc
  obtain ⟨howner, hout⟩ := hs.stage.returned hstop
  have hi := Nat.mod_lt c hs.sound.stream.placed.pos
  have hexited := hout _ hi
  obtain ⟨-, hqueue⟩ := (hs.queues _ hi).out hexited
  rw [← hs.sound.stream.lines c fd hc, line, howner, hexited, hqueue]
  simp [WriterPc.pending, queued, OwnerPc.pending]

theorem stopInv_construct {numThrs : UInt16} (hpos : 0 < numThrs) (maxConns : UInt16)
    (buffSize : UInt32) (rdfds : Nat → Fd) :
    (construct numThrs maxConns buffSize rdfds 0).StopInv where
  sound := sound_construct hpos maxConns buffSize rdfds
  stage :=
    { unstarted := fun _ => ⟨rfl, fun _ => rfl, fun _ => rfl⟩
      returned := fun h => by cases h
      joined := fun _ _ h => by cases h }
  queues i _ :=
    { out := fun h => by cases h
      busy := fun _ => ⟨[], by simp, .inl ⟨not_exitPushed rfl (fun h => by cases h), rfl⟩⟩ }
  exits :=
    { thread := fun _ _ h => by cases h
      empty := fun _ _ h => by cases h
      pushed := fun _ _ h => by cases h
      leaving := fun _ _ h => by cases h
      closed := fun _ h => by cases h }

/-! ## One step -/

section

variable {s s' : Pool} {l : PoolLabel}

/-- The conditions on the labels are those of the output stream: a writer at work has its sockets
open, so its writes do not fail. -/
theorem StopInv.framesFit (hs : s.StopInv) (hok : s.DrainsFirst l) (h : PoolTrans s l s') :
    s.FramesFit l := by
  cases h with
  | writeFail hw =>
      have hshut := hok rfl
      rw [hw] at hshut
      cases (hs.open_of_writing hw).symm.trans hshut
  | write => exact fun h => by cases h
  | addConn => exact hok
  | thrBroadcast => exact hok.2
  | send => exact hok.2
  | broadcast => exact hok.2
  | reject hidle hl =>
      cases l with
      | addConn => exact hok
      | send => exact hok.2
      | thrBroadcast => exact hok.2
      | broadcast => exact hok.2
      | write => cases hl
      | _ => trivial
  | _ => trivial

theorem go_ne_exited (m : MsgT) (fds : List Fd) : WriterPc.go m fds ≠ .exited := by
  induction fds with
  | nil => simp [WriterPc.go]
  | cons fd rest ih =>
      unfold WriterPc.go
      split_ifs
      · simp
      · exact ih

/-- A writer that is out stays out when another one moves. -/
theorem exited_update {i : Nat} (hw : s.writers i ≠ .exited) (pc : WriterPc) (j : Nat)
    (hj : s.writers j = .exited) : Function.update s.writers i pc j = .exited := by
  have hne : j ≠ i := by
    rintro rfl
    exact hw hj
  rw [Function.update_of_ne hne, hj]

/-- While the owner is in a call, `stop_all` has not returned. -/
theorem Stage.not_stopped (hs : s.Stage) (h : s.owner ≠ .idle) : s.stopped = false := by
  cases hstop : s.stopped with
  | false => rfl
  | true => exact absurd (hs.returned hstop).1 h

/-- The stage over a step that does not touch it. -/
theorem Stage.congr (hs : s.Stage) (h1 : s'.running = s.running) (h2 : s'.stopped = s.stopped)
    (h3 : s'.readers = s.readers) (h4 : s'.closed = s.closed) (h5 : s'.owner = s.owner)
    (h6 : s'.numThrs = s.numThrs)
    (h7 : ∀ i, s.writers i = .exited → s'.writers i = .exited) : s'.Stage := by
  refine ⟨?_, ?_, ?_⟩
  · intro hrun
    rw [h2, h3, h4]
    exact hs.unstarted (h1 ▸ hrun)
  · intro hstop
    obtain ⟨howner, hout⟩ := hs.returned (h2 ▸ hstop)
    refine ⟨h5.trans howner, ?_⟩
    intro i hi
    exact h7 i (hout i (h6 ▸ hi))
  · intro j b ho i hi hij
    exact h7 i (hs.joined j b (h5 ▸ ho) i (h6 ▸ hi) hij)

/-- A step of `stop_all` that joins no writer yet. -/
theorem stage_owner {o : OwnerPc} {rd : Nat → Option ReadThr}
    {info : Nat → ThrInfo} (hrun : s.running = true) (hstop : s.stopped = false)
    (hjoined : ∀ j b, o = .joining j b → ∀ i, i < s.numThrs → (i < j ∨ i = j ∧ b = false) →
      s.writers i = .exited) {cs : List Call} {rs : List Int} :
    Stage { s with owner := o, readers := rd, wthrinfo := info, calls := cs, rets := rs } := by
  refine ⟨?_, ?_, hjoined⟩
  · intro h
    rw [show s.running = false from h] at hrun
    cases hrun
  · intro h
    rw [show s.stopped = true from h] at hstop
    cases hstop

theorem stage_step (hs : s.StopInv) (hok : s.DrainsFirst l) (h : PoolTrans s l s') : s'.Stage := by
  have hstage := hs.stage
  have hrunning : s.owner ≠ .idle → s.running = true := hs.sound.stream.running_of_owner
  cases h with
  | reject hidle => exact hstage.congr rfl rfl rfl rfl hidle.symm rfl fun _ h => h
  | addConn hidle hrun => exact hstage.congr rfl rfl rfl rfl hidle.symm rfl fun _ h => h
  | startAll hidle hrun hwriters =>
      refine ⟨?_, ?_, ?_⟩
      · intro h
        cases h
      · intro hstop
        cases (hstage.unstarted hrun).1.symm.trans hstop
      · intro j b ho
        cases ho
  | thrBroadcast hidle hrun => exact stage_owner hrun hok.1 fun j b ho => by cases ho
  | send hidle hrun => exact stage_owner hrun hok.1 fun j b ho => by cases ho
  | broadcast hidle hrun => exact stage_owner hrun hok.1 fun j b ho => by cases ho
  | stopAll hidle hrun => exact stage_owner hrun hok fun j b ho => by cases ho
  | broadcastPush ho | broadcastEnd ho | stopPush ho | stopClose ho =>
      have hbusy : s.owner ≠ .idle := by simp [ho]
      exact stage_owner (hrunning hbusy) (hstage.not_stopped hbusy) fun j b ho => by cases ho
  | stopEnd ho hi =>
      have hbusy : s.owner ≠ .idle := by simp [ho]
      refine stage_owner (hrunning hbusy) (hstage.not_stopped hbusy) ?_
      rintro j b ho i hi (hij | ⟨-, hb⟩)
      · cases ho
        omega
      · cases ho
        cases hb
  | joinWriter ho hi hw =>
      have hbusy : s.owner ≠ .idle := by simp [ho]
      refine stage_owner (hrunning hbusy) (hstage.not_stopped hbusy) ?_
      rintro j b ho' i hi (hij | ⟨rfl, -⟩)
      · cases ho'
        exact hstage.joined _ _ ho i hi (.inl hij)
      · cases ho'
        exact hw
  | joinReader ho hr hpc =>
      have hbusy : s.owner ≠ .idle := by simp [ho]
      refine stage_owner (hrunning hbusy) (hstage.not_stopped hbusy) ?_
      rintro j b ho' i hi (hij | ⟨-, hb⟩)
      · cases ho'
        refine hstage.joined _ _ ho i hi ?_
        rcases Nat.lt_succ_iff_lt_or_eq.mp hij with hlt | heq
        · exact .inl hlt
        · exact .inr ⟨heq, rfl⟩
      · cases ho'
        cases hb
  | joinEnd ho hi =>
      have hbusy : s.owner ≠ .idle := by simp [ho]
      refine ⟨?_, ?_, ?_⟩
      · intro h
        rw [show s.running = false from h] at hrunning
        cases hrunning hbusy
      · intro _
        refine ⟨rfl, ?_⟩
        intro i hi'
        exact hstage.joined _ _ ho i hi' (.inl (Nat.lt_of_lt_of_le hi' hi))
      · intro j b ho'
        cases ho'
  | popExit hw | popWrite hw | writeFail hw | write hw =>
      exact hstage.congr rfl rfl rfl rfl rfl rfl (exited_update (by simp [hw]) _)
  | reader hr hstep =>
      refine ⟨?_, hstage.returned, hstage.joined⟩
      intro hrun
      rw [(hstage.unstarted hrun).2.1] at hr
      cases hr

theorem Queues.congr (hs : s.Queues) (h1 : s'.numThrs = s.numThrs) (h2 : s'.writers = s.writers)
    (h3 : ∀ i, (s'.wthrinfo i).msgq = (s.wthrinfo i).msgq)
    (h4 : ∀ i, i < s.numThrs → (s'.ExitPushed i ↔ s.ExitPushed i)) : s'.Queues := by
  intro i hi
  rw [h1] at hi
  rw [h2, h3]
  exact (hs i hi).congr (h4 i hi)

/-- A push to thread `i`. -/
theorem Queues.push (hs : s.Queues) (i : Nat) (m : MsgT) (h1 : s'.numThrs = s.numThrs)
    (h2 : s'.writers = s.writers)
    (h3 : s'.wthrinfo = Function.update s.wthrinfo i ((s.wthrinfo i).enqueue m))
    (hi : QueueInv (s.ExitPushed i) (s.writers i) (s.wthrinfo i).msgq →
      QueueInv (s'.ExitPushed i) (s.writers i) ((s.wthrinfo i).msgq ++ [m]))
    (h4 : ∀ j, j ≠ i → (s'.ExitPushed j ↔ s.ExitPushed j)) : s'.Queues := by
  intro j hj
  rw [h1] at hj
  rw [h2, h3]
  by_cases hji : j = i
  · subst hji
    rw [Function.update_self]
    exact hi (hs j hj)
  · rw [Function.update_of_ne hji]
    exact (hs j hj).congr (h4 j hji)

/-- A message for the writers before `stop_all`. -/
theorem Queues.push_write (hs : s.Queues) (i : Nat) {m : MsgT} (hm : m.type = .write)
    (h1 : s'.numThrs = s.numThrs) (h2 : s'.writers = s.writers)
    (h3 : s'.wthrinfo = Function.update s.wthrinfo i ((s.wthrinfo i).enqueue m))
    (h4 : s'.stopped = s.stopped) (h5 : ∀ j, ¬ s'.owner.ExitPushed j)
    (hp : ∀ j, ¬ s.ExitPushed j) : s'.Queues := by
  have hp' : ∀ j, ¬ s'.ExitPushed j := by
    rintro j (hstop | ho)
    · exact hp j (.inl (h4 ▸ hstop))
    · exact h5 j ho
  exact hs.push i m h1 h2 h3 (fun h => h.push (hp i) (hp' i) hm)
    fun j _ => iff_of_false (hp' j) (hp j)

/-- A step of writer `i`. -/
theorem Queues.writer (hs : s.Queues) {i : Nat} {pc : WriterPc} (h1 : s'.numThrs = s.numThrs)
    (h2 : s'.writers = Function.update s.writers i pc)
    (h3 : ∀ j, j ≠ i → (s'.wthrinfo j).msgq = (s.wthrinfo j).msgq)
    (h4 : ∀ j, s'.ExitPushed j ↔ s.ExitPushed j)
    (hi : QueueInv (s.ExitPushed i) (s.writers i) (s.wthrinfo i).msgq →
      QueueInv (s.ExitPushed i) pc (s'.wthrinfo i).msgq) : s'.Queues := by
  intro j hj
  rw [h1] at hj
  rw [h2]
  by_cases hji : j = i
  · subst hji
    rw [Function.update_self]
    exact (hi (hs j hj)).congr (h4 j)
  · rw [Function.update_of_ne hji, h3 j hji]
    exact (hs j hj).congr (h4 j)

theorem queues_step (hs : s.StopInv) (hok : s.DrainsFirst l) (h : PoolTrans s l s') : s'.Queues := by
  have hqueues := hs.queues
  -- before `stop_all` no EXIT message has been pushed
  have hbefore : s.stopped = false → s.owner = .idle → ∀ j, ¬ s.ExitPushed j := by
    intro hstop hidle j
    exact not_exitPushed hstop (by rw [hidle]; exact id)
  cases h with
  | reject hidle =>
      exact hqueues.congr rfl rfl (fun _ => rfl) fun i _ => exitPushed_congr rfl (by rw [hidle]; rfl)
  | addConn hidle hrun hroom hw hr =>
      refine hqueues.congr rfl rfl ?_ fun i _ => exitPushed_congr rfl (by rw [hidle]; rfl)
      intro i
      by_cases hi : i = s.numConns % s.numThrs
      · subst hi
        exact (congrArg ThrInfo.msgq (Function.update_self _ _ _)).trans (addConn_eq_some hw).2
      · exact congrArg ThrInfo.msgq (Function.update_of_ne hi _ _)
  | startAll hidle hrun hwriters =>
      have hs0 := hs.sound.stream.fresh hrun
      intro i _
      have hno := hbefore (hs.stage.unstarted hrun).1 hidle i
      refine ⟨?_, ?_⟩
      · intro hout
        rcases hwriters i with hw | ⟨-, hw⟩
        · cases (hw.trans (hs0.writers i)).symm.trans hout
        · cases hw.symm.trans hout
      · intro _
        refine ⟨[], by simp, .inl ⟨?_, hs0.queues i⟩⟩
        rintro (h | h)
        · exact hno (.inl h)
        · cases h
  | thrBroadcast hidle hrun ht =>
      exact hqueues.push_write _ rfl rfl rfl rfl rfl (fun _ => id) (hbefore hok.1 hidle)
  | send hidle hrun hc =>
      exact hqueues.push_write _ rfl rfl rfl rfl rfl (fun _ => id) (hbefore hok.1 hidle)
  | broadcast hidle hrun =>
      exact hqueues.congr rfl rfl (fun _ => rfl) fun i _ => exitPushed_congr rfl (by rw [hidle]; rfl)
  | stopAll hidle hrun =>
      refine hqueues.congr rfl rfl (fun _ => rfl) fun i _ => exitPushed_congr rfl ?_
      rw [hidle]
      refine iff_of_false ?_ id
      rintro (hlt | ⟨-, hb⟩)
      · exact Nat.not_lt_zero i hlt
      · cases hb
  | broadcastPush ho hi =>
      have hstop := hs.stage.not_stopped (by simp [ho])
      exact hqueues.push_write _ rfl rfl rfl rfl rfl (fun _ => id)
        fun j => not_exitPushed hstop (by rw [ho]; exact id)
  | broadcastEnd ho hi =>
      exact hqueues.congr rfl rfl (fun _ => rfl) fun i _ => exitPushed_congr rfl (by rw [ho]; rfl)
  | stopPush ho hi =>
      rename_i i
      have hstop := hs.stage.not_stopped (by simp [ho])
      refine hqueues.push i exitMsg rfl rfl rfl (fun h => h.exit ?_ ?_) ?_
      · refine not_exitPushed hstop ?_
        rw [ho]
        rintro (hlt | ⟨-, hb⟩)
        · exact Nat.lt_irrefl i hlt
        · cases hb
      · exact .inr (.inr ⟨rfl, rfl⟩)
      · intro j hj
        refine exitPushed_congr rfl ?_
        rw [ho]
        show (j < i ∨ j = i ∧ true = true) ↔ (j < i ∨ j = i ∧ false = true)
        simp [hj]
  | stopClose ho =>
      refine hqueues.congr rfl rfl (fun _ => rfl) fun j _ => exitPushed_congr rfl ?_
      rw [ho]
      show (j < _ + 1 ∨ j = _ + 1 ∧ false = true) ↔ (j < _ ∨ j = _ ∧ true = true)
      simp only [Bool.false_eq_true, and_false, or_false, and_true, Nat.lt_succ_iff_lt_or_eq]
  | stopEnd ho hi =>
      refine hqueues.congr rfl rfl (fun _ => rfl) fun j hj => exitPushed_congr rfl ?_
      rw [ho]
      exact iff_of_true trivial (.inl (Nat.lt_of_lt_of_le hj hi))
  | joinWriter ho | joinReader ho =>
      exact hqueues.congr rfl rfl (fun _ => rfl) fun j _ => exitPushed_congr rfl (by rw [ho]; rfl)
  | joinEnd ho =>
      refine hqueues.congr rfl rfl (fun _ => rfl) fun j _ => iff_of_true (.inl rfl) ?_
      rw [ExitPushed, ho]
      exact .inr trivial
  | popExit hw hq hm =>
      refine hqueues.writer rfl rfl ?_ (fun _ => Iff.rfl) ?_
      · intro j hj
        exact congrArg ThrInfo.msgq (Function.update_of_ne hj _ _)
      · intro h
        rw [hw, hq] at h
        simp only [Function.update_self]
        exact h.pop_exit hm
  | popWrite hw hq hm =>
      refine hqueues.writer rfl rfl ?_ (fun _ => Iff.rfl) ?_
      · intro j hj
        exact congrArg ThrInfo.msgq (Function.update_of_ne hj _ _)
      · intro h
        rw [hw, hq] at h
        simp only [Function.update_self]
        exact h.pop_write hm (go_ne_exited _ _)
  | writeFail hw =>
      refine hqueues.writer rfl rfl (fun _ _ => rfl) (fun _ => Iff.rfl) ?_
      intro h
      exact h.work (by simp [hw]) (go_ne_exited _ _)
  | write hw hopen =>
      refine hqueues.writer rfl rfl (fun _ _ => rfl) (fun _ => Iff.rfl) ?_
      intro h
      refine h.work (by simp [hw]) ?_
      split_ifs
      · simp
      · exact go_ne_exited _ _
  | reader => exact hqueues.congr rfl rfl (fun _ => rfl) fun _ _ => Iff.rfl

/-- A reader in its exit branch is behind the EXIT message of its writer. -/
theorem Exits.pushed_of_closing (hs : s.Exits) {i : Nat} {r : ReadThr} (hr : s.readers i = some r)
    (h : r.pc.Closing) : s.ExitPushed i :=
  hs.pushed i r hr (hs.leaving i r hr h.leaving)

/-- The readers over a step that is none of theirs. -/
theorem Exits.congr (hs : s.Exits) (h1 : s'.numThrs = s.numThrs) (h2 : s'.readers = s.readers)
    (h3 : s'.closed = s.closed) (h4 : ∀ i, (s'.wthrinfo i).socks = (s.wthrinfo i).socks)
    (h5 : ∀ i, i < s.numThrs → s.ExitPushed i →
      s'.ExitPushed i ∧ ∀ fd, s.Drained i fd → s'.Drained i fd) : s'.Exits := by
  refine ⟨?_, ?_, ?_, ?_, ?_⟩
  · rw [h1, h2]
    exact hs.thread
  · rw [h2]
    exact hs.empty
  · intro i r hr hclosed
    rw [h2] at hr
    exact (h5 i (hs.thread i r hr) (hs.pushed i r hr hclosed)).1
  · rw [h2]
    exact hs.leaving
  · intro fd hfd
    rw [h3] at hfd
    obtain ⟨i, r, hr, hclosing, hmem, hdrained⟩ := hs.closed fd hfd
    exact ⟨i, r, h2 ▸ hr, hclosing, (h4 i).symm ▸ hmem,
      (h5 i (hs.thread i r hr) (hs.pushed_of_closing hr hclosing)).2 fd hdrained⟩

/-- Threads that no push and no step of their writer concerns are drained as before. -/
theorem Drained.congr {i : Nat} {fd : Fd} (h : s.Drained i fd)
    (h1 : s'.wthrinfo i = s.wthrinfo i) (h2 : s'.writers i = s.writers i) : s'.Drained i fd := by
  unfold Drained
  rw [h1, h2]
  exact h

/-- The message goes to the given sockets only. -/
theorem fds_go (m : MsgT) (fds : List Fd) : ∀ fd ∈ (WriterPc.go m fds).fds, fd ∈ fds := by
  induction fds with
  | nil => exact fun fd h => h
  | cons fd rest ih =>
      unfold WriterPc.go
      split_ifs
      · exact fun x hx => hx
      · exact fun x hx => List.mem_cons_of_mem _ (ih x hx)

/-- A writer that goes on with its message has no other sockets to write to. -/
theorem Drained.write {i j : Nat} {fd : Fd} (h : s.Drained j fd) {pc : WriterPc}
    (hpc : ∀ x ∈ pc.fds, x ∈ (s.writers i).fds) (h1 : s'.wthrinfo = s.wthrinfo)
    (h2 : s'.writers = Function.update s.writers i pc) : s'.Drained j fd := by
  by_cases hj : j = i
  · subst hj
    refine ⟨by rw [h1]; exact h.1, ?_⟩
    rw [h2, Function.update_self]
    exact fun hmem => h.2 (hpc fd hmem)
  · refine h.congr (by rw [h1]) ?_
    rw [h2, Function.update_of_ne hj]

/-- A writer takes a message that does not go to the socket, or ends. -/
theorem Drained.pop {i j : Nat} {fd : Fd} (h : s.Drained j fd) {m : MsgT} {q : List MsgT}
    (hq : (s.wthrinfo i).msgq = m :: q) {pc : WriterPc}
    (hpc : ∀ x ∈ pc.fds, m.type = .write ∧ x ∈ (s.wthrinfo i).targets m)
    (h1 : s'.wthrinfo = Function.update s.wthrinfo i { s.wthrinfo i with msgq := q })
    (h2 : s'.writers = Function.update s.writers i pc) : s'.Drained j fd := by
  by_cases hj : j = i
  · subst hj
    refine ⟨?_, ?_⟩
    · rw [h1, Function.update_self]
      exact fun x hx => h.1 x (by rw [hq]; exact List.mem_cons_of_mem _ hx)
    · rw [h2, Function.update_self]
      intro hmem
      obtain ⟨hm, htarget⟩ := hpc fd hmem
      exact h.1 m (by rw [hq]; exact List.mem_cons_self) hm htarget
  · refine h.congr ?_ ?_
    · rw [h1, Function.update_of_ne hj]
    · rw [h2, Function.update_of_ne hj]

/-- The readers of a pool that has just been started, or not yet. -/
theorem exits_of_fresh (hfresh : ∀ i r, s.readers i = some r →
      i < s.numThrs ∧ r.rdpipe = ⟨[], false⟩ ∧ r.pc = .selecting)
    (hclosed : ∀ fd, s.closed fd = false) : s.Exits := by
  refine ⟨fun i r hr => (hfresh i r hr).1, ?_, ?_, ?_, ?_⟩
  · intro i r hr
    rw [(hfresh i r hr).2.1]
  · intro i r hr h
    rw [(hfresh i r hr).2.1] at h
    cases h
  · intro i r hr h
    rw [(hfresh i r hr).2.2] at h
    cases h
  · intro fd hfd
    cases (hclosed fd).symm.trans hfd

/-- One reader moves. -/
theorem Exits.update (hs : s.Exits) {i : Nat} {r r' : ReadThr} {o : OwnerPc} {cl : Fd → Bool}
    (hr : s.readers i = some r)
    (hmono : ∀ j, s.owner.ExitPushed j → o.ExitPushed j)
    (hempty : r'.rdpipe.incoming = [])
    (hpushed : r'.rdpipe.closed = true → s.stopped = true ∨ o.ExitPushed i)
    (hleaving : r'.pc.Leaving → r'.rdpipe.closed = true)
    (hkeep : r.pc.Closing → r'.pc.Closing)
    (hclosed : ∀ fd, cl fd = true →
      s.closed fd = true ∨ r'.pc.Closing ∧ fd ∈ (s.wthrinfo i).socks ∧ s.Drained i fd) :
    Exits { s with readers := Function.update s.readers i (some r'), owner := o, closed := cl } := by
  -- reader `i` is `r'`, the others are as before
  have hcases : ∀ j x, Function.update s.readers i (some r') j = some x →
      j = i ∧ x = r' ∨ j ≠ i ∧ s.readers j = some x := by
    intro j x hx
    by_cases hj : j = i
    · subst hj
      rw [Function.update_self] at hx
      cases hx
      exact .inl ⟨rfl, rfl⟩
    · rw [Function.update_of_ne hj] at hx
      exact .inr ⟨hj, hx⟩
  refine ⟨?_, ?_, ?_, ?_, ?_⟩
  · intro j x hx
    rcases hcases j x hx with ⟨rfl, -⟩ | ⟨-, hx⟩
    · exact hs.thread j r hr
    · exact hs.thread j x hx
  · intro j x hx
    rcases hcases j x hx with ⟨-, rfl⟩ | ⟨-, hx⟩
    · exact hempty
    · exact hs.empty j x hx
  · intro j x hx hc
    rcases hcases j x hx with ⟨rfl, rfl⟩ | ⟨-, hx⟩
    · exact hpushed hc
    · exact (hs.pushed j x hx hc).imp id (hmono j)
  · intro j x hx hl
    rcases hcases j x hx with ⟨-, rfl⟩ | ⟨-, hx⟩
    · exact hleaving hl
    · exact hs.leaving j x hx hl
  · intro fd hfd
    have hself : Function.update s.readers i (some r') i = some r' := Function.update_self _ _ _
    rcases hclosed fd hfd with hold | ⟨hc, hmem, hdrained⟩
    · obtain ⟨j, x, hx, hc, hmem, hdrained⟩ := hs.closed fd hold
      by_cases hj : j = i
      · subst hj
        rw [hr] at hx
        cases hx
        exact ⟨j, r', hself, hkeep hc, hmem, hdrained⟩
      · exact ⟨j, x, (Function.update_of_ne hj _ _).trans hx, hc, hmem, hdrained⟩
    · exact ⟨i, r', hself, hc, hmem, hdrained⟩

/-- The write end of the pipe of reader `i` is closed, behind the EXIT message of its writer. -/
theorem exits_stopClose (hs : s.Exits) {i : Nat} (ho : s.owner = .stopping i true) :
    Exits { s with readers := Function.update s.readers i ((s.readers i).map closePipe),
                   owner := .stopping (i + 1) false } := by
  have hmono : ∀ j, s.owner.ExitPushed j → (OwnerPc.stopping (i + 1) false).ExitPushed j := by
    intro j hj
    rw [ho] at hj
    rcases hj with hlt | ⟨rfl, -⟩
    · exact .inl (Nat.lt_succ_of_lt hlt)
    · exact .inl (Nat.lt_succ_self j)
  cases hr : s.readers i with
  | none =>
      have hsame : Function.update s.readers i none = s.readers := by
        rw [← hr, Function.update_eq_self]
      rw [Option.map_none, hsame]
      exact hs.congr rfl rfl rfl (fun _ => rfl) fun j _ hj => ⟨hj.imp id (hmono j), fun _ => id⟩
  | some r =>
      exact hs.update hr hmono (hs.empty i r hr) (fun _ => .inr (.inl (Nat.lt_succ_self i)))
        (fun _ => rfl) id fun fd hfd => .inl hfd

/-- A slot is closed in the exit branch only. -/
theorem closing_of_closesSlot {r : ReadThr} {l : ReadLabel} {k : Nat} (h : closesSlot r l = some k) :
    r.pc = .closing k ∧ l = .close := by
  unfold closesSlot at h
  split at h
  · split at h
    · rename_i k' hpc
      split_ifs at h
      cases h
      exact ⟨hpc, rfl⟩
    · cases h
  · cases h

/-- The exit branch is not left again. -/
theorem closing_step {r r' : ReadThr} {l : ReadLabel} (hpc : r.pc.Closing) (h : r.step l = some r') :
    r'.pc.Closing := by
  unfold ReadThr.step at h
  split at h
  case h_5 k hk =>
    cases h
    show (if _ then _ else _ : ReaderPc).Closing
    split_ifs <;> trivial
  case h_6 => cases h
  all_goals
    rename_i hother
    rw [hother] at hpc
    cases hpc

/-- A step of reader `i`. -/
theorem exits_reader (hs : s.StopInv) {i : Nat} {l : ReadLabel} {r r' : ReadThr}
    (hr : s.readers i = some r) (hstep : r.step l = some r')
    (hok : ∀ fd ∈ s.closes i l, s.Drained i fd) :
    Exits { s with readers := Function.update s.readers i (some r'), closed := s.closedBy i r l } := by
  have hpipe := ReadThr.pipeStep_of_step hstep
  have hex := hs.exits
  refine hex.update hr (fun _ => id) (hpipe.empty (hex.empty i r hr)) ?_ ?_
    (fun hc => closing_step hc hstep) ?_
  · intro hclosed
    rw [hpipe.closed] at hclosed
    exact hex.pushed i r hr hclosed
  · intro hl
    rw [hpipe.closed]
    rcases hpipe.leaving hl with hl | hread
    · exact hex.leaving i r hr hl
    · exact hread.resolve_left (fun hne => hne (hex.empty i r hr))
  · intro fd hfd
    unfold closedBy at hfd
    cases hslot : (closesSlot r l).bind fun k => (s.rthrinfo i).socks[k]? with
    | none =>
        rw [hslot] at hfd
        exact .inl hfd
    | some fd' =>
        rw [hslot] at hfd
        by_cases hfd' : fd = fd'
        · subst hfd'
          obtain ⟨k, hk, hget⟩ := Option.bind_eq_some_iff.mp hslot
          obtain ⟨hpc, -⟩ := closing_of_closesSlot hk
          refine .inr ⟨closing_step (by rw [hpc]; trivial) hstep, ?_, hok fd ?_⟩
          · rw [← hs.sound.stream.placed.shared i]
            exact List.mem_of_getElem? hget
          · rw [closes, hr]
            exact hslot
        · simp only [Function.update_of_ne hfd'] at hfd
          exact .inl hfd

theorem exits_step (hs : s.StopInv) (hok : s.DrainsFirst l) (h : PoolTrans s l s') : s'.Exits := by
  have hex := hs.exits
  -- before `stop_all` there is nothing to show
  have hearly : s.stopped = false → (∀ j, ¬ s.owner.ExitPushed j) → ∀ i, i < s.numThrs →
      s.ExitPushed i → s'.ExitPushed i ∧ ∀ fd, s.Drained i fd → s'.Drained i fd :=
    fun hstop ho i _ hi => absurd hi (not_exitPushed hstop (ho i))
  cases h with
  | reject hidle =>
      refine hex.congr rfl rfl rfl (fun _ => rfl) fun i _ hi => ⟨?_, fun _ => id⟩
      exact hi.imp id fun h => by rw [hidle] at h; cases h
  | addConn hidle hrun =>
      obtain ⟨-, hreaders, hclosed⟩ := hs.stage.unstarted hrun
      refine exits_of_fresh ?_ hclosed
      intro i r hr
      cases (hreaders i).symm.trans hr
  | startAll hidle hrun hwriters hreaders =>
      obtain ⟨-, hnone, hclosed⟩ := hs.stage.unstarted hrun
      refine exits_of_fresh ?_ hclosed
      intro i r hr
      rcases hreaders i with hi | ⟨hlt, conns, hi⟩
      · cases (hi.trans (hnone i)).symm.trans hr
      · cases hi.symm.trans hr
        exact ⟨hlt, rfl, rfl⟩
  | thrBroadcast hidle hrun | send hidle hrun =>
      exact hex.congr rfl rfl rfl (socks_update rfl) (hearly hok.1 (by rw [hidle]; exact fun _ => id))
  | broadcast hidle hrun =>
      exact hex.congr rfl rfl rfl (fun _ => rfl) (hearly hok.1 (by rw [hidle]; exact fun _ => id))
  | stopAll hidle hrun =>
      exact hex.congr rfl rfl rfl (fun _ => rfl) (hearly hok (by rw [hidle]; exact fun _ => id))
  | broadcastPush ho =>
      exact hex.congr rfl rfl rfl (socks_update rfl)
        (hearly (hs.stage.not_stopped (by simp [ho])) (by rw [ho]; exact fun _ => id))
  | broadcastEnd ho =>
      exact hex.congr rfl rfl rfl (fun _ => rfl)
        (hearly (hs.stage.not_stopped (by simp [ho])) (by rw [ho]; exact fun _ => id))
  | stopPush ho hi =>
      rename_i i
      refine hex.congr rfl rfl rfl (socks_update rfl) ?_
      rintro j - (hstop | hj)
      · rw [hs.stage.not_stopped (by simp [ho])] at hstop
        cases hstop
      · rw [ho] at hj
        rcases hj with hlt | ⟨-, hb⟩
        · have hne : j ≠ i := Nat.ne_of_lt hlt
          exact ⟨.inr (.inl hlt), fun fd h => h.congr (Function.update_of_ne hne _ _) rfl⟩
        · cases hb
  | stopClose ho => exact exits_stopClose hex ho
  | stopEnd ho | joinWriter ho | joinReader ho =>
      exact hex.congr rfl rfl rfl (fun _ => rfl) fun i _ hi => ⟨.inr trivial, fun _ => id⟩
  | joinEnd ho =>
      exact hex.congr rfl rfl rfl (fun _ => rfl) fun i _ hi => ⟨.inl rfl, fun _ => id⟩
  | popExit hw hq hm =>
      refine hex.congr rfl rfl rfl (socks_update rfl) fun j _ hj => ⟨hj, fun fd h => ?_⟩
      exact h.pop hq (fun x hx => by cases hx) rfl rfl
  | popWrite hw hq hm =>
      refine hex.congr rfl rfl rfl (socks_update rfl) fun j _ hj => ⟨hj, fun fd h => ?_⟩
      exact h.pop hq (fun x hx => ⟨hm, fds_go _ _ x hx⟩) rfl rfl
  | writeFail hw =>
      refine hex.congr rfl rfl rfl (fun _ => rfl) fun j _ hj => ⟨hj, fun fd h => ?_⟩
      refine h.write ?_ rfl rfl
      intro x hx
      rw [hw]
      exact List.mem_cons_of_mem _ (fds_go _ _ x hx)
  | write hw hopen =>
      refine hex.congr rfl rfl rfl (fun _ => rfl) fun j _ hj => ⟨hj, fun fd h => ?_⟩
      refine h.write ?_ rfl rfl
      intro x hx
      rw [hw]
      split_ifs at hx
      · exact hx
      · exact List.mem_cons_of_mem _ (fds_go _ _ x hx)
  | reader hr hstep => exact exits_reader hs hr hstep hok

theorem stopInv_step (hs : s.StopInv) (hok : s.DrainsFirst l) (h : s.step l = some s') :
    s'.StopInv where
  sound := sound_step hs.sound (hs.framesFit hok (poolTrans_of_step h)) h
  stage := stage_step hs hok (poolTrans_of_step h)
  queues := queues_step hs hok (poolTrans_of_step h)
  exits := exits_step hs hok (poolTrans_of_step h)

end

/-! ## The pool stops cleanly -/

/-- **No accepted message is lost, and no closed socket is written to**, in every run in which a
reader closes a socket only when its writer has nothing left to write to it (and messages are shorter
than `2^32 - 4` bytes, and writes to open sockets do not fail). -/
theorem stopsCleanly_of_drainsFirst (numThrs maxConns : UInt16) (hpos : 0 < numThrs)
    (buffSize : UInt32) (rdfds : Nat → Fd) (ls : List PoolLabel) (s : Pool)
    (hrun : exec step (construct numThrs maxConns buffSize rdfds 0) ls = some s)
    (hok : Meets step DrainsFirst (construct numThrs maxConns buffSize rdfds 0) ls) :
    s.StopsCleanly := by
  have hs : s.StopInv := exec_invariant_of_meets (fun _ _ _ hs hl h => stopInv_step hs hl h)
    (stopInv_construct hpos maxConns buffSize rdfds) hok hrun
  exact hs.stopsCleanly

instance (s : Pool) (i : Nat) (fd : Fd) : Decidable (s.Drained i fd) :=
  inferInstanceAs (Decidable (_ ∧ _))

instance (s : Pool) : ∀ l : PoolLabel, Decidable (s.DrainsFirst l)
  | .addConn sock _ => inferInstanceAs (Decidable (sock ∉ s.conns))
  | .send _ p => inferInstanceAs (Decidable (s.stopped = false ∧ p.bytes.length < 2 ^ 32 - 4))
  | .thrBroadcast _ p =>
      inferInstanceAs (Decidable (s.stopped = false ∧ p.bytes.length < 2 ^ 32 - 4))
  | .broadcast p => inferInstanceAs (Decidable (s.stopped = false ∧ p.bytes.length < 2 ^ 32 - 4))
  | .stopAll => inferInstanceAs (Decidable (s.stopped = false))
  | .write i o => inferInstanceAs (Decidable (o = .err → (s.writers i).shut s.closed = true))
  | .reader i l => inferInstanceAs (Decidable (∀ fd ∈ s.closes i l, s.Drained i fd))
  | .startAll .. | .owner | .pop _ => isTrue trivial

/-- One connection, one `send` and `stop_all` up to its joins. -/
def sendAndStop : List PoolLabel :=
  [.addConn 10 [],
    .startAll (fun _ => true) (fun _ => true) (fun _ => ⟨[], false⟩)
      (fun _ => ⟨fun _ => 0, fun _ => 0, 0, false⟩),
    .send 0 ⟨[7], by decide⟩, .stopAll, .owner, .owner, .owner]

/-- The writer writes. -/
def writerTurn : List PoolLabel := [.pop 0, .write 0 (.put 9), .pop 0]

/-- The reader sees the end of its pipe. -/
def readerEnd : List PoolLabel := [.reader 0 (.select [] true), .reader 0 (.rdpipe (.got 0))]

/-- The reader closes its one socket and returns. -/
def readerClose : List PoolLabel := [.reader 0 .close, .reader 0 .close]

/-- The joins of `stop_all`. -/
def joins : List PoolLabel := [.owner, .owner, .owner]

/-- The writer before the close: the message goes out. -/
theorem stopsCleanly_writerFirst :
    ∃ s, exec step (construct 1 1 64 (fun _ => 5) 0)
        (sendAndStop ++ readerEnd ++ writerTurn ++ readerClose ++ joins) = some s ∧
      s.StopsCleanly ∧ s.stopped = true ∧ s.out 10 = [1, 0, 0, 0, 7] := by
  obtain ⟨s, hrun, hs⟩ := exists_exec step (construct 1 1 64 (fun _ => 5) 0)
    (sendAndStop ++ readerEnd ++ writerTurn ++ readerClose ++ joins)
    (fun s => s.stopped = true ∧ s.out 10 = [1, 0, 0, 0, 7]) (by decide)
  refine ⟨s, hrun, ?_, of_decide_eq_true hs⟩
  exact stopsCleanly_of_drainsFirst 1 1 (by decide) 64 (fun _ => 5) _ s hrun (by decide)

/-- **The reader first**: the writer finds its socket closed, its `write` fails and the message, for
which `send` returned 0, is lost when `stop_all` returns. -/
theorem not_stopsCleanly_readerFirst :
    (∃ s, exec step (construct 1 1 64 (fun _ => 5) 0)
        (sendAndStop ++ readerEnd ++ readerClose ++ [.pop 0]) = some s ∧
      (s.writers 0).shut s.closed = true) ∧
    ∃ s, exec step (construct 1 1 64 (fun _ => 5) 0)
        (sendAndStop ++ readerEnd ++ readerClose ++
          [.pop 0, .write 0 .err, .pop 0] ++ joins) = some s ∧
      s.stopped = true ∧ ¬ s.StopsCleanly := by
  refine ⟨?_, ?_⟩
  · exact exists_exec step (construct 1 1 64 (fun _ => 5) 0) _
      (fun s => (s.writers 0).shut s.closed) (by decide)
  · obtain ⟨s, hrun, hs⟩ := exists_exec step (construct 1 1 64 (fun _ => 5) 0)
      (sendAndStop ++ readerEnd ++ readerClose ++ [.pop 0, .write 0 .err, .pop 0] ++ joins)
      (fun s => s.stopped = true ∧ s.conns[0]? = some 10 ∧
        s.out 10 ≠ expected s.numThrs s.calls 0) (by decide)
    obtain ⟨hstop, hconn, hlost⟩ := of_decide_eq_true hs
    exact ⟨s, hrun, hstop, fun hclean => hlost (hclean.flushed hstop 0 10 hconn)⟩

end Pool

end CommTest.Socket
