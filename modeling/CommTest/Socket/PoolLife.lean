import CommTest.Socket.PoolStop

/-!
# The life of the pool

`running` is what the calls of the pool look at. `start_all` sets it behind its loop whatever
`pthread_create` returned, since an error is a positive number; `stop_all` never resets it.

* `Life` adds to the pool how often each thread has been joined and each pipe closed.
* `Lifecycle`: `running` says that all threads are there, messages are queued for live writers only,
  and nothing is joined or closed twice.
* `Lasting`: every `pthread_create` of a `start_all` succeeds, and `stop_all` is not called on a
  running pool. `lifecycle_iff_lasting`: the runs with the property are exactly these.
* `Pool.Alive` is the invariant of the one direction, `Pool.Stale` the trap of the other.
-/

set_option linter.unusedSectionVars false

namespace CommTest.Socket

open Mem FairQueue Lts

/-! ## The property -/

/-- A writer that has been created and has not left `start_send`. -/
def WriterPc.live : WriterPc → Bool
  | .absent => false
  | .exited => false
  | _ => true

/-- The owner is in `stop_all`. -/
def OwnerPc.InStop : OwnerPc → Prop
  | .stopping _ _ => True
  | .joining _ _ => True
  | _ => False

namespace Pool

/-- Reader `i` has been created and has not left `start_read`. -/
def ReaderLive (s : Pool) (i : Nat) : Prop := ∃ r, s.readers i = some r ∧ r.pc ≠ .exited

/-- All threads have been created and not yet stopped. -/
def AllLive (s : Pool) : Prop :=
  ∀ i, i < s.numThrs → (s.writers i).live = true ∧ s.ReaderLive i

/-- The writer that a step of `send`, `thr_broadcast` or `broadcast` queues a message for. -/
def queuesFor (s : Pool) (l : PoolLabel) : Option Nat :=
  match s.owner, l with
  | .idle, .send cliid _ =>
      if s.running = true ∧ cliid < s.numConns then some (cliid % s.numThrs) else none
  | .idle, .thrBroadcast thrid _ =>
      if s.running = true ∧ thrid < s.numThrs then some thrid else none
  | .broadcasting _ i, .owner => if i < s.numThrs then some i else none
  | _, _ => none

end Pool

/-- The pool with how often each writer and each reader has been joined, and each pipe closed. -/
structure Life where
  pool : Pool
  wjoins : Nat → Nat
  rjoins : Nat → Nat
  closes : Nat → Nat

namespace Life

/-- A new pool. -/
def init (pool : Pool) : Life := ⟨pool, fun _ => 0, fun _ => 0, fun _ => 0⟩

/-- What a step to `pool` adds to the record. -/
def record (s : Life) (l : PoolLabel) (pool : Pool) : Life :=
  match l, s.pool.owner with
  | .owner, .stopping i true =>
      { s with pool := pool, closes := Function.update s.closes i (s.closes i + 1) }
  | .owner, .joining i true =>
      if i < s.pool.numThrs then
        { s with pool := pool, wjoins := Function.update s.wjoins i (s.wjoins i + 1) }
      else { s with pool := pool }
  | .owner, .joining i false =>
      { s with pool := pool, rjoins := Function.update s.rjoins i (s.rjoins i + 1) }
  | _, _ => { s with pool := pool }

/-- A step of the pool, recorded. -/
def step (s : Life) (l : PoolLabel) : Option Life := (s.pool.step l).map (s.record l)

/-- **The lifecycle of the pool.** -/
structure Lifecycle (s : Life) : Prop where
  flag : s.pool.running = true ↔ s.pool.AllLive
  queued : ∀ l i, s.pool.queuesFor l = some i → (s.pool.writers i).live = true
  joinedOnce : ∀ i, s.wjoins i ≤ 1 ∧ s.rjoins i ≤ 1
  closedOnce : ∀ i, s.closes i ≤ 1

/-- `start_all` gets all its threads, and `stop_all` is not called on a running pool. -/
def Lasting (s : Life) : PoolLabel → Prop
  | .startAll wok rok _ _ =>
      s.pool.running = false → ∀ i, i < s.pool.numThrs → wok i = true ∧ rok i = true
  | .stopAll => s.pool.running = false
  | _ => True

end Life

/-! ## The invariant -/

/-- The pipe of the reader is open and empty, and the reader is not on its way out. -/
structure ReadThr.Open (r : ReadThr) : Prop where
  closed : r.rdpipe.closed = false
  empty : r.rdpipe.incoming = []
  stays : ¬ r.pc.Leaving

theorem ReadThr.Open.step {r r' : ReadThr} {l : ReadLabel} (hr : r.Open) (h : r.step l = some r') :
    r'.Open := by
  have hpipe := pipeStep_of_step h
  have hdull : ¬ r.rdpipe.Readable := by
    rintro (hin | hcl)
    · exact hin hr.empty
    · rw [hr.closed] at hcl
      cases hcl
  constructor
  · exact hpipe.closed.trans hr.closed
  · exact hpipe.empty hr.empty
  · intro hleave
    rcases hpipe.leaving hleave with h1 | h1
    · exact hr.stays h1
    · exact hdull h1

theorem ReadThr.Open.not_exited {r : ReadThr} (hr : r.Open) : r.pc ≠ .exited := by
  intro hpc
  apply hr.stays
  rw [hpc]
  trivial

theorem WriterPc.live_go (m : MsgT) (fds : List Fd) : (WriterPc.go m fds).live = true := by
  induction fds with
  | nil => rfl
  | cons fd rest ih =>
      unfold WriterPc.go
      split_ifs
      · rfl
      · exact ih

namespace Pool

/-- Before `start_all` there is no thread. -/
structure Unstarted (s : Pool) : Prop where
  pos : 0 < s.numThrs
  none : s.running = false → ∀ i, s.writers i = .absent ∧ s.readers i = none

/-- The invariant of the runs in which the pool lasts. -/
structure Alive (s : Pool) : Prop where
  unstarted : s.Unstarted
  live : s.running = true → ∀ i, i < s.numThrs →
    (s.writers i).live = true ∧ ∃ r, s.readers i = some r ∧ r.Open
  queues : ∀ i, ∀ m ∈ (s.wthrinfo i).msgq, m.type = .write
  outside : ¬ s.owner.InStop
  busy : s.owner ≠ .idle → s.running = true

theorem unstarted_construct {numThrs : UInt16} (hpos : 0 < numThrs) (maxConns : UInt16)
    (buffSize : UInt32) (rdfds : Nat → Fd) (numConns : Nat) :
    (construct numThrs maxConns buffSize rdfds numConns).Unstarted where
  pos := by simpa [construct, UInt16.lt_iff_toNat_lt] using hpos
  none _ _ := ⟨rfl, rfl⟩

theorem alive_construct {numThrs : UInt16} (hpos : 0 < numThrs) (maxConns : UInt16)
    (buffSize : UInt32) (rdfds : Nat → Fd) (numConns : Nat) :
    (construct numThrs maxConns buffSize rdfds numConns).Alive where
  unstarted := unstarted_construct hpos maxConns buffSize rdfds numConns
  live h := by cases h
  queues i m hm := by cases hm
  outside := id
  busy h := absurd rfl h

section

variable {s s' : Pool} {l : PoolLabel}

/-- A thread that takes a step has been created. -/
theorem Unstarted.running_of_writer (hs : s.Unstarted) {i : Nat} {pc : WriterPc}
    (hw : s.writers i = pc) (hpc : pc ≠ .absent) : s.running = true := by
  by_contra hrun
  exact hpc (hw.symm.trans (hs.none (by simpa using hrun) i).1)

theorem Unstarted.running_of_reader (hs : s.Unstarted) {i : Nat} {r : ReadThr}
    (h : s.readers i = some r) : s.running = true := by
  by_contra hrun
  rw [(hs.none (by simpa using hrun) i).2] at h
  cases h

theorem Unstarted.of_running (hs : s.Unstarted) (h1 : s'.numThrs = s.numThrs)
    (h2 : s'.running = true) : s'.Unstarted where
  pos := h1 ▸ hs.pos
  none h := by
    rw [h2] at h
    cases h

theorem Unstarted.congr (hs : s.Unstarted) (h1 : s'.numThrs = s.numThrs)
    (h2 : s'.running = s.running) (h3 : s'.writers = s.writers) (h4 : s'.readers = s.readers) :
    s'.Unstarted where
  pos := h1 ▸ hs.pos
  none h i := by
    rw [h3, h4]
    exact hs.none (h2 ▸ h) i

theorem unstarted_step (hs : s.Unstarted) (h : PoolTrans s l s') : s'.Unstarted := by
  cases h with
  | startAll => exact hs.of_running rfl rfl
  | popExit hw | popWrite hw | writeFail hw | write hw =>
      exact hs.of_running rfl (hs.running_of_writer hw (by simp))
  | reader hr => exact hs.of_running rfl (hs.running_of_reader hr)
  | stopClose ho =>
      refine ⟨hs.pos, fun hrun j => ?_⟩
      rename_i i
      refine ⟨(hs.none hrun j).1, ?_⟩
      by_cases hj : j = i
      · subst hj
        exact (Function.update_self _ _ _).trans (by rw [(hs.none hrun j).2]; rfl)
      · exact (Function.update_of_ne hj _ _).trans (hs.none hrun j).2
  | _ => exact hs.congr rfl rfl rfl rfl

/-! ## The invariant holds in the runs that last -/

/-- The invariant over a step that leaves the threads and the queues alone. -/
theorem Alive.congr (hs : s.Alive) (h1 : s'.numThrs = s.numThrs) (h2 : s'.running = s.running)
    (h3 : s'.writers = s.writers) (h4 : s'.readers = s.readers)
    (h5 : ∀ i, (s'.wthrinfo i).msgq = (s.wthrinfo i).msgq) (h6 : ¬ s'.owner.InStop)
    (h7 : s'.owner ≠ .idle → s.running = true) : s'.Alive where
  unstarted := hs.unstarted.congr h1 h2 h3 h4
  live hrun i hi := by
    rw [h3, h4]
    exact hs.live (h2 ▸ hrun) i (h1 ▸ hi)
  queues i m hm := hs.queues i m (h5 i ▸ hm)
  outside := h6
  busy h := h2.trans (h7 h)

/-- A message to write is queued. -/
theorem Alive.push (hs : s.Alive) {i : Nat} {m : MsgT} (hm : m.type = .write)
    (h1 : s'.numThrs = s.numThrs) (h2 : s'.running = s.running) (h3 : s'.writers = s.writers)
    (h4 : s'.readers = s.readers)
    (h5 : s'.wthrinfo = Function.update s.wthrinfo i ((s.wthrinfo i).enqueue m))
    (h6 : ¬ s'.owner.InStop) (h7 : s'.owner ≠ .idle → s.running = true) : s'.Alive where
  unstarted := hs.unstarted.congr h1 h2 h3 h4
  live hrun j hj := by
    rw [h3, h4]
    exact hs.live (h2 ▸ hrun) j (h1 ▸ hj)
  queues j x hx := by
    rw [h5] at hx
    by_cases hj : j = i
    · subst hj
      rw [Function.update_self] at hx
      rcases List.mem_append.mp hx with hx | hx
      · exact hs.queues j x hx
      · exact List.mem_singleton.mp hx ▸ hm
    · rw [Function.update_of_ne hj] at hx
      exact hs.queues j x hx
  outside := h6
  busy h := h2.trans (h7 h)

/-- A writer moves on and stays. -/
theorem Alive.writer (hs : s.Alive) {i : Nat} {pc : WriterPc} (hrun : s.running = true)
    (hpc : pc.live = true) (h1 : s'.numThrs = s.numThrs) (h2 : s'.running = s.running)
    (h3 : s'.writers = Function.update s.writers i pc) (h4 : s'.readers = s.readers)
    (h5 : ∀ j, ∀ m ∈ (s'.wthrinfo j).msgq, m ∈ (s.wthrinfo j).msgq) (h6 : s'.owner = s.owner) :
    s'.Alive where
  unstarted := hs.unstarted.of_running h1 (h2.trans hrun)
  live _ j hj := by
    obtain ⟨hw, hr⟩ := hs.live hrun j (h1 ▸ hj)
    rw [h3, h4]
    refine ⟨?_, hr⟩
    by_cases hji : j = i
    · subst hji
      rw [Function.update_self]
      exact hpc
    · rw [Function.update_of_ne hji]
      exact hw
  queues j m hm := hs.queues j m (h5 j m hm)
  outside := h6 ▸ hs.outside
  busy _ := h2.trans hrun

/-- The rest of a queue is part of it. -/
theorem mem_queue_of_pop {i : Nat} {m : MsgT} {q : List MsgT} (hq : (s.wthrinfo i).msgq = m :: q)
    (j : Nat) (x : MsgT)
    (hx : x ∈ (Function.update s.wthrinfo i { s.wthrinfo i with msgq := q } j).msgq) :
    x ∈ (s.wthrinfo j).msgq := by
  by_cases hj : j = i
  · subst hj
    rw [Function.update_self] at hx
    rw [hq]
    exact List.mem_cons_of_mem m hx
  · rw [Function.update_of_ne hj] at hx
    exact hx

/-- `start_all` creates all threads, if `pthread_create` does not fail. -/
theorem Alive.startAll (hs : s.Alive) {wok rok : Nat → Bool}
    {net : Fd → Conn} {bufs : Nat → Bufs}
    (hok : s.running = false → ∀ i, i < s.numThrs → wok i = true ∧ rok i = true) :
    (s.startAll wok rok net bufs).Alive := by
  unfold Pool.startAll
  split_ifs with hrun
  · exact hs.congr rfl rfl rfl rfl (fun _ => rfl) id (fun h => absurd rfl h)
  · have hall := hok (by simpa using hrun)
    constructor
    case unstarted => exact hs.unstarted.of_running rfl rfl
    case live =>
      intro _ i hi
      refine ⟨?_, ?_⟩
      · simp only [ret]
        rw [if_pos ⟨hi, (hall i hi).1⟩]
        rfl
      · refine ⟨_, if_pos ⟨hi, (hall i hi).2⟩, rfl, rfl, ?_⟩
        intro h
        exact h
    case queues => exact hs.queues
    case outside => exact id
    case busy => exact fun h => absurd rfl h

/-- A reader moves on and stays, since its pipe is open. -/
theorem Alive.reader (hs : s.Alive) {i : Nat} {r r' : ReadThr} {rl : ReadLabel}
    (hr : s.readers i = some r) (hstep : r.step rl = some r') :
    Alive { s with readers := Function.update s.readers i (some r'),
                   closed := s.closedBy i r rl } := by
  have hrun := hs.unstarted.running_of_reader hr
  constructor
  case unstarted => exact hs.unstarted.of_running rfl hrun
  case live =>
    intro _ j hj
    obtain ⟨hw, r0, hr0, hopen⟩ := hs.live hrun j hj
    refine ⟨hw, ?_⟩
    by_cases hji : j = i
    · subst hji
      rw [hr, Option.some.injEq] at hr0
      exact ⟨r', Function.update_self _ _ _, ReadThr.Open.step (hr0 ▸ hopen) hstep⟩
    · exact ⟨r0, (Function.update_of_ne hji _ _).trans hr0, hopen⟩
  case queues => exact hs.queues
  case outside => exact hs.outside
  case busy => exact fun _ => hrun

/-- **One step of a run that lasts.** -/
theorem alive_step (hs : s.Alive)
    (hstart : ∀ wok rok net bufs, l = .startAll wok rok net bufs → s.running = false →
      ∀ i, i < s.numThrs → wok i = true ∧ rok i = true)
    (hstop : l = .stopAll → s.running = false) (h : s.step l = some s') : s'.Alive := by
  cases poolTrans_of_step h with
  | reject hidle hl =>
      exact hs.congr rfl rfl rfl rfl (fun _ => rfl) id (fun h => absurd rfl h)
  | addConn hidle hrun hroom hw hr =>
      refine hs.congr rfl rfl rfl rfl ?_ id (fun h => absurd rfl h)
      intro j
      rename_i sock addr w r
      by_cases hj : j = s.numConns % s.numThrs
      · subst hj
        exact (congrArg ThrInfo.msgq (Function.update_self _ _ _)).trans (addConn_eq_some hw).2
      · exact congrArg ThrInfo.msgq (Function.update_of_ne hj _ _)
  | startAll hidle hrun hwriters hreaders =>
      rename_i wok rok net bufs writers readers
      have hcall : s.step (.startAll wok rok net bufs) = some (s.startAll wok rok net bufs) := by
        simp only [step, hidle]
      rw [hcall, Option.some.injEq] at h
      rw [← h]
      exact hs.startAll (hstart wok rok net bufs rfl)
  | thrBroadcast hidle hrun ht =>
      exact hs.push rfl rfl rfl rfl rfl rfl id (fun h => absurd rfl h)
  | send hidle hrun hc =>
      exact hs.push rfl rfl rfl rfl rfl rfl id (fun h => absurd rfl h)
  | broadcast hidle hrun =>
      exact hs.congr rfl rfl rfl rfl (fun _ => rfl) id (fun _ => hrun)
  | stopAll hidle hrun =>
      rw [hstop rfl] at hrun
      cases hrun
  | broadcastPush ho hi =>
      have hrun := hs.busy (by simp [ho])
      exact hs.push rfl rfl rfl rfl rfl rfl id (fun _ => hrun)
  | broadcastEnd ho hi =>
      exact hs.congr rfl rfl rfl rfl (fun _ => rfl) id (fun h => absurd rfl h)
  | stopPush ho | stopClose ho | stopEnd ho | joinWriter ho | joinReader ho | joinEnd ho =>
      refine absurd ?_ hs.outside
      rw [ho]
      trivial
  | popExit hw hq hm =>
      rename_i i m q
      have hwrite := hs.queues i m (by rw [hq]; exact List.mem_cons_self)
      rw [hm] at hwrite
      cases hwrite
  | popWrite hw hq hm =>
      exact hs.writer (hs.unstarted.running_of_writer hw (by simp)) (WriterPc.live_go _ _) rfl rfl rfl
        rfl (mem_queue_of_pop hq) rfl
  | writeFail hw =>
      exact hs.writer (hs.unstarted.running_of_writer hw (by simp)) (WriterPc.live_go _ _) rfl rfl rfl
        rfl (fun _ _ hm => hm) rfl
  | write hw hopen =>
      refine hs.writer (hs.unstarted.running_of_writer hw (by simp)) ?_ rfl rfl rfl rfl
        (fun _ _ hm => hm) rfl
      split_ifs
      · rfl
      · exact WriterPc.live_go _ _
  | reader hr hstep => exact hs.reader hr hstep

theorem Alive.allLive (hs : s.Alive) (hrun : s.running = true) : s.AllLive := by
  intro i hi
  obtain ⟨hw, r, hr, hopen⟩ := hs.live hrun i hi
  exact ⟨hw, r, hr, hopen.not_exited⟩

/-- `running` says that all threads are there. -/
theorem Alive.running_iff (hs : s.Alive) : s.running = true ↔ s.AllLive := by
  refine ⟨hs.allLive, fun hall => ?_⟩
  have hw := (hall 0 hs.unstarted.pos).1
  apply hs.unstarted.running_of_writer rfl
  intro habsent
  rw [habsent] at hw
  cases hw

/-- A message is queued for one of the `n` writers of a running pool. -/
theorem Unstarted.queuesFor_lt (hs : s.Unstarted) (hbusy : s.owner ≠ .idle → s.running = true)
    {i : Nat} (h : s.queuesFor l = some i) : s.running = true ∧ i < s.numThrs := by
  unfold queuesFor at h
  split at h
  · rw [Option.ite_none_right_eq_some, Option.some.injEq] at h
    obtain ⟨⟨hrun, -⟩, rfl⟩ := h
    exact ⟨hrun, Nat.mod_lt _ hs.pos⟩
  · rw [Option.ite_none_right_eq_some, Option.some.injEq] at h
    obtain ⟨⟨hrun, hlt⟩, rfl⟩ := h
    exact ⟨hrun, hlt⟩
  · rename_i p j ho
    rw [Option.ite_none_right_eq_some, Option.some.injEq] at h
    obtain ⟨hlt, rfl⟩ := h
    exact ⟨hbusy (by simp [ho]), hlt⟩
  · cases h

/-! ## The runs that do not last -/

/-- A thread is missing. -/
def Missing (s : Pool) : Prop :=
  ∃ i, i < s.numThrs ∧ ((s.writers i).live = false ∨ s.readers i = none)

/-- `running` is set and a thread is missing, or `stop_all` is under way to its first join. -/
def Stale (s : Pool) : Prop :=
  s.running = true ∧ (s.Missing ∨ (∃ i b, s.owner = .stopping i b) ∨ s.owner = .joining 0 true)

theorem Missing.congr (hs : s.Missing) (h1 : s'.numThrs = s.numThrs)
    (h2 : ∀ i, (s.writers i).live = false → (s'.writers i).live = false)
    (h3 : ∀ i, s.readers i = none → s'.readers i = none) : s'.Missing := by
  obtain ⟨i, hi, hmiss⟩ := hs
  refine ⟨i, h1 ▸ hi, ?_⟩
  rcases hmiss with hw | hr
  · exact .inl (h2 i hw)
  · exact .inr (h3 i hr)

/-- A step of a live writer leaves those that are not live alone. -/
theorem live_update_of_live {writers : Nat → WriterPc} {i : Nat} {pc : WriterPc}
    (hlive : (writers i).live = true) (j : Nat) (hj : (writers j).live = false) :
    (Function.update writers i pc j).live = false := by
  have hne : j ≠ i := by
    rintro rfl
    rw [hlive] at hj
    cases hj
  rw [Function.update_of_ne hne]
  exact hj

theorem none_update_of_none {readers : Nat → Option ReadThr} {i : Nat} {r : Option ReadThr}
    (hr : readers i = none → r = none) (j : Nat) (hj : readers j = none) :
    Function.update readers i r j = none := by
  by_cases hji : j = i
  · subst hji
    rw [Function.update_self]
    exact hr hj
  · rw [Function.update_of_ne hji]
    exact hj

/-- A missing thread stays missing, since a running pool does not start again. -/
theorem missing_step (hrun : s.running = true) (hs : s.Missing) (h : PoolTrans s l s') :
    s'.Missing := by
  cases h with
  | startAll hidle hstopped =>
      rw [hrun] at hstopped
      cases hstopped
  | stopClose ho =>
      refine hs.congr rfl (fun _ h => h) (none_update_of_none ?_)
      intro hnone
      rw [hnone]
      rfl
  | popExit hw | popWrite hw | writeFail hw | write hw =>
      exact hs.congr rfl (live_update_of_live (by rw [hw]; rfl)) (fun _ h => h)
  | reader hr =>
      refine hs.congr rfl (fun _ h => h) (none_update_of_none ?_)
      intro hnone
      rw [hr] at hnone
      cases hnone
  | _ => exact hs.congr rfl (fun _ h => h) (fun _ h => h)

/-- **A stale pool stays stale**: `stop_all` gets to its first join only behind the exit of a
writer. -/
theorem stale_step (hpos : 0 < s.numThrs) (hs : s.Stale) (h : PoolTrans s l s') : s'.Stale := by
  obtain ⟨hrun, hs⟩ := hs
  have hrun' : s'.running = true := by
    cases h with
    | startAll => rfl
    | _ => exact hrun
  refine ⟨hrun', ?_⟩
  rcases hs with hs | ⟨i, b, ho⟩ | ho
  · exact .inl (missing_step hrun hs h)
  · have hbusy : s.owner ≠ .idle := by simp [ho]
    cases h with
    | stopPush => exact .inr (.inl ⟨_, _, rfl⟩)
    | stopClose => exact .inr (.inl ⟨_, _, rfl⟩)
    | stopEnd => exact .inr (.inr rfl)
    | popExit | popWrite | writeFail | write | reader => exact .inr (.inl ⟨i, b, ho⟩)
    | reject hidle | addConn hidle | startAll hidle | thrBroadcast hidle | send hidle
    | broadcast hidle | stopAll hidle => exact absurd hidle hbusy
    | broadcastPush ho' | broadcastEnd ho' | joinWriter ho' | joinReader ho' | joinEnd ho' =>
        rw [ho] at ho'
        cases ho'
  · have hbusy : s.owner ≠ .idle := by simp [ho]
    cases h with
    | joinWriter ho' hi hw =>
        rename_i i
        exact .inl ⟨i, hi, .inl (by rw [show _ = WriterPc.exited from hw]; rfl)⟩
    | joinEnd ho' hi =>
        rw [ho] at ho'
        cases ho'
        exact absurd hpos (Nat.not_lt_of_le hi)
    | popExit | popWrite | writeFail | write | reader => exact .inr (.inr ho)
    | reject hidle | addConn hidle | startAll hidle | thrBroadcast hidle | send hidle
    | broadcast hidle | stopAll hidle => exact absurd hidle hbusy
    | broadcastPush ho' | broadcastEnd ho' | stopPush ho' | stopClose ho' | stopEnd ho'
    | joinReader ho' =>
        rw [ho] at ho'
        cases ho'

/-- `start_all` without one of its threads leaves the pool stale. -/
theorem stale_startAll (hs : s.Unstarted) (hrun : s.running = false) {wok rok : Nat → Bool}
    {net : Fd → Conn} {bufs : Nat → Bufs} {i : Nat} (hi : i < s.numThrs)
    (hfail : ¬ (wok i = true ∧ rok i = true)) : (s.startAll wok rok net bufs).Stale := by
  unfold Pool.startAll
  rw [if_neg (by simp [hrun])]
  refine ⟨rfl, .inl ⟨i, hi, ?_⟩⟩
  by_cases hw : wok i = true
  · have hr : ¬ (i < s.numThrs ∧ rok i = true) := fun h => hfail ⟨hw, h.2⟩
    exact .inr ((if_neg hr).trans (hs.none hrun i).2)
  · have hw' : ¬ (i < s.numThrs ∧ wok i = true) := fun h => hw h.2
    refine .inl ?_
    simp only [ret]
    rw [if_neg hw', (hs.none hrun i).1]
    rfl

end

end Pool

/-! ## The lifecycle -/

namespace Life

variable {s s' : Life} {l : PoolLabel}

@[simp] theorem record_pool (s : Life) (l : PoolLabel) (pool : Pool) : (s.record l pool).pool = pool := by
  unfold record
  split
  · rfl
  · split_ifs <;> rfl
  · rfl
  · rfl

theorem step_eq_some : s.step l = some s' ↔
    ∃ pool, s.pool.step l = some pool ∧ s.record l pool = s' := Option.map_eq_some_iff

/-- A step of the life is a step of the pool. -/
theorem pool_step (h : s.step l = some s') : s.pool.step l = some s'.pool := by
  obtain ⟨pool, hpool, rfl⟩ := step_eq_some.mp h
  rw [record_pool, hpool]

/-- Outside `stop_all` nothing is joined or closed. -/
theorem record_of_outside (h : ¬ s.pool.owner.InStop) (pool : Pool) :
    s.record l pool = { s with pool := pool } := by
  unfold record
  split
  · rename_i i ho
    exact absurd (by rw [ho]; trivial) h
  · rename_i i ho
    exact absurd (by rw [ho]; trivial) h
  · rename_i i ho
    exact absurd (by rw [ho]; trivial) h
  · rfl

/-- The invariant of the runs that last. -/
structure Alive (s : Life) : Prop where
  pool : s.pool.Alive
  joins : ∀ i, s.wjoins i = 0 ∧ s.rjoins i = 0
  closes : ∀ i, s.closes i = 0

theorem Alive.step (hs : s.Alive) (hok : s.Lasting l) (h : s.step l = some s') : s'.Alive := by
  have hpool := pool_step h
  obtain ⟨pool, -, rfl⟩ := step_eq_some.mp h
  rw [record_of_outside hs.pool.outside] at hpool ⊢
  refine ⟨?_, hs.joins, hs.closes⟩
  apply Pool.alive_step hs.pool _ _ hpool
  · rintro wok rok net bufs rfl
    exact hok
  · rintro rfl
    exact hok

/-- **The invariant gives the property.** -/
theorem Alive.lifecycle (hs : s.Alive) : s.Lifecycle where
  flag := hs.pool.running_iff
  queued l i h := by
    obtain ⟨hrun, hi⟩ := hs.pool.unstarted.queuesFor_lt hs.pool.busy h
    exact (hs.pool.live hrun i hi).1
  joinedOnce i := by
    rw [(hs.joins i).1, (hs.joins i).2]
    exact ⟨Nat.zero_le 1, Nat.zero_le 1⟩
  closedOnce i := by
    rw [hs.closes i]
    exact Nat.zero_le 1

/-- A step against the condition leaves the pool stale. -/
theorem stale_of_not_lasting (hs : s.pool.Unstarted) (hok : ¬ s.Lasting l) (h : s.step l = some s') :
    s'.pool.Stale := by
  have hpool := pool_step h
  cases l with
  | startAll wok rok net bufs =>
      simp only [Lasting, not_forall] at hok
      obtain ⟨hrun, i, hi, hfail⟩ := hok
      cases ho : s.pool.owner with
      | idle =>
          simp only [Pool.step, ho, Option.some.injEq] at hpool
          rw [← hpool]
          exact Pool.stale_startAll hs hrun hi hfail
      | _ => simp [Pool.step, ho] at hpool
  | stopAll =>
      have hrun : s.pool.running = true := by simpa [Lasting] using hok
      cases ho : s.pool.owner with
      | idle =>
          simp only [Pool.step, ho, Option.some.injEq, Pool.stopAll, hrun, Bool.true_eq_false,
            if_false] at hpool
          rw [← hpool]
          exact ⟨rfl, .inr (.inl ⟨0, false, rfl⟩)⟩
      | _ => simp [Pool.step, ho] at hpool
  | _ => exact absurd trivial hok

/-- **The lifecycle of the pool holds in exactly the runs that last**: in every run in which
`start_all` gets its threads and no `stop_all` is called on a running pool the property holds in the
state reached, and a run that ends outside `stop_all` with the property is one of these. -/
theorem lifecycle_iff_lasting (numThrs : UInt16) (hpos : 0 < numThrs) (maxConns : UInt16)
    (buffSize : UInt32) (rdfds : Nat → Fd) (numConns : Nat) (ls : List PoolLabel) (s : Life)
    (hrun : exec step (init (Pool.construct numThrs maxConns buffSize rdfds numConns)) ls = some s) :
    (Meets step Lasting (init (Pool.construct numThrs maxConns buffSize rdfds numConns)) ls →
      s.Lifecycle) ∧
    (s.Lifecycle → ¬ s.pool.owner.InStop →
      Meets step Lasting (init (Pool.construct numThrs maxConns buffSize rdfds numConns)) ls) := by
  refine ⟨?_, ?_⟩
  · intro hok
    have hinit : (init (Pool.construct numThrs maxConns buffSize rdfds numConns)).Alive :=
      ⟨Pool.alive_construct hpos maxConns buffSize rdfds numConns, fun _ => ⟨rfl, rfl⟩, fun _ => rfl⟩
    have hs : s.Alive :=
      exec_invariant_of_meets (fun _ _ _ hs hok h => hs.step hok h) hinit hok hrun
    exact hs.lifecycle
  · intro hlife hout
    have hstep : ∀ (s : Life) (l : PoolLabel) (s' : Life), s.pool.Unstarted → s.step l = some s' →
        s'.pool.Unstarted := by
      intro s l s' hs h
      exact Pool.unstarted_step hs (Pool.poolTrans_of_step (pool_step h))
    have hfall : ∀ (s : Life) (l : PoolLabel) (s' : Life), s.pool.Unstarted → s.step l = some s' →
        ¬ s.Lasting l → s'.pool.Unstarted ∧ s'.pool.Stale := by
      intro s l s' hs h hok
      exact ⟨hstep s l s' hs h, stale_of_not_lasting hs hok h⟩
    have htrap : ∀ (s : Life) (l : PoolLabel) (s' : Life), s.pool.Unstarted ∧ s.pool.Stale →
        s.step l = some s' → s'.pool.Unstarted ∧ s'.pool.Stale := by
      rintro s l s' ⟨hs, hstale⟩ h
      exact ⟨hstep s l s' hs h,
        Pool.stale_step hs.pos hstale (Pool.poolTrans_of_step (pool_step h))⟩
    apply meets_of_trap hstep hfall htrap
      (Pool.unstarted_construct hpos maxConns buffSize rdfds numConns) hrun
    rintro ⟨-, hrunning, hstale⟩
    rcases hstale with ⟨i, hi, hmiss⟩ | ⟨i, b, ho⟩ | ho
    · obtain ⟨hw, r, hr, -⟩ := hlife.flag.mp hrunning i hi
      rcases hmiss with hdead | hnone
      · rw [hw] at hdead
        cases hdead
      · rw [hr] at hnone
        cases hnone
    · exact hout (by rw [ho]; trivial)
    · exact hout (by rw [ho]; trivial)

instance (s : Life) : ∀ l : PoolLabel, Decidable (s.Lasting l)
  | .startAll wok rok _ _ => inferInstanceAs
      (Decidable (s.pool.running = false → ∀ i, i < s.pool.numThrs → wok i = true ∧ rok i = true))
  | .stopAll => inferInstanceAs (Decidable (s.pool.running = false))
  | .addConn _ _ | .send _ _ | .thrBroadcast _ _ | .broadcast _ | .owner | .pop _ | .write _ _
  | .reader _ _ => isTrue trivial

/-- `start_all`, with what `pthread_create` does for the writers. -/
def start (wok : Nat → Bool) : PoolLabel :=
  .startAll wok (fun _ => true) (fun _ => ⟨[], false⟩) (fun _ => ⟨fun _ => 0, fun _ => 0, 0, false⟩)

/-- A pool that is started and used, and not stopped. -/
theorem lifecycle_started :
    ∃ s, exec step (init (Pool.construct 2 1 64 (fun i => 5 + i) 0))
        [.addConn 10 [], .stopAll, start (fun _ => true), .send 0 ⟨[7], by decide⟩, .pop 0] = some s ∧
      s.pool.rets = [0, -1, 0, 0] ∧ s.Lifecycle := by
  obtain ⟨s, hrun, hs⟩ := exists_exec step (init (Pool.construct 2 1 64 (fun i => 5 + i) 0))
    [.addConn 10 [], .stopAll, start (fun _ => true), .send 0 ⟨[7], by decide⟩, .pop 0]
    (fun s => s.pool.rets = [0, -1, 0, 0]) (by decide)
  refine ⟨s, hrun, of_decide_eq_true hs, ?_⟩
  exact (lifecycle_iff_lasting 2 (by decide) 1 64 (fun i => 5 + i) 0 _ s hrun).1 (by decide)

/-- `stop_all` on a pool with one pair of threads and no connection. -/
def stop : List PoolLabel := [.stopAll, .owner, .owner, .owner]

/-- The threads leave, and the joins of `stop_all`. -/
def leave : List PoolLabel :=
  [.pop 0, .reader 0 (.select [] true), .reader 0 (.rdpipe (.got 0)), .reader 0 .close, .owner, .owner,
    .owner]

/-- **The flag is wrong**: with a writer that could not be created, `send` still returns 0; and
behind `stop_all` the flag is still set, and a second `stop_all` closes the pipes again and calls
`pthread_join` for a thread that is joined already. -/
theorem not_lifecycle :
    (∃ s, exec step (init (Pool.construct 1 1 64 (fun _ => 5) 0))
        [.addConn 10 [], start (fun _ => false), .send 0 ⟨[7], by decide⟩] = some s ∧
      s.pool.rets = [0, 0, 0] ∧ ¬ s.Lifecycle) ∧
    ∃ s, exec step (init (Pool.construct 1 1 64 (fun _ => 5) 0))
        ([start (fun _ => true)] ++ stop ++ leave ++ stop ++ [.owner]) = some s ∧
      s.pool.rets = [0, 0] ∧ s.wjoins 0 = 2 ∧ s.closes 0 = 2 ∧ ¬ s.Lifecycle := by
  refine ⟨?_, ?_⟩
  · obtain ⟨s, hrun, hs⟩ := exists_exec step (init (Pool.construct 1 1 64 (fun _ => 5) 0))
      [.addConn 10 [], start (fun _ => false), .send 0 ⟨[7], by decide⟩]
      (fun s => s.pool.rets = [0, 0, 0] ∧ s.pool.running = true ∧ 0 < s.pool.numThrs ∧
        (s.pool.writers 0).live = false) (by decide)
    obtain ⟨hrets, hrunning, hpos, hdead⟩ := of_decide_eq_true hs
    refine ⟨s, hrun, hrets, fun hlife => ?_⟩
    rw [(hlife.flag.mp hrunning 0 hpos).1] at hdead
    cases hdead
  · obtain ⟨s, hrun, hs⟩ := exists_exec step (init (Pool.construct 1 1 64 (fun _ => 5) 0))
      ([start (fun _ => true)] ++ stop ++ leave ++ stop ++ [.owner])
      (fun s => s.pool.rets = [0, 0] ∧ s.wjoins 0 = 2 ∧ s.closes 0 = 2) (by decide)
    obtain ⟨hrets, hjoins, hcloses⟩ := of_decide_eq_true hs
    refine ⟨s, hrun, hrets, hjoins, hcloses, fun hlife => ?_⟩
    have honce := (hlife.joinedOnce 0).1
    omega

end Life

end CommTest.Socket
