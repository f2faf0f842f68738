import CommTest.Lib.Lts
import CommTest.Socket.Reader

/-!
# The thread pool

`tcpthreadpool`: connections are dealt out round-robin to `num_thrs` pairs of threads, a writer with
a queue of messages and a reader with a pipe that tells it to exit. One thread owns the pool and
makes all the calls; its loops over the threads are steps of their own, so that the writers and
readers run in between.

* `construct` and `Pool.step` are the class; the label says which thread takes the step and how its
  system calls turn out.
* `conns`, `calls` and `stopped` are histories that no step reads: the sockets in the order of their
  `add_conn`, the calls that returned (or will return) 0, and whether `stop_all` has returned.
* `PoolTrans` lists what one step can do.
-/

set_option linter.unusedSectionVars false

namespace CommTest.Socket

open Mem FairQueue Lts

/-- A file descriptor. -/
abbrev Fd := Int

/-! ## Threads -/

/-- `tcpthrinfo_t`: what a writer or a reader thread is told. `socks` is the filled part of the
array, so `num_socks` is its length. Source: `threadpool.hpp`, `tcpthrinfo_t`. -/
structure ThrInfo where
  rdfd : Fd
  msgq : List MsgT
  socks : List Fd
  maxSocks : Nat
  maxSockfd : Fd

/-- `none` is the failing assertion behind the store. Source: `threadpool.hpp`,
`tcpthrinfo_t::add_conn`. -/
def ThrInfo.addConn (t : ThrInfo) (sock : Fd) : Option ThrInfo :=
  if t.socks.length + 1 ≤ t.maxSocks then
    some { t with socks := t.socks ++ [sock],
                  maxSockfd := if t.maxSockfd < sock then sock else t.maxSockfd }
  else none

/-- `msgq.push(m)`. -/
def ThrInfo.enqueue (t : ThrInfo) (m : MsgT) : ThrInfo := { t with msgq := t.msgq ++ [m] }

/-- The sockets a message goes to. -/
def ThrInfo.targets (t : ThrInfo) (m : MsgT) : List Fd :=
  if m.sock < 0 then t.socks else t.socks[m.sock.toNat]?.toList

/-- Where a writer thread is: not created, in `pop`, in the `writen` of `m` to `fd` after `k` bytes
with the sockets `rest` still to come, or out of `start_send`. -/
inductive WriterPc
  | absent
  | idle
  | writing (fd : Fd) (rest : List Fd) (m : MsgT) (k : Nat)
  | exited

/-- Begin the `writen` calls of `m` to the given sockets; with no byte to write they return at
once. -/
def WriterPc.go (m : MsgT) : List Fd → WriterPc
  | [] => .idle
  | fd :: rest => if 0 < m.len.toNat then .writing fd rest m 0 else WriterPc.go m rest

/-- Where the owner is: between calls, before its push to thread `i` in `broadcast`, before its push
to thread `i` (or the close of its pipe) in `stop_all`, before the join of writer `i` (or of reader
`i`). -/
inductive OwnerPc
  | idle
  | broadcasting (p : Payload) (i : Nat)
  | stopping (i : Nat) (pushed : Bool)
  | joining (i : Nat) (writer : Bool)

/-- A call that was accepted. -/
inductive Call
  | send (cliid : Nat) (p : Payload)
  | thrBroadcast (thrid : Nat) (p : Payload)
  | broadcast (p : Payload)

/-! ## The pool -/

/-- `tcpthreadpool` with its threads and what they have written and closed. -/
structure Pool where
  numThrs : Nat
  maxConns : Nat
  numConns : Nat
  buffSize : UInt32
  running : Bool
  sockaddrs : Nat → Option Bytes
  wthrinfo : Nat → ThrInfo
  rthrinfo : Nat → ThrInfo
  writers : Nat → WriterPc
  readers : Nat → Option ReadThr
  owner : OwnerPc
  out : Fd → Bytes
  closed : Fd → Bool
  rets : List Int
  conns : List Fd
  calls : List Call
  stopped : Bool

/-- The steps of the pool: the calls of the owner and the next step of the call it is in; a writer
takes a message or makes a `write`; a reader takes a step. Starting the threads comes with what
`pthread_create` does for each of them and what the readers will find on their sockets. -/
inductive PoolLabel
  | addConn (sock : Fd) (addr : Bytes)
  | startAll (wok rok : Nat → Bool) (net : Fd → Conn) (bufs : Nat → Bufs)
  | send (cliid : Nat) (p : Payload)
  | thrBroadcast (thrid : Nat) (p : Payload)
  | broadcast (p : Payload)
  | stopAll
  | owner
  | pop (i : Nat)
  | write (i : Nat) (o : WriteOutcome)
  | reader (i : Nat) (l : ReadLabel)

/-- The calls of the owner. -/
def PoolLabel.IsCall : PoolLabel → Prop
  | .owner => False
  | .pop _ => False
  | .write _ _ => False
  | .reader _ _ => False
  | _ => True

namespace Pool

/-- The size of the array of thread `i`. -/
def socksPerThr (numThrs maxConns i : Nat) : Nat :=
  if i < maxConns % numThrs then maxConns / numThrs + 1 else maxConns / numThrs

/-- The constructor; `rdfds i` is the read end of the pipe of reader `i` and `numConns` what is in
the field that it does not set. Source: `threadpool.cpp`, `tcpthreadpool`. -/
def construct (numThrs maxConns : UInt16) (buffSize : UInt32) (rdfds : Nat → Fd) (numConns : Nat) :
    Pool where
  numThrs := numThrs.toNat
  maxConns := maxConns.toNat
  numConns := numConns
  buffSize := buffSize
  running := false
  sockaddrs := fun _ => none
  wthrinfo := fun i => ⟨0, [], [], socksPerThr numThrs.toNat maxConns.toNat i, 0⟩
  rthrinfo := fun i => ⟨rdfds i, [], [], socksPerThr numThrs.toNat maxConns.toNat i,
    if 0 < rdfds i then rdfds i else 0⟩
  writers := fun _ => .absent
  readers := fun _ => none
  owner := .idle
  out := fun _ => []
  closed := fun _ => false
  rets := []
  conns := []
  calls := []
  stopped := false

/-- A call returns. -/
def ret (s : Pool) (v : Int) : Pool := { s with owner := .idle, rets := s.rets ++ [v] }

/-- `wthrinfo[i].msgq.push(m)`. -/
def push (s : Pool) (i : Nat) (m : MsgT) : Pool :=
  { s with wthrinfo := Function.update s.wthrinfo i ((s.wthrinfo i).enqueue m) }

/-- Source: `threadpool.cpp`, `tcpthreadpool::add_conn`. -/
def addConn (s : Pool) (sock : Fd) (addr : Bytes) : Option Pool :=
  if s.running then some (s.ret (-1))
  else if s.numConns = s.maxConns then some (s.ret (-1))
  else
    let thrid := s.numConns % s.numThrs
    match (s.wthrinfo thrid).addConn sock, (s.rthrinfo thrid).addConn sock with
    | some w, some r =>
        some ({ s with wthrinfo := Function.update s.wthrinfo thrid w,
                       rthrinfo := Function.update s.rthrinfo thrid r,
                       sockaddrs := Function.update s.sockaddrs s.numConns (some addr),
                       numConns := (s.numConns + 1) % 2 ^ 16,
                       conns := s.conns ++ [sock] }.ret s.numConns)
    | _, _ => none

/-- `pthread_create` reports an error as a positive number, which `ret < 0` does not see. Source:
`threadpool.cpp`, `tcpthreadpool::start_all`. -/
def startAll (s : Pool) (wok rok : Nat → Bool) (net : Fd → Conn) (bufs : Nat → Bufs) : Pool :=
  if s.running then s.ret (-1)
  else
    { s with
        writers := fun i => if i < s.numThrs ∧ wok i = true then .idle else s.writers i,
        readers := fun i =>
          if i < s.numThrs ∧ rok i = true then
            some (ReadThr.start (s.rthrinfo i).socks.length s.buffSize
              (fun k => ((s.rthrinfo i).socks[k]?.map net).getD ⟨[], false⟩) ⟨[], false⟩ (bufs i))
          else s.readers i,
        running := true }.ret 0

/-- Source: `threadpool.cpp`, `tcpthreadpool::thr_broadcast`. -/
def thrBroadcast (s : Pool) (thrid : Nat) (p : Payload) : Pool :=
  if s.running = false then s.ret (-1)
  else if s.numThrs ≤ thrid then s.ret (-2)
  else
    ({ s with calls := s.calls ++ [Call.thrBroadcast thrid p] }.push thrid
      (MsgT.ofPayload .write p (-1))).ret 0

/-- Source: `threadpool.cpp`, `tcpthreadpool::send`. -/
def send (s : Pool) (cliid : Nat) (p : Payload) : Pool :=
  if s.running = false then s.ret (-1)
  else if s.numConns ≤ cliid then s.ret (-2)
  else
    ({ s with calls := s.calls ++ [Call.send cliid p] }.push (cliid % s.numThrs)
      (MsgT.ofPayload .write p (cliid / s.numThrs : Nat))).ret 0

/-- The beginning of `broadcast`. Source: `threadpool.cpp`, `tcpthreadpool::broadcast`. -/
def broadcast (s : Pool) (p : Payload) : Pool :=
  if s.running = false then s.ret (-1)
  else { s with calls := s.calls ++ [Call.broadcast p], owner := .broadcasting p 0 }

/-- The beginning of `stop_all`. Source: `threadpool.cpp`, `tcpthreadpool::stop_all`. -/
def stopAll (s : Pool) : Pool :=
  if s.running = false then s.ret (-1) else { s with owner := .stopping 0 false }

/-- The message that ends a writer. -/
def exitMsg : MsgT := MsgT.ofPayload .exit ⟨[], by decide⟩ (-1)

/-- The write end of the pipe of a reader is closed. -/
def closePipe (r : ReadThr) : ReadThr := { r with rdpipe := { r.rdpipe with closed := true } }

/-- The next step of `broadcast` or `stop_all`. A `pthread_join` of a thread that has left returns 0,
also when it was joined before. Source: `threadpool.cpp`, their loops. -/
def ownerStep (s : Pool) : Option Pool :=
  match s.owner with
  | .idle => none
  | .broadcasting p i =>
      if i < s.numThrs then
        some { s.push i (MsgT.ofPayload .write p (-1)) with owner := .broadcasting p (i + 1) }
      else some (s.ret 0)
  | .stopping i false =>
      if i < s.numThrs then some { s.push i exitMsg with owner := .stopping i true }
      else some { s with owner := .joining 0 true }
  | .stopping i true =>
      some { s with readers := Function.update s.readers i ((s.readers i).map closePipe),
                    owner := .stopping (i + 1) false }
  | .joining i true =>
      if i < s.numThrs then
        match s.writers i with
        | .exited => some { s with owner := .joining i false }
        | _ => none
      else some ({ s with stopped := true }.ret 0)
  | .joining i false =>
      match s.readers i with
      | some r => if r.pc = .exited then some { s with owner := .joining (i + 1) true } else none
      | none => none

/-- A writer takes its next message. Source: `threadpool.cpp`, `start_send`. -/
def popStep (s : Pool) (i : Nat) : Option Pool :=
  match s.writers i, (s.wthrinfo i).msgq with
  | .idle, m :: q =>
      some { s with
        wthrinfo := Function.update s.wthrinfo i { s.wthrinfo i with msgq := q },
        writers := Function.update s.writers i
          (match m.type with
          | .exit => .exited
          | .write => WriterPc.go m ((s.wthrinfo i).targets m)) }
  | _, _ => none

/-- One round of the loop of `writen` in a writer; a `write` to a closed descriptor fails, and the
result of `writen` is not looked at. Source: `threadpool.cpp`, `start_send`; `util.cpp`, `writen`.
-/
def writeStep (s : Pool) (i : Nat) (o : WriteOutcome) : Option Pool :=
  match s.writers i with
  | .writing fd rest m k =>
      if s.closed fd = true ∧ o ≠ .err then none
      else
        let r := write (m.data.drop k) (m.len.toNat - k) o
        let written := Int32.ofInt r.1
        let k' := k + written.toNatClampNeg
        some { s with
          out := Function.update s.out fd (s.out fd ++ r.2),
          writers := Function.update s.writers i
            (if written < 0 then WriterPc.go m rest
            else if k' < m.len.toNat then .writing fd rest m k'
            else WriterPc.go m rest) }
  | _ => none

/-- The slot that a step of a reader closes. -/
def closesSlot (r : ReadThr) : ReadLabel → Option Nat
  | .close =>
      match r.pc with
      | .closing k => if k < r.numSocks then some k else none
      | _ => none
  | _ => none

/-- A step of a reader; in its exit branch it closes the sockets it shares with its writer. -/
def readerStep (s : Pool) (i : Nat) (l : ReadLabel) : Option Pool :=
  match s.readers i with
  | some r =>
      (r.step l).map fun r' =>
        { s with
          readers := Function.update s.readers i (some r'),
          closed :=
            match (closesSlot r l).bind fun k => (s.rthrinfo i).socks[k]? with
            | some fd => Function.update s.closed fd true
            | none => s.closed }
  | none => none

/-- One step of the pool and its threads. The owner makes a call only when it is in none. -/
def step (s : Pool) (l : PoolLabel) : Option Pool :=
  match s.owner, l with
  | .idle, .addConn sock addr => s.addConn sock addr
  | .idle, .startAll wok rok net bufs => some (s.startAll wok rok net bufs)
  | .idle, .send cliid p => some (s.send cliid p)
  | .idle, .thrBroadcast thrid p => some (s.thrBroadcast thrid p)
  | .idle, .broadcast p => some (s.broadcast p)
  | .idle, .stopAll => some s.stopAll
  | _, .owner => s.ownerStep
  | _, .pop i => s.popStep i
  | _, .write i o => s.writeStep i o
  | _, .reader i l => s.readerStep i l
  | _, _ => none

/-! ## What one step can do -/

/-- The bytes that go out in one `write` of `m` after `k` bytes. -/
def chunk (m : MsgT) (k j : Nat) : Bytes :=
  ((m.data.drop k).take (m.len.toNat - k)).take (min (j + 1) rwMax)

/-- The descriptors closed by a step of reader `i`. -/
def closedBy (s : Pool) (i : Nat) (r : ReadThr) (l : ReadLabel) : Fd → Bool :=
  match (closesSlot r l).bind fun k => (s.rthrinfo i).socks[k]? with
  | some fd => Function.update s.closed fd true
  | none => s.closed

/-- The steps of the pool, one constructor per path. -/
inductive PoolTrans (s : Pool) : PoolLabel → Pool → Prop
  | reject {l v} (hidle : s.owner = .idle) (hl : l.IsCall) : PoolTrans s l (s.ret v)
  | addConn {sock addr w r} (hidle : s.owner = .idle) (hrun : s.running = false)
      (hroom : s.numConns ≠ s.maxConns)
      (hw : (s.wthrinfo (s.numConns % s.numThrs)).addConn sock = some w)
      (hr : (s.rthrinfo (s.numConns % s.numThrs)).addConn sock = some r) :
      PoolTrans s (.addConn sock addr)
        ({ s with wthrinfo := Function.update s.wthrinfo (s.numConns % s.numThrs) w,
                  rthrinfo := Function.update s.rthrinfo (s.numConns % s.numThrs) r,
                  sockaddrs := Function.update s.sockaddrs s.numConns (some addr),
                  numConns := (s.numConns + 1) % 2 ^ 16,
                  conns := s.conns ++ [sock] }.ret s.numConns)
  | startAll {wok rok net bufs writers readers} (hidle : s.owner = .idle) (hrun : s.running = false)
      (hwriters : ∀ i, writers i = s.writers i ∨ i < s.numThrs ∧ writers i = .idle)
      (hreaders : ∀ i, readers i = s.readers i ∨ i < s.numThrs ∧ ∃ conns,
        readers i = some (ReadThr.start (s.rthrinfo i).socks.length s.buffSize conns ⟨[], false⟩
          (bufs i))) :
      PoolTrans s (.startAll wok rok net bufs)
        ({ s with writers := writers, readers := readers, running := true }.ret 0)
  | thrBroadcast {thrid p} (hidle : s.owner = .idle) (hrun : s.running = true)
      (ht : thrid < s.numThrs) :
      PoolTrans s (.thrBroadcast thrid p)
        (({ s with calls := s.calls ++ [Call.thrBroadcast thrid p] }.push thrid
          (MsgT.ofPayload .write p (-1))).ret 0)
  | send {cliid p} (hidle : s.owner = .idle) (hrun : s.running = true) (hc : cliid < s.numConns) :
      PoolTrans s (.send cliid p)
        (({ s with calls := s.calls ++ [Call.send cliid p] }.push (cliid % s.numThrs)
          (MsgT.ofPayload .write p (cliid / s.numThrs : Nat))).ret 0)
  | broadcast {p} (hidle : s.owner = .idle) (hrun : s.running = true) :
      PoolTrans s (.broadcast p)
        { s with calls := s.calls ++ [Call.broadcast p], owner := .broadcasting p 0 }
  | stopAll (hidle : s.owner = .idle) (hrun : s.running = true) :
      PoolTrans s .stopAll { s with owner := .stopping 0 false }
  | broadcastPush {p i} (ho : s.owner = .broadcasting p i) (hi : i < s.numThrs) :
      PoolTrans s .owner
        { s.push i (MsgT.ofPayload .write p (-1)) with owner := .broadcasting p (i + 1) }
  | broadcastEnd {p i} (ho : s.owner = .broadcasting p i) (hi : s.numThrs ≤ i) :
      PoolTrans s .owner (s.ret 0)
  | stopPush {i} (ho : s.owner = .stopping i false) (hi : i < s.numThrs) :
      PoolTrans s .owner { s.push i exitMsg with owner := .stopping i true }
  | stopClose {i} (ho : s.owner = .stopping i true) :
      PoolTrans s .owner
        { s with readers := Function.update s.readers i ((s.readers i).map closePipe),
                 owner := .stopping (i + 1) false }
  | stopEnd {i} (ho : s.owner = .stopping i false) (hi : s.numThrs ≤ i) :
      PoolTrans s .owner { s with owner := .joining 0 true }
  | joinWriter {i} (ho : s.owner = .joining i true) (hi : i < s.numThrs)
      (hw : s.writers i = .exited) : PoolTrans s .owner { s with owner := .joining i false }
  | joinReader {i r} (ho : s.owner = .joining i false) (hr : s.readers i = some r)
      (hpc : r.pc = .exited) : PoolTrans s .owner { s with owner := .joining (i + 1) true }
  | joinEnd {i} (ho : s.owner = .joining i true) (hi : s.numThrs ≤ i) :
      PoolTrans s .owner ({ s with stopped := true }.ret 0)
  | popExit {i m q} (hw : s.writers i = .idle) (hq : (s.wthrinfo i).msgq = m :: q)
      (hm : m.type = .exit) :
      PoolTrans s (.pop i)
        { s with wthrinfo := Function.update s.wthrinfo i { s.wthrinfo i with msgq := q },
                 writers := Function.update s.writers i .exited }
  | popWrite {i m q} (hw : s.writers i = .idle) (hq : (s.wthrinfo i).msgq = m :: q)
      (hm : m.type = .write) :
      PoolTrans s (.pop i)
        { s with wthrinfo := Function.update s.wthrinfo i { s.wthrinfo i with msgq := q },
                 writers := Function.update s.writers i
                   (WriterPc.go m ((s.wthrinfo i).targets m)) }
  | writeFail {i fd rest m k} (hw : s.writers i = .writing fd rest m k) :
      PoolTrans s (.write i .err)
        { s with writers := Function.update s.writers i (WriterPc.go m rest) }
  | write {i j fd rest m k} (hw : s.writers i = .writing fd rest m k) (hopen : s.closed fd = false) :
      PoolTrans s (.write i (.put j))
        { s with out := Function.update s.out fd (s.out fd ++ chunk m k j),
                 writers := Function.update s.writers i
                   (if k + (chunk m k j).length < m.len.toNat then
                     .writing fd rest m (k + (chunk m k j).length)
                   else WriterPc.go m rest) }
  | reader {i l r r'} (hr : s.readers i = some r) (hstep : r.step l = some r') :
      PoolTrans s (.reader i l)
        { s with readers := Function.update s.readers i (some r'), closed := s.closedBy i r l }

theorem addConn_trans {s s' : Pool} {sock : Fd} {addr : Bytes} (hidle : s.owner = .idle)
    (h : s.addConn sock addr = some s') : PoolTrans s (.addConn sock addr) s' := by
  unfold addConn at h
  split_ifs at h with hrun hfull
  · cases h
    exact .reject hidle trivial
  · cases h
    exact .reject hidle trivial
  · simp only at h
    split at h
    · rename_i w r hw hr
      cases h
      exact .addConn hidle (by simpa using hrun) hfull hw hr
    · cases h

theorem startAll_trans {s : Pool} (wok rok : Nat → Bool) (net : Fd → Conn) (bufs : Nat → Bufs)
    (hidle : s.owner = .idle) :
    PoolTrans s (.startAll wok rok net bufs) (s.startAll wok rok net bufs) := by
  unfold startAll
  split_ifs with hrun
  · exact .reject hidle trivial
  · refine .startAll hidle (by simpa using hrun) ?_ ?_
    · intro i
      by_cases hi : i < s.numThrs ∧ wok i = true
      · exact .inr ⟨hi.1, if_pos hi⟩
      · exact .inl (if_neg hi)
    · intro i
      by_cases hi : i < s.numThrs ∧ rok i = true
      · exact .inr ⟨hi.1, _, if_pos hi⟩
      · exact .inl (if_neg hi)

theorem ownerStep_trans {s s' : Pool} (h : s.ownerStep = some s') : PoolTrans s .owner s' := by
  unfold ownerStep at h
  split at h
  · cases h
  · rename_i p i ho
    split_ifs at h with hi <;> cases h
    · exact .broadcastPush ho hi
    · exact .broadcastEnd ho (Nat.le_of_not_lt hi)
  · rename_i i ho
    split_ifs at h with hi <;> cases h
    · exact .stopPush ho hi
    · exact .stopEnd ho (Nat.le_of_not_lt hi)
  · rename_i i ho
    cases h
    exact .stopClose ho
  · rename_i i ho
    split_ifs at h with hi
    · split at h
      · rename_i hw
        cases h
        exact .joinWriter ho hi hw
      · cases h
    · cases h
      exact .joinEnd ho (Nat.le_of_not_lt hi)
  · rename_i i ho
    split at h
    · rename_i r hr
      split_ifs at h with hpc
      cases h
      exact .joinReader ho hr hpc
    · cases h

theorem popStep_trans {s s' : Pool} {i : Nat} (h : s.popStep i = some s') :
    PoolTrans s (.pop i) s' := by
  unfold popStep at h
  split at h
  · rename_i m q hw hq
    cases h
    cases hm : m.type with
    | exit => exact .popExit hw hq hm
    | write => exact .popWrite hw hq hm
  · cases h

theorem writeStep_trans {s s' : Pool} {i : Nat} {o : WriteOutcome} (h : s.writeStep i o = some s') :
    PoolTrans s (.write i o) s' := by
  unfold writeStep at h
  split at h
  · rename_i fd rest m k hw
    split_ifs at h with hclosed
    cases h
    cases o with
    | err =>
        simp only [Socket.write, List.append_nil, Function.update_eq_self]
        exact .writeFail hw
    | put j =>
        have hopen : s.closed fd = false := by simpa using hclosed
        have hshort : (chunk m k j).length < 2 ^ 31 := by
          refine Nat.lt_of_le_of_lt (List.length_take_le _ _) ?_
          unfold rwMax
          omega
        have hres : Socket.write (m.data.drop k) (m.len.toNat - k) (.put j) =
            (((chunk m k j).length : Int), chunk m k j) := rfl
        simp only [hres, Int32.ofInt_eq_ofNat, if_neg (ofNat_not_neg hshort),
          Int32.toNatClampNeg_ofNat_of_lt hshort]
        exact .write hw hopen
  · cases h

/-- **The steps of the pool are the constructors of `PoolTrans`.** -/
theorem poolTrans_of_step {s s' : Pool} {l : PoolLabel} (h : s.step l = some s') :
    PoolTrans s l s' := by
  unfold step at h
  split at h
  case h_1 hidle => exact addConn_trans hidle h
  case h_2 hidle =>
    cases h
    exact startAll_trans _ _ _ _ hidle
  case h_3 cliid p hidle =>
    cases h
    unfold send
    split_ifs with hrun hc
    · exact .reject hidle trivial
    · exact .reject hidle trivial
    · exact .send hidle (by simpa using hrun) (Nat.lt_of_not_le hc)
  case h_4 thrid p hidle =>
    cases h
    unfold thrBroadcast
    split_ifs with hrun ht
    · exact .reject hidle trivial
    · exact .reject hidle trivial
    · exact .thrBroadcast hidle (by simpa using hrun) (Nat.lt_of_not_le ht)
  case h_5 p hidle =>
    cases h
    unfold broadcast
    split_ifs with hrun
    · exact .reject hidle trivial
    · exact .broadcast hidle (by simpa using hrun)
  case h_6 hidle =>
    cases h
    unfold stopAll
    split_ifs with hrun
    · exact .reject hidle trivial
    · exact .stopAll hidle (by simpa using hrun)
  case h_7 => exact ownerStep_trans h
  case h_8 => exact popStep_trans h
  case h_9 => exact writeStep_trans h
  case h_10 i l _ =>
    unfold readerStep at h
    split at h
    · rename_i r hr
      obtain ⟨r', hstep, rfl⟩ := Option.map_eq_some_iff.mp h
      exact .reader hr hstep
    · cases h
  case h_11 => cases h

end Pool

end CommTest.Socket
