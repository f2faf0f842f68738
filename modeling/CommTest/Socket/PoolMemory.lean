import CommTest.Lib.Machine
import CommTest.Socket.PoolPlacement

/-!
# Does the pool depend on the memory it is placed in?

The fields of `tcpthreadpool` as they lie in memory. The constructor writes them over what was
there before, and the arrays it allocates are as the heap left them until somebody stores into them.

* `ThrMem` and `PoolMem` are the objects with every cell of their arrays, `Prior` what was in the
  memory of the object and of the arrays before. `construct` is the constructor: `none` says that it
  divides by zero or that a `pipe` failed.
* `call` is one of the calls `add_conn`, `start_all`, `send`, `broadcast`, `thr_broadcast`: what it
  returns and which message it queues for which writer. `none` says that it stores outside an array.
* `Agree` relates two pools that differ in the cells nobody has written (and in their pipes);
  `call_agree`: no call tells them apart. `Room` is the invariant under which no call stores outside
  an array.
* `sameRuns_iff` and `independent_iff`: the one field that is read and not written is `num_conns`.
* `Represents` connects these objects with `Pool`: `call_represents` for a call, `construct_refines`
  for whole runs, and `represents_thread` for the threads in between.
-/

set_option linter.unusedSectionVars false

namespace CommTest.Socket

open Mem FairQueue Lts RoundRobin Machine

/-! ## The objects in memory -/

/-- `tcpthrinfo_t`, with all the cells of its array. Source: `threadpool.hpp`, `tcpthrinfo_t`. -/
structure ThrMem where
  thrid : UInt16
  rdfd : Fd
  socks : Nat → Fd
  numSocks : UInt16
  maxSocks : UInt16
  maxSockfd : Fd
  bufsize : UInt32

namespace ThrMem

/-- The default constructor; the array pointer is null. Source: `threadpool.hpp`, `tcpthrinfo_t`. -/
def init : ThrMem where
  thrid := 0
  rdfd := 0
  socks := fun _ => 0
  numSocks := 0
  maxSocks := 0
  maxSockfd := 0
  bufsize := 0

/-- A new array, with what the heap has in its cells. Source: `threadpool.hpp`, `init_socks`. -/
def initSocks (t : ThrMem) (maxSocks : UInt16) (cells : Nat → Fd) : ThrMem :=
  { t with maxSocks := maxSocks, socks := cells }

/-- Source: `threadpool.hpp`, `set_thrid`. -/
def setThrid (t : ThrMem) (thrid : UInt16) : ThrMem := { t with thrid := thrid }

/-- Source: `threadpool.hpp`, `set_buff`. -/
def setBuff (t : ThrMem) (bufsize : UInt32) : ThrMem := { t with bufsize := bufsize }

/-- Source: `threadpool.hpp`, `set_rdfd`. -/
def setRdfd (t : ThrMem) (pipefd : Fd) : ThrMem :=
  { t with rdfd := pipefd, maxSockfd := if t.maxSockfd < pipefd then pipefd else t.maxSockfd }

/-- `none` is the store behind the end of the array, which the assertion after it reports. Source:
`threadpool.hpp`, `tcpthrinfo_t::add_conn`. -/
def addConn (t : ThrMem) (sock : Fd) : Option ThrMem :=
  if t.numSocks < t.maxSocks then
    some { t with socks := Function.update t.socks t.numSocks.toNat sock,
                  numSocks := t.numSocks + 1,
                  maxSockfd := if t.maxSockfd < sock then sock else t.maxSockfd }
  else none

end ThrMem

/-- `tcpthreadpool`, with all the cells of its arrays. Source: `threadpool.hpp`,
`tcpthreadpool`. -/
structure PoolMem where
  numThrs : UInt16
  maxConns : UInt16
  numConns : UInt16
  buffSize : UInt32
  running : Bool
  sockaddrs : Nat → Bytes
  wthrinfo : Nat → ThrMem
  rthrinfo : Nat → ThrMem
  rthrpipe : Nat → Fd

/-- What was in memory before the constructor: in the place of the object, and in the arrays that
are allocated without being set (`sockaddrs`, and the sockets of each thread). -/
structure Prior where
  object : PoolMem
  addrs : Nat → Bytes
  wsocks : Nat → Nat → Fd
  rsocks : Nat → Nat → Fd

/-- A call of the owner. -/
inductive PoolCall
  | addConn (sock : Fd) (addr : Bytes)
  | startAll
  | send (cliid : UInt16) (p : Payload)
  | broadcast (p : Payload)
  | thrBroadcast (thrid : UInt16) (p : Payload)

namespace PoolMem

/-- The size of the array of thread `i`: the first `max_conns % num_thrs` threads have one more. -/
def socksOf (numThrs maxConns : UInt16) (i : Nat) : UInt16 :=
  let connPerThr := maxConns / numThrs
  let connRem := maxConns % numThrs
  if i < connRem.toNat then connPerThr + 1 else connPerThr

/-- The constructor: its division by zero and a failing `pipe` are `none`. It sets every field of
the object but `num_conns`. Source: `threadpool.cpp`, `tcpthreadpool`. -/
def construct (numThrs maxConns : UInt16) (buffSize : UInt32) (prior : Prior)
    (pipes : Nat → Option (Fd × Fd)) : Option PoolMem :=
  if numThrs = 0 then none
  else if ∀ i < numThrs.toNat, (pipes i).isSome then
    some { prior.object with
      numThrs := numThrs,
      maxConns := maxConns,
      buffSize := buffSize,
      running := false,
      sockaddrs := prior.addrs,
      wthrinfo := fun i =>
        ((ThrMem.init.initSocks (socksOf numThrs maxConns i) (prior.wsocks i)).setThrid
          (UInt16.ofNat i)).setBuff buffSize,
      rthrinfo := fun i =>
        (((ThrMem.init.initSocks (socksOf numThrs maxConns i) (prior.rsocks i)).setThrid
          (UInt16.ofNat (i + numThrs.toNat))).setBuff buffSize).setRdfd ((pipes i).getD (0, 0)).1,
      rthrpipe := fun i => ((pipes i).getD (0, 0)).2 }
  else none

/-- What a call gives back: the value it returns, and the messages it pushes with the writer thread
whose queue each goes to. -/
abbrev Result := Int × List (Nat × MsgT)

/-- `none` is a store outside one of the three arrays. Source: `threadpool.cpp`,
`tcpthreadpool::add_conn`. -/
def addConn (s : PoolMem) (sock : Fd) (addr : Bytes) : Option (PoolMem × Result) :=
  if s.running then some (s, -1, [])
  else if s.numConns = s.maxConns then some (s, -1, [])
  else
    let thrid := (s.numConns % s.numThrs).toNat
    match (s.wthrinfo thrid).addConn sock, (s.rthrinfo thrid).addConn sock with
    | some w, some r =>
        if s.numConns < s.maxConns then
          some ({ s with wthrinfo := Function.update s.wthrinfo thrid w,
                         rthrinfo := Function.update s.rthrinfo thrid r,
                         sockaddrs := Function.update s.sockaddrs s.numConns.toNat addr,
                         numConns := s.numConns + 1 },
            s.numConns.toNat, [])
        else none
    | _, _ => none

/-- The errors of `pthread_create` are positive, so the loop never returns. Source:
`threadpool.cpp`, `tcpthreadpool::start_all`. -/
def startAll (s : PoolMem) : PoolMem × Result :=
  if s.running then (s, -1, []) else ({ s with running := true }, 0, [])

/-- Source: `threadpool.cpp`, `tcpthreadpool::thr_broadcast`. -/
def thrBroadcast (s : PoolMem) (thrid : UInt16) (p : Payload) : Result :=
  if s.running = false then (-1, [])
  else if s.numThrs ≤ thrid then (-2, [])
  else (0, [(thrid.toNat, MsgT.ofPayload .write p (-1))])

/-- Source: `threadpool.cpp`, `tcpthreadpool::send`. -/
def send (s : PoolMem) (cliid : UInt16) (p : Payload) : Result :=
  if s.running = false then (-1, [])
  else if s.numConns ≤ cliid then (-2, [])
  else
    (0, [((cliid % s.numThrs).toNat, MsgT.ofPayload .write p (cliid / s.numThrs).toNat)])

/-- Source: `threadpool.cpp`, `tcpthreadpool::broadcast`. -/
def broadcast (s : PoolMem) (p : Payload) : Result :=
  if s.running = false then (-1, [])
  else (0, (List.range s.numThrs.toNat).map fun i => (i, MsgT.ofPayload .write p (-1)))

/-- One call. The sends only queue: they leave the fields as they are. -/
def call (s : PoolMem) : PoolCall → Option (PoolMem × Result)
  | .addConn sock addr => s.addConn sock addr
  | .startAll => some s.startAll
  | .send cliid p => some (s, s.send cliid p)
  | .broadcast p => some (s, s.broadcast p)
  | .thrBroadcast thrid p => some (s, s.thrBroadcast thrid p)

/-! ## The law -/

/-- Every sequence of calls returns in both, with the same values and the same messages for the same
threads and slots. -/
def SameRuns (s s' : PoolMem) : Prop :=
  ∀ calls, ∃ os, outputs call s calls = some os ∧ outputs call s' calls = some os

/-- The pools do not depend on what was in memory: their runs are the same, and the first `add_conn`
returns 0 when there is room for a connection. -/
structure Independent (s s' : PoolMem) : Prop where
  same : SameRuns s s'
  first : 1 ≤ s.maxConns → ∀ sock addr, outputs call s [.addConn sock addr] = some [(0, [])]

/-! ## The two ends of `add_conn` -/

/-- The pool after an `add_conn` that was accepted, with the records of the two threads. -/
def withConn (s : PoolMem) (addr : Bytes) (w r : ThrMem) : PoolMem :=
  let thrid := s.numConns.toNat % s.numThrs.toNat
  { s with wthrinfo := Function.update s.wthrinfo thrid w,
           rthrinfo := Function.update s.rthrinfo thrid r,
           sockaddrs := Function.update s.sockaddrs s.numConns.toNat addr,
           numConns := s.numConns + 1 }

theorem addConn_reject {s : PoolMem} (h : s.running = true ∨ s.numConns = s.maxConns) (sock : Fd)
    (addr : Bytes) : s.addConn sock addr = some (s, -1, []) := by
  unfold addConn
  by_cases hrun : s.running = true
  · rw [if_pos hrun]
  · rw [if_neg hrun, if_pos (h.resolve_left hrun)]

theorem addConn_accept {s : PoolMem} (hrun : s.running = false) (hlt : s.numConns < s.maxConns)
    {sock : Fd} {w r : ThrMem}
    (hw : (s.wthrinfo (s.numConns.toNat % s.numThrs.toNat)).addConn sock = some w)
    (hr : (s.rthrinfo (s.numConns.toNat % s.numThrs.toNat)).addConn sock = some r) (addr : Bytes) :
    s.addConn sock addr = some (s.withConn addr w r, (s.numConns.toNat : Int), []) := by
  have hne : s.numConns ≠ s.maxConns := fun h => UInt16.lt_irrefl _ (h ▸ hlt)
  simp only [addConn, hrun, if_neg hne, UInt16.toNat_mod, hw, hr, if_pos hlt, withConn,
    Bool.false_eq_true, if_false]

/-- An `add_conn` that returns is one of the two. -/
theorem addConn_eq_some {s t : PoolMem} {sock : Fd} {addr : Bytes} {o : Result}
    (h : s.addConn sock addr = some (t, o)) :
    ((s.running = true ∨ s.numConns = s.maxConns) ∧ t = s ∧ o = (-1, [])) ∨
    (s.running = false ∧ s.numConns < s.maxConns ∧ ∃ w r,
      (s.wthrinfo (s.numConns.toNat % s.numThrs.toNat)).addConn sock = some w ∧
      (s.rthrinfo (s.numConns.toNat % s.numThrs.toNat)).addConn sock = some r ∧
      t = s.withConn addr w r ∧ o = ((s.numConns.toNat : Int), [])) := by
  by_cases hrej : s.running = true ∨ s.numConns = s.maxConns
  · rw [addConn_reject hrej] at h
    cases h
    exact .inl ⟨hrej, rfl, rfl⟩
  · obtain ⟨hrun, hfull⟩ := not_or.mp hrej
    simp only [addConn, if_neg hrun, if_neg hfull, UInt16.toNat_mod] at h
    split at h
    · rename_i w r hw hr
      split_ifs at h with hlt
      cases h
      exact .inr ⟨by simpa using hrun, hlt, w, r, hw, hr, rfl, rfl⟩
    · cases h

/-! ## No call sees the cells that nobody has written -/

/-- Two thread records with the same counters. -/
structure ThrAgree (t u : ThrMem) : Prop where
  numSocks : t.numSocks = u.numSocks
  maxSocks : t.maxSocks = u.maxSocks

/-- Two pools that agree on everything the calls test. -/
structure Agree (s s' : PoolMem) : Prop where
  numThrs : s.numThrs = s'.numThrs
  maxConns : s.maxConns = s'.maxConns
  numConns : s.numConns = s'.numConns
  running : s.running = s'.running
  wthrinfo : ∀ i, ThrAgree (s.wthrinfo i) (s'.wthrinfo i)
  rthrinfo : ∀ i, ThrAgree (s.rthrinfo i) (s'.rthrinfo i)

theorem ThrAgree.addConn {t u : ThrMem} (h : ThrAgree t u) (sock : Fd) :
    Option.Rel ThrAgree (t.addConn sock) (u.addConn sock) := by
  unfold ThrMem.addConn
  rw [h.numSocks, h.maxSocks]
  by_cases hroom : u.numSocks < u.maxSocks
  · rw [if_pos hroom, if_pos hroom]
    exact .some ⟨rfl, rfl⟩
  · rw [if_neg hroom, if_neg hroom]
    exact .none

theorem thrAgree_update {f g : Nat → ThrMem} (hf : ∀ i, ThrAgree (f i) (g i)) {t u : ThrMem}
    (ht : ThrAgree t u) (i j : Nat) :
    ThrAgree (Function.update f i t j) (Function.update g i u j) := by
  by_cases hj : j = i
  · subst hj
    rw [Function.update_self, Function.update_self]
    exact ht
  · rw [Function.update_of_ne hj, Function.update_of_ne hj]
    exact hf j

/-- The two pools give the same back and still agree. -/
abbrev Alike : Option (PoolMem × Result) → Option (PoolMem × Result) → Prop :=
  Option.Rel fun x y => Agree x.1 y.1 ∧ x.2 = y.2

theorem Agree.addConn {s s' : PoolMem} (h : Agree s s') (sock : Fd) (addr : Bytes) :
    Alike (s.addConn sock addr) (s'.addConn sock addr) := by
  unfold PoolMem.addConn
  rw [h.running, h.numConns, h.maxConns, h.numThrs]
  have hw := (h.wthrinfo (s'.numConns % s'.numThrs).toNat).addConn sock
  have hr := (h.rthrinfo (s'.numConns % s'.numThrs).toNat).addConn sock
  split_ifs with hrun hfull hlt
  · exact .some ⟨h, rfl⟩
  · exact .some ⟨h, rfl⟩
  -- the two threads have room in both pools or in neither
  all_goals
    simp only
    generalize (s.wthrinfo _).addConn sock = w at hw ⊢
    generalize (s'.wthrinfo _).addConn sock = w' at hw ⊢
    generalize (s.rthrinfo _).addConn sock = r at hr ⊢
    generalize (s'.rthrinfo _).addConn sock = r' at hr ⊢
  · cases hw with
    | none => exact .none
    | some hw =>
        cases hr with
        | none => exact .none
        | some hr =>
            refine .some ⟨⟨rfl, rfl, rfl, rfl, ?_, ?_⟩, rfl⟩
            · exact thrAgree_update h.wthrinfo hw _
            · exact thrAgree_update h.rthrinfo hr _
  · cases hw <;> cases hr <;> exact .none

/-- **No call tells two such pools apart.** -/
theorem call_agree (s s' : PoolMem) (c : PoolCall) (h : Agree s s') :
    Alike (s.call c) (s'.call c) := by
  cases c with
  | addConn sock addr => exact h.addConn sock addr
  | startAll =>
      simp only [call, startAll, h.running]
      split_ifs
      · exact .some ⟨h, rfl⟩
      · exact .some ⟨{ h with running := rfl }, rfl⟩
  | send cliid p =>
      refine .some ⟨h, ?_⟩
      simp only [send, h.running, h.numConns, h.numThrs]
  | broadcast p =>
      refine .some ⟨h, ?_⟩
      simp only [broadcast, h.running, h.numThrs]
  | thrBroadcast thrid p =>
      refine .some ⟨h, ?_⟩
      simp only [thrBroadcast, h.running, h.numThrs]

/-- What the constructor leaves. -/
theorem construct_eq_some {numThrs maxConns : UInt16} {buffSize : UInt32} {prior : Prior}
    {pipes : Nat → Option (Fd × Fd)} {s : PoolMem}
    (h : construct numThrs maxConns buffSize prior pipes = some s) :
    numThrs ≠ 0 ∧ (∀ i < numThrs.toNat, (pipes i).isSome) ∧ s.numThrs = numThrs ∧
      s.maxConns = maxConns ∧ s.numConns = prior.object.numConns ∧ s.buffSize = buffSize ∧
      s.running = false ∧
      (s.wthrinfo = fun i =>
        ((ThrMem.init.initSocks (socksOf numThrs maxConns i) (prior.wsocks i)).setThrid
          (UInt16.ofNat i)).setBuff buffSize) ∧
      (s.rthrinfo = fun i =>
        (((ThrMem.init.initSocks (socksOf numThrs maxConns i) (prior.rsocks i)).setThrid
          (UInt16.ofNat (i + numThrs.toNat))).setBuff buffSize).setRdfd
            ((pipes i).getD (0, 0)).1) := by
  unfold construct at h
  split_ifs at h with hz hp
  cases h
  exact ⟨hz, hp, rfl, rfl, rfl, rfl, rfl, rfl, rfl⟩

/-- Two constructions with the same arguments and one value in `num_conns` agree. -/
theorem construct_agree {numThrs maxConns : UInt16} {buffSize : UInt32} {prior prior' : Prior}
    {pipes pipes' : Nat → Option (Fd × Fd)} {s s' : PoolMem}
    (h : construct numThrs maxConns buffSize prior pipes = some s)
    (h' : construct numThrs maxConns buffSize prior' pipes' = some s')
    (hconns : prior.object.numConns = prior'.object.numConns) : Agree s s' := by
  obtain ⟨-, -, hn, hm, hc, -, hrun, hw, hr⟩ := construct_eq_some h
  obtain ⟨-, -, hn', hm', hc', -, hrun', hw', hr'⟩ := construct_eq_some h'
  constructor
  case numThrs => rw [hn, hn']
  case maxConns => rw [hm, hm']
  case numConns => rw [hc, hc', hconns]
  case running => rw [hrun, hrun']
  case wthrinfo =>
    rw [hw, hw']
    exact fun i => ⟨rfl, rfl⟩
  case rthrinfo =>
    rw [hr, hr']
    exact fun i => ⟨rfl, rfl⟩

/-! ## No call stores outside an array -/

theorem toNat_socksOf {numThrs : UInt16} (hpos : 0 < numThrs.toNat) (maxConns : UInt16) (i : Nat) :
    (socksOf numThrs maxConns i).toNat = share numThrs.toNat maxConns.toNat i := by
  unfold socksOf share
  simp only [UInt16.toNat_mod]
  split_ifs with hrem
  · -- a remainder needs at least two threads, so the quotient plus one does not wrap
    have htwo : 2 ≤ numThrs.toNat := by
      have := Nat.mod_lt maxConns.toNat hpos
      omega
    have hdiv : maxConns.toNat / numThrs.toNat ≤ maxConns.toNat / 2 :=
      Nat.div_le_div_left htwo (by decide)
    have hwidth := maxConns.toNat_lt
    rw [UInt16.toNat_add, UInt16.toNat_div]
    exact Nat.mod_eq_of_lt (by simp only [UInt16.toNat_one]; omega)
  · exact UInt16.toNat_div _ _

/-- The record of thread `i` of `n`, in a pool for `m` connections that began to count at `k` and
has come to `c`: the connections from `k` on that were its turn. -/
structure ThrRoom (n m k c i : Nat) (t : ThrMem) : Prop where
  size : t.maxSocks.toNat = share n m i
  filled : t.numSocks.toNat + share n k i = share n c i

/-- A pool that began to count at `k` and has not come past its arrays. -/
structure Room (k : Nat) (s : PoolMem) : Prop where
  pos : 0 < s.numThrs.toNat
  room : s.numConns.toNat ≤ s.maxConns.toNat
  wthrinfo : ∀ i < s.numThrs.toNat,
    ThrRoom s.numThrs.toNat s.maxConns.toNat k s.numConns.toNat i (s.wthrinfo i)
  rthrinfo : ∀ i < s.numThrs.toNat,
    ThrRoom s.numThrs.toNat s.maxConns.toNat k s.numConns.toNat i (s.rthrinfo i)

/-- The thread whose turn it is has a cell for the socket. -/
theorem ThrRoom.addConn {n m k c : Nat} {t : ThrMem} (hn : 0 < n) (hc : c < m)
    (ht : ThrRoom n m k c (c % n) t) (sock : Fd) :
    ∃ u, t.addConn sock = some u ∧ ThrRoom n m k (c + 1) (c % n) u := by
  have hi := Nat.mod_lt c hn
  have hnext := share_succ (m := c) hi
  rw [if_pos rfl] at hnext
  have hle := share_mono hi (Nat.succ_le_of_lt hc)
  have hsize := ht.size
  have hfilled := ht.filled
  have hlt : t.numSocks.toNat < t.maxSocks.toNat := by
    rw [Nat.succ_eq_add_one] at hle
    omega
  refine ⟨_, if_pos (UInt16.lt_iff_toNat_lt.mpr hlt), hsize, ?_⟩
  have hwidth := t.maxSocks.toNat_lt
  show (t.numSocks + 1).toNat + share n k (c % n) = share n (c + 1) (c % n)
  rw [UInt16.toNat_add, UInt16.toNat_one, Nat.mod_eq_of_lt (by omega)]
  omega

/-- The other threads are not concerned. -/
theorem ThrRoom.of_ne {n m k c i : Nat} {t : ThrMem} (hi : i < n) (hne : i ≠ c % n)
    (ht : ThrRoom n m k c i t) : ThrRoom n m k (c + 1) i t := by
  refine ⟨ht.size, ?_⟩
  rw [share_succ hi, if_neg hne, ht.filled, Nat.add_zero]

theorem thrRoom_update {n m k c : Nat} {f : Nat → ThrMem} {u : ThrMem}
    (hf : ∀ i < n, ThrRoom n m k c i (f i)) (hu : ThrRoom n m k (c + 1) (c % n) u) :
    ∀ i < n, ThrRoom n m k (c + 1) i (Function.update f (c % n) u i) := by
  intro i hi
  by_cases hne : i = c % n
  · rw [hne, Function.update_self]
    exact hu
  · rw [Function.update_of_ne hne]
    exact (hf i hi).of_ne hi hne

/-- **Every call returns and keeps the room.** -/
theorem call_room {k : Nat} (s : PoolMem) (c : PoolCall) (hs : s.Room k) :
    ∃ t o, s.call c = some (t, o) ∧ t.Room k := by
  cases c with
  | addConn sock addr =>
      by_cases hrej : s.running = true ∨ s.numConns = s.maxConns
      · exact ⟨s, _, addConn_reject hrej sock addr, hs⟩
      obtain ⟨hrun, hfull⟩ := not_or.mp hrej
      have hroom := hs.room
      have hlt : s.numConns.toNat < s.maxConns.toNat := by
        have hne : s.numConns.toNat ≠ s.maxConns.toNat := fun h => hfull (UInt16.toNat_inj.mp h)
        omega
      have hi := Nat.mod_lt s.numConns.toNat hs.pos
      obtain ⟨w, hw, hwroom⟩ := (hs.wthrinfo _ hi).addConn hs.pos hlt sock
      obtain ⟨r, hr, hrroom⟩ := (hs.rthrinfo _ hi).addConn hs.pos hlt sock
      have hwidth := s.maxConns.toNat_lt
      have hcount : (s.numConns + 1).toNat = s.numConns.toNat + 1 := by
        rw [UInt16.toNat_add, UInt16.toNat_one, Nat.mod_eq_of_lt (by omega)]
      have hidle : s.running = false := by simpa using hrun
      refine ⟨_, _, addConn_accept hidle (UInt16.lt_iff_toNat_lt.mpr hlt) hw hr addr, hs.pos,
        ?_, ?_, ?_⟩
      · rw [withConn, hcount]
        exact hlt
      · rw [withConn, hcount]
        exact thrRoom_update hs.wthrinfo hwroom
      · rw [withConn, hcount]
        exact thrRoom_update hs.rthrinfo hrroom
  | startAll =>
      simp only [call, startAll]
      split_ifs
      · exact ⟨s, _, rfl, hs⟩
      · exact ⟨_, _, rfl, hs.pos, hs.room, hs.wthrinfo, hs.rthrinfo⟩
  | send cliid p => exact ⟨s, _, rfl, hs⟩
  | broadcast p => exact ⟨s, _, rfl, hs⟩
  | thrBroadcast thrid p => exact ⟨s, _, rfl, hs⟩

theorem room_construct {numThrs maxConns : UInt16} {buffSize : UInt32} {prior : Prior}
    {pipes : Nat → Option (Fd × Fd)} {s : PoolMem}
    (h : construct numThrs maxConns buffSize prior pipes = some s)
    (hle : prior.object.numConns ≤ maxConns) : s.Room prior.object.numConns.toNat := by
  obtain ⟨hz, -, hn, hm, hc, -, -, hw, hr⟩ := construct_eq_some h
  have hpos : 0 < numThrs.toNat := Nat.pos_of_ne_zero fun h => hz (UInt16.toNat_inj.mp h)
  have hempty : ∀ i t, t.maxSocks = socksOf numThrs maxConns i → t.numSocks = 0 →
      ThrRoom s.numThrs.toNat s.maxConns.toNat prior.object.numConns.toNat s.numConns.toNat i
        t := by
    intro i t hsize hzero
    rw [hn, hm, hc]
    refine ⟨by rw [hsize, toNat_socksOf hpos], ?_⟩
    rw [hzero, UInt16.toNat_zero, Nat.zero_add]
  constructor
  case pos => exact hn ▸ hpos
  case room =>
    rw [hc, hm]
    exact UInt16.le_iff_toNat_le.mp hle
  case wthrinfo =>
    intro i _
    rw [hw]
    exact hempty i _ rfl rfl
  case rthrinfo =>
    intro i _
    rw [hr]
    exact hempty i _ rfl rfl

/-! ## The memory that matters -/

theorem SameRuns.symm {s s' : PoolMem} (h : SameRuns s s') : SameRuns s' s := by
  intro calls
  obtain ⟨os, hos, hos'⟩ := h calls
  exact ⟨os, hos', hos⟩

/-- A send to client `c`, right after the start, tells whether `num_conns` is above `c`. -/
theorem outputs_send {s : PoolMem} (hrun : s.running = false) (c : UInt16) (p : Payload) :
    outputs call s [.startAll, .send c p] =
      some [(0, []), { s with running := true }.send c p] := by
  have hstart : s.call .startAll = some ({ s with running := true }, 0, []) := by
    simp only [call, startAll, hrun, Bool.false_eq_true, if_false]
  rw [outputs_cons_of_some hstart, outputs_singleton]
  rfl

theorem SameRuns.numConns_le {s s' : PoolMem} (hrun : s.running = false)
    (hrun' : s'.running = false) (h : SameRuns s s') : s'.numConns ≤ s.numConns := by
  -- the send to client `num_conns` of the first pool is refused there
  obtain ⟨os, hos, hos'⟩ := h [.startAll, .send s.numConns ⟨[], by decide⟩]
  rw [outputs_send hrun] at hos
  rw [outputs_send hrun', ← hos] at hos'
  simp only [Option.some.injEq, List.cons.injEq, and_true, true_and] at hos'
  by_contra hlt
  have hrefused : { s with running := true }.send s.numConns ⟨[], by decide⟩ = (-2, []) := by
    simp only [send, Bool.true_eq_false, if_false, if_pos (UInt16.le_refl _)]
  rw [hrefused] at hos'
  simp only [send, Bool.true_eq_false, if_false, if_neg hlt, Prod.mk.injEq] at hos'
  exact absurd hos'.1 (by decide)

/-- An `add_conn` right after the constructor returns only when `num_conns` is not beyond the
arrays. -/
theorem numConns_le_of_addConn {s t : PoolMem} {sock : Fd} {addr : Bytes} {o : Result}
    (hrun : s.running = false) (h : s.addConn sock addr = some (t, o)) :
    s.numConns ≤ s.maxConns := by
  rcases addConn_eq_some h with ⟨hrej, -⟩ | ⟨-, hlt, -⟩
  · rcases hrej with hrej | hrej
    · rw [hrun] at hrej
      cases hrej
    · rw [hrej]
      exact UInt16.le_refl _
  · exact UInt16.le_of_lt hlt

section

variable {numThrs maxConns : UInt16} {buffSize : UInt32} {prior prior' : Prior}
  {pipes pipes' : Nat → Option (Fd × Fd)} {s s' : PoolMem}

/-- **The runs are the same exactly when `num_conns` held one value**, and one that is not beyond
the arrays. -/
theorem sameRuns_iff (h : construct numThrs maxConns buffSize prior pipes = some s)
    (h' : construct numThrs maxConns buffSize prior' pipes' = some s') :
    SameRuns s s' ↔
      prior.object.numConns = prior'.object.numConns ∧ prior.object.numConns ≤ maxConns := by
  obtain ⟨-, -, -, hm, hc, -, hrun, -, -⟩ := construct_eq_some h
  obtain ⟨-, -, -, hm', hc', -, hrun', -, -⟩ := construct_eq_some h'
  constructor
  · intro hsame
    constructor
    · rw [← hc, ← hc']
      exact UInt16.le_antisymm (hsame.symm.numConns_le hrun' hrun) (hsame.numConns_le hrun hrun')
    · obtain ⟨os, hos, -⟩ := hsame [.addConn 0 []]
      rw [outputs_singleton, Option.map_eq_some_iff] at hos
      obtain ⟨⟨t, o⟩, hcall, -⟩ := hos
      rw [← hc, ← hm]
      exact numConns_le_of_addConn hrun hcall
  · rintro ⟨hconns, hle⟩ calls
    obtain ⟨os, hos⟩ := exists_outputs call_room (room_construct h hle) calls
    exact ⟨os, hos, outputs_eq_of_agree call_agree (construct_agree h h' hconns) calls ▸ hos⟩

/-- The first `add_conn` of a pool whose memory held 0. -/
theorem outputs_first (h : construct numThrs maxConns buffSize prior pipes = some s)
    (hzero : prior.object.numConns = 0) (hmax : 1 ≤ maxConns) (sock : Fd) (addr : Bytes) :
    outputs call s [.addConn sock addr] = some [(0, [])] := by
  obtain ⟨-, -, -, hm, hc, -, hrun, -, -⟩ := construct_eq_some h
  have hle : prior.object.numConns ≤ maxConns := by
    rw [hzero]
    exact UInt16.zero_le
  obtain ⟨t, o, hcall, -⟩ := call_room s (.addConn sock addr) (room_construct h hle)
  rw [outputs_singleton, hcall]
  rcases addConn_eq_some hcall with ⟨hrej, -⟩ | ⟨-, -, w, r, -, -, -, ho⟩
  · rcases hrej with hrej | hrej
    · rw [hrun] at hrej
      cases hrej
    · rw [hc, hzero, hm] at hrej
      rw [← hrej] at hmax
      exact absurd hmax (by decide)
  · rw [ho, hc, hzero]
    rfl

/-- **The pool does not depend on prior memory exactly when `num_conns` happened to be 0**: for any
two constructions with the same arguments, in memory of any contents, every sequence of calls gives
the same values and queues the same messages in both, and the first `add_conn` returns 0 when there
is room, if and only if both found 0 in the field that the constructor does not set. -/
theorem independent_iff (h : construct numThrs maxConns buffSize prior pipes = some s)
    (h' : construct numThrs maxConns buffSize prior' pipes' = some s') :
    Independent s s' ↔ prior.object.numConns = 0 ∧ prior'.object.numConns = 0 := by
  obtain ⟨-, -, -, hm, hc, -, hrun, -, -⟩ := construct_eq_some h
  constructor
  · rintro ⟨hsame, hfirst⟩
    obtain ⟨hconns, hle⟩ := (sameRuns_iff h h').mp hsame
    have hzero : prior.object.numConns = 0 := by
      rw [hm] at hfirst
      by_cases hmax : 1 ≤ maxConns
      · have hout := hfirst hmax 0 []
        rw [outputs_singleton, Option.map_eq_some_iff] at hout
        obtain ⟨⟨t, o⟩, hcall, ho⟩ := hout
        cases ho
        rcases addConn_eq_some hcall with ⟨-, -, ho⟩ | ⟨-, -, w, r, -, -, -, ho⟩
        · cases ho
        · rw [hc, Prod.mk.injEq] at ho
          exact UInt16.toNat_inj.mp (Int.ofNat.inj ho.1).symm
      · -- no room at all: `num_conns` is not beyond `max_conns`, which is 0
        have hmax' : ¬ 1 ≤ maxConns.toNat := fun h => hmax (UInt16.le_iff_toNat_le.mpr h)
        have hle' := UInt16.le_iff_toNat_le.mp hle
        refine UInt16.toNat_inj.mp ?_
        rw [UInt16.toNat_zero]
        omega
    exact ⟨hzero, hconns ▸ hzero⟩
  · rintro ⟨hzero, hzero'⟩
    refine ⟨(sameRuns_iff h h').mpr ⟨hzero.trans hzero'.symm, ?_⟩, ?_⟩
    · rw [hzero]
      exact UInt16.zero_le
    · intro hmax sock addr
      rw [hm] at hmax
      exact outputs_first h hzero hmax sock addr

end

/-- Memory with `c` in the place of `num_conns` and `x` in the others. -/
def leftOver (x c : UInt16) : Prior where
  object :=
    { numThrs := x, maxConns := x, numConns := c, buffSize := x.toUInt32, running := true,
      sockaddrs := fun _ => [], wthrinfo := fun _ => ThrMem.init, rthrinfo := fun _ => ThrMem.init,
      rthrpipe := fun _ => 0 }
  addrs := fun _ => [x.toUInt8]
  wsocks := fun _ _ => x.toNat
  rsocks := fun _ _ => x.toNat

/-- Two pools of two threads and three connections in memory that differs everywhere but in
`num_conns`, which is 0. -/
theorem independent_zero :
    ∃ s s', construct 2 3 16 (leftOver 9 0) (fun i => some (i + 3, i + 4)) = some s ∧
      construct 2 3 16 (leftOver 7 0) (fun i => some (i + 5, i + 6)) = some s' ∧
      Independent s s' := by
  obtain ⟨s, hs⟩ : ∃ s, construct 2 3 16 (leftOver 9 0) (fun i => some (i + 3, i + 4)) = some s :=
    ⟨_, rfl⟩
  obtain ⟨s', hs'⟩ : ∃ s, construct 2 3 16 (leftOver 7 0) (fun i => some (i + 5, i + 6)) = some s :=
    ⟨_, rfl⟩
  exact ⟨s, s', hs, hs', (independent_iff hs hs').mpr ⟨rfl, rfl⟩⟩

/-- The same pool where `num_conns` happened to be 0 and where it happened to be 1: the first
connection is number 0 in one and number 1 in the other. -/
theorem not_independent_one :
    ∃ s s', construct 2 3 16 (leftOver 9 0) (fun i => some (i + 3, i + 4)) = some s ∧
      construct 2 3 16 (leftOver 9 1) (fun i => some (i + 3, i + 4)) = some s' ∧
      outputs call s [.addConn 5 []] = some [(0, [])] ∧
      outputs call s' [.addConn 5 []] = some [(1, [])] ∧ ¬ Independent s s' := by
  refine ⟨_, _, rfl, rfl, rfl, rfl, ?_⟩
  intro hind
  obtain ⟨os, hos, hos'⟩ := hind.same [.addConn 5 []]
  cases hos
  cases hos'

/-! ## The same pool as a transition system -/

/-- A record of `Pool` for a record in memory: the filled part of the array, and the counters. -/
structure ThrRep (t : ThrMem) (u : ThrInfo) : Prop where
  rdfd : u.rdfd = t.rdfd
  socks : u.socks = (List.range t.numSocks.toNat).map t.socks
  maxSocks : u.maxSocks = t.maxSocks.toNat
  maxSockfd : u.maxSockfd = t.maxSockfd

/-- A state of `Pool`, between two calls, for a pool in memory. -/
structure Represents (m : PoolMem) (s : Pool) : Prop where
  pos : 0 < m.numThrs.toNat
  owner : s.owner = .idle
  numThrs : s.numThrs = m.numThrs.toNat
  maxConns : s.maxConns = m.maxConns.toNat
  numConns : s.numConns = m.numConns.toNat
  buffSize : s.buffSize = m.buffSize
  running : s.running = m.running
  wthrinfo : ∀ i < m.numThrs.toNat, ThrRep (m.wthrinfo i) (s.wthrinfo i)
  rthrinfo : ∀ i < m.numThrs.toNat, ThrRep (m.rthrinfo i) (s.rthrinfo i)

theorem construct_represents {numThrs maxConns : UInt16} {buffSize : UInt32} {prior : Prior}
    {pipes : Nat → Option (Fd × Fd)} {m : PoolMem}
    (h : construct numThrs maxConns buffSize prior pipes = some m) :
    Represents m (Pool.construct numThrs maxConns buffSize (fun i => ((pipes i).getD (0, 0)).1)
      prior.object.numConns.toNat) := by
  obtain ⟨hz, -, hn, hm, hc, hb, hrun, hw, hr⟩ := construct_eq_some h
  have hpos : 0 < numThrs.toNat := Nat.pos_of_ne_zero fun h => hz (UInt16.toNat_inj.mp h)
  constructor
  case pos => exact hn ▸ hpos
  case owner => rfl
  case numThrs => rw [hn]; rfl
  case maxConns => rw [hm]; rfl
  case numConns => rw [hc]; rfl
  case buffSize => rw [hb]; rfl
  case running => rw [hrun]; rfl
  case wthrinfo =>
    intro i _
    rw [hw]
    exact ⟨rfl, rfl, (toNat_socksOf hpos maxConns i).symm, rfl⟩
  case rthrinfo =>
    intro i _
    rw [hr]
    exact ⟨rfl, rfl, (toNat_socksOf hpos maxConns i).symm, rfl⟩

/-- The socket goes behind the ones in the array. -/
theorem ThrRep.addConn {t t' : ThrMem} {u : ThrInfo} (h : ThrRep t u) {sock : Fd}
    (ht : t.addConn sock = some t') : ∃ u', u.addConn sock = some u' ∧ ThrRep t' u' := by
  rw [ThrMem.addConn, Option.ite_none_right_eq_some] at ht
  obtain ⟨hroom, ht⟩ := ht
  cases ht
  have hlt := UInt16.lt_iff_toNat_lt.mp hroom
  have hwidth := t.maxSocks.toNat_lt
  have hcount : (t.numSocks + 1).toNat = t.numSocks.toNat + 1 := by
    rw [UInt16.toNat_add, UInt16.toNat_one, Nat.mod_eq_of_lt (by omega)]
  have hlen : u.socks.length = t.numSocks.toNat := by
    rw [h.socks, List.length_map, List.length_range]
  refine ⟨_, if_pos (by rw [hlen, h.maxSocks]; exact hlt), h.rdfd, ?_, h.maxSocks, ?_⟩
  · simp only [hcount, List.range_succ, List.map_append, List.map_singleton, Function.update_self,
      h.socks, List.append_cancel_right_eq]
    apply List.map_congr_left
    intro k hk
    rw [Function.update_of_ne (Nat.ne_of_lt (List.mem_range.mp hk))]
  · simp only [h.maxSockfd]

/-- Both kinds of update at one thread. -/
theorem thrRep_update {n i : Nat} {f : Nat → ThrMem} {g : Nat → ThrInfo} {t : ThrMem} {u : ThrInfo}
    (hf : ∀ j < n, ThrRep (f j) (g j)) (ht : ThrRep t u) :
    ∀ j < n, ThrRep (Function.update f i t j) (Function.update g i u j) := by
  intro j hj
  by_cases hji : j = i
  · subst hji
    rw [Function.update_self, Function.update_self]
    exact ht
  · rw [Function.update_of_ne hji, Function.update_of_ne hji]
    exact hf j hj

/-- The call as a label of `Pool`, with what `start_all` finds. -/
def callLabel (wok rok : Nat → Bool) (net : Fd → Conn) (bufs : Nat → Bufs) : PoolCall → PoolLabel
  | .addConn sock addr => .addConn sock addr
  | .startAll => .startAll wok rok net bufs
  | .send cliid p => .send cliid.toNat p
  | .broadcast p => .broadcast p
  | .thrBroadcast thrid p => .thrBroadcast thrid.toNat p

section

variable {m : PoolMem} {s s' : Pool}

/-- A call that returns `v` and queues what is in `o`. -/
structure Returned (m : PoolMem) (s s' : Pool) (o : Result) : Prop where
  rep : Represents m s'
  rets : s'.rets = s.rets ++ [o.1]
  queues : ∀ i, (s'.wthrinfo i).msgq = (s.wthrinfo i).msgq ++ pipe i o.2

theorem Represents.ret (h : Represents m s) (v : Int) : Returned m s (s.ret v) (v, []) where
  rep := { h with owner := rfl }
  rets := rfl
  queues _ := (List.append_nil _).symm

/-- The queues of the writers are not part of what is represented. -/
theorem Represents.requeue (h : Represents m s) (i : Nat) (hi : i < m.numThrs.toNat)
    (q : List MsgT) :
    Represents m
      { s with wthrinfo := Function.update s.wthrinfo i { s.wthrinfo i with msgq := q } } := by
  refine { h with wthrinfo := ?_ }
  have ht := h.wthrinfo i hi
  have hsame := thrRep_update (i := i) h.wthrinfo (t := m.wthrinfo i)
    (u := { s.wthrinfo i with msgq := q }) ⟨ht.rdfd, ht.socks, ht.maxSocks, ht.maxSockfd⟩
  rwa [Function.update_eq_self] at hsame

theorem Represents.push (h : Represents m s) {i : Nat} (hi : i < m.numThrs.toNat) (msg : MsgT) :
    Represents m (s.push i msg) :=
  h.requeue i hi _

theorem queues_push (s : Pool) (i : Nat) (msg : MsgT) (j : Nat) :
    ((s.push i msg).wthrinfo j).msgq = (s.wthrinfo j).msgq ++ pipe j [(i, msg)] := by
  have hw : (s.push i msg).wthrinfo j =
      if j = i then (s.wthrinfo i).enqueue msg else s.wthrinfo j := Function.update_apply _ _ _ _
  rw [hw]
  by_cases hji : j = i
  · subst hji
    simp [ThrInfo.enqueue]
  · have hij : i ≠ j := fun h => hji h.symm
    simp [hij, hji]

/-- A call that queues one message and returns 0. -/
theorem Represents.pushRet (h : Represents m s) (calls : List Call) {i : Nat}
    (hi : i < m.numThrs.toNat) (msg : MsgT) :
    Returned m s (({ s with calls := calls }.push i msg).ret 0) (0, [(i, msg)]) where
  rep := { (h.push hi msg) with owner := rfl }
  rets := rfl
  queues j := queues_push s i msg j

/-- The loop of `broadcast`, from thread `i` on. -/
theorem exec_broadcasting (p : Payload) (k : Nat) :
    ∀ (s : Pool) (i : Nat), s.owner = .broadcasting p i → i + k = s.numThrs →
      Represents m { s with owner := .idle } →
      ∃ s', exec Pool.step s (List.replicate (k + 1) .owner) = some s' ∧
        Returned m s s'
          (0, (List.range' i k).map fun j => (j, MsgT.ofPayload .write p (-1))) := by
  induction k with
  | zero =>
      intro s i ho hk hrep
      have hstep : s.step .owner = some (s.ret 0) := by
        simp only [Pool.step, Pool.ownerStep, ho, if_neg (show ¬ i < s.numThrs by omega)]
      refine ⟨s.ret 0, exec_cons_eq_some.mpr ⟨_, hstep, rfl⟩, ?_⟩
      exact ⟨{ hrep with owner := rfl }, rfl, fun _ => (List.append_nil _).symm⟩
  | succ k ih =>
      intro s i ho hk hrep
      have hstep : s.step .owner = some { s.push i (MsgT.ofPayload .write p (-1)) with
          owner := .broadcasting p (i + 1) } := by
        simp only [Pool.step, Pool.ownerStep, ho, if_pos (show i < s.numThrs by omega)]
      have hi : i < m.numThrs.toNat := by
        have hn : s.numThrs = m.numThrs.toNat := hrep.numThrs
        omega
      obtain ⟨s', hrun, hret⟩ := ih
        { s.push i (MsgT.ofPayload .write p (-1)) with owner := .broadcasting p (i + 1) } (i + 1)
        rfl (show i + 1 + k = s.numThrs by omega) (hrep.push hi (MsgT.ofPayload .write p (-1)))
      refine ⟨s', exec_cons_eq_some.mpr ⟨_, hstep, hrun⟩, hret.rep, hret.rets, fun j => ?_⟩
      have hqueue := queues_push s i (MsgT.ofPayload .write p (-1)) j
      rw [hret.queues j]
      show ((s.push i _).wthrinfo j).msgq ++ _ = _
      rw [hqueue, List.append_assoc, ← pipe_append]
      rfl

theorem msgq_addConn {t u : ThrInfo} {sock : Fd} (h : t.addConn sock = some u) :
    u.msgq = t.msgq := by
  rw [ThrInfo.addConn, Option.ite_none_right_eq_some] at h
  obtain ⟨-, h⟩ := h
  cases h
  rfl

theorem addConn_represents {m' : PoolMem} (h : Represents m s) {sock : Fd} {addr : Bytes}
    {o : Result} (hc : m.addConn sock addr = some (m', o)) :
    ∃ s', s.addConn sock addr = some s' ∧ Returned m' s s' o := by
  rcases addConn_eq_some hc with ⟨hrej, rfl, rfl⟩ | ⟨hrun, hlt, w, r, hw, hr, rfl, rfl⟩
  · refine ⟨s.ret (-1), ?_, h.ret (-1)⟩
    rw [Pool.addConn, h.running, h.numConns, h.maxConns]
    rcases hrej with hrej | hrej
    · rw [if_pos hrej]
    · rw [hrej, if_pos rfl, ite_self]
  · have hi := Nat.mod_lt m.numConns.toNat h.pos
    obtain ⟨w', hw', hwrep⟩ := (h.wthrinfo _ hi).addConn hw
    obtain ⟨r', hr', hrrep⟩ := (h.rthrinfo _ hi).addConn hr
    have hlt := UInt16.lt_iff_toNat_lt.mp hlt
    refine ⟨{ s with
      wthrinfo := Function.update s.wthrinfo (m.numConns.toNat % m.numThrs.toNat) w',
      rthrinfo := Function.update s.rthrinfo (m.numConns.toNat % m.numThrs.toNat) r',
      sockaddrs := Function.update s.sockaddrs m.numConns.toNat (some addr),
      numConns := (m.numConns.toNat + 1) % 2 ^ 16,
      conns := s.conns ++ [sock] }.ret m.numConns.toNat, ?_, ?_, rfl, ?_⟩
    · simp only [Pool.addConn, h.running, hrun, h.numConns, h.maxConns, h.numThrs, hw', hr',
        if_neg (Nat.ne_of_lt hlt), Bool.false_eq_true, if_false]
    · constructor
      case pos => exact h.pos
      case owner => rfl
      case numThrs => exact h.numThrs
      case maxConns => exact h.maxConns
      case numConns =>
        show (m.numConns.toNat + 1) % 2 ^ 16 = (m.numConns + 1).toNat
        rw [UInt16.toNat_add, UInt16.toNat_one]
      case buffSize => exact h.buffSize
      case running => exact h.running
      case wthrinfo => exact thrRep_update h.wthrinfo hwrep
      case rthrinfo => exact thrRep_update h.rthrinfo hrrep
    · intro i
      refine Eq.trans ?_ (List.append_nil _).symm
      by_cases hne : i = m.numConns.toNat % m.numThrs.toNat
      · subst hne
        show (Function.update s.wthrinfo _ w' _).msgq = _
        rw [Function.update_self]
        exact msgq_addConn hw'
      · show (Function.update s.wthrinfo _ w' _).msgq = _
        rw [Function.update_of_ne hne]

/-- A call that is refused, out of range or queues one message, in both. -/
theorem Represents.guarded (h : Represents m s) {calls : List Call} {a b : Prop} [Decidable a]
    [Decidable b] (hab : a ↔ b) {i : Nat} (hi : i < m.numThrs.toNat) (msg : MsgT) :
    Returned m s
      (if s.running = false then s.ret (-1)
      else if a then s.ret (-2) else ({ s with calls := calls }.push i msg).ret 0)
      (if m.running = false then (-1, []) else if b then (-2, []) else (0, [(i, msg)])) := by
  have hrun : s.running = false ↔ m.running = false := by rw [h.running]
  by_cases hr : m.running = false
  · rw [if_pos hr, if_pos (hrun.mpr hr)]
    exact h.ret (-1)
  rw [if_neg hr, if_neg (mt hrun.mp hr)]
  by_cases hb : b
  · rw [if_pos hb, if_pos (hab.mpr hb)]
    exact h.ret (-2)
  · rw [if_neg hb, if_neg (mt hab.mp hb)]
    exact h.pushRet calls hi msg

theorem send_represents (h : Represents m s) (cliid : UInt16) (p : Payload) :
    Returned m s (s.send cliid.toNat p) (m.send cliid p) := by
  have hle : s.numConns ≤ cliid.toNat ↔ m.numConns ≤ cliid := by
    rw [h.numConns, UInt16.le_iff_toNat_le]
  have hi : cliid.toNat % s.numThrs < m.numThrs.toNat := by
    rw [h.numThrs]
    exact Nat.mod_lt _ h.pos
  unfold Pool.send PoolMem.send
  rw [UInt16.toNat_mod, UInt16.toNat_div, ← h.numThrs]
  exact h.guarded hle hi _

theorem thrBroadcast_represents (h : Represents m s) (thrid : UInt16) (p : Payload) :
    Returned m s (s.thrBroadcast thrid.toNat p) (m.thrBroadcast thrid p) := by
  have hle : s.numThrs ≤ thrid.toNat ↔ m.numThrs ≤ thrid := by
    rw [h.numThrs, UInt16.le_iff_toNat_le]
  by_cases ht : m.numThrs ≤ thrid
  · unfold Pool.thrBroadcast PoolMem.thrBroadcast
    rw [if_pos ht, if_pos (hle.mpr ht), h.running]
    split_ifs
    · exact h.ret (-1)
    · exact h.ret (-2)
  · have hlt : thrid.toNat < m.numThrs.toNat :=
      Nat.lt_of_not_le fun h => ht (UInt16.le_iff_toNat_le.mpr h)
    exact h.guarded hle hlt _

/-- **A call in memory is a call of the transition system**: it returns the same value there, and
queues the same messages. -/
theorem call_represents {m' : PoolMem} (h : Represents m s) {c : PoolCall} {o : Result}
    (hc : m.call c = some (m', o)) (wok rok : Nat → Bool) (net : Fd → Conn) (bufs : Nat → Bufs) :
    ∃ k s', exec Pool.step s (callLabel wok rok net bufs c :: List.replicate k .owner) = some s' ∧
      Returned m' s s' o := by
  have hone : ∀ (l : PoolLabel) (s' : Pool), s.step l = some s' →
      exec Pool.step s (l :: List.replicate 0 .owner) = some s' :=
    fun l s' hl => exec_cons_eq_some.mpr ⟨s', hl, rfl⟩
  cases c with
  | addConn sock addr =>
      obtain ⟨s', hs', hret⟩ := addConn_represents h hc
      exact ⟨0, s', hone _ s' (by simpa only [callLabel, Pool.step, h.owner] using hs'), hret⟩
  | startAll =>
      have hstep : s.step (callLabel wok rok net bufs .startAll) =
          some (s.startAll wok rok net bufs) := by
        simp only [callLabel, Pool.step, h.owner]
      refine ⟨0, _, hone _ _ hstep, ?_⟩
      simp only [call, startAll, Option.some.injEq] at hc
      rw [Pool.startAll, h.running]
      split_ifs at hc ⊢
      · cases hc
        exact h.ret (-1)
      · cases hc
        exact ⟨{ h with owner := rfl, running := rfl }, rfl, fun _ => (List.append_nil _).symm⟩
  | send cliid p =>
      have hstep : s.step (callLabel wok rok net bufs (.send cliid p)) =
          some (s.send cliid.toNat p) := by
        simp only [callLabel, Pool.step, h.owner]
      refine ⟨0, _, hone _ _ hstep, ?_⟩
      cases hc
      exact send_represents h cliid p
  | thrBroadcast thrid p =>
      have hstep : s.step (callLabel wok rok net bufs (.thrBroadcast thrid p)) =
          some (s.thrBroadcast thrid.toNat p) := by
        simp only [callLabel, Pool.step, h.owner]
      refine ⟨0, _, hone _ _ hstep, ?_⟩
      cases hc
      exact thrBroadcast_represents h thrid p
  | broadcast p =>
      have hstep : s.step (callLabel wok rok net bufs (.broadcast p)) = some (s.broadcast p) := by
        simp only [callLabel, Pool.step, h.owner]
      cases hc
      by_cases hrun : m.running = false
      · rw [Pool.broadcast, if_pos (h.running.trans hrun)] at hstep
        rw [PoolMem.broadcast, if_pos hrun]
        exact ⟨0, _, hone _ _ hstep, h.ret (-1)⟩
      · rw [Pool.broadcast, if_neg (by rw [h.running]; exact hrun)] at hstep
        rw [PoolMem.broadcast, if_neg hrun, List.range_eq_range']
        obtain ⟨s', hloop, hret⟩ := exec_broadcasting (m := m) p m.numThrs.toNat
          { s with calls := s.calls ++ [Call.broadcast p], owner := .broadcasting p 0 } 0 rfl
          (by rw [Nat.zero_add]; exact h.numThrs.symm) { h with owner := rfl }
        exact ⟨m.numThrs.toNat + 1, s', exec_cons_eq_some.mpr ⟨_, hstep, hloop⟩, hret.rep,
          hret.rets, hret.queues⟩

/-- A sequence of calls in memory is a run of the transition system. -/
theorem outputs_represents {m : PoolMem} {s : Pool} {calls : List PoolCall} {os : List Result}
    (h : Represents m s) (hos : outputs call m calls = some os) (wok rok : Nat → Bool)
    (net : Fd → Conn) (bufs : Nat → Bufs) :
    ∃ ls s', exec Pool.step s ls = some s' ∧ s'.rets = s.rets ++ os.map Prod.fst ∧
      ∀ i, (s'.wthrinfo i).msgq = (s.wthrinfo i).msgq ++ pipe i (os.flatMap Prod.snd) := by
  induction calls generalizing m s os with
  | nil =>
      cases hos
      exact ⟨[], s, rfl, (List.append_nil _).symm, fun _ => (List.append_nil _).symm⟩
  | cons c calls ih =>
      obtain ⟨m', o, rest, hcall, hrest, rfl⟩ := outputs_cons_eq_some hos
      obtain ⟨k, s₁, hrun, hret⟩ := call_represents h hcall wok rok net bufs
      obtain ⟨ls, s', hruns, hrets, hqueues⟩ := ih hret.rep hrest
      refine ⟨_, s', exec_append_eq_some.mpr ⟨s₁, hrun, hruns⟩, ?_, fun i => ?_⟩
      · rw [hrets, hret.rets, List.map_cons, List.append_assoc, List.singleton_append]
      · rw [hqueues i, hret.queues i, List.flatMap_cons, pipe_append, List.append_assoc]

/-- **The pool in memory is the pool of the transition system**, with what was in `num_conns` as its
first count: whatever the calls return and queue in memory, a run of `Pool` returns and queues. -/
theorem construct_refines {numThrs maxConns : UInt16} {buffSize : UInt32} {prior : Prior}
    {pipes : Nat → Option (Fd × Fd)} {m : PoolMem}
    (h : construct numThrs maxConns buffSize prior pipes = some m) {calls : List PoolCall}
    {os : List Result} (hos : outputs call m calls = some os) (wok rok : Nat → Bool)
    (net : Fd → Conn) (bufs : Nat → Bufs) :
    ∃ ls s', exec Pool.step (Pool.construct numThrs maxConns buffSize
        (fun i => ((pipes i).getD (0, 0)).1) prior.object.numConns.toNat) ls = some s' ∧
      s'.rets = os.map Prod.fst ∧
      ∀ i, (s'.wthrinfo i).msgq = pipe i (os.flatMap Prod.snd) :=
  outputs_represents (construct_represents h) hos wok rok net bufs

/-- The steps of the writers and the readers leave what is represented alone. -/
theorem represents_thread (h : Represents m s) {l : PoolLabel}
    (hl : (∃ i < m.numThrs.toNat, l = .pop i) ∨ (∃ i o, l = .write i o) ∨ ∃ i r, l = .reader i r)
    (hstep : s.step l = some s') : Represents m s' := by
  rcases hl with ⟨i, hi, rfl⟩ | ⟨i, o, rfl⟩ | ⟨i, r, rfl⟩
  · cases Pool.poolTrans_of_step hstep with
    | reject hidle hcall => exact hcall.elim
    | popExit hw hq hm => exact { (h.requeue i hi _) with }
    | popWrite hw hq hm => exact { (h.requeue i hi _) with }
  · cases Pool.poolTrans_of_step hstep with
    | reject hidle hcall => exact hcall.elim
    | writeFail hw => exact { h with }
    | write hw hopen => exact { h with }
  · cases Pool.poolTrans_of_step hstep with
    | reject hidle hcall => exact hcall.elim
    | reader hr hthr => exact { h with }

end

end PoolMem

end CommTest.Socket
