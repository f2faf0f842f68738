import CommTest.Socket.PoolStream
import CommTest.Socket.ReadEnd

/-!
# Pools that talk to each other

The writers of one pool and the readers of another are the two ends of a TCP connection. `Pool` has
what its readers will find on their sockets in the label of `start_all`; here it comes from the peer,
piece by piece and while both pools run.

* `Wiring` says which sockets are connected. `PoolNet.step` is a step of a pool, or some more bytes or
  the end of the stream arrive at a socket. A `tcp_read` takes its step when all of its message is
  there; until then its thread waits in `read`.
* `Stands a before c`: of what has arrived on a connection the messages `before` have been read.
  `tcpRead_stands` says what a `tcp_read` makes of it, also when the stream ends inside a message.
* `Reads` is the invariant of a reader thread and `PoolNet.Inv` the one of the network.
* `pool_delivery`: the callbacks of a connection are the first messages of the calls at its other end,
  once each and in order.
-/

set_option linter.unusedSectionVars false

namespace CommTest.Socket

open Mem FairQueue Lts RoundRobin
open scoped List

/-! ## The network -/

/-- Which sockets are connected with each other. -/
structure Wiring (N : Type) where
  peer : N → Fd → N × Fd
  peer_peer : ∀ n fd, peer (peer n fd).1 (peer n fd).2 = (n, fd)

/-- Pools, and what has arrived on each of their sockets so far, read or not. -/
structure PoolNet (N : Type) where
  pool : N → Pool
  arrived : N → Fd → Conn

/-- The steps of the network: a pool takes a step, up to `k + 1` more bytes arrive at a socket, or the
end of the stream does. -/
inductive PoolNetLabel (N : Type)
  | node (n : N) (l : PoolLabel)
  | carry (n : N) (fd : Fd) (k : Nat)
  | eof (n : N) (fd : Fd)

/-- The readers that have `fd` find something new on it. -/
def Pool.feed (s : Pool) (fd : Fd) (f : Conn → Conn) : Pool :=
  { s with
      readers := fun i => (s.readers i).map fun r =>
        { r with
            conns := fun k =>
              if (s.rthrinfo i).socks[k]? = some fd then f (r.conns k) else r.conns k } }

/-- More bytes. -/
def Conn.append (bytes : Bytes) (c : Conn) : Conn := { c with incoming := c.incoming ++ bytes }

/-- No more bytes. -/
def Conn.close (c : Conn) : Conn := { c with closed := true }

namespace PoolNet

variable {N : Type} [DecidableEq N]

/-- What the readers of a pool find when they are started is what has arrived. -/
def told (s : PoolNet N) (n : N) : PoolLabel → PoolLabel
  | .startAll wok rok _ bufs => .startAll wok rok (s.arrived n) bufs
  | l => l

/-- Something arrives at a socket. -/
def arrive (s : PoolNet N) (n : N) (fd : Fd) (f : Conn → Conn) : PoolNet N where
  pool := Function.update s.pool n ((s.pool n).feed fd f)
  arrived := Function.update s.arrived n (Function.update (s.arrived n) fd (f (s.arrived n fd)))

/-- What the other end has written to `fd`. -/
def sent (w : Wiring N) (s : PoolNet N) (n : N) (fd : Fd) : Bytes :=
  (s.pool (w.peer n fd).1).out (w.peer n fd).2

/-- One step of the network. -/
def step (w : Wiring N) (s : PoolNet N) : PoolNetLabel N → Option (PoolNet N)
  | .node n l =>
      ((s.pool n).step (s.told n l)).map fun p => { s with pool := Function.update s.pool n p }
  | .carry n fd k =>
      if (s.arrived n fd).closed then none
      else some (s.arrive n fd
        (.append (((s.sent w n fd).drop (s.arrived n fd).incoming.length).take (k + 1))))
  | .eof n fd =>
      if (s.pool (w.peer n fd).1).closed (w.peer n fd).2 ∧ (s.arrived n fd).incoming = s.sent w n fd
      then some (s.arrive n fd .close)
      else none

/-- The pools before any call, and nothing on the sockets. -/
def init (pool : N → Pool) : PoolNet N := ⟨pool, fun _ _ => ⟨[], false⟩⟩

end PoolNet

/-- The messages of a call are in range, and the calls of a reader do not fail. -/
def PoolLabel.Clean : PoolLabel → Prop
  | .send _ p => InRange p
  | .thrBroadcast _ p => InRange p
  | .broadcast p => InRange p
  | .reader _ l => ReadThr.NoError l
  | _ => True

/-- The condition on a step. -/
def PoolNet.Clean {N : Type} (s : PoolNet N) : PoolNetLabel N → Prop
  | .node n l => (s.pool n).FramesFit l ∧ l.Clean
  | _ => True

/-- The messages that a pool was told to send over its connection `c`, oldest first. -/
def Pool.messages (s : Pool) (c : Nat) : List Payload :=
  (s.calls.filter (Call.targets s.numThrs c)).map Call.payload

/-- **Delivery between pools.** Slot `k` of reader `i` of pool `n` is `fd`, which is connected with
connection `c` of another pool. No assertion of a reader fails; the callbacks for the slot are the
first messages of that pool for `c`, and all of them once it is done with its calls and everything has
arrived and been read. -/
structure PoolDelivery {N : Type} (w : Wiring N) (s : PoolNet N) : Prop where
  asserts : ∀ n i r, (s.pool n).readers i = some r → r.pc ≠ .aborted
  callbacks : ∀ n i r k fd c, (s.pool n).readers i = some r →
    ((s.pool n).rthrinfo i).socks[k]? = some fd →
    (s.pool (w.peer n fd).1).conns[c]? = some (w.peer n fd).2 →
    pipe k r.log <+: ReadThr.given ((s.pool (w.peer n fd).1).messages c)
  complete : ∀ n i r k fd c, (s.pool n).readers i = some r →
    ((s.pool n).rthrinfo i).socks[k]? = some fd →
    (s.pool (w.peer n fd).1).conns[c]? = some (w.peer n fd).2 →
    (s.pool (w.peer n fd).1).owner = .idle →
    (∀ j, ((s.pool (w.peer n fd).1).wthrinfo j).msgq = []) →
    (∀ j fd' rest m b, (s.pool (w.peer n fd).1).writers j ≠ .writing fd' rest m b) →
    (s.arrived n fd).incoming = s.sent w n fd → (s.arrived n fd).closed = false →
    (r.conns k).incoming = [] →
    pipe k r.log = ReadThr.given ((s.pool (w.peer n fd).1).messages c)

/-! ## Frames are decoded in one way -/

theorem frame_append_inj {p q : Payload} {x y : Bytes} (h : frame p ++ x = frame q ++ y) :
    p = q ∧ x = y := by
  have hlen : p.len = q.len := by
    rw [← announced_frame p x, ← announced_frame q y, h]
  have hcount : (frame p).length = (frame q).length := by
    rw [length_frame, length_frame, ← Payload.toNat_len, ← Payload.toNat_len, hlen]
  obtain ⟨hframe, hrest⟩ := List.append_inj h hcount
  have hbytes := congrArg (List.drop 4) hframe
  rw [← List.append_nil (frame p), ← List.append_nil (frame q), drop_frame, drop_frame,
    List.append_nil, List.append_nil] at hbytes
  obtain ⟨pb, hp⟩ := p
  obtain ⟨qb, hq⟩ := q
  cases hbytes
  exact ⟨rfl, hrest⟩

/-- The messages in the first part of a stream of frames are the first messages. -/
theorem exists_append_of_frames_prefix {bs ms : List Payload} (h : frames bs <+: frames ms) :
    ∃ after, ms = bs ++ after := by
  induction bs generalizing ms with
  | nil => exact ⟨ms, rfl⟩
  | cons b bs ih =>
      obtain ⟨x, hx⟩ := h
      cases ms with
      | nil =>
          have hlen := congrArg List.length hx
          rw [frames_cons, frames_nil, List.length_append, List.length_append, length_frame,
            List.length_nil] at hlen
          omega
      | cons m ms =>
          rw [frames_cons, frames_cons, List.append_assoc] at hx
          obtain ⟨rfl, hrest⟩ := frame_append_inj hx
          obtain ⟨after, rfl⟩ := ih ⟨x, hrest⟩
          exact ⟨after, rfl⟩

theorem frames_append (as bs : List Payload) : frames (as ++ bs) = frames as ++ frames bs := by
  simp [frames]

/-! ## A `tcp_read` on what has arrived -/

/-- `readn` does not return before all bytes are there. -/
theorem readn_cut {len : Nat} (hlen : len < 2 ^ 64) {c : Conn} (hne : c.incoming ≠ [])
    (hshort : c.incoming.length < len) (buff : Memory) (ks : List Nat) :
    readn len buff c (ks.map .got) = none := by
  cases ks with
  | nil => rfl
  | cons k ks =>
      rw [List.map_cons, readn_eq_readLoop (by omega) hne, ← List.map_cons]
      exact readLoop_short hlen (k :: ks) (by omega) buff

/-- A frame that is not all there: `tcp_read` returns only at the end of a stream that ends behind the
header, and then with nothing. -/
theorem tcpRead_cut {p : Payload} (h0 : 0 < p.bytes.length) {maxsize : UInt32} {bufs : Bufs}
    {junk fresh : Memory} {c : Conn} (hne : c.incoming ≠ []) (hpre : c.incoming <+: frame p)
    (hlt : c.incoming.length < (frame p).length) {ks : List Nat} {r : TcpReadRes}
    (h : tcpRead maxsize bufs junk fresh c (ks.map .got) = some r) :
    r.ret = 0 ∧ r.conn = { c with incoming := [] } ∧ c.closed = true := by
  have hfits := p.fits
  by_cases h4 : 4 ≤ c.incoming.length
  · have hsize : announced c.incoming = p.len := by
      obtain ⟨x, hx⟩ := hpre
      have htake : c.incoming.take 4 = (frame p ++ []).take 4 := by
        rw [List.append_nil, ← hx, List.take_append_of_le_length h4]
      rw [announced, htake, ← announced, announced_frame]
    rcases tcpRead_header maxsize bufs junk fresh h4 ks with ⟨rest, -, hbody⟩ | ⟨hnone, -⟩
    · rw [h, hsize, Payload.toNat_len] at hbody
      rw [length_frame] at hlt
      have hlen : (c.incoming.drop 4).length = c.incoming.length - 4 := List.length_drop
      by_cases hnil : c.incoming.drop 4 = []
      · cases rest with
        | nil => simp [readn] at hbody
        | cons k rest =>
            cases hclosed : c.closed with
            | false => simp [readn, read, hnil, hclosed, Nat.ne_of_gt h0] at hbody
            | true =>
                have hend := readn_nothing p.bytes.length
                  (c := ⟨c.incoming.drop 4, c.closed⟩) (.inr ⟨hnil, hclosed⟩)
                  (bufs.target fresh maxsize p.len) k (rest.map .got)
                rw [List.map_cons, hend, Option.map_some, Option.some.injEq] at hbody
                rw [hbody]
                exact ⟨rfl, by rw [hnil, hclosed], rfl⟩
      · rw [readn_cut (by omega) (c := { c with incoming := c.incoming.drop 4 }) hnil
          (by rw [hlen]; omega), Option.map_none] at hbody
        cases hbody
    · rw [hnone] at h
      cases h
  · have hnone := readn_cut (by decide) hne (Nat.not_le.mp h4) junk ks
    simp only [tcpRead, hnone] at h
    cases h

/-- Of all that has arrived (`a`), the messages `before` have been read: what is left stands behind
their frames, or the stream has ended inside the next message and nothing is left. -/
structure Stands (a : Conn) (before : List Payload) (c : Conn) : Prop where
  closed : c.closed = a.closed
  rest : frames before ++ c.incoming = a.incoming ∨
    frames before <+: a.incoming ∧ c.incoming = [] ∧ c.closed = true

/-- **One `tcp_read`** on a stream of messages: it reports the end of the stream or the next message. -/
theorem tcpRead_stands {ms before : List Payload} {a c : Conn} (hrange : ∀ p ∈ ms, InRange p)
    (hms : a.incoming <+: frames ms) (hs : Stands a before c) {maxsize : UInt32} {bufs : Bufs}
    {junk fresh : Memory} {ks : List Nat} {r : TcpReadRes}
    (h : tcpRead maxsize bufs junk fresh c (ks.map .got) = some r) :
    r.ret = 0 ∧ Stands a before r.conn ∨
      ∃ p, InRange p ∧ r.ret = Int32.ofNat p.bytes.length ∧
        peek r.bufs.data p.bytes.length = p.bytes ∧ Stands a (before ++ [p]) r.conn := by
  have hnil : c.incoming = [] → r.ret = 0 ∧ Stands a before r.conn := by
    intro hempty
    rw [tcpRead_end hempty] at h
    split_ifs at h
    cases h
    exact ⟨rfl, hs⟩
  by_cases hempty : c.incoming = []
  · exact .inl (hnil hempty)
  have hrest : frames before ++ c.incoming = a.incoming := by
    rcases hs.rest with hrest | ⟨-, hend, -⟩
    · exact hrest
    · exact absurd hend hempty
  rw [← hrest] at hms
  obtain ⟨after, rfl⟩ := exists_append_of_frames_prefix ((List.prefix_append _ _).trans hms)
  rw [frames_append, List.prefix_append_right_inj] at hms
  cases after with
  | nil => exact absurd (List.prefix_nil.mp hms) hempty
  | cons p after =>
      rw [frames_cons] at hms
      have hp : InRange p := hrange p (by simp)
      by_cases hfull : (frame p).length ≤ c.incoming.length
      · obtain ⟨tail, htail⟩ :=
          List.prefix_of_prefix_length_le (List.prefix_append (frame p) (frames after)) hms hfull
        rcases tcpRead_frame hp.1 maxsize bufs junk fresh htail.symm ks with
          ⟨r', mid, -, hr', hret, hdata, -, hconn, -⟩ | ⟨hnone, -⟩
        · rw [h, Option.some.injEq] at hr'
          subst hr'
          refine .inr ⟨p, hp, hret, hdata, ?_, .inl ?_⟩
          · rw [hconn]
            exact hs.closed
          · rw [hconn, ← hrest, ← htail, frames_append, List.append_assoc, frames_cons, frames_nil,
              List.append_nil]
        · rw [h] at hnone
          cases hnone
      · rw [not_le] at hfull
        have hpre := List.prefix_of_prefix_length_le hms (List.prefix_append (frame p) (frames after))
          hfull.le
        obtain ⟨hret, hconn, hclosed⟩ := tcpRead_cut hp.1 hempty hpre hfull h
        refine .inl ⟨hret, ?_, .inr ⟨?_, ?_, ?_⟩⟩
        · rw [hconn]
          exact hs.closed
        · rw [← hrest]
          exact List.prefix_append _ _
        · rw [hconn]
        · rw [hconn]
          exact hclosed

/-! ## A reader thread -/

/-- **The invariant of a reader thread** with the sockets `socks`, on which `a` has arrived. -/
structure Reads (socks : List Fd) (a : Fd → Conn) (r : ReadThr) : Prop where
  asserts : r.pc ≠ .aborted
  count : r.numSocks = socks.length
  pending : ∀ idxs rdfd, r.pc = .serving idxs rdfd → ∀ idx ∈ idxs, idx < socks.length
  slots : ∀ k fd, socks[k]? = some fd →
    ∃ before, pipe k r.log = ReadThr.given before ∧ Stands (a fd) before (r.conns k)

namespace Reads

variable {socks : List Fd} {a : Fd → Conn} {r r' : ReadThr}

/-- What arrived is a stream of messages in range. -/
def Streams (a : Fd → Conn) : Prop :=
  ∀ fd, ∃ ms, (∀ p ∈ ms, InRange p) ∧ (a fd).incoming <+: frames ms

/-- A step that reads no message. -/
theorem congr (h : Reads socks a r) (hcount : r'.numSocks = r.numSocks) (hconns : r'.conns = r.conns)
    (hlog : r'.log = r.log) (hpc : r'.pc ≠ .aborted)
    (hpending : ∀ idxs rdfd, r'.pc = .serving idxs rdfd → ∀ idx ∈ idxs, idx < socks.length) :
    Reads socks a r' where
  asserts := hpc
  count := hcount.trans h.count
  pending := hpending
  slots := by
    rw [hconns, hlog]
    exact h.slots

theorem pending_next {idx : Nat} {rest : List Nat} {rdfd : Bool} (h : Reads socks a r)
    (hpc : r.pc = .serving (idx :: rest) rdfd) :
    ∀ idxs b, ReadThr.next rest rdfd = .serving idxs b → ∀ i ∈ idxs, i < socks.length := by
  intro idxs b hnext i hi
  unfold ReadThr.next at hnext
  split_ifs at hnext
  cases hnext
  exact h.pending _ _ hpc i (List.mem_cons_of_mem _ hi)

/-- One ready socket. -/
theorem serve (ha : Streams a) (h : Reads socks a r) {idx : Nat} {rest : List Nat} {rdfd : Bool}
    (hpc : r.pc = .serving (idx :: rest) rdfd) {script : List ReadOutcome} {junk fresh : Memory}
    (hok : ∀ o ∈ script, o ≠ .err) (hstep : r.serve idx rest rdfd script junk fresh = some r') :
    Reads socks a r' := by
  obtain ⟨ks, rfl⟩ := ReadThr.exists_got hok
  have hidx := h.pending _ _ hpc idx List.mem_cons_self
  obtain ⟨before, hlog, hstands⟩ := h.slots idx socks[idx] (List.getElem?_eq_getElem hidx)
  obtain ⟨ms, hrange, hms⟩ := ha socks[idx]
  unfold ReadThr.serve at hstep
  split at hstep
  · cases hstep
  rename_i res hres
  -- the other slots are left alone
  have hothers : ∀ (c : Conn) (log : List (Nat × UInt32 × Bytes)),
      (∃ before, pipe idx log = ReadThr.given before ∧ Stands (a socks[idx]) before c) →
      (∀ k, k ≠ idx → pipe k log = pipe k r.log) → ∀ k fd, socks[k]? = some fd →
        ∃ before, pipe k log = ReadThr.given before ∧
          Stands (a fd) before (Function.update r.conns idx c k) := by
    intro c log hslot hlogs k fd hk
    by_cases hki : k = idx
    · subst hki
      rw [List.getElem?_eq_getElem hidx, Option.some.injEq] at hk
      subst hk
      rw [Function.update_self]
      exact hslot
    · rw [Function.update_of_ne hki, hlogs k hki]
      exact h.slots k fd hk
  rcases tcpRead_stands hrange hms hstands hres with ⟨hzero, hconn⟩ | ⟨p, hp, hret, hdata, hconn⟩
  · rw [if_pos hzero] at hstep
    cases hstep
    exact ⟨ReadThr.next_ne_aborted _ _, h.count, h.pending_next hpc,
      hothers _ _ ⟨before, hlog, hconn⟩ fun _ _ => rfl⟩
  · have hpos : 0 < res.ret := by
      rw [hret]
      exact hp.ofNat_pos
    rw [if_neg (Int32.ne_of_lt hpos).symm, if_pos hpos] at hstep
    cases hstep
    refine ⟨ReadThr.next_ne_aborted _ _, h.count, h.pending_next hpc,
      hothers _ _ ⟨before ++ [p], ?_, hconn⟩ ?_⟩
    · rw [pipe_append, hlog, hret, Int32.toNatClampNeg_ofNat_of_lt hp.2, hdata]
      simp [ReadThr.given]
      rfl
    · intro k hk
      rw [pipe_append]
      simp [Ne.symm hk]

/-- **Every step of a reader thread without an error keeps the invariant.** -/
theorem step (ha : Streams a) (h : Reads socks a r) {l : ReadLabel} (hok : ReadThr.NoError l)
    (hstep : r.step l = some r') : Reads socks a r' := by
  unfold ReadThr.step at hstep
  split at hstep
  · split_ifs at hstep
    cases hstep
    refine h.congr rfl rfl rfl (by simp) ?_
    intro idxs rdfd hpc idx hidx
    cases hpc
    rw [← h.count]
    exact List.mem_range.mp (List.mem_of_mem_filter hidx)
  · cases hok
  · rename_i hpc
    exact h.serve ha hpc hok hstep
  · rename_i o _
    unfold ReadThr.readPipe at hstep
    split at hstep
    · cases hstep
    rename_i n chunk c hread
    have hnonneg : ¬ Int32.ofNat n < 0 := by
      cases o with
      | err => exact absurd rfl hok
      | got k => exact ofNat_not_neg (read_count_lt hread)
    rw [if_neg hnonneg] at hstep
    split_ifs at hstep
    · cases hstep
      exact h.congr rfl rfl rfl (by simp) (by simp)
    · cases hstep
      exact h.congr rfl rfl rfl (by simp) (by simp)
  · cases hstep
    refine h.congr rfl rfl rfl ?_ ?_
    · show (if _ then _ else _) ≠ _
      split_ifs <;> simp
    · intro idxs rdfd hpc
      change (if _ then _ else _) = _ at hpc
      split_ifs at hpc
  · cases hstep

/-- A reader thread that is started finds what has arrived. -/
theorem start (socks : List Fd) (a : Fd → Conn) (bufsize : UInt32) (rdpipe : Conn) (bufs : Bufs) :
    Reads socks a (ReadThr.start socks.length bufsize
      (fun k => (socks[k]?.map a).getD ⟨[], false⟩) rdpipe bufs) where
  asserts := by simp [ReadThr.start]
  count := rfl
  pending := by simp [ReadThr.start]
  slots := by
    intro k fd hk
    refine ⟨[], rfl, ?_⟩
    show Stands (a fd) [] ((socks[k]?.map a).getD ⟨[], false⟩)
    rw [hk]
    exact ⟨rfl, .inl rfl⟩

/-- Something arrives at one of the sockets. -/
theorem feed (h : Reads socks a r) {fd : Fd} {f : Conn → Conn}
    (hf : ∀ before c, Stands (a fd) before c → Stands (f (a fd)) before (f c)) :
    Reads socks (Function.update a fd (f (a fd)))
      { r with conns := fun k => if socks[k]? = some fd then f (r.conns k) else r.conns k } where
  asserts := h.asserts
  count := h.count
  pending := h.pending
  slots := by
    intro k fd' hk
    obtain ⟨before, hlog, hstands⟩ := h.slots k fd' hk
    refine ⟨before, hlog, ?_⟩
    show Stands _ before (if socks[k]? = some fd then f (r.conns k) else r.conns k)
    by_cases hfd : fd' = fd
    · subst hfd
      rw [Function.update_self, if_pos hk]
      exact hf before _ hstands
    · have hne : socks[k]? ≠ some fd := by
        rw [hk]
        exact fun heq => hfd (Option.some.inj heq)
      rw [Function.update_of_ne hfd, if_neg hne]
      exact hstands

end Reads

theorem Stands.append {a c : Conn} {before : List Payload} (hopen : a.closed = false)
    (h : Stands a before c) (bytes : Bytes) : Stands (a.append bytes) before (c.append bytes) where
  closed := h.closed
  rest := by
    rcases h.rest with hrest | ⟨-, -, hclosed⟩
    · left
      rw [Conn.append, Conn.append, ← hrest, List.append_assoc]
    · rw [h.closed, hopen] at hclosed
      cases hclosed

theorem Stands.close {a c : Conn} {before : List Payload} (h : Stands a before c) :
    Stands a.close before c.close where
  closed := rfl
  rest := by
    rcases h.rest with hrest | ⟨hpre, hempty, -⟩
    · exact .inl hrest
    · exact .inr ⟨hpre, hempty, rfl⟩

/-! ## A pool -/

namespace Pool

variable {s s' : Pool} {l : PoolLabel}

/-- What has been written stays. -/
theorem out_prefix (h : PoolTrans s l s') (fd : Fd) : s.out fd <+: s'.out fd := by
  cases h with
  | @write i j fd' rest m k hw hopen =>
      show s.out fd <+: Function.update s.out fd' (s.out fd' ++ chunk m k j) fd
      by_cases hfd : fd = fd'
      · subst hfd
        rw [Function.update_self]
        exact List.prefix_append _ _
      · rw [Function.update_of_ne hfd]
  | _ => exact List.prefix_rfl

/-- Nothing is written to a socket that is no connection. -/
def Silent (s : Pool) : Prop := ∀ fd, fd ∉ s.conns → s.out fd = []

theorem silent_step (hs : s.StreamInv) (hsilent : s.Silent) (h : PoolTrans s l s') : s'.Silent := by
  intro fd hfd
  cases h with
  | addConn =>
      apply hsilent
      exact fun hmem => hfd (List.mem_append_left _ hmem)
  | @write i j fd' rest m k hw hopen =>
      show Function.update s.out fd' (s.out fd' ++ chunk m k j) fd = []
      have hmem : fd' ∈ s.conns := by
        have hsock := (hs.holds i fd' rest m k hw).2 fd' List.mem_cons_self
        obtain ⟨slot, hslot⟩ := List.mem_iff_getElem?.mp hsock
        have hi : i < s.numThrs := hs.placed.lt_of_writer (by simp [hw])
        exact List.mem_of_getElem? ((hs.placed.slots i hi slot).symm.trans hslot)
      have hne : fd ≠ fd' := by
        rintro rfl
        exact hfd hmem
      rw [Function.update_of_ne hne]
      exact hsilent fd hfd
  | _ => exact hsilent fd hfd

/-- The messages of all calls are in range. -/
def CallsInRange (s : Pool) : Prop := ∀ c ∈ s.calls, InRange c.payload

theorem callsInRange_step (hs : s.CallsInRange) (hl : l.Clean) (h : PoolTrans s l s') :
    s'.CallsInRange := by
  cases h with
  | thrBroadcast | send | broadcast => exact forall_mem_concat hs hl
  | _ => exact hs

/-- **The invariant of the readers of a pool**, with what has arrived on its sockets. -/
structure ReadsAll (a : Fd → Conn) (s : Pool) : Prop where
  unstarted : s.running = false → ∀ i, s.readers i = none
  readers : ∀ i r, s.readers i = some r → Reads (s.rthrinfo i).socks a r

theorem ReadsAll.startAll {a : Fd → Conn} (hs : s.ReadsAll a) (wok rok : Nat → Bool)
    (bufs : Nat → Bufs) : (s.startAll wok rok a bufs).ReadsAll a := by
  unfold Pool.startAll
  split_ifs with hrun
  · exact ⟨hs.unstarted, hs.readers⟩
  · refine ⟨fun h => (by cases h), ?_⟩
    intro i r hr
    change (if _ then _ else _) = some r at hr
    split_ifs at hr
    · cases hr
      exact Reads.start _ _ _ _ _
    · exact hs.readers i r hr

/-- **Every step of a pool keeps the invariant of its readers.** -/
theorem ReadsAll.step {a : Fd → Conn} (ha : Reads.Streams a) (hs : s.ReadsAll a) (hl : l.Clean)
    (hnet : ∀ wok rok net bufs, l = .startAll wok rok net bufs → net = a) (h : s.step l = some s') :
    s'.ReadsAll a := by
  by_cases hstart : ∃ wok rok net bufs, l = .startAll wok rok net bufs
  · obtain ⟨wok, rok, net, bufs, rfl⟩ := hstart
    obtain rfl := hnet wok rok net bufs rfl
    cases howner : s.owner with
    | idle =>
        simp only [Pool.step, howner, Option.some.injEq] at h
        rw [← h]
        exact hs.startAll wok rok bufs
    | _ => simp [Pool.step, howner] at h
  cases poolTrans_of_step h with
  | startAll => exact absurd ⟨_, _, _, _, rfl⟩ hstart
  | @addConn sock addr w r hidle hrun =>
      refine ⟨fun _ => hs.unstarted hrun, ?_⟩
      intro i r hr
      have hnone := hs.unstarted hrun i
      rw [show s.readers i = some r from hr] at hnone
      cases hnone
  | @stopClose i ho =>
      refine ⟨?_, ?_⟩
      · intro hrun j
        have hnone := hs.unstarted hrun
        show Function.update s.readers i ((s.readers i).map closePipe) j = none
        rw [hnone i, Option.map_none]
        by_cases hj : j = i
        · rw [hj, Function.update_self]
        · rw [Function.update_of_ne hj, hnone j]
      · intro j r hr
        change Function.update s.readers i ((s.readers i).map closePipe) j = some r at hr
        by_cases hj : j = i
        · subst hj
          rw [Function.update_self] at hr
          obtain ⟨r₀, hr₀, rfl⟩ := Option.map_eq_some_iff.mp hr
          have hold := hs.readers j r₀ hr₀
          exact hold.congr rfl rfl rfl hold.asserts hold.pending
        · rw [Function.update_of_ne hj] at hr
          exact hs.readers j r hr
  | @reader i l r r' hr hstep =>
      refine ⟨?_, ?_⟩
      · intro hrun
        have hnone := hs.unstarted hrun i
        rw [hr] at hnone
        cases hnone
      · intro j r₁ hr₁
        change Function.update s.readers i (some r') j = some r₁ at hr₁
        by_cases hj : j = i
        · subst hj
          rw [Function.update_self, Option.some.injEq] at hr₁
          subst hr₁
          exact (hs.readers j r hr).step ha hl hstep
        · rw [Function.update_of_ne hj] at hr₁
          exact hs.readers j r₁ hr₁
  | _ => exact ⟨hs.unstarted, hs.readers⟩

/-- What arrives does not touch what is sent. -/
theorem Sound.feed (hs : s.Sound) (fd : Fd) (f : Conn → Conn) : (s.feed fd f).Sound where
  stream :=
    { placed := hs.stream.placed.congr rfl rfl rfl rfl (fun _ => rfl) rfl fun _ h => h
      holds := hs.stream.holds
      fresh := fun hrun =>
        have hfresh := hs.stream.fresh hrun
        ⟨hfresh.owner, hfresh.calls, hfresh.out, hfresh.queues, hfresh.writers⟩
      lines := hs.stream.lines }
  fits := hs.fits

/-- Something arrives at one of the sockets of a pool. -/
theorem ReadsAll.feed {a : Fd → Conn} (hs : s.ReadsAll a) {fd : Fd} {f : Conn → Conn}
    (hf : ∀ before c, Stands (a fd) before c → Stands (f (a fd)) before (f c)) :
    (s.feed fd f).ReadsAll (Function.update a fd (f (a fd))) := by
  refine ⟨?_, ?_⟩
  · intro hrun i
    show (s.readers i).map _ = none
    rw [hs.unstarted hrun i, Option.map_none]
  · intro i r hr
    obtain ⟨r₀, hr₀, rfl⟩ := Option.map_eq_some_iff.mp hr
    exact (hs.readers i r₀ hr₀).feed hf

end Pool

/-! ## The network keeps its invariant -/

namespace PoolNet

variable {N : Type} [DecidableEq N] {w : Wiring N} {s s' : PoolNet N}

/-- **The invariant of the network.** -/
structure Inv (w : Wiring N) (s : PoolNet N) : Prop where
  sound : ∀ n, (s.pool n).Sound
  range : ∀ n, (s.pool n).CallsInRange
  silent : ∀ n, (s.pool n).Silent
  arrived : ∀ n fd, (s.arrived n fd).incoming <+: s.sent w n fd
  reads : ∀ n, (s.pool n).ReadsAll (s.arrived n)

theorem inv_init {pool : N → Pool} (hsound : ∀ n, (pool n).Sound) (hcalls : ∀ n, (pool n).calls = [])
    (hout : ∀ n fd, (pool n).out fd = []) (hreaders : ∀ n i, (pool n).readers i = none) :
    Inv w (init pool) where
  sound := hsound
  range n c hc := by
    rw [show (init pool).pool n = pool n from rfl, hcalls n] at hc
    cases hc
  silent n fd _ := hout n fd
  arrived _ _ := List.nil_prefix
  reads n := ⟨fun _ i => hreaders n i, fun i r hr => by
    rw [show (init pool).pool n = pool n from rfl, hreaders n i] at hr
    cases hr⟩

/-- The connection of a pool that a socket is connected with, and what was written to it. -/
theorem Inv.sent_prefix (h : Inv w s) {n : N} {fd : Fd} {c : Nat}
    (hc : (s.pool (w.peer n fd).1).conns[c]? = some (w.peer n fd).2) :
    s.sent w n fd <+: frames ((s.pool (w.peer n fd).1).messages c) :=
  (h.sound _).stream.outputStream.written c _ hc

theorem Inv.messages_range (h : Inv w s) (n : N) (c : Nat) : ∀ p ∈ (s.pool n).messages c, InRange p := by
  intro p hp
  obtain ⟨call, hcall, rfl⟩ := List.mem_map.mp hp
  exact h.range n call (List.mem_of_mem_filter hcall)

/-- What arrives at a pool is a stream of messages. -/
theorem Inv.streams (h : Inv w s) (n : N) : Reads.Streams (s.arrived n) := by
  intro fd
  by_cases hmem : (w.peer n fd).2 ∈ (s.pool (w.peer n fd).1).conns
  · obtain ⟨c, hc⟩ := List.mem_iff_getElem?.mp hmem
    exact ⟨_, h.messages_range _ c, (h.arrived n fd).trans (h.sent_prefix hc)⟩
  · have hnone : s.sent w n fd = [] := h.silent _ _ hmem
    refine ⟨[], by simp, ?_⟩
    rw [frames_nil, ← hnone]
    exact h.arrived n fd

/-- A pool takes a step. -/
theorem Inv.node (h : Inv w s) {n : N} {l : PoolLabel} {p : Pool} (hfit : (s.pool n).FramesFit l)
    (hclean : l.Clean) (hstep : (s.pool n).step (s.told n l) = some p) :
    Inv w { s with pool := Function.update s.pool n p } := by
  have hfit' : (s.pool n).FramesFit (s.told n l) := by
    cases l with
    | startAll => trivial
    | _ => exact hfit
  have hclean' : (s.told n l).Clean := by
    cases l with
    | startAll => trivial
    | _ => exact hclean
  have htold : ∀ wok rok net bufs, s.told n l = .startAll wok rok net bufs → net = s.arrived n := by
    intro wok rok net bufs hl
    cases l with
    | startAll =>
        cases hl
        rfl
    | _ => cases hl
  have htrans := Pool.poolTrans_of_step hstep
  -- a property of each pool is one of the new pool and of the old ones
  have hall : ∀ {P : N → Pool → Prop}, P n p → (∀ m, P m (s.pool m)) →
      ∀ m, P m (Function.update s.pool n p m) := by
    intro P hp hold m
    by_cases hm : m = n
    · subst hm
      rw [Function.update_self]
      exact hp
    · rw [Function.update_of_ne hm]
      exact hold m
  refine ⟨?_, ?_, ?_, ?_, ?_⟩
  · exact hall (P := fun _ q => q.Sound) (Pool.sound_step (h.sound n) hfit' hstep) h.sound
  · exact hall (P := fun _ q => q.CallsInRange) (Pool.callsInRange_step (h.range n) hclean' htrans)
      h.range
  · exact hall (P := fun _ q => q.Silent)
      (Pool.silent_step (h.sound n).stream (h.silent n) htrans) h.silent
  · intro m fd
    have hgrows := hall (P := fun k q => (s.pool k).out (w.peer m fd).2 <+: q.out (w.peer m fd).2)
      (Pool.out_prefix htrans _) (fun _ => List.prefix_rfl) (w.peer m fd).1
    exact (h.arrived m fd).trans hgrows
  · exact hall (P := fun k q => q.ReadsAll (s.arrived k))
      ((h.reads n).step (h.streams n) hclean' htold hstep) h.reads

/-- Something arrives. -/
theorem Inv.arrive (h : Inv w s) {n : N} {fd : Fd} {f : Conn → Conn}
    (hf : ∀ before c, Stands (s.arrived n fd) before c → Stands (f (s.arrived n fd)) before (f c))
    (hsent : (f (s.arrived n fd)).incoming <+: s.sent w n fd) : Inv w (s.arrive n fd f) := by
  -- all but the readers of the pool is as before
  have hpool : ∀ m, ((s.arrive n fd f).pool m = s.pool m ∧ m ≠ n) ∨
      ((s.arrive n fd f).pool m = (s.pool m).feed fd f ∧ m = n) := by
    intro m
    by_cases hm : m = n
    · subst hm
      exact .inr ⟨Function.update_self _ _ _, rfl⟩
    · exact .inl ⟨Function.update_of_ne hm _ _, hm⟩
  have hout : ∀ m, ((s.arrive n fd f).pool m).out = (s.pool m).out := by
    intro m
    rcases hpool m with ⟨heq, -⟩ | ⟨heq, -⟩
    · rw [heq]
    · rw [heq]
      rfl
  have hsame : ∀ m fd', (s.arrive n fd f).sent w m fd' = s.sent w m fd' := by
    intro m fd'
    rw [sent, hout, sent]
  refine ⟨?_, ?_, ?_, ?_, ?_⟩
  · intro m
    rcases hpool m with ⟨heq, -⟩ | ⟨heq, -⟩
    · rw [heq]
      exact h.sound m
    · rw [heq]
      exact (h.sound m).feed fd f
  · intro m
    rcases hpool m with ⟨heq, -⟩ | ⟨heq, -⟩
    · rw [heq]
      exact h.range m
    · rw [heq]
      exact h.range m
  · intro m
    rcases hpool m with ⟨heq, -⟩ | ⟨heq, -⟩
    · rw [heq]
      exact h.silent m
    · rw [heq]
      exact h.silent m
  · intro m fd'
    rw [hsame]
    show (Function.update s.arrived n _ m fd').incoming <+: _
    by_cases hm : m = n
    · subst hm
      rw [Function.update_self]
      by_cases hfd : fd' = fd
      · subst hfd
        rw [Function.update_self]
        exact hsent
      · rw [Function.update_of_ne hfd]
        exact h.arrived m fd'
    · rw [Function.update_of_ne hm]
      exact h.arrived m fd'
  · intro m
    show ((s.arrive n fd f).pool m).ReadsAll (Function.update s.arrived n _ m)
    rcases hpool m with ⟨heq, hm⟩ | ⟨heq, rfl⟩
    · rw [heq, Function.update_of_ne hm]
      exact h.reads m
    · rw [heq, Function.update_self]
      exact (h.reads m).feed hf

/-- **Every step that meets the condition keeps the invariant.** -/
theorem inv_step (h : Inv w s) {l : PoolNetLabel N} (hok : s.Clean l) (hstep : s.step w l = some s') :
    Inv w s' := by
  cases l with
  | node n l =>
      obtain ⟨p, hp, rfl⟩ := Option.map_eq_some_iff.mp hstep
      exact h.node hok.1 hok.2 hp
  | carry n fd k =>
      simp only [step] at hstep
      split_ifs at hstep with hclosed
      cases hstep
      have hopen : (s.arrived n fd).closed = false := by simpa using hclosed
      apply h.arrive fun before c hc => hc.append hopen _
      obtain ⟨rest, hrest⟩ := h.arrived n fd
      rw [Conn.append, ← hrest, List.drop_left, List.prefix_append_right_inj]
      exact List.take_prefix _ _
  | eof n fd =>
      simp only [step] at hstep
      split_ifs at hstep
      cases hstep
      exact h.arrive (fun before c hc => hc.close) (h.arrived n fd)

/-- **The invariant gives the property.** -/
theorem Inv.delivery (h : Inv w s) : PoolDelivery w s := by
  refine ⟨?_, ?_, ?_⟩
  · intro n i r hr
    exact ((h.reads n).readers i r hr).asserts
  · intro n i r k fd c hr hk hc
    obtain ⟨before, hlog, hstands⟩ := ((h.reads n).readers i r hr).slots k fd hk
    have hbefore : frames before <+: (s.arrived n fd).incoming := by
      rcases hstands.rest with hrest | ⟨hpre, -, -⟩
      · rw [← hrest]
        exact List.prefix_append _ _
      · exact hpre
    obtain ⟨after, hafter⟩ := exists_append_of_frames_prefix
      ((hbefore.trans (h.arrived n fd)).trans (h.sent_prefix hc))
    rw [hlog, hafter, ReadThr.given, ReadThr.given, List.map_append]
    exact List.prefix_append _ _
  · intro n i r k fd c hr hk hc howner hqueues hwriters harrived hopen hread
    obtain ⟨before, hlog, hstands⟩ := ((h.reads n).readers i r hr).slots k fd hk
    have hall := (h.sound _).stream.outputStream.complete howner hqueues hwriters c _ hc
    have hframes : frames before = frames ((s.pool (w.peer n fd).1).messages c) := by
      rcases hstands.rest with hrest | ⟨-, -, hclosed⟩
      · rw [hread, List.append_nil] at hrest
        rw [hrest, harrived]
        exact hall
      · rw [hstands.closed, hopen] at hclosed
        cases hclosed
    have hpre : frames before <+: frames ((s.pool (w.peer n fd).1).messages c) := by
      rw [hframes]
    obtain ⟨after, hafter⟩ := exists_append_of_frames_prefix hpre
    rw [hafter, frames_append, List.self_eq_append_right] at hframes
    rw [hlog, hafter, frames_eq_nil hframes, List.append_nil]

/-- **Pools deliver to each other.** For every number of pools, every way to connect their sockets and
every interleaving of their calls, threads and connections: messages in range, distinct sockets and no
call that fails. -/
theorem pool_delivery (w : Wiring N) (numThrs maxConns : N → UInt16) (hpos : ∀ n, 0 < numThrs n)
    (buffSize : N → UInt32) (rdfds : N → Nat → Fd) (ls : List (PoolNetLabel N)) (s : PoolNet N)
    (hrun : exec (step w)
      (init fun n => Pool.construct (numThrs n) (maxConns n) (buffSize n) (rdfds n) 0) ls = some s)
    (hok : Meets (step w) Clean
      (init fun n => Pool.construct (numThrs n) (maxConns n) (buffSize n) (rdfds n) 0) ls) :
    PoolDelivery w s := by
  have hinit : Inv w
      (init fun n => Pool.construct (numThrs n) (maxConns n) (buffSize n) (rdfds n) 0) :=
    inv_init (fun n => Pool.sound_construct (hpos n) (maxConns n) (buffSize n) (rdfds n))
      (fun _ => rfl) (fun _ _ => rfl) fun _ _ => rfl
  exact (exec_invariant_of_meets (fun _ _ _ h hl hstep => inv_step h hl hstep) hinit hok hrun).delivery

instance (p : Payload) : Decidable (InRange p) := inferInstanceAs (Decidable (_ ∧ _))

instance : ∀ l : ReadLabel, Decidable (ReadThr.NoError l)
  | .serve script _ _ => inferInstanceAs (Decidable (∀ o ∈ script, o ≠ .err))
  | .rdpipe o => inferInstanceAs (Decidable (o ≠ .err))
  | .selectFail => isFalse id
  | .select .. | .close => isTrue trivial

instance : ∀ l : PoolLabel, Decidable l.Clean
  | .send _ p => inferInstanceAs (Decidable (InRange p))
  | .thrBroadcast _ p => inferInstanceAs (Decidable (InRange p))
  | .broadcast p => inferInstanceAs (Decidable (InRange p))
  | .reader _ l => inferInstanceAs (Decidable (ReadThr.NoError l))
  | .addConn .. | .startAll .. | .stopAll | .owner | .pop _ | .write .. => isTrue trivial

instance (s : PoolNet N) : ∀ l : PoolNetLabel N, Decidable (s.Clean l)
  | .node n l => inferInstanceAs (Decidable ((s.pool n).FramesFit l ∧ l.Clean))
  | .carry .. | .eof .. => isTrue trivial

/-- Two pools with one connection. -/
def pair : Wiring Bool := ⟨fun b fd => (!b, fd), fun b fd => by simp⟩

/-- One pool sends two bytes, which arrive in two pieces, the second one behind the end of the header
and the last byte late. -/
def twoPieces : List (PoolNetLabel Bool) :=
  [.node false (.addConn 10 []), .node true (.addConn 10 []),
    .node false (.startAll (fun _ => true) (fun _ => true) (fun _ => ⟨[], false⟩)
      (fun _ => ⟨fun _ => 0, fun _ => 0, 0, false⟩)),
    .node false (.send 0 ⟨[104, 105], by decide⟩), .node false (.pop 0), .node false (.write 0 (.put 9)),
    .carry true 10 4,
    .node true (.startAll (fun _ => true) (fun _ => true) (fun _ => ⟨[], false⟩)
      (fun _ => ⟨fun _ => 0, fun _ => 0, 0, false⟩)),
    .node true (.reader 0 (.select [0] false)), .carry true 10 8,
    .node true (.reader 0 (.serve [.got 9, .got 9] (fun _ => 0) (fun _ => 0)))]

/-- The message is handed to the callback. -/
theorem pool_delivery_twoPieces :
    ∃ s, exec (step pair) (init fun _ => Pool.construct 1 1 64 (fun _ => 5) 0) twoPieces = some s ∧
      PoolDelivery pair s ∧
      ((s.pool true).readers 0).map ReadThr.log = some [(0, 2, [104, 105])] := by
  obtain ⟨s, hrun, hs⟩ := exists_exec (step pair)
    (init fun _ => Pool.construct 1 1 64 (fun _ => 5) 0) twoPieces
    (fun s => ((s.pool true).readers 0).map ReadThr.log = some [(0, 2, [104, 105])]) (by decide)
  refine ⟨s, hrun, ?_, of_decide_eq_true hs⟩
  apply pool_delivery pair (fun _ => 1) (fun _ => 1) (fun _ => by decide) (fun _ => 64)
    (fun _ _ => 5) twoPieces s hrun
  decide

end PoolNet

end CommTest.Socket
