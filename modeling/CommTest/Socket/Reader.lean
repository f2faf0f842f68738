import CommTest.Lib.FairQueue
import CommTest.Lib.Lts
import CommTest.Socket.Framing
import Mathlib.Algebra.Order.BigOperators.Group.Finset

/-!
# Streams of frames and the reader threads

* `emitAll` and `tcpReads` are a sequence of messages sent over one connection, each by one of the
  two encoders, and successive calls of `tcp_read`.
* `ReadThr.step` is `start_read`: `select`, then one `tcp_read` for every socket it reported, in the
  order of the slots, then the pipe that tells the thread to exit. Which sockets `select` reports is
  a choice of the label, among those with something to read.
* `Delivers` is what a run does to the connections: every time a slot is served, its next message is
  given to the callback and its stream moves on by one frame (`serve_message`, `delivers_step`,
  `delivers_exec`).
* `exists_loop`, `exists_round` and `exists_complete` say that the loop over the slots can be run to
  its end, whatever `select` reports, and that all messages can be delivered.
* `framing_roundTrip` says that encoders, `tcp_read` and reader threads agree.
-/

set_option linter.unusedSectionVars false

namespace CommTest.Socket

open Mem FairQueue Lts

/-! ## One connection -/

/-- The messages `tcp_read` can report: neither empty nor longer than an `int`. -/
def InRange (p : Payload) : Prop := 1 ≤ p.bytes.length ∧ p.bytes.length < 2 ^ 31

/-- The length of a message in range is a positive `int`. -/
theorem InRange.ofNat_pos {p : Payload} (h : InRange p) : 0 < Int32.ofNat p.bytes.length := by
  have hz : (0 : Int32).toInt = 0 := by decide
  have h1 := h.1
  rw [Int32.lt_iff_toInt_lt, Int32.toInt_ofNat_of_lt h.2]
  omega

/-- Send the messages one after the other; the bytes on the connection and the outcomes left. -/
def emitAll : List (Encoder × Payload) → Bytes → List WriteOutcome →
    Option (Bytes × List WriteOutcome)
  | [], out, script => some (out, script)
  | (e, p) :: items, out, script =>
      match e.emit p out script with
      | some r => emitAll items r.out r.script
      | none => none

/-- What a call of `tcp_read` reports: its result, the flag `use_tempbuf` and the bytes in the
buffer this flag selects. -/
def TcpReadRes.report (r : TcpReadRes) : Int32 × Bool × Bytes :=
  (r.ret, r.bufs.useTempbuf, peek r.bufs.data r.ret.toNatClampNeg)

/-- Successive calls of `tcp_read`, each with the memory it finds: the reports, the connection and
the outcomes left. -/
def tcpReads (maxsize : UInt32) : List (Memory × Memory) → Bufs → Conn → List ReadOutcome →
    Option (List (Int32 × Bool × Bytes) × Conn × List ReadOutcome)
  | [], _, c, script => some ([], c, script)
  | (junk, fresh) :: mems, bufs, c, script =>
      match tcpRead maxsize bufs junk fresh c script with
      | some r =>
          (tcpReads maxsize mems r.bufs r.conn r.script).map fun rs => (r.report :: rs.1, rs.2)
      | none => none

/-- The frames of a list of messages. -/
def frames (ps : List Payload) : Bytes := ps.flatMap frame

@[simp] theorem frames_nil : frames [] = [] := rfl

@[simp] theorem frames_cons (p : Payload) (ps : List Payload) :
    frames (p :: ps) = frame p ++ frames ps := by
  simp [frames]

theorem frames_eq_nil {ps : List Payload} (h : frames ps = []) : ps = [] := by
  cases ps with
  | nil => rfl
  | cons p ps =>
      have hlen := congrArg List.length h
      rw [frames_cons, List.length_append, length_frame, List.length_nil] at hlen
      omega

/-- At the end of its stream a connection gives 0 once the client has exited, and nothing before. -/
theorem tcpRead_end {maxsize : UInt32} {bufs : Bufs} {junk fresh : Memory} {c : Conn}
    (hend : c.incoming = []) (ks : List Nat) :
    tcpRead maxsize bufs junk fresh c (ks.map .got) =
      if c.closed = true ∧ ks ≠ [] then some ⟨0, bufs, c, ks.tail.map .got⟩ else none := by
  have hzero : (0 : Int32).toUInt32 = 0 := by decide
  cases ks with
  | nil => simp [tcpRead, readn]
  | cons k ks => cases hclosed : c.closed <;> simp [tcpRead, readn, read, hend, hclosed, hzero]

/-- The messages sent over a connection arrive as their frames, in order. -/
theorem emitAll_spec {items : List (Encoder × Payload)} (ks : List Nat) (out : Bytes)
    (hrange : ∀ x ∈ items, InRange x.2) :
    (∃ rest : List Nat, emitAll items out (ks.map .put) =
      some (out ++ frames (items.map Prod.snd), rest.map .put)) ∨
    (emitAll items out (ks.map .put) = none ∧
      ks.length < (frames (items.map Prod.snd)).length) := by
  induction items generalizing ks out with
  | nil => exact .inl ⟨ks, by simp [emitAll]⟩
  | cons item items ih =>
      obtain ⟨e, p⟩ := item
      have hp : InRange p := hrange _ List.mem_cons_self
      have hlen : p.bytes.length < 2 ^ 32 - 4 := Nat.lt_of_lt_of_le hp.2 (by decide)
      simp only [List.map_cons, frames_cons, List.length_append]
      rcases Encoder.emit_spec hlen e ks out with ⟨r, mid, hmid, hr, hout, hscript⟩ | ⟨hnone, hshort⟩
      · have hstep : emitAll ((e, p) :: items) out (ks.map .put) =
            emitAll items (out ++ frame p) (mid.map .put) := by
          simp only [emitAll, hr, hout, hscript]
        rw [hstep]
        rcases ih mid (out ++ frame p)
          (fun x hx => hrange x (List.mem_cons_of_mem _ hx)) with ⟨rest, hall⟩ | ⟨hnone, hshort⟩
        · refine .inl ⟨rest, ?_⟩
          rw [hall, List.append_assoc]
        · refine .inr ⟨hnone, ?_⟩
          have hcalls := hmid.length_le
          omega
      · refine .inr ⟨?_, by omega⟩
        simp only [emitAll, hnone]

/-- Successive `tcp_read`s report the messages of the stream, one each. -/
theorem tcpReads_spec (maxsize : UInt32) {ps : List Payload} {mems : List (Memory × Memory)}
    (ks : List Nat) (bufs : Bufs) (tail : Bytes) (closed : Bool) (hrange : ∀ p ∈ ps, InRange p)
    (hmems : mems.length = ps.length) (hks : (frames ps).length ≤ ks.length) :
    ∃ rest : List Nat, tcpReads maxsize mems bufs ⟨frames ps ++ tail, closed⟩ (ks.map .got) =
      some (ps.map fun p => (Int32.ofNat p.bytes.length, decide (¬ p.len ≤ maxsize), p.bytes),
        ⟨tail, closed⟩, rest.map .got) := by
  induction ps generalizing mems ks bufs with
  | nil =>
      rw [List.length_eq_zero_iff.mp hmems]
      exact ⟨ks, by simp [tcpReads]⟩
  | cons p ps ih =>
      obtain ⟨⟨junk, fresh⟩, mems, rfl⟩ := List.exists_cons_of_length_eq_add_one hmems
      have hp : InRange p := hrange _ List.mem_cons_self
      have hc : (⟨frames (p :: ps) ++ tail, closed⟩ : Conn).incoming =
          frame p ++ (frames ps ++ tail) := by
        rw [frames_cons, List.append_assoc]
      rw [frames_cons, List.length_append] at hks
      rcases tcpRead_frame hp.1 maxsize bufs junk fresh hc ks with
        ⟨r, mid, hmid, hr, hret, hdata, huse, hconn, hscript⟩ | ⟨-, hshort⟩
      · have hcalls := hmid.length_le
        obtain ⟨rest, hall⟩ := ih mid r.bufs
          (fun q hq => hrange q (List.mem_cons_of_mem _ hq)) (by simpa using hmems) (by omega)
        refine ⟨rest, ?_⟩
        have hreport : r.report =
            (Int32.ofNat p.bytes.length, decide (¬ p.len ≤ maxsize), p.bytes) := by
          rw [TcpReadRes.report, hret, huse, Int32.toNatClampNeg_ofNat_of_lt hp.2, hdata]
        simp only [tcpReads, hr, hconn, hscript, hall, Option.map_some, hreport, List.map_cons]
      · omega

/-! ## The reader thread -/

/-- Where a reader thread is: before `select`, in the loop over the slots that `select` reported
(and whether it reported the pipe), about to close slot `k` in its exit branch, out of `start_read`,
or stopped by one of its assertions. -/
inductive ReaderPc
  | selecting
  | serving (pending : List Nat) (rdfd : Bool)
  | closing (k : Nat)
  | exited
  | aborted
  deriving DecidableEq

/-- A reader thread: the fields of its `tcpthrinfo_t`, its buffers, and `log`, the callbacks made so
far with the slot, the length and the bytes they were given. -/
structure ReadThr where
  numSocks : Nat
  bufsize : UInt32
  conns : Nat → Conn
  rdpipe : Conn
  bufs : Bufs
  pc : ReaderPc
  log : List (Nat × UInt32 × Bytes)

/-- `select` reports a descriptor that has something to read or whose peer has closed. -/
def Conn.Readable (c : Conn) : Prop := c.incoming ≠ [] ∨ c.closed = true

instance (c : Conn) : Decidable c.Readable := inferInstanceAs (Decidable (_ ∨ _))

/-- The steps of a reader thread. -/
inductive ReadLabel
  | select (ready : List Nat) (rdfd : Bool)
  | selectFail
  | serve (script : List ReadOutcome) (junk fresh : Memory)
  | rdpipe (o : ReadOutcome)
  | close

namespace ReadThr

/-- The loop over the slots goes on, or the next `select`. -/
def next (rest : List Nat) (rdfd : Bool) : ReaderPc :=
  if rest = [] ∧ rdfd = false then .selecting else .serving rest rdfd

/-- One ready socket: `tcp_read`, then the callback unless the client has exited. Outcomes in the
label beyond the calls that are made say nothing. -/
def serve (s : ReadThr) (idx : Nat) (rest : List Nat) (rdfd : Bool) (script : List ReadOutcome)
    (junk fresh : Memory) : Option ReadThr :=
  match tcpRead s.bufsize s.bufs junk fresh (s.conns idx) script with
  | none => none
  | some r =>
      let s' := { s with conns := Function.update s.conns idx r.conn, bufs := r.bufs }
      if r.ret = 0 then some { s' with pc := next rest rdfd }
      else if 0 < r.ret then
        some { s' with
          log := s.log ++ [(idx, r.ret.toUInt32, peek r.bufs.data r.ret.toNatClampNeg)],
          pc := next rest rdfd }
      else some { s' with pc := .aborted }

/-- The read of the pipe: at its end the thread takes the exit branch. -/
def readPipe (s : ReadThr) (o : ReadOutcome) : Option ReadThr :=
  match read s.bufsize.toNat s.rdpipe o with
  | none => none
  | some (n, chunk, c) =>
      let s' := { s with rdpipe := c, bufs := { s.bufs with rdbuf := poke s.bufs.rdbuf 0 chunk } }
      let rsize := Int32.ofNat n
      if rsize < 0 then some { s' with pc := .aborted }
      else if rsize = 0 then some { s' with pc := .closing 0 }
      else some { s' with pc := .selecting }

/-- One step of a reader thread. Source: `threadpool.cpp`, `start_read`. -/
def step (s : ReadThr) (l : ReadLabel) : Option ReadThr :=
  match s.pc, l with
  | .selecting, .select ready rdfd =>
      if (ready ≠ [] ∨ rdfd = true) ∧ (∀ i ∈ ready, i < s.numSocks ∧ (s.conns i).Readable) ∧
          (rdfd = true → s.rdpipe.Readable) then
        some { s with pc := .serving ((List.range s.numSocks).filter (· ∈ ready)) rdfd }
      else none
  | .selecting, .selectFail => some { s with pc := .aborted }
  | .serving (idx :: rest) rdfd, .serve script junk fresh => s.serve idx rest rdfd script junk fresh
  | .serving [] true, .rdpipe o => s.readPipe o
  | .closing k, .close =>
      some { s with pc := if k < s.numSocks then .closing (k + 1) else .exited }
  | _, _ => none

/-- A reader thread about to start on the given streams. -/
def start (numSocks : Nat) (bufsize : UInt32) (conns : Nat → Conn) (rdpipe : Conn) (bufs : Bufs) :
    ReadThr where
  numSocks := numSocks
  bufsize := bufsize
  conns := conns
  rdpipe := rdpipe
  bufs := bufs
  pc := .selecting
  log := []

/-- No call fails. -/
def NoError : ReadLabel → Prop
  | .select _ _ => True
  | .selectFail => False
  | .serve script _ _ => ∀ o ∈ script, o ≠ .err
  | .rdpipe o => o ≠ .err
  | .close => True

/-- What the callback is given for each of the messages. -/
def given (ps : List Payload) : List (UInt32 × Bytes) := ps.map fun p => (p.len, p.bytes)

theorem given_append (ps qs : List Payload) : given (ps ++ qs) = given ps ++ given qs :=
  List.map_append

/-- A step from this state serves slot `i`, or not. -/
def turn (s : ReadThr) (i : Nat) : Nat :=
  match s.pc with
  | .serving (idx :: _) _ => if idx = i then 1 else 0
  | _ => 0

/-- How often slot `i` is served along a run. -/
def served (i : Nat) : ReadThr → List ReadLabel → Nat
  | _, [] => 0
  | s, l :: ls =>
      s.turn i +
        match s.step l with
        | some t => served i t ls
        | none => 0

/-- **Delivery by a reader thread**: between the two states no assertion fails, and of the messages
on the stream of slot `i` the next `k i` were given to the callback, once each and in order, and
their frames and nothing else were consumed. -/
structure Delivers (msgs : Nat → List Payload) (k : Nat → Nat) (s s' : ReadThr) : Prop where
  asserts : s'.pc ≠ .aborted
  calls : ∀ i, pipe i s'.log = pipe i s.log ++ given ((msgs i).take (k i))
  stream : ∀ i, (s'.conns i).incoming = frames ((msgs i).drop (k i))

/-- One message is served: one callback with its bytes, which are in the buffer the flag selects, and
one frame consumed. -/
structure TakesMessage (idx : Nat) (p : Payload) (s s' : ReadThr) : Prop where
  called : s'.log = s.log ++ [(idx, p.len, p.bytes)]
  consumed : (s.conns idx).incoming = frame p ++ (s'.conns idx).incoming
  others : ∀ i, i ≠ idx → s'.conns i = s.conns i
  selected : s'.bufs.useTempbuf = decide (¬ p.len ≤ s.bufsize)
  held : peek s'.bufs.data p.bytes.length = p.bytes

/-- The slots still to be served in the loop are distinct and were reported for a reason that still
stands; the loop is left when there are none. -/
def Pending (s : ReadThr) : Prop :=
  ∀ pending rdfd, s.pc = .serving pending rdfd →
    (pending = [] → rdfd = true) ∧ pending.Nodup ∧
      ∀ i ∈ pending, i < s.numSocks ∧ (s.conns i).Readable

/-- A list of outcomes without an error is a list of lengths. -/
theorem exists_got {script : List ReadOutcome} (h : ∀ o ∈ script, o ≠ .err) :
    ∃ ks : List Nat, script = ks.map .got := by
  induction script with
  | nil => exact ⟨[], rfl⟩
  | cons o script ih =>
      obtain ⟨ks, rfl⟩ := ih fun o ho => h o (List.mem_cons_of_mem _ ho)
      cases o with
      | got k => exact ⟨k :: ks, rfl⟩
      | err => exact absurd rfl (h .err List.mem_cons_self)

theorem next_ne_aborted (rest : List Nat) (rdfd : Bool) : next rest rdfd ≠ .aborted := by
  unfold next
  split_ifs <;> simp

section

variable {msgs : Nat → List Payload} {s s' : ReadThr}

/-! ### One ready socket -/

/-- **A ready socket with a message left is served with it**, unless the calls run out first. -/
theorem serve_message {idx : Nat} {p : Payload} (hp : InRange p) {tail : Bytes}
    (hstream : (s.conns idx).incoming = frame p ++ tail) (rest : List Nat) (rdfd : Bool)
    (junk fresh : Memory) (ks : List Nat) :
    (∃ s', s.serve idx rest rdfd (ks.map .got) junk fresh = some s' ∧ TakesMessage idx p s s' ∧
      (s'.conns idx).incoming = tail ∧ s'.pc = next rest rdfd) ∨
    (s.serve idx rest rdfd (ks.map .got) junk fresh = none ∧ ks.length < (frame p).length) := by
  rcases tcpRead_frame hp.1 s.bufsize s.bufs junk fresh hstream ks with
    ⟨r, -, -, hr, hret, hdata, huse, hconn, -⟩ | ⟨hnone, hshort⟩
  · refine .inl ?_
    have hpos : 0 < r.ret := by
      rw [hret]
      exact hp.ofNat_pos
    have hlog : (idx, r.ret.toUInt32, peek r.bufs.data r.ret.toNatClampNeg) =
        (idx, p.len, p.bytes) := by
      rw [hret, Int32.toNatClampNeg_ofNat_of_lt hp.2, hdata]
      rfl
    simp only [serve, hr, if_neg (Int32.ne_of_lt hpos).symm, if_pos hpos, hlog]
    refine ⟨_, rfl, ⟨rfl, ?_, ?_, huse, hdata⟩, ?_, rfl⟩
    · simp [hconn, hstream]
    · exact fun i hi => Function.update_of_ne hi _ _
    · simp [hconn]
  · exact .inr ⟨by simp [serve, hnone], hshort⟩

/-- At the end of its stream a socket is served without a callback if the client has exited, and
blocks the thread if not. -/
theorem serve_end {idx : Nat} (hend : (s.conns idx).incoming = []) (rest : List Nat) (rdfd : Bool)
    (junk fresh : Memory) (ks : List Nat) :
    s.serve idx rest rdfd (ks.map .got) junk fresh =
      if (s.conns idx).closed = true ∧ ks ≠ [] then some { s with pc := next rest rdfd }
      else none := by
  rw [serve, tcpRead_end hend]
  by_cases hgives : (s.conns idx).closed = true ∧ ks ≠ []
  · simp [if_pos hgives]
  · simp only [if_neg hgives]

/-- Serving a socket leaves the others alone, and the loop goes on unless an assertion fails. -/
theorem serve_other {idx : Nat} {rest : List Nat} {rdfd : Bool} {script : List ReadOutcome}
    {junk fresh : Memory} (h : s.serve idx rest rdfd script junk fresh = some s') :
    s'.numSocks = s.numSocks ∧ (∀ i, i ≠ idx → s'.conns i = s.conns i) ∧
      (s'.pc = next rest rdfd ∨ s'.pc = .aborted) := by
  unfold serve at h
  split at h
  · cases h
  dsimp only at h
  split_ifs at h <;> cases h
  · exact ⟨rfl, fun i hi => Function.update_of_ne hi _ _, .inl rfl⟩
  · exact ⟨rfl, fun i hi => Function.update_of_ne hi _ _, .inl rfl⟩
  · exact ⟨rfl, fun i hi => Function.update_of_ne hi _ _, .inr rfl⟩

/-! ### One step -/

/-- What a step without an error is: a `select`, one socket served, or a step of the pipe and the
exit branch, which touches no socket. -/
theorem step_cases {l : ReadLabel} (hok : NoError l) (h : s.step l = some s') :
    (∃ ready rdfd, s.pc = .selecting ∧ (ready ≠ [] ∨ rdfd = true) ∧
      (∀ i ∈ ready, i < s.numSocks ∧ (s.conns i).Readable) ∧
      s' = { s with pc := .serving ((List.range s.numSocks).filter (· ∈ ready)) rdfd }) ∨
    (∃ idx rest rdfd, ∃ ks : List Nat, ∃ junk fresh, s.pc = .serving (idx :: rest) rdfd ∧
      s.serve idx rest rdfd (ks.map .got) junk fresh = some s') ∨
    ((∀ i, s.turn i = 0) ∧ s'.pc ≠ .aborted ∧ (∀ pending rdfd, s'.pc ≠ .serving pending rdfd) ∧
      s'.numSocks = s.numSocks ∧ s'.conns = s.conns ∧ s'.log = s.log) := by
  unfold step at h
  split at h
  · rename_i ready rdfd hpc
    split_ifs at h with hselect
    cases h
    exact .inl ⟨ready, rdfd, hpc, hselect.1, hselect.2.1, rfl⟩
  · cases hok
  · rename_i idx rest rdfd script junk fresh hpc
    obtain ⟨ks, rfl⟩ := exists_got hok
    exact .inr (.inl ⟨idx, rest, rdfd, ks, junk, fresh, hpc, h⟩)
  · rename_i o hpc
    refine .inr (.inr ⟨fun i => by simp [turn, hpc], ?_⟩)
    unfold readPipe at h
    split at h
    · cases h
    rename_i n chunk c hread
    -- a read that does not fail returns a count, and a count is not negative
    have hnonneg : ¬ Int32.ofNat n < 0 := by
      cases o with
      | err => exact absurd rfl hok
      | got k => exact ofNat_not_neg (read_count_lt hread)
    rw [if_neg hnonneg] at h
    split_ifs at h <;> cases h <;> exact ⟨by simp, by simp, rfl, rfl, rfl⟩
  · rename_i k hpc
    cases h
    refine .inr (.inr ⟨fun i => by simp [turn, hpc], ?_, ?_, rfl, rfl, rfl⟩)
    · dsimp only
      split_ifs <;> simp
    · dsimp only
      split_ifs <;> simp
  · cases h

/-! ### Delivery -/

/-- Nothing is delivered by a step that touches no socket. -/
theorem delivers_of_eq (hstream : ∀ i, (s.conns i).incoming = frames (msgs i)) {k : Nat → Nat}
    (hk : ∀ i, k i = 0) (hpc : s'.pc ≠ .aborted) (hconns : s'.conns = s.conns)
    (hlog : s'.log = s.log) : Delivers msgs k s s' where
  asserts := hpc
  calls i := by simp [hk, hlog, given]
  stream i := by simp [hk, hconns, hstream]

/-- What is delivered up to a state and what is delivered from there. -/
theorem Delivers.trans {k k' : Nat → Nat} {s'' : ReadThr} (h : Delivers msgs k s s')
    (h' : Delivers (fun i => (msgs i).drop (k i)) k' s' s'') :
    Delivers msgs (fun i => k i + k' i) s s'' where
  asserts := h'.asserts
  calls i := by
    rw [h'.calls, h.calls, List.append_assoc, ← given_append, ← List.take_add]
  stream i := by rw [h'.stream, List.drop_drop]

/-- A socket that is served delivers its next message, if it has one. -/
theorem delivers_serve (hrange : ∀ i, ∀ p ∈ msgs i, InRange p)
    (hstream : ∀ i, (s.conns i).incoming = frames (msgs i)) {idx : Nat} {rest : List Nat}
    {rdfd : Bool} {ks : List Nat} {junk fresh : Memory}
    (h : s.serve idx rest rdfd (ks.map .got) junk fresh = some s') :
    s'.pc = next rest rdfd ∧ Delivers msgs (fun i => if idx = i then 1 else 0) s s' := by
  cases hmsgs : msgs idx with
  | nil =>
      -- the client has exited: no callback, and the stream stays at its end
      have hend : (s.conns idx).incoming = [] := by rw [hstream, hmsgs, frames_nil]
      rw [serve_end hend] at h
      split_ifs at h
      cases h
      refine ⟨rfl, next_ne_aborted _ _, fun i => ?_, fun i => ?_⟩
      · by_cases hi : idx = i
        · subst hi
          simp [hmsgs, given]
        · simp [hi, given]
      · by_cases hi : idx = i
        · subst hi
          simp [hmsgs, hend]
        · simp [hi, hstream]
  | cons p after =>
      have hp : InRange p := hrange idx p (by simp [hmsgs])
      have hcut : (s.conns idx).incoming = frame p ++ frames after := by
        rw [hstream, hmsgs, frames_cons]
      rcases serve_message hp hcut rest rdfd junk fresh ks with
        ⟨t, ht, htakes, hrest, hpc⟩ | ⟨hnone, -⟩
      · rw [ht, Option.some.injEq] at h
        subst h
        refine ⟨hpc, ?_, fun i => ?_, fun i => ?_⟩
        · rw [hpc]
          exact next_ne_aborted _ _
        · rw [htakes.called, pipe_append]
          by_cases hi : idx = i
          · subst hi
            simp [hmsgs, given]
          · simp [hi, given]
        · by_cases hi : idx = i
          · subst hi
            simp [hmsgs, hrest]
          · simp [hi, htakes.others i (Ne.symm hi), hstream]
      · rw [hnone] at h
        cases h

/-- **Every step without an error delivers the next message of the slot whose turn it is.** -/
theorem delivers_step (hrange : ∀ i, ∀ p ∈ msgs i, InRange p)
    (hstream : ∀ i, (s.conns i).incoming = frames (msgs i)) {l : ReadLabel} (hok : NoError l)
    (h : s.step l = some s') : Delivers msgs s.turn s s' := by
  rcases step_cases hok h with ⟨ready, rdfd, hpc, -, -, rfl⟩ |
    ⟨idx, rest, rdfd, ks, junk, fresh, hpc, hserve⟩ | ⟨hturn, hpc', -, -, hconns, hlog⟩
  · exact delivers_of_eq hstream (fun i => by simp [turn, hpc]) (by simp) rfl rfl
  · have hturn : s.turn = fun i => if idx = i then 1 else 0 := by
      funext i
      simp [turn, hpc]
    rw [hturn]
    exact (delivers_serve hrange hstream hserve).2
  · exact delivers_of_eq hstream hturn hpc' hconns hlog

/-- **A run without an error delivers, of every slot, one message for each time it was served.** -/
theorem delivers_exec (hrange : ∀ i, ∀ p ∈ msgs i, InRange p)
    (hstream : ∀ i, (s.conns i).incoming = frames (msgs i)) (hpc : s.pc ≠ .aborted)
    {ls : List ReadLabel} (hok : ∀ l ∈ ls, NoError l) (hrun : exec step s ls = some s') :
    Delivers msgs (fun i => served i s ls) s s' := by
  induction ls generalizing s msgs with
  | nil =>
      cases hrun
      exact delivers_of_eq hstream (fun _ => rfl) hpc rfl rfl
  | cons l ls ih =>
      obtain ⟨t, ht, hrun⟩ := exec_cons_eq_some.mp hrun
      have hfirst := delivers_step hrange hstream (hok l List.mem_cons_self) ht
      have hrest := ih (fun i p hp => hrange i p (List.mem_of_mem_drop hp)) hfirst.stream
        hfirst.asserts (fun l hl => hok l (List.mem_cons_of_mem _ hl)) hrun
      have hsum : (fun i => served i s (l :: ls)) = fun i => s.turn i + served i t ls := by
        funext i
        simp only [served, ht]
      rw [hsum]
      exact hfirst.trans hrest

/-! ### Progress -/

/-- The slots still to be served stay ready while the others are served. -/
theorem pending_serve {idx : Nat} {rest : List Nat} {rdfd : Bool} {script : List ReadOutcome}
    {junk fresh : Memory} (hs : Pending s) (hpc : s.pc = .serving (idx :: rest) rdfd)
    (h : s.serve idx rest rdfd script junk fresh = some s') : Pending s' := by
  obtain ⟨hsocks, hothers, hpc' | hpc'⟩ := serve_other h
  · obtain ⟨-, hnodup, hready⟩ := hs _ _ hpc
    rw [List.nodup_cons] at hnodup
    intro pending rdfd' hserving
    rw [hpc', next] at hserving
    split_ifs at hserving with hlast
    cases hserving
    refine ⟨fun hnil => by simpa [hnil] using hlast, hnodup.2, ?_⟩
    intro i hi
    have hne : i ≠ idx := fun h => hnodup.1 (h ▸ hi)
    rw [hsocks, hothers i hne]
    exact hready i (List.mem_cons_of_mem _ hi)
  · intro pending rdfd' hserving
    rw [hpc'] at hserving
    cases hserving

/-- What `select` reports is pending. -/
theorem pending_select {ready : List Nat} {rdfd : Bool} (hne : ready ≠ [] ∨ rdfd = true)
    (hready : ∀ i ∈ ready, i < s.numSocks ∧ (s.conns i).Readable) :
    Pending { s with pc := .serving ((List.range s.numSocks).filter (· ∈ ready)) rdfd } := by
  intro pending rdfd' hpc
  cases hpc
  refine ⟨?_, List.nodup_range.filter _, ?_⟩
  · intro hnil
    rcases hne with hne | hrdfd
    · obtain ⟨i, hi⟩ := List.exists_mem_of_ne_nil _ hne
      have hmem : i ∈ (List.range s.numSocks).filter (· ∈ ready) := by
        simp [hi, (hready i hi).1]
      rw [hnil] at hmem
      cases hmem
    · exact hrdfd
  · intro i hi
    exact hready i (by simpa using (List.mem_filter.mp hi).2)

theorem pending_step {l : ReadLabel} (hok : NoError l) (hs : Pending s) (h : s.step l = some s') :
    Pending s' := by
  rcases step_cases hok h with ⟨ready, rdfd, hpc, hne, hready, rfl⟩ |
    ⟨idx, rest, rdfd, ks, junk, fresh, hpc, hserve⟩ | ⟨-, -, hpc', -, -, -⟩
  · exact pending_select hne hready
  · exact pending_serve hs hpc hserve
  · exact fun pending rdfd hpc => absurd hpc (hpc' pending rdfd)

theorem pending_exec {ls : List ReadLabel} (hok : ∀ l ∈ ls, NoError l) (hs : Pending s)
    (hrun : exec step s ls = some s') : Pending s' := by
  have hmeets : Meets step (fun _ l => NoError l) s ls :=
    meets_of_forall_mem fun l hl _ => hok l hl
  exact exec_invariant_of_meets (fun s l t hs hl h => pending_step hl hs h) hs hmeets hrun

/-- A ready socket can be served: byte by byte, or at the end of its stream by one call. -/
theorem exists_serve (hrange : ∀ i, ∀ p ∈ msgs i, InRange p)
    (hstream : ∀ i, (s.conns i).incoming = frames (msgs i)) {idx : Nat}
    (hready : (s.conns idx).Readable) (rest : List Nat) (rdfd : Bool) (junk fresh : Memory) :
    ∃ (ks : List Nat) (s' : ReadThr),
      s.serve idx rest rdfd (ks.map .got) junk fresh = some s' := by
  cases hmsgs : msgs idx with
  | nil =>
      have hend : (s.conns idx).incoming = [] := by rw [hstream, hmsgs, frames_nil]
      have hclosed : (s.conns idx).closed = true := hready.resolve_left fun h => h hend
      refine ⟨[0], { s with pc := next rest rdfd }, ?_⟩
      rw [serve_end hend, if_pos ⟨hclosed, by simp⟩]
  | cons p after =>
      have hcut : (s.conns idx).incoming = frame p ++ frames after := by
        rw [hstream, hmsgs, frames_cons]
      have hp : InRange p := hrange idx p (by simp [hmsgs])
      rcases serve_message hp hcut rest rdfd junk fresh (List.replicate (frame p).length 0) with
        ⟨t, ht, -⟩ | ⟨-, hshort⟩
      · exact ⟨_, t, ht⟩
      · rw [List.length_replicate] at hshort
        exact absurd hshort (Nat.lt_irrefl _)

/-- **The loop over the slots can be run to its end, and serves each of them once.** -/
theorem exists_loop (hrange : ∀ i, ∀ p ∈ msgs i, InRange p)
    (hstream : ∀ i, (s.conns i).incoming = frames (msgs i)) (hs : Pending s) {pending : List Nat}
    (hpc : s.pc = .serving pending false) :
    ∃ ls s', (∀ l ∈ ls, NoError l) ∧ exec step s ls = some s' ∧ s'.pc = .selecting ∧
      s'.numSocks = s.numSocks ∧ Delivers msgs (fun i => if i ∈ pending then 1 else 0) s s' := by
  induction pending generalizing s msgs with
  | nil => exact absurd ((hs _ _ hpc).1 rfl) (by simp)
  | cons idx rest ih =>
      obtain ⟨-, hnodup, hready⟩ := hs _ _ hpc
      rw [List.nodup_cons] at hnodup
      have hmem : ∀ i, (if i ∈ idx :: rest then 1 else 0) =
          (if idx = i then 1 else 0) + (if i ∈ rest then 1 else 0) := by
        intro i
        by_cases hi : idx = i
        · subst hi
          simp [hnodup.1]
        · simp [hi, Ne.symm hi]
      simp only [hmem]
      obtain ⟨ks, t, ht⟩ := exists_serve hrange hstream (hready idx List.mem_cons_self).2 rest
        false (fun _ => 0) (fun _ => 0)
      have hstep : s.step (.serve (ks.map .got) (fun _ => 0) (fun _ => 0)) = some t := by
        simp only [step, hpc, ht]
      have hok : NoError (.serve (ks.map .got) (fun _ => 0) (fun _ => 0)) := by
        simp [NoError]
      obtain ⟨htpc, hfirst⟩ := delivers_serve hrange hstream ht
      have hsocks := (serve_other ht).1
      by_cases hlast : rest = []
      · subst hlast
        refine ⟨[_], t, by simpa using hok, exec_cons_eq_some.mpr ⟨t, hstep, rfl⟩, ?_, hsocks, ?_⟩
        · rw [htpc]
          rfl
        · simpa using hfirst
      · have hserving : t.pc = .serving rest false := by
          rw [htpc, next, if_neg fun h => hlast h.1]
        obtain ⟨ls, u, hls, hrun, hupc, husocks, hrest⟩ :=
          ih (fun i p hp => hrange i p (List.mem_of_mem_drop hp)) hfirst.stream
            (pending_serve hs hpc ht) hserving
        exact ⟨_ :: ls, u, List.forall_mem_cons.mpr ⟨hok, hls⟩,
          exec_cons_eq_some.mpr ⟨t, hstep, hrun⟩, hupc, husocks.trans hsocks, hfirst.trans hrest⟩

/-- **A round**: whatever sockets `select` reports, the thread comes back to `select` after it has
served each of them once and no other. -/
theorem exists_round (hrange : ∀ i, ∀ p ∈ msgs i, InRange p)
    (hstream : ∀ i, (s.conns i).incoming = frames (msgs i)) (hpc : s.pc = .selecting)
    {ready : List Nat} (hne : ready ≠ [])
    (hready : ∀ i ∈ ready, i < s.numSocks ∧ (s.conns i).Readable) :
    ∃ ls s', (∀ l ∈ ls, NoError l) ∧ exec step s (.select ready false :: ls) = some s' ∧
      s'.pc = .selecting ∧ s'.numSocks = s.numSocks ∧
      Delivers msgs (fun i => if i ∈ ready then 1 else 0) s s' := by
  have hselect : s.step (.select ready false) =
      some { s with pc := .serving ((List.range s.numSocks).filter (· ∈ ready)) false } := by
    simp only [step, hpc]
    exact if_pos ⟨.inl hne, hready, by simp⟩
  obtain ⟨ls, t, hls, hrun, htpc, hsocks, hdelivers⟩ :=
    exists_loop hrange (s := { s with pc := .serving _ false }) hstream
      (pending_select (.inl hne) hready) rfl
  refine ⟨ls, t, hls, exec_cons_eq_some.mpr ⟨_, hselect, hrun⟩, htpc, hsocks, ?_⟩
  have hmem : ∀ i, i ∈ (List.range s.numSocks).filter (· ∈ ready) ↔ i ∈ ready := by
    intro i
    simp only [List.mem_filter, List.mem_range, decide_eq_true_eq, and_iff_right_iff_imp]
    exact fun hi => (hready i hi).1
  simp only [hmem] at hdelivers
  exact ⟨hdelivers.asserts, hdelivers.calls, hdelivers.stream⟩

/-- From `select` some run calls back for everything that is left on the sockets of the thread. -/
theorem exists_complete_of_selecting (hrange : ∀ i, ∀ p ∈ msgs i, InRange p)
    (hstream : ∀ i, (s.conns i).incoming = frames (msgs i)) (hpc : s.pc = .selecting) :
    ∃ ls s', (∀ l ∈ ls, NoError l) ∧ exec step s ls = some s' ∧
      ∀ i < s.numSocks, pipe i s'.log = pipe i s.log ++ given (msgs i) := by
  induction h : ∑ i ∈ Finset.range s.numSocks, (msgs i).length using Nat.strong_induction_on
    generalizing s msgs with
  | _ left ih =>
      by_cases hdone : ∀ i < s.numSocks, msgs i = []
      · refine ⟨[], s, by simp, rfl, ?_⟩
        intro i hi
        simp [hdone i hi, given]
      · simp only [not_forall] at hdone
        obtain ⟨idx, hidx, hmsgs⟩ := hdone
        have hreadable : (s.conns idx).Readable := by
          refine .inl fun hend => hmsgs (frames_eq_nil ?_)
          rw [← hstream, hend]
        obtain ⟨ls, t, hls, hrun, htpc, hsocks, hround⟩ :=
          exists_round hrange hstream hpc (List.cons_ne_nil idx []) (by simp [hidx, hreadable])
        have hless : ∑ i ∈ Finset.range t.numSocks,
            ((msgs i).drop (if i ∈ [idx] then 1 else 0)).length < left := by
          rw [hsocks, ← h]
          refine Finset.sum_lt_sum (fun i _ => by simp) ⟨idx, by simpa using hidx, ?_⟩
          have := List.length_pos_iff.mpr hmsgs
          simp only [List.mem_singleton, if_true, List.length_drop]
          omega
        obtain ⟨ms, u, hms, hmore, hall⟩ :=
          ih _ hless (fun i p hp => hrange i p (List.mem_of_mem_drop hp)) hround.stream htpc rfl
        refine ⟨(.select [idx] false :: ls) ++ ms, u, ?_, exec_append_eq_some.mpr ⟨t, hrun, hmore⟩, ?_⟩
        · rw [List.forall_mem_append, List.forall_mem_cons]
          exact ⟨⟨trivial, hls⟩, hms⟩
        · intro i hi
          rw [hall i (hsocks ▸ hi), hround.calls, List.append_assoc, ← given_append,
            List.take_append_drop]

/-- **All messages can be delivered**: from `select` or from the loop over the slots some run calls
back for everything that is left on the sockets of the thread. -/
theorem exists_complete (hrange : ∀ i, ∀ p ∈ msgs i, InRange p)
    (hstream : ∀ i, (s.conns i).incoming = frames (msgs i)) (hs : Pending s)
    (hpc : s.pc = .selecting ∨ ∃ pending, s.pc = .serving pending false) :
    ∃ ls s', (∀ l ∈ ls, NoError l) ∧ exec step s ls = some s' ∧
      ∀ i < s.numSocks, pipe i s'.log = pipe i s.log ++ given (msgs i) := by
  rcases hpc with hpc | ⟨pending, hpc⟩
  · exact exists_complete_of_selecting hrange hstream hpc
  · obtain ⟨ls, t, hls, hrun, htpc, hsocks, hloop⟩ := exists_loop hrange hstream hs hpc
    obtain ⟨ms, u, hms, hmore, hall⟩ := exists_complete_of_selecting
      (fun i p hp => hrange i p (List.mem_of_mem_drop hp)) hloop.stream htpc
    refine ⟨ls ++ ms, u, ?_, exec_append_eq_some.mpr ⟨t, hrun, hmore⟩, ?_⟩
    · rw [List.forall_mem_append]
      exact ⟨hls, hms⟩
    · intro i hi
      rw [hall i (hsocks ▸ hi), hloop.calls, List.append_assoc, ← given_append,
        List.take_append_drop]

end

end ReadThr

/-! ## The round trip -/

/-- The two encoders put the same bytes on the connection: the frame. -/
def EncodersAgree : Prop :=
  ∀ (p : Payload), InRange p → ∀ (out : Bytes) (ks ks' : List Nat), (frame p).length ≤ ks.length →
    (frame p).length ≤ ks'.length →
    (Encoder.msgT.emit p out (ks.map .put)).map WriteRes.out = some (out ++ frame p) ∧
    (Encoder.tcpWrite.emit p out (ks'.map .put)).map WriteRes.out = some (out ++ frame p)

/-- Whatever the encoders, the splits, the buffers and what follows on the connection: successive
calls of `tcp_read` report the messages, one each, and consume the frames and nothing else. -/
def ReadsBack : Prop :=
  ∀ (items : List (Encoder × Payload)), (∀ x ∈ items, InRange x.2) → ∀ (ws : List Nat),
    (frames (items.map Prod.snd)).length ≤ ws.length →
    ∃ (stream : Bytes) (ws' : List Nat),
      emitAll items [] (ws.map .put) = some (stream, ws'.map .put) ∧
      ∀ (maxsize : UInt32) (bufs : Bufs) (mems : List (Memory × Memory)) (tail : Bytes)
        (closed : Bool) (rs : List Nat), mems.length = items.length → stream.length ≤ rs.length →
        ∃ rs' : List Nat, tcpReads maxsize mems bufs ⟨stream ++ tail, closed⟩ (rs.map .got) =
          some (items.map (fun x => (Int32.ofNat x.2.bytes.length, decide (¬ x.2.len ≤ maxsize),
            x.2.bytes)), ⟨tail, closed⟩, rs'.map .got)

/-- What a run of a reader thread from `start`, on the streams of the messages `msgs`, has done in its
last state `s` and can still do. -/
structure CallsBackIn (msgs : Nat → List Payload) (start : ReadThr) (ls : List ReadLabel)
    (s : ReadThr) : Prop where
  /-- No assertion has failed. -/
  asserts : s.pc ≠ .aborted
  /-- Every time a socket was served its callback was given the next message, once and in order. -/
  once : ∀ i, pipe i s.log = ReadThr.given ((msgs i).take (ReadThr.served i start ls))
  /-- The stream of every socket stands at the frame of the next message. -/
  stream : ∀ i, (s.conns i).incoming = frames ((msgs i).drop (ReadThr.served i start ls))
  /-- A ready socket with a message left is served with exactly this message, however the calls
  split its frame. -/
  serve : ∀ idx rest rdfd p after, s.pc = .serving (idx :: rest) rdfd →
    (msgs idx).drop (ReadThr.served idx start ls) = p :: after →
    ∀ (junk fresh : Memory) (ks : List Nat), (frame p).length ≤ ks.length →
      ∃ s', s.step (.serve (ks.map .got) junk fresh) = some s' ∧ ReadThr.TakesMessage idx p s s' ∧
        s'.pc = ReadThr.next rest rdfd
  /-- Whatever sockets `select` reports, a round that serves each of them once can be run. -/
  round : ∀ ready, s.pc = .selecting → ready ≠ [] →
    (∀ i ∈ ready, i < s.numSocks ∧ (s.conns i).Readable) →
    ∃ more s', (∀ l ∈ more, ReadThr.NoError l) ∧
      exec ReadThr.step s (.select ready false :: more) = some s' ∧ s'.pc = .selecting ∧
      ReadThr.Delivers (fun i => (msgs i).drop (ReadThr.served i start ls))
        (fun i => if i ∈ ready then 1 else 0) s s'
  /-- Unless the pipe of the thread was reported, the run can go on until every message of every
  socket has been given to the callback. -/
  completes : s.pc = .selecting ∨ (∃ pending, s.pc = .serving pending false) →
    ∃ more s', (∀ l ∈ more, ReadThr.NoError l) ∧ exec ReadThr.step s more = some s' ∧
      ∀ i < s.numSocks, pipe i s'.log = ReadThr.given (msgs i)

/-- A reader thread on the streams of any sets of messages calls back once for each of them, in every
run without an error, whatever `select` reports and however the reads split the frames. -/
def CallsBack : Prop :=
  ∀ (items : Nat → List (Encoder × Payload)) (stream : Nat → Bytes),
    (∀ i, ∀ x ∈ items i, InRange x.2) →
    (∀ i, ∃ ws ws' : List Nat, emitAll (items i) [] (ws.map .put) = some (stream i, ws'.map .put)) →
    ∀ (numSocks : Nat) (bufsize : UInt32) (closed : Nat → Bool) (rdpipe : Conn) (bufs : Bufs)
      (ls : List ReadLabel) (s : ReadThr), (∀ l ∈ ls, ReadThr.NoError l) →
      exec ReadThr.step (ReadThr.start numSocks bufsize (fun i => ⟨stream i, closed i⟩) rdpipe bufs) ls
        = some s →
      CallsBackIn (fun i => (items i).map Prod.snd)
        (ReadThr.start numSocks bufsize (fun i => ⟨stream i, closed i⟩) rdpipe bufs) ls s

theorem encodersAgree : EncodersAgree := by
  intro p hp out ks ks' hks hks'
  have hlen : p.bytes.length < 2 ^ 32 - 4 := Nat.lt_of_lt_of_le hp.2 (by decide)
  have hboth : ∀ (e : Encoder) (ks : List Nat), (frame p).length ≤ ks.length →
      (e.emit p out (ks.map .put)).map WriteRes.out = some (out ++ frame p) := by
    intro e ks hks
    rcases Encoder.emit_spec hlen e ks out with ⟨r, -, -, hr, hout, -⟩ | ⟨-, hshort⟩
    · rw [hr, Option.map_some, hout]
    · omega
  exact ⟨hboth .msgT ks hks, hboth .tcpWrite ks' hks'⟩

theorem readsBack : ReadsBack := by
  intro items hrange ws hws
  rcases emitAll_spec ws [] hrange with ⟨ws', hemit⟩ | ⟨-, hshort⟩
  · refine ⟨_, ws', hemit, ?_⟩
    intro maxsize bufs mems tail closed rs hmems hrs
    have hps : ∀ p ∈ items.map Prod.snd, InRange p := by
      intro p hp
      obtain ⟨x, hx, rfl⟩ := List.mem_map.mp hp
      exact hrange x hx
    obtain ⟨rest, hreads⟩ := tcpReads_spec maxsize rs bufs tail closed hps
      (hmems.trans (List.length_map _).symm) hrs
    refine ⟨rest, ?_⟩
    rw [List.nil_append, hreads, List.map_map]
    rfl
  · omega

/-- A run from a thread that has made no callback and served no slot calls back. -/
theorem ReadThr.callsBackIn_exec {msgs : Nat → List Payload} {s₀ s : ReadThr}
    (hrange : ∀ i, ∀ p ∈ msgs i, InRange p) (hstream : ∀ i, (s₀.conns i).incoming = frames (msgs i))
    (hpc : s₀.pc ≠ .aborted) (hlog : s₀.log = []) (hpending : Pending s₀) {ls : List ReadLabel}
    (hok : ∀ l ∈ ls, NoError l) (hrun : exec step s₀ ls = some s) : CallsBackIn msgs s₀ ls s := by
  have hs := delivers_exec hrange hstream hpc hok hrun
  have hleft : ∀ i, ∀ p ∈ (msgs i).drop (served i s₀ ls), InRange p :=
    fun i p hp => hrange i p (List.mem_of_mem_drop hp)
  have honce : ∀ i, pipe i s.log = given ((msgs i).take (served i s₀ ls)) := by
    intro i
    rw [hs.calls, hlog, pipe_nil, List.nil_append]
  refine ⟨hs.asserts, honce, hs.stream, ?_, ?_, ?_⟩
  · intro idx rest rdfd p after hserving hnext junk fresh ks hks
    have hcut : (s.conns idx).incoming = frame p ++ frames after := by
      rw [hs.stream, hnext, frames_cons]
    have hp : InRange p := hleft idx p (by simp [hnext])
    rcases serve_message hp hcut rest rdfd junk fresh ks with ⟨t, ht, htakes, -, htpc⟩ | ⟨-, hshort⟩
    · exact ⟨t, by simpa only [step, hserving] using ht, htakes, htpc⟩
    · omega
  · intro ready hselecting hne hready
    obtain ⟨more, t, hmore, hround, htpc, -, hdelivers⟩ :=
      exists_round hleft hs.stream hselecting hne hready
    exact ⟨more, t, hmore, hround, htpc, hdelivers⟩
  · intro hselecting
    obtain ⟨more, t, hmore, hrest, hall⟩ :=
      exists_complete hleft hs.stream (pending_exec hok hpending hrun) hselecting
    refine ⟨more, t, hmore, hrest, ?_⟩
    intro i hi
    rw [hall i hi, honce, ← given_append, List.take_append_drop]

theorem callsBack : CallsBack := by
  intro items stream hrange hstream numSocks bufsize closed rdpipe bufs ls s hok hrun
  have hmsgs : ∀ i, ∀ p ∈ (items i).map Prod.snd, InRange p := by
    intro i p hp
    obtain ⟨x, hx, rfl⟩ := List.mem_map.mp hp
    exact hrange i x hx
  have hframes : ∀ i, stream i = frames ((items i).map Prod.snd) := by
    intro i
    obtain ⟨ws, ws', hemit⟩ := hstream i
    rcases emitAll_spec ws [] (hrange i) with ⟨rest, hall⟩ | ⟨hnone, -⟩
    · rw [hemit, List.nil_append, Option.some.injEq] at hall
      exact congrArg Prod.fst hall
    · rw [hemit] at hnone
      cases hnone
  refine ReadThr.callsBackIn_exec hmsgs hframes ?_ rfl ?_ hok hrun
  · simp [ReadThr.start]
  · intro pending rdfd hpc
    cases hpc

/-- **The framing round trip.** For messages of lengths in `[1, 2^31)`, both encoders emit the same
bytes, `tcp_read` reads them back message by message, and the reader threads call back once per
message, in order, with its bytes. -/
theorem framing_roundTrip : EncodersAgree ∧ ReadsBack ∧ CallsBack :=
  ⟨encodersAgree, readsBack, callsBack⟩

/-- Two messages of one client and one message of another. -/
def twoClients : Nat → List (Encoder × Payload)
  | 0 => [(.msgT, ⟨[7, 8], by decide⟩), (.tcpWrite, ⟨[9, 9, 5], by decide⟩)]
  | 1 => [(.tcpWrite, ⟨[1], by decide⟩)]
  | _ => []

/-- Both sockets in one round, the first message byte by byte, then the socket that has one more. -/
def twoRounds : List ReadLabel :=
  [.select [1, 0] false, .serve (List.replicate 6 (.got 0)) (fun _ => 1) (fun _ => 1),
    .serve [.got 3, .got 7] (fun _ => 1) (fun _ => 1), .select [0] false,
    .serve [.got 1, .got 8, .got 0, .got 9] (fun _ => 1) (fun _ => 1)]

/-- In these two rounds every message of both clients is given to the callback, the last one out of
the temporary buffer. -/
theorem framing_roundTrip_twoClients : ∃ s,
    exec ReadThr.step (ReadThr.start 2 2 (fun i => ⟨frames ((twoClients i).map Prod.snd), false⟩)
      ⟨[], false⟩ ⟨fun _ => 0, fun _ => 0, 0, false⟩) twoRounds = some s ∧
    s.pc = .selecting ∧ s.bufs.useTempbuf = true ∧ pipe 0 s.log = [(2, [7, 8]), (3, [9, 9, 5])] ∧
    pipe 1 s.log = [(1, [1])] := by
  obtain ⟨s, hrun, hend⟩ := exists_exec ReadThr.step
    (ReadThr.start 2 2 (fun i => ⟨frames ((twoClients i).map Prod.snd), false⟩) ⟨[], false⟩
      ⟨fun _ => 0, fun _ => 0, 0, false⟩) twoRounds
    (fun s => decide (s.pc = .selecting ∧ s.bufs.useTempbuf = true)) (by decide)
  obtain ⟨hpc, htemp⟩ := of_decide_eq_true hend
  have hsent : ∀ i, ∃ ws ws' : List Nat, emitAll (twoClients i) [] (ws.map .put) =
      some (frames ((twoClients i).map Prod.snd), ws'.map .put) := by
    intro i
    match i with
    | 0 => exact ⟨List.replicate 13 0, [], by decide⟩
    | 1 => exact ⟨List.replicate 5 0, [], by decide⟩
    | _ + 2 => exact ⟨[], [], rfl⟩
  have hrange : ∀ i, ∀ x ∈ twoClients i, InRange x.2 := by
    intro i
    match i with
    | 0 => simp [twoClients, InRange]
    | 1 => simp [twoClients, InRange]
    | _ + 2 => simp [twoClients]
  have hback := framing_roundTrip.2.2 twoClients _ hrange hsent 2 2 (fun _ => false) _ _ twoRounds s
    (by simp [twoRounds, ReadThr.NoError]) hrun
  exact ⟨s, hrun, hpc, htemp, hback.once 0, hback.once 1⟩

/-- Two messages byte by byte, with room for two bytes in the shared buffer: the second one goes to
the temporary buffer. -/
example :
    (emitAll [(.msgT, ⟨[7, 8], by decide⟩), (.tcpWrite, ⟨[9, 9, 5], by decide⟩)] []
        (List.replicate 13 (.put 0))).bind (fun r =>
      tcpReads 2 (List.replicate 2 (fun _ => 1, fun _ => 1))
        ⟨fun _ => 0, fun _ => 0, 0, false⟩ ⟨r.1, true⟩ (List.replicate 13 (.got 0))) =
      some ([(2, false, [7, 8]), (3, true, [9, 9, 5])], ⟨[], true⟩, []) := by
  decide

end CommTest.Socket
